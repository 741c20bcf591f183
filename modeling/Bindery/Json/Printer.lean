import Bindery.Json.Value
import Bindery.Text.Hexadecimal

/-!
# Writing stored values

`Json.pretty` writes a value over several lines, two blanks to a level, an empty list or object in
one piece.
-/

namespace Bindery.Json

def escapeChar (c : Char) : List Char :=
  if c = '"' then ['\\', '"']
  else if c = '\\' then ['\\', '\\']
  else if c = '\x08' then ['\\', 'b']
  else if c = '\x0c' then ['\\', 'f']
  else if c = '\n' then ['\\', 'n']
  else if c = '\r' then ['\\', 'r']
  else if c = '\t' then ['\\', 't']
  else if c.toNat < 0x20 then
    let ds := Text.hexDigits c.toNat
    ['\\', 'u'] ++ List.replicate (4 - ds.length) '0' ++ ds
  else [c]

def quoted (s : String) : String := "\"" ++ String.ofList (s.toList.flatMap escapeChar) ++ "\""

def newline (level : Nat) : String := "\n" ++ String.ofList (List.replicate (2 * level) ' ')

mutual

def render (level : Nat) : Json → String
  | .null => "null"
  | .bool true => "true"
  | .bool false => "false"
  | .natural n => toString n
  | .fraction => "null"
  | .invalid => "null"
  | .string s => quoted s
  | .array [] => "[]"
  | .array (x :: xs) =>
    "[" ++ newline (level + 1) ++ render (level + 1) x ++ renderElements (level + 1) xs ++
      newline level ++ "]"
  | .object [] => "\x7b\x7d"
  | .object ((k, x) :: fs) =>
    "\x7b" ++ newline (level + 1) ++ quoted k ++ ": " ++ render (level + 1) x ++
      renderFields (level + 1) fs ++ newline level ++ "\x7d"

def renderElements (level : Nat) : List Json → String
  | [] => ""
  | x :: xs => "," ++ newline level ++ render level x ++ renderElements level xs

def renderFields (level : Nat) : List (String × Json) → String
  | [] => ""
  | (k, x) :: fs =>
    "," ++ newline level ++ quoted k ++ ": " ++ render level x ++ renderFields level fs

end

def pretty (x : Json) : String := render 0 x

end Bindery.Json
