import Bindery.Json.Magnitude
import Bindery.Json.Value
import Bindery.Text.Hexadecimal

/-!
# Reading stored values

`Json.ofText?` reads one value that fills the whole text up to blanks. Objects keep their fields as
written, repeated names included; what a repetition means is for the reader of the object to say.
-/

namespace Bindery.Json

def skipBlanks (s : List Char) : List Char :=
  s.dropWhile fun c => c = ' ' || c = '\n' || c = '\t' || c = '\r'

/-- The character for an escape of one letter. -/
def letterEscape? : Char → Option Char
  | '"' => some '"'
  | '\\' => some '\\'
  | '/' => some '/'
  | 'b' => some '\x08'
  | 'f' => some '\x0c'
  | 'n' => some '\n'
  | 'r' => some '\r'
  | 't' => some '\t'
  | _ => none

/-- One character of a string, or the sixteen bits that an escape gives by number. -/
inductive Unit16 where
  | char (c : Char)
  | bits (n : Nat)

/-- The rest of a string after its opening quote, and what follows its closing quote. -/
def scanString? : List Char → Option (List Unit16 × List Char)
  | [] => none
  | '"' :: r => some ([], r)
  | '\\' :: 'u' :: a :: b :: c :: d :: r => do
    let n ← Text.hexValue? [a, b, c, d]
    let (us, r) ← scanString? r
    return (.bits n :: us, r)
  | '\\' :: e :: r => do
    let c ← letterEscape? e
    let (us, r) ← scanString? r
    return (.char c :: us, r)
  | c :: r => do
    guard (0x20 ≤ c.toNat)
    let (us, r) ← scanString? r
    return (.char c :: us, r)

def isHighHalf (n : Nat) : Bool := 0xD800 ≤ n && n < 0xDC00

def isLowHalf (n : Nat) : Bool := 0xDC00 ≤ n && n < 0xE000

/-- Pairs of halves become characters; a half on its own makes the text meaningless. -/
def joinUnits? : List Unit16 → Option (List Char)
  | [] => some []
  | .char c :: us => (joinUnits? us).map (c :: ·)
  | .bits h :: .bits l :: us =>
    if isHighHalf h && isLowHalf l then
      (joinUnits? us).map (Char.ofNat (0x10000 + (h - 0xD800) * 0x400 + (l - 0xDC00)) :: ·)
    else if isHighHalf h || isLowHalf h then none
    else (joinUnits? (.bits l :: us)).map (Char.ofNat h :: ·)
  | .bits n :: us =>
    if isHighHalf n || isLowHalf n then none else (joinUnits? us).map (Char.ofNat n :: ·)

/-- A string in form; its text is missing if it has half of a surrogate pair. -/
def string? (s : List Char) : Option (Option String × List Char) := do
  let (us, r) ← scanString? s
  return ((joinUnits? us).map String.ofList, r)

def digitsValue (s : List Char) : Nat := s.foldl (fun n c => n * 10 + digitValue c) 0

/-- A number: sign, digits without a leading zero, fraction, exponent. -/
def number? (s : List Char) : Option (Json × List Char) := do
  let (negative, s) := match s with
    | '-' :: r => (true, r)
    | s => (false, s)
  let whole := s.takeWhile Char.isDigit
  let s := s.drop whole.length
  guard (whole ≠ [] ∧ (whole = ['0'] ∨ whole.head? ≠ some '0'))
  let (frac, s) ← match s with
    | '.' :: r =>
      let ds := r.takeWhile Char.isDigit
      if ds = [] then none else some (some ds, r.drop ds.length)
    | s => some (none, s)
  let (exponent, s) ← match s with
    | e :: r =>
      if e = 'e' ∨ e = 'E' then
        let (sign, r) := match r with
          | '+' :: r => ((1 : Int), r)
          | '-' :: r => (-1, r)
          | r => (1, r)
        let ds := r.takeWhile Char.isDigit
        if ds = [] then none else some (some (sign * digitsValue ds), r.drop ds.length)
      else some (none, s)
    | [] => some (none, s)
  if negative = false ∧ frac = none ∧ exponent = none ∧ digitsValue whole < 1 <<< 64 then
    return (.natural (digitsValue whole), s)
  else if (Magnitude.ofDigits whole (frac.getD []) (exponent.getD 0)).isTooGreat then
    return (.invalid, s)
  else return (.fraction, s)

def literal? (word : String) (value : Json) (s : List Char) : Option (Json × List Char) :=
  if word.toList.isPrefixOf s then some (value, s.drop word.length) else none

/-- An object whose names have a text each; otherwise it is invalid as a whole. -/
def objectOf (fields : List (Option String × Json)) : Json :=
  match fields.mapM fun f => f.1.map (·, f.2) with
  | some fs => .object fs
  | none => .invalid

/-- How many lists and objects may stand inside one another. -/
def maxDepth : Nat := 127

/-- A list or object inside `level` others, which is of no use if they are too many. -/
def atLevel (level : Nat) (x : Json) : Json := if level < maxDepth then x else .invalid

mutual

/-- A value and what follows it. It stands inside `level` lists and objects; `fuel` bounds what is
still to be read. -/
def value? (fuel level : Nat) (s : List Char) : Option (Json × List Char) :=
  match fuel with
  | 0 => none
  | fuel + 1 =>
    match s with
    | '"' :: r => (string? r).map fun p => (p.1.elim .invalid .string, p.2)
    | '[' :: r =>
      match skipBlanks r with
      | ']' :: r => some (atLevel level (.array []), r)
      | r => (elements? fuel (level + 1) r).map fun p => (atLevel level (.array p.1), p.2)
    | '\x7b' :: r =>
      match skipBlanks r with
      | '\x7d' :: r => some (atLevel level (.object []), r)
      | r => (fields? fuel (level + 1) r).map fun p => (atLevel level (objectOf p.1), p.2)
    | 'n' :: _ => literal? "null" .null s
    | 't' :: _ => literal? "true" (.bool true) s
    | 'f' :: _ => literal? "false" (.bool false) s
    | _ => number? s

def elements? (fuel level : Nat) (s : List Char) : Option (List Json × List Char) :=
  match fuel with
  | 0 => none
  | fuel + 1 => do
    let (x, s) ← value? fuel level s
    match skipBlanks s with
    | ']' :: r => return ([x], r)
    | ',' :: r =>
      let (xs, s) ← elements? fuel level (skipBlanks r)
      return (x :: xs, s)
    | _ => none

def fields? (fuel level : Nat) (s : List Char) : Option (List (Option String × Json) × List Char) :=
  match fuel with
  | 0 => none
  | fuel + 1 =>
    match s with
    | '"' :: s => do
      let (name, s) ← string? s
      match skipBlanks s with
      | ':' :: s =>
        let (x, s) ← value? fuel level (skipBlanks s)
        match skipBlanks s with
        | '\x7d' :: r => return ([(name, x)], r)
        | ',' :: r =>
          let (fs, s) ← fields? fuel level (skipBlanks r)
          return ((name, x) :: fs, s)
        | _ => none
      | _ => none
    | _ => none

end

def ofText? (text : String) : Option Json := do
  let s := text.toList
  let (x, r) ← value? (s.length + 1) 0 (skipBlanks s)
  guard (skipBlanks r = [])
  return x

end Bindery.Json
