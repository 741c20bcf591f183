import Bindery.Text.Hexadecimal
import Bindery.Text.Visible

/-!
# Quoted text

`quoted s` is the form in which a text stands inside a log line: in double quotes, with the quote,
the backslash and five controls escaped by one letter, and every other character that is not
visible given by its number. `quotedList` puts several of them in brackets.
-/

namespace Bindery.Text

def escapeChar (c : Char) : List Char :=
  if c = '"' then ['\\', '"']
  else if c = '\\' then ['\\', '\\']
  else if c = '\n' then ['\\', 'n']
  else if c = '\r' then ['\\', 'r']
  else if c = '\t' then ['\\', 't']
  else if c = '\x00' then ['\\', '0']
  else if isVisible c then [c]
  else ['\\', 'u', '\x7b'] ++ hexDigits c.toNat ++ ['\x7d']

def quoted (s : String) : String :=
  "\"" ++ String.ofList (s.toList.flatMap escapeChar) ++ "\""

def quotedList (xs : List String) : String :=
  "[" ++ ", ".intercalate (xs.map quoted) ++ "]"

end Bindery.Text
