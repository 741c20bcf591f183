import Bindery.Text.Blank
import Bindery.Text.Folding
import Bindery.Text.Word

/-!
# Sets of characters

A `CharSet` is a class of characters as a pattern writes it; `contains` is what it stands for.
-/

namespace Bindery

inductive CharSet where
  | empty
  /-- The characters from `first` to `last`. -/
  | range (first last : Char)
  | decimal
  | word
  | blank
  | union (a b : CharSet)
  | intersection (a b : CharSet)
  | difference (a b : CharSet)
  | symmetricDifference (a b : CharSet)
  | complement (a : CharSet)
  /-- The members in every case. -/
  | folded (a : CharSet)
  /-- The members, those that are ASCII letters in both cases. -/
  | asciiFolded (a : CharSet)
  deriving DecidableEq, Inhabited

namespace CharSet

def contains : CharSet → Char → Bool
  | empty, _ => false
  | range first last, c => first ≤ c && c ≤ last
  | decimal, c => Text.isDecimal c
  | word, c => Text.isWord c
  | blank, c => Text.isBlank c
  | union a b, c => a.contains c || b.contains c
  | intersection a b, c => a.contains c && b.contains c
  | difference a b, c => a.contains c && !b.contains c
  | symmetricDifference a b, c => a.contains c != b.contains c
  | complement a, c => !a.contains c
  | folded a, c => (Text.caseVariants c).any fun d => a.contains d
  | asciiFolded a, c => [c, c.toLower, c.toUpper].any fun d => a.contains d

def singleton (c : Char) : CharSet := range c c

def unions (sets : List CharSet) : CharSet := sets.foldl union empty

def ranges (rs : List (Char × Char)) : CharSet := unions (rs.map fun r => range r.1 r.2)

def any : CharSet := complement empty

/-! ### Classes by name -/

def asciiDecimal : CharSet := range '0' '9'

def asciiWord : CharSet := ranges [('0', '9'), ('A', 'Z'), ('_', '_'), ('a', 'z')]

def asciiBlank : CharSet := ranges [('\t', '\r'), (' ', ' ')]

/-- The classes of ASCII characters that have names. -/
def named? : String → Option CharSet
  | "alnum" => some (ranges [('0', '9'), ('A', 'Z'), ('a', 'z')])
  | "alpha" => some (ranges [('A', 'Z'), ('a', 'z')])
  | "ascii" => some (range '\x00' '\x7f')
  | "blank" => some (ranges [('\t', '\t'), (' ', ' ')])
  | "cntrl" => some (ranges [('\x00', '\x1f'), ('\x7f', '\x7f')])
  | "digit" => some asciiDecimal
  | "graph" => some (range '!' '~')
  | "lower" => some (range 'a' 'z')
  | "print" => some (range ' ' '~')
  | "punct" => some (ranges [('!', '/'), (':', '@'), ('[', '\x60'), ('\x7b', '~')])
  | "space" => some asciiBlank
  | "upper" => some (range 'A' 'Z')
  | "word" => some asciiWord
  | "xdigit" => some (ranges [('0', '9'), ('A', 'F'), ('a', 'f')])
  | _ => none

end CharSet

end Bindery
