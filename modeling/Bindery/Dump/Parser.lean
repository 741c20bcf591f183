import Bindery.Dump.Attempts

/-!
# Parsers

A `Parser` reads a value from a `Cursor` and keeps `Attempts`, which no alternative takes back.
`next`, `many` and `opt` skip blanks and comments before what they read.
-/

namespace Bindery.Dump

/-- A place in a text: how much stands before it, and what follows. -/
structure Cursor where
  pos : Nat := 0
  rest : List Char
  deriving DecidableEq, Inhabited

namespace Cursor

def advance (c : Cursor) (n : Nat) : Cursor := ⟨c.pos + n, c.rest.drop n⟩

end Cursor

def Parser (α : Type) : Type := Cursor → Attempts → Option (α × Cursor) × Attempts

namespace Parser

variable {α β : Type}

protected def pure (x : α) : Parser α := fun c a => (some (x, c), a)

protected def bind (p : Parser α) (f : α → Parser β) : Parser β := fun c a =>
  match p c a with
  | (some (x, c), a) => f x c a
  | (none, a) => (none, a)

instance : Monad Parser where
  pure := Parser.pure
  bind := Parser.bind

instance : LawfulMonad Parser := LawfulMonad.mk' Parser
  (fun p => funext fun c => funext fun a => by
    show Parser.bind p Parser.pure c a = p c a
    unfold Parser.bind
    rcases p c a with ⟨_ | _, _⟩ <;> rfl)
  (fun _ _ => rfl)
  (fun p f q => funext fun c => funext fun a => by
    show Parser.bind (Parser.bind p f) q c a = Parser.bind p (fun x => Parser.bind (f x) q) c a
    unfold Parser.bind
    rcases p c a with ⟨_ | _, _⟩ <;> rfl)

def fail : Parser α := fun _ a => (none, a)

/-- The second parser where the first one fails. -/
protected def orElse (p : Parser α) (q : Unit → Parser α) : Parser α := fun c a =>
  match p c a with
  | (some x, a) => (some x, a)
  | (none, a) => q () c a

instance : OrElse (Parser α) := ⟨Parser.orElse⟩

/-- A construct that messages may name. -/
def named (k : Construct) (p : Parser α) : Parser α := fun c a =>
  match p c a with
  | (some x, a') => (some x, a')
  | (none, a') => (none, a'.failed k c.pos (a.countAt c.pos))

/-- As many characters as `length` says, of which there must be some. -/
def run (length : List Char → Nat) : Parser (List Char) := fun c a =>
  let n := length c.rest
  if n = 0 then (none, a) else (some (c.rest.take n, c.advance n), a)

/-- The given text. -/
def word (w : String) : Parser Unit := fun c a =>
  if w.toList.isPrefixOf c.rest then (some ((), c.advance w.length), a) else (none, a)

/-- The end of the text. -/
def atEnd : Parser Unit := fun c a => if c.rest.isEmpty then (some ((), c), a) else (none, a)

end Parser

/-- How many characters of blanks and comments stand at the front. -/
def blankLength (inComment : Bool) : List Char → Nat
  | [] => 0
  | c :: s =>
    if c = '\n' ∨ c = '\r' then blankLength false s + 1
    else if inComment then blankLength true s + 1
    else if c = ' ' ∨ c = '\t' then blankLength false s + 1
    else if c = '/' ∧ s.head? = some '/' then blankLength true s + 1
    else 0

namespace Parser

variable {α : Type}

def skip : Parser Unit := fun c a => (some ((), c.advance (blankLength false c.rest)), a)

def next (p : Parser α) : Parser α := do
  skip
  p

def opt (p : Parser α) : Parser (Option α) := some <$> next p <|> pure none

/-- As many values as can be read, at most `n`. -/
def upTo (p : Parser α) : Nat → Parser (List α)
  | 0 => pure []
  | n + 1 => (do
      let x ← next p
      let xs ← upTo p n
      return x :: xs) <|> pure []

/-- As many values as can be read, each of them at least a character long. -/
def many (p : Parser α) : Parser (List α) := fun c a => upTo p (c.rest.length + 1) c a

/-- Values with commas between them. -/
def commaSeparated (p : Parser α) : Parser (List α) := do
  let x ← p
  let xs ← many do
    word ","
    next p
  return x :: xs

end Parser

end Bindery.Dump
