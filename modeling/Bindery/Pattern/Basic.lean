import Bindery.Pattern.CharSet

/-!
# Patterns

A `Pattern` is a regular expression. The places of a text are those before its characters and the
one after the last; `Pattern.reach` takes the places where a match may begin to those where it may
end, and `Pattern.occursIn` asks for a match anywhere.
-/

namespace Bindery

/-- What is asked of a place, and not of a character. -/
inductive Anchor where
  | textStart
  | textEnd
  | lineStart
  | lineEnd
  /-- Lines may also end in a carriage return. -/
  | anyLineStart
  | anyLineEnd
  /-- A word begins or ends here; `unicode` says which characters are of words. -/
  | wordBoundary (unicode : Bool)
  | noWordBoundary (unicode : Bool)
  | wordStart (unicode : Bool)
  | wordEnd (unicode : Bool)
  /-- No word goes on to here, or from here. -/
  | wordStartHalf (unicode : Bool)
  | wordEndHalf (unicode : Bool)
  deriving DecidableEq, Inhabited

namespace Anchor

def isWord (unicode : Bool) (c : Option Char) : Bool :=
  c.any (if unicode then CharSet.word else CharSet.asciiWord).contains

/-- Holds of a place between two characters, each of which may be missing. -/
def holds (a : Anchor) (before after : Option Char) : Bool :=
  match a with
  | textStart => before.isNone
  | textEnd => after.isNone
  | lineStart => before.all (· == '\n')
  | lineEnd => after.all (· == '\n')
  | anyLineStart =>
    before.all fun c => c == '\n' || (c == '\r' && after != some '\n')
  | anyLineEnd =>
    after.all fun c => c == '\r' || (c == '\n' && before != some '\r')
  | wordBoundary u => isWord u before != isWord u after
  | noWordBoundary u => isWord u before == isWord u after
  | wordStart u => !isWord u before && isWord u after
  | wordEnd u => isWord u before && !isWord u after
  | wordStartHalf u => !isWord u before
  | wordEndHalf u => !isWord u after

end Anchor

inductive Pattern where
  /-- Nothing, which is everywhere. -/
  | empty
  | one (set : CharSet)
  | anchor (a : Anchor)
  | sequence (p q : Pattern)
  | either (p q : Pattern)
  /-- The pattern so often at least and at most, or at least so often and without an end. -/
  | repeated (p : Pattern) (least : Nat) (most : Option Nat)
  deriving DecidableEq, Inhabited

/-- A set of places of a text, by their order. -/
abbrev Places := List Bool

namespace Places

def union (m n : Places) : Places := List.zipWith or m n

/-- The places behind those characters of `set` that are at the places. -/
def after (set : CharSet) (s : List Char) (m : Places) : Places :=
  false :: List.zipWith (fun b c => b && set.contains c) m s

def neighbours (s : List Char) : List (Option Char × Option Char) :=
  List.zip (none :: s.map some) (s.map some ++ [none])

def anchored (a : Anchor) (s : List Char) (m : Places) : Places :=
  List.zipWith (fun b n => b && a.holds n.1 n.2) m (neighbours s)

/-- The places after `n` steps. If a step changes nothing, neither does the next. -/
def iterate (step : Places → Places) : Nat → Places → Places
  | 0, m => m
  | n + 1, m =>
    let next := step m
    if next = m then m else iterate step n next

/-- The places after any number of steps up to `n`. -/
def closure (step : Places → Places) : Nat → Places → Places
  | 0, m => m
  | n + 1, m =>
    let next := m.union (step m)
    if next = m then m else closure step n next

end Places

namespace Pattern

/-- The places where a match may end that begins at one of the places. -/
def reach (s : List Char) : Pattern → Places → Places
  | empty, m => m
  | one set, m => m.after set s
  | anchor a, m => m.anchored a s
  | sequence p q, m => q.reach s (p.reach s m)
  | either p q, m => (p.reach s m).union (q.reach s m)
  | repeated p least most, m =>
    let step := fun m => p.reach s m
    let m := Places.iterate step least m
    match most with
    | none => Places.closure step (s.length + 1) m
    | some k => Places.closure step (k - least) m

/-- There is a match somewhere in the text. -/
def occursIn (p : Pattern) (s : List Char) : Bool :=
  (p.reach s (List.replicate (s.length + 1) true)).any id

def sequences (ps : List Pattern) : Pattern :=
  match ps with
  | [] => empty
  | p :: ps => ps.foldl sequence p

end Pattern

end Bindery
