/-!
# Occurrences of one text in another

`cut?` finds the first occurrence of a pattern, `pieces` are the texts between successive
occurrences from left to right, none overlapping another. The empty pattern occurs at every
boundary between characters, both ends included. `occurrences` counts and `replaceAll` replaces.
-/

namespace Bindery.Text

/-- The text before the first occurrence of `pat` and the text after it. -/
def cut? (pat : List Char) : List Char → Option (List Char × List Char)
  | [] => if pat.isEmpty then some ([], []) else none
  | c :: s =>
    if pat.isPrefixOf (c :: s) then some ([], (c :: s).drop pat.length)
    else (cut? pat s).map fun p => (c :: p.1, p.2)

theorem cut?_eq_some {pat s a b : List Char} (h : cut? pat s = some (a, b)) :
    s = a ++ pat ++ b := by
  induction s generalizing a b with
  | nil =>
    simp only [cut?, List.isEmpty_iff, Option.ite_none_right_eq_some, Option.some.injEq,
      Prod.mk.injEq] at h
    obtain ⟨rfl, rfl, rfl⟩ := h
    rfl
  | cons c s ih =>
    rw [cut?] at h
    split at h
    · next hp =>
      obtain ⟨t, ht⟩ := List.isPrefixOf_iff_prefix.1 hp
      simp only [Option.some.injEq, Prod.mk.injEq] at h
      obtain ⟨rfl, rfl⟩ := h
      simp [← ht]
    · obtain ⟨p, hp, h⟩ := Option.map_eq_some_iff.1 h
      simp only [Prod.mk.injEq] at h
      obtain ⟨rfl, rfl⟩ := h
      simp [ih (a := p.1) (b := p.2) hp]

theorem length_lt_of_cut? {pat s a b : List Char} (hp : pat ≠ []) (h : cut? pat s = some (a, b)) :
    b.length < s.length := by
  have := List.length_pos_iff.2 hp
  have := congrArg List.length (cut?_eq_some h)
  simp only [List.length_append] at this
  omega

/-- The texts before, between and after the occurrences of a pattern that is not empty. -/
def piecesAux (pat : List Char) (hp : pat ≠ []) (s : List Char) : List (List Char) :=
  match h : cut? pat s with
  | none => [s]
  | some (a, b) =>
    have := length_lt_of_cut? hp h
    a :: piecesAux pat hp b
termination_by s.length

def pieces (pat s : List Char) : List (List Char) :=
  if h : pat = [] then [] :: s.map (fun c => [c]) ++ [[]] else piecesAux pat h s

def occurrences (pat s : List Char) : Nat := (pieces pat s).length - 1

def replaceAll (pat sub s : List Char) : List Char := sub.intercalate (pieces pat s)

theorem contains_iff_cut? {pat s : List Char} : (cut? pat s).isSome ↔ pat <:+: s := by
  induction s with
  | nil => simp [cut?, List.isEmpty_iff]
  | cons c s ih =>
    rw [cut?, List.infix_cons_iff, ← ih]
    split
    · next hp => simp [List.isPrefixOf_iff_prefix.1 hp]
    · next hp =>
      have : ¬ pat <+: c :: s := fun h => hp (List.isPrefixOf_iff_prefix.2 h)
      simp [this]

/-- Whether `pat` stands somewhere in `s`. -/
def contains (pat s : List Char) : Bool := (cut? pat s).isSome

end Bindery.Text
