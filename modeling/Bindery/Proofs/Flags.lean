import Bindery.Declaration
import Mathlib.Algebra.BigOperators.Group.Finset.Piecewise

/-!
# Single flags and counts of bits

The flags with a name are single bits, so a union has such a flag just if one of its sides has it.
`Flags.added` counts the bits that are set between one word and the next.
-/

namespace Bindery.Flags

/-- A flag of one bit. -/
def IsBit (f : Flags) : Prop := ∃ i, f.word = BitVec.twoPow 16 i ∧ i < 16

theorem isBit_ignored : ignored.IsBit := ⟨0, rfl, by decide⟩

theorem isBit_valueType : valueType.IsBit := ⟨1, rfl, by decide⟩

theorem isBit_bitmask : bitmask.IsBit := ⟨2, rfl, by decide⟩

theorem isBit_readOnly : readOnly.IsBit := ⟨3, rfl, by decide⟩

theorem isBit_incomplete : incomplete.IsBit := ⟨4, rfl, by decide⟩

theorem isBit_synthesized : synthesized.IsBit := ⟨5, rfl, by decide⟩

theorem isBit_removed : removed.IsBit := ⟨6, rfl, by decide⟩

theorem isBit_renamed : renamed.IsBit := ⟨7, rfl, by decide⟩

/-- Having a single flag is having its bit. -/
theorem IsBit.exists_has {h : Flags} (hh : h.IsBit) :
    ∃ i, ∀ f : Flags, f.has h = f.word.getLsbD i := by
  obtain ⟨i, hi, hlt⟩ := hh
  refine ⟨i, fun f => ?_⟩
  have hne : BitVec.twoPow 16 i ≠ 0#16 := by
    intro h0
    have := congrArg (BitVec.getLsbD · i) h0
    simp [hlt] at this
  rw [has, hi, BitVec.and_twoPow]
  cases f.word.getLsbD i
  · simpa using Ne.symm hne
  · simp

theorem IsBit.has_union {h : Flags} (hh : h.IsBit) (f g : Flags) :
    (f ∪ g).has h = (f.has h || g.has h) := by
  obtain ⟨i, hi⟩ := hh.exists_has
  rw [hi, hi, hi, word_union, BitVec.getLsbD_or]

theorem IsBit.has_none {h : Flags} (hh : h.IsBit) : Flags.none.has h = false := by
  obtain ⟨i, hi⟩ := hh.exists_has
  rw [hi]
  exact BitVec.getLsbD_zero

/-! ### Unions -/

theorem union_assoc (f g h : Flags) : f ∪ g ∪ h = f ∪ (g ∪ h) :=
  congrArg Flags.mk (BitVec.or_assoc _ _ _)

theorem union_comm (f g : Flags) : f ∪ g = g ∪ f := congrArg Flags.mk (BitVec.or_comm _ _)

@[simp] theorem union_self (f : Flags) : f ∪ f = f := congrArg Flags.mk BitVec.or_self

@[simp] theorem union_none (f : Flags) : f ∪ none = f := congrArg Flags.mk BitVec.or_zero

theorem has_none (f : Flags) : f.has none := by
  rw [has_iff]
  exact BitVec.and_zero

theorem has_self (f : Flags) : f.has f := by
  rw [has_iff, BitVec.and_self]

theorem has_trans {f g h : Flags} (hfg : f.has g) (hgh : g.has h) : f.has h := by
  rw [has_iff] at *
  rw [← hgh, ← BitVec.and_assoc, hfg]

theorem has_union_left (f g : Flags) : (f ∪ g).has f := has_union_of_has g (has_self f)

theorem has_union_iff {f g h : Flags} : f.has (g ∪ h) ↔ f.has g ∧ f.has h := by
  constructor
  · exact fun hf => ⟨has_trans hf (has_union_left g h), has_trans hf (has_union_right g h)⟩
  · rintro ⟨hg, hh⟩
    rw [← union_eq_left hh, ← union_eq_left hg, union_assoc]
    exact has_union_right f (g ∪ h)

/-! ### Counting bits -/

/-- How many bits the second has that the first has not. -/
def added (f g : Flags) : Nat :=
  ((Finset.range 16).filter fun b => g.word.getLsbD b ∧ ¬ f.word.getLsbD b).card

@[simp] theorem added_self (f : Flags) : f.added f = 0 := by
  simp [added]

/-- Bits that are set one union after the other are counted once. -/
theorem added_union_union (f g h : Flags) :
    f.added (f ∪ (g ∪ h)) = f.added (f ∪ g) + (f ∪ g).added (f ∪ (g ∪ h)) := by
  simp only [added, Finset.card_filter, ← Finset.sum_add_distrib, word_union, BitVec.getLsbD_or]
  refine Finset.sum_congr rfl fun b _ => ?_
  cases f.word.getLsbD b <;> cases g.word.getLsbD b <;> cases h.word.getLsbD b <;> rfl

/-- A single bit is counted where it was not set. -/
theorem IsBit.added_union {h : Flags} (hh : h.IsBit) (f : Flags) :
    f.added (f ∪ h) = if f.has h then 0 else 1 := by
  obtain ⟨i, hi, hlt⟩ := hh
  have hbit : ∀ b, h.word.getLsbD b = decide (b = i) := fun b => by
    rw [hi, BitVec.getLsbD_twoPow]
    grind
  have hhas : f.has h = f.word.getLsbD i := by
    obtain ⟨j, hj⟩ := IsBit.exists_has ⟨i, hi, hlt⟩
    have hjh := hj h
    rw [has_self, hbit] at hjh
    rw [hj f, of_decide_eq_true hjh.symm]
  have hcount : ∀ b, ((f ∪ h).word.getLsbD b ∧ ¬ f.word.getLsbD b) ↔ b = i ∧ ¬ f.has h := by
    intro b
    rw [word_union, BitVec.getLsbD_or, hbit, hhas]
    by_cases hb : b = i <;> simp [hb]
  rw [added, Finset.filter_congr fun b _ => hcount b]
  split
  · next hf => simp [hf]
  · next hf => simp [hf, Finset.filter_eq', hlt]

end Bindery.Flags
