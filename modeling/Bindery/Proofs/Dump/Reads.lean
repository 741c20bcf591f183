import Bindery.Dump.Parser

/-!
# What parsers read

`Reads p i x r`: on the input `i` the parser `p` reads the value `x` and leaves `r`, wherever `i`
stands and whatever has been attempted before. `Refuses p i`: it fails there. There is a rule for
each way in which parsers are put together.
-/

namespace Bindery.Dump.Parser

variable {α β : Type} {p q : Parser α} {i m r : List Char} {x : α} {xs : List α} {k : Construct}

def Reads (p : Parser α) (i : List Char) (x : α) (r : List Char) : Prop :=
  ∀ pos a, ∃ pos' a', p ⟨pos, i⟩ a = (some (x, ⟨pos', r⟩), a')

def Refuses (p : Parser α) (i : List Char) : Prop := ∀ pos a, ∃ a', p ⟨pos, i⟩ a = (none, a')

theorem reads_pure : Reads (pure x) i x i := fun pos a => ⟨pos, a, rfl⟩

theorem refuses_fail : Refuses (fail : Parser α) i := fun _ a => ⟨a, rfl⟩

section
variable {p : Parser β} {f : β → Parser α} {y : β}

theorem reads_bind (hp : Reads p i y m) (hf : Reads (f y) m x r) : Reads (p >>= f) i x r := by
  intro pos a
  obtain ⟨pos₁, a₁, h₁⟩ := hp pos a
  obtain ⟨pos₂, a₂, h₂⟩ := hf pos₁ a₁
  refine ⟨pos₂, a₂, ?_⟩
  show Parser.bind p f ⟨pos, i⟩ a = _
  rw [Parser.bind, h₁]
  exact h₂

theorem refuses_bind (hp : Refuses p i) : Refuses (p >>= f) i := by
  intro pos a
  obtain ⟨a₁, h₁⟩ := hp pos a
  refine ⟨a₁, ?_⟩
  show Parser.bind p f ⟨pos, i⟩ a = _
  rw [Parser.bind, h₁]

/-- A parser that fails after it has read something. -/
theorem refuses_bind_of_reads (hp : Reads p i y m) (hf : Refuses (f y) m) :
    Refuses (p >>= f) i := by
  intro pos a
  obtain ⟨pos₁, a₁, h₁⟩ := hp pos a
  obtain ⟨a₂, h₂⟩ := hf pos₁ a₁
  refine ⟨a₂, ?_⟩
  show Parser.bind p f ⟨pos, i⟩ a = _
  rw [Parser.bind, h₁]
  exact h₂

theorem reads_map {g : β → α} (hp : Reads p i y m) : Reads (g <$> p) i (g y) m := by
  rw [map_eq_pure_bind]
  exact reads_bind hp reads_pure

theorem refuses_map {g : β → α} (hp : Refuses p i) : Refuses (g <$> p) i := by
  rw [map_eq_pure_bind]
  exact refuses_bind hp

theorem reads_discard (hp : Reads p i y m) : Reads (discard p) i () m := reads_map hp

theorem refuses_discard (hp : Refuses p i) : Refuses (discard p) i := refuses_map hp

end

theorem reads_orElse_left (hp : Reads p i x r) : Reads (p <|> q) i x r := by
  intro pos a
  obtain ⟨pos₁, a₁, h₁⟩ := hp pos a
  refine ⟨pos₁, a₁, ?_⟩
  show Parser.orElse p (fun _ => q) ⟨pos, i⟩ a = _
  rw [Parser.orElse, h₁]

theorem reads_orElse_right (hp : Refuses p i) (hq : Reads q i x r) : Reads (p <|> q) i x r := by
  intro pos a
  obtain ⟨a₁, h₁⟩ := hp pos a
  obtain ⟨pos₂, a₂, h₂⟩ := hq pos a₁
  refine ⟨pos₂, a₂, ?_⟩
  show Parser.orElse p (fun _ => q) ⟨pos, i⟩ a = _
  rw [Parser.orElse, h₁]
  exact h₂

theorem refuses_orElse (hp : Refuses p i) (hq : Refuses q i) : Refuses (p <|> q) i := by
  intro pos a
  obtain ⟨a₁, h₁⟩ := hp pos a
  obtain ⟨a₂, h₂⟩ := hq pos a₁
  refine ⟨a₂, ?_⟩
  show Parser.orElse p (fun _ => q) ⟨pos, i⟩ a = _
  rw [Parser.orElse, h₁]
  exact h₂

theorem reads_named (hp : Reads p i x r) : Reads (named k p) i x r := by
  intro pos a
  obtain ⟨pos₁, a₁, h₁⟩ := hp pos a
  exact ⟨pos₁, a₁, by rw [named, h₁]⟩

theorem refuses_named (hp : Refuses p i) : Refuses (named k p) i := by
  intro pos a
  obtain ⟨a₁, h₁⟩ := hp pos a
  exact ⟨_, by rw [named, h₁]⟩

/-! ### Characters -/

theorem reads_run {length : List Char → Nat} {s : List Char} (hs : s ≠ [])
    (h : length (s ++ r) = s.length) : Reads (run length) (s ++ r) s r := by
  intro pos a
  refine ⟨pos + s.length, a, ?_⟩
  have hne : s.length ≠ 0 := fun h0 => hs (List.length_eq_zero_iff.1 h0)
  simp only [run, h, hne, if_false, Cursor.advance, List.take_left, List.drop_left]

theorem refuses_run {length : List Char → Nat} (h : length i = 0) : Refuses (run length) i :=
  fun _ a => ⟨a, by simp only [run, h, if_true]⟩

theorem reads_word (w : String) : Reads (word w) (w.toList ++ r) () r := by
  intro pos a
  refine ⟨pos + w.length, a, ?_⟩
  have hpre : w.toList.isPrefixOf (w.toList ++ r) := by
    rw [List.isPrefixOf_iff_prefix]
    exact List.prefix_append _ _
  simp only [word, hpre, if_true, Cursor.advance, ← String.length_toList, List.drop_left]

theorem refuses_word {w : String} (h : ¬ w.toList <+: i) : Refuses (word w) i := by
  intro pos a
  refine ⟨a, ?_⟩
  rw [← List.isPrefixOf_iff_prefix] at h
  simp only [word, h, Bool.false_eq_true, if_false]

theorem refuses_word_cons {w : String} {c d : Char} {s : List Char} (hw : w.toList = d :: s)
    (hc : c ≠ d) : Refuses (word w) (c :: r) :=
  refuses_word fun h => hc (List.cons_prefix_cons.1 (hw ▸ h)).1.symm

theorem reads_atEnd : Reads atEnd [] () [] := fun pos a => ⟨pos, a, rfl⟩

/-! ### Blanks -/

/-- What follows the blanks and comments at the front of `i` is `j`. -/
def Skips (i j : List Char) : Prop := i.drop (blankLength false i) = j

theorem Skips.length_le {j : List Char} (h : Skips i j) : j.length ≤ i.length := by
  rw [← h, List.length_drop]
  exact Nat.sub_le _ _

theorem reads_next {j : List Char} (h : Skips i j) (hp : Reads p j x r) : Reads (next p) i x r :=
  reads_bind (m := j) (fun pos a => ⟨pos + blankLength false i, a, by rw [← h]; rfl⟩) hp

theorem refuses_next {j : List Char} (h : Skips i j) (hp : Refuses p j) : Refuses (next p) i :=
  refuses_bind_of_reads (m := j) (fun pos a => ⟨pos + blankLength false i, a, by rw [← h]; rfl⟩) hp

/-! ### Parts that may be missing, and repetitions -/

theorem reads_opt_some (hp : Reads (next p) i x r) : Reads (opt p) i (some x) r :=
  reads_orElse_left (reads_map hp)

theorem reads_opt_none (hp : Refuses (next p) i) : Reads (opt p) i none i :=
  reads_orElse_right (refuses_map hp) reads_pure

/-- Values that are read one after the other, up to where the parser fails. -/
inductive ReadsAll (p : Parser α) : List Char → List α → List Char → Prop
  | nil {i : List Char} (h : Refuses (next p) i) : ReadsAll p i [] i
  | cons {i m r : List Char} {x : α} {xs : List α} (hx : Reads (next p) i x m)
      (hm : m.length < i.length) (hxs : ReadsAll p m xs r) : ReadsAll p i (x :: xs) r

theorem ReadsAll.reads_upTo (h : ReadsAll p i xs r) :
    ∀ n, i.length < n → Reads (upTo p n) i xs r := by
  induction h with
  | nil h =>
    intro n hn
    obtain ⟨n, rfl⟩ := Nat.exists_eq_succ_of_ne_zero (Nat.ne_zero_of_lt hn)
    exact reads_orElse_right (refuses_bind h) reads_pure
  | cons hx hm _ ih =>
    intro n hn
    obtain ⟨n, rfl⟩ := Nat.exists_eq_succ_of_ne_zero (Nat.ne_zero_of_lt hn)
    exact reads_orElse_left (reads_bind hx (reads_bind (ih n (by omega)) reads_pure))

theorem reads_many (h : ReadsAll p i xs r) : Reads (many p) i xs r := fun pos a =>
  h.reads_upTo (i.length + 1) i.length.lt_succ_self pos a

theorem reads_commaSeparated (hx : Reads p i x m)
    (hxs : ReadsAll (do word ","; next p) m xs r) : Reads (commaSeparated p) i (x :: xs) r :=
  reads_bind hx (reads_bind (reads_many hxs) reads_pure)

end Bindery.Dump.Parser
