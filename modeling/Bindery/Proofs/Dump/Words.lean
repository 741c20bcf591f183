import Bindery.Dump.Grammar
import Bindery.Proofs.Dump.Reads

/-!
# Words and gaps

What the words of a dump look like, what may stand between them, and that the parsers for words read
them: names, keywords, names of several words, initializers.
-/

namespace Bindery.Dump

open Bindery.Dump.Parser

variable {c : Char} {i j m r s g : List Char} {v w : String} {k : Construct}

/-! ### Gaps -/

def IsLineEnd (c : Char) : Prop := c = '\n' ∨ c = '\r'

instance : DecidablePred IsLineEnd := fun c => inferInstanceAs (Decidable (c = '\n' ∨ c = '\r'))

/-- Blanks and comments, each comment with the end of its line. -/
inductive IsGap : List Char → Prop
  | nil : IsGap []
  | blank {c : Char} {s : List Char} (hc : c = ' ' ∨ c = '\t' ∨ IsLineEnd c) (hs : IsGap s) :
    IsGap (c :: s)
  | comment {c : Char} {t s : List Char} (ht : ∀ d ∈ t, ¬ IsLineEnd d) (hc : IsLineEnd c)
    (hs : IsGap s) : IsGap ('/' :: '/' :: (t ++ c :: s))

/-- A gap at the end of a text, where the last comment need not have an end of line. -/
def IsLastGap (s : List Char) : Prop :=
  IsGap s ∨ ∃ g t, IsGap g ∧ (∀ d ∈ t, ¬ IsLineEnd d) ∧ s = g ++ '/' :: '/' :: t

theorem blankLength_comment (ht : ∀ d ∈ s, ¬ IsLineEnd d) (i : List Char) :
    blankLength true (s ++ i) = s.length + blankLength true i := by
  induction s with
  | nil => simp
  | cons d s ih =>
    have hd : ¬ (d = '\n' ∨ d = '\r') := ht d List.mem_cons_self
    rw [List.cons_append, blankLength, if_neg hd, if_pos rfl,
      ih fun e he => ht e (List.mem_cons_of_mem d he), List.length_cons]
    omega

theorem blankLength_slashes (i : List Char) :
    blankLength false ('/' :: '/' :: i) = blankLength true i + 2 := by
  have h1 : ¬ ('/' = '\n' ∨ '/' = '\r') := by decide
  have h2 : ¬ ('/' = ' ' ∨ '/' = '\t') := by decide
  have h3 : '/' = '/' ∧ ('/' :: i).head? = some '/' := ⟨rfl, rfl⟩
  rw [blankLength, if_neg h1, if_neg Bool.false_ne_true, if_neg h2, if_pos h3, blankLength,
    if_neg h1, if_pos rfl]

theorem IsGap.blankLength_append (hg : IsGap g) (i : List Char) :
    blankLength false (g ++ i) = g.length + blankLength false i := by
  induction hg with
  | nil => simp
  | @blank c s hc hs ih =>
    rw [List.cons_append, blankLength, ih, List.length_cons]
    rcases hc with h | h | h
    · rw [if_neg (by rw [h]; decide), if_neg Bool.false_ne_true, if_pos (Or.inl h)]
      omega
    · rw [if_neg (by rw [h]; decide), if_neg Bool.false_ne_true, if_pos (Or.inr h)]
      omega
    · replace h : c = '\n' ∨ c = '\r' := h
      rw [if_pos h]
      omega
  | @comment c t s ht hc hs ih =>
    have hline : blankLength true (c :: (s ++ i)) = s.length + blankLength false i + 1 := by
      replace hc : c = '\n' ∨ c = '\r' := hc
      rw [blankLength, if_pos hc, ih]
    simp only [List.cons_append, List.append_assoc, blankLength_slashes, blankLength_comment ht,
      hline, List.length_cons, List.length_append]
    omega

theorem IsGap.skips (hg : IsGap g) (hi : blankLength false i = 0) : Skips (g ++ i) i := by
  rw [Skips, hg.blankLength_append, hi, Nat.add_zero, List.drop_left]

theorem IsLastGap.skips (hs : IsLastGap s) : Skips s [] := by
  suffices h : blankLength false s = s.length by rw [Skips, h, List.drop_length]
  rcases hs with hg | ⟨g, t, hg, ht, rfl⟩
  · have := hg.blankLength_append []
    rwa [List.append_nil] at this
  · have h := blankLength_comment ht []
    rw [List.append_nil] at h
    rw [hg.blankLength_append, blankLength_slashes, h]
    simp only [blankLength, List.length_append, List.length_cons]

/-- A gap that follows an initializer: what comes first on the same line belongs to the
initializer. -/
theorem IsGap.exists_split (hg : IsGap g) : ∃ s g', g = s ++ g' ∧ IsGap g' ∧
    (∀ d ∈ s, d = ' ' ∨ d = '\t') ∧ (g' = [] ∨ (∃ c t, g' = c :: t ∧ IsLineEnd c) ∨
      ∃ t, g' = '/' :: '/' :: t) := by
  induction hg with
  | nil => exact ⟨[], [], rfl, .nil, nofun, Or.inl rfl⟩
  | @blank c s hc hs ih =>
    obtain ⟨s₁, g', rfl, hg', hs₁, hor⟩ := ih
    rcases hc with h | h | h
    · exact ⟨c :: s₁, g', rfl, hg', List.forall_mem_cons.2 ⟨Or.inl h, hs₁⟩, hor⟩
    · exact ⟨c :: s₁, g', rfl, hg', List.forall_mem_cons.2 ⟨Or.inr h, hs₁⟩, hor⟩
    · exact ⟨[], _, rfl, .blank (Or.inr (Or.inr h)) hs, nofun, Or.inr (Or.inl ⟨c, _, rfl, h⟩)⟩
  | @comment c t s ht hc hs ih =>
    exact ⟨[], _, rfl, .comment ht hc hs, nofun, Or.inr (Or.inr ⟨_, rfl⟩)⟩

/-! ### Where words end -/

/-- No word goes on here. -/
def EndsWord (r : List Char) : Prop := ∀ c ∈ r.head?, isIdentChar c = false

theorem isIdentChar_of_isIdentStart (h : isIdentStart c) : isIdentChar c := by
  simp only [isIdentStart, isIdentChar, Char.isAlphanum, Bool.or_eq_true] at *
  rcases h with h | h
  · exact Or.inl (Or.inl h)
  · exact Or.inr h

theorem isIdentStart_of_isIdentChar (h : isIdentChar c) (hd : c.isDigit = false) :
    isIdentStart c := by
  simp only [isIdentStart, isIdentChar, Char.isAlphanum, Bool.or_eq_true] at *
  simpa [hd] using h

theorem isIdentStart_eq_false (h : isIdentChar c = false) : isIdentStart c = false := by
  rw [Bool.eq_false_iff]
  intro hs
  exact absurd ((isIdentChar_of_isIdentStart hs).symm.trans h) nofun

theorem blankLength_cons_of_isIdentChar (h : isIdentChar c) :
    blankLength false (c :: r) = 0 := by
  have hne : ∀ d, isIdentChar d = false → c ≠ d := by
    rintro d hd rfl
    exact absurd (h.symm.trans hd) nofun
  have h1 := hne '\n' (by decide)
  have h2 := hne '\r' (by decide)
  have h3 := hne ' ' (by decide)
  have h4 := hne '\t' (by decide)
  have h5 := hne '/' (by decide)
  simp [blankLength, h1, h2, h3, h4, h5]

theorem endsWord_sign (hc : isIdentChar c = false) (r : List Char) : EndsWord (c :: r) := by
  intro d hd
  obtain rfl := Option.some.inj hd
  exact hc

/-- A gap ends a word. -/
theorem Parser.Skips.endsWord (h : Skips i (c :: r)) (hc : isIdentChar c = false) : EndsWord i := by
  cases i with
  | nil => exact nofun
  | cons d i =>
    intro e he
    obtain rfl := Option.some.inj he
    rw [Bool.eq_false_iff]
    intro hd
    rw [Skips, blankLength_cons_of_isIdentChar hd, List.drop_zero] at h
    obtain ⟨rfl, -⟩ := List.cons.inj h
    exact absurd (hd.symm.trans hc) nofun

/-! ### Names and keywords -/

/-- A name of one word. -/
def IsIdent (w : String) : Prop :=
  ∃ c s, w.toList = c :: s ∧ isIdentStart c ∧ ∀ d ∈ s, isIdentChar d

theorem isIdent_of_all (h : w.toList.head?.any isIdentStart && w.toList.all isIdentChar) :
    IsIdent w := by
  rw [Bool.and_eq_true, List.all_eq_true] at h
  obtain ⟨hhead, hall⟩ := h
  cases hs : w.toList with
  | nil =>
    rw [hs] at hhead
    exact absurd hhead nofun
  | cons c s =>
    rw [hs] at hhead hall
    exact ⟨c, s, hs, hhead, fun d hd => hall d (List.mem_cons_of_mem c hd)⟩

theorem IsIdent.forall_mem (h : IsIdent w) : ∀ d ∈ w.toList, isIdentChar d := by
  obtain ⟨c, s, hw, hc, hs⟩ := h
  rw [hw]
  exact List.forall_mem_cons.2 ⟨isIdentChar_of_isIdentStart hc, hs⟩

theorem IsIdent.ne_nil (h : IsIdent w) : w.toList ≠ [] := by
  obtain ⟨c, s, hw, -⟩ := h
  rw [hw]
  exact List.cons_ne_nil c s

theorem IsIdent.blankLength (h : IsIdent w) (r : List Char) :
    blankLength false (w.toList ++ r) = 0 := by
  obtain ⟨c, s, hw, hc, -⟩ := h
  rw [hw]
  exact blankLength_cons_of_isIdentChar (isIdentChar_of_isIdentStart hc)

theorem EndsWord.takeWhile (h : EndsWord r) : r.takeWhile isIdentChar = [] := by
  cases r with
  | nil => rfl
  | cons c r =>
    have hc := h c rfl
    rw [List.takeWhile_cons, hc]
    rfl

theorem identLength_append (hw : IsIdent w) (hr : EndsWord r) :
    identLength (w.toList ++ r) = w.toList.length := by
  obtain ⟨c, s, hw, hc, hs⟩ := hw
  rw [hw, List.cons_append, identLength, if_pos hc, List.takeWhile_append_of_pos hs, hr.takeWhile,
    List.append_nil, List.length_cons]

theorem identLength_eq_zero (h : ∀ c ∈ i.head?, isIdentStart c = false) : identLength i = 0 := by
  cases i with
  | nil => rfl
  | cons c i =>
    rw [identLength, if_neg]
    rw [h c rfl]
    exact Bool.false_ne_true

theorem reads_ident (hw : IsIdent w) (hr : EndsWord r) : Reads ident (w.toList ++ r) w r := by
  refine reads_named (reads_bind (reads_run hw.ne_nil (identLength_append hw hr)) ?_)
  rw [String.ofList_toList]
  exact reads_pure

theorem refuses_ident (h : EndsWord i) : Refuses ident i :=
  refuses_named (refuses_bind (refuses_run
    (identLength_eq_zero fun c hc => isIdentStart_eq_false (h c hc))))

theorem keywordLength_append (hr : EndsWord r) (w : String) :
    keywordLength w (w.toList ++ r) = w.toList.length := by
  have hpre : w.toList.isPrefixOf (w.toList ++ r) := by
    rw [List.isPrefixOf_iff_prefix]
    exact List.prefix_append _ _
  have hend : r.head?.any isIdentChar = false := by
    rw [Option.any_eq_false]
    exact fun c hc => by simp [hr c hc]
  rw [keywordLength, ← String.length_toList, List.drop_left, hpre, hend]
  rfl

/-- A keyword is not found in another word. -/
theorem keywordLength_eq_zero (hw : ∀ c ∈ w.toList, isIdentChar c)
    (hs : ∀ c ∈ s, isIdentChar c) (hr : EndsWord r) (hne : s ≠ w.toList) :
    keywordLength w (s ++ r) = 0 := by
  rw [keywordLength, if_neg]
  rw [Bool.and_eq_true, List.isPrefixOf_iff_prefix, Bool.not_eq_true']
  rintro ⟨⟨t, ht⟩, hend⟩
  rw [← ht, ← String.length_toList, List.drop_left] at hend
  rcases List.append_eq_append_iff.1 ht with ⟨t', hs', rfl⟩ | ⟨t', hw', rfl⟩
  · -- the word goes on after the keyword
    cases t' with
    | nil => exact hne (by rw [hs', List.append_nil])
    | cons d t' =>
      have hd := hs d (hs' ▸ List.mem_append_right _ List.mem_cons_self)
      rw [List.cons_append, List.head?_cons, Option.any_some, hd] at hend
      exact absurd hend nofun
  · -- the keyword goes on after the word
    cases t' with
    | nil => exact hne (by rw [hw', List.append_nil])
    | cons d t' =>
      have hd := hw d (hw' ▸ List.mem_append_right _ List.mem_cons_self)
      exact absurd (hd.symm.trans (hr d rfl)) nofun

theorem reads_keyword (hw : IsIdent w) (hr : EndsWord r) :
    Reads (keyword k w) (w.toList ++ r) () r :=
  reads_named (reads_discard (reads_run hw.ne_nil (keywordLength_append hr w)))

theorem refuses_keyword (hw : IsIdent w) (hv : IsIdent v) (hr : EndsWord r) (hne : v ≠ w) :
    Refuses (keyword k w) (v.toList ++ r) :=
  refuses_named (refuses_discard (refuses_run (keywordLength_eq_zero hw.forall_mem hv.forall_mem hr
    fun h => hne (String.toList_inj.1 h))))

theorem refuses_keyword_of_endsWord (hw : IsIdent w) (hi : EndsWord i) :
    Refuses (keyword k w) i :=
  refuses_named (refuses_discard (refuses_run
    (keywordLength_eq_zero (s := []) hw.forall_mem nofun hi fun h => hw.ne_nil h.symm)))

end Bindery.Dump
