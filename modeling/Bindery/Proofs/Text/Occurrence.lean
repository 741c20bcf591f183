import Bindery.Text.Occurrence

/-!
# Replacing a text step by step

A replacement takes the text before the first occurrence as it is, puts the new text in the place of
the old one and goes on behind it. What is not part of a pattern, such as a character at the end,
does not take part in a replacement.
-/

namespace Bindery.Text

variable {p q s t a b : List Char} {c : Char}

theorem cut?_eq_none : cut? p s = none ↔ ¬ p <:+: s := by
  rw [← contains_iff_cut?]
  simp

theorem cut?_append (hp : p ≠ []) : cut? p (p ++ s) = some ([], s) := by
  obtain ⟨c, p, rfl⟩ := List.exists_cons_of_ne_nil hp
  have hbegins : (c :: p).isPrefixOf (c :: (p ++ s)) :=
    List.isPrefixOf_iff_prefix.2 (List.prefix_append (c :: p) s)
  rw [List.cons_append, cut?, if_pos hbegins, ← List.cons_append, List.drop_left]

theorem cut?_cons_of_not_begins (h : ¬ p <+: c :: s) :
    cut? p (c :: s) = (cut? p s).map fun x => (c :: x.1, x.2) := by
  rw [cut?, if_neg (mt List.isPrefixOf_iff_prefix.1 h)]

theorem piecesAux_ne_nil (hp : p ≠ []) : piecesAux p hp s ≠ [] := by
  rw [piecesAux]
  split <;> simp

theorem replaceAll_of_cut?_eq_none (hp : p ≠ []) (h : cut? p s = none) :
    replaceAll p q s = s := by
  have hpieces : pieces p s = [s] := by
    rw [pieces, dif_neg hp, piecesAux]
    split
    · rfl
    · next h' => exact absurd (h'.symm.trans h) (Option.some_ne_none _)
  rw [replaceAll, hpieces, List.intercalate_singleton]

theorem replaceAll_of_cut? (hp : p ≠ []) (h : cut? p s = some (a, b)) :
    replaceAll p q s = a ++ q ++ replaceAll p q b := by
  have hpieces : pieces p s = a :: pieces p b := by
    rw [pieces, dif_neg hp, pieces, dif_neg hp, piecesAux]
    split
    · next h' => exact absurd (h.symm.trans h') (Option.some_ne_none _)
    · next a' b' h' =>
      obtain ⟨rfl, rfl⟩ := Prod.mk.inj (Option.some.inj (h.symm.trans h'))
      rfl
  have hne : pieces p b ≠ [] := by
    rw [pieces, dif_neg hp]
    exact piecesAux_ne_nil hp
  obtain ⟨r, rs, hr⟩ := List.exists_cons_of_ne_nil hne
  rw [replaceAll, hpieces, replaceAll, hr, List.intercalate_cons_cons, List.append_assoc]

/-- What is not there is not replaced. -/
theorem replaceAll_of_not_occurs (hp : p ≠ []) (h : ¬ p <:+: s) : replaceAll p q s = s :=
  replaceAll_of_cut?_eq_none hp (cut?_eq_none.2 h)

/-- A replacement brings in no character that is not in the new text. -/
theorem mem_replaceAll (hp : p ≠ []) (hc : c ∈ replaceAll p q s) : c ∈ q ∨ c ∈ s := by
  induction s using piecesAux.induct p hp with
  | case1 s h =>
    rw [replaceAll_of_cut?_eq_none hp h] at hc
    exact .inr hc
  | case2 s a b h _ ih =>
    have hs := cut?_eq_some h
    rw [replaceAll_of_cut? hp h, List.mem_append, List.mem_append] at hc
    rcases hc with (hc | hc) | hc
    · exact .inr (by rw [hs]; simp [hc])
    · exact .inl hc
    · rcases ih hc with hc | hc
      · exact .inl hc
      · exact .inr (by rw [hs]; simp [hc])

/-! ### A character that is in no pattern -/

theorem prefix_append_cons (hc : c ∉ p) : p <+: a ++ c :: s ↔ p <+: a := by
  constructor
  · intro h
    rcases List.prefix_or_prefix_of_prefix h (List.prefix_append a (c :: s)) with h | ⟨z, rfl⟩
    · exact h
    · cases z with
      | nil => simp
      | cons d z =>
        have hd := (List.cons_prefix_cons.1 ((List.prefix_append_right_inj a).1 h)).1
        exact absurd (hd ▸ by simp) hc
  · exact fun h => h.trans (List.prefix_append a _)

theorem suffix_append_cons (hc : c ∉ p) : p <:+ a ++ c :: s ↔ p <:+ s := by
  rw [← List.reverse_prefix, ← List.reverse_prefix, List.reverse_append, List.reverse_cons,
    List.append_assoc, List.singleton_append, prefix_append_cons (by simpa using hc)]

theorem prefix_concat (hc : c ∉ p) : p <+: s ++ [c] ↔ p <+: s :=
  prefix_append_cons hc

theorem cut?_append_of_eq_some (hp : p ≠ []) (h : cut? p s = some (a, b)) :
    cut? p (s ++ t) = some (a, b ++ t) := by
  induction s generalizing a with
  | nil => simp [cut?, hp] at h
  | cons d s ih =>
    by_cases hbegins : p <+: d :: s
    · obtain ⟨r, hr⟩ := hbegins
      rw [← hr, cut?_append hp, Option.some.injEq, Prod.mk.injEq] at h
      obtain ⟨rfl, rfl⟩ := h
      rw [← hr, List.append_assoc, cut?_append hp]
    · rw [cut?_cons_of_not_begins hbegins, Option.map_eq_some_iff] at h
      obtain ⟨⟨a', b'⟩, hcut, h⟩ := h
      obtain ⟨rfl, rfl⟩ := Prod.mk.inj h
      have hlength := congrArg List.length (cut?_eq_some hcut)
      have hlater : ¬ p <+: d :: (s ++ t) := fun hl => hbegins
        (List.prefix_of_prefix_length_le hl (List.prefix_append (d :: s) t)
          (by simp at hlength ⊢; omega))
      rw [List.cons_append, cut?_cons_of_not_begins hlater, ih hcut]
      rfl

theorem cut?_append_cons_of_eq_none (hp : p ≠ []) (hc : c ∉ p) (h : cut? p a = none) :
    cut? p (a ++ c :: s) = (cut? p s).map fun x => (a ++ c :: x.1, x.2) := by
  induction a with
  | nil =>
    have hbegins : ¬ p <+: c :: s := by
      rw [← List.nil_append (c :: s), prefix_append_cons hc, List.prefix_nil]
      exact hp
    rw [List.nil_append, cut?_cons_of_not_begins hbegins]
    rfl
  | cons d a ih =>
    have hda : ¬ p <:+: d :: a := cut?_eq_none.1 h
    have hbegins : ¬ p <+: d :: (a ++ c :: s) := fun hbegins =>
      hda ((prefix_append_cons (a := d :: a) hc).1 hbegins).isInfix
    rw [List.cons_append, cut?_cons_of_not_begins hbegins,
      ih (cut?_eq_none.2 fun h => hda (List.infix_cons h)), Option.map_map]
    rfl

/-- A character that is in no pattern is the end of one text and the beginning of another. -/
theorem replaceAll_append_cons (hp : p ≠ []) (hc : c ∉ p) :
    replaceAll p q (a ++ c :: s) = replaceAll p q a ++ c :: replaceAll p q s := by
  induction a using piecesAux.induct p hp with
  | case1 a h =>
    have hcut := cut?_append_cons_of_eq_none (s := s) hp hc h
    rw [replaceAll_of_cut?_eq_none hp h]
    cases hs : cut? p s with
    | none =>
      rw [replaceAll_of_cut?_eq_none hp hs, replaceAll_of_cut?_eq_none hp (by rw [hcut, hs]; rfl)]
    | some z =>
      rw [replaceAll_of_cut? hp (a := a ++ c :: z.1) (b := z.2) (by rw [hcut, hs]; rfl),
        replaceAll_of_cut? hp hs]
      simp
  | case2 a x y h _ ih =>
    rw [replaceAll_of_cut? hp h, replaceAll_of_cut? hp (cut?_append_of_eq_some hp h), ih]
    simp

theorem replaceAll_concat (hp : p ≠ []) (hc : c ∉ p) :
    replaceAll p q (s ++ [c]) = replaceAll p q s ++ [c] := by
  have hnil : replaceAll p q [] = [] := replaceAll_of_cut?_eq_none hp (by simp [cut?, hp])
  rw [replaceAll_append_cons hp hc, hnil]

/-- An occurrence lies on one side of a character that is not in the pattern. -/
theorem occurs_append_cons (hc : c ∉ p) : p <:+: a ++ c :: b ↔ p <:+: a ∨ p <:+: b := by
  constructor
  · rintro ⟨x, y, h⟩
    rcases List.append_eq_append_iff.1 h with ⟨t, ha, -⟩ | ⟨t, hx, hy⟩
    · exact .inl ⟨x, t, ha.symm⟩
    · cases t with
      | nil => exact .inl ⟨x, [], by simpa using hx⟩
      | cons e t =>
        obtain ⟨rfl, rfl⟩ := List.cons.inj hy
        rcases List.append_eq_append_iff.1 hx with ⟨r, -, hp⟩ | ⟨r, -, hr⟩
        · exact absurd (by simp [hp]) hc
        · cases r with
          | nil =>
            rw [List.nil_append] at hr
            exact absurd (hr ▸ List.mem_cons_self ..) hc
          | cons e r =>
            obtain ⟨rfl, rfl⟩ := List.cons.inj hr
            exact .inr ⟨r, y, rfl⟩
  · rintro (h | h)
    · exact h.trans (List.prefix_append a _).isInfix
    · exact h.trans ((List.suffix_cons c b).trans (List.suffix_append a _)).isInfix

/-- The text before the first occurrence has none. -/
theorem not_occurs_of_cut? (hp : p ≠ []) (h : cut? p s = some (a, b)) : ¬ p <:+: a := by
  induction s generalizing a b with
  | nil => simp [cut?, hp] at h
  | cons c s ih =>
    by_cases hbegins : p <+: c :: s
    · rw [cut?, if_pos (List.isPrefixOf_iff_prefix.2 hbegins), Option.some.injEq] at h
      rw [← (Prod.mk.inj h).1, List.infix_nil]
      exact hp
    · rw [cut?_cons_of_not_begins hbegins, Option.map_eq_some_iff] at h
      obtain ⟨⟨a', b'⟩, hcut, h⟩ := h
      rw [← (Prod.mk.inj h).1, List.infix_cons_iff, not_or]
      have hs : c :: a' <+: c :: s := ⟨p ++ b', by simp [cut?_eq_some hcut]⟩
      exact ⟨fun hpa => hbegins (hpa.trans hs), ih hcut⟩

section Delimited

/-! What is replaced, or put in its place, begins and ends with characters that a text does not
have. -/

variable {m r : List Char} {e : Char}

theorem occurs_replaceAll (hc : c ∉ r) (he : e ∉ r) (hm : ¬ r <:+: m) (h : r <:+: s) :
    r <:+: replaceAll (c :: (m ++ [e])) q s := by
  induction s using piecesAux.induct (c :: (m ++ [e])) (List.cons_ne_nil _ _) with
  | case1 s hcut => rwa [replaceAll_of_cut?_eq_none (List.cons_ne_nil _ _) hcut]
  | case2 s a b hcut _ ih =>
    rw [replaceAll_of_cut? (List.cons_ne_nil _ _) hcut]
    rw [cut?_eq_some hcut, List.append_assoc, List.cons_append, List.append_assoc,
      List.singleton_append, occurs_append_cons hc, occurs_append_cons he] at h
    rcases h with h | h | h
    · exact h.trans ⟨[], q ++ replaceAll (c :: (m ++ [e])) q b, by simp⟩
    · exact absurd h hm
    · exact (ih h).trans (List.suffix_append _ _).isInfix

theorem not_occurs_replaceAll (hp : p ≠ []) (hc : c ∉ p) (he : e ∉ p) (hm : ¬ p <:+: m) :
    ¬ p <:+: replaceAll p (c :: (m ++ [e])) s := by
  induction s using piecesAux.induct p hp with
  | case1 s hcut =>
    rw [replaceAll_of_cut?_eq_none hp hcut]
    exact cut?_eq_none.1 hcut
  | case2 s a b hcut _ ih =>
    rw [replaceAll_of_cut? hp hcut, List.append_assoc, List.cons_append, List.append_assoc,
      List.singleton_append, occurs_append_cons hc, occurs_append_cons he]
    simp only [not_occurs_of_cut? hp hcut, hm, ih, or_self, not_false_eq_true]

theorem replaceAll_append (hc : c ∉ a) :
    replaceAll (c :: p) q (a ++ s) = a ++ replaceAll (c :: p) q s := by
  have hcut : cut? (c :: p) (a ++ s) = (cut? (c :: p) s).map fun x => (a ++ x.1, x.2) := by
    induction a with
    | nil => simp
    | cons d a ih =>
      have hd : c ≠ d := fun h => hc (h ▸ List.mem_cons_self ..)
      rw [List.cons_append, cut?_cons_of_not_begins fun h => hd (List.cons_prefix_cons.1 h).1,
        ih fun h => hc (List.mem_cons_of_mem d h), Option.map_map]
      rfl
  have hp := List.cons_ne_nil c p
  cases h : cut? (c :: p) s with
  | none =>
    rw [replaceAll_of_cut?_eq_none hp h,
      replaceAll_of_cut?_eq_none hp (by rw [hcut, h]; rfl)]
  | some x =>
    rw [replaceAll_of_cut? hp h, replaceAll_of_cut? hp (a := a ++ x.1) (b := x.2)
      (by rw [hcut, h]; rfl)]
    simp

end Delimited

end Bindery.Text
