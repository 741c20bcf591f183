import Bindery.Proofs.Text.Occurrence

/-!
# Two kinds of line ends

`crlf` puts a carriage return before every line feed. In a text that had none, a pattern occurs at
the places where it did, so that a replacement before `crlf` comes to the same as the replacement
of its `crlf` form behind it.
-/

namespace Bindery.Text

/-- The text with a carriage return before every line feed. -/
def crlf (s : List Char) : List Char := s.flatMap fun c => if c = '\n' then ['\r', '\n'] else [c]

variable {p q s a b : List Char} {c d : Char}

@[simp] theorem crlf_nil : crlf [] = [] := rfl

theorem crlf_cons (c : Char) (s : List Char) :
    crlf (c :: s) = (if c = '\n' then ['\r', '\n'] else [c]) ++ crlf s := rfl

theorem crlf_newline (s : List Char) : crlf ('\n' :: s) = '\r' :: '\n' :: crlf s := rfl

theorem crlf_cons_of_ne (hc : c ≠ '\n') (s : List Char) : crlf (c :: s) = c :: crlf s := by
  rw [crlf_cons, if_neg hc]
  rfl

@[simp] theorem crlf_append (s t : List Char) : crlf (s ++ t) = crlf s ++ crlf t :=
  List.flatMap_append

theorem crlf_ne_nil (hs : s ≠ []) : crlf s ≠ [] := by
  cases s with
  | nil => exact absurd rfl hs
  | cons c s =>
    rw [crlf_cons]
    split <;> simp

/-- A text of one line is the same with both line ends. -/
theorem crlf_of_notMem (h : '\n' ∉ s) : crlf s = s := by
  induction s with
  | nil => rfl
  | cons c s ih =>
    have hc : c ≠ '\n' := fun hc => h (hc ▸ List.mem_cons_self ..)
    rw [crlf_cons_of_ne hc, ih fun hs => h (List.mem_cons_of_mem c hs)]

/-! ### Occurrences -/

theorem begins_crlf_iff (hp : '\r' ∉ p) (hs : '\r' ∉ s) : crlf p <+: crlf s ↔ p <+: s := by
  induction p generalizing s with
  | nil => simp
  | cons c p ih =>
    cases s with
    | nil => simpa using crlf_ne_nil (List.cons_ne_nil c p)
    | cons d s =>
      have hc : c ≠ '\r' := fun hc => hp (hc ▸ List.mem_cons_self ..)
      have hd : d ≠ '\r' := fun hd => hs (hd ▸ List.mem_cons_self ..)
      have hrest := ih (fun h => hp (List.mem_cons_of_mem c h))
        (fun h => hs (List.mem_cons_of_mem d h))
      by_cases hcn : c = '\n' <;> by_cases hdn : d = '\n'
      · rw [hcn, hdn, crlf_newline, crlf_newline]
        simp [hrest]
      · rw [hcn, crlf_newline, crlf_cons_of_ne hdn]
        simp [Ne.symm hd, Ne.symm hdn]
      · rw [hdn, crlf_newline, crlf_cons_of_ne hcn]
        simp [hc, hcn]
      · rw [crlf_cons_of_ne hcn, crlf_cons_of_ne hdn]
        simp [hrest]

theorem not_begins_newline (hne : p ≠ []) (hp : '\r' ∉ p) : ¬ crlf p <+: '\n' :: s := by
  obtain ⟨c, p, rfl⟩ := List.exists_cons_of_ne_nil hne
  by_cases hc : c = '\n'
  · rw [hc, crlf_newline]
    simp
  · rw [crlf_cons_of_ne hc]
    simp [hc]

/-- A pattern is cut out at the same place. -/
theorem cut?_crlf (hne : p ≠ []) (hp : '\r' ∉ p) (hs : '\r' ∉ s) :
    cut? (crlf p) (crlf s) = (cut? p s).map fun x => (crlf x.1, crlf x.2) := by
  induction s with
  | nil => simp [cut?, hne, crlf_ne_nil hne]
  | cons c s ih =>
    have hrest := ih fun h => hs (List.mem_cons_of_mem c h)
    by_cases h : p <+: c :: s
    · obtain ⟨t, ht⟩ := h
      rw [← ht, crlf_append, cut?_append hne, cut?_append (crlf_ne_nil hne)]
      rfl
    · have h' : ¬ crlf p <+: crlf (c :: s) := mt (begins_crlf_iff hp hs).1 h
      rw [cut?_cons_of_not_begins h]
      by_cases hc : c = '\n'
      · -- the pattern begins neither at the carriage return nor at the line feed
        rw [hc, crlf_newline] at h' ⊢
        rw [cut?_cons_of_not_begins h', cut?_cons_of_not_begins (not_begins_newline hne hp),
          hrest]
        cases cut? p s <;> rfl
      · rw [crlf_cons_of_ne hc] at h' ⊢
        rw [cut?_cons_of_not_begins h', hrest]
        cases cut? p s with
        | none => rfl
        | some x => simp [crlf_cons_of_ne hc]

theorem contains_crlf (hne : p ≠ []) (hp : '\r' ∉ p) (hs : '\r' ∉ s) :
    contains (crlf p) (crlf s) = contains p s := by
  rw [contains, contains, cut?_crlf hne hp hs, Option.isSome_map]

theorem replaceAll_crlf (hne : p ≠ []) (hp : '\r' ∉ p) (hs : '\r' ∉ s) :
    replaceAll (crlf p) (crlf q) (crlf s) = crlf (replaceAll p q s) := by
  induction s using piecesAux.induct p hne with
  | case1 s h =>
    have hcut : cut? (crlf p) (crlf s) = none := by
      rw [cut?_crlf hne hp hs, h]
      rfl
    rw [replaceAll_of_cut?_eq_none hne h, replaceAll_of_cut?_eq_none (crlf_ne_nil hne) hcut]
  | case2 s a b h _ ih =>
    have hcut : cut? (crlf p) (crlf s) = some (crlf a, crlf b) := by
      rw [cut?_crlf hne hp hs, h]
      rfl
    have hb : '\r' ∉ b := fun hb => hs (cut?_eq_some h ▸ List.mem_append_right (a ++ p) hb)
    rw [replaceAll_of_cut? hne h, replaceAll_of_cut? (crlf_ne_nil hne) hcut, ih hb, crlf_append,
      crlf_append]

/-- Whatever stands before a line feed is a carriage return. -/
theorem eq_of_infix_crlf (h : [c, '\n'] <:+: crlf s) : c = '\r' := by
  induction s with
  | nil => simp at h
  | cons d s ih =>
    have hnot : ∀ t, ¬ ['\n'] <+: crlf t := by
      intro t ht
      cases t with
      | nil => simp at ht
      | cons e t =>
        by_cases he : e = '\n'
        · rw [he, crlf_newline] at ht
          simp at ht
        · rw [crlf_cons_of_ne he] at ht
          exact he (List.cons_prefix_cons.1 ht).1.symm
    by_cases hd : d = '\n'
    · rw [hd, crlf_newline, List.infix_cons_iff, List.infix_cons_iff] at h
      rcases h with h | h | h
      · exact (List.cons_prefix_cons.1 h).1
      · exact absurd (List.cons_prefix_cons.1 h).2 (hnot s)
      · exact ih h
    · rw [crlf_cons_of_ne hd, List.infix_cons_iff] at h
      rcases h with h | h
      · exact absurd (List.cons_prefix_cons.1 h).2 (hnot s)
      · exact ih h

end Bindery.Text
