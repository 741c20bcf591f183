/-!
# Lines with their ends

A text made of lines that are ended splits into just these lines, so that it determines them. Where
a mark comes for the first time, a text is cut in one way only.
-/

namespace Bindery.Text

theorem splitOn_ended {ls : List (List Char)} (h : ∀ l ∈ ls, '\n' ∉ l) :
    (ls.flatMap (· ++ ['\n'])).splitOn '\n' = ls ++ [[]] := by
  induction ls with
  | nil => rfl
  | cons l ls ih =>
    obtain ⟨hl, hls⟩ := List.forall_mem_cons.1 h
    rw [List.flatMap_cons, List.append_assoc, List.singleton_append,
      List.splitOn_append_cons_self_of_not_mem hl, ih hls, List.cons_append]

/-- Where the characters of one kind end is where a text is cut. -/
theorem append_inj_of_head? {α : Type} {p : α → Bool} {xs ys rs ts : List α}
    (hxs : ∀ a ∈ xs, p a) (hys : ∀ a ∈ ys, p a) (hrs : ∀ a ∈ rs.head?, p a = false)
    (hts : ∀ a ∈ ts.head?, p a = false) (h : xs ++ rs = ys ++ ts) : xs = ys ∧ rs = ts := by
  have hnone : ∀ {l : List α}, (∀ a ∈ l.head?, p a = false) → l.takeWhile p = [] := by
    intro l hl
    cases l with
    | nil => rfl
    | cons a l => rw [List.takeWhile_cons, hl a rfl, if_neg Bool.false_ne_true]
  have hcut := congrArg (List.takeWhile p) h
  rw [List.takeWhile_append_of_pos hxs, List.takeWhile_append_of_pos hys, hnone hrs, hnone hts,
    List.append_nil, List.append_nil] at hcut
  subst hcut
  exact ⟨rfl, List.append_cancel_left h⟩

/-- The first mark in a text is where it is cut. -/
theorem append_cons_inj {α : Type} [BEq α] [LawfulBEq α] {a : α} {xs ys rs ts : List α}
    (hxs : a ∉ xs) (hys : a ∉ ys) (h : xs ++ a :: rs = ys ++ a :: ts) : xs = ys ∧ rs = ts := by
  have hfree : ∀ {l : List α}, a ∉ l → ∀ b ∈ l, (b != a) = true := fun hl b hb =>
    bne_iff_ne.2 fun hba => hl (hba ▸ hb)
  obtain ⟨rfl, hrest⟩ := append_inj_of_head? (p := (· != a)) (hfree hxs) (hfree hys) (by simp)
    (by simp) h
  exact ⟨rfl, (List.cons.inj hrest).2⟩

end Bindery.Text
