import Bindery.Proofs.Text.Lines
import Bindery.Proofs.Text.Occurrence

/-!
# Quotations

What stands between two marks `c` is a quotation. To put back the quotations `m` of a text is to
write `n` for each, from left to right, a mark being part of one of them only. The replacement of
`n` by `m` undoes that, and what is put back does not depend on a replacement that is about no mark.
-/

namespace Bindery.Text

variable {c : Char} {m n p q s a : List Char}

theorem replaceAll_cons_of_not_begins (hp : p ≠ []) (h : ¬ p <+: c :: s) :
    replaceAll p q (c :: s) = c :: replaceAll p q s := by
  have hcut := cut?_cons_of_not_begins h
  cases hs : cut? p s with
  | none =>
    rw [replaceAll_of_cut?_eq_none hp hs, replaceAll_of_cut?_eq_none hp (by rw [hcut, hs]; rfl)]
  | some x =>
    rw [replaceAll_of_cut? hp hs,
      replaceAll_of_cut? hp (a := c :: x.1) (b := x.2) (by rw [hcut, hs]; rfl)]
    simp

/-- A text has no mark, or it begins with a text without mark, and a mark behind it. -/
theorem marks_induction {motive : List Char → Prop} (hnone : ∀ a, c ∉ a → motive a)
    (hcons : ∀ a s, c ∉ a → motive s → motive (a ++ c :: s)) (s : List Char) : motive s := by
  induction hn : s.length using Nat.strongRecOn generalizing s with
  | ind k ih =>
    by_cases hc : c ∈ s
    · obtain ⟨a, s, rfl, ha⟩ := List.eq_append_cons_of_mem hc
      refine hcons a s ha (ih s.length ?_ s rfl)
      rw [← hn, List.length_append, List.length_cons]
      omega
    · exact hnone s hc

/-- A quotation between its marks. -/
def quote (c : Char) (m : List Char) : List Char := c :: (m ++ [c])

theorem quote_ne_nil : quote c m ≠ [] := List.cons_ne_nil _ _

/-- Write `n` for each quotation `m`. -/
def putBack (c : Char) (m n s : List Char) : List Char := replaceAll (quote c m) (quote c n) s

theorem putBack_append (ha : c ∉ a) : putBack c m n (a ++ s) = a ++ putBack c m n s :=
  replaceAll_append ha

theorem putBack_of_notMem (ha : c ∉ a) : putBack c m n a = a := by
  refine replaceAll_of_not_occurs quote_ne_nil fun h => ha (h.subset ?_)
  exact List.mem_cons_self ..

theorem putBack_cons_of_notMem (ha : c ∉ a) : putBack c m n (c :: a) = c :: a := by
  refine replaceAll_of_not_occurs quote_ne_nil fun h => ?_
  have hcount := h.sublist.count_le c
  simp [quote, List.count_eq_zero_of_not_mem ha] at hcount

theorem putBack_quote :
    putBack c m n (c :: (m ++ c :: s)) = c :: (n ++ c :: putBack c m n s) := by
  have hs : c :: (m ++ c :: s) = quote c m ++ s := by simp [quote]
  rw [hs, putBack, replaceAll_of_cut? quote_ne_nil (cut?_append quote_ne_nil)]
  simp [quote, putBack]

theorem putBack_cons (hm : c ∉ m) (ha : c ∉ a) (hne : a ≠ m) :
    putBack c m n (c :: (a ++ c :: s)) = c :: (a ++ putBack c m n (c :: s)) := by
  have hbegins : ¬ quote c m <+: c :: (a ++ c :: s) := fun h => by
    obtain ⟨t, ht⟩ := (List.cons_prefix_cons.1 h).2
    rw [List.append_assoc, List.singleton_append] at ht
    exact hne (append_cons_inj ha hm ht.symm).1
  rw [putBack, replaceAll_cons_of_not_begins quote_ne_nil hbegins]
  exact congrArg (c :: ·) (putBack_append ha)

/-! ### Putting back and taking out -/

/-- Where a text has no `n`, taking the quotations `n` out again gives the text. -/
theorem replaceAll_putBack (hn : c ∉ n) (hne : n ≠ []) (hs : ¬ n <:+: s) :
    replaceAll n m (putBack c m n s) = s := by
  have hnm : replaceAll n m n = m := by
    have hcut := cut?_append (s := []) hne
    rw [List.append_nil] at hcut
    rw [replaceAll_of_cut? hne hcut, replaceAll_of_not_occurs hne (by simpa using hne)]
    simp
  induction s using piecesAux.induct (quote c m) quote_ne_nil with
  | case1 s hcut =>
    rw [putBack, replaceAll_of_cut?_eq_none quote_ne_nil hcut,
      replaceAll_of_not_occurs hne hs]
  | case2 s a b hcut _ ih =>
    have hsplit := cut?_eq_some hcut
    have ha : ¬ n <:+: a := fun h => hs (h.trans ⟨[], quote c m ++ b, by simp [hsplit]⟩)
    have hb : ¬ n <:+: b := fun h => hs (h.trans ⟨a ++ quote c m, [], by simp [hsplit]⟩)
    rw [putBack, replaceAll_of_cut? quote_ne_nil hcut]
    have hshape : a ++ quote c n ++ putBack c m n b = a ++ c :: (n ++ c :: putBack c m n b) := by
      simp [quote]
    rw [← putBack, hshape, replaceAll_append_cons hne hn, replaceAll_append_cons hne hn, hnm,
      ih hb, replaceAll_of_not_occurs hne ha, hsplit]
    simp [quote]

theorem not_infix_of_replaceAll_eq (hne : n ≠ []) (hmn : m.length = n.length) (hnm : ¬ n <:+: m)
    (h : replaceAll n m a = a) : ¬ n <:+: a := fun hna => by
  obtain ⟨⟨x, y⟩, hcut⟩ := Option.isSome_iff_exists.1 (contains_iff_cut?.2 hna)
  rw [replaceAll_of_cut? hne hcut] at h
  have hsame := h.trans (cut?_eq_some hcut)
  rw [List.append_assoc, List.append_assoc] at hsame
  have hmn := (List.append_inj (List.append_cancel_left hsame) hmn).1
  exact hnm (hmn ▸ List.infix_refl m)

theorem length_replaceAll (hne : n ≠ []) (hmn : m.length = n.length) (s : List Char) :
    (replaceAll n m s).length = s.length := by
  induction s using piecesAux.induct n hne with
  | case1 s hcut => rw [replaceAll_of_cut?_eq_none hne hcut]
  | case2 s a b hcut _ ih =>
    rw [replaceAll_of_cut? hne hcut, cut?_eq_some hcut]
    simp [hmn, ih]

/-- A text that comes back when its `n` are taken out and the quotations put back has `n` only
there; and the same with a mark before the text. -/
theorem not_infix_of_putBack_replaceAll (hm : c ∉ m) (hn : c ∉ n) (hne : n ≠ [])
    (hmn : m.length = n.length) (hnm : ¬ n <:+: m) (s : List Char) :
    (putBack c m n (replaceAll n m s) = s → ¬ n <:+: replaceAll n m s) ∧
    (putBack c m n (c :: replaceAll n m s) = c :: s → ¬ n <:+: replaceAll n m s) := by
  have hself : ∀ {a}, replaceAll n m a = a → ¬ n <:+: replaceAll n m a := fun h => by
    rw [h]
    exact not_infix_of_replaceAll_eq hne hmn hnm h
  have hfree : ∀ {a}, c ∉ a → c ∉ replaceAll n m a := fun ha h =>
    (mem_replaceAll hne h).elim hm ha
  induction s using marks_induction (c := c) with
  | hnone a ha =>
    rw [putBack_of_notMem (hfree ha), putBack_cons_of_notMem (hfree ha)]
    exact ⟨hself, fun h => hself (List.cons.inj h).2⟩
  | hcons a s ha ih =>
    have hlength := length_replaceAll hne hmn a
    rw [replaceAll_append_cons hne hn, occurs_append_cons hn, not_or]
    constructor
    · intro h
      rw [putBack_append (hfree ha)] at h
      obtain ⟨hra, hrs⟩ := List.append_inj h hlength
      exact ⟨hself hra, ih.2 hrs⟩
    · intro h
      by_cases hra : replaceAll n m a = m
      · rw [hra, putBack_quote] at h
        rw [hra]
        exact ⟨hnm, ih.1 (append_cons_inj hn ha (List.cons.inj h).2).2⟩
      · rw [putBack_cons hm (hfree ha) hra] at h
        obtain ⟨hra, hrs⟩ := List.append_inj (List.cons.inj h).2 hlength
        exact ⟨hself hra, ih.2 hrs⟩

/-! ### Putting back last -/

theorem replaceAll_cons_of_notMem (hp : p ≠ []) (hc : c ∉ p) :
    replaceAll p q (c :: s) = c :: replaceAll p q s := by
  refine replaceAll_cons_of_not_begins hp ?_
  rw [← List.nil_append (c :: s), prefix_append_cons hc, List.prefix_nil]
  exact hp

theorem exists_putBack_cons (s : List Char) : ∃ t, putBack c m n (c :: s) = c :: t := by
  by_cases h : quote c m <+: c :: s
  · obtain ⟨t, ht⟩ := h
    rw [← ht, putBack, replaceAll_of_cut? quote_ne_nil (cut?_append quote_ne_nil)]
    exact ⟨_, rfl⟩
  · exact ⟨_, replaceAll_cons_of_not_begins quote_ne_nil h⟩

/-- A replacement that is about no mark, and changes nothing into `m`, may come before the
quotations are put back or after it. -/
theorem putBack_replaceAll_comm (hp : p ≠ []) (hcp : c ∉ p) (hcq : c ∉ q) (hm : c ∉ m)
    (hpm : replaceAll p q m = m) (hpn : replaceAll p q n = n)
    (hs : ∀ a, c ∉ a → quote c a <:+: s → replaceAll p q a = m → a = m) :
    putBack c m n (replaceAll p q s) = replaceAll p q (putBack c m n s) := by
  have hfree : ∀ {a}, c ∉ a → c ∉ replaceAll p q a := fun ha h => (mem_replaceAll hp h).elim hcq ha
  have happend : ∀ a s, replaceAll p q (a ++ putBack c m n (c :: s)) =
      replaceAll p q a ++ replaceAll p q (putBack c m n (c :: s)) := fun a s => by
    obtain ⟨t, ht⟩ := exists_putBack_cons (m := m) (n := n) (c := c) s
    rw [ht, replaceAll_append_cons hp hcp, replaceAll_cons_of_notMem hp hcp]
  -- the same with a mark before the text, as a mark opens a quotation only if it closes none
  suffices h : ∀ s, ((∀ a, c ∉ a → quote c a <:+: s → replaceAll p q a = m → a = m) →
      putBack c m n (replaceAll p q s) = replaceAll p q (putBack c m n s)) ∧
      ((∀ a, c ∉ a → quote c a <:+: c :: s → replaceAll p q a = m → a = m) →
      putBack c m n (c :: replaceAll p q s) = replaceAll p q (putBack c m n (c :: s))) from
    (h s).1 hs
  intro s
  induction s using marks_induction (c := c) with
  | hnone a ha =>
    rw [putBack_of_notMem (hfree ha), putBack_of_notMem ha, putBack_cons_of_notMem (hfree ha),
      putBack_cons_of_notMem ha, replaceAll_cons_of_notMem hp hcp]
    exact ⟨fun _ => rfl, fun _ => rfl⟩
  | hcons a s ha ih =>
    have hs : c :: s <:+: a ++ c :: s := (List.suffix_append a _).isInfix
    rw [replaceAll_append_cons hp hcp]
    constructor
    · intro h
      rw [putBack_append (hfree ha), putBack_append ha, happend,
        ih.2 fun a ha hq => h a ha (hq.trans hs)]
    · intro h
      have hs' : c :: s <:+: c :: (a ++ c :: s) := List.infix_cons hs
      by_cases ham : a = m
      · rw [ham, hpm, putBack_quote, putBack_quote, replaceAll_cons_of_notMem hp hcp,
          replaceAll_append_cons hp hcp, hpn,
          ih.1 fun a ha hq => h a ha ((hq.trans (List.suffix_cons c s).isInfix).trans hs')]
      · have hram : replaceAll p q a ≠ m := fun hram =>
          ham (h a ha ⟨[], s, by simp [quote]⟩ hram)
        rw [putBack_cons hm (hfree ha) hram, putBack_cons hm ha ham,
          replaceAll_cons_of_notMem hp hcp, happend, ih.2 fun a ha hq => h a ha (hq.trans hs')]

end Bindery.Text
