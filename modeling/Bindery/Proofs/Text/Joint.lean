import Bindery.Proofs.Text.Occurrence
import Mathlib.Data.List.Infix

/-!
# Joints

Where one text takes the place of another, a third text may arise at the two joints. That can be
told from the three texts: `AddsNo` and `LeavesNo` look at the ways to cut the third one in two, of
which a part would be at the end or at the beginning of the new text. Texts that still let it arise
are the `clashes`. For a deletion, which joins what it finds, the surroundings have to be known.
-/

namespace Bindery.Text

variable {p q s w a b k x y : List Char} {es clashes : List (List Char)}

/-! ### Cuts -/

theorem infix_append_cases (h : w <:+: a ++ b) :
    w <:+: a ∨ w <:+: b ∨ ∃ x y, w = x ++ y ∧ x ≠ [] ∧ y ≠ [] ∧ x <:+ a ∧ y <+: b := by
  rcases List.infix_append_iff.1 h with h | h | ⟨x, y, rfl, hx, hy⟩
  · exact .inl h
  · exact .inr (.inl h)
  · by_cases hxn : x = []
    · exact .inr (.inl (by rw [hxn, List.nil_append]; exact hy.isInfix))
    · by_cases hyn : y = []
      · exact .inl (by rw [hyn, List.append_nil]; exact hx.isInfix)
      · exact .inr (.inr ⟨x, y, rfl, hxn, hyn, hx, hy⟩)

theorem infix_append (hx : x <:+ a) (hy : y <+: b) : x ++ y <:+: a ++ b :=
  List.infix_append_iff.2 (.inr (.inr ⟨x, y, rfl, hx, hy⟩))

theorem prefix_append_cases (h : y <+: a ++ b) :
    y <+: a ∨ ∃ z, y = a ++ z ∧ z ≠ [] ∧ z <+: b := by
  rcases List.prefix_or_prefix_of_prefix h (List.prefix_append a b) with hy | ⟨z, rfl⟩
  · exact .inl hy
  · by_cases hz : z = []
    · exact .inl (by simp [hz])
    · exact .inr ⟨z, rfl, hz, (List.prefix_append_right_inj a).1 h⟩

theorem suffix_append_cases (h : x <:+ a ++ b) :
    x <:+ b ∨ ∃ z, x = z ++ b ∧ z ≠ [] ∧ z <:+ a := by
  rcases List.suffix_or_suffix_of_suffix h (List.suffix_append a b) with hx | ⟨z, rfl⟩
  · exact .inl hx
  · obtain ⟨t, ht⟩ := h
    rw [← List.append_assoc] at ht
    by_cases hz : z = []
    · exact .inl (by simp [hz])
    · exact .inr ⟨z, rfl, hz, t, List.append_cancel_right ht⟩

/-- However `w` is cut in two. -/
def OnCuts (w : List Char) (P : List Char → List Char → Prop) : Prop :=
  ∀ x y, w = x ++ y → P x y

instance (P : List Char → List Char → Prop) [∀ x y, Decidable (P x y)] : Decidable (OnCuts w P) :=
  decidable_of_iff (∀ n, n ≤ w.length → P (w.take n) (w.drop n)) <| by
    constructor
    · rintro h x y rfl
      simpa using h x.length (by simp)
    · intro h n _
      exact h _ _ (List.take_append_drop n w).symm

/-! ### Texts that do not arise -/

/-- No `w` arises where `q` takes the place of `p`, unless there is one of the `clashes`: what of
`w` would be in `q` is in `p` already. -/
def AddsNo (p q w : List Char) (clashes : List (List Char)) : Prop :=
  ¬ w <:+: q ∧
  OnCuts w (fun x y => x ≠ [] → y ≠ [] → ¬ q <+: y ∧
    (y <+: q → y <+: p ∨ ∃ c ∈ clashes, c <:+: x ++ p)) ∧
  OnCuts w fun x y => x ≠ [] → y ≠ [] → x <:+ q → x <:+ p

instance : Decidable (AddsNo p q w clashes) := inferInstanceAs (Decidable (_ ∧ _ ∧ _))

/-- No `p` is left where `q` takes its place, unless there is one of the `clashes`. -/
def LeavesNo (p q : List Char) (clashes : List (List Char)) : Prop :=
  ¬ p <:+: q ∧
  OnCuts p (fun x y => x ≠ [] → y ≠ [] → ¬ q <+: y ∧ ¬ y <+: q) ∧
  OnCuts p fun x y => x ≠ [] → y ≠ [] → x <:+ q → ∃ c ∈ clashes, c <:+: p ++ y

instance : Decidable (LeavesNo p q clashes) := inferInstanceAs (Decidable (_ ∧ _ ∧ _))

/-- With `x` before it, the text begins with `y` if it does so after the replacement. -/
theorem prefix_of_prefix_replaceAll (hp : p ≠ [])
    (hcuts : OnCuts w fun x y => x ≠ [] → y ≠ [] → ¬ q <+: y ∧
      (y <+: q → y <+: p ∨ ∃ c ∈ clashes, c <:+: x ++ p))
    (hw : w = x ++ y) (hx : x ≠ []) (hclear : ∀ c ∈ clashes, ¬ c <:+: x ++ s)
    (h : y <+: replaceAll p q s) : y <+: s := by
  cases hcut : cut? p s with
  | none => rwa [replaceAll_of_cut?_eq_none hp hcut] at h
  | some ab =>
    obtain ⟨a, b⟩ := ab
    rw [replaceAll_of_cut? hp hcut, List.append_assoc] at h
    have hs := cut?_eq_some hcut
    rw [List.append_assoc] at hs
    rw [hs] at hclear ⊢
    rcases prefix_append_cases h with hy | ⟨z, rfl, hz, hzq⟩
    · exact hy.trans (List.prefix_append a _)
    · obtain ⟨hlong, hshort⟩ := hcuts (x ++ a) z (by rw [hw, List.append_assoc]) (by simp [hx]) hz
      have hzq' :=
        (List.prefix_or_prefix_of_prefix hzq (List.prefix_append q _)).resolve_right hlong
      rcases hshort hzq' with hzp | ⟨c, hc, hxa⟩
      · exact (List.prefix_append_right_inj a).2 (hzp.trans (List.prefix_append p b))
      · refine absurd (hxa.trans ⟨[], b, ?_⟩) (hclear c hc)
        simp

theorem AddsNo.infix_of_infix_replaceAll (h : AddsNo p q w clashes) (hp : p ≠ [])
    (hclear : ∀ c ∈ clashes, ¬ c <:+: s) (hw : w <:+: replaceAll p q s) : w <:+: s := by
  obtain ⟨hinside, hbefore, hbehind⟩ := h
  induction s using piecesAux.induct p hp with
  | case1 s hcut => rwa [replaceAll_of_cut?_eq_none hp hcut] at hw
  | case2 s a b hcut _ ih =>
    rw [replaceAll_of_cut? hp hcut, List.append_assoc] at hw
    have hs := cut?_eq_some hcut
    have hap : a ++ p <:+: s := ⟨[], b, by simp [hs]⟩
    have hpb : p ++ b <:+: s := ⟨a, [], by simp [hs]⟩
    have hb : b <:+: s := (List.suffix_append p b).isInfix.trans hpb
    rcases infix_append_cases hw with hw | hw | ⟨x, y, rfl, hx, hy, hxa, hyq⟩
    · exact hw.trans ((List.prefix_append a p).isInfix.trans hap)
    · rcases infix_append_cases hw with hw | hw | ⟨x, y, rfl, hx, hy, hxq, hyb⟩
      · exact absurd hw hinside
      · exact (ih (fun c hc h => hclear c hc (h.trans hb)) hw).trans hb
      · -- the beginning of `w` was the end of `p`
        have hxp := hbehind x y rfl hx hy hxq
        have hxb := (infix_append hxp (List.prefix_refl b)).trans hpb
        exact (infix_append hxp (prefix_of_prefix_replaceAll hp hbefore rfl hx
          (fun c hc h => hclear c hc (h.trans hxb)) hyb)).trans hpb
    · obtain ⟨hlong, hshort⟩ := hbefore x y rfl hx hy
      have hyq := (List.prefix_or_prefix_of_prefix hyq (List.prefix_append q _)).resolve_right hlong
      rcases hshort hyq with hyp | ⟨c, hc, hxp⟩
      · exact (infix_append hxa hyp).trans hap
      · exact absurd (hxp.trans ((infix_append hxa (List.prefix_refl p)).trans hap)) (hclear c hc)

theorem LeavesNo.not_infix_replaceAll (h : LeavesNo p q clashes) (hp : p ≠ [])
    (hclear : ∀ c ∈ clashes, ¬ c <:+: s) : ¬ p <:+: replaceAll p q s := by
  obtain ⟨hinside, hbefore, hbehind⟩ := h
  induction s using piecesAux.induct p hp with
  | case1 s hcut =>
    rw [replaceAll_of_cut?_eq_none hp hcut]
    exact cut?_eq_none.1 hcut
  | case2 s a b hcut _ ih =>
    rw [replaceAll_of_cut? hp hcut, List.append_assoc]
    intro hw
    have hpb : p ++ b <:+: s := ⟨a, [], by simp [cut?_eq_some hcut]⟩
    have hb : b <:+: s := (List.suffix_append p b).isInfix.trans hpb
    have hcuts : ∀ x y, p = x ++ y → x ≠ [] → y ≠ [] → ¬ y <+: q ++ replaceAll p q b := by
      intro x y hxy hx hy hyq
      obtain ⟨hlong, hshort⟩ := hbefore x y hxy hx hy
      exact (List.prefix_or_prefix_of_prefix hyq (List.prefix_append q _)).elim hshort hlong
    rcases infix_append_cases hw with hw | hw | ⟨x, y, hxy, hx, hy, -, hyq⟩
    · exact not_occurs_of_cut? hp hcut hw
    · rcases infix_append_cases hw with hw | hw | ⟨x, y, hxy, hx, hy, hxq, hyb⟩
      · exact hinside hw
      · exact ih (fun c hc h => hclear c hc (h.trans hb)) hw
      · -- the end of `p` comes behind `p`
        have hcuts : OnCuts p fun x y => x ≠ [] → y ≠ [] → ¬ q <+: y ∧
            (y <+: q → y <+: p ∨ ∃ c ∈ ([] : List (List Char)), c <:+: x ++ p) :=
          fun x y hxy hx hy => ⟨(hbefore x y hxy hx hy).1,
            fun h => absurd h (hbefore x y hxy hx hy).2⟩
        have hyb := prefix_of_prefix_replaceAll hp hcuts hxy hx (by simp) hyb
        obtain ⟨c, hc, hpy⟩ := hbehind x y hxy hx hy hxq
        exact hclear c hc
          (hpy.trans ((infix_append (List.suffix_refl p) hyb).trans hpb))
    · exact hcuts x y hxy hx hy hyq

/-! ### Surroundings -/

/-- Every `w` stands behind `k` and before one of `es`. -/
def Framed (k w : List Char) (es : List (List Char)) (s : List Char) : Prop :=
  ∀ a b, s = a ++ w ++ b → k <:+ a ∧ ∃ e ∈ es, e <+: b

instance : Decidable (Framed k w es s) :=
  decidable_of_iff (OnCuts s fun x y => w <+: y → k <:+ x ∧ ∃ e ∈ es, e <+: y.drop w.length) <| by
    constructor
    · rintro h a b rfl
      simpa using h a (w ++ b) (by simp)
    · rintro h a _ rfl ⟨b, rfl⟩
      simpa using h a b (by simp)

/-- `w` is not in `q`, and neither ends where the other begins. -/
def Apart (q w : List Char) : Prop :=
  ¬ w <:+: q ∧ OnCuts w fun x y => x ≠ [] → y ≠ [] → ¬ q <+: y ∧ ¬ y <+: q ∧ ¬ x <:+ q

instance : Decidable (Apart q w) := inferInstanceAs (Decidable (_ ∧ _))

/-- No beginning of `k` is at the end of `p`. -/
def EndsApart (p k : List Char) : Prop :=
  OnCuts k fun x _ => x ≠ [] → ¬ x <:+ p ∧ ¬ p <:+ x

instance : Decidable (EndsApart p k) := inferInstanceAs (Decidable (OnCuts k fun _ _ => _))

theorem Apart.occurrence_cases {u v r : List Char} (hw : Apart q w) (hq : q ≠ [])
    (h : u ++ w ++ v = a ++ (q ++ r)) :
    (∃ t, a = u ++ w ++ t ∧ v = t ++ (q ++ r)) ∨ ∃ t, u = a ++ q ++ t ∧ r = t ++ w ++ v := by
  obtain ⟨hinside, hcuts⟩ := hw
  -- a beginning of `w` that is not empty is not an end of `q`
  have hends : ∀ x y, w = x ++ y → x ≠ [] → ¬ x <:+ q := fun x y hw hx hxq => by
    by_cases hy : y = []
    · exact hinside (by rw [hw, hy, List.append_nil]; exact hxq.isInfix)
    · exact (hcuts x y hw hx hy).2.2 hxq
  rcases List.append_eq_append_iff.1 h with ⟨t, ha, hv⟩ | ⟨t, hu, hqr⟩
  · exact .inl ⟨t, ha, hv⟩
  · rcases List.append_eq_append_iff.1 hu with ⟨x, ha, hw⟩ | ⟨z, rfl, rfl⟩
    · by_cases ht : t = []
      · exact .inl ⟨[], by simp [ha, hw, ht], by simpa [ht] using hqr.symm⟩
      · exfalso
        rcases prefix_append_cases (hqr ▸ List.prefix_append t v : t <+: q ++ r) with
          htq | ⟨z, rfl, -, -⟩
        · by_cases hx : x = []
          · exact hinside (by rw [hw, hx, List.nil_append]; exact htq.isInfix)
          · exact (hcuts x t hw hx ht).2.1 htq
        · by_cases hx : x = []
          · exact hends q z (by rw [hw, hx, List.nil_append]) hq (List.suffix_refl q)
          · exact (hcuts x _ hw hx ht).1 (List.prefix_append q z)
    · rw [List.append_assoc] at hqr
      rcases List.append_eq_append_iff.1 hqr with ⟨t, rfl, hr⟩ | ⟨x, rfl, hwv⟩
      · exact .inr ⟨t, by simp, by simpa using hr⟩
      · by_cases hx : x = []
        · exact .inr ⟨[], by simp [hx], by simpa [hx] using hwv.symm⟩
        · exfalso
          rcases prefix_append_cases (hwv ▸ List.prefix_append w v : w <+: x ++ r) with
            hwx | ⟨y, hw, -, -⟩
          · exact hinside (hwx.isInfix.trans (List.suffix_append z x).isInfix)
          · exact hends x y hw hx (List.suffix_append z x)

/-- The surroundings of every `w` stay where `q` takes the place of `p`, and no `w` arises. -/
def KeepsFrame (p q k w : List Char) (es : List (List Char)) : Prop :=
  Apart q w ∧ EndsApart p k ∧
  ∀ e ∈ es, OnCuts e fun x y => y ≠ [] → ¬ p <+: y ∧ (y <+: p → ∃ e' ∈ es, e' <+: x ++ q)

instance : Decidable (KeepsFrame p q k w es) := inferInstanceAs (Decidable (_ ∧ _ ∧ _))

/-- What is cut off at a `p` takes nothing from the surroundings. -/
theorem Framed.of_append (hk : EndsApart p k) (h : Framed k w es (a ++ p ++ b)) :
    Framed k w es b := by
  rintro x y rfl
  obtain ⟨hx, he⟩ := h (a ++ p ++ x) y (by simp)
  refine ⟨?_, he⟩
  rcases suffix_append_cases hx with hx | ⟨z, hkz, hz, hza⟩
  · exact hx
  · obtain ⟨hzp, hpz⟩ := hk z x hkz hz
    exact absurd (List.suffix_or_suffix_of_suffix hza (List.suffix_append a p)) (by simp [hzp, hpz])

theorem KeepsFrame.framed_replaceAll (h : KeepsFrame p q k w es) (hp : p ≠ []) (hq : q ≠ [])
    (hs : Framed k w es s) : Framed k w es (replaceAll p q s) := by
  obtain ⟨hw, hk, hes⟩ := h
  induction s using piecesAux.induct p hp with
  | case1 s hcut => rwa [replaceAll_of_cut?_eq_none hp hcut]
  | case2 s a b hcut _ ih =>
    have hsplit := cut?_eq_some hcut
    have hb := ih ((hsplit ▸ hs).of_append hk)
    intro u v huv
    rw [replaceAll_of_cut? hp hcut, List.append_assoc] at huv
    rcases hw.occurrence_cases hq huv.symm with ⟨t, rfl, rfl⟩ | ⟨t, rfl, hr⟩
    · obtain ⟨hu, e, he, het⟩ := hs u (t ++ (p ++ b)) (by simp [hsplit])
      refine ⟨hu, ?_⟩
      rcases prefix_append_cases het with het | ⟨y, rfl, hy, hyp⟩
      · exact ⟨e, he, het.trans (List.prefix_append t _)⟩
      · obtain ⟨hlong, hshort⟩ := hes _ he t y rfl hy
        obtain ⟨e', he', heq⟩ := hshort
          ((List.prefix_or_prefix_of_prefix hyp (List.prefix_append p b)).resolve_right hlong)
        refine ⟨e', he', ?_⟩
        rw [← List.append_assoc]
        exact heq.trans (List.prefix_append _ _)
    · obtain ⟨ht, he⟩ := hb t v hr
      exact ⟨ht.trans (List.suffix_append _ t), he⟩

/-! ### Deletions -/

/-- What stands around a deleted `p` and is no part of one. -/
def Surrounds (p k : List Char) (es : List (List Char)) : Prop :=
  EndsApart p k ∧ ∀ e ∈ es, OnCuts e fun _ y => y ≠ [] → ¬ p <+: y ∧ ¬ y <+: p

instance : Decidable (Surrounds p k es) := inferInstanceAs (Decidable (_ ∧ _))

/-- No `w` arises between `k` and one of `es`. -/
def JoinsNo (k w : List Char) (es : List (List Char)) : Prop :=
  OnCuts w fun x y => x ≠ [] → y ≠ [] → x <:+ k ∨ k <:+ x → ∀ e ∈ es, ¬ y <+: e ∧ ¬ e <+: y

instance : Decidable (JoinsNo k w es) :=
  inferInstanceAs (Decidable (OnCuts w fun _ _ => _))

theorem prefix_replaceAll {e : List Char} (hp : p ≠ [])
    (he : OnCuts e fun _ y => y ≠ [] → ¬ p <+: y ∧ ¬ y <+: p) (hs : e <+: s) :
    e <+: replaceAll p q s := by
  cases hcut : cut? p s with
  | none => rwa [replaceAll_of_cut?_eq_none hp hcut]
  | some ab =>
    obtain ⟨a, b⟩ := ab
    rw [cut?_eq_some hcut, List.append_assoc] at hs
    rw [replaceAll_of_cut? hp hcut, List.append_assoc]
    rcases prefix_append_cases hs with ha | ⟨y, rfl, hy, hyp⟩
    · exact ha.trans (List.prefix_append a _)
    · obtain ⟨hlong, hshort⟩ := he a y rfl hy
      exact absurd (List.prefix_or_prefix_of_prefix hyp (List.prefix_append p b))
        (by simp [hlong, hshort])

/-- What occurs after a deletion stands between two deleted texts. -/
theorem JoinsNo.infix_of_infix_replaceAll (h : JoinsNo k w es) (hp : p ≠ [])
    (hk : Surrounds p k es) (hs : Framed k p es s) (hw : w <:+: replaceAll p [] s) :
    ∃ t, w <:+: t ∧ t <:+: s ∧ ¬ p <:+: t := by
  induction s using piecesAux.induct p hp with
  | case1 s hcut =>
    rw [replaceAll_of_cut?_eq_none hp hcut] at hw
    exact ⟨s, hw, List.infix_refl s, cut?_eq_none.1 hcut⟩
  | case2 s a b hcut _ ih =>
    have hsplit := cut?_eq_some hcut
    rw [replaceAll_of_cut? hp hcut, List.append_nil] at hw
    rcases infix_append_cases hw with hw | hw | ⟨x, y, rfl, hx, hy, hxa, hyb⟩
    · exact ⟨a, hw, ⟨[], p ++ b, by simp [hsplit]⟩, not_occurs_of_cut? hp hcut⟩
    · obtain ⟨t, hwt, htb, hpt⟩ := ih ((hsplit ▸ hs).of_append hk.1) hw
      exact ⟨t, hwt, htb.trans ⟨a ++ p, [], by simp [hsplit]⟩, hpt⟩
    · obtain ⟨hka, e, he, heb⟩ := hs a b hsplit
      obtain ⟨hlong, hshort⟩ := h x y rfl hx hy (List.suffix_or_suffix_of_suffix hxa hka) e he
      have heb := prefix_replaceAll (q := []) hp (hk.2 e he) heb
      exact absurd (List.prefix_or_prefix_of_prefix hyb heb) (by simp [hlong, hshort])

end Bindery.Text
