import Bindery.Proofs.Patch.Replacement
import Bindery.Proofs.Text.Joint
import Bindery.Proofs.Text.Quotation

/-!
# Cleaning a text again

A cleaned text stays as it is if nothing is left to replace in it, which is said by `IsSettled`. One
run of the cleanup does not always come so far: a text that a later entry makes may be what an
earlier one is about. What keeps a text from that is said by `IsTidy`.
-/

namespace Bindery.Replacement

variable {r : Replacement} {table : List Replacement} {s t u w : List Char}

/-- The type gets its name. -/
def nameType : Replacement := ⟨"imgui", "ImGui"⟩

/-- The library gets its name back. -/
def nameLibrary : Replacement := ⟨"\"ImGui\"", "\"imgui\""⟩

/-- The text is one without `imgui` in which the library has got its name back, and no other
replacement finds anything. -/
structure IsSettled (u : List Char) : Prop where
  named : ∃ v, ¬ nameType.old.toList <:+: v ∧ u = nameLibrary.apply v
  unmatched : ∀ r ∈ cleanup.drop 2, ¬ r.old.toList <:+: u

theorem cleanup_eq_cons : cleanup = nameType :: nameLibrary :: cleanup.drop 2 := rfl

theorem applyAll_cleanup (s : List Char) : applyAll cleanup s =
    applyAll (cleanup.drop 2) (nameLibrary.apply (nameType.apply s)) := by
  rw [cleanup_eq_cons, applyAll_cons, applyAll_cons]
  rfl

theorem nameLibrary_apply (s : List Char) :
    nameLibrary.apply s = Text.putBack '"' "ImGui".toList "imgui".toList s := by
  have hold : nameLibrary.old.toList = Text.quote '"' "ImGui".toList := by decide
  have hnew : nameLibrary.new.toList = Text.quote '"' "imgui".toList := by decide
  rw [apply, hold, hnew, Text.putBack]

/-! ### What is left to replace -/

/-- How many characters a text has of which every later replacement takes some away. -/
def weight (s : List Char) : Nat := s.countP fun c => c == 'b' || c == 'm' || c == '_'

theorem weight_apply_le (hold : r.old ≠ "")
    (hr : weight r.new.toList ≤ weight r.old.toList) (s : List Char) :
    weight (r.apply s) ≤ weight s := by
  have hp := toList_old_ne_nil hold
  rw [apply]
  induction s using Text.piecesAux.induct r.old.toList hp with
  | case1 s hcut =>
    have hsame := Text.replaceAll_of_cut?_eq_none (q := r.new.toList) hp hcut
    exact Nat.le_of_eq (congrArg weight hsame)
  | case2 s a b hcut _ ih =>
    rw [Text.replaceAll_of_cut? hp hcut, Text.cut?_eq_some hcut]
    simp only [weight, List.countP_append] at hr ih ⊢
    omega

theorem weight_apply_lt (hr : weight r.new.toList < weight r.old.toList)
    (hs : r.old.toList <:+: s) : weight (r.apply s) < weight s := by
  have hold : r.old ≠ "" := fun h => by simp [h, weight] at hr
  obtain ⟨⟨a, b⟩, hcut⟩ := Option.isSome_iff_exists.1 (Text.contains_iff_cut?.2 hs)
  have hb := weight_apply_le hold (Nat.le_of_lt hr) b
  rw [apply] at hb
  rw [apply, Text.replaceAll_of_cut? (toList_old_ne_nil hold) hcut, Text.cut?_eq_some hcut]
  simp only [weight, List.countP_append] at hr hb ⊢
  omega

/-- A table that takes away from the text whatever it finds has found nothing if nothing is gone. -/
theorem unmatched_of_weight (ht : ∀ r ∈ table, weight r.new.toList < weight r.old.toList)
    (h : weight s ≤ weight (applyAll table s)) :
    applyAll table s = s ∧ ∀ r ∈ table, ¬ r.old.toList <:+: s := by
  have hle : ∀ {rs : List Replacement} {s : List Char},
      (∀ r ∈ rs, weight r.new.toList < weight r.old.toList) →
      weight (applyAll rs s) ≤ weight s := by
    intro rs
    induction rs with
    | nil => exact fun _ => Nat.le_refl _
    | cons r rs ih =>
      intro s hrs
      obtain ⟨hr, hrs⟩ := List.forall_mem_cons.1 hrs
      have hold : r.old ≠ "" := fun h => by simp [h, weight] at hr
      exact Nat.le_trans (ih hrs) (weight_apply_le hold (Nat.le_of_lt hr) s)
  induction table generalizing s with
  | nil => exact ⟨rfl, List.forall_mem_nil _⟩
  | cons r rs ih =>
    obtain ⟨hr, hrs⟩ := List.forall_mem_cons.1 ht
    have hold : r.old ≠ "" := fun h => by simp [h, weight] at hr
    have hafter : weight (applyAll rs (r.apply s)) ≤ weight (r.apply s) := hle hrs
    have hfirst : ¬ r.old.toList <:+: s := fun hs =>
      absurd (Nat.le_trans h hafter) (Nat.not_le_of_lt (weight_apply_lt hr hs))
    have hsame : r.apply s = s := Text.replaceAll_of_not_occurs (toList_old_ne_nil hold) hfirst
    rw [applyAll_cons, hsame] at h ⊢
    obtain ⟨hrest, hnone⟩ := ih hrs h
    exact ⟨hrest, List.forall_mem_cons.2 ⟨hfirst, hnone⟩⟩

theorem applyAll_of_unmatched (ht : ∀ r ∈ table, r.old.toList ≠ [])
    (h : ∀ r ∈ table, ¬ r.old.toList <:+: s) : applyAll table s = s := by
  induction table with
  | nil => rfl
  | cons r rs ih =>
    obtain ⟨hr, hrs⟩ := List.forall_mem_cons.1 ht
    obtain ⟨hfirst, hnone⟩ := List.forall_mem_cons.1 h
    rw [applyAll_cons, apply, Text.replaceAll_of_not_occurs hr hfirst]
    exact ih hrs hnone

/-! ### What the entries have to do with each other -/

/-- Texts in which a replacement makes a name of the library beside a part of it. -/
def clashes : List (List Char) := ["imguimgui", "imgupublic", "imgunamespace"].map String.toList

/-- What may stand behind `.__Symbols`: white space, a mark that ends a name, or the first letters
of a name that begins with that of the library. -/
def followers : List (List Char) :=
  ["\r", "\n", " ", ";", "\x7b", ".img", ".ImG"].map String.toList

/-- The entries but the one that gives the library its name back and the one that deletes. -/
def inner {α : Type} (table : List α) : List α := table.take 1 ++ (table.drop 2).dropLast

/-- What is read off the characters of the table: no entry makes work for an earlier one but where
there is a clash or something is deleted. -/
structure IsCascade (cs : List (List Char × List Char)) : Prop where
  old_ne_nil : ∀ r ∈ cs, r.1 ≠ []
  new_ne_nil : ∀ r ∈ inner cs, r.2 ≠ []
  weight_lt : ∀ r ∈ cs.drop 2, weight r.2 < weight r.1
  clash : ∀ r ∈ inner cs, ∀ c ∈ clashes, Text.AddsNo r.1 r.2 c clashes
  leavesNo : ∀ r ∈ inner cs, Text.LeavesNo r.1 r.2 clashes
  addsNo : (inner cs).Pairwise fun q r =>
    ¬ ".__Symbols".toList <:+: q.1 → Text.AddsNo r.1 r.2 q.1 clashes
  keepsFrame : ∀ r ∈ inner cs,
    Text.KeepsFrame r.1 r.2 "NET".toList ".__Symbols".toList followers
  joinsNo : ∀ r ∈ cs, Text.JoinsNo "NET".toList r.1 followers
  quote : ∀ r ∈ cs.drop 2, '"' ∉ r.1 ∧ '"' ∉ r.2
  name : ∀ r ∈ cs.drop 2, ¬ r.1 <:+: "ImGui".toList ∧ ¬ r.1 <:+: "imgui".toList
  no_name : ∀ r ∈ (cs.drop 2).dropLast, ¬ r.2 <:+: "ImGui".toList
  library : ∀ r ∈ cs.drop 2, Text.AddsNo "\"ImGui\"".toList "\"imgui\"".toList r.1 []

theorem isCascade_cleanup : IsCascade (cleanup.map chars) := by
  rw [cleanupChars.2]
  constructor <;> decide +kernel

theorem chars_mem_drop (hr : r ∈ cleanup.drop 2) : chars r ∈ (cleanup.map chars).drop 2 := by
  rw [← List.map_drop]
  exact List.mem_map_of_mem hr

theorem inner_map (table : List Replacement) :
    inner (table.map chars) = (inner table).map chars := by
  simp only [inner, List.map_append, List.map_take, List.map_dropLast, List.map_drop]

theorem chars_mem_inner (hr : r ∈ inner cleanup) : chars r ∈ inner (cleanup.map chars) := by
  rw [inner_map]
  exact List.mem_map_of_mem hr

theorem mem_of_mem_inner (hr : r ∈ inner cleanup) : r ∈ cleanup := by
  rcases List.mem_append.1 hr with hr | hr
  · exact List.mem_of_mem_take hr
  · exact List.mem_of_mem_drop ((List.dropLast_sublist _).mem hr)

theorem old_ne_nil (hr : r ∈ cleanup) : r.old.toList ≠ [] :=
  isCascade_cleanup.old_ne_nil _ (List.mem_map_of_mem hr)

/-- The cleanup leaves alone just the texts that are settled. -/
theorem applyAll_cleanup_eq_self_iff : applyAll cleanup u = u ↔ IsSettled u := by
  have hname : nameType.old.toList ≠ [] := by decide
  constructor
  · intro h
    rw [applyAll_cleanup] at h
    have hweight : weight (nameLibrary.apply (nameType.apply u)) ≤ weight u :=
      Nat.le_trans (weight_apply_le (r := nameLibrary) (by decide) (by decide) _)
        (weight_apply_le (r := nameType) (by decide) (by decide) u)
    obtain ⟨hrest, hnone⟩ := unmatched_of_weight
      (fun r hr => isCascade_cleanup.weight_lt _ (chars_mem_drop hr)) (by rwa [h])
    rw [hrest] at h
    rw [h] at hnone
    refine ⟨⟨nameType.apply u, ?_, h.symm⟩, hnone⟩
    rw [nameLibrary_apply] at h
    exact (Text.not_infix_of_putBack_replaceAll (by decide) (by decide) hname (by decide)
      (by decide) u).1 h
  · rintro ⟨⟨v, hv, rfl⟩, hnone⟩
    have hback : nameType.apply (nameLibrary.apply v) = v := by
      rw [nameLibrary_apply]
      exact Text.replaceAll_putBack (by decide) hname hv
    rw [applyAll_cleanup, hback]
    exact applyAll_of_unmatched (fun r hr => old_ne_nil (List.mem_of_mem_drop hr)) hnone

/-! ### Texts that one run settles -/

/-- No two replacements are about the same part of the text, and where `.__Symbols` is deleted there
is nothing to replace before or behind it. -/
structure IsTidy (t : List Char) : Prop where
  clear : ∀ c ∈ clashes, ¬ c <:+: t
  framed : Text.Framed "NET".toList ".__Symbols".toList followers t

instance (t : List Char) : Decidable (IsTidy t) :=
  decidable_of_iff (_ ∧ _) ⟨fun h => ⟨h.1, h.2⟩, fun h => ⟨h.1, h.2⟩⟩

def deletion : Replacement := ⟨".__Symbols", ""⟩

theorem drop_cleanup_eq_concat : cleanup.drop 2 = (cleanup.drop 2).dropLast ++ [deletion] := rfl

theorem deletion_mem_drop : deletion ∈ cleanup.drop 2 := by
  rw [drop_cleanup_eq_concat]
  exact List.mem_append_right _ (List.mem_cons_self ..)

theorem inner_cleanup : inner cleanup = nameType :: (cleanup.drop 2).dropLast := rfl

section Run

/-! A table whose entries make no clash. -/

variable (hold : ∀ r ∈ table, r.old.toList ≠ [])
  (hclashes : ∀ r ∈ table, ∀ c ∈ clashes, Text.AddsNo r.old.toList r.new.toList c clashes)

include hold hclashes

/-- What does not occur, and cannot arise, does not occur after all replacements. -/
theorem not_infix_applyAll (hw : ∀ r ∈ table, Text.AddsNo r.old.toList r.new.toList w clashes)
    (hclear : ∀ c ∈ clashes, ¬ c <:+: s) (hs : ¬ w <:+: s) : ¬ w <:+: applyAll table s := by
  induction table generalizing s with
  | nil => exact hs
  | cons r rs ih =>
    obtain ⟨hr, hold⟩ := List.forall_mem_cons.1 hold
    obtain ⟨hc, hclashes⟩ := List.forall_mem_cons.1 hclashes
    obtain ⟨hwr, hw⟩ := List.forall_mem_cons.1 hw
    refine ih hold hclashes hw (fun c hmem h => ?_) fun h => ?_
    · exact hclear c hmem ((hc c hmem).infix_of_infix_replaceAll hr hclear h)
    · exact hs (hwr.infix_of_infix_replaceAll hr hclear h)

/-- No old text is left that is gone once and cannot arise later. -/
theorem unmatched_applyAll (hself : ∀ r ∈ table, Text.LeavesNo r.old.toList r.new.toList clashes)
    {p : Replacement → Prop} (hlater : table.Pairwise fun q r =>
      p q → Text.AddsNo r.old.toList r.new.toList q.old.toList clashes)
    (hclear : ∀ c ∈ clashes, ¬ c <:+: s) :
    ∀ r ∈ table, p r → ¬ r.old.toList <:+: applyAll table s := by
  induction table generalizing s with
  | nil => exact List.forall_mem_nil _
  | cons q rs ih =>
    obtain ⟨hq, hold⟩ := List.forall_mem_cons.1 hold
    obtain ⟨hc, hclashes⟩ := List.forall_mem_cons.1 hclashes
    obtain ⟨hfirst, hself⟩ := List.forall_mem_cons.1 hself
    obtain ⟨hnone, hlater⟩ := List.pairwise_cons.1 hlater
    have hclear' : ∀ c ∈ clashes, ¬ c <:+: q.apply s := fun c hmem h =>
      hclear c hmem ((hc c hmem).infix_of_infix_replaceAll hq hclear h)
    rw [applyAll_cons]
    refine List.forall_mem_cons.2 ⟨fun hp => ?_, ih hold hclashes hself hlater hclear'⟩
    exact not_infix_applyAll hold hclashes (fun r hr => hnone r hr hp) hclear'
      (hfirst.not_infix_replaceAll hq hclear)

end Run

theorem framed_applyAll {k : List Char} {es : List (List Char)}
    (h : ∀ r ∈ table, r.old.toList ≠ [] ∧ r.new.toList ≠ [] ∧
      Text.KeepsFrame r.old.toList r.new.toList k w es)
    (hs : Text.Framed k w es s) : Text.Framed k w es (applyAll table s) := by
  induction table generalizing s with
  | nil => exact hs
  | cons r rs ih =>
    obtain ⟨⟨hold, hnew, hr⟩, hrs⟩ := List.forall_mem_cons.1 h
    exact ih hrs (hr.framed_replaceAll hold hnew hs)

/-! ### The name of the library -/

theorem nameLibrary_apply_comm (hr : r ∈ cleanup.drop 2)
    (hs : ∀ a, '"' ∉ a → Text.quote '"' a <:+: s → r.apply a = "ImGui".toList →
      a = "ImGui".toList) :
    nameLibrary.apply (r.apply s) = r.apply (nameLibrary.apply s) := by
  have hold := old_ne_nil (List.mem_of_mem_drop hr)
  obtain ⟨hqold, hqnew⟩ := isCascade_cleanup.quote _ (chars_mem_drop hr)
  obtain ⟨htype, hlibrary⟩ := isCascade_cleanup.name _ (chars_mem_drop hr)
  rw [nameLibrary_apply, nameLibrary_apply]
  exact Text.putBack_replaceAll_comm hold hqold hqnew (by decide)
    (Text.replaceAll_of_not_occurs hold htype) (Text.replaceAll_of_not_occurs hold hlibrary) hs

/-- A new text that is in no name of the type makes none. -/
theorem eq_of_apply_eq {n : List Char} (hold : r.old.toList ≠ []) (hnew : ¬ r.new.toList <:+: n)
    {a : List Char} (h : r.apply a = n) : a = n := by
  by_cases ha : r.old.toList <:+: a
  · obtain ⟨⟨x, y⟩, hcut⟩ := Option.isSome_iff_exists.1 (Text.contains_iff_cut?.2 ha)
    rw [apply, Text.replaceAll_of_cut? hold hcut] at h
    exact absurd ⟨x, _, h⟩ hnew
  · rwa [apply, Text.replaceAll_of_not_occurs hold ha] at h

theorem nameLibrary_applyAll_comm (ht : ∀ r ∈ table, r ∈ (cleanup.drop 2).dropLast)
    (s : List Char) :
    nameLibrary.apply (applyAll table s) = applyAll table (nameLibrary.apply s) := by
  induction table generalizing s with
  | nil => rfl
  | cons r rs ih =>
    obtain ⟨hr, hrs⟩ := List.forall_mem_cons.1 ht
    have hmem := (List.dropLast_sublist _).mem hr
    have hnew : ¬ r.new.toList <:+: "ImGui".toList := by
      refine isCascade_cleanup.no_name (chars r) ?_
      rw [← List.map_drop, ← List.map_dropLast]
      exact List.mem_map_of_mem hr
    rw [applyAll_cons, applyAll_cons, ih hrs, nameLibrary_apply_comm hmem fun a _ _ h =>
      eq_of_apply_eq (old_ne_nil (List.mem_of_mem_drop hmem)) hnew h]

/-- What stands before a deleted text and is no name of the type is not deleted. -/
theorem nameLibrary_deletion_comm
    (hs : Text.Framed "NET".toList ".__Symbols".toList followers s) :
    nameLibrary.apply (deletion.apply s) = deletion.apply (nameLibrary.apply s) := by
  refine nameLibrary_apply_comm deletion_mem_drop fun a _ hquote ha => ?_
  have hold := old_ne_nil (List.mem_of_mem_drop deletion_mem_drop)
  cases hcut : Text.cut? deletion.old.toList a with
  | none => rwa [apply, Text.replaceAll_of_cut?_eq_none hold hcut] at ha
  | some xy =>
    obtain ⟨x, y⟩ := xy
    obtain ⟨u, v, rfl⟩ := hquote
    obtain ⟨hnet, -⟩ := hs (u ++ '"' :: x) (y ++ '"' :: v) (by
      rw [Text.cut?_eq_some hcut]
      simp [Text.quote, deletion])
    rw [Text.suffix_append_cons (by decide)] at hnet
    rw [apply, Text.replaceAll_of_cut? hold hcut] at ha
    have hname : "NET".toList <:+: "ImGui".toList :=
      hnet.isInfix.trans (by rw [← ha, List.append_assoc]; exact (List.prefix_append x _).isInfix)
    exact absurd hname (by decide)

/-! ### One run -/

/-- One run of the cleanup settles a tidy text. -/
theorem IsTidy.isSettled (ht : IsTidy t) : IsSettled (applyAll cleanup t) := by
  have hchecked := isCascade_cleanup
  have hold : ∀ r ∈ inner cleanup, r.old.toList ≠ [] := fun r hr => old_ne_nil (mem_of_mem_inner hr)
  obtain ⟨s, hs⟩ : ∃ s, applyAll (inner cleanup) t = s := ⟨_, rfl⟩
  have hframed : Text.Framed "NET".toList ".__Symbols".toList followers s := by
    rw [← hs]
    refine framed_applyAll (fun r hr => ⟨hold r hr, ?_, ?_⟩) ht.framed
    · exact hchecked.new_ne_nil _ (chars_mem_inner hr)
    · exact hchecked.keepsFrame _ (chars_mem_inner hr)
  have hgone : ∀ r ∈ inner cleanup, ¬ ".__Symbols".toList <:+: r.old.toList →
      ¬ r.old.toList <:+: s := by
    have hlater := hchecked.addsNo
    rw [inner_map, List.pairwise_map] at hlater
    rw [← hs]
    exact unmatched_applyAll hold (fun r hr => hchecked.clash _ (chars_mem_inner hr))
      (fun r hr => hchecked.leavesNo _ (chars_mem_inner hr)) hlater ht.clear
  -- what occurs after the deletion stands between two deleted texts
  have hjoins : ∀ r ∈ cleanup, r.old.toList <:+: deletion.apply s →
      r.old.toList <:+: s ∧ ¬ ".__Symbols".toList <:+: r.old.toList := fun r hr h => by
    have hjoin := hchecked.joinsNo _ (List.mem_map_of_mem hr)
    obtain ⟨t, hrt, hts, hnone⟩ := hjoin.infix_of_infix_replaceAll
      (old_ne_nil (List.mem_of_mem_drop deletion_mem_drop)) (by decide +kernel) hframed h
    exact ⟨hrt.trans hts, fun h => hnone (h.trans hrt)⟩
  have hnone : ∀ r ∈ cleanup, r ∈ inner cleanup ∨ r = deletion →
      ¬ r.old.toList <:+: deletion.apply s := fun r hr hcases h => by
    obtain ⟨hrs, hsymbols⟩ := hjoins r hr h
    rcases hcases with hr | rfl
    · exact hgone r hr hsymbols hrs
    · exact hsymbols (List.infix_refl _)
  have hcleanup : applyAll cleanup t = nameLibrary.apply (deletion.apply s) := by
    have hs : applyAll (cleanup.drop 2).dropLast (nameType.apply t) = s := by
      rw [← hs, inner_cleanup, applyAll_cons]
    rw [applyAll_cleanup, drop_cleanup_eq_concat, applyAll_append,
      ← nameLibrary_applyAll_comm (fun _ hr => hr), hs, nameLibrary_deletion_comm hframed]
    rfl
  rw [hcleanup]
  refine ⟨⟨deletion.apply s, ?_, rfl⟩, fun r hr h => ?_⟩
  · have hmem : nameType ∈ inner cleanup := inner_cleanup ▸ List.mem_cons_self ..
    exact hnone nameType (mem_of_mem_inner hmem) (.inl hmem)
  · have hmem := hr
    rw [drop_cleanup_eq_concat, List.mem_append, List.mem_singleton] at hmem
    refine hnone r (List.mem_of_mem_drop hr) (hmem.imp_left ?_) ?_
    · rw [inner_cleanup]
      exact List.mem_cons_of_mem _
    · refine (hchecked.library _ (chars_mem_drop hr)).infix_of_infix_replaceAll (by decide) ?_ h
      exact List.forall_mem_nil _

/-- A second run of the cleanup leaves a cleaned text alone just if it is settled, and after a tidy
text it does. -/
theorem cleanup_twice (t : List Char) :
    (applyAll cleanup (applyAll cleanup t) = applyAll cleanup t ↔
      IsSettled (applyAll cleanup t)) ∧
    (IsTidy t → applyAll cleanup (applyAll cleanup t) = applyAll cleanup t) :=
  ⟨applyAll_cleanup_eq_self_iff, fun ht => applyAll_cleanup_eq_self_iff.2 ht.isSettled⟩

/-- The class of the symbols, and a name of the library. -/
theorem cleanup_twice_symbols :
    let t := ("\x7d\nnamespace ImGuiNET.__Symbols\n\x7b\n    internal class imgui\n" ++
      "[DllImport(\"imgui\")] global::ImGuiNET.__Symbols.imgui._x").toList
    IsTidy t ∧ applyAll cleanup (applyAll cleanup t) = applyAll cleanup t := by
  intro t
  have ht : IsTidy t := by decide +kernel
  exact ⟨ht, (cleanup_twice t).2 ht⟩

/-- The name of the library is there only after the deletion. -/
theorem cleanup_twice_ne_of_symbols :
    applyAll cleanup (applyAll cleanup "InternalsVisibleTo(\"imgui.__Symbols\")".toList) ≠
      applyAll cleanup "InternalsVisibleTo(\"imgui.__Symbols\")".toList := by
  rw [applyAll_cleanup_eq_foldl, applyAll_cleanup_eq_foldl]
  decide +kernel

end Bindery.Replacement
