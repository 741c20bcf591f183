import Bindery.Proofs.Graph.Count
import Bindery.Summary

/-!
# Summaries

In a forest below units there is a summary of every run. Its lists have one entry for each live
declaration that they are about.
-/

namespace Bindery

theorem exists_mapM {α β : Type} [Inhabited β] {f : α → Option β} {l : List α}
    (h : ∀ a ∈ l, ∃ b, f a = some b) : ∃ bs, l.mapM f = some bs ∧ bs.length = l.length := by
  refine ⟨l.map fun a => (f a).getD default, mapM_eq_some_of_forall fun a ha => ?_,
    List.length_map _⟩
  obtain ⟨b, hb⟩ := h a ha
  rw [hb, Option.getD_some]

namespace RunSummary

variable {g : Graph} {live : List Found}

theorem exists_qualifiedName?_of_mem (hg : g.IsRooted) (hl : g.live? = some live) {x : Found}
    (hx : x ∈ live) : ∃ n, g.qualifiedName? x.id = some n := by
  obtain rfl := Option.some.inj (hg.live?_eq.symm.trans hl)
  exact hg.exists_qualifiedName? (hg.live_lt (hg.mem_live.1 hx).1)

theorem exists_namesWhere (hg : g.IsRooted) (hl : g.live? = some live) (p : Slot → Bool) :
    ∃ names, namesWhere g p = some names ∧ names.length = (live.filter (p ·.slot)).length := by
  obtain ⟨names, hnames, hlen⟩ := exists_mapM (l := (live.filter (p ·.slot)).map Found.id)
    (f := g.qualifiedName?) fun i hi => by
      obtain ⟨x, hx, rfl⟩ := List.mem_map.1 hi
      exact exists_qualifiedName?_of_mem hg hl (List.mem_filter.1 hx).1
  refine ⟨names, ?_, hlen.trans (List.length_map _)⟩
  rw [namesWhere, Graph.liveWhere?, hl]
  exact hnames

/-- There is a summary, whose lists are as long as those of the declarations they are about. -/
theorem exists_collect (hg : g.IsRooted) (hl : g.live? = some live) (r : PipelineReport)
    (c : Config) : ∃ s, collect? g r c = some s ∧
      s.ignored.length = (live.filter (·.slot.isIgnored)).length ∧
      s.bitmasks.length =
        (live.filter fun x => x.slot.kind == .enumeration && x.slot.flags.has .bitmask).length ∧
      s.readOnly.length =
        (live.filter fun x => x.slot.kind == .property && x.slot.flags.has .readOnly).length ∧
      s.delegates.length =
        (live.filter fun x => x.slot.kind == .alias && x.slot.initialName.isSome).length := by
  obtain ⟨bitmasks, hbitmasks, hb⟩ := exists_namesWhere hg hl fun s =>
    s.kind == .enumeration && s.flags.has .bitmask
  obtain ⟨readOnly, hreadOnly, hr⟩ := exists_namesWhere hg hl fun s =>
    s.kind == .property && s.flags.has .readOnly
  obtain ⟨ignored, hignored, hi⟩ := exists_mapM (l := live.filter (·.slot.isIgnored))
    (f := fun x => (g.qualifiedName? x.id).map (x.slot.kind, ·)) fun x hx => by
      obtain ⟨n, hn⟩ := exists_qualifiedName?_of_mem hg hl (List.mem_filter.1 hx).1
      exact ⟨(x.slot.kind, n), by rw [hn, Option.map_some]⟩
  let delegates := live.filterMap fun x =>
    if x.slot.kind = .alias then x.slot.initialName.map (·, x.slot.name) else none
  have hd : delegates.length =
      (live.filter fun x => x.slot.kind == .alias && x.slot.initialName.isSome).length := by
    rw [List.length_filterMap_eq_countP, List.countP_eq_length_filter]
    congr 2
    funext x
    by_cases hk : x.slot.kind = .alias <;> simp [hk]
  refine ⟨⟨c.moduleName, r.variant, c.primaryHeader, r.synthesized, r.passes, ignored, bitmasks,
    readOnly, delegates⟩, ?_, hi, hb, hr, hd⟩
  simp only [collect?, hl, hignored, hbitmasks, hreadOnly, Option.bind_eq_bind, Option.bind_some]
  rfl

end RunSummary

end Bindery
