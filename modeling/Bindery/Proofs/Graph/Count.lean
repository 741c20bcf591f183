import Bindery.Proofs.Graph.Rooted

/-!
# Declarations counted

`Graph.slotsWhere` is the set of the declarations that satisfy a test, wherever they stand. The list
of what is live has each of them once, so a filter of that list is as long as the set, if everything
in the set is live.
-/

namespace Bindery.Graph

variable {g : Graph} {i : DeclId} {s : Slot} {p : Slot → Bool} {f : Flags}

def slotsWhere (g : Graph) (p : Slot → Bool) : Finset DeclId :=
  (Finset.range g.size).filter fun i => (g.get? i).any p

theorem mem_slotsWhere : i ∈ g.slotsWhere p ↔ ∃ s, g.get? i = some s ∧ p s := by
  rw [slotsWhere, Finset.mem_filter, Finset.mem_range]
  constructor
  · rintro ⟨hi, hp⟩
    obtain ⟨s, hs⟩ := exists_get?_of_lt hi
    rw [hs, Option.any_some] at hp
    exact ⟨s, hs, hp⟩
  · rintro ⟨s, hs, hp⟩
    refine ⟨lt_size_of_get? hs, ?_⟩
    rw [hs, Option.any_some]
    exact hp

theorem mem_slotsWhere_of_get? (hs : g.get? i = some s) : i ∈ g.slotsWhere p ↔ p s := by
  rw [mem_slotsWhere, hs]
  simp

/-- The declarations that bear a flag. -/
def bearers (g : Graph) (f : Flags) : Finset DeclId := g.slotsWhere (·.flags.has f)

/-- The declarations of a kind that have had another name. -/
def renamed (g : Graph) (k : Kind) : Finset DeclId :=
  g.slotsWhere fun s => s.kind == k && s.initialName.isSome

theorem mem_bearers_of_get? (hs : g.get? i = some s) : i ∈ g.bearers f ↔ s.flags.has f :=
  mem_slotsWhere_of_get? hs

/-- A filter of what is live is as long as the set that it lists. -/
theorem IsRooted.length_filter_live (hg : g.IsRooted) {live : List Found} (hl : g.live? = some live)
    {q : Found → Bool} {S : Finset DeclId}
    (hS : ∀ i s, g.get? i = some s → (i ∈ S ↔ q ⟨i, s⟩)) (hlive : ∀ i ∈ S, g.IsLive i) :
    (live.filter q).length = S.card := by
  obtain rfl := Option.some.inj (hg.live?_eq.symm.trans hl)
  set live := g.units.flatMap g.below with hlist
  have hnd : ((live.filter q).map Found.id).Nodup :=
    hg.nodup_live.sublist (List.filter_sublist.map _)
  have hset : ((live.filter q).map Found.id).toFinset = S := by
    ext i
    simp only [List.mem_toFinset, List.mem_map, List.mem_filter, hlist, hg.mem_live]
    constructor
    · rintro ⟨x, ⟨⟨-, hx⟩, hq⟩, rfl⟩
      exact (hS x.id x.slot hx).2 hq
    · intro hi
      obtain ⟨s, hs⟩ := exists_get?_of_lt (hg.live_lt (hlive i hi))
      exact ⟨⟨i, s⟩, ⟨⟨hlive i hi, hs⟩, (hS i s hs).1 hi⟩, rfl⟩
  rw [← hset, List.toFinset_card_of_nodup hnd, List.length_map]

end Bindery.Graph
