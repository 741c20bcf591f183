import Bindery.Proofs.Graph.View

/-!
# Copies of graphs

`Graph.Copy ι extra g h`: the view of `g` in which only the numbers are others, and so are those of
what is pending; `h` may have more slots, and `extra` waits there as well. What changes a
declaration in `g` changes its copy in the same way, and the lists of declarations stay the same.
-/

namespace Bindery

/-- The slot under another number. -/
def Slot.renumbered (ι : DeclId → DeclId) (s : Slot) : Slot :=
  { s with id := ι s.id, parent := s.parent.map ι, children := s.children.map ι }

def Pending.renumbered (ι : DeclId → DeclId) (p : Pending) : Pending := { p with decl := ι p.decl }

namespace Graph

variable {ι : DeclId → DeclId} {extra : List Pending} {g g' h : Graph} {i target : DeclId}
  {F : Slot → Slot}

/-- What `mark?` and `rename?` have in common: a change of what is declared, which does not read the
place of the declaration. -/
def redeclare? (g : Graph) (i : DeclId) (u : Declaration → Option Declaration) :
    Option (Graph × Bool) := do
  match u (← g.get? i).toDeclaration with
  | none => return (g, false)
  | some d => return (← g.modify? i fun s => { s with toDeclaration := d }, true)

structure Copy (ι : DeclId → DeclId) (extra : List Pending) (g h : Graph) : Prop extends
    View ι (Slot.renumbered ι) g h where
  pending_eq : h.pending = g.pending.map (Pending.renumbered ι) ++ extra

theorem Copy.of_get? (hι : Function.Injective ι)
    (hget : ∀ {i s}, g.get? i = some s → h.get? (ι i) = some (s.renumbered ι))
    (hunits : h.units = g.units.map ι) (hsize : g.size ≤ h.size)
    (hpending : h.pending = g.pending.map (Pending.renumbered ι) ++ extra) : Copy ι extra g h where
  injective := hι
  get?_eq := hget
  units_eq := hunits
  size_le := hsize
  parent_eq := fun _ => rfl
  children_eq := fun _ => rfl
  kind_eq := fun _ => rfl
  name_eq := fun _ => rfl
  type_eq := fun _ => rfl
  isComplete_eq := fun _ => rfl
  pending_eq := hpending

namespace Copy

theorem filter_ne_map (hι : Function.Injective ι) (i : DeclId) (ids : List DeclId) :
    (ids.map ι).filter (· != ι i) = (ids.filter (· != i)).map ι := by
  rw [List.filter_map]
  refine congrArg _ (List.filter_congr fun c _ => ?_)
  rw [Function.comp_apply, Bool.eq_iff_iff, bne_iff_ne, bne_iff_ne, hι.ne_iff]

variable (C : Copy ι extra g h)
include C

/-- The lists of what is declared are the same. -/
theorem listing?_eq {s : String} (hs : g.listing? = some s) : h.listing? = some s := by
  obtain ⟨ds, hds, rfl⟩ := Option.map_eq_some_iff.1 hs
  obtain ⟨ts, hts, rfl⟩ := Option.map_eq_some_iff.1 hds
  have hmap : ∀ t : Tree Found, (t.map (Found.seen ι (Slot.renumbered ι))).map
      (fun x => x.slot.toDeclaration) = t.map fun x => x.slot.toDeclaration := fun t => by
    rw [Tree.map_map]
    rfl
  rw [listing?, declarationForest?, C.forest?_eq hts, Option.map_some, Option.map_some,
    Tree.mapList_eq_map, List.map_map, Tree.mapList_eq_map]
  refine congrArg (fun ts => some (String.join ((List.flatMap Tree.lines ts).map (· ++ "\n")))) ?_
  exact List.map_congr_left fun t _ => hmap t

theorem exists_modify? (F' : Slot → Slot) (hF : ∀ s, (F s).renumbered ι = F' (s.renumbered ι))
    (hm : g.modify? i F = some g') :
    ∃ h', h.modify? (ι i) F' = some h' ∧ Copy ι extra g' h' := by
  obtain ⟨hi, -⟩ := eq_of_modify? hm
  obtain ⟨s, hs⟩ := exists_get?_of_lt hi
  have hlt : ι i < h.size := lt_size_of_get? (C.get?_eq hs)
  have hm' := modify?_eq_some (f := F') hlt
  refine ⟨_, hm', .of_get? C.injective (fun {j t} ht => ?_) ?_ ?_ ?_⟩
  · rw [get?_of_modify? hm] at ht
    rw [get?_of_modify? hm']
    by_cases hij : i = j
    · rw [if_pos hij] at ht
      obtain ⟨u, hu, rfl⟩ := Option.map_eq_some_iff.1 ht
      rw [if_pos (congrArg ι hij), C.get?_eq hu, Option.map_some, hF]
    · rw [if_neg hij] at ht
      rw [if_neg fun he => hij (C.injective he), C.get?_eq ht]
  · rw [units_of_modify? hm', units_of_modify? hm, C.units_eq]
  · rw [size_of_modify? hm', size_of_modify? hm]
    exact C.size_le
  · rw [pending_of_modify? hm', pending_of_modify? hm, C.pending_eq]

theorem exists_detach? (hd : g.detach? i = some g') :
    ∃ h', h.detach? (ι i) = some h' ∧ Copy ι extra g' h' := by
  obtain ⟨s, hs, hd⟩ := Option.bind_eq_some_iff.1 hd
  have hs' := C.get?_eq hs
  obtain ⟨d, id, _ | p, children⟩ := s
  · obtain rfl := Option.some.inj hd
    exact ⟨h, by rw [detach?, hs']; rfl, C⟩
  · obtain ⟨k, hk, hd⟩ := Option.bind_eq_some_iff.1 hd
    obtain ⟨k', hk', C'⟩ := C.exists_modify? (fun s => { s with parent := none })
      (fun _ => rfl) hk
    obtain ⟨h', hh', C''⟩ := C'.exists_modify?
      (fun s => { s with children := s.children.filter (· != ι i) })
      (fun s => by simp [Slot.renumbered, filter_ne_map C.injective]) hd
    refine ⟨h', ?_, C''⟩
    rw [detach?, hs']
    show (h.modify? (ι i) _).bind (fun k => k.modify? (ι p) _) = _
    rw [hk', Option.bind_some, hh']

theorem exists_reparent? (hr : g.reparent? i target = some g') :
    ∃ h', h.reparent? (ι i) (ι target) = some h' ∧ Copy ι extra g' h' := by
  obtain ⟨k, hk, hr⟩ := Option.bind_eq_some_iff.1 hr
  obtain ⟨l, hl, hr⟩ := Option.bind_eq_some_iff.1 hr
  obtain ⟨k', hk', C'⟩ := C.exists_detach? hk
  obtain ⟨l', hl', C''⟩ := C'.exists_modify?
    (fun s => { s with parent := some (ι target) }) (fun _ => rfl) hl
  obtain ⟨h', hh', C'''⟩ := C''.exists_modify?
    (fun s => { s with children := s.children ++ [ι i] })
    (fun s => by simp [Slot.renumbered]) hr
  refine ⟨h', ?_, C'''⟩
  show (h.detach? (ι i)).bind _ = _
  rw [hk', Option.bind_some]
  show (k'.modify? (ι i) _).bind _ = _
  rw [hl', Option.bind_some, hh']

theorem exists_remove? (hr : g.remove? i = some g') :
    ∃ h', h.remove? (ι i) = some h' ∧ Copy ι extra g' h' := by
  obtain ⟨k, hk, hr⟩ := Option.bind_eq_some_iff.1 hr
  obtain ⟨k', hk', C'⟩ := C.exists_detach? hk
  have Ccut : Copy ι extra { k with units := k.units.filter (· != i) }
      { k' with units := k'.units.filter (· != ι i) } :=
    .of_get? C.injective C'.get?_eq (by rw [C'.units_eq, filter_ne_map C.injective]) C'.size_le
      C'.pending_eq
  obtain ⟨h', hh', C''⟩ := Ccut.exists_modify?
    (fun s => { s with flags := s.flags ∪ .removed }) (fun _ => rfl) hr
  refine ⟨h', ?_, C''⟩
  show (h.detach? (ι i)).bind _ = _
  rw [hk', Option.bind_some, hh']

theorem exists_redeclare? {u : Declaration → Option Declaration} {b : Bool}
    (hr : g.redeclare? i u = some (g', b)) :
    ∃ h', h.redeclare? (ι i) u = some (h', b) ∧ Copy ι extra g' h' := by
  obtain ⟨s, hs, hr⟩ := Option.bind_eq_some_iff.1 hr
  have hh : h.redeclare? (ι i) u = _ := congrArg (Option.bind · _) (C.get?_eq hs)
  rw [hh, Option.bind_some]
  change ∃ h', (match u s.toDeclaration with
    | none => some (h, false)
    | some d => (h.modify? (ι i) fun s => { s with toDeclaration := d }).bind fun k =>
      some (k, true)) = some (h', b) ∧ Copy ι extra g' h'
  cases hu : u s.toDeclaration with
  | none =>
    rw [hu] at hr
    obtain ⟨rfl, rfl⟩ := Prod.mk.inj (Option.some.inj hr)
    exact ⟨h, rfl, C⟩
  | some d =>
    rw [hu] at hr
    obtain ⟨k, hk, hr⟩ := Option.bind_eq_some_iff.1 hr
    obtain ⟨rfl, rfl⟩ := Prod.mk.inj (Option.some.inj hr)
    obtain ⟨h', hh', C'⟩ := C.exists_modify? (fun s => { s with toDeclaration := d })
      (fun _ => rfl) hk
    refine ⟨h', ?_, C'⟩
    show (h.modify? (ι i) _).bind _ = _
    rw [hh', Option.bind_some]

theorem exists_mark? {fl : Flags} {b : Bool} (hr : g.mark? i fl = some (g', b)) :
    ∃ h', h.mark? (ι i) fl = some (h', b) ∧ Copy ι extra g' h' :=
  C.exists_redeclare? (u := fun d => d.mark? fl) hr

theorem exists_rename? {name : String} {b : Bool} (hr : g.rename? i name = some (g', b)) :
    ∃ h', h.rename? (ι i) name = some (h', b) ∧ Copy ι extra g' h' :=
  C.exists_redeclare? (u := fun d => d.rename? name) hr

end Copy

end Graph

end Bindery
