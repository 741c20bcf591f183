import Bindery.Proofs.Dump.Formed
import Bindery.Proofs.Dump.Order
import Bindery.Proofs.Graph.Listing

/-!
# Declared types

Every type that a declaration of a dump has has been read, and stands behind a name of words. What
is live of it has no flags, so that its line ends with its type.
-/

namespace Bindery

open Dump Dump.Parser

/-- What the text of a dump says of a declaration that has a type. -/
def Declaration.IsWritten (d : Declaration) : Prop :=
  ∀ t ∈ d.type, t.IsRead ∧ IsWords d.name

namespace TypeRef

theorem IsProper.isRead {t : TypeRef} (h : t.IsProper) : t.IsRead := by
  have hend : Ends closing [';'] := ends_cons (by decide) fun _ => rfl
  have hreads := (readsTypes_typeRef (t.spelling.toList.length + 1)).reads h
    (Nat.lt_succ_self _) hend
  exact ⟨_, _, _, hreads.yields⟩

theorem isRead_void : void.IsRead := by
  have hname : IsName "void" := ⟨["void"], List.cons_ne_nil _ _,
    List.forall_mem_singleton.2 (isIdent_of_all (by decide)), by decide⟩
  have hproper : void.IsProper := hname
  exact hproper.isRead

end TypeRef

namespace Dump

variable {i r : List Char} {τ : Parser TypeRef} {d : Declaration} {e : Entry} {b : Block}

theorem isWritten_of_type_eq_none (h : d.type = none) : d.IsWritten := by
  intro t ht
  rw [h] at ht
  cases ht

theorem isWritten_synthesize {t : Tree Declaration} (ht : ∀ d ∈ t.preorder, d.IsWritten) :
    ∀ d ∈ (synthesize t).preorder, d.IsWritten := by
  intro d hd
  rw [synthesize, Tree.preorder_map, List.mem_map] at hd
  obtain ⟨e, he, rfl⟩ := hd
  exact ht e he

section

/-! What the parser `τ` reads are types. -/

variable (hτ : ∀ {i t r}, Yields τ i t r → t.IsRead)
include hτ

theorem isRead_of_yields_result {t : TypeRef} (h : Yields (result τ) i t r) : t.IsRead := by
  obtain ⟨x, m, hx, h⟩ := h.of_bind
  obtain ⟨rfl, -⟩ := h.of_pure
  rcases hx.of_opt with ⟨t, rfl, ht⟩ | ⟨rfl, -, -⟩
  · obtain ⟨j, -, ht⟩ := ht.of_next
    obtain ⟨-, m, -, ht⟩ := ht.of_named.of_bind
    obtain ⟨j, -, ht⟩ := ht.of_next
    exact hτ ht
  · exact TypeRef.isRead_void

theorem yields_signature {x : String × List Parameter × TypeRef} (h : Yields (signature τ) i x r) :
    IsWords x.1 ∧ x.2.2.IsRead := by
  obtain ⟨n, m, hn, h⟩ := h.of_bind
  obtain ⟨-, m, -, h⟩ := h.of_bind
  obtain ⟨ps, m, -, h⟩ := h.of_bind
  obtain ⟨-, m, -, h⟩ := h.of_bind
  obtain ⟨t, m, ht, h⟩ := h.of_bind
  obtain ⟨-, m, -, h⟩ := h.of_bind
  obtain ⟨rfl, -⟩ := h.of_pure
  obtain ⟨j, -, hn⟩ := hn.of_next
  exact ⟨yields_ident hn, isRead_of_yields_result hτ ht⟩

theorem yields_member {x : Member} (h : Yields (member τ) i x r) : x.tree.label.IsWritten := by
  rcases h.of_orElse with h | ⟨-, h⟩
  · obtain ⟨-, m, -, h⟩ := h.of_named.of_bind
    obtain ⟨n, m, hn, h⟩ := h.of_bind
    obtain ⟨-, m, -, h⟩ := h.of_bind
    obtain ⟨t, m, ht, h⟩ := h.of_bind
    obtain ⟨-, m, -, h⟩ := h.of_bind
    obtain ⟨rfl, -⟩ := h.of_pure
    obtain ⟨j, -, hn⟩ := hn.of_next
    obtain ⟨j, -, ht⟩ := ht.of_next
    intro u hu
    obtain rfl : t = u := Option.some.inj hu
    exact ⟨hτ ht, yields_ident hn⟩
  · obtain ⟨-, m, -, h⟩ := h.of_named.of_bind
    obtain ⟨⟨n, ps, t⟩, m, hx, h⟩ := h.of_bind
    obtain ⟨rfl, -⟩ := h.of_pure
    obtain ⟨hn, ht⟩ := yields_signature hτ hx
    intro u hu
    obtain rfl : t = u := Option.some.inj hu
    exact ⟨ht, hn⟩

theorem yields_members {xs : List Member} (h : Yields (many (member τ)) i xs r) :
    ∀ d ∈ Tree.preorderList (xs.map Member.tree), d.IsWritten := by
  intro d hd
  rw [Tree.preorderList_eq_flatMap, List.mem_flatMap] at hd
  obtain ⟨t, ht, hd⟩ := hd
  obtain ⟨x, hx, rfl⟩ := List.mem_map.1 ht
  rw [x.preorder, List.mem_singleton] at hd
  obtain ⟨j, m, h⟩ := h.forall_mem_many x hx
  exact hd ▸ yields_member hτ h

theorem yields_classDecl (h : Yields (classDecl τ) i e r) : ∀ d ∈ e.tree.preorder, d.IsWritten := by
  obtain ⟨-, m, -, h⟩ := h.of_named.of_bind
  obtain ⟨n, m, -, h⟩ := h.of_bind
  obtain ⟨members, m, hmembers, h⟩ := h.of_bind
  obtain ⟨rfl, -⟩ := h.of_pure
  obtain ⟨j, -, hmembers⟩ := hmembers.of_next
  intro d hd
  rcases List.mem_cons.1 hd with rfl | hd
  · exact isWritten_of_type_eq_none rfl
  · rcases hmembers.of_orElse with hsome | ⟨-, hnone⟩
    · obtain ⟨xs, hxs, rfl⟩ := hsome.of_map
      obtain ⟨-, m, -, hxs⟩ := hxs.of_named.of_bind
      obtain ⟨xs, m, hmany, hxs⟩ := hxs.of_bind
      obtain ⟨-, m, -, hxs⟩ := hxs.of_bind
      obtain ⟨rfl, -⟩ := hxs.of_pure
      exact yields_members hτ hmany d hd
    · obtain ⟨-, m, -, hnone⟩ := hnone.of_bind
      obtain ⟨rfl, -⟩ := hnone.of_pure
      cases hd

omit hτ in
theorem yields_enumDecl (h : Yields enumDecl i e r) : ∀ d ∈ e.tree.preorder, d.IsWritten := by
  obtain ⟨-, m, -, h⟩ := h.of_named.of_bind
  obtain ⟨n, m, -, h⟩ := h.of_bind
  obtain ⟨marker, m, -, h⟩ := h.of_bind
  obtain ⟨-, m, -, h⟩ := h.of_bind
  obtain ⟨items, m, -, h⟩ := h.of_bind
  obtain ⟨-, m, -, h⟩ := h.of_bind
  obtain ⟨rfl, -⟩ := h.of_pure
  intro d hd
  rcases List.mem_cons.1 hd with rfl | hd
  · exact isWritten_of_type_eq_none rfl
  · rw [Tree.preorderList_eq_flatMap, List.mem_flatMap] at hd
    obtain ⟨t, ht, hd⟩ := hd
    obtain ⟨x, -, rfl⟩ := List.mem_map.1 ht
    obtain rfl := List.mem_singleton.1 hd
    exact isWritten_of_type_eq_none rfl

theorem yields_aliasDecl (h : Yields (aliasDecl τ) i e r) : ∀ d ∈ e.tree.preorder, d.IsWritten := by
  obtain ⟨-, m, -, h⟩ := h.of_named.of_bind
  obtain ⟨n, m, hn, h⟩ := h.of_bind
  obtain ⟨-, m, -, h⟩ := h.of_bind
  obtain ⟨t, m, ht, h⟩ := h.of_bind
  obtain ⟨-, m, -, h⟩ := h.of_bind
  obtain ⟨rfl, -⟩ := h.of_pure
  obtain ⟨j, -, hn⟩ := hn.of_next
  obtain ⟨j, -, ht⟩ := ht.of_next
  refine List.forall_mem_singleton.2 fun u hu => ?_
  obtain rfl : t = u := Option.some.inj hu
  exact ⟨hτ ht, yields_ident hn⟩

theorem yields_functionDecl (h : Yields (functionDecl τ) i e r) :
    ∀ d ∈ e.tree.preorder, d.IsWritten := by
  obtain ⟨-, m, -, h⟩ := h.of_named.of_bind
  obtain ⟨⟨n, ps, t⟩, m, hx, h⟩ := h.of_bind
  obtain ⟨rfl, -⟩ := h.of_pure
  obtain ⟨hn, ht⟩ := yields_signature hτ hx
  refine List.forall_mem_singleton.2 fun u hu => ?_
  obtain rfl : t = u := Option.some.inj hu
  exact ⟨ht, hn⟩

omit hτ in
theorem yields_entries {ε : Parser Entry} {es : List Entry}
    (hε : ∀ {i e r}, Yields ε i e r → ∀ d ∈ e.tree.preorder, d.IsWritten)
    (h : Yields (many ε) i es r) : ∀ d ∈ Tree.preorderList (Entry.trees es), d.IsWritten := by
  have hes := h.forall_mem_many
  clear h
  induction es with
  | nil => exact nofun
  | cons e es ih =>
    obtain ⟨⟨j, m, he⟩, hes⟩ := List.forall_mem_cons.1 hes
    intro d hd
    rcases List.mem_append.1 hd with hd | hd
    · exact hε he d hd
    · exact ih hes d hd

theorem yields_entry : ∀ {k : Nat} {i : List Char} {e : Entry} {r : List Char},
    Yields (entry τ k) i e r → ∀ d ∈ e.tree.preorder, d.IsWritten
  | 0, _, _, _, h => by
    obtain ⟨pos, a, pos', a', h⟩ := h
    cases h
  | k + 1, i, e, r, h => by
    rcases h.of_orElse with h | ⟨-, h⟩
    · obtain ⟨-, m, -, h⟩ := h.of_named.of_bind
      obtain ⟨n, m, -, h⟩ := h.of_bind
      obtain ⟨-, m, -, h⟩ := h.of_bind
      obtain ⟨es, m, hes, h⟩ := h.of_bind
      obtain ⟨-, m, -, h⟩ := h.of_bind
      obtain ⟨rfl, -⟩ := h.of_pure
      intro d hd
      rcases List.mem_cons.1 hd with rfl | hd
      · exact isWritten_of_type_eq_none rfl
      · exact yields_entries yields_entry hes d hd
    · rcases h.of_orElse with h | ⟨-, h⟩
      · exact yields_classDecl hτ h
      · rcases h.of_orElse with h | ⟨-, h⟩
        · exact yields_enumDecl h
        · rcases h.of_orElse with h | ⟨-, h⟩
          · exact yields_aliasDecl hτ h
          · exact yields_functionDecl hτ h

theorem yields_product {p : Product} {k : Nat}
    (h : Yields (extendDecl τ <|> Product.entry <$> entry τ k) i p r) :
    ∀ x ∈ p.trees, ∀ d ∈ x.2.preorder, d.IsWritten := by
  intro x hx
  rcases h.of_orElse with h | ⟨-, h⟩
  · obtain ⟨-, m, -, h⟩ := h.of_named.of_bind
    obtain ⟨owner, m, -, h⟩ := h.of_bind
    obtain ⟨-, m, -, h⟩ := h.of_bind
    obtain ⟨members, m, hmembers, h⟩ := h.of_bind
    obtain ⟨-, m, -, h⟩ := h.of_bind
    obtain ⟨rfl, -⟩ := h.of_pure
    obtain ⟨y, hy, rfl⟩ := List.mem_map.1 hx
    obtain ⟨j, m, hmember⟩ := hmembers.forall_mem_many y hy
    refine isWritten_synthesize ?_
    rw [y.preorder]
    exact List.forall_mem_singleton.2 (yields_member hτ hmember)
  · obtain ⟨e, he, rfl⟩ := h.of_map
    obtain rfl := List.mem_singleton.1 hx
    exact isWritten_synthesize (yields_entry hτ he)

theorem yields_block {k : Nat}
    (h : Yields (unitBlock (entry τ k) <|> generatedBlock τ (entry τ k)) i b r) :
    ∀ t ∈ b.trees, ∀ d ∈ t.preorder, d.IsWritten := by
  intro t ht
  rcases h.of_orElse with h | ⟨-, h⟩
  · obtain ⟨-, m, -, h⟩ := h.of_named.of_bind
    obtain ⟨file, m, -, h⟩ := h.of_bind
    obtain ⟨-, m, -, h⟩ := h.of_bind
    obtain ⟨es, m, hes, h⟩ := h.of_bind
    obtain ⟨-, m, -, h⟩ := h.of_bind
    obtain ⟨rfl, -⟩ := h.of_pure
    obtain rfl := List.mem_singleton.1 ht
    intro d hd
    rcases List.mem_cons.1 hd with rfl | hd
    · exact isWritten_of_type_eq_none rfl
    · exact yields_entries (yields_entry hτ) hes d hd
  · obtain ⟨-, m, -, h⟩ := h.of_named.of_bind
    obtain ⟨file, m, -, h⟩ := h.of_bind
    obtain ⟨-, m, -, h⟩ := h.of_bind
    obtain ⟨ps, m, hps, h⟩ := h.of_bind
    obtain ⟨-, m, -, h⟩ := h.of_bind
    obtain ⟨rfl, -⟩ := h.of_pure
    obtain ⟨w, hw, rfl⟩ := List.mem_map.1 ht
    obtain ⟨x, hx, rfl⟩ := List.mem_map.1 hw
    obtain ⟨p, hp, hx⟩ := List.mem_flatMap.1 hx
    obtain ⟨j, m, hproduct⟩ := hps.forall_mem_many p hp
    exact yields_product hτ hproduct x hx

end

/-- Every declared type of a dump has been read. -/
theorem isWritten_of_ofText {s : List Char} {d : Dump} (h : ofText s = .ok d) :
    ∀ t ∈ d.flatMap Block.trees, ∀ e ∈ t.preorder, e.IsWritten := by
  unfold ofText at h
  split at h
  · next d' c a hfile =>
    obtain rfl := Except.ok.inj h
    have hread : Yields (file (s.length + 1)) s d' c.rest := ⟨0, {}, c.pos, a, hfile⟩
    obtain ⟨bs, m, hblocks, hread⟩ := hread.of_named.of_bind
    obtain ⟨-, m, -, hread⟩ := hread.of_bind
    obtain ⟨rfl, -⟩ := hread.of_pure
    intro t ht
    obtain ⟨b, hb, ht⟩ := List.mem_flatMap.1 ht
    obtain ⟨j, m, hblock⟩ := hblocks.forall_mem_many b hb
    exact yields_block (fun h => ⟨_, _, _, h⟩) hblock t ht
  · cases h

end Dump

/-! ### Lines -/

namespace Graph

variable {g : Graph} {i : DeclId} {s : Slot} {t : TypeRef} {origin text : String}

theorem isWritten_of_ofText (h : ofText origin text = .ok g) (hs : g.get? i = some s) :
    s.toDeclaration.IsWritten := by
  unfold ofText at h
  split at h
  · next d hd =>
    obtain ⟨t, ht, hmem⟩ := (isRow_ofDump h).exists_mem_preorder hs
    exact Dump.isWritten_of_ofText hd t ht _ hmem
  · cases h

/-- The line of a declaration with a type is its kind, its name and its type. -/
theorem line_of_type (h : ofText origin text = .ok g) (hs : g.get? i = some s)
    (hl : g.IsLive i) (ht : s.type = some t) : s.line.toList =
      s.kind.label.toList ++ ' ' :: (s.name.toList ++ ':' :: ' ' :: t.spelling.toList) := by
  have hg := isLoaded_ofText h
  have hfresh := hg.fresh hs
  obtain ⟨d, rs, -, -, -, hread⟩ := isInOrder_of_ofText h
  have hkind := (hread i s hs).type.1 (by rw [ht]; rfl)
  have hvalue : s.value = none := by
    by_contra hne
    have hitem := (hread i s hs).value (Option.isSome_iff_ne_none.2 hne)
    rw [hitem] at hkind
    exact absurd hkind (by decide)
  have hmarkers : Declaration.markers.filter (fun m => s.flags.has m.1) = [] := by
    rw [List.filter_eq_nil_iff]
    simp only [Declaration.markers, List.forall_mem_cons, List.not_mem_nil, false_imp_iff,
      implies_true, and_true]
    refine ⟨?_, ?_, fun hb => ?_, ?_, fun hi => ?_, ?_⟩
    · rw [hfresh.unmarked .ignored (by decide)]
      exact Bool.false_ne_true
    · rw [hfresh.unmarked .valueType (by decide)]
      exact Bool.false_ne_true
    · rw [hfresh.bitmask hb] at hkind
      exact absurd hkind (by decide)
    · rw [hfresh.unmarked .readOnly (by decide)]
      exact Bool.false_ne_true
    · rw [hfresh.incomplete hi] at hkind
      exact absurd hkind (by decide)
    · rw [(hg.live_iff hs).1 hl]
      exact Bool.false_ne_true
  simp [Declaration.line, hmarkers, hvalue, ht]

end Graph

end Bindery
