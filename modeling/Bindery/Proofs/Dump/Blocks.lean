import Bindery.Proofs.Dump.Entries

/-!
# Reading dumps back

A spelling of a dump is read as that dump, whatever the gaps in it and however deep it is.
-/

namespace Bindery.Dump

open Bindery.Dump.Parser

variable {n : Nat} {ts us : List Token} {i : List Char} {τ : Parser TypeRef}

theorem takes_product (hτ : ReadsTypes τ (n + 1)) {x : Product} (hts : x.Spells ts) :
    Takes n (next (extendDecl τ <|> Product.entry <$> entry τ (n + 1))) x ts us := by
  cases x with
  | extension owner members =>
    obtain ⟨vs, hvs, rfl⟩ := hts
    exact takes_next_orElse_left (takes_extendDecl hτ hvs)
  | entry e =>
    replace hts : e.Spells ts := hts
    have htake : Takes n (next (entry τ (n + 1))) e ts us := takes_entry e hτ hts
    obtain ⟨w, vs, hw, rfl⟩ := hts.exists_cons
    exact takes_other_keyword (isIdent_keyword "extend" (by decide)) hw (takes_next_map htake)

theorem Product.Spells.ne_nil {x : Product} (hts : x.Spells ts) : ts ≠ [] := by
  cases x with
  | extension owner members =>
    obtain ⟨vs, -, rfl⟩ := hts
    exact List.cons_ne_nil _ _
  | entry e =>
    obtain ⟨w, vs, -, rfl⟩ := Entry.Spells.exists_cons hts
    exact List.cons_ne_nil _ _

theorem takes_blockDecl (hτ : ReadsTypes τ (n + 1)) {x : Block} (hts : x.Spells ts) :
    Takes n (next (unitBlock (entry τ (n + 1)) <|> generatedBlock τ (entry τ (n + 1))))
      x ts us := by
  cases x with
  | unit file entries =>
    obtain ⟨vs, hvs, rfl⟩ := hts
    refine takes_next_orElse_left (takes_next_named ?_)
    rw [next_bind]
    refine takes_cons takes_keyword (takes_cons takes_string (takes_cons takes_sign ?_))
    refine takes_bind (takes_block (fun e _ ts us hts => ⟨?_, takes_entry e hτ hts⟩)
      (fun i hi => refuses_entry hi _) (Entry.spellsEach_iff.1 hvs))
      (takes_cons takes_sign takes_pure)
    obtain ⟨w, vs, -, rfl⟩ := hts.exists_cons
    exact List.cons_ne_nil _ _
  | generated file products =>
    obtain ⟨vs, hvs, rfl⟩ := hts
    refine takes_other_keyword (isIdent_keyword "unit" (by decide)) (by decide)
      (takes_next_named ?_)
    rw [next_bind]
    refine takes_cons takes_keyword (takes_cons takes_string (takes_cons takes_sign ?_))
    refine takes_bind (takes_block (fun x _ ts us hts => ⟨hts.ne_nil, takes_product hτ hts⟩)
      (fun i hi => ?_) hvs) (takes_cons takes_sign takes_pure)
    exact refuses_orElse (refuses_keyword_bind (isIdent_keyword "extend" (by decide)) hi)
      (refuses_map (refuses_entry hi _))

theorem Block.Spells.ne_nil {x : Block} (hts : x.Spells ts) : ts ≠ [] := by
  cases x with
  | unit file entries =>
    obtain ⟨vs, -, rfl⟩ := hts
    exact List.cons_ne_nil _ _
  | generated file products =>
    obtain ⟨vs, -, rfl⟩ := hts
    exact List.cons_ne_nil _ _

theorem takes_blocks (hτ : ReadsTypes τ (n + 1)) {d : Dump}
    (hts : SpellsAll Block.Spells d ts) :
    Takes n (many (unitBlock (entry τ (n + 1)) <|> generatedBlock τ (entry τ (n + 1))))
      d ts [] := by
  refine takes_many (F := fun _ => True) trivial (fun _ _ _ _ _ _ => trivial)
    (fun x _ ts vs hts _ => ⟨hts.ne_nil, takes_blockDecl hτ hts⟩) (fun i hl => ?_) hts
  have hend : EndsWord [] := nofun
  exact refuses_next (IsLastGap.skips hl) (refuses_orElse
    (refuses_keyword_bind (isIdent_keyword "unit" (by decide)) hend)
    (refuses_keyword_bind (isIdent_keyword "generated" (by decide)) hend))

theorem takes_end : Takes n (next (named .endOfInput atEnd)) () [] [] := fun _ _ h =>
  ⟨[], reads_next (IsLastGap.skips h) (reads_named reads_atEnd), Or.inl .nil, Nat.zero_le _⟩

/-- Every spelling of a dump is read as the dump. -/
theorem ofText_of_isSpelt {d : Dump} {text : List Char} (h : d.IsSpelt text) :
    ofText text = .ok d := by
  obtain ⟨ts, hts, hl⟩ := h
  rw [← List.append_nil ts] at hl
  have hτ := readsTypes_typeRef (text.length + 1)
  obtain ⟨m, hblocks, hm, -⟩ := takes_blocks hτ hts text (Nat.le_refl _) hl
  obtain ⟨r, hend, -⟩ := takes_end m (Nat.le_refl _) hm
  have hread : Reads (file (text.length + 1)) text d r :=
    reads_named (reads_bind hblocks (reads_bind hend reads_pure))
  obtain ⟨pos, a, h⟩ := hread 0 {}
  unfold ofText
  rw [h]

end Bindery.Dump
