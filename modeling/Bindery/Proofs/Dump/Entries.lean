import Bindery.Proofs.Dump.Items

/-!
# Reading declarations back

Every declaration begins with a keyword, which none of the other parsers accepts. Declarations may
be nested as deep as there are characters, since each of them needs some.
-/

namespace Bindery.Dump

open Bindery.Dump.Parser

variable {α : Type} {n : Nat} {ts us : List Token} {i : List Char} {τ : Parser TypeRef}
  {name v w : String} {k k' : Construct}

/-! ### Keywords -/

theorem isIdent_keyword : ∀ w ∈ ["field", "method", "class", "struct", "extend", "enum", "flags",
    "typedef", "fn", "namespace", "unit", "generated"], IsIdent w := by
  simp only [List.forall_mem_cons, List.not_mem_nil, false_imp_iff, implies_true, and_true]
  refine ⟨?_, ?_, ?_, ?_, ?_, ?_, ?_, ?_, ?_, ?_, ?_, ?_⟩ <;> exact isIdent_of_all (by decide)

section
variable {f : Unit → Parser α} (hw : IsIdent w)
include hw

theorem refuses_keyword_bind (hi : EndsWord i) : Refuses (named k (keyword k' w >>= f)) i :=
  refuses_named (refuses_bind (refuses_keyword_of_endsWord hw hi))

/-- A construct with a keyword of its own. -/
theorem takes_other_keyword {q : Parser α} {x : α} (hne : v ≠ w)
    (hq : Takes n (next q) x (.word v :: ts) us) :
    Takes n (next (named k (keyword k' w >>= f) <|> q)) x (.word v :: ts) us :=
  takes_next_orElse_right (fun _ hv hm =>
    refuses_named (refuses_bind (refuses_keyword hw hv hm hne))) hq

end

theorem takes_kwClass (hw : w = "class" ∨ w = "struct") :
    Takes n (next kwClass) () [.word w] us := by
  intro i _ h
  obtain ⟨m, hskip, hid, hend, hm, hlt⟩ := Laid.cons h
  have hread : Reads (run (keywordLength w)) (w.toList ++ m) w.toList m :=
    reads_run (IsIdent.ne_nil hid) (keywordLength_append hend w)
  refine ⟨m, reads_next hskip (reads_named (reads_discard (y := w.toList) ?_)), hm, hlt⟩
  rcases hw with rfl | rfl
  · exact reads_orElse_left hread
  · refine reads_orElse_right (refuses_run (keywordLength_eq_zero ?_ ?_ hend ?_)) hread
    · exact (isIdent_keyword "class" (by decide)).forall_mem
    · exact IsIdent.forall_mem hid
    · decide

theorem refuses_kwClass {s : List Char} (hs : ∀ c ∈ s, isIdentChar c) (hi : EndsWord i)
    (hclass : s ≠ "class".toList) (hstruct : s ≠ "struct".toList) : Refuses kwClass (s ++ i) := by
  have hrefuse : ∀ {w}, IsIdent w → s ≠ w.toList → Refuses (run (keywordLength w)) (s ++ i) :=
    fun hw hne => refuses_run (keywordLength_eq_zero hw.forall_mem hs hi hne)
  exact refuses_named (refuses_discard (refuses_orElse
    (hrefuse (isIdent_keyword "class" (by decide)) hclass)
    (hrefuse (isIdent_keyword "struct" (by decide)) hstruct)))

/-! ### Members -/

section
variable (hτ : ReadsTypes τ (n + 1))
include hτ

theorem takes_member {x : Member} (hts : x.Spells ts) : Takes n (next (member τ)) x ts us := by
  cases x with
  | field name type =>
    obtain rfl : ts = _ := hts
    refine takes_next_orElse_left (takes_next_named ?_)
    rw [next_bind]
    refine takes_cons takes_keyword (takes_cons takes_ident (takes_cons takes_sign ?_))
    exact takes_cons (takes_type hτ ⟨";", us, by decide, rfl⟩) (takes_cons takes_sign takes_pure)
  | method name parameters returns =>
    obtain ⟨vs, hvs, rfl⟩ := hts
    refine takes_other_keyword (isIdent_keyword "field" (by decide)) (by decide)
      (takes_next_named ?_)
    rw [next_bind]
    refine takes_cons takes_keyword ?_
    rw [← List.append_nil vs]
    exact takes_bind (takes_signature hτ hvs) takes_pure

omit hτ in
theorem refuses_member (hi : EndsWord i) : Refuses (member τ) i :=
  refuses_orElse (refuses_keyword_bind (isIdent_keyword "field" (by decide)) hi)
    (refuses_keyword_bind (isIdent_keyword "method" (by decide)) hi)

omit hτ in
/-- Values one after the other, up to a brace. -/
theorem takes_block {S : α → List Token → Prop} {p : Parser α} {xs : List α}
    (hp : ∀ x ∈ xs, ∀ ts us, S x ts → ts ≠ [] ∧ Takes n (next p) x ts us)
    (hstop : ∀ i, EndsWord i → Refuses p i) (hs : SpellsAll S xs ts) :
    Takes n (many p) xs ts (.sign "\x7d" :: us) :=
  takes_many (F := fun _ => True) trivial (fun _ _ _ _ _ _ => trivial)
    (fun x hx ts us hts _ => hp x hx ts us hts)
    (fun _ hl => Laid.refuses hl rfl fun r => hstop _ (endsWord_sign rfl r)) hs

theorem takes_members {xs : List Member} (hts : SpellsAll Member.Spells xs ts) :
    Takes n (many (member τ)) xs ts (.sign "\x7d" :: us) := by
  refine takes_block (fun x _ ts us hts => ⟨?_, takes_member hτ hts⟩) (fun _ => refuses_member) hts
  cases x with
  | field name type =>
    obtain rfl : ts = _ := hts
    exact List.cons_ne_nil _ _
  | method name parameters returns =>
    obtain ⟨vs, -, rfl⟩ := hts
    exact List.cons_ne_nil _ _

/-! ### Declarations without others inside -/

theorem takes_classDecl {members : Option (List Member)} (hw : w = "class" ∨ w = "struct")
    (hts : members.elim (ts = [.sign ";"]) (SpellsBody · ts)) :
    Takes n (next (classDecl τ)) (.record name members) (.word w :: .word name :: ts) us := by
  refine takes_next_named ?_
  rw [next_bind]
  refine takes_cons (takes_kwClass hw) (takes_cons takes_ident ?_)
  rw [← List.append_nil ts]
  refine takes_bind ?_ takes_pure
  cases members with
  | none =>
    obtain rfl : ts = [.sign ";"] := hts
    refine takes_next_orElse_right (fun m _ _ => refuses_map (refuses_named (refuses_bind ?_))) ?_
    · exact refuses_word_cons rfl (by decide)
    · rw [next_bind]
      exact takes_cons takes_sign takes_pure
  | some members =>
    obtain ⟨vs, hvs, rfl⟩ : SpellsBody members ts := hts
    refine takes_next_orElse_left (takes_next_map (takes_next_named ?_))
    rw [next_bind]
    refine takes_cons takes_sign (takes_bind (takes_members hτ hvs) ?_)
    exact takes_cons takes_sign takes_pure

theorem takes_extendDecl {owner : String} {members : List Member} (hts : SpellsBody members ts) :
    Takes n (next (extendDecl τ)) (.extension owner members) (.word "extend" :: .word owner :: ts)
      us := by
  obtain ⟨vs, hvs, rfl⟩ := hts
  refine takes_next_named ?_
  rw [next_bind]
  refine takes_cons takes_keyword (takes_cons takes_ident (takes_cons takes_sign ?_))
  exact takes_bind (takes_members hτ hvs) (takes_cons takes_sign takes_pure)

theorem takes_aliasDecl {target : TypeRef} : Takes n (next (aliasDecl τ)) (.alias name target)
    [.word "typedef", .word name, .sign "=", .type target, .sign ";"] us := by
  refine takes_next_named ?_
  rw [next_bind]
  refine takes_cons takes_keyword (takes_cons takes_ident (takes_cons takes_sign ?_))
  exact takes_cons (takes_type hτ ⟨";", us, by decide, rfl⟩) (takes_cons takes_sign takes_pure)

theorem takes_functionDecl {parameters : List Parameter} {returns : TypeRef}
    (hts : SpellsSignature name parameters returns ts) :
    Takes n (next (functionDecl τ)) (.function name parameters returns) (.word "fn" :: ts) us := by
  refine takes_next_named ?_
  rw [next_bind]
  refine takes_cons takes_keyword ?_
  rw [← List.append_nil ts]
  exact takes_bind (takes_signature hτ hts) takes_pure

end

theorem exists_takes_marker (b : Bool) (us : List Token) : ∃ x : Option Unit, x.isSome = b ∧
    Takes n (opt (named .flagsMarker do word ":"; next (word "flags"))) x
      (if b then [.sign ":", .word "flags"] else []) (.sign "\x7b" :: us) := by
  cases b with
  | false =>
    refine ⟨none, rfl, takes_opt_none fun i hl => Laid.refuses hl rfl fun r => ?_⟩
    exact refuses_named (refuses_bind (refuses_word_cons rfl (by decide)))
  | true =>
    refine ⟨some (), rfl, takes_opt_some (takes_next_named ?_)⟩
    rw [next_bind]
    exact takes_cons takes_sign takes_word

theorem refuses_enumItem (hi : EndsWord i) : Refuses enumItem i :=
  refuses_named (refuses_bind (refuses_ident hi))

/-- The items of an enumeration, with a comma after the last one or without. -/
theorem exists_takes_items (us : List Token) {items : List EnumItem} {vs : List Token}
    (hvs : vs = [] ∨ items ≠ [] ∧ vs = [.sign ","]) : ∃ x : Option (List EnumItem),
    x.getD [] = items ∧ Takes n (opt do
      let items ← commaSeparated enumItem
      discard (opt (word ","))
      return items) x (commas (items.map EnumItem.tokens) ++ vs) (.sign "\x7d" :: us) := by
  have hclose : ∀ i, Laid (.sign "\x7d" :: us) i → Refuses (next enumItem) i := fun i hl =>
    Laid.refuses hl rfl fun r => refuses_enumItem (endsWord_sign rfl r)
  have hcomma : ∀ {α : Type} {p : Parser α} (i), Laid (.sign "\x7d" :: us) i →
      Refuses (next (word "," >>= fun _ => p)) i := fun i hl =>
    Laid.refuses hl rfl fun r => refuses_bind (refuses_word_cons rfl (by decide))
  by_cases hne : items = []
  · subst hne
    obtain rfl : vs = [] := hvs.resolve_right fun h => h.1 rfl
    refine ⟨none, rfl, takes_opt_none fun i hl => Laid.refuses hl rfl fun r => ?_⟩
    exact refuses_bind (refuses_bind (refuses_enumItem (endsWord_sign rfl r)))
  · have hitems : ∀ {us}, BeginsWith [",", "\x7d"] us →
        (∀ i, Laid us i → Refuses (next do word ","; next enumItem) i) →
        Takes n (next (commaSeparated enumItem)) items (commas (items.map EnumItem.tokens)) us :=
      fun hus => takes_commaSeparated (by decide) hus hne fun y _ vs hvs => takes_enumItem hvs y
    refine ⟨some items, rfl, takes_opt_some ?_⟩
    rw [next_bind]
    rcases hvs with rfl | ⟨-, rfl⟩
    · refine takes_bind (hitems ⟨"\x7d", us, by decide, rfl⟩ hcomma) ?_
      show Takes n _ _ ([] ++ []) _
      refine takes_bind (takes_map (y := none) (takes_opt_none fun i hl => ?_)) takes_pure
      exact Laid.refuses hl rfl fun r => refuses_word_cons rfl (by decide)
    · refine takes_bind (hitems ⟨",", _, by decide, rfl⟩ fun i hl => ?_) ?_
      · -- a comma is read, but no item behind it
        rw [next_bind]
        obtain ⟨m, hread, hm, -⟩ := takes_sign (w := ",") i (Nat.le_refl _) hl
        exact refuses_bind_of_reads hread (hclose m hm)
      · exact takes_cons (takes_map (takes_opt_some takes_sign)) takes_pure

theorem takes_enumDecl {isBitmask : Bool} {items : List EnumItem} (hts : SpellsItems items ts) :
    Takes n (next enumDecl) (.enumeration name isBitmask items) (.word "enum" :: .word name ::
      ((if isBitmask then [.sign ":", .word "flags"] else []) ++ ts)) us := by
  obtain ⟨vs, hvs, rfl⟩ := hts
  refine takes_next_named ?_
  rw [next_bind]
  refine takes_cons takes_keyword (takes_cons takes_ident ?_)
  obtain ⟨x, rfl, hx⟩ := exists_takes_marker (n := n) isBitmask
    (commas (items.map EnumItem.tokens) ++ vs ++ [.sign "\x7d"] ++ us)
  obtain ⟨y, rfl, hy⟩ := exists_takes_items (n := n) us hvs
  refine takes_bind hx (takes_cons takes_sign ?_)
  exact takes_bind hy (takes_cons takes_sign takes_pure)

/-! ### Declarations -/

theorem refuses_entry (hi : EndsWord i) : ∀ k, Refuses (entry τ k) i
  | 0 => refuses_fail
  | k + 1 => by
    refine refuses_orElse (refuses_keyword_bind (isIdent_keyword "namespace" (by decide)) hi) ?_
    refine refuses_orElse (refuses_named (refuses_bind ?_)) ?_
    · exact refuses_kwClass (s := []) nofun hi (by decide) (by decide)
    refine refuses_orElse (refuses_keyword_bind (isIdent_keyword "enum" (by decide)) hi) ?_
    exact refuses_orElse (refuses_keyword_bind (isIdent_keyword "typedef" (by decide)) hi)
      (refuses_keyword_bind (isIdent_keyword "fn" (by decide)) hi)

theorem Entry.Spells.exists_cons : ∀ {e : Entry}, e.Spells ts →
    ∃ w vs, w ≠ "extend" ∧ ts = .word w :: vs
  | .namespace name entries, h => by
    rw [Entry.Spells] at h
    obtain ⟨vs, -, rfl⟩ := h
    exact ⟨"namespace", _, by decide, rfl⟩
  | .record name members, h => by
    rw [Entry.Spells] at h
    obtain ⟨w, vs, hw, -, rfl⟩ := h
    refine ⟨w, _, ?_, rfl⟩
    rcases hw with rfl | rfl <;> decide
  | .enumeration name isBitmask items, h => by
    rw [Entry.Spells] at h
    obtain ⟨vs, -, rfl⟩ := h
    exact ⟨"enum", _, by decide, rfl⟩
  | .alias name target, h => by
    rw [Entry.Spells] at h
    exact ⟨"typedef", _, by decide, h⟩
  | .function name parameters returns, h => by
    rw [Entry.Spells] at h
    obtain ⟨vs, -, rfl⟩ := h
    exact ⟨"fn", _, by decide, rfl⟩

/-- An alternative for classes, which none of the other keywords takes. -/
theorem takes_other_class {q : Parser Entry} {x : Entry} (hv : v ≠ "class" ∧ v ≠ "struct")
    (hq : Takes n (next q) x (.word v :: ts) us) :
    Takes n (next (classDecl τ <|> q)) x (.word v :: ts) us := by
  refine takes_next_orElse_right (fun m hid hm => refuses_named (refuses_bind ?_)) hq
  exact refuses_kwClass (IsIdent.forall_mem hid) hm (fun h => hv.1 (String.toList_inj.1 h))
    fun h => hv.2 (String.toList_inj.1 h)

mutual

/-- A declaration needs no more fuel than there are characters. -/
theorem takes_entry : ∀ (e : Entry) {n : Nat} {ts us : List Token}, ReadsTypes τ (n + 1) →
    e.Spells ts → Takes n (next (entry τ (n + 1))) e ts us
  | .namespace name entries, n, ts, us, hτ, h => by
    rw [Entry.Spells] at h
    obtain ⟨vs, hvs, rfl⟩ := h
    cases n with
    | zero => exact takes_zero
    | succ n =>
      refine takes_next_orElse_left (takes_next_named ?_)
      rw [next_bind]
      refine takes_cons_lt takes_keyword (takes_cons takes_ident (takes_cons takes_sign ?_))
      refine takes_bind (takes_block (fun e he ts us hts => ?_) (fun i hi => refuses_entry hi _)
        (Entry.spellsEach_iff.1 hvs)) (takes_cons takes_sign takes_pure)
      obtain ⟨w, vs, -, rfl⟩ := hts.exists_cons
      exact ⟨List.cons_ne_nil _ _, takes_each entries e he (hτ.mono (Nat.le_succ _)) hts⟩
  | .record name members, n, ts, us, hτ, h => by
    rw [Entry.Spells] at h
    obtain ⟨w, vs, hw, hvs, rfl⟩ := h
    refine takes_other_keyword (isIdent_keyword "namespace" (by decide)) ?_
      (takes_next_orElse_left (takes_classDecl hτ hw hvs))
    rcases hw with rfl | rfl <;> decide
  | .enumeration name isBitmask items, n, ts, us, hτ, h => by
    rw [Entry.Spells] at h
    obtain ⟨vs, hvs, rfl⟩ := h
    refine takes_other_keyword (isIdent_keyword "namespace" (by decide)) (by decide) ?_
    refine takes_other_class (by decide) (takes_next_orElse_left ?_)
    exact takes_enumDecl hvs
  | .alias name target, n, ts, us, hτ, h => by
    rw [Entry.Spells] at h
    subst h
    refine takes_other_keyword (isIdent_keyword "namespace" (by decide)) (by decide) ?_
    refine takes_other_class (by decide) ?_
    refine takes_other_keyword (isIdent_keyword "enum" (by decide)) (by decide) ?_
    exact takes_next_orElse_left (takes_aliasDecl hτ)
  | .function name parameters returns, n, ts, us, hτ, h => by
    rw [Entry.Spells] at h
    obtain ⟨vs, hvs, rfl⟩ := h
    refine takes_other_keyword (isIdent_keyword "namespace" (by decide)) (by decide) ?_
    refine takes_other_class (by decide) ?_
    refine takes_other_keyword (isIdent_keyword "enum" (by decide)) (by decide) ?_
    refine takes_other_keyword (isIdent_keyword "typedef" (by decide)) (by decide) ?_
    exact takes_functionDecl hτ hvs

theorem takes_each : ∀ (es : List Entry), ∀ e ∈ es, ∀ {n : Nat} {ts us : List Token},
    ReadsTypes τ (n + 1) → e.Spells ts → Takes n (next (entry τ (n + 1))) e ts us
  | [], _, h, _, _, _, _, _ => absurd h List.not_mem_nil
  | e :: es, x, h, n, ts, us, hτ, hts => by
    cases h with
    | head => exact takes_entry e hτ hts
    | tail _ h => exact takes_each es x h hτ hts

end

end Bindery.Dump
