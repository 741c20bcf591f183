import Bindery.Proofs.Dump.Contents

/-!
# Dumps and their graphs

A spelling of a dump is loaded as the graph that stores what the dump says: its units and what
waits, in the order of the blocks, and nothing else. A second unit of the same file is refused. Any
tokens can be spelt, with a space in front of each.
-/

namespace Bindery

open Dump

/-! ### Loading -/

namespace Graph

variable {g : Graph} {us : List (Tree Declaration)}
  {ws : List (String × Option String × Tree Declaration)}

/-- The graph of a dump goes on from any graph that has none of its files. -/
theorem Stores.foldlM_addBlock : ∀ (d : Dump) {g : Graph} {us : List (Tree Declaration)}
    {ws : List (String × Option String × Tree Declaration)}, g.IsLoaded → g.Stores us ws →
    (us.map (·.label.name) ++ d.flatMap Block.files).Nodup →
    ∃ h, d.foldlM Graph.addBlock g = .ok h ∧ h.IsLoaded ∧
      h.Stores (us ++ d.flatMap Block.units) (ws ++ d.flatMap Block.waiting)
  | [], g, us, ws, hg, hs, _ => ⟨g, rfl, hg, by simpa using hs⟩
  | .unit file entries :: d, g, us, ws, hg, hs, hnd => by
    have hn : g.hasUnit file = false := by
      rw [Bool.eq_false_iff, ne_eq, hs.hasUnit_iff hg.toWellFormed]
      intro hm
      exact (List.nodup_append.1 hnd).2.2 file hm file List.mem_cons_self rfl
    have hb : g.addBlock (.unit file entries) = .ok (g.addUnitTree file (Entry.trees entries)) := by
      rw [Graph.addBlock, hn]
      rfl
    obtain ⟨h, hd, hh, hstores⟩ := Stores.foldlM_addBlock d (hg.addBlock hb)
      (hs.addUnitTree hg entries hn) (by
        rw [List.map_append, List.append_assoc]
        exact hnd)
    refine ⟨h, ?_, hh, ?_⟩
    · rw [List.foldlM_cons, hb]
      exact hd
    · rw [List.append_assoc] at hstores
      exact hstores
  | .generated file products :: d, g, us, ws, hg, hs, hnd => by
    have hb : g.addBlock (.generated file products) =
        .ok ((products.flatMap Product.trees).foldl (Graph.addPendingTree · file) g) := rfl
    obtain ⟨h, hd, hh, hstores⟩ := Stores.foldlM_addBlock d (hg.addBlock hb)
      (hs.addGenerated hg file products) hnd
    refine ⟨h, ?_, hh, ?_⟩
    · rw [List.foldlM_cons, hb]
      exact hd
    · rw [List.append_assoc] at hstores
      exact hstores

/-- A dump without a second unit of a file has a graph, which stores it. -/
theorem exists_ofDump {d : Dump} (hd : (d.flatMap Block.files).Nodup) :
    ∃ g, ofDump d = .ok g ∧ g.IsLoaded ∧
      g.Stores (d.flatMap Block.units) (d.flatMap Block.waiting) := by
  simpa [ofDump] using Stores.empty.foldlM_addBlock d .empty hd

theorem map_name_units (d : Dump) :
    (d.flatMap Block.units).map (·.label.name) = d.flatMap Block.files := by
  rw [List.map_flatMap]
  refine congrArg (fun f => d.flatMap f) (funext fun b => ?_)
  cases b <;> rfl

/-- The first second unit of a file is refused, whatever comes after it. -/
theorem ofDump_eq_repeatedUnit {front back : Dump} {file : String} {entries : List Entry}
    (hfront : (front.flatMap Block.files).Nodup) (hfile : file ∈ front.flatMap Block.files) :
    ofDump (front ++ .unit file entries :: back) = .error (.repeatedUnit file) := by
  obtain ⟨g, hg, hloaded, hstores⟩ := exists_ofDump hfront
  have hunit : g.hasUnit file := by
    rw [hstores.hasUnit_iff hloaded.toWellFormed, map_name_units]
    exact hfile
  have hb : g.addBlock (.unit file entries) = .error (.repeatedUnit file) := by
    rw [addBlock, if_pos hunit]
  rw [ofDump, List.foldlM_append, show front.foldlM addBlock {} = .ok g from hg]
  show List.foldlM addBlock g (.unit file entries :: back) = _
  rw [List.foldlM_cons, hb]
  rfl

end Graph

/-! ### Spelling -/

namespace Dump

/-- Tokens with a space in front of each. -/
def spaced (ts : List Token) : List Char := ts.flatMap fun t => ' ' :: t.text

theorem laid_spaced : ∀ {ts : List Token}, (∀ t ∈ ts, t.IsProper) → Laid ts (spaced ts)
  | [], _ => Or.inl .nil
  | t :: ts, h => by
    obtain ⟨ht, hts⟩ := List.forall_mem_cons.1 h
    have hend : t.MayEnd (spaced ts) := by
      cases t with
      | word w =>
        cases ts with
        | nil => exact nofun
        | cons u us => exact endsWord_sign rfl _
      | value v =>
        intro _
        cases ts with
        | nil => exact nofun
        | cons u us => exact fun h => absurd (Option.some.inj h) (by decide)
      | _ => trivial
    exact ⟨[' '], spaced ts, .blank (Or.inl rfl) .nil, ht, hend, rfl, laid_spaced hts⟩

/-- Blocks that can be spelt can be spelt one after the other. -/
theorem exists_isSpelt {d : Dump} (hd : ∀ b ∈ d, ∃ ts, b.Spells ts ∧ ∀ t ∈ ts, t.IsProper) :
    ∃ text : String, d.IsSpelt text.toList := by
  have htokens : ∃ ts, SpellsAll Block.Spells d ts ∧ ∀ t ∈ ts, t.IsProper := by
    induction d with
    | nil => exact ⟨[], rfl, List.forall_mem_nil _⟩
    | cons b d ih =>
      obtain ⟨⟨us, hus, hup⟩, hd⟩ := List.forall_mem_cons.1 hd
      obtain ⟨vs, hvs, hvp⟩ := ih hd
      exact ⟨us ++ vs, ⟨us, vs, hus, hvs, rfl⟩, List.forall_mem_append.2 ⟨hup, hvp⟩⟩
  obtain ⟨ts, hts, hproper⟩ := htokens
  refine ⟨String.ofList (spaced ts), ?_⟩
  rw [String.toList_ofList]
  exact ⟨ts, hts, laid_spaced hproper⟩

end Dump

namespace Graph

/-- Loading undoes spelling: every spelling of a dump is read as the dump and loaded as a graph that
stores it, unless a file has two units. -/
theorem stores_of_isSpelt {d : Dump} {origin text : String} (h : d.IsSpelt text.toList) :
    Dump.ofText text.toList = .ok d ∧
    ((d.flatMap Block.files).Nodup → ∃ g, ofText origin text = .ok g ∧ g.WellFormed ∧
      g.Stores (d.flatMap Block.units) (d.flatMap Block.waiting)) ∧
    ∀ front file entries back, d = front ++ .unit file entries :: back →
      (front.flatMap Block.files).Nodup → file ∈ front.flatMap Block.files →
        ofText origin text = .error (.repeatedUnit file) := by
  have hread := ofText_of_isSpelt h
  have htext : ofText origin text = ofDump d := by
    unfold ofText
    rw [hread]
  rw [htext]
  refine ⟨hread, fun hnd => ?_, ?_⟩
  · obtain ⟨g, hg, hloaded, hstores⟩ := exists_ofDump hnd
    exact ⟨g, hg, hloaded.toWellFormed, hstores⟩
  · rintro front file entries back rfl hfront hfile
    exact ofDump_eq_repeatedUnit hfront hfile

/-- Keywords as names, a trimmed initializer, a function type and a template, in both kinds of
blocks. -/
theorem stores_of_isSpelt_keywords :
    let d : Dump := [.unit "a.h" [.namespace "unit" [.record "class" (some
        [.field "fn" (.array (.pointer (.named "const char")) (some "4")),
          .method "field" [⟨"x", .named "fn"⟩] .void]), .record "enum" none],
        .enumeration "E" true [⟨"A", some "1 << 2"⟩, ⟨"B", none⟩]],
      .generated "a.h" [.extension "class" [.field "y" (.function .void [.named "fn"])],
        .entry (.alias "flags" (.specialization "V" [.named "int", .named "fn"]))]]
    ∃ text g, d.IsSpelt text.toList ∧ ofText "dump" text = .ok g ∧ g.WellFormed ∧
      g.Stores (d.flatMap Block.units) (d.flatMap Block.waiting) := by
  intro d
  have hident : ∀ {w : String}, (w.toList.head?.any isIdentStart && w.toList.all isIdentChar) →
      IsIdent w := isIdent_of_all
  have hname : ∀ {w : String}, IsIdent w → (TypeRef.named w).IsProper := fun hw => by
    rw [TypeRef.IsProper]
    exact ⟨[_], List.cons_ne_nil _ _, fun v hv => List.mem_singleton.1 hv ▸ hw, rfl⟩
  have hvalue : ∀ {s : List Char},
      (s.all fun c => decide (c ≠ ',' ∧ c ≠ '\x7d' ∧ ¬ IsLineEnd c)) →
      ∀ c ∈ s, c ≠ ',' ∧ c ≠ '\x7d' ∧ ¬ IsLineEnd c := fun hs c hc =>
    of_decide_eq_true (List.all_eq_true.1 hs c hc)
  have hclass : Entry.Spells (.record "class" (some [.field "fn" (.array (.pointer (.named
      "const char")) (some "4")), .method "field" [⟨"x", .named "fn"⟩] .void])) _ :=
    ⟨"class", _, Or.inl rfl, ⟨_, ⟨_, _, rfl, ⟨_, _, ⟨_, ⟨_, Or.inr ⟨rfl, rfl⟩, rfl⟩, rfl⟩, rfl,
      rfl⟩, rfl⟩, rfl⟩, rfl⟩
  have henum : Entry.Spells (.enumeration "E" true [⟨"A", some "1 << 2"⟩, ⟨"B", none⟩]) _ :=
    ⟨_, ⟨_, Or.inr ⟨List.cons_ne_nil _ _, rfl⟩, rfl⟩, rfl⟩
  obtain ⟨text, hd⟩ : ∃ text : String, d.IsSpelt text.toList := by
    refine exists_isSpelt (List.forall_mem_cons.2 ⟨⟨_, ⟨_, ⟨_, _, ⟨_, ⟨_, _, hclass, ⟨_, _,
      ⟨"struct", _, Or.inr rfl, rfl, rfl⟩, rfl, rfl⟩, rfl⟩, rfl⟩, ⟨_, _, henum, rfl, rfl⟩, rfl⟩,
      rfl⟩, ?_⟩, List.forall_mem_singleton.2 ⟨_, ⟨_, ⟨_, _, ⟨_, ⟨_, ⟨_, _, rfl, rfl, rfl⟩, rfl⟩,
      rfl⟩, ⟨_, _, rfl, rfl, rfl⟩, rfl⟩, rfl⟩, ?_⟩⟩)
    all_goals
      simp only [commas, Parameter.tokens, EnumItem.tokens, List.map_cons, List.map_nil,
        Option.elim, List.flatMap_cons, List.flatMap_nil, if_true, List.cons_append,
        List.nil_append, List.append_nil, List.forall_mem_cons, Token.IsProper]
      and_intros
    all_goals first
      | exact hident (by decide)
      | exact hname (hident (by decide))
      | exact hvalue (by decide)
      | decide
      | trivial
      | skip
    · rw [TypeRef.IsProper]
      refine ⟨["const", "char"], List.cons_ne_nil _ _, List.forall_mem_cons.2 ⟨hident (by decide),
        List.forall_mem_singleton.2 (hident (by decide))⟩, rfl⟩
    · rintro z ⟨⟩
      exact ⟨by decide, by decide, by decide, by decide⟩
    · exact List.forall_mem_nil _
    · exact List.forall_mem_nil _
  obtain ⟨g, hg, hwf, hstores⟩ := (@stores_of_isSpelt _ "dump" _ hd).2.1 (by decide)
  exact ⟨text, g, hd, hg, hwf, hstores⟩

end Graph

end Bindery
