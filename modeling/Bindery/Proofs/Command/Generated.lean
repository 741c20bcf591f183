import Bindery.Proofs.Command.Run
import Bindery.Proofs.Dump.Alike
import Bindery.Proofs.Dump.RoundTrip
import Bindery.Proofs.Pipeline.Copy

/-!
# Generated blocks

Where the generated blocks of a dump stand among the unit blocks decides nothing but the numbers of
declarations, so a run comes to the same end with them in any other place. Before they are attached
they decide nothing at all: the first phase does the same without them.
-/

namespace Bindery

open Dump

/-! ### Dumps with the same units -/

namespace Dump

def Block.isUnit : Block → Bool
  | .unit _ _ => true
  | .generated _ _ => false

variable {d d' : Dump}

/-- What yields nothing may be left out. -/
theorem flatMap_filter_of_eq_nil {α β : Type} {p : α → Bool} {F : α → List β}
    (h : ∀ a, p a = false → F a = []) (l : List α) : (l.filter p).flatMap F = l.flatMap F := by
  induction l with
  | nil => rfl
  | cons a l ih =>
    cases hp : p a with
    | true => rw [List.filter_cons_of_pos hp, List.flatMap_cons, List.flatMap_cons, ih]
    | false =>
      rw [List.filter_cons_of_neg (by simp [hp]), ih, List.flatMap_cons, h a hp, List.nil_append]

theorem flatMap_files_filter (d : Dump) :
    (d.filter Block.isUnit).flatMap Block.files = d.flatMap Block.files :=
  flatMap_filter_of_eq_nil (fun b hb => by cases b <;> first | rfl | exact absurd hb nofun) d

theorem flatMap_units_filter (d : Dump) :
    (d.filter Block.isUnit).flatMap Block.units = d.flatMap Block.units :=
  flatMap_filter_of_eq_nil (fun b hb => by cases b <;> first | rfl | exact absurd hb nofun) d

theorem flatMap_waiting_filter (d : Dump) :
    (d.filter (!·.isUnit)).flatMap Block.waiting = d.flatMap Block.waiting :=
  flatMap_filter_of_eq_nil (fun b hb => by cases b <;> first | rfl | exact absurd hb nofun) d

theorem waiting_of_isUnit (d : Dump) : (d.filter Block.isUnit).flatMap Block.waiting = [] := by
  refine List.flatMap_eq_nil_iff.2 fun b hb => ?_
  have hu := (List.mem_filter.1 hb).2
  cases b with
  | unit file entries => rfl
  | generated file products => exact absurd hu nofun

/-- The first unit block of a file that has one already. -/
theorem exists_repeated (h : ¬ (d.flatMap Block.files).Nodup) :
    ∃ front file entries back, d = front ++ .unit file entries :: back ∧
      (front.flatMap Block.files).Nodup ∧ file ∈ front.flatMap Block.files := by
  induction d using List.reverseRecOn with
  | nil => exact absurd List.nodup_nil h
  | append_singleton d b ih =>
    by_cases hd : (d.flatMap Block.files).Nodup
    · cases b with
      | unit file entries =>
        refine ⟨d, file, entries, [], rfl, hd, ?_⟩
        by_contra hfile
        refine h ?_
        rw [List.flatMap_append]
        exact List.nodup_append.2 ⟨hd, List.nodup_singleton file, fun a ha c hc hac =>
          hfile (List.mem_singleton.1 hc ▸ hac ▸ ha)⟩
      | generated file products =>
        refine absurd ?_ h
        rw [List.flatMap_append]
        simpa [Block.files] using hd
    · obtain ⟨front, file, entries, back, rfl, hfront, hfile⟩ := ih hd
      exact ⟨front, file, entries, back ++ [b], by simp, hfront, hfile⟩

theorem eq_of_first_repeated {α : Type} {xs ys xs' ys' : List α} {a b : α}
    (h : xs ++ a :: xs' = ys ++ b :: ys') (hx : xs.Nodup) (ha : a ∈ xs) (hy : ys.Nodup)
    (hb : b ∈ ys) : a = b := by
  have hlonger : ∀ {xs zs : List α} {a : α}, a ∈ xs → ¬ (xs ++ a :: zs).Nodup := fun hm hn =>
    (List.nodup_append.1 hn).2.2 _ hm _ List.mem_cons_self rfl
  rcases List.append_eq_append_iff.1 h with ⟨zs, rfl, hz⟩ | ⟨zs, rfl, hz⟩
  · cases zs with
    | nil => exact (List.cons_eq_cons.1 hz).1
    | cons z zs =>
      obtain ⟨rfl, -⟩ := List.cons_eq_cons.1 hz
      exact absurd hy (hlonger ha)
  · cases zs with
    | nil => exact (List.cons_eq_cons.1 hz).1.symm
    | cons z zs =>
      obtain ⟨rfl, -⟩ := List.cons_eq_cons.1 hz
      exact absurd hx (hlonger hb)

end Dump

namespace Graph

variable {d d' : Dump} {g : Graph}

/-- Dumps with the same unit blocks are refused for the same file, or both are accepted. -/
theorem ofDump_of_same_units (h : d.filter Block.isUnit = d'.filter Block.isUnit) :
    (∃ file, ofDump d = .error (.repeatedUnit file) ∧ ofDump d' = .error (.repeatedUnit file)) ∨
      ∃ g g', ofDump d = .ok g ∧ ofDump d' = .ok g' ∧ g.IsLoaded ∧ g'.IsLoaded ∧
        g.Stores (d.flatMap Block.units) (d.flatMap Block.waiting) ∧
        g'.Stores (d.flatMap Block.units) (d'.flatMap Block.waiting) := by
  have hfiles : d.flatMap Block.files = d'.flatMap Block.files := by
    rw [← flatMap_files_filter d, ← flatMap_files_filter d', h]
  have hunits : d'.flatMap Block.units = d.flatMap Block.units := by
    rw [← flatMap_units_filter d, ← flatMap_units_filter d', h]
  by_cases hd : (d.flatMap Block.files).Nodup
  · obtain ⟨g, hg, hloaded, hstores⟩ := exists_ofDump hd
    obtain ⟨g', hg', hloaded', hstores'⟩ := exists_ofDump (hfiles ▸ hd)
    rw [hunits] at hstores'
    exact Or.inr ⟨g, g', hg, hg', hloaded, hloaded', hstores, hstores'⟩
  · obtain ⟨front, file, entries, back, rfl, hfront, hfile⟩ := exists_repeated hd
    obtain ⟨front', file', entries', back', rfl, hfront', hfile'⟩ := exists_repeated (hfiles ▸ hd)
    have hsame : file = file' := by
      simp only [List.flatMap_append, List.flatMap_cons, Block.files,
        List.singleton_append] at hfiles
      exact eq_of_first_repeated hfiles hfront hfile hfront' hfile'
    refine Or.inl ⟨file, ofDump_eq_repeatedUnit hfront hfile, ?_⟩
    rw [hsame]
    exact ofDump_eq_repeatedUnit hfront' hfile'

theorem IsRooted.exists_listing? (hg : g.IsRooted) : ∃ s, g.listing? = some s := by
  rw [listing?, declarationForest?, hg.forest?_eq]
  exact ⟨_, rfl⟩

theorem ofText_eq_ofDump {text : String} (h : Dump.ofText text.toList = .ok d) (origin : String) :
    ofText origin text = ofDump d := by
  unfold ofText
  rw [h]

end Graph

/-- Blocks of one function can be put into a text in any order. -/
theorem Dump.exists_text_functions (d : Dump)
    (hd : ∀ b ∈ d, b = .unit "a" [.function "f" [] .void] ∨
      b = .generated "a" [.entry (.function "f" [] .void)]) :
    ∃ text : String, Dump.ofText text.toList = .ok d := by
  have hsignature : SpellsSignature "f" [] .void [.word "f", .sign "(", .sign ")", .sign ";"] :=
    ⟨[], Or.inr ⟨rfl, rfl⟩, rfl⟩
  have hident : ∀ {w : String}, (w.toList.head?.any isIdentStart && w.toList.all isIdentChar) →
      IsIdent w := isIdent_of_all
  have hproper : ∀ {w : String}, IsIdent w → ∀ t ∈ [Token.word w, .quoted "a", .sign "\x7b",
      .word "fn", .word "f", .sign "(", .sign ")", .sign ";", .sign "\x7d"], t.IsProper := by
    intro w hw
    simp only [List.forall_mem_cons, Token.IsProper]
    exact ⟨hw, by decide, by decide, hident (by decide), hident (by decide), by decide, by decide,
      by decide, by decide, List.forall_mem_nil _⟩
  refine (exists_isSpelt fun b hb => ?_).imp fun _ h => ofText_of_isSpelt h
  rcases hd b hb with rfl | rfl
  · exact ⟨_, ⟨_, ⟨_, _, ⟨_, hsignature, rfl⟩, rfl, rfl⟩, rfl⟩, hproper (hident (by decide))⟩
  · exact ⟨_, ⟨_, ⟨_, _, ⟨_, hsignature, rfl⟩, rfl, rfl⟩, rfl⟩, hproper (hident (by decide))⟩

/-! ### The first phase -/

namespace Pipeline

/-- Without the generated blocks a dump is accepted or refused alike, lists the same declarations
and has the same main unit; the first phase of any pipeline then has the same result, log, report
and listing. -/
theorem preprocess_without_generated {origin text text' : String} {d : Dump}
    (hd : Dump.ofText text.toList = .ok d)
    (hd' : Dump.ofText text'.toList = .ok (d.filter Block.isUnit)) (p : Pipeline)
    (header : String) :
    (∃ e, Graph.ofText origin text = .error e ∧ Graph.ofText origin text' = .error e) ∨
    ∃ g g' before, Graph.ofText origin text = .ok g ∧ Graph.ofText origin text' = .ok g' ∧
      g.listing? = some before ∧ g'.listing? = some before ∧
      ((∃ e, (Scope.primary g header).run = some (.error e) ∧
          (Scope.primary g' header).run = some (.error e)) ∨
        ∃ scope scope', (Scope.primary g header).run = some (.ok scope) ∧
          (Scope.primary g' header).run = some (.ok scope') ∧
          ∀ log passes, ∃ r w w' after,
            p.runPhase .preprocess scope { graph := g, log, passes } = some (r, w) ∧
            p.runPhase .preprocess scope' { graph := g', log, passes } = some (r, w') ∧
            w.log = w'.log ∧ w.passes = w'.passes ∧
            w.graph.listing? = some after ∧ w'.graph.listing? = some after) := by
  rw [Graph.ofText_eq_ofDump hd, Graph.ofText_eq_ofDump hd']
  have hunits : (d.filter Block.isUnit).filter Block.isUnit = d.filter Block.isUnit := by
    rw [List.filter_filter]
    exact List.filter_congr fun b _ => Bool.and_self _
  rcases Graph.ofDump_of_same_units hunits with ⟨file, he', he⟩ | h
  · exact Or.inl ⟨_, he, he'⟩
  obtain ⟨g', g, hg', hg, hloaded', hloaded, hstores', hstores⟩ := h
  rw [waiting_of_isUnit] at hstores'
  have C := hloaded'.copy hloaded hstores' hstores
  obtain ⟨before, hbefore⟩ := hloaded'.isRooted.exists_listing?
  refine Or.inr ⟨g, g', before, hg, hg', C.listing?_eq hbefore, hbefore, ?_⟩
  obtain ⟨r, hr, hunit, -⟩ := hloaded'.primary_spec header
  have hr' := C.primary header r hr
  cases r with
  | error e => exact Or.inl ⟨e, hr', hr⟩
  | ok scope' =>
    refine Or.inr ⟨scope'.seen _, scope', hr', hr, fun log passes => ?_⟩
    have hready : Move.Ready scope' (p.moves g'.pending) g' :=
      ⟨hloaded'.toWellFormed, (hunit scope' rfl).1, (p.waiting_moves _).symm ▸ hloaded'.awaits⟩
    obtain ⟨res, w', hw', hok, herr⟩ := Step.runs_iff.1
      (p.follows_runPhase .preprocess { graph := g', log, passes } _ hready)
    have hend : w'.graph.WellFormed := by
      cases res with
      | ok x => exact (hok x rfl).1.wellFormed
      | error e =>
        obtain ⟨rest, -, hrest, -⟩ := ((herr e rfl).append_left _).exists_ready hready
        exact hrest.wellFormed
    obtain ⟨after, hafter⟩ := hend.isRooted.exists_listing?
    obtain ⟨w, hw, hcopy⟩ := p.carries_runPhase .preprocess { graph := g', log, passes }
      { graph := g, log, passes } res w' ⟨C, rfl, rfl⟩ hw'
    rw [Step.map_id_result] at hw
    exact ⟨res, w, w', after, hw, hw', hcopy.log, hcopy.passes, hcopy.graph.listing?_eq hafter,
      hafter⟩

/-- A generated block in front of the unit for which it is. -/
theorem preprocess_without_generated_front :
    ∃ (text text' : String) (d : Dump) (g g' : Graph), Dump.ofText text.toList = .ok d ∧
      Dump.ofText text'.toList = .ok (d.filter Block.isUnit) ∧
      Graph.ofText "dump" text = .ok g ∧ g.size = 3 ∧ Graph.ofText "dump" text' = .ok g' ∧
      g'.size = 2 ∧ ∃ before, g.listing? = some before ∧ g'.listing? = some before := by
  obtain ⟨text, hd⟩ := exists_text_functions
    [.generated "a" [.entry (.function "f" [] .void)], .unit "a" [.function "f" [] .void]]
    (by simp)
  obtain ⟨text', hd'⟩ := exists_text_functions [.unit "a" [.function "f" [] .void]] (by simp)
  rcases @preprocess_without_generated "dump" text text' _ hd hd' (standard .legacy) "a" with h | h
  · obtain ⟨e, he, -⟩ := h
    rw [Graph.ofText_eq_ofDump hd] at he
    exact absurd he nofun
  · obtain ⟨g, g', before, hg, hg', hbefore, hbefore', -⟩ := h
    refine ⟨text, text', _, g, g', hd, hd', hg, ?_, hg', ?_, before, hbefore, hbefore'⟩
    · rw [Graph.ofText_eq_ofDump hd] at hg
      rw [← Except.ok.inj hg]
      rfl
    · rw [Graph.ofText_eq_ofDump hd'] at hg'
      rw [← Except.ok.inj hg']
      rfl

/-- The same failure, or runs with the same report and the same listing. -/
def SameOutcome : Except Failure PipelineRun → Except Failure PipelineRun → Prop
  | .error f, .error f' => f = f'
  | .ok run, .ok run' => run.report = run'.report ∧
      ∃ s, run.graph.listing? = some s ∧ run'.graph.listing? = some s
  | _, _ => False

/-- A run over a dump comes to an end, and to the same one if the generated blocks stand at other
places among the unit blocks, each kind in its order. -/
theorem sameOutcome_of_same_blocks {text text' : String} {d d' : Dump} {c : Config} {w w' : World}
    (hd : Dump.ofText text.toList = .ok d) (hd' : Dump.ofText text'.toList = .ok d')
    (hunits : d.filter Block.isUnit = d'.filter Block.isUnit)
    (hgenerated : d.filter (!·.isUnit) = d'.filter (!·.isUnit))
    (hw : w.Provides c text) (hw' : w'.Provides c text') (p : Pipeline) :
    ∃ r v r' v', p.execute c w = some (r, v) ∧ p.execute c w' = some (r', v') ∧
      SameOutcome r r' := by
  rcases Graph.ofDump_of_same_units hunits with ⟨file, he, he'⟩ | h
  · rw [← Graph.ofText_eq_ofDump hd c.dumpPath.shown] at he
    rw [← Graph.ofText_eq_ofDump hd' c.dumpPath.shown] at he'
    obtain ⟨v, hv⟩ := p.exists_execute_of_load_error hw he
    obtain ⟨v', hv'⟩ := p.exists_execute_of_load_error hw' he'
    exact ⟨_, v, _, v', hv, hv', rfl⟩
  obtain ⟨g, g', hg, hg', hloaded, hloaded', hstores, hstores'⟩ := h
  rw [← Graph.ofText_eq_ofDump hd c.dumpPath.shown] at hg
  rw [← Graph.ofText_eq_ofDump hd' c.dumpPath.shown] at hg'
  have hwaiting : d'.flatMap Block.waiting = d.flatMap Block.waiting ++ [] := by
    rw [← flatMap_waiting_filter d, ← flatMap_waiting_filter d', hgenerated, List.append_nil]
  rw [hwaiting] at hstores'
  have C := hloaded.copy hloaded' hstores hstores'
  have hextra : g'.pending.drop g.pending.length = [] := by
    rw [List.drop_eq_nil_iff, hstores.length_pending, hstores'.length_pending, List.append_nil]
  rw [hextra] at C
  obtain ⟨r, work, hr, hreaches⟩ := exists_transform hloaded p c.primaryHeader
  obtain ⟨work', hr', hcopy⟩ := p.carries_transform c.primaryHeader { graph := g } { graph := g' }
    r work ⟨C, rfl, rfl⟩ hr
  rw [Step.map_id_result] at hr'
  obtain ⟨s, hs⟩ := (hreaches.exists_ready hloaded).1.isRooted.exists_listing?
  obtain ⟨v, hv⟩ := p.exists_execute_of_transform hw hg hloaded.toWellFormed hr
  obtain ⟨v', hv'⟩ := p.exists_execute_of_transform hw' hg' hloaded'.toWellFormed hr'
  refine ⟨_, v, _, v', hv, hv', ?_⟩
  cases r with
  | error e => rfl
  | ok n =>
    refine ⟨?_, s, hs, hcopy.graph.listing?_eq hs⟩
    show PipelineReport.mk _ _ _ = PipelineReport.mk _ _ _
    rw [hcopy.passes]

/-- A generated block before and after the unit for which it is. -/
theorem sameOutcome_of_same_blocks_swapped :
    ∃ (text text' : String) (d d' : Dump) (p : Pipeline) (c : Config) (w w' : World),
      Dump.ofText text.toList = .ok d ∧ Dump.ofText text'.toList = .ok d' ∧ d ≠ d' ∧
      w.Provides c text ∧ w'.Provides c text' ∧
      ∃ r v r' v', p.execute c w = some (r, v) ∧ p.execute c w' = some (r', v') ∧
        SameOutcome r r' := by
  let p : Pipeline := { variant := .legacy, passes := [.trim] }
  let c : Config := { headers := ["a"] }
  let world (text : String) : World :=
    .ofFiles { nodes := [([.text "imgui.decls"], .file (.text text))] }
  have hworld : ∀ text, (world text).Provides c text := fun text =>
    Command.provides_of_sink rfl (FileSystem.readText_dumpPath text)
  obtain ⟨text, hd⟩ := exists_text_functions
    [.generated "a" [.entry (.function "f" [] .void)], .unit "a" [.function "f" [] .void]]
    (by simp)
  obtain ⟨text', hd'⟩ := exists_text_functions
    [.unit "a" [.function "f" [] .void], .generated "a" [.entry (.function "f" [] .void)]]
    (by simp)
  exact ⟨text, text', _, _, p, c, world text, world text', hd, hd', by simp, hworld text,
    hworld text', sameOutcome_of_same_blocks hd hd' rfl rfl (hworld text) (hworld text') p⟩

end Pipeline

end Bindery
