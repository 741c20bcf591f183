import Bindery.Config
import Bindery.Proofs.File.Name
import Mathlib.Data.Set.Basic

/-!
# Paths of the output

What a run writes lies in the directory of its variant, and the names differ in their endings. So a
log is never in the place of a graph, a summary or a source, nor in that of the other variant.
-/

namespace Bindery

open Text FileSystem

namespace Config

variable (c : Config) (v : Variant)

def logPath : Path := Path.join (c.outputDir v) (.text "output.txt")

def graphPath : Path := Path.join (c.outputDir v) (.text (c.moduleName ++ ".json"))

def summaryPath : Path := Path.join (c.outputDir v) (.text "summary.md")

end Config

/-- The last letter of the directory of a variant. -/
def Variant.ending : Variant → Char
  | .legacy => 'D'
  | .enhanced => 'W'

theorem Variant.isNameEnd_ending (v : Variant) : Path.IsNameEnd v.ending := by
  cases v <;> decide

theorem Variant.ending_inj {v v' : Variant} (h : v.ending = v'.ending) : v = v' := by
  cases v <;> cases v' <;> first | rfl | exact absurd h (by decide)

namespace FileSystem

/-- The places whose last name ends in a character. -/
def endingIn (c : Char) : Set Place := {p | ∃ r z, p = r ++ [z] ∧ z.EndsIn [c]}

theorem notMem_endingIn {c d : Char} {p : Place} (hc : p ∈ endingIn c)
    (h : IsAscii [c, d] ∧ c ≠ d) : p ∉ endingIn d := by
  obtain ⟨hascii, hne⟩ := h
  obtain ⟨hcs, hds⟩ := List.forall_mem_cons.1 hascii
  obtain ⟨r, z, rfl, hz⟩ := hc
  rintro ⟨r', z', heq, hz'⟩
  obtain ⟨-, hzz⟩ := List.append_inj' heq rfl
  exact hne (hz.unique (List.singleton_inj.1 hzz ▸ hz') (List.forall_mem_singleton.2 hcs) hds)

end FileSystem

namespace Config

variable {c : Config} {v v' : Variant} {fs gs : FileSystem} {p : Place}

theorem suffix_of_extension (s : String) {e : String} {t : List Char} (h : t <:+ e.toList) :
    t <:+ (s ++ e).toList := by
  rw [String.toList_append]
  exact h.trans (List.suffix_append _ _)

theorem endsIn_logPath (c : Config) (v : Variant) : (c.logPath v).EndsIn ['t'] :=
  Path.endsIn_join (by decide) (by decide +kernel) _

theorem endsIn_graphPath (c : Config) (v : Variant) : (c.graphPath v).EndsIn ['n'] :=
  Path.endsIn_join (by decide) (suffix_of_extension _ (by decide +kernel)) _

theorem endsIn_summaryPath (c : Config) (v : Variant) : (c.summaryPath v).EndsIn ['d'] :=
  Path.endsIn_join (by decide) (by decide +kernel) _

theorem endsIn_generatedSource (c : Config) (v : Variant) : (c.generatedSource v).EndsIn ['s'] :=
  Path.endsIn_join (by decide) (suffix_of_extension _ (by decide +kernel)) _

theorem log_mem (h : fs.locate (c.logPath v) = .ok p) : p ∈ endingIn 't' :=
  exists_concat_of_locate h (c.endsIn_logPath v) (by decide)

theorem graph_mem (h : fs.locate (c.graphPath v) = .ok p) : p ∈ endingIn 'n' :=
  exists_concat_of_locate h (c.endsIn_graphPath v) (by decide)

theorem summary_mem (h : fs.locate (c.summaryPath v) = .ok p) : p ∈ endingIn 'd' :=
  exists_concat_of_locate h (c.endsIn_summaryPath v) (by decide)

theorem source_mem (h : fs.locate (c.generatedSource v) = .ok p) : p ∈ endingIn 's' :=
  exists_concat_of_locate h (c.endsIn_generatedSource v) (by decide)

/-- The logs of two variants are different files. -/
theorem variant_eq_of_log (h : fs.locate (c.logPath v) = .ok p)
    (h' : gs.locate (c.logPath v') = .ok p) : v = v' := by
  have hplace : ∀ {u : Variant} {hs : FileSystem}, hs.locate (c.logPath u) = .ok p →
      ∃ r y, p = r ++ [y, .text "output.txt"] ∧ y.EndsIn [u.ending] := by
    intro u hs hu
    have hdir : [u.ending] <:+ u.directory.toList := by cases u <;> decide +kernel
    obtain ⟨r, y, hp, hy⟩ := exists_append_of_locate hu (Path.endsIn_join_join u.isNameEnd_ending
      hdir (by decide +kernel) (by decide +kernel) _) u.isNameEnd_ending (by decide +kernel)
      (by decide +kernel) (by decide +kernel)
    rw [String.ofList_toList] at hp
    exact ⟨r, y, hp, hy⟩
  obtain ⟨r, y, rfl, hy⟩ := hplace h
  obtain ⟨r', y', heq, hy'⟩ := hplace h'
  obtain ⟨-, hyy⟩ := List.append_inj' heq rfl
  obtain ⟨rfl, -⟩ := List.cons_eq_cons.1 hyy
  exact Variant.ending_inj (hy.unique hy' v.isNameEnd_ending.ascii v'.isNameEnd_ending.ascii)

end Config

end Bindery
