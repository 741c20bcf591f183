import Bindery.Command.Modes
import Bindery.Proofs.Command.Run
import Bindery.Proofs.Patch.Decoration
import Bindery.Proofs.Patch.Replacement

/-!
# Cleaning a file

What is in a file stays there while something is logged, unless the log goes to that file. So a
source that is cleaned ends up as its decorated text with all replacements made, and with line ends
of either kind it comes to the same.
-/

namespace Bindery

open Text (crlf)

/-- The text of the file at a path, to which the log does not go. -/
def World.HasText (w : World) (path : Path) (text : String) : Prop :=
  w.tee.files.readText path = .ok text ∧
    ∀ k ∈ w.tee.sink, w.tee.files.locate path ≠ .ok k.place

/-- A world with one file, a source. -/
def World.ofSource (text : String) : World :=
  .ofFiles { nodes := [([.text "imgui.decls"], .file (.text text))] }

namespace Command

variable {w v : World} {path : Path} {text : String}

/-- Files change without a change of the directories, and a text stays or comes to be at a place. -/
theorem HasText.of_sameDirectories (h : w.HasText path text) (hsink : v.tee.sink = w.tee.sink)
    (hdirs : w.tee.files.SameDirectories v.tee.files) {content : String}
    (hnode : ∀ p, w.tee.files.locate path = .ok p →
      w.tee.files.node? p = some (.file (.text text)) →
      v.tee.files.node? p = some (.file (.text content))) :
    v.HasText path content := by
  obtain ⟨hread, hfree⟩ := h
  obtain ⟨hslash, p, hlocate, hp⟩ := FileSystem.readText_eq_ok.1 hread
  refine ⟨FileSystem.readText_eq_ok.2 ⟨hslash, p, hdirs.locate hlocate, hnode p hlocate hp⟩, ?_⟩
  intro k hk hplace
  rw [hsink] at hk
  exact hfree k hk (hdirs.symm.locate hplace)

theorem hasText_logLine (h : w.HasText path text) (l : LogLine) :
    ∃ v, logLine l w = some (.ok (), v) ∧ v.HasText path text := by
  refine ⟨_, rfl, ?_⟩
  split
  · cases hsink : w.tee.sink with
    | none =>
      refine HasText.of_sameDirectories h ?_ ?_ fun p _ hp => ?_
      · rfl
      · rw [Tee.write, hsink]
        exact .refl _
      · rw [Tee.write, hsink]
        exact hp
    | some k =>
      have hfree := h.2 k hsink
      refine HasText.of_sameDirectories h ?_ ?_ fun p hlocate hp => ?_
      · rfl
      · rw [Tee.write, hsink]
        exact FileSystem.sameDirectories_append _ _ _
      · have hne : p ≠ k.place := fun hpk => hfree (hpk ▸ hlocate)
        rw [Tee.write, hsink]
        exact (FileSystem.node?_append_of_ne hne _).trans hp
  · exact h

theorem hasText_forM_logLine (h : w.HasText path text) (ls : List LogLine) :
    ∃ v, ls.forM logLine w = some (.ok (), v) ∧ v.HasText path text := by
  induction ls generalizing w with
  | nil => exact ⟨w, rfl, h⟩
  | cons l ls ih =>
    obtain ⟨v, hv, htext⟩ := hasText_logLine h l
    obtain ⟨u, hu, htext⟩ := ih htext
    exact ⟨u, bind_eq_ok.2 ⟨(), v, hv, hu⟩, htext⟩

theorem hasText_writeFile (h : w.HasText path text) (content : String) :
    ∃ v, writeFile path content w = some (.ok (), v) ∧ v.HasText path content := by
  obtain ⟨hslash, p, hlocate, hp⟩ := FileSystem.readText_eq_ok.1 h.1
  have hnode : w.tee.files.node? p ≠ some .directory := by rw [hp]; simp
  have hplace := FileSystem.filePlace_eq_ok.2 ⟨hslash, hlocate, hnode⟩
  have hwrite : w.tee.files.write path (.text content)
      = .ok (w.tee.files.put p (.file (.text content))) := by
    rw [FileSystem.write, hplace]
    rfl
  refine ⟨_, writeFile_eq_ok.2 ⟨_, hwrite, rfl⟩,
    HasText.of_sameDirectories h ?_ ?_ fun q hq _ => ?_⟩
  · rfl
  · exact FileSystem.sameDirectories_put hnode _
  · obtain rfl := Except.ok.inj (hlocate.symm.trans hq)
    exact (FileSystem.node?_put _ (FileSystem.ne_nil_of_node? hnode) _ p).trans (if_pos rfl)

theorem exists?_of_hasText (h : w.HasText path text) : w.tee.files.exists? path = true := by
  obtain ⟨hslash, p, hlocate, hp⟩ := FileSystem.readText_eq_ok.1 h.1
  rw [FileSystem.exists?, hlocate]
  simp [hp, hslash]

/-- A source that is there is cleaned. -/
theorem hasText_cleanupFile (h : w.HasText path text) :
    ∃ v, cleanupFile path w = some (.ok true, v) ∧ v.HasText path (String.ofList
      (Replacement.applyAll Replacement.cleanup (Decoration.decorate text.toList))) := by
  obtain ⟨w₁, hw₁, h₁⟩ := hasText_forM_logLine h
    (Replacement.hitLog Replacement.cleanup (Decoration.decorate text.toList))
  obtain ⟨w₂, hw₂, h₂⟩ := hasText_writeFile h₁ (String.ofList
    (Replacement.applyAll Replacement.cleanup (Decoration.decorate text.toList)))
  obtain ⟨w₃, hw₃, h₃⟩ := hasText_logLine h₂
    ⟨.patches, .info, "Cleaned up " ++ path.shown⟩
  have hexists : inspect (·.exists? path) w = some (.ok true, w) :=
    congrArg (fun b => some (Except.ok b, w)) (exists?_of_hasText h)
  have hread : attempting ("Failed to read " ++ path.shown) (do
      ofExcept .file (← inspect (·.readText path))) w = some (.ok text, w) := by
    have hbind : (do ofExcept .file (← inspect (·.readText path)) : Command String) w
        = ofExcept .file (w.tee.files.readText path) w := bind_of_ok rfl
    rw [h.1] at hbind
    exact attempting_of_ok hbind _
  refine ⟨w₃, ?_, h₃⟩
  rw [cleanupFile]
  refine bind_eq_ok.2 ⟨true, w, hexists, ?_⟩
  refine bind_eq_ok.2 ⟨text, w, hread, bind_eq_ok.2 ⟨(), w₁, hw₁, bind_eq_ok.2 ⟨(), w₂, hw₂, ?_⟩⟩⟩
  exact bind_eq_ok.2 ⟨(), w₃, hw₃, rfl⟩

/-- Patching a text commutes with the choice of its line ends, so that the two forms of a source end
up as the two forms of one text. -/
theorem cleanup_of_either_line_end {t : List Char} (hcr : '\r' ∉ t) (hlf : '\n' ∈ t) :
    Decoration.decorate (crlf t) = crlf (Decoration.decorate t) ∧
    Replacement.applyAll Replacement.cleanup (crlf t)
      = crlf (Replacement.applyAll Replacement.cleanup t) ∧
    ∀ {w v : World} {path path' : Path}, w.HasText path (String.ofList t) →
      v.HasText path' (String.ofList (crlf t)) →
      ∃ u w' v', cleanupFile path w = some (.ok true, w') ∧ w'.HasText path (String.ofList u) ∧
        cleanupFile path' v = some (.ok true, v') ∧ v'.HasText path' (String.ofList (crlf u)) := by
  refine ⟨Decoration.decorate_crlf hcr hlf, Replacement.applyAll_cleanup_crlf hcr, ?_⟩
  intro w v path path' hw hv
  obtain ⟨w', hw', hclean⟩ := hasText_cleanupFile hw
  obtain ⟨v', hv', hclean'⟩ := hasText_cleanupFile hv
  rw [String.toList_ofList] at hclean hclean'
  rw [Decoration.decorate_crlf hcr hlf,
    Replacement.applyAll_cleanup_crlf (Decoration.notMem_decorate hcr)] at hclean'
  exact ⟨_, w', v', hw', hclean, hv', hclean'⟩

theorem hasText_ofSource (text : String) :
    (World.ofSource text).HasText ({} : Config).dumpPath text :=
  ⟨FileSystem.readText_dumpPath text, nofun⟩

/-- A source with a using directive, a documentation comment and the class of the symbols. -/
def symbolsSource : String :=
  "using System;
namespace ImGuiNET
\x7b
    /// <summary>One&lt;br/&gt;Two</summary>
\x7d
namespace ImGuiNET.__Symbols
\x7b
    internal class imgui
    \x7b
    \x7d
\x7d"

/-- What the cleanup makes of it. -/
def cleanedSource : String :=
  "#pragma warning disable CS0109 // The member 'member' does not hide an inherited member." ++
    " The new keyword is not required
using System;
using System.Collections.Concurrent;
using System.Numerics;
using System.Runtime.CompilerServices;
using System.Text;
namespace ImGuiNET
\x7b
    /// <summary>One<br/>Two</summary>
    public unsafe partial class ImGui
    \x7b
    \x7d
\x7d"

theorem cleanup_of_either_line_end_imgui :
    '\r' ∉ symbolsSource.toList ∧ '\n' ∈ symbolsSource.toList ∧ ∃ w v,
      cleanupFile ({} : Config).dumpPath (World.ofSource symbolsSource) = some (.ok true, w) ∧
      w.HasText ({} : Config).dumpPath cleanedSource ∧
      cleanupFile ({} : Config).dumpPath (World.ofSource (String.ofList (crlf symbolsSource.toList)))
        = some (.ok true, v) ∧
      v.HasText ({} : Config).dumpPath (String.ofList (crlf cleanedSource.toList)) := by
  -- characters of a long literal are taken apart at once, not one by one
  set_option maxRecDepth 20000 in
  have hsource : symbolsSource.toList = _ := String.toList_ofList
  have hcleaned : cleanedSource.toList = _ := Decoration.toList_ofList_append _ _
  have hcr : '\r' ∉ symbolsSource.toList := by rw [hsource]; decide +kernel
  have hlf : '\n' ∈ symbolsSource.toList := by rw [hsource]; decide +kernel
  have hclean : Replacement.applyAll Replacement.cleanup (Decoration.decorate symbolsSource.toList)
      = cleanedSource.toList := by
    rw [hsource, hcleaned, Replacement.applyAll_cleanup_eq_foldl,
      Decoration.decorate_eq_of_chars Decoration.pragmaChars.2 Decoration.usingsChars.2]
    decide +kernel
  have hread : (World.ofSource symbolsSource).HasText ({} : Config).dumpPath
      (String.ofList symbolsSource.toList) := by
    rw [String.ofList_toList]
    exact hasText_ofSource symbolsSource
  obtain ⟨u, w, v, hw, hu, hv, hu'⟩ := (cleanup_of_either_line_end hcr hlf).2.2 hread
    (hasText_ofSource (String.ofList (crlf symbolsSource.toList)))
  -- the theorem only says that there is a text, the cleanup of the first source says which
  obtain ⟨w', hw', htext⟩ := hasText_cleanupFile hread
  rw [String.toList_ofList, hclean] at htext
  obtain ⟨-, rfl⟩ := result_unique hw hw'
  have hcontent : u = cleanedSource.toList :=
    String.ofList_injective (Except.ok.inj (hu.1.symm.trans htext.1))
  rw [hcontent, String.ofList_toList] at hu
  rw [hcontent] at hu'
  exact ⟨hcr, hlf, w, v, hw, hu, hv, hu'⟩

end Command

end Bindery
