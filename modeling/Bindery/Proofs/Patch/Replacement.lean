import Bindery.Patch.Replacement
import Bindery.Proofs.Text.LineEnds

/-!
# Replacements and line ends

The table of the cleanup has the same effect on a text with either kind of line end. All of its
entries but two are about parts of one line; the two are one replacement of several lines, written
once for each kind, and the one for the other kind finds nothing.
-/

namespace Bindery.Replacement

open Text (crlf)

variable {r : Replacement} {table : List Replacement} {s : List Char}

/-- A replacement inside one line. -/
def IsInline (r : Replacement) : Prop :=
  r.old ≠ "" ∧ '\r' ∉ r.old.toList ++ r.new.toList ∧ '\n' ∉ r.old.toList ++ r.new.toList

/-- A replacement that finds something, and puts no carriage return in its place. -/
def KeepsLf (r : Replacement) : Prop := r.old ≠ "" ∧ '\r' ∉ r.new.toList

instance : DecidablePred KeepsLf := fun r => inferInstanceAs (Decidable (r.old ≠ "" ∧ _))

theorem toList_old_ne_nil (h : r.old ≠ "") : r.old.toList ≠ [] := by
  simpa using h

theorem apply_crlf (hr : r.IsInline) (hs : '\r' ∉ s) : r.apply (crlf s) = crlf (r.apply s) := by
  obtain ⟨hne, hcr, hlf⟩ := hr
  rw [List.mem_append, not_or] at hcr hlf
  have hold : crlf r.old.toList = r.old.toList := Text.crlf_of_notMem hlf.1
  have hnew : crlf r.new.toList = r.new.toList := Text.crlf_of_notMem hlf.2
  have h := Text.replaceAll_crlf (q := r.new.toList) (toList_old_ne_nil hne) hcr.1 hs
  rw [hold, hnew] at h
  exact h

theorem IsInline.keepsLf (hr : r.IsInline) : r.KeepsLf :=
  ⟨hr.1, fun h => hr.2.1 (List.mem_append_right _ h)⟩

theorem KeepsLf.notMem_apply (hr : r.KeepsLf) (hs : '\r' ∉ s) : '\r' ∉ r.apply s := fun h =>
  (Text.mem_replaceAll (toList_old_ne_nil hr.1) h).elim hr.2 hs

theorem notMem_applyAll (ht : ∀ r ∈ table, r.KeepsLf) (hs : '\r' ∉ s) :
    '\r' ∉ applyAll table s := by
  induction table generalizing s with
  | nil => exact hs
  | cons r rs ih =>
    exact ih (fun q hq => ht q (List.mem_cons_of_mem r hq))
      ((ht r (List.mem_cons_self ..)).notMem_apply hs)

theorem applyAll_cons (r : Replacement) (rs : List Replacement) (s : List Char) :
    applyAll (r :: rs) s = applyAll rs (r.apply s) := rfl

theorem applyAll_crlf (ht : ∀ r ∈ table, r.IsInline) (hs : '\r' ∉ s) :
    applyAll table (crlf s) = crlf (applyAll table s) := by
  induction table generalizing s with
  | nil => rfl
  | cons r rs ih =>
    have hr := ht r (List.mem_cons_self ..)
    rw [applyAll_cons, applyAll_cons, apply_crlf hr hs]
    exact ih (fun q hq => ht q (List.mem_cons_of_mem r hq)) (hr.keepsLf.notMem_apply hs)

/-! ### The characters of the table -/

/-- The characters of both texts. -/
def chars (r : Replacement) : List Char × List Char := (r.old.toList, r.new.toList)

theorem applyAll_eq_foldl_chars (table : List Replacement) (s : List Char) :
    applyAll table s = (table.map chars).foldl (fun s q => Text.replaceAll q.1 q.2 s) s := by
  rw [List.foldl_map]
  rfl

theorem map_chars_cons {old new : List Char} {cs : List (List Char × List Char)}
    (h : table.map chars = cs) :
    List.map chars (⟨String.ofList old, String.ofList new⟩ :: table) = (old, new) :: cs := by
  rw [List.map_cons, h, chars, String.toList_ofList, String.toList_ofList]

/-- The characters of the cleanup, written out, as they are slow to get from a string. -/
def cleanupChars : { cs : List (List Char × List Char) // cleanup.map chars = cs } :=
  ⟨_, map_chars_cons <| map_chars_cons <| map_chars_cons <| map_chars_cons <| map_chars_cons <|
    map_chars_cons <| map_chars_cons <| map_chars_cons <| map_chars_cons <| map_chars_cons <|
    map_chars_cons <| map_chars_cons <| map_chars_cons <| map_chars_cons <| List.map_nil⟩

theorem applyAll_cleanup_eq_foldl (s : List Char) :
    applyAll cleanup s = cleanupChars.1.foldl (fun s q => Text.replaceAll q.1 q.2 s) s :=
  (applyAll_eq_foldl_chars cleanup s).trans (congrArg (List.foldl _ s) cleanupChars.2)

theorem isInline_of_chars (h : ∀ q ∈ table.map chars,
    q.1 ≠ [] ∧ '\r' ∉ q.1 ++ q.2 ∧ '\n' ∉ q.1 ++ q.2) : ∀ r ∈ table, r.IsInline := by
  intro r hr
  have hq := h _ (List.mem_map_of_mem hr)
  simpa [IsInline, chars] using hq

/-! ### The replacement of several lines -/

/-- The end of one namespace and the beginning of the next, on lines that end in `nl`. -/
def merge (nl : String) : Replacement :=
  ⟨"\x7d" ++ nl ++ "namespace ImGuiNET.__Symbols" ++ nl ++ "\x7b" ++ nl ++
    "    internal class ImGui", "    public unsafe partial class ImGui"⟩

theorem merge_of_notMem (hs : '\r' ∉ s) : (merge "\r\n").apply s = s := by
  have hcr : '\r' ∈ (merge "\r\n").old.toList := by decide +kernel
  exact Text.replaceAll_of_not_occurs (List.ne_nil_of_mem hcr) fun h => hs (h.subset hcr)

theorem merge_of_crlf : (merge "\n").apply (crlf s) = crlf s := by
  have hbegin : ['\x7d', '\n'] <:+: (merge "\n").old.toList := by decide +kernel
  refine Text.replaceAll_of_not_occurs (by decide +kernel) fun h => ?_
  exact absurd (Text.eq_of_infix_crlf (hbegin.trans h)) (by decide)

theorem merge_crlf (hs : '\r' ∉ s) :
    (merge "\r\n").apply (crlf s) = crlf ((merge "\n").apply s) := by
  have hold : (merge "\r\n").old.toList = crlf (merge "\n").old.toList := by decide +kernel
  have hnew : (merge "\r\n").new.toList = crlf (merge "\n").new.toList := by decide +kernel
  rw [apply, hold, hnew]
  exact Text.replaceAll_crlf (by decide +kernel) (by decide +kernel) hs

theorem drop_cleanup : cleanup.drop 10 = merge "\r\n" :: merge "\n" :: cleanup.drop 12 := by
  decide +kernel

theorem isInline_of_mem_take : ∀ r ∈ cleanup.take 10, r.IsInline := by
  apply isInline_of_chars
  rw [List.map_take, cleanupChars.2]
  decide

theorem isInline_of_mem_drop : ∀ r ∈ cleanup.drop 12, r.IsInline := by
  apply isInline_of_chars
  rw [List.map_drop, cleanupChars.2]
  decide

theorem applyAll_cleanup_crlf (hs : '\r' ∉ s) :
    applyAll cleanup (crlf s) = crlf (applyAll cleanup s) := by
  have hsplit : ∀ t, applyAll cleanup t = applyAll (cleanup.drop 12)
      ((merge "\n").apply ((merge "\r\n").apply (applyAll (cleanup.take 10) t))) := by
    intro t
    rw [← applyAll_cons, ← applyAll_cons, ← drop_cleanup, ← applyAll_append,
      List.take_append_drop]
  -- `u` is the text before the lines are merged, `v` the text after
  obtain ⟨u, hu⟩ : ∃ u, applyAll (cleanup.take 10) s = u := ⟨_, rfl⟩
  obtain ⟨v, hv⟩ : ∃ v, (merge "\n").apply u = v := ⟨_, rfl⟩
  have hcr : '\r' ∉ u :=
    hu ▸ notMem_applyAll (fun r hr => (isInline_of_mem_take r hr).keepsLf) hs
  have hcr' : '\r' ∉ v := hv ▸ KeepsLf.notMem_apply (by decide +kernel) hcr
  calc applyAll cleanup (crlf s)
      = applyAll (cleanup.drop 12) ((merge "\n").apply ((merge "\r\n").apply (crlf u))) := by
        rw [hsplit, applyAll_crlf isInline_of_mem_take hs, hu]
    _ = applyAll (cleanup.drop 12) (crlf v) := by rw [merge_crlf hcr, merge_of_crlf, hv]
    _ = crlf (applyAll (cleanup.drop 12) v) := applyAll_crlf isInline_of_mem_drop hcr'
    _ = crlf (applyAll cleanup s) := by rw [hsplit, hu, merge_of_notMem hcr, hv]

end Bindery.Replacement
