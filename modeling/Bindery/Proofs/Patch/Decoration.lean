import Bindery.Patch.Decoration
import Bindery.Proofs.Text.LineEnds

/-!
# Decoration and line ends

The decoration of a source looks at one line after another. A carriage return at the end of a line
is in none of the texts that it looks for, so it does the same with either kind of line end, and
puts in line ends of the kind that it finds.
-/

namespace Bindery.Decoration

open Text (crlf)

variable {s t l : List Char} {ls : List (List Char)}

/-! ### The characters of the texts that are put in -/

theorem map_toList_cons {cs : List Char} {us : List String} {css : List (List Char)}
    (h : us.map String.toList = css) : (String.ofList cs :: us).map String.toList = cs :: css := by
  rw [List.map_cons, h, String.toList_ofList]

/-- The characters of the directives, written out, as they are slow to get from a string. -/
def usingsChars : { css : List (List Char) // usings.map String.toList = css } :=
  ⟨_, map_toList_cons <| map_toList_cons <| map_toList_cons <| map_toList_cons <| List.map_nil⟩

theorem toList_ofList_append (cs ds : List Char) :
    (String.ofList cs ++ String.ofList ds).toList = cs ++ ds := by
  rw [String.toList_append, String.toList_ofList, String.toList_ofList]

/-- The characters of the pragma, written out. -/
def pragmaChars : { cs : List Char // pragma.toList = cs } := ⟨_, toList_ofList_append _ _⟩

theorem missing_eq_filter (s : List Char) : missing s =
    (usings.map String.toList).filter fun d => !(lines s).any fun l => Text.trimEnd l == d := by
  rw [List.filter_map]
  rfl

/-- The decoration, in terms of the characters of its texts. -/
theorem decorate_eq_of_chars {cs : List Char} {css : List (List Char)} (hcs : pragma.toList = cs)
    (hcss : usings.map String.toList = css) (s : List Char) : decorate s =
      let ds := css.filter fun d => !(lines s).any fun l => Text.trimEnd l == d
      let added := match insertAfterUsings? (ds.flatMap (newline s ++ ·)) (lines s) with
        | some ls => unlines ls
        | none => ds.flatMap (· ++ newline s) ++ s
      let mended := unlines ((lines added).map mendComment)
      if Text.contains cs s then mended else cs ++ newline s ++ mended := by
  subst hcs hcss
  rw [← missing_eq_filter]
  rfl

/-! ### Lines -/

theorem unlines_cons (l : List Char) (h : ls ≠ []) :
    unlines (l :: ls) = l ++ '\n' :: unlines ls := by
  obtain ⟨m, ls, rfl⟩ := List.exists_cons_of_ne_nil h
  rw [unlines, List.intercalate_cons_cons, List.append_assoc]
  rfl

theorem unlines_lines (s : List Char) : unlines (lines s) = s := List.intercalate_splitOn '\n'

theorem lines_unlines (hne : ls ≠ []) (h : ∀ l ∈ ls, '\n' ∉ l) : lines (unlines ls) = ls :=
  List.splitOn_intercalate '\n' h hne

theorem lines_ne_nil (s : List Char) : lines s ≠ [] := List.splitOn_ne_nil '\n' s

theorem lines_cons (c : Char) (s : List Char) :
    lines (c :: s) = if c = '\n' then [] :: lines s else (lines s).modifyHead (c :: ·) := by
  rw [lines, List.splitOn_cons_eq_if_modifyHead]
  by_cases hc : c = '\n' <;> simp [hc, lines]

/-- The characters of the lines are those of the text other than line feeds. -/
theorem mem_lines {c : Char} : (∃ l ∈ lines s, c ∈ l) ↔ c ∈ s ∧ c ≠ '\n' := by
  induction s with
  | nil => simp [lines]
  | cons d s ih =>
    obtain ⟨m, ms, hm⟩ := List.exists_cons_of_ne_nil (lines_ne_nil s)
    rw [lines_cons, List.mem_cons]
    split
    · next hd => grind
    · next hd =>
      rw [hm] at ih ⊢
      simp only [List.modifyHead_cons, List.mem_cons, exists_eq_or_imp] at ih ⊢
      grind

theorem newline_notMem_lines : ∀ l ∈ lines s, '\n' ∉ l := fun l hl h =>
  (mem_lines.1 ⟨l, hl, h⟩).2 rfl

/-- The lines of a text with carriage returns: all but the last one end in one. -/
def crlfLines : List (List Char) → List (List Char)
  | [] => []
  | [l] => [crlf l]
  | l :: m :: ls => (crlf l ++ ['\r']) :: crlfLines (m :: ls)

theorem crlfLines_ne_nil (h : ls ≠ []) : crlfLines ls ≠ [] := by
  match ls with
  | [] => exact absurd rfl h
  | [l] => exact List.cons_ne_nil _ _
  | l :: m :: ls => exact List.cons_ne_nil _ _

theorem crlf_unlines (ls : List (List Char)) : crlf (unlines ls) = unlines (crlfLines ls) := by
  induction ls using crlfLines.induct with
  | case1 => rfl
  | case2 l => simp [unlines, crlfLines]
  | case3 l m ls ih =>
    have hne := List.cons_ne_nil m ls
    rw [unlines_cons l hne, crlfLines, unlines_cons _ (crlfLines_ne_nil hne), Text.crlf_append,
      Text.crlf_newline, ih]
    simp

theorem notMem_of_mem_crlfLines (h : ∀ l ∈ ls, '\n' ∉ l) : ∀ l ∈ crlfLines ls, '\n' ∉ l := by
  induction ls using crlfLines.induct with
  | case1 => simp [crlfLines]
  | case2 l =>
    have hl := h l (List.mem_cons_self ..)
    simpa [crlfLines, Text.crlf_of_notMem hl] using hl
  | case3 l m ls ih =>
    have hl := h l (List.mem_cons_self ..)
    have hrest := ih fun k hk => h k (List.mem_cons_of_mem l hk)
    intro k hk
    rcases List.mem_cons.1 hk with rfl | hk
    · simpa [Text.crlf_of_notMem hl] using hl
    · exact hrest k hk

theorem lines_crlf (s : List Char) : lines (crlf s) = crlfLines (lines s) := by
  have h : lines (unlines (crlfLines (lines s))) = crlfLines (lines s) :=
    lines_unlines (crlfLines_ne_nil (lines_ne_nil s)) (notMem_of_mem_crlfLines newline_notMem_lines)
  rwa [← crlf_unlines, unlines_lines] at h

theorem any_crlfLines {f : List Char → Bool} (hf : ∀ l, f (l ++ ['\r']) = f l)
    (h : ∀ l ∈ ls, '\n' ∉ l) : (crlfLines ls).any f = ls.any f := by
  induction ls using crlfLines.induct with
  | case1 => rfl
  | case2 l => rw [crlfLines, Text.crlf_of_notMem (h l (List.mem_cons_self ..))]
  | case3 l m ls ih =>
    have hl := h l (List.mem_cons_self ..)
    rw [crlfLines, List.any_cons, Text.crlf_of_notMem hl, hf,
      ih fun k hk => h k (List.mem_cons_of_mem l hk)]
    rfl

theorem map_crlfLines {f : List Char → List Char} (hf : ∀ l, f (l ++ ['\r']) = f l ++ ['\r'])
    (hmem : ∀ l, '\n' ∉ l → '\n' ∉ f l) (h : ∀ l ∈ ls, '\n' ∉ l) :
    (crlfLines ls).map f = crlfLines (ls.map f) := by
  induction ls using crlfLines.induct with
  | case1 => rfl
  | case2 l =>
    have hl := h l (List.mem_cons_self ..)
    simp [crlfLines, Text.crlf_of_notMem hl, Text.crlf_of_notMem (hmem l hl)]
  | case3 l m ls ih =>
    have hl := h l (List.mem_cons_self ..)
    have hrest := ih fun k hk => h k (List.mem_cons_of_mem l hk)
    rw [crlfLines, List.map_cons, hrest, Text.crlf_of_notMem hl, hf]
    simp [crlfLines, Text.crlf_of_notMem (hmem l hl)]

/-! ### Using directives -/

theorem newline_of_notMem (hs : '\r' ∉ s) : newline s = ['\n'] := by
  have hnone : Text.contains ['\r', '\n'] s = false := by
    rw [Text.contains, Text.cut?_eq_none.2 fun h => hs (h.subset (by simp))]
    rfl
  rw [newline, hnone, if_neg Bool.false_ne_true]

theorem newline_crlf (hcr : '\r' ∉ s) (hlf : '\n' ∈ s) : newline (crlf s) = ['\r', '\n'] := by
  have hlf : Text.contains ['\n'] s = true := by
    rw [Text.contains, Text.contains_iff_cut?]
    obtain ⟨a, b, rfl⟩ := List.append_of_mem hlf
    exact ⟨a, b, by simp⟩
  have h := Text.contains_crlf (p := ['\n']) (by simp) (by simp) hcr
  rw [hlf] at h
  exact if_pos h

theorem hasUsing_crlf (s : List Char) (directive : String) :
    hasUsing (crlf s) directive = hasUsing s directive := by
  have htrim : ∀ l, Text.trimEnd (l ++ ['\r']) = Text.trimEnd l := fun l =>
    Text.trimEnd_append (List.forall_mem_singleton.2 rfl)
  rw [hasUsing, lines_crlf, any_crlfLines (fun l => by rw [htrim]) newline_notMem_lines]
  rfl

theorem missing_crlf (s : List Char) : missing (crlf s) = missing s := by
  simp only [missing, hasUsing_crlf]

theorem takeWhile_concat {f : Char → Bool} {c : Char} (hc : f c = false) (l : List Char) :
    (l ++ [c]).takeWhile f = l.takeWhile f := by
  induction l with
  | nil => simp [hc]
  | cons d l ih => simp [List.takeWhile_cons, ih]

theorem dropWhile_concat {f : Char → Bool} {c : Char} (hc : f c = false) (l : List Char) :
    (l ++ [c]).dropWhile f = l.dropWhile f ++ [c] := by
  induction l with
  | nil => simp [hc]
  | cons d l ih =>
    rw [List.cons_append, List.dropWhile_cons, List.dropWhile_cons, ih]
    split <;> rfl

theorem usingLength?_concat (l : List Char) : usingLength? (l ++ ['\r']) = usingLength? l := by
  have hbegins : "using ".toList.isPrefixOf (l ++ ['\r']) = "using ".toList.isPrefixOf l := by
    rw [Bool.eq_iff_iff, List.isPrefixOf_iff_prefix, List.isPrefixOf_iff_prefix,
      Text.prefix_concat (by decide)]
  rw [usingLength?, usingLength?]
  simp only [hbegins]
  split
  · next hl =>
    obtain ⟨rest, rfl⟩ := List.isPrefixOf_iff_prefix.1 hl
    have hname := takeWhile_concat (f := fun c => c != ';' && c != '\r') (c := '\r') rfl rest
    have hle : (rest.takeWhile fun c => c != ';' && c != '\r').length ≤ rest.length :=
      (List.takeWhile_sublist _).length_le
    rw [List.append_assoc, List.drop_left, List.drop_left, hname,
      List.drop_append_of_le_length hle]
    cases rest.drop (rest.takeWhile fun c => c != ';' && c != '\r').length <;> simp
  · rfl

theorem usingLength?_le {n : Nat} (h : usingLength? l = some n) : n ≤ l.length := by
  simp only [usingLength?] at h
  split at h
  · next hl =>
    obtain ⟨rest, rfl⟩ := List.isPrefixOf_iff_prefix.1 hl
    rw [List.drop_left] at h
    split at h
    · next hend =>
      have hlt := (List.getElem?_eq_some_iff.1 (List.head?_drop ▸ hend.2)).1
      rw [List.length_append, ← Option.some.inj h]
      omega
    · nomatch h
  · nomatch h

section Insertion

variable {text : List Char} {ks : List (List Char)}

theorem insertAfterUsings?_cons_of_some (l : List Char)
    (h : insertAfterUsings? text ls = some ks) :
    insertAfterUsings? text (l :: ls) = some (l :: ks) := by
  rw [insertAfterUsings?, h]

theorem insertAfterUsings?_cons_of_none (l : List Char) (h : insertAfterUsings? text ls = none) :
    insertAfterUsings? text (l :: ls)
      = (usingLength? l).map fun n => (l.take n ++ text ++ l.drop n) :: ls := by
  rw [insertAfterUsings?, h]

theorem insertAfterUsings?_ne_nil (h : insertAfterUsings? text ls = some ks) : ks ≠ [] := by
  rintro rfl
  cases ls with
  | nil => nomatch h
  | cons l ls =>
    rw [insertAfterUsings?] at h
    split at h
    · nomatch h
    · simp at h

end Insertion

theorem crlfLines_cons (l : List Char) (h : ls ≠ []) :
    crlfLines (l :: ls) = (crlf l ++ ['\r']) :: crlfLines ls := by
  obtain ⟨m, ls, rfl⟩ := List.exists_cons_of_ne_nil h
  rfl

/-- A text goes into a line before what is at its end. -/
theorem insert_crlf {n : Nat} (text e : List Char) (hl : '\n' ∉ l) (hn : n ≤ l.length) :
    (l ++ e).take n ++ crlf text ++ (l ++ e).drop n
      = crlf (l.take n ++ text ++ l.drop n) ++ e := by
  have htake := Text.crlf_of_notMem fun h => hl (List.mem_of_mem_take (i := n) h)
  have hdrop := Text.crlf_of_notMem fun h => hl (List.mem_of_mem_drop (i := n) h)
  rw [List.take_append_of_le_length hn, List.drop_append_of_le_length hn, Text.crlf_append,
    Text.crlf_append, htake, hdrop, List.append_assoc, List.append_assoc, List.append_assoc]

theorem insertAfterUsings?_crlfLines (text : List Char) (h : ∀ l ∈ ls, '\n' ∉ l) :
    insertAfterUsings? (crlf text) (crlfLines ls)
      = (insertAfterUsings? text ls).map crlfLines := by
  induction ls using crlfLines.induct with
  | case1 => rfl
  | case2 l =>
    have hl := h l (List.mem_cons_self ..)
    rw [crlfLines, Text.crlf_of_notMem hl, insertAfterUsings?, insertAfterUsings?]
    simp only [insertAfterUsings?]
    cases hn : usingLength? l with
    | none => rfl
    | some n => simpa [crlfLines] using insert_crlf text [] hl (usingLength?_le hn)
  | case3 l m ls ih =>
    have hl := h l (List.mem_cons_self ..)
    have hrest := ih fun k hk => h k (List.mem_cons_of_mem l hk)
    rw [crlfLines, Text.crlf_of_notMem hl]
    cases hks : insertAfterUsings? text (m :: ls) with
    | some ks =>
      have hcons := crlfLines_cons l (insertAfterUsings?_ne_nil hks)
      rw [hks, Option.map_some] at hrest
      rw [insertAfterUsings?_cons_of_some _ hrest, insertAfterUsings?_cons_of_some _ hks,
        Option.map_some, hcons, Text.crlf_of_notMem hl]
    | none =>
      rw [hks, Option.map_none] at hrest
      rw [insertAfterUsings?_cons_of_none _ hrest, insertAfterUsings?_cons_of_none _ hks,
        usingLength?_concat]
      cases hn : usingLength? l with
      | none => rfl
      | some n =>
        rw [Option.map_some, Option.map_some, Option.map_some,
          insert_crlf _ _ hl (usingLength?_le hn), crlfLines_cons _ (List.cons_ne_nil m ls)]

theorem crlf_flatMap {ds : List (List Char)} {f g : List Char → List Char}
    (h : ∀ d ∈ ds, crlf (f d) = g d) : crlf (ds.flatMap f) = ds.flatMap g := by
  induction ds with
  | nil => rfl
  | cons d ds ih =>
    rw [List.flatMap_cons, Text.crlf_append, h d (List.mem_cons_self ..),
      ih fun e he => h e (List.mem_cons_of_mem d he), List.flatMap_cons]

theorem notMem_of_mem_missing : ∀ d ∈ missing s, '\n' ∉ d ∧ '\r' ∉ d := by
  intro d hd
  have husings : ∀ d ∈ usings.map String.toList, '\n' ∉ d ∧ '\r' ∉ d := by
    rw [usingsChars.2]
    decide
  rw [missing_eq_filter] at hd
  exact husings d (List.mem_filter.1 hd).1

theorem addUsings_crlf (hcr : '\r' ∉ s) (hlf : '\n' ∈ s) :
    addUsings (crlf s) = crlf (addUsings s) := by
  have hmissing : ∀ d ∈ missing s, crlf d = d := fun d hd =>
    Text.crlf_of_notMem (notMem_of_mem_missing d hd).1
  have hbehind : crlf ((missing s).flatMap (['\n'] ++ ·))
      = (missing s).flatMap (['\r', '\n'] ++ ·) := by
    refine crlf_flatMap fun d hd => ?_
    rw [Text.crlf_append, hmissing d hd]
    rfl
  have hbefore : crlf ((missing s).flatMap (· ++ ['\n']))
      = (missing s).flatMap (· ++ ['\r', '\n']) := by
    refine crlf_flatMap fun d hd => ?_
    rw [Text.crlf_append, hmissing d hd]
    rfl
  simp only [addUsings]
  rw [newline_crlf hcr hlf, newline_of_notMem hcr, missing_crlf, lines_crlf, ← hbehind,
    insertAfterUsings?_crlfLines _ newline_notMem_lines]
  cases insertAfterUsings? ((missing s).flatMap (['\n'] ++ ·)) (lines s) with
  | some ks => exact (crlf_unlines ks).symm
  | none =>
    show (missing s).flatMap (· ++ ['\r', '\n']) ++ crlf s
      = crlf ((missing s).flatMap (· ++ ['\n']) ++ s)
    rw [← hbefore, Text.crlf_append]

/-! ### Comments and the pragma -/

theorem isComment_concat (l : List Char) : isComment (l ++ ['\r']) = isComment l := by
  rw [isComment, dropWhile_concat (by decide), Bool.eq_iff_iff, List.isPrefixOf_iff_prefix,
    Text.prefix_concat (by decide), ← List.isPrefixOf_iff_prefix]
  rfl

theorem mendComment_concat (l : List Char) :
    mendComment (l ++ ['\r']) = mendComment l ++ ['\r'] := by
  rw [mendComment, mendComment, isComment_concat]
  split
  · exact Text.replaceAll_concat (by decide) (by decide)
  · rfl

theorem mem_mendComment {c : Char} (h : c ∈ mendComment l) : c ∈ "<br/>".toList ∨ c ∈ l := by
  rw [mendComment] at h
  split at h
  · exact Text.mem_replaceAll (by decide) h
  · exact .inr h

theorem addPragma_crlf (hcr : '\r' ∉ s) (hlf : '\n' ∈ s) (t : List Char) :
    addPragma (crlf s) (crlf t) = crlf (addPragma s t) := by
  have hends : '\r' ∉ pragma.toList ∧ '\n' ∉ pragma.toList ∧ pragma.toList ≠ [] := by
    rw [pragmaChars.2]
    decide
  have hpragma : crlf pragma.toList = pragma.toList := Text.crlf_of_notMem hends.2.1
  have hcontains := Text.contains_crlf hends.2.2 hends.1 hcr
  rw [hpragma] at hcontains
  rw [addPragma, addPragma, hcontains, newline_crlf hcr hlf, newline_of_notMem hcr]
  split
  · rfl
  · rw [Text.crlf_append, Text.crlf_append, hpragma]
    rfl

theorem decorate_crlf (hcr : '\r' ∉ s) (hlf : '\n' ∈ s) :
    decorate (crlf s) = crlf (decorate s) := by
  have hmem : ∀ l, '\n' ∉ l → '\n' ∉ mendComment l := fun l hl h =>
    (mem_mendComment h).elim (by decide) hl
  rw [decorate, addUsings_crlf hcr hlf, lines_crlf,
    map_crlfLines mendComment_concat hmem newline_notMem_lines, ← crlf_unlines,
    addPragma_crlf hcr hlf]
  rfl

/-! ### No carriage return comes in -/

theorem notMem_unlines (h : ∀ l ∈ ls, '\r' ∉ l) : '\r' ∉ unlines ls := by
  induction ls with
  | nil => simp [unlines]
  | cons l ls ih =>
    have hl := h l (List.mem_cons_self ..)
    have hrest := ih fun k hk => h k (List.mem_cons_of_mem l hk)
    by_cases hls : ls = []
    · simpa [hls, unlines] using hl
    · rw [unlines_cons l hls]
      simp [hl, hrest]

theorem notMem_lines (hs : '\r' ∉ s) : ∀ l ∈ lines s, '\r' ∉ l := fun l hl h =>
  hs (mem_lines.1 ⟨l, hl, h⟩).1

theorem notMem_insertAfterUsings? {text : List Char} {ks : List (List Char)} (htext : '\r' ∉ text)
    (h : ∀ l ∈ ls, '\r' ∉ l) (hks : insertAfterUsings? text ls = some ks) :
    ∀ k ∈ ks, '\r' ∉ k := by
  induction ls generalizing ks with
  | nil => nomatch hks
  | cons l ls ih =>
    have hl := h l (List.mem_cons_self ..)
    have hls : ∀ k ∈ ls, '\r' ∉ k := fun k hk => h k (List.mem_cons_of_mem l hk)
    cases hms : insertAfterUsings? text ls with
    | some ms =>
      rw [insertAfterUsings?_cons_of_some l hms, Option.some.injEq] at hks
      rw [← hks, List.forall_mem_cons]
      exact ⟨hl, ih hls hms⟩
    | none =>
      rw [insertAfterUsings?_cons_of_none l hms] at hks
      obtain ⟨n, -, rfl⟩ := Option.map_eq_some_iff.1 hks
      have htake : '\r' ∉ l.take n := fun h => hl (List.mem_of_mem_take h)
      have hdrop : '\r' ∉ l.drop n := fun h => hl (List.mem_of_mem_drop h)
      rw [List.forall_mem_cons]
      exact ⟨by simp [htake, htext, hdrop], hls⟩

theorem notMem_addUsings (hs : '\r' ∉ s) : '\r' ∉ addUsings s := by
  have hmissing : ∀ d ∈ missing s, '\r' ∉ d := fun d hd => (notMem_of_mem_missing d hd).2
  simp only [addUsings]
  rw [newline_of_notMem hs]
  split
  · next ks hks =>
    refine notMem_unlines (notMem_insertAfterUsings? ?_ (notMem_lines hs) hks)
    simpa using hmissing
  · simpa [hs] using hmissing

theorem notMem_decorate (hs : '\r' ∉ s) : '\r' ∉ decorate s := by
  have hpragma : '\r' ∉ pragma.toList := by
    rw [pragmaChars.2]
    decide
  have hmended : '\r' ∉ unlines ((lines (addUsings s)).map mendComment) := by
    refine notMem_unlines fun k hk => ?_
    obtain ⟨l, hl, rfl⟩ := List.mem_map.1 hk
    exact fun h => (mem_mendComment h).elim (by decide) (notMem_lines (notMem_addUsings hs) l hl)
  rw [decorate, addPragma, newline_of_notMem hs]
  split
  · exact hmended
  · simp [hpragma, hmended]

end Bindery.Decoration
