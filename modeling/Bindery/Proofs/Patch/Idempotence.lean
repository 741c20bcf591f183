import Bindery.Proofs.Patch.Directives
import Mathlib.Data.List.Nodup

/-!
# Decorating a source again

A decorated source has the pragma, and its comments have nothing left to mend. Whether it has all
directives depends on what stood behind the last directive on its line: that stands behind the last
added directive afterwards, which then has no line of its own and counts as missing.
-/

namespace Bindery.Decoration

variable {s l p : List Char} {ls : List (List Char)} {u : String}

/-- The added directive that gets no line of its own, as what stood behind the last directive comes
behind it. Where the two are the same, the line of the one that was there counts for both. -/
def displaced? (s : List Char) : Option (List Char) :=
  match lastUsing? (lines s) with
  | some (d, rest) =>
    if rest.all Text.isBlank then none else (missing s).getLast?.filter fun v => v ≠ d
  | none => none

/-! ### Comments -/

theorem isComment_iff :
    isComment l = true ↔
      ∃ indent t, (∀ c ∈ indent, c = ' ' ∨ c = '\t') ∧ l = indent ++ ("///".toList ++ t) := by
  rw [isComment, List.isPrefixOf_iff_prefix]
  constructor
  · rintro ⟨t, ht⟩
    refine ⟨l.takeWhile fun c => c = ' ' || c = '\t', t, fun c hc => ?_, ?_⟩
    · have hblank := List.mem_takeWhile_imp hc
      simpa using hblank
    · rw [ht, List.takeWhile_append_dropWhile]
  · rintro ⟨indent, t, hindent, rfl⟩
    rw [List.dropWhile_append_of_pos (by simpa using hindent)]
    exact List.prefix_append _ _

theorem not_isComment_cons {c : Char} (hc : c ≠ ' ' ∧ c ≠ '\t' ∧ c ≠ '/') (t : List Char) :
    isComment (c :: t) = false := by
  rw [Bool.eq_false_iff, ne_eq, isComment_iff]
  rintro ⟨indent, t, hindent, h⟩
  cases indent with
  | nil => exact hc.2.2 (List.cons.inj h).1
  | cons d indent =>
    rcases hindent d (List.mem_cons_self ..) with rfl | rfl
    · exact hc.1 (List.cons.inj h).1
    · exact hc.2.1 (List.cons.inj h).1

theorem not_isComment_of_using (h : "using ".toList <+: l) : isComment l = false := by
  obtain ⟨t, rfl⟩ := h
  exact not_isComment_cons (by decide) _

theorem isComment_mendComment (l : List Char) : isComment (mendComment l) = isComment l := by
  by_cases h : isComment l = true
  · obtain ⟨indent, t, hindent, hl⟩ := isComment_iff.1 h
    have hamp : '&' ∉ indent ++ "///".toList := by
      have h := fun h => hindent '&' h
      simpa using h
    rw [h, mendComment, if_pos h, hl, ← List.append_assoc, isComment_iff]
    refine ⟨indent, Text.replaceAll "&lt;br/&gt;".toList "<br/>".toList t, hindent, ?_⟩
    rw [← List.append_assoc]
    exact Text.replaceAll_append hamp
  · rw [mendComment, if_neg h]

theorem mendComment_mendComment (l : List Char) :
    mendComment (mendComment l) = mendComment l := by
  rw [mendComment, isComment_mendComment]
  split
  · next h =>
    rw [mendComment, if_pos h]
    have hmended := Text.not_occurs_replaceAll (p := "&lt;br/&gt;".toList) (c := '<')
      (m := ['b', 'r', '/']) (e := '>') (s := l) (by decide) (by decide) (by decide) (by decide)
    exact Text.replaceAll_of_not_occurs (by decide) hmended
  · rfl

theorem usingLength?_of_not_using (h : ¬ "using ".toList <+: l) : usingLength? l = none := by
  rw [← List.isPrefixOf_iff_prefix] at h
  simp only [usingLength?]
  rw [if_neg h]

theorem usingLength?_mendComment (l : List Char) :
    usingLength? (mendComment l) = usingLength? l := by
  by_cases h : isComment l = true
  · have hnot : ∀ k, isComment k = true → ¬ "using ".toList <+: k := fun k hk hu => by
      rw [not_isComment_of_using hu] at hk
      nomatch hk
    rw [usingLength?_of_not_using (hnot l h),
      usingLength?_of_not_using (hnot _ ((isComment_mendComment l).trans h))]
  · rw [mendComment, if_neg h]

/-! ### The pragma -/

theorem pragma_begins : ∃ cs, pragma.toList = '#' :: cs := ⟨_, pragmaChars.2⟩

/-- What else is asked of the characters of the pragma. -/
theorem pragma_characters :
    '\n' ∉ pragma.toList ∧ '&' ∉ pragma.toList ∧ ';' ∉ pragma.toList ∧
      ¬ pragma.toList.length ≤ 9 := by
  rw [pragmaChars.2]
  decide

theorem not_isComment_of_pragma (h : pragma.toList <+: l) : isComment l = false := by
  obtain ⟨t, rfl⟩ := h
  obtain ⟨cs, hcs⟩ := pragma_begins
  rw [hcs]
  exact not_isComment_cons (by decide) _

theorem not_using_of_pragma (h : pragma.toList <+: l) : ¬ "using ".toList <+: l := by
  obtain ⟨t, rfl⟩ := h
  obtain ⟨cs, hcs⟩ := pragma_begins
  rw [hcs]
  exact fun h => absurd (List.cons_prefix_cons.1 h).1 (by decide)

theorem occurs_mendComment (h : pragma.toList <:+: l) : pragma.toList <:+: mendComment l := by
  obtain ⟨-, hamp, hsemi, hlength⟩ := pragma_characters
  rw [mendComment]
  split
  · exact Text.occurs_replaceAll (m := "lt;br/&gt".toList) hamp hsemi
      (fun h => hlength h.length_le) h
  · exact h

/-! ### The directives of the extended text -/

theorem hasUsing_iff : hasUsing s u = true ↔ ∃ l ∈ lines s, Text.trimEnd l = u.toList := by
  simp [hasUsing]

theorem mem_missing_iff (hu : u ∈ usings) : u.toList ∈ missing s ↔ ¬ hasUsing s u = true := by
  simp [missing, hu, String.toList_inj]

theorem nodup_missing (s : List Char) : (missing s).Nodup := by
  have husings : usings.Nodup := by decide
  exact List.Nodup.map (fun _ _ => String.toList_inj.1) (husings.filter _)

theorem trimEnd_eq_nil_iff : Text.trimEnd l = [] ↔ ∀ c ∈ l, Text.isBlank c = true := by
  simp [Text.trimEnd, List.dropWhile_eq_nil_iff]

theorem trimEnd_directive_of_blank {d eol : List Char} (hd : IsDirective d)
    (heol : ∀ c ∈ eol, c = '\r') : Text.trimEnd (d ++ eol) = d := by
  have hblank : ∀ c ∈ eol, Text.isBlank c = true := fun c hc => by
    rw [heol c hc]
    decide
  rw [trimEnd_directive hd, trimEnd_eq_nil_iff.2 hblank, List.append_nil]

theorem displaced?_of_missing (h : missing s = []) : displaced? s = none := by
  rw [displaced?, h]
  split
  · split <;> rfl
  · rfl

theorem displaced?_eq_some_iff {d rest v w : List Char} {init : List (List Char)}
    (hlast : lastUsing? (lines s) = some (d, rest)) (hmissing : missing s = init ++ [v]) :
    displaced? s = some w ↔ Text.trimEnd rest ≠ [] ∧ v ≠ d ∧ v = w := by
  have hblank : rest.all Text.isBlank = true ↔ Text.trimEnd rest = [] := by
    rw [List.all_eq_true, trimEnd_eq_nil_iff]
  simp only [displaced?, hlast, hmissing, List.getLast?_concat, hblank]
  by_cases hrest : Text.trimEnd rest = []
  · simp [hrest]
  · simp only [hrest, if_false, Option.filter_eq_some_iff, Option.some.injEq, decide_eq_true_eq,
      ne_eq, not_false_eq_true, true_and]
    exact ⟨fun ⟨h, hd⟩ => ⟨h ▸ hd, h⟩, fun ⟨hd, h⟩ => ⟨h, h ▸ hd⟩⟩

theorem mem_missing_of_displaced? {v : List Char} (h : displaced? s = some v) : v ∈ missing s := by
  rw [displaced?] at h
  split at h
  · split at h
    · nomatch h
    · exact List.mem_of_getLast? (Option.filter_eq_some_iff.1 h).1
  · nomatch h

section Lines

variable {pre post init : List (List Char)} {d e rest eol : List Char}

theorem exists_line_append_cons (he : IsDirective e) (hd : IsDirective d) :
    (∃ l ∈ pre ++ (e ++ rest) :: post, Text.trimEnd l = d) ↔
      (∃ l ∈ pre ++ post, Text.trimEnd l = d) ∨ e = d ∧ Text.trimEnd rest = [] := by
  rw [← append_eq_directive_iff he hd, ← trimEnd_directive he]
  simp only [List.mem_append, List.mem_cons]
  grind

theorem exists_line_ended (hdirs : ∀ e ∈ init, IsDirective e) (heol : ∀ c ∈ eol, c = '\r') :
    (∃ l ∈ init.map (· ++ eol), Text.trimEnd l = d) ↔ d ∈ init := by
  constructor
  · rintro ⟨l, hl, rfl⟩
    obtain ⟨e, he, rfl⟩ := List.mem_map.1 hl
    rwa [trimEnd_directive_of_blank (hdirs e he) heol]
  · intro hd
    exact ⟨d ++ eol, List.mem_map_of_mem hd, trimEnd_directive_of_blank (hdirs d hd) heol⟩

end Lines

/-- After the directives are added every one has a line of its own but the displaced one. -/
theorem exists_line_iff_of_extends (h : Extends s ls) (hu : u ∈ usings) :
    (∃ l ∈ ls, Text.trimEnd l = u.toList) ↔ displaced? s ≠ some u.toList := by
  have hdir := isDirective_of_mem_usings u hu
  have hmem := mem_missing_iff (s := s) hu
  have hdirs : ∀ e ∈ missing s, IsDirective e := fun e => isDirective_of_mem_missing
  rw [hasUsing_iff] at hmem
  cases h with
  | nothing hmissing =>
    rw [hmissing] at hmem
    simpa [displaced?_of_missing hmissing] using hmem
  | front eol heol hnone =>
    have hdisplaced : displaced? s = none := by rw [displaced?, hnone]
    have hadded := exists_line_ended (d := u.toList) hdirs heol
    rw [hdisplaced]
    simp only [List.mem_append, or_and_right, exists_or, hadded, hmem]
    exact iff_of_true ((em' _).imp_left id) (Option.some_ne_none _).symm
  | @behind pre init post d rest v eol heol hlines hd hpost hmissing =>
    have hlast : lastUsing? (lines s) = some (d, rest) := hlines ▸ lastUsing?_append_cons hd hpost
    have hnodup : (init ++ [v]).Nodup := hmissing ▸ nodup_missing s
    rw [hmissing] at hmem hdirs
    have hv : IsDirective v := hdirs v (by simp)
    have hinit : ∀ e ∈ d :: init, IsDirective e :=
      List.forall_mem_cons.2 ⟨hd, fun e he => hdirs e (List.mem_append_left _ he)⟩
    have hnew : v ∉ init := fun h => (List.nodup_append.1 hnodup).2.2 v h v (by simp) rfl
    have hadded := exists_line_ended (d := u.toList) hinit heol
    rw [hlines, exists_line_append_cons hd hdir] at hmem
    rw [ne_eq, displaced?_eq_some_iff hlast hmissing, ← List.append_assoc,
      exists_line_append_cons hv hdir]
    simp only [List.mem_append, or_and_right, exists_or, hadded] at hmem ⊢
    clear hadded hlast hlines hpost hmissing hnodup hdirs hinit
    grind

/-! ### The lines of the decorated text -/

theorem lines_decorate (s : List Char) :
    ∃ top, (∀ k ∈ top, pragma.toList <+: k) ∧ (top = [] → pragma.toList <:+: s) ∧
      lines (decorate s) = top ++ (lines (addUsings s)).map mendComment := by
  have hmem : ∀ k ∈ (lines (addUsings s)).map mendComment, '\n' ∉ k := by
    intro k hk
    obtain ⟨l, hl, rfl⟩ := List.mem_map.1 hk
    exact fun h => (mem_mendComment h).elim (by decide) (newline_notMem_lines l hl)
  have hlines := lines_unlines (List.map_eq_nil_iff.not.2 (lines_ne_nil (addUsings s))) hmem
  rw [decorate, addPragma]
  split
  · next h => exact ⟨[], by simp, fun _ => Text.contains_iff_cut?.1 h, hlines⟩
  · obtain ⟨eol, hnewline, heol⟩ := exists_newline s
    have hpragma := pragma_characters.1
    have hend : '\n' ∉ pragma.toList ++ eol := by
      have h := fun h => heol '\n' h
      simpa [hpragma] using h
    refine ⟨[pragma.toList ++ eol], by simp, by simp, ?_⟩
    rw [hnewline, ← List.append_assoc, List.append_assoc, List.singleton_append,
      lines_append_cons, lines_of_notMem hend, hlines]

theorem trimEnd_begins (l : List Char) : Text.trimEnd l <+: l := by
  have h := List.dropWhile_suffix Text.isBlank (l := l.reverse)
  rwa [← List.reverse_prefix, List.reverse_reverse] at h

theorem using_of_trimEnd (hu : u ∈ usings) (h : Text.trimEnd l = u.toList) :
    "using ".toList <+: l := by
  have hd := using_begins (isDirective_of_mem_usings u hu) []
  rw [List.append_nil, ← h] at hd
  exact hd.trans (trimEnd_begins l)

theorem mendComment_of_using (h : "using ".toList <+: l) : mendComment l = l := by
  rw [mendComment, not_isComment_of_using h, if_neg Bool.false_ne_true]

theorem trimEnd_mendComment_iff (hu : u ∈ usings) :
    Text.trimEnd (mendComment l) = u.toList ↔ Text.trimEnd l = u.toList := by
  constructor
  · intro h
    have hcomment := not_isComment_of_using (using_of_trimEnd hu h)
    rw [isComment_mendComment] at hcomment
    rwa [mendComment, hcomment, if_neg Bool.false_ne_true] at h
  · intro h
    rwa [mendComment_of_using (using_of_trimEnd hu h)]

theorem hasUsing_decorate (hu : u ∈ usings) :
    hasUsing (decorate s) u = true ↔ displaced? s ≠ some u.toList := by
  obtain ⟨top, htop, -, hlines⟩ := lines_decorate s
  have hnone : ¬ ∃ k ∈ top, Text.trimEnd k = u.toList := fun ⟨k, hk, h⟩ =>
    not_using_of_pragma (htop k hk) (using_of_trimEnd hu h)
  rw [← exists_line_iff_of_extends (extends_addUsings s) hu, hasUsing_iff, hlines]
  simp only [List.mem_append, or_and_right, exists_or, hnone, false_or, List.mem_map,
    exists_exists_and_eq_and, trimEnd_mendComment_iff hu]

/-- The directives that the decorated text lacks. -/
theorem missing_decorate (s : List Char) : missing (decorate s) = (displaced? s).toList := by
  have hfilter : missing (decorate s)
      = (usings.map String.toList).filter fun d => displaced? s = some d := by
    rw [missing, List.filter_map]
    congr 1
    refine List.filter_congr fun u hu => ?_
    rw [Bool.eq_iff_iff, Bool.not_eq_true', ← Bool.not_eq_true, hasUsing_decorate hu]
    simp
  have hsingle : ∀ d ∈ usings.map String.toList,
      ((usings.map String.toList).filter fun e => some d = some e) = [d] := by
    rw [usingsChars.2]
    decide
  rw [hfilter]
  cases h : displaced? s with
  | none => simp
  | some d =>
    have hmem := mem_missing_of_displaced? h
    rw [missing_eq_filter] at hmem
    exact hsingle d (List.mem_filter.1 hmem).1

/-- What stands behind the last directive of a decorated text comes behind the directive that is
missing, so that one is not displaced again. -/
theorem displaced?_decorate (s : List Char) : displaced? (decorate s) = none := by
  have hmissing := missing_decorate s
  cases h : displaced? s with
  | none => exact displaced?_of_missing (by rw [hmissing, h]; rfl)
  | some v =>
    rw [h] at hmissing
    obtain ⟨top, -, -, hlines⟩ := lines_decorate s
    have hext := extends_addUsings s
    generalize lines (addUsings s) = ls at hext hlines
    cases hext with
    | nothing hnone => rw [displaced?_of_missing hnone] at h; nomatch h
    | front eol heol hnone => rw [displaced?, hnone] at h; nomatch h
    | @behind pre init post d rest w eol heol hold hd hpost hadded =>
      have hlast : lastUsing? (lines s) = some (d, rest) := hold ▸ lastUsing?_append_cons hd hpost
      obtain ⟨-, -, rfl⟩ := (displaced?_eq_some_iff hlast hadded).1 h
      have hw : IsDirective w := isDirective_of_mem_missing (mem_missing_of_displaced? h)
      have hpost' : ∀ l ∈ post.map mendComment, usingLength? l = none := by
        intro l hl
        obtain ⟨k, hk, rfl⟩ := List.mem_map.1 hl
        rw [usingLength?_mendComment, hpost k hk]
      have hlast' : lastUsing? (lines (decorate s)) = some (w, rest) := by
        rw [hlines, List.map_append, List.map_append, List.map_cons (a := w ++ rest),
          mendComment_of_using (using_begins hw rest), ← List.append_assoc, ← List.append_assoc]
        exact lastUsing?_append_cons hw hpost'
      have hmissing' : missing (decorate s) = [] ++ [w] := hmissing
      refine Option.eq_none_iff_forall_ne_some.2 fun k hk => ?_
      exact ((displaced?_eq_some_iff hlast' hmissing').1 hk).2.1 rfl

/-! ### Nothing else is left to do -/

theorem occurs_unlines (hp : '\n' ∉ p) (h : ls ≠ []) :
    p <:+: unlines ls ↔ ∃ l ∈ ls, p <:+: l := by
  induction ls with
  | nil => exact absurd rfl h
  | cons l ls ih =>
    by_cases hls : ls = []
    · simp [hls, unlines]
    · rw [unlines_cons l hls, Text.occurs_append_cons hp, ih hls]
      simp

theorem occurs_iff_exists_line (hp : '\n' ∉ p) : p <:+: s ↔ ∃ l ∈ lines s, p <:+: l := by
  rw [← occurs_unlines hp (lines_ne_nil s), unlines_lines]

theorem occurs_of_extends (hsemi : ';' ∉ p) (h : Extends s ls) (hs : ∃ l ∈ lines s, p <:+: l) :
    ∃ l ∈ ls, p <:+: l := by
  obtain ⟨l, hl, hp⟩ := hs
  cases h with
  | nothing hmissing => exact ⟨l, hl, hp⟩
  | front eol heol hnone => exact ⟨l, List.mem_append_right _ hl, hp⟩
  | @behind pre init post d rest v eol heol hlines hd hpost hmissing =>
    rw [hlines, List.mem_append, List.mem_cons] at hl
    rcases hl with hl | rfl | hl
    · exact ⟨l, List.mem_append_left _ hl, hp⟩
    · obtain ⟨name, -, -, -, rfl⟩ := hd
      -- what the line has stands before the semicolon or behind it
      rw [List.append_assoc, List.append_assoc, List.singleton_append, ← List.append_assoc,
        Text.occurs_append_cons hsemi] at hp
      rcases hp with hp | hp
      · refine ⟨_, List.mem_append_right _ (List.mem_append_left _ (List.mem_cons_self ..)), ?_⟩
        exact hp.trans ⟨[], [';'] ++ eol, by simp⟩
      · refine ⟨v ++ rest, by simp, hp.trans (List.suffix_append v rest).isInfix⟩
    · exact ⟨l, by simp [hl], hp⟩

theorem pragma_occurs_decorate (s : List Char) : pragma.toList <:+: decorate s := by
  obtain ⟨hnewline, -, hsemi, -⟩ := pragma_characters
  obtain ⟨top, htop, hs, hlines⟩ := lines_decorate s
  rw [occurs_iff_exists_line hnewline, hlines]
  by_cases h : top = []
  · obtain ⟨l, hl, hp⟩ := occurs_of_extends hsemi (extends_addUsings s)
      ((occurs_iff_exists_line hnewline).1 (hs h))
    exact ⟨mendComment l, List.mem_append_right _ (List.mem_map_of_mem hl), occurs_mendComment hp⟩
  · obtain ⟨k, ks, rfl⟩ := List.exists_cons_of_ne_nil h
    exact ⟨k, by simp, (htop k (List.mem_cons_self ..)).isInfix⟩

theorem mendComment_ended {ds : List (List Char)} {eol : List Char}
    (hds : ∀ d ∈ ds, IsDirective d) : ∀ l ∈ ds.map (· ++ eol), mendComment l = l := by
  intro l hl
  obtain ⟨d, hd, rfl⟩ := List.mem_map.1 hl
  exact mendComment_of_using (using_begins (hds d hd) eol)

theorem mendComment_of_extends (h : Extends s ls) (hs : ∀ l ∈ lines s, mendComment l = l) :
    ∀ l ∈ ls, mendComment l = l := by
  have hmissing : ∀ d ∈ missing s, IsDirective d := fun d => isDirective_of_mem_missing
  cases h with
  | nothing _ => exact hs
  | front eol heol hnone =>
    exact List.forall_mem_append.2 ⟨mendComment_ended hmissing, hs⟩
  | @behind pre init post d rest v eol heol hlines hd hpost hadded =>
    rw [hlines, List.forall_mem_append, List.forall_mem_cons] at hs
    rw [hadded] at hmissing
    have hinit : ∀ e ∈ d :: init, IsDirective e :=
      List.forall_mem_cons.2 ⟨hd, fun e he => hmissing e (List.mem_append_left _ he)⟩
    have hv := mendComment_of_using (using_begins (hmissing v (by simp)) rest)
    exact List.forall_mem_append.2 ⟨hs.1,
      List.forall_mem_append.2 ⟨mendComment_ended hinit, List.forall_mem_cons.2 ⟨hv, hs.2.2⟩⟩⟩

theorem mendComment_of_mem_lines_decorate : ∀ l ∈ lines (decorate s), mendComment l = l := by
  obtain ⟨top, htop, -, hlines⟩ := lines_decorate s
  rw [hlines, List.forall_mem_append]
  constructor
  · intro k hk
    rw [mendComment, not_isComment_of_pragma (htop k hk), if_neg Bool.false_ne_true]
  · rintro k hk
    obtain ⟨l, -, rfl⟩ := List.mem_map.1 hk
    exact mendComment_mendComment l

/-- A decorated text may lack directives, but nothing else. -/
theorem decorate_decorate_eq_addUsings (s : List Char) :
    decorate (decorate s) = addUsings (decorate s) := by
  have hpragma : Text.contains pragma.toList (decorate s) = true :=
    Text.contains_iff_cut?.2 (pragma_occurs_decorate s)
  have hmended := mendComment_of_extends (extends_addUsings (decorate s))
    mendComment_of_mem_lines_decorate
  rw [decorate.eq_1 (decorate s), addPragma, if_pos hpragma, List.map_congr_left hmended,
    List.map_id', unlines_lines]

theorem addUsings_eq_self_iff : addUsings s = s ↔ missing s = [] := by
  have hext := extends_addUsings s
  generalize hls : lines (addUsings s) = ls at hext
  have hself : addUsings s = s ↔ ls = lines s := by
    rw [← hls]
    exact ⟨congrArg lines, fun h => by rw [← unlines_lines (addUsings s), h, unlines_lines]⟩
  rw [hself]
  cases hext with
  | nothing hmissing => exact iff_of_true rfl hmissing
  | front eol heol hnone => simp
  | @behind pre init post d rest v eol heol hlines hd hpost hmissing =>
    refine iff_of_false (fun h => ?_) (by simp [hmissing])
    have hlength := congrArg List.length h
    rw [hlines] at hlength
    simp at hlength
    omega

/-- A second decoration changes a text just if the first one displaced a directive, and all that it
does then is to add that directive again. A third one changes nothing. -/
theorem decorate_twice (s : List Char) :
    (decorate (decorate s) = decorate s ↔ displaced? s = none) ∧
      decorate (decorate s) = addUsings (decorate s) ∧
      missing (decorate s) = (displaced? s).toList ∧
      decorate (decorate (decorate s)) = decorate (decorate s) := by
  have hagain : ∀ t, decorate (decorate t) = decorate t ↔ displaced? t = none := fun t => by
    rw [decorate_decorate_eq_addUsings, addUsings_eq_self_iff, missing_decorate,
      Option.toList_eq_nil_iff]
  exact ⟨hagain s, decorate_decorate_eq_addUsings s, missing_decorate s,
    (hagain (decorate s)).2 (displaced?_decorate s)⟩

/-- A comment behind the last directive displaces one. -/
theorem decorate_twice_ne_of_comment :
    decorate (decorate "using System; // x".toList) ≠ decorate "using System; // x".toList := by
  rw [decorate_eq_of_chars pragmaChars.2 usingsChars.2,
    decorate_eq_of_chars pragmaChars.2 usingsChars.2]
  decide +kernel

end Bindery.Decoration
