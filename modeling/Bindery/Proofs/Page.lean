import Mathlib.Data.List.Basic
import Bindery.Proofs.Text.Lines
import Bindery.Summary

/-!
# The page of a summary

The page can be taken apart again: into its lines, because no name has a line end; the lines into
rows and sections, which blank lines end; and a line into its names, by the bars or the backticks
around them. So a page belongs to one summary only.
-/

namespace Bindery.RunSummary

variable {s t : RunSummary} {title n n' l : String} {es es' : List String}

/-- A name that may stand on a page: without line end, backtick and bar. -/
def IsWord (n : String) : Prop := '\n' ∉ n.toList ∧ '`' ∉ n.toList ∧ '|' ∉ n.toList

instance (n : String) : Decidable (IsWord n) := inferInstanceAs (Decidable (_ ∧ _ ∧ _))

/-- All names of the summary may stand on a page. -/
structure HasWords (s : RunSummary) : Prop where
  moduleName : IsWord s.moduleName
  primaryUnit : IsWord s.primaryUnit
  passes : ∀ p ∈ s.passes, IsWord p.name
  ignored : ∀ e ∈ s.ignored, IsWord e.2
  bitmasks : ∀ e ∈ s.bitmasks, IsWord e
  readOnly : ∀ e ∈ s.readOnly, IsWord e
  delegates : ∀ e ∈ s.delegates, IsWord e.1 ∧ IsWord e.2

/-! ### Lines -/

/-- The lines of the page. -/
def lines (s : RunSummary) : List String :=
  (s.markdown.toList.splitOn '\n').map String.ofList

/-- A line that shows an entry. -/
def IsBullet (l : String) : Prop := "- ".toList <+: l.toList

instance : DecidablePred IsBullet := fun l => inferInstanceAs (Decidable (_ <+: l.toList))

/-- A heading that announces `n` entries, and between blank lines as many bullets as that, or
`_none_` for no entries. -/
def IsSection (title : String) (n : Nat) (ls : List String) : Prop :=
  ∃ body, ls = ("## " ++ title ++ " (" ++ toString n ++ ")") :: "" :: (body ++ [""]) ∧
    (∀ l ∈ body, IsBullet l ∨ l = "_none_") ∧ (body.filter IsBullet).length = n ∧
    ("_none_" ∈ body ↔ n = 0)

def bodyLines (es : List String) : List String :=
  if es.isEmpty then ["_none_"] else es.map ("- " ++ ·)

def sectionLines (title : String) (es : List String) : List String :=
  ("## " ++ title ++ " (" ++ toString es.length ++ ")") :: "" :: (bodyLines es ++ [""])

def ignoredEntry (e : Kind × String) : String := e.1.label ++ " " ++ code e.2

def delegateEntry (e : String × String) : String := code e.1 ++ " → " ++ code e.2

def rowLine (n : Nat) (p : PassReport) : String :=
  "| " ++ toString n ++ " | " ++ p.phase.label ++ " | " ++ p.name ++ " | " ++
    toString p.changes ++ " |"

def rowLines : Nat → List PassReport → List String
  | _, [] => []
  | n, p :: ps => rowLine n p :: rowLines (n + 1) ps

def unitLine (s : RunSummary) : String :=
  "Primary unit " ++ code s.primaryUnit ++ ", " ++ toString s.synthesized ++
    " declarations synthesized by the toolchain build."

/-- The lines before the sections. -/
def topLines (s : RunSummary) : List String :=
  ("# " ++ s.moduleName ++ " bindings (" ++ s.variant.label ++ ")") :: "" :: unitLine s :: "" ::
    "## Passes" :: "" :: "| # | phase | pass | changes |" :: "|---|-------|------|---------|" ::
    (rowLines 1 s.passes ++ [""])

/-- The text of some lines. -/
def ended (ls : List String) : String := String.join (ls.map (· ++ "\n"))

@[simp] theorem ended_nil : ended [] = "" := rfl

@[simp] theorem ended_cons (l : String) (ls : List String) :
    ended (l :: ls) = l ++ "\n" ++ ended ls := by
  rw [ended, List.map_cons, String.join_cons, ended]

@[simp] theorem ended_append (ls ks : List String) : ended (ls ++ ks) = ended ls ++ ended ks := by
  rw [ended, List.map_append, String.join_append, ended, ended]

theorem join_passRows : ∀ (n : Nat) (ps : List PassReport),
    String.join (passRows n ps) = ended (rowLines n ps)
  | _, [] => rfl
  | n, p :: ps => by
    show String.join ((_ ++ (" |" ++ "\n")) :: _) = _
    unfold rowLines rowLine
    simp only [String.join_cons, join_passRows, ended_cons, String.append_assoc]

theorem pageSection_eq (title : String) (es : List String) :
    pageSection title es = ended (sectionLines title es) := by
  have hbody : (if es.isEmpty then "_none_\n" else String.join (es.map fun e => "- " ++ e ++ "\n"))
      = ended (bodyLines es) := by
    rw [bodyLines]
    split
    · rfl
    · rw [ended, List.map_map]
      rfl
  show "## " ++ title ++ " (" ++ toString es.length ++ (")" ++ "\n" ++ "\n") ++ _ ++ "\n" = _
  unfold sectionLines
  rw [hbody]
  simp only [ended_cons, ended_append, ended_nil, String.append_assoc, String.empty_append,
    String.append_empty]

/-- All lines of the page but the empty one behind the last line end. -/
def pageLines (s : RunSummary) : List String :=
  topLines s ++ (sectionLines "Ignored declarations" (s.ignored.map ignoredEntry) ++
    (sectionLines "Bitmask enumerations" (s.bitmasks.map code) ++
    (sectionLines "Read-only properties" (s.readOnly.map code) ++
    sectionLines "Renamed delegates" (s.delegates.map delegateEntry))))

theorem ended_topLines (s : RunSummary) : ended (topLines s) =
    "# " ++ s.moduleName ++ " bindings (" ++ s.variant.label ++ ")\n\n" ++
      "Primary unit " ++ code s.primaryUnit ++ ", " ++ toString s.synthesized ++
      " declarations synthesized by the toolchain build.\n\n" ++ "## Passes\n\n" ++
      "| # | phase | pass | changes |\n|---|-------|------|---------|\n" ++
      String.join (passRows 1 s.passes) ++ "\n" := by
  show _ = "# " ++ s.moduleName ++ " bindings (" ++ s.variant.label ++ (")" ++ "\n" ++ "\n") ++
      "Primary unit " ++ code s.primaryUnit ++ ", " ++ toString s.synthesized ++
      (" declarations synthesized by the toolchain build." ++ "\n" ++ "\n") ++
      ("## Passes" ++ "\n" ++ "\n") ++ ("| # | phase | pass | changes |" ++ "\n" ++
      "|---|-------|------|---------|" ++ "\n") ++ String.join (passRows 1 s.passes) ++ "\n"
  unfold topLines unitLine
  simp only [join_passRows, ended_cons, ended_append, ended_nil, String.append_assoc,
    String.empty_append, String.append_empty]

theorem markdown_eq (s : RunSummary) : s.markdown = ended (pageLines s) := by
  unfold markdown
  rw [pageLines, ended_append, ended_append, ended_append, ended_append, ended_topLines]
  simp only [← pageSection_eq, ← String.append_assoc]
  rfl

/-! ### Lines without line ends -/

def IsOneLine (l : String) : Prop := '\n' ∉ l.toList

instance (l : String) : Decidable (IsOneLine l) := inferInstanceAs (Decidable (¬ _))

theorem isOneLine_append {x y : String} : IsOneLine (x ++ y) ↔ IsOneLine x ∧ IsOneLine y := by
  rw [IsOneLine, String.toList_append, List.mem_append, not_or]
  exact Iff.rfl

theorem isOneLine_toString (n : Nat) : IsOneLine (toString n) := by
  intro h
  rw [show toString n = n.repr from rfl, Nat.toList_repr] at h
  exact absurd (Nat.isDigit_of_mem_toDigits (by decide) (by decide) h) (by decide)

theorem isOneLine_code : IsOneLine (code n) ↔ IsOneLine n := by
  have hmark : IsOneLine "`" := by decide
  simp only [code, isOneLine_append, hmark, true_and, and_true]

theorem isOneLine_sectionLines (htitle : IsOneLine title) (hes : ∀ e ∈ es, IsOneLine e) :
    ∀ l ∈ sectionLines title es, IsOneLine l := by
  have hbody : ∀ l ∈ bodyLines es, IsOneLine l := by
    intro l hl
    rw [bodyLines] at hl
    split at hl
    · obtain rfl := List.mem_singleton.1 hl
      decide
    · obtain ⟨e, he, rfl⟩ := List.mem_map.1 hl
      exact isOneLine_append.2 ⟨by decide, hes e he⟩
  unfold sectionLines
  simp only [List.forall_mem_cons, List.forall_mem_append, isOneLine_append, htitle,
    isOneLine_toString]
  exact ⟨by decide, by decide, hbody, by decide, List.forall_mem_nil _⟩

theorem isOneLine_rowLines : ∀ {ps : List PassReport} {n : Nat}, (∀ p ∈ ps, IsOneLine p.name) →
    ∀ l ∈ rowLines n ps, IsOneLine l
  | [], _, _ => nofun
  | p :: ps, n, h => by
    obtain ⟨hp, hps⟩ := List.forall_mem_cons.1 h
    have hphase : ∀ p : Phase, IsOneLine p.label := by intro p; cases p <;> decide
    refine List.forall_mem_cons.2 ⟨?_, isOneLine_rowLines hps⟩
    unfold rowLine
    simp only [isOneLine_append, isOneLine_toString, hphase, hp, and_true]
    decide

theorem HasWords.isOneLine_topLines (hs : s.HasWords) : ∀ l ∈ topLines s, IsOneLine l := by
  have hvariant : ∀ v : Variant, IsOneLine v.label := by intro v; cases v <;> decide
  unfold topLines unitLine
  simp only [List.forall_mem_cons, List.forall_mem_append, isOneLine_append, isOneLine_toString,
    isOneLine_code, hvariant]
  have hmodule : IsOneLine s.moduleName := hs.moduleName.1
  have hunit : IsOneLine s.primaryUnit := hs.primaryUnit.1
  have hrows := isOneLine_rowLines (n := 1) fun p hp => (hs.passes p hp).1
  simp only [hmodule, hunit, and_true]
  exact ⟨by decide, by decide, by decide, by decide, by decide, by decide, by decide, by decide,
    hrows, by decide, List.forall_mem_nil _⟩

theorem HasWords.isOneLine_pageLines (hs : s.HasWords) : ∀ l ∈ pageLines s, IsOneLine l := by
  have hkind : ∀ k : Kind, IsOneLine k.label := by intro k; cases k <;> decide
  have hmap : ∀ {α : Type} {f : α → String} {as : List α}, (∀ a ∈ as, IsOneLine (f a)) →
      ∀ l ∈ as.map f, IsOneLine l := fun h => List.forall_mem_map.2 h
  unfold pageLines
  simp only [List.forall_mem_append]
  refine ⟨hs.isOneLine_topLines,
    isOneLine_sectionLines (by decide) (hmap fun e he => ?_),
    isOneLine_sectionLines (by decide) (hmap fun e he => ?_),
    isOneLine_sectionLines (by decide) (hmap fun e he => ?_),
    isOneLine_sectionLines (by decide) (hmap fun e he => ?_)⟩
  · simp only [ignoredEntry, isOneLine_append, isOneLine_code]
    exact ⟨⟨hkind _, by decide⟩, (hs.ignored e he).1⟩
  · exact isOneLine_code.2 (hs.bitmasks e he).1
  · exact isOneLine_code.2 (hs.readOnly e he).1
  · simp only [delegateEntry, isOneLine_append, isOneLine_code]
    exact ⟨⟨(hs.delegates e he).1.1, by decide⟩, (hs.delegates e he).2.1⟩

/-- The lines of the page are those from which it is made. -/
theorem HasWords.lines_eq (hs : s.HasWords) : s.lines = pageLines s ++ [""] := by
  have hended : s.markdown.toList = ((pageLines s).map String.toList).flatMap (· ++ ['\n']) := by
    rw [markdown_eq, ended, String.toList_join, List.flatMap_map, List.flatMap_map]
    exact List.flatMap_congr fun l _ => String.toList_append
  rw [lines, hended, Text.splitOn_ended (List.forall_mem_map.2 hs.isOneLine_pageLines)]
  simp [Function.comp_def]

/-! ### Sections -/

theorem isSection_sectionLines (title : String) (es : List String) :
    IsSection title es.length (sectionLines title es) := by
  refine ⟨bodyLines es, rfl, ?_⟩
  rw [bodyLines]
  cases es with
  | nil => exact ⟨by decide, by decide, by decide⟩
  | cons e es =>
    have hbullet : ∀ l ∈ (e :: es).map ("- " ++ ·), IsBullet l := by
      refine List.forall_mem_map.2 fun e _ => ?_
      rw [IsBullet, String.toList_append]
      exact List.prefix_append _ _
    rw [List.isEmpty_cons, if_neg Bool.false_ne_true]
    refine ⟨fun l hl => Or.inl (hbullet l hl), ?_, ?_⟩
    · rw [List.filter_eq_self.2 fun l hl => decide_eq_true (hbullet l hl), List.length_map]
    · refine iff_of_false (fun h => ?_) (by simp)
      exact absurd (hbullet _ h) (by decide)

/-! ### Taking the page apart -/

theorem toString_inj {m n : Nat} (h : toString m = toString n) : m = n := by
  have hvalue := congrArg (fun l => Nat.ofDigitChars 10 (String.toList l) 0) h
  simpa [Nat.toString_eq_ofList_toDigits] using hvalue

/-- A word that stands before a mark is known from the text. -/
theorem word_inj {x y r u : String} {c : Char} (hx : c ∉ x.toList) (hy : c ∉ y.toList)
    (h : x ++ (String.singleton c ++ r) = y ++ (String.singleton c ++ u)) : x = y ∧ r = u := by
  have hchars := congrArg String.toList h
  simp only [String.toList_append, String.toList_singleton, List.singleton_append] at hchars
  obtain ⟨hword, hrest⟩ := Text.append_cons_inj hx hy hchars
  exact ⟨String.toList_inj.1 hword, String.toList_inj.1 hrest⟩

theorem code_inj {r u : String} (hn : IsWord n) (hn' : IsWord n')
    (h : code n ++ r = code n' ++ u) : n = n' ∧ r = u := by
  simp only [code, String.append_assoc, String.append_right_inj] at h
  exact word_inj hn.2.1 hn'.2.1 h

theorem map_inj_of_forall {α β : Type} {f : α → β} {p : α → Prop} {as bs : List α}
    (hf : ∀ {a b}, p a → p b → f a = f b → a = b) (has : ∀ a ∈ as, p a) (hbs : ∀ b ∈ bs, p b)
    (h : as.map f = bs.map f) : as = bs := by
  induction as generalizing bs with
  | nil => exact (List.map_eq_nil_iff.1 h.symm).symm
  | cons a as ih =>
    obtain ⟨b, bs, rfl, hb, hbs'⟩ := List.map_eq_cons_iff.1 h.symm
    obtain ⟨ha, has⟩ := List.forall_mem_cons.1 has
    obtain ⟨hpb, hbs⟩ := List.forall_mem_cons.1 hbs
    rw [hf ha hpb hb.symm, ih has hbs hbs'.symm]

theorem ignoredEntry_injective : Function.Injective ignoredEntry := by
  intro e f h
  have hkind : ∀ k : Kind, '`' ∉ (k.label ++ " ").toList := by intro k; cases k <;> decide
  have hlabel : ∀ j k : Kind, j.label ++ " " = k.label ++ " " → j = k := by
    intro j k; cases j <;> cases k <;> decide
  have hcut : ∀ e, ignoredEntry e = e.1.label ++ " " ++ ("`" ++ (e.2 ++ "`")) := fun e => by
    simp only [ignoredEntry, code, String.append_assoc]
  rw [hcut, hcut] at h
  obtain ⟨hk, hn⟩ := word_inj (hkind _) (hkind _) h
  exact Prod.ext (hlabel _ _ hk) ((String.append_left_inj _).1 hn)

theorem code_inj' (hn : IsWord n) (hn' : IsWord n') (h : code n = code n') : n = n' :=
  (code_inj (r := "") (u := "") hn hn' (by rw [h])).1

theorem delegateEntry_inj {e f : String × String} (he : IsWord e.1 ∧ IsWord e.2)
    (hf : IsWord f.1 ∧ IsWord f.2) (h : delegateEntry e = delegateEntry f) : e = f := by
  rw [delegateEntry, delegateEntry, String.append_assoc, String.append_assoc] at h
  obtain ⟨hfst, hrest⟩ := code_inj he.1 hf.1 h
  exact Prod.ext hfst (code_inj' he.2 hf.2 ((String.append_right_inj _).1 hrest))

theorem rowLine_inj {k : Nat} {p q : PassReport} (hp : IsWord p.name) (hq : IsWord q.name)
    (h : rowLine k p = rowLine k q) : p = q := by
  have hphase : ∀ p : Phase, ' ' ∉ p.label.toList := by intro p; cases p <;> decide
  have hlabel : ∀ p q : Phase, p.label = q.label → p = q := by
    intro p q; cases p <;> cases q <;> decide
  have hname : ∀ {n : String}, IsWord n → '|' ∉ (n ++ " ").toList := by
    intro n hn
    rw [String.toList_append, List.mem_append, not_or]
    exact ⟨hn.2.2, by decide⟩
  have hcut : ∀ p, rowLine k p = "| " ++ toString k ++ " | " ++ (p.phase.label ++ (" " ++ ("| " ++
      (p.name ++ " " ++ ("|" ++ (" " ++ (toString p.changes ++ " |"))))))) := fun p => by
    unfold rowLine
    rw [show " | " = " " ++ ("|" ++ " ") from rfl, show "| " = "|" ++ " " from rfl]
    simp only [String.append_assoc]
  rw [hcut, hcut, String.append_right_inj] at h
  obtain ⟨hph, h⟩ := word_inj (hphase _) (hphase _) h
  obtain ⟨hn, h⟩ := word_inj (hname hp) (hname hq) ((String.append_right_inj _).1 h)
  rw [String.append_right_inj, String.append_left_inj] at h
  cases p
  cases q
  simp only [PassReport.mk.injEq]
  exact ⟨(String.append_left_inj _).1 hn, hlabel _ _ hph, toString_inj h⟩

theorem rowLines_inj : ∀ {ps qs : List PassReport} {k : Nat}, (∀ p ∈ ps, IsWord p.name) →
    (∀ q ∈ qs, IsWord q.name) → rowLines k ps = rowLines k qs → ps = qs
  | [], [], _, _, _, _ => rfl
  | p :: ps, q :: qs, k, hps, hqs, h => by
    obtain ⟨hp, hps⟩ := List.forall_mem_cons.1 hps
    obtain ⟨hq, hqs⟩ := List.forall_mem_cons.1 hqs
    obtain ⟨hrow, hrows⟩ := List.cons.inj h
    rw [rowLine_inj hp hq hrow, rowLines_inj hps hqs hrows]

theorem bodyLines_inj (h : bodyLines es = bodyLines es') : es = es' := by
  have hbullet : ∀ {e : String}, "_none_" ≠ "- " ++ e := fun {e} h => by
    have hhead := congrArg (fun l => (String.toList l).head?) h
    rw [String.toList_append] at hhead
    exact absurd hhead (by simp)
  cases es <;> cases es' <;> simp only [bodyLines, List.isEmpty_cons, List.isEmpty_nil] at h
  · rfl
  · exact absurd (List.cons.inj h).1 hbullet
  · exact absurd (List.cons.inj h).1.symm hbullet
  · exact List.map_injective_iff.2 (fun _ _ => (String.append_right_inj _).1) h

theorem blank_notMem_bodyLines : "" ∉ bodyLines es := by
  rw [bodyLines]
  split
  · decide
  · intro h
    obtain ⟨e, -, he⟩ := List.mem_map.1 h
    exact absurd (String.append_eq_empty_iff.1 he).1 (by decide)

/-- The first section of some lines is known from them. -/
theorem sectionLines_inj {ls ls' : List String}
    (h : sectionLines title es ++ ls = sectionLines title es' ++ ls') : es = es' ∧ ls = ls' := by
  unfold sectionLines at h
  simp only [List.cons_append, List.append_assoc, List.nil_append] at h
  obtain ⟨-, h⟩ := List.cons.inj h
  obtain ⟨hbody, hls⟩ := Text.append_cons_inj blank_notMem_bodyLines blank_notMem_bodyLines
    (List.cons.inj h).2
  exact ⟨bodyLines_inj hbody, hls⟩

theorem blank_notMem_rowLines : ∀ {ps : List PassReport} {k : Nat}, "" ∉ rowLines k ps
  | [], _ => List.not_mem_nil
  | p :: ps, k => by
    have hrow : "" ≠ rowLine k p := fun h => by
      unfold rowLine at h
      exact absurd (String.append_eq_empty_iff.1 h.symm).2 (by decide)
    exact List.not_mem_cons_of_ne_of_not_mem hrow blank_notMem_rowLines

theorem unitLine_inj (hs : IsWord s.primaryUnit) (ht : IsWord t.primaryUnit)
    (h : unitLine s = unitLine t) : s.primaryUnit = t.primaryUnit ∧
      s.synthesized = t.synthesized := by
  have hcut : ∀ s, unitLine s = "Primary unit " ++ (code s.primaryUnit ++ (", " ++
      (toString s.synthesized ++ " declarations synthesized by the toolchain build."))) :=
    fun s => by
      unfold unitLine
      simp only [String.append_assoc]
  rw [hcut, hcut, String.append_right_inj] at h
  obtain ⟨hunit, h⟩ := code_inj hs ht h
  rw [String.append_right_inj, String.append_left_inj] at h
  exact ⟨hunit, toString_inj h⟩

theorem headline_inj {v w : Variant} (h : "# " ++ n ++ " bindings (" ++ v.label ++ ")" =
    "# " ++ n' ++ " bindings (" ++ w.label ++ ")") : n = n' ∧ v = w := by
  have hlabel : ∀ v w : Variant, v.label = w.label → v = w := by
    intro v w; cases v <;> cases w <;> decide
  have hlength : ∀ v w : Variant, v.label.toList.length = w.label.toList.length := by
    intro v w; cases v <;> cases w <;> decide
  have hchars : ("# " ++ n ++ " bindings (").toList ++ v.label.toList =
      ("# " ++ n' ++ " bindings (").toList ++ w.label.toList := by
    rw [← String.toList_append, ← String.toList_append, (String.append_left_inj _).1 h]
  obtain ⟨hhead, hv⟩ := List.append_inj' hchars (hlength v w)
  rw [String.toList_inj, String.append_left_inj, String.append_right_inj] at hhead
  exact ⟨hhead, hlabel v w (String.toList_inj.1 hv)⟩

theorem topLines_inj {ls ls' : List String} (hs : s.HasWords) (ht : t.HasWords)
    (h : topLines s ++ ls = topLines t ++ ls') :
    s.moduleName = t.moduleName ∧ s.variant = t.variant ∧ s.primaryUnit = t.primaryUnit ∧
      s.synthesized = t.synthesized ∧ s.passes = t.passes ∧ ls = ls' := by
  unfold topLines at h
  simp only [List.cons_append, List.append_assoc, List.nil_append, List.cons.injEq, true_and] at h
  obtain ⟨hhead, hunit, hrest⟩ := h
  obtain ⟨hmodule, hvariant⟩ := headline_inj hhead
  obtain ⟨hprimary, hsynthesized⟩ := unitLine_inj hs.primaryUnit ht.primaryUnit hunit
  obtain ⟨hrows, hls⟩ := Text.append_cons_inj blank_notMem_rowLines blank_notMem_rowLines hrest
  exact ⟨hmodule, hvariant, hprimary, hsynthesized, rowLines_inj hs.passes ht.passes hrows, hls⟩

theorem HasWords.eq_of_markdown (hs : s.HasWords) (ht : t.HasWords) (h : s.markdown = t.markdown) :
    s = t := by
  have hlines : pageLines s ++ [""] = pageLines t ++ [""] := by
    rw [← hs.lines_eq, ← ht.lines_eq, lines, lines, h]
  replace hlines := List.append_cancel_right hlines
  unfold pageLines at hlines
  obtain ⟨hmodule, hvariant, hunit, hsynthesized, hpasses, hlines⟩ := topLines_inj hs ht hlines
  obtain ⟨hignored, hlines⟩ := sectionLines_inj hlines
  obtain ⟨hbitmasks, hlines⟩ := sectionLines_inj hlines
  obtain ⟨hreadOnly, hlines⟩ := sectionLines_inj hlines
  obtain ⟨hdelegates, -⟩ := sectionLines_inj (congrArg (· ++ []) hlines)
  have hignored := List.map_injective_iff.2 ignoredEntry_injective hignored
  have hbitmasks := map_inj_of_forall code_inj' hs.bitmasks ht.bitmasks hbitmasks
  have hreadOnly := map_inj_of_forall code_inj' hs.readOnly ht.readOnly hreadOnly
  have hdelegates := map_inj_of_forall delegateEntry_inj hs.delegates ht.delegates hdelegates
  cases s
  cases t
  simp only [RunSummary.mk.injEq]
  exact ⟨hmodule, hvariant, hunit, hsynthesized, hpasses, hignored, hbitmasks, hreadOnly,
    hdelegates⟩

/-- A page names each section with the number of its bullets, and `_none_` where there are none;
and it belongs to one summary only. -/
theorem markdown_determines (hs : s.HasWords) :
    (∃ top ignored bitmasks readOnly delegates,
      s.lines = top ++ ignored ++ bitmasks ++ readOnly ++ delegates ++ [""] ∧
      IsSection "Ignored declarations" s.ignored.length ignored ∧
      IsSection "Bitmask enumerations" s.bitmasks.length bitmasks ∧
      IsSection "Read-only properties" s.readOnly.length readOnly ∧
      IsSection "Renamed delegates" s.delegates.length delegates) ∧
    ∀ t : RunSummary, t.HasWords → t.markdown = s.markdown → t = s := by
  have hsection : ∀ {α : Type} (title : String) (f : α → String) (as : List α),
      IsSection title as.length (sectionLines title (as.map f)) := fun title f as => by
    have h := isSection_sectionLines title (as.map f)
    rwa [List.length_map] at h
  refine ⟨⟨topLines s, _, _, _, _, ?_, hsection _ ignoredEntry _, hsection _ code _,
    hsection _ code _, hsection _ delegateEntry _⟩, fun _ ht h => ht.eq_of_markdown hs h⟩
  rw [hs.lines_eq, pageLines]
  simp only [List.append_assoc]

/-- A run that makes no property read-only has another page than one that makes one so. -/
theorem markdown_determines_readOnly :
    let s : RunSummary := {
      moduleName := "imgui", variant := .enhanced, primaryUnit := "imgui.h", synthesized := 2
      passes := [⟨"enumerations", .postprocess, 1⟩], ignored := [(.record, "ImDrawList")]
      bitmasks := ["ImGuiWindowFlags_"], readOnly := []
      delegates := [("Func_float___IntPtr_int", "ImValuesGetterHandler")] }
    (∃ top ignored bitmasks readOnly delegates,
      s.lines = top ++ ignored ++ bitmasks ++ readOnly ++ delegates ++ [""] ∧
      IsSection "Ignored declarations" 1 ignored ∧ IsSection "Bitmask enumerations" 1 bitmasks ∧
      IsSection "Read-only properties" 0 readOnly ∧ IsSection "Renamed delegates" 1 delegates) ∧
    RunSummary.markdown { s with readOnly := ["ImDrawList::CmdBuffer"] } ≠ s.markdown := by
  intro s
  have hs : s.HasWords := by constructor <;> decide
  have ht : HasWords { s with readOnly := ["ImDrawList::CmdBuffer"] } := by
    constructor <;> decide
  refine ⟨(markdown_determines hs).1, fun h => ?_⟩
  exact absurd ((markdown_determines hs).2 _ ht h) (by decide)

end Bindery.RunSummary
