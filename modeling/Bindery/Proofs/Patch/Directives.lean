import Bindery.Proofs.Patch.Decoration
import Mathlib.Data.List.Basic
import Mathlib.Data.List.TakeWhile

/-!
# Where the added using directives stand

The directives that a text lacks come in front of it, or behind its last directive. In the second
case what stood behind that directive on its line stands behind the last added one afterwards, and
each directive before that has a line of its own.
-/

namespace Bindery.Decoration

variable {s l d u rest eol text : List Char} {ls pre post : List (List Char)}

/-! ### Directives -/

/-- A using directive up to its semicolon. -/
def IsDirective (d : List Char) : Prop :=
  ∃ name : List Char, name ≠ [] ∧ ';' ∉ name ∧ '\r' ∉ name ∧ d = "using ".toList ++ (name ++ [';'])

theorem isDirective_of_mem_usings (u : String) (hu : u ∈ usings) : IsDirective u.toList := by
  have hname : ∀ d ∈ usings.map String.toList, ((d.drop 6).dropLast ≠ [] ∧
      ';' ∉ (d.drop 6).dropLast ∧ '\r' ∉ (d.drop 6).dropLast ∧
        d = "using ".toList ++ ((d.drop 6).dropLast ++ [';'])) := by
    rw [usingsChars.2]
    decide
  exact ⟨_, hname _ (List.mem_map_of_mem hu)⟩

theorem isDirective_of_mem_missing (h : d ∈ missing s) : IsDirective d := by
  obtain ⟨u, hu, rfl⟩ := List.mem_map.1 h
  exact isDirective_of_mem_usings u (List.mem_filter.1 hu).1

theorem using_begins (hd : IsDirective d) (rest : List Char) : "using ".toList <+: d ++ rest := by
  obtain ⟨name, -, -, -, rfl⟩ := hd
  exact ⟨name ++ [';'] ++ rest, by simp⟩

theorem usingLength?_append (hd : IsDirective d) (rest : List Char) :
    usingLength? (d ++ rest) = some d.length := by
  obtain ⟨name, hne, hsemi, hcr, rfl⟩ := hd
  have hstop : ∀ c ∈ name, (c != ';' && c != '\r') = true := by
    intro c hc
    simp only [Bool.and_eq_true, bne_iff_ne]
    exact ⟨fun h => hsemi (h ▸ hc), fun h => hcr (h ▸ hc)⟩
  have hname : (name ++ ';' :: rest).takeWhile (fun c => c != ';' && c != '\r') = name := by
    rw [List.takeWhile_append_of_pos hstop]
    simp
  have hbegins : "using ".toList.isPrefixOf ("using ".toList ++ (name ++ ';' :: rest)) :=
    List.isPrefixOf_iff_prefix.2 (List.prefix_append _ _)
  have hsplit : "using ".toList ++ (name ++ [';']) ++ rest
      = "using ".toList ++ (name ++ ';' :: rest) := by simp
  simp only [usingLength?]
  rw [hsplit, if_pos hbegins, List.drop_left, hname, List.drop_left, if_pos ⟨hne, rfl⟩]
  simp only [List.length_append, List.length_singleton, Nat.add_assoc]

theorem isDirective_of_usingLength? {n : Nat} (h : usingLength? l = some n) :
    IsDirective (l.take n) := by
  simp only [usingLength?] at h
  split at h
  · next hl =>
    obtain ⟨rest, rfl⟩ := List.isPrefixOf_iff_prefix.1 hl
    rw [List.drop_left] at h
    obtain ⟨name, hname⟩ : ∃ name, rest.takeWhile (fun c => c != ';' && c != '\r') = name :=
      ⟨_, rfl⟩
    rw [hname] at h
    split at h
    · next hend =>
      obtain ⟨hne, hhead⟩ := hend
      have hmem : ∀ c ∈ name, c ≠ ';' ∧ c ≠ '\r' := fun c hc => by
        have hstop := List.mem_takeWhile_imp (hname.symm ▸ hc)
        simpa using hstop
      obtain ⟨tail, rfl⟩ : ∃ tail, rest = name ++ ';' :: tail := by
        obtain ⟨t, ht⟩ := List.takeWhile_prefix (l := rest) fun c => c != ';' && c != '\r'
        rw [hname] at ht
        rw [← ht, List.drop_left] at hhead
        obtain ⟨tail, rfl⟩ := List.head?_eq_some_iff.1 hhead
        exact ⟨tail, ht.symm⟩
      refine ⟨name, hne, fun h => (hmem _ h).1 rfl, fun h => (hmem _ h).2 rfl, ?_⟩
      have hsplit : "using ".toList ++ (name ++ ';' :: tail)
          = "using ".toList ++ (name ++ [';']) ++ tail := by simp
      rw [hsplit]
      exact List.take_left' (by rw [← Option.some.inj h]; simp; omega)
    · cases h
  · cases h

theorem trimEnd_append_cons {c : Char} (hc : Text.isBlank c = false) (a b : List Char) :
    Text.trimEnd (a ++ c :: b) = a ++ c :: Text.trimEnd b := by
  have hrev : (a ++ c :: b).reverse = b.reverse ++ c :: a.reverse := by simp
  rw [Text.trimEnd, Text.trimEnd, hrev, List.dropWhile_append]
  split
  · next h => simp [List.isEmpty_iff.1 h, hc]
  · simp

/-- A directive ends in no blank. -/
theorem trimEnd_directive (hd : IsDirective d) (rest : List Char) :
    Text.trimEnd (d ++ rest) = d ++ Text.trimEnd rest := by
  obtain ⟨name, -, -, -, rfl⟩ := hd
  have h := trimEnd_append_cons (c := ';') (by decide) ("using ".toList ++ name) rest
  simpa using h

/-- No directive goes on behind its semicolon. -/
theorem append_eq_directive_iff (hd : IsDirective d) (hu : IsDirective u) :
    d ++ rest = u ↔ d = u ∧ rest = [] := by
  constructor
  · intro h
    obtain ⟨name, -, hsemi, -, rfl⟩ := hd
    obtain ⟨name', -, hsemi', -, rfl⟩ := hu
    rw [List.append_assoc, List.append_assoc, List.append_cancel_left_eq, List.singleton_append]
      at h
    obtain ⟨rfl, -, rfl⟩ :=
      (List.append_cons_inj_of_notMem hsemi' List.not_mem_nil).1 h.symm
    exact ⟨rfl, rfl⟩
  · rintro ⟨rfl, rfl⟩
    exact List.append_nil d

/-! ### Lines of lines -/

theorem lines_append_cons (a b : List Char) : lines (a ++ '\n' :: b) = lines a ++ lines b := by
  induction a with
  | nil => rw [List.nil_append, lines_cons, if_pos rfl]; rfl
  | cons c a ih =>
    rw [List.cons_append, lines_cons, lines_cons, ih]
    split
    · rfl
    · obtain ⟨l, ls, hls⟩ := List.exists_cons_of_ne_nil (lines_ne_nil a)
      rw [hls]
      rfl

theorem lines_of_notMem (h : '\n' ∉ l) : lines l = [l] := by
  rw [← lines_unlines (List.cons_ne_nil l []) (List.forall_mem_singleton.2 h)]
  simp [unlines]

theorem lines_unlines_eq_flatMap (h : ls ≠ []) : lines (unlines ls) = ls.flatMap lines := by
  induction ls with
  | nil => exact absurd rfl h
  | cons l ls ih =>
    by_cases hls : ls = []
    · simp [hls, unlines]
    · rw [unlines_cons l hls, lines_append_cons, ih hls, List.flatMap_cons]

theorem flatMap_lines (h : ∀ l ∈ ls, '\n' ∉ l) : ls.flatMap lines = ls := by
  induction ls with
  | nil => rfl
  | cons l ls ih =>
    rw [List.flatMap_cons, lines_of_notMem (h l (List.mem_cons_self ..)),
      ih fun k hk => h k (List.mem_cons_of_mem l hk)]
    rfl

theorem lines_ended (h : ∀ l ∈ ls, '\n' ∉ l) (hend : '\n' ∉ eol) (t : List Char) :
    lines (ls.flatMap (· ++ (eol ++ ['\n'])) ++ t) = ls.map (· ++ eol) ++ lines t := by
  induction ls with
  | nil => rfl
  | cons l ls ih =>
    have hl := h l (List.mem_cons_self ..)
    have hsplit : (l :: ls).flatMap (· ++ (eol ++ ['\n'])) ++ t
        = (l ++ eol) ++ '\n' :: (ls.flatMap (· ++ (eol ++ ['\n'])) ++ t) := by simp
    rw [hsplit, lines_append_cons, ih fun k hk => h k (List.mem_cons_of_mem l hk),
      lines_of_notMem (by simp [hl, hend])]
    rfl

/-! ### The last directive -/

/-- The last using directive of some lines, and what stands behind it on its line. -/
def lastUsing? : List (List Char) → Option (List Char × List Char)
  | [] => none
  | l :: ls => (lastUsing? ls).or ((usingLength? l).map fun n => (l.take n, l.drop n))

theorem lastUsing?_append (ls ks : List (List Char)) :
    lastUsing? (ls ++ ks) = (lastUsing? ks).or (lastUsing? ls) := by
  induction ls with
  | nil => simp [lastUsing?]
  | cons l ls ih => rw [List.cons_append, lastUsing?, ih, lastUsing?, Option.or_assoc]

theorem lastUsing?_eq_none : lastUsing? ls = none ↔ ∀ l ∈ ls, usingLength? l = none := by
  induction ls with
  | nil => simp [lastUsing?]
  | cons l ls ih => simp [lastUsing?, ih, and_comm]

theorem lastUsing?_append_cons (hd : IsDirective d) (hpost : ∀ l ∈ post, usingLength? l = none) :
    lastUsing? (pre ++ (d ++ rest) :: post) = some (d, rest) := by
  rw [lastUsing?_append, lastUsing?, lastUsing?_eq_none.2 hpost, usingLength?_append hd]
  simp

theorem exists_of_lastUsing? (h : lastUsing? ls = some (d, rest)) :
    IsDirective d ∧ ∃ pre post, ls = pre ++ (d ++ rest) :: post ∧
      ∀ l ∈ post, usingLength? l = none := by
  induction ls with
  | nil => nomatch h
  | cons l ls ih =>
    cases hls : lastUsing? ls with
    | some p =>
      rw [lastUsing?, hls, Option.some_or] at h
      obtain ⟨hd, pre, post, rfl, hpost⟩ := ih (hls.trans h)
      exact ⟨hd, l :: pre, post, rfl, hpost⟩
    | none =>
      rw [lastUsing?, hls, Option.none_or] at h
      obtain ⟨n, hn, hsplit⟩ := Option.map_eq_some_iff.1 h
      obtain ⟨rfl, rfl⟩ := Prod.mk.inj hsplit
      exact ⟨isDirective_of_usingLength? hn, [], ls, by simp, lastUsing?_eq_none.1 hls⟩

theorem insertAfterUsings?_eq_none (h : ∀ l ∈ ls, usingLength? l = none) :
    insertAfterUsings? text ls = none := by
  induction ls with
  | nil => rfl
  | cons l ls ih =>
    rw [insertAfterUsings?_cons_of_none l (ih fun k hk => h k (List.mem_cons_of_mem l hk)),
      h l (List.mem_cons_self ..)]
    rfl

theorem insertAfterUsings?_append_cons (hd : IsDirective d)
    (hpost : ∀ l ∈ post, usingLength? l = none) :
    insertAfterUsings? text (pre ++ (d ++ rest) :: post)
      = some (pre ++ (d ++ text ++ rest) :: post) := by
  induction pre with
  | nil =>
    rw [List.nil_append, insertAfterUsings?_cons_of_none _ (insertAfterUsings?_eq_none hpost),
      usingLength?_append hd]
    simp
  | cons l pre ih => exact insertAfterUsings?_cons_of_some l ih

/-! ### The lines of the extended text -/

/-- How a text gets the directives that it lacks: `Extends s ls` says that `ls` are its lines
afterwards. -/
inductive Extends (s : List Char) : List (List Char) → Prop where
  /-- It has all of them. -/
  | nothing (hmissing : missing s = []) : Extends s (lines s)
  /-- It has no directive, and gets them in front. -/
  | front (eol : List Char) (heol : ∀ c ∈ eol, c = '\r') (hnone : lastUsing? (lines s) = none) :
    Extends s ((missing s).map (· ++ eol) ++ lines s)
  /-- It gets them behind its last directive, the last one of them before what stood there. -/
  | behind {pre init post : List (List Char)} {d rest v : List Char} (eol : List Char)
    (heol : ∀ c ∈ eol, c = '\r') (hlines : lines s = pre ++ (d ++ rest) :: post)
    (hd : IsDirective d) (hpost : ∀ l ∈ post, usingLength? l = none)
    (hmissing : missing s = init ++ [v]) :
    Extends s (pre ++ ((d :: init).map (· ++ eol) ++ (v ++ rest) :: post))

theorem exists_newline (s : List Char) :
    ∃ eol, newline s = eol ++ ['\n'] ∧ ∀ c ∈ eol, c = '\r' := by
  rw [newline]
  split
  · exact ⟨['\r'], rfl, by simp⟩
  · exact ⟨[], rfl, by simp⟩

/-- What is added behind a directive, regrouped: every line but the last one is ended. -/
theorem append_flatMap_concat (d v nl rest : List Char) (init : List (List Char)) :
    d ++ (init ++ [v]).flatMap (nl ++ ·) ++ rest
      = (d :: init).flatMap (· ++ nl) ++ (v ++ rest) := by
  induction init generalizing d with
  | nil => simp
  | cons e init ih =>
    have h := ih e
    simp only [List.append_assoc, List.cons_append, List.flatMap_cons] at h ⊢
    rw [h]

theorem addUsings_of_none (h : lastUsing? (lines s) = none) :
    addUsings s = (missing s).flatMap (· ++ newline s) ++ s := by
  simp only [addUsings, insertAfterUsings?_eq_none (lastUsing?_eq_none.1 h)]

theorem addUsings_of_some (hd : IsDirective d) (hpost : ∀ l ∈ post, usingLength? l = none)
    (hlines : lines s = pre ++ (d ++ rest) :: post) :
    addUsings s
      = unlines (pre ++ (d ++ (missing s).flatMap (newline s ++ ·) ++ rest) :: post) := by
  simp only [addUsings, hlines, insertAfterUsings?_append_cons hd hpost]

theorem extends_addUsings (s : List Char) : Extends s (lines (addUsings s)) := by
  obtain ⟨eol, hnewline, heol⟩ := exists_newline s
  have hend : '\n' ∉ eol := fun h => by simpa using heol _ h
  have hmissing : ∀ d ∈ missing s, '\n' ∉ d := fun d hd => (notMem_of_mem_missing d hd).1
  cases hlast : lastUsing? (lines s) with
  | none =>
    rw [addUsings_of_none hlast, hnewline, lines_ended hmissing hend]
    exact .front eol heol hlast
  | some p =>
    obtain ⟨hd, pre, post, hlines, hpost⟩ := exists_of_lastUsing? hlast
    rw [addUsings_of_some hd hpost hlines]
    rcases List.eq_nil_or_concat (missing s) with hnil | ⟨init, v, hconcat⟩
    · rw [hnil, List.flatMap_nil, List.append_nil, ← hlines, unlines_lines]
      exact .nothing hnil
    · have hmem : ∀ l ∈ pre ++ (p.1 ++ p.2) :: post, '\n' ∉ l := hlines ▸ newline_notMem_lines
      rw [List.concat_eq_append] at hconcat
      have hline := hmem (p.1 ++ p.2) (by simp)
      have hinit : ∀ e ∈ p.1 :: init, '\n' ∉ e := by
        intro e he
        rcases List.mem_cons.1 he with rfl | he
        · exact fun h => hline (List.mem_append_left _ h)
        · exact hmissing e (by simp [hconcat, he])
      have hv : '\n' ∉ v ++ p.2 := by
        have h1 := hmissing v (by simp [hconcat])
        have h2 : '\n' ∉ p.2 := fun h => hline (List.mem_append_right _ h)
        simp [h1, h2]
      rw [hconcat, append_flatMap_concat, hnewline, lines_unlines_eq_flatMap (by simp),
        List.flatMap_append, List.flatMap_cons, lines_ended hinit hend, lines_of_notMem hv,
        flatMap_lines fun l hl => hmem l (List.mem_append_left _ hl),
        flatMap_lines fun l hl => hmem l (List.mem_append_right _ (List.mem_cons_of_mem _ hl)),
        List.append_assoc, List.singleton_append]
      exact .behind eol heol hlines hd hpost hconcat

end Bindery.Decoration
