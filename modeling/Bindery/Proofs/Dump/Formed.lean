import Bindery.Proofs.Dump.Types
import Bindery.Proofs.Dump.Yields
import Mathlib.Data.List.TakeWhile

/-!
# Types that are read

What the grammar says of a type that has been read: `IsFormed` holds of it and of all types in it.
A suffix binds to the innermost type that takes it. So where one stands behind a function, its
result has a suffix of an array already, or is not written.
-/

namespace Bindery

namespace TypeRef

variable {P Q : TypeRef → Prop} {t : TypeRef} {ts : List TypeRef}

def isArray : TypeRef → Bool
  | .array _ _ => true
  | _ => false

/-- The result, if the type is one of functions. -/
def returns? : TypeRef → Option TypeRef
  | .function r _ => some r
  | _ => none

mutual

/-- `P` holds of the type and of all types in it. -/
def All (P : TypeRef → Prop) : TypeRef → Prop
  | .named n => P (.named n)
  | .pointer t => P (.pointer t) ∧ t.All P
  | .array t size => P (.array t size) ∧ t.All P
  | .specialization n args => P (.specialization n args) ∧ AllEach P args
  | .function r ps => P (.function r ps) ∧ r.All P ∧ AllEach P ps

def AllEach (P : TypeRef → Prop) : List TypeRef → Prop
  | [] => True
  | t :: ts => t.All P ∧ AllEach P ts

end

theorem allEach_iff : ∀ {ts : List TypeRef}, AllEach P ts ↔ ∀ t ∈ ts, t.All P
  | [] => by simp [AllEach]
  | t :: ts => by rw [AllEach, allEach_iff, List.forall_mem_cons]

mutual

theorem All.imp₂ {P Q R : TypeRef → Prop} (hR : ∀ t, P t → Q t → R t) :
    ∀ {t : TypeRef}, t.All P → t.All Q → t.All R
  | .named _, h, h' => hR _ h h'
  | .pointer _, h, h' => by
    rw [All] at h h' ⊢
    exact ⟨hR _ h.1 h'.1, h.2.imp₂ hR h'.2⟩
  | .array _ _, h, h' => by
    rw [All] at h h' ⊢
    exact ⟨hR _ h.1 h'.1, h.2.imp₂ hR h'.2⟩
  | .specialization _ _, h, h' => by
    rw [All] at h h' ⊢
    exact ⟨hR _ h.1 h'.1, AllEach.imp₂ hR h.2 h'.2⟩
  | .function _ _, h, h' => by
    rw [All] at h h' ⊢
    exact ⟨hR _ h.1 h'.1, h.2.1.imp₂ hR h'.2.1, AllEach.imp₂ hR h.2.2 h'.2.2⟩

theorem AllEach.imp₂ {P Q R : TypeRef → Prop} (hR : ∀ t, P t → Q t → R t) :
    ∀ {ts : List TypeRef}, AllEach P ts → AllEach Q ts → AllEach R ts
  | [], _, _ => trivial
  | _ :: _, h, h' => ⟨h.1.imp₂ hR h'.1, AllEach.imp₂ hR h.2 h'.2⟩

end

/-- A suffix may stand behind the type: `R` is what is asked of the result of a function. -/
def TakesSuffix (R : TypeRef → Prop) (t : TypeRef) : Prop :=
  t.isArray = false ∧ ∀ r ∈ t.returns?, R r

end TypeRef

namespace Dump

/-- Words, perhaps with spaces. -/
def IsWords (n : String) : Prop := n.toList ≠ [] ∧ ∀ c ∈ n.toList, isIdentChar c ∨ c = ' '

end Dump

namespace TypeRef

/-- The names are words, a suffix stands where it may, and `S` holds of each size. -/
def FormedBy (R : TypeRef → Prop) (S : String → Prop) : TypeRef → Prop
  | .named n => Dump.IsWords n
  | .pointer t => t.TakesSuffix R
  | .array t size => t.TakesSuffix R ∧ ∀ s ∈ size, S s
  | .specialization n args => Dump.IsWords n ∧ args ≠ []
  | .function _ _ => True

/-- What the grammar says of a type. -/
def IsFormed : TypeRef → Prop :=
  FormedBy (fun r => r = .void ∨ r.isArray) fun s => ']' ∉ s.toList

/-- The parser of types has read this type, somewhere in some text. -/
def IsRead (t : TypeRef) : Prop := ∃ fuel i r, Dump.Parser.Yields (Dump.typeRef fuel) i t r

end TypeRef

namespace Dump

open Bindery.Dump.Parser

variable {i m r s : List Char} {t : TypeRef} {ts : List TypeRef} {τ : Parser TypeRef}

/-! ### Words -/

theorem forall_mem_take_identLength : ∀ (s : List Char),
    ∀ c ∈ s.take (identLength s), isIdentChar c
  | [] => nofun
  | c :: s => by
    rw [identLength]
    split
    · next hc =>
      rw [List.take_succ_cons, List.forall_mem_cons]
      refine ⟨isIdentChar_of_isIdentStart hc, fun d hd => ?_⟩
      rw [← List.prefix_iff_eq_take.1 (List.takeWhile_prefix isIdentChar)] at hd
      exact List.mem_takeWhile_imp hd
    · simp

theorem forall_mem_take_moreWordsLength (s : List Char) :
    ∀ c ∈ s.take (moreWordsLength s), isIdentChar c ∨ c = ' ' := by
  fun_induction moreWordsLength s with
  | case1 s spaces n h => simp
  | case2 s spaces n h ih =>
    rw [List.take_add, List.take_add, List.forall_mem_append, List.forall_mem_append]
    refine ⟨⟨fun c hc => ?_, fun c hc => ?_⟩, ih⟩
    · rw [← List.prefix_iff_eq_take.1 (List.takeWhile_prefix _)] at hc
      exact Or.inr (by simpa using List.mem_takeWhile_imp hc)
    · exact Or.inl (forall_mem_take_identLength _ c hc)

theorem isWords_of_forall (hne : s ≠ []) (hs : ∀ c ∈ s, isIdentChar c ∨ c = ' ') :
    IsWords (String.ofList s) := by
  rw [IsWords, String.toList_ofList]
  exact ⟨hne, hs⟩

theorem mem_intercalate {α : Type} {sep : List α} {a : α} : ∀ {ls : List (List α)},
    a ∈ sep.intercalate ls → a ∈ sep ∨ ∃ l ∈ ls, a ∈ l
  | [], h => by simp at h
  | [l], h => by
    rw [List.intercalate_singleton] at h
    exact .inr ⟨l, List.mem_singleton_self l, h⟩
  | l :: k :: ls, h => by
    rw [List.intercalate_cons_cons, List.mem_append, List.mem_append] at h
    rcases h with (h | h) | h
    · exact .inr ⟨l, List.mem_cons_self .., h⟩
    · exact .inl h
    · exact (mem_intercalate h).imp_right fun ⟨k, hk, h⟩ => ⟨k, List.mem_cons_of_mem l hk, h⟩

theorem mem_intercalate_of_mem {α : Type} {sep : List α} {a : α} {l : List α} :
    ∀ {ls : List (List α)}, l ∈ ls → a ∈ l → a ∈ sep.intercalate ls
  | [k], hl, ha => by
    obtain rfl := List.mem_singleton.1 hl
    rwa [List.intercalate_singleton]
  | k :: j :: ls, hl, ha => by
    rw [List.intercalate_cons_cons, List.mem_append, List.mem_append]
    rcases List.mem_cons.1 hl with rfl | hl
    · exact .inl (.inl ha)
    · exact .inr (mem_intercalate_of_mem hl ha)

theorem exists_mem_take_wordsLength (h : wordsLength s ≠ 0) :
    ∃ c ∈ s.take (wordsLength s), c ≠ ' ' := by
  cases s with
  | nil => exact absurd rfl h
  | cons c s =>
    obtain ⟨n, hn⟩ := Nat.exists_eq_succ_of_ne_zero h
    rw [hn, List.take_succ_cons]
    refine ⟨c, List.mem_cons_self .., ?_⟩
    rintro rfl
    exact h rfl

theorem forall_mem_take_wordsLength (s : List Char) :
    ∀ c ∈ s.take (wordsLength s), isIdentChar c ∨ c = ' ' := by
  simp only [wordsLength]
  split
  · simp
  · rw [List.take_add, List.forall_mem_append]
    exact ⟨fun c hc => .inl (forall_mem_take_identLength s c hc),
      forall_mem_take_moreWordsLength _⟩

/-- The name that is made of some words. -/
theorem isWords_intercalate (hne : ∃ c ∈ s, c ≠ ' ') (hs : ∀ c ∈ s, isIdentChar c ∨ c = ' ') :
    IsWords (" ".intercalate (((s.splitOn ' ').filter (!·.isEmpty)).map String.ofList)) := by
  have hsplit : [' '].intercalate (s.splitOn ' ') = s := List.intercalate_splitOn ' '
  have hchars : (" ".intercalate (((s.splitOn ' ').filter (!·.isEmpty)).map String.ofList)).toList =
      [' '].intercalate ((s.splitOn ' ').filter (!·.isEmpty)) := by
    rw [String.toList_intercalate, List.map_map]
    simp [Function.comp_def]
  rw [IsWords, hchars]
  constructor
  · obtain ⟨c, hc, hspace⟩ := hne
    rw [← hsplit] at hc
    obtain ⟨l, hl, hcl⟩ := (mem_intercalate hc).resolve_left (by simpa using hspace)
    refine List.ne_nil_of_mem (mem_intercalate_of_mem (List.mem_filter.2 ⟨hl, ?_⟩) hcl)
    simp [List.ne_nil_of_mem hcl]
  · intro c hc
    rcases mem_intercalate hc with hc | ⟨l, hl, hcl⟩
    · exact .inr (by simpa using hc)
    · refine hs c ?_
      rw [← hsplit]
      exact mem_intercalate_of_mem (List.mem_filter.1 hl).1 hcl

/-! ### Parts of types -/

theorem yields_ident {n : String} (h : Yields ident i n r) : IsWords n := by
  obtain ⟨s, m, hs, h⟩ := h.of_named.of_bind
  obtain ⟨rfl, rfl⟩ := h.of_pure
  obtain ⟨hne, rfl, -⟩ := hs.of_run
  refine isWords_of_forall (fun h => ?_) fun c hc => .inl (forall_mem_take_identLength i c hc)
  cases i with
  | nil => exact hne rfl
  | cons c i =>
    obtain ⟨n, hn⟩ := Nat.exists_eq_succ_of_ne_zero hne
    rw [hn, List.take_succ_cons] at h
    exact List.cons_ne_nil _ _ h

theorem yields_namedType (h : Yields namedType i t r) : ∃ n, t = .named n ∧ IsWords n := by
  obtain ⟨s, m, hs, h⟩ := h.of_named.of_bind
  obtain ⟨rfl, rfl⟩ := h.of_pure
  obtain ⟨hne, rfl, -⟩ := hs.of_run
  exact ⟨_, rfl, isWords_intercalate (exists_mem_take_wordsLength hne)
    (forall_mem_take_wordsLength i)⟩

theorem mem_of_mem_trim {c : Char} (h : c ∈ Text.trim s) : c ∈ s := by
  rw [Text.trim, Text.trimEnd, List.mem_reverse] at h
  have h := (List.dropWhile_sublist _).mem h
  exact (List.dropWhile_sublist _).mem (List.mem_reverse.1 h)

theorem yields_arraySuffix {size : Option String} (h : Yields arraySuffix i size r) :
    ∀ s ∈ size, ']' ∉ s.toList := by
  obtain ⟨_, m, -, h⟩ := h.of_named.of_bind
  obtain ⟨z, m', hz, h⟩ := h.of_bind
  obtain ⟨_, m'', -, h⟩ := h.of_bind
  obtain ⟨rfl, -⟩ := h.of_pure
  rcases hz.of_opt with ⟨s, rfl, hs⟩ | ⟨rfl, -, -⟩
  · obtain ⟨j, -, hs⟩ := hs.of_next
    obtain ⟨-, rfl, -⟩ := hs.of_named.of_run
    intro z hz hmem
    obtain rfl := Option.some.inj hz
    rw [trimmed, String.toList_ofList] at hmem
    have hmem := mem_of_mem_trim hmem
    rw [← List.prefix_iff_eq_take.1 (List.takeWhile_prefix _)] at hmem
    simpa using List.mem_takeWhile_imp hmem
  · intro s hs
    cases hs

/-! ### Suffixes -/

/-- One star of a pointer. -/
def star : Parser Unit := named .pointer (word "*")

theorem uniform_star : Uniform star := uniform_named (uniform_word "*")

theorem uniform_arraySuffix : Uniform arraySuffix :=
  uniform_named <| uniform_bind (uniform_word "[") fun _ =>
    uniform_bind (uniform_opt (uniform_named (uniform_run _))) fun _ =>
      uniform_bind (uniform_next (uniform_word "]")) fun _ => uniform_pure

theorem length_lt_of_yields_star {u : Unit} (h : Yields (next star) i u r) :
    r.length < i.length := by
  obtain ⟨j, hj, h⟩ := h.of_next
  have hlength := hj.length_le
  rw [h.of_named.of_word, List.length_append] at hlength
  have hone : "*".toList.length = 1 := by decide
  omega

/-- Neither kind of suffix follows. -/
def EndsType (r : List Char) : Prop := Refuses (next star) r ∧ Refuses (next arraySuffix) r

theorem all_pointers (stars : List Unit) : ∀ {t : TypeRef}, t.All TypeRef.IsFormed →
    t.TakesSuffix (fun r => r = .void ∨ r.isArray) →
    (t.pointers stars).All TypeRef.IsFormed ∧
      (t.pointers stars).TakesSuffix fun r => r = .void ∨ r.isArray := by
  induction stars with
  | nil => exact fun ht hsuffix => ⟨ht, hsuffix⟩
  | cons _ stars ih =>
    intro t ht hsuffix
    exact ih (t := .pointer t) ⟨hsuffix, ht⟩ ⟨rfl, nofun⟩

section

/-! What the parser `τ` reads is formed, and it stops only where no suffix follows. -/

variable (hτ : ∀ {i t r}, Yields τ i t r → t.All TypeRef.IsFormed ∧ (t.isArray ∨ EndsType r))

include hτ

theorem yields_types (h : Yields (commaSeparated τ) i ts r) :
    ts ≠ [] ∧ TypeRef.AllEach TypeRef.IsFormed ts := by
  obtain ⟨hne, hts⟩ := h.forall_mem_commaSeparated
  refine ⟨hne, TypeRef.allEach_iff.2 fun t ht => ?_⟩
  obtain ⟨j, m, h⟩ := hts t ht
  exact (hτ h).1

theorem yields_result (h : Yields (result τ) i t r) :
    t.All TypeRef.IsFormed ∧ ((t = .void ∨ t.isArray) ∨ EndsType r) := by
  obtain ⟨x, m, hx, h⟩ := h.of_bind
  obtain ⟨rfl, rfl⟩ := h.of_pure
  rcases hx.of_opt with ⟨t, rfl, ht⟩ | ⟨rfl, -, -⟩
  · obtain ⟨j, -, ht⟩ := ht.of_next
    obtain ⟨-, m, -, ht⟩ := ht.of_named.of_bind
    obtain ⟨j, -, ht⟩ := ht.of_next
    obtain ⟨hall, hend⟩ := hτ ht
    exact ⟨hall, hend.imp_left .inr⟩
  · have hvoid : ∀ c ∈ "void".toList, isIdentChar c ∨ c = ' ' := fun c hc =>
      .inl (List.all_eq_true.1 (by decide : "void".toList.all isIdentChar) c hc)
    exact ⟨isWords_of_forall (by decide) hvoid, .inl (.inl rfl)⟩

theorem yields_fnType (h : Yields (fnType τ) i t r) :
    t.All TypeRef.IsFormed ∧ t.isArray = false ∧
      (t.TakesSuffix (fun r => r = .void ∨ r.isArray) ∨ EndsType r) := by
  obtain ⟨-, m, -, h⟩ := h.of_named.of_bind
  obtain ⟨-, m, -, h⟩ := h.of_bind
  obtain ⟨ps, m, hps, h⟩ := h.of_bind
  obtain ⟨-, m, -, h⟩ := h.of_bind
  obtain ⟨returns, m, hreturns, h⟩ := h.of_bind
  obtain ⟨rfl, rfl⟩ := h.of_pure
  obtain ⟨hall, hend⟩ := yields_result hτ hreturns
  refine ⟨⟨trivial, hall, ?_⟩, rfl, hend.imp_left fun h => ⟨rfl, ?_⟩⟩
  · rcases hps.of_opt with ⟨ts, rfl, hts⟩ | ⟨rfl, -, -⟩
    · obtain ⟨j, -, hts⟩ := hts.of_next
      exact (yields_types hτ hts).2
    · trivial
  · intro u hu
    obtain rfl := Option.some.inj hu
    exact h

theorem yields_templateType (h : Yields (templateType τ) i t r) :
    t.All TypeRef.IsFormed ∧ t.TakesSuffix fun r => r = .void ∨ r.isArray := by
  obtain ⟨n, m, hn, h⟩ := h.of_named.of_bind
  obtain ⟨-, m, -, h⟩ := h.of_bind
  obtain ⟨args, m, hargs, h⟩ := h.of_bind
  obtain ⟨-, m, -, h⟩ := h.of_bind
  obtain ⟨rfl, rfl⟩ := h.of_pure
  obtain ⟨j, -, hargs⟩ := hargs.of_next
  obtain ⟨hne, hall⟩ := yields_types hτ hargs
  exact ⟨⟨⟨yields_ident hn, hne⟩, hall⟩, rfl, nofun⟩

theorem yields_base (h : Yields (fnType τ <|> templateType τ <|> namedType) i t r) :
    t.All TypeRef.IsFormed ∧ t.isArray = false ∧
      (t.TakesSuffix (fun r => r = .void ∨ r.isArray) ∨ EndsType r) := by
  rcases h.of_orElse with h | ⟨-, h⟩
  · exact yields_fnType hτ h
  · rcases h.of_orElse with h | ⟨-, h⟩
    · obtain ⟨hall, hsuffix⟩ := yields_templateType hτ h
      exact ⟨hall, hsuffix.1, .inl hsuffix⟩
    · obtain ⟨n, rfl, hn⟩ := yields_namedType h
      exact ⟨hn, rfl, .inl ⟨rfl, nofun⟩⟩

end

theorem formed_of_yields : ∀ {k : Nat} {i : List Char} {t : TypeRef} {r : List Char},
    Yields (typeRef k) i t r → t.All TypeRef.IsFormed ∧ (t.isArray ∨ EndsType r)
  | 0, i, t, r, h => by
    obtain ⟨pos, a, pos', a', h⟩ := h
    cases h
  | k + 1, i, t, r, h => by
    obtain ⟨b, m, hb, h⟩ := h.of_named.of_bind
    obtain ⟨stars, m₂, hstars, h⟩ := h.of_bind
    obtain ⟨x, m₃, hx, hend⟩ := h.of_bind
    obtain ⟨hall, harray, hsuffix⟩ := yields_base formed_of_yields hb
    obtain ⟨hstop, hnone⟩ := hstars.stops_many length_lt_of_yields_star
    have hstop : Refuses (next star) m₂ := (uniform_next uniform_star).refuses hstop
    rcases hsuffix with hsuffix | ⟨hm, hm'⟩
    · obtain ⟨hall, hsuffix⟩ := all_pointers stars hall hsuffix
      cases x with
      | none =>
        obtain ⟨rfl, rfl⟩ := hend.of_pure
        rcases hx.of_opt with ⟨y, hy, -⟩ | ⟨-, rfl, hnone⟩
        · cases hy
        · exact ⟨hall, .inr ⟨hstop, (uniform_next uniform_arraySuffix).refuses hnone⟩⟩
      | some size =>
        obtain ⟨rfl, rfl⟩ := hend.of_pure
        rcases hx.of_opt with ⟨y, hy, hsize⟩ | ⟨hy, -, -⟩
        · obtain rfl := Option.some.inj hy
          obtain ⟨j, -, hsize⟩ := hsize.of_next
          exact ⟨⟨⟨hsuffix, yields_arraySuffix hsize⟩, hall⟩, .inl rfl⟩
        · cases hy
    · -- the result of a function has taken the suffixes
      obtain ⟨rfl, rfl⟩ := hnone hm
      rcases hx.of_opt with ⟨y, rfl, hy⟩ | ⟨rfl, rfl, -⟩
      · exact absurd hy hm'.not_yields
      · obtain ⟨rfl, rfl⟩ := hend.of_pure
        exact ⟨hall, .inr ⟨hm, hm'⟩⟩

end Dump

theorem TypeRef.IsRead.formed {t : TypeRef} (h : t.IsRead) : t.All IsFormed := by
  obtain ⟨fuel, i, r, h⟩ := h
  exact (Dump.formed_of_yields h).1

end Bindery
