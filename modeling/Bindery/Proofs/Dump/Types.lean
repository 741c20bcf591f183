import Bindery.Proofs.Dump.TypeParts

/-!
# Reading types back

The parser for types reads the spelling of a proper type as that type, to any depth that its fuel
allows, if what follows may follow a type.
-/

namespace Bindery

open Dump.Parser

variable {c : Char} {i m r : List Char} {n w : String} {b t : TypeRef} {ts : List TypeRef}
  {τ : Dump.Parser TypeRef} {k : Nat} {stars : List Unit}

namespace TypeRef

/-- The type behind pointers. -/
def pointers (stars : List Unit) (t : TypeRef) : TypeRef := stars.foldl (fun t _ => .pointer t) t

/-- Types that begin with a name and end without a suffix. -/
def isCore : TypeRef → Bool
  | .named _ | .specialization _ _ => true
  | _ => false

/-- The spellings of types after a first one. -/
def moreSpellings (ts : List TypeRef) : List Char :=
  ts.flatMap fun t => ',' :: ' ' :: t.spelling.toList

theorem toList_spellings (t : TypeRef) :
    ∀ ts : List TypeRef, (spellings (t :: ts)).toList = t.spelling.toList ++ moreSpellings ts
  | [] => by simp [spellings, moreSpellings]
  | u :: ts => by
    have h := toList_spellings u ts
    rw [spellings, String.toList_append, String.toList_append, h]
    · simp [moreSpellings]
    · exact List.cons_ne_nil u ts

theorem toList_spelling_pointer (t : TypeRef) :
    (pointer t).spelling.toList = t.spelling.toList ++ ['*'] := by
  rw [spelling, String.toList_append]
  rfl

theorem toList_spelling_array (t : TypeRef) (size : Option String) :
    (array t size).spelling.toList =
      t.spelling.toList ++ '[' :: ((size.getD "").toList ++ [']']) := by
  simp [spelling]

theorem toList_spelling_specialization (n : String) (args : List TypeRef) :
    (specialization n args).spelling.toList =
      n.toList ++ '<' :: ((spellings args).toList ++ ['>']) := by
  simp [spelling]

theorem toList_spelling_function (returns : TypeRef) (ps : List TypeRef) :
    (function returns ps).spelling.toList = "fn".toList ++ '(' :: ((spellings ps).toList ++
      ')' :: ' ' :: '-' :: '>' :: ' ' :: returns.spelling.toList) := by
  simp [spelling]

theorem allProper_iff : ∀ {ts : List TypeRef}, AllProper ts ↔ ∀ t ∈ ts, t.IsProper
  | [] => by simp [AllProper]
  | t :: ts => by rw [AllProper, allProper_iff, List.forall_mem_cons]

/-- A type begins with a name. -/
theorem IsProper.exists_cons : ∀ {t : TypeRef}, t.IsProper →
    ∃ c s, t.spelling.toList = c :: s ∧ Dump.isIdentStart c
  | .named n, h => by
    rw [IsProper] at h
    obtain ⟨w, ws, ⟨c, s, hw, hc, -⟩, -, -, hn⟩ := h.exists_words
    exact ⟨c, s ++ Dump.moreWords ws, by rw [spelling, hn, hw, List.cons_append], hc⟩
  | .pointer t, h => by
    rw [IsProper] at h
    obtain ⟨c, s, hs, hc⟩ := h.2.exists_cons
    exact ⟨c, s ++ ['*'], by rw [toList_spelling_pointer, hs, List.cons_append], hc⟩
  | .array t size, h => by
    rw [IsProper] at h
    obtain ⟨c, s, hs, hc⟩ := h.2.1.exists_cons
    exact ⟨c, _, by rw [toList_spelling_array, hs, List.cons_append], hc⟩
  | .specialization n args, h => by
    rw [IsProper] at h
    obtain ⟨c, s, hn, hc, -⟩ := h.1
    exact ⟨c, _, by rw [toList_spelling_specialization, hn, List.cons_append], hc⟩
  | .function returns ps, _ => ⟨'f', _, toList_spelling_function returns ps, by decide⟩

theorem IsProper.blankLength (h : t.IsProper) (r : List Char) :
    Dump.blankLength false (t.spelling.toList ++ r) = 0 := by
  obtain ⟨c, s, hs, hc⟩ := h.exists_cons
  rw [hs]
  exact Dump.blankLength_cons_of_isIdentChar (Dump.isIdentChar_of_isIdentStart hc)

theorem IsProper.skips (h : t.IsProper) (r : List Char) :
    Skips (t.spelling.toList ++ r) (t.spelling.toList ++ r) := by
  rw [Skips, h.blankLength, List.drop_zero]

/-- What stands behind the pointers of a plain type. -/
theorem exists_core : ∀ {t : TypeRef}, t.isPlain → t.IsProper →
    ∃ b stars, t = pointers stars b ∧ b.isCore ∧ b.IsProper ∧
      t.spelling.toList = b.spelling.toList ++ stars.map fun _ => '*'
  | .named n, _, h => ⟨_, [], rfl, rfl, h, by simp⟩
  | .specialization n args, _, h => ⟨_, [], rfl, rfl, h, by simp⟩
  | .pointer t, _, h => by
    rw [IsProper] at h
    obtain ⟨b, stars, ht, hb, hproper, hs⟩ := exists_core h.1 h.2
    refine ⟨b, stars ++ [()], ?_, hb, hproper, ?_⟩
    · rw [ht, pointers, pointers, List.foldl_append]
      rfl
    · rw [toList_spelling_pointer, hs, List.map_append, List.append_assoc]
      rfl
  | .array _ _, hp, _ => absurd hp nofun
  | .function _ _, hp, _ => absurd hp nofun

end TypeRef

namespace Dump

/-- The parser reads types of less than `k` characters, and nothing that is no word. -/
structure ReadsTypes (τ : Parser TypeRef) (k : Nat) : Prop where
  reads : ∀ {t m}, t.IsProper → t.spelling.toList.length < k → Ends closing m →
    Reads τ (t.spelling.toList ++ m) t m
  refuses : ∀ {i}, EndsWord i → Refuses τ i

theorem ReadsTypes.mono {τ : Parser TypeRef} {k k' : Nat} (h : ReadsTypes τ k) (hk : k' ≤ k) :
    ReadsTypes τ k' :=
  ⟨fun ht hlen => h.reads ht (Nat.lt_of_lt_of_le hlen hk), h.refuses⟩

theorem isIdentChar_opening : ∀ c ∈ opening, isIdentChar c = false := by
  simp only [opening, closing, List.forall_mem_cons]
  refine ⟨by decide, by decide, by decide, by decide, by decide, by decide,
    List.forall_mem_nil _⟩

theorem isIdent_fn : IsIdent "fn" := isIdent_of_all (by decide)

theorem ends_moreSpellings (hc : c = ')' ∨ c = '>') (ts : List TypeRef) :
    Ends closing (TypeRef.moreSpellings ts ++ c :: r) := by
  cases ts with
  | nil => rcases hc with rfl | rfl <;> exact ends_cons (by decide) fun _ => rfl
  | cons t ts => exact ends_cons (by decide) fun _ => rfl

section
variable (hτ : ReadsTypes τ k)
include hτ

/-- Types behind commas, up to a bracket. -/
theorem readsAll_types (hc : c = ')' ∨ c = '>') :
    ∀ ts : List TypeRef, (∀ t ∈ ts, t.IsProper) → (TypeRef.moreSpellings ts).length ≤ k →
      ReadsAll (do word ","; next τ) (TypeRef.moreSpellings ts ++ c :: r) ts (c :: r)
  | [], _, _ => by
    refine .nil (refuses_next (skips_cons ?_) (refuses_bind (refuses_word_cons rfl ?_)))
    · rcases hc with rfl | rfl <;> rfl
    · rcases hc with rfl | rfl <;> decide
  | t :: ts, hts, hk => by
    obtain ⟨ht, hts⟩ := List.forall_mem_cons.1 hts
    have hlen : (TypeRef.moreSpellings (t :: ts)).length =
        t.spelling.toList.length + 2 + (TypeRef.moreSpellings ts).length := by
      simp only [TypeRef.moreSpellings, List.flatMap_cons, List.length_append, List.length_cons]
    have hends := ends_moreSpellings (r := r) hc ts
    have htail : TypeRef.moreSpellings (t :: ts) ++ c :: r =
        ',' :: ' ' :: (t.spelling.toList ++ (TypeRef.moreSpellings ts ++ c :: r)) := by
      simp [TypeRef.moreSpellings]
    have hskip : Skips (' ' :: (t.spelling.toList ++ (TypeRef.moreSpellings ts ++ c :: r)))
        (t.spelling.toList ++ (TypeRef.moreSpellings ts ++ c :: r)) :=
      (IsGap.blank (Or.inl rfl) .nil).skips (ht.blankLength _)
    rw [htail]
    refine .cons (reads_next (skips_cons rfl) (reads_bind (reads_word ",")
      (reads_next hskip (hτ.reads ht (by omega) hends)))) ?_ ?_
    · simp only [List.length_cons, List.length_append]
      omega
    · exact readsAll_types hc ts hts (by omega)

theorem reads_types (hc : c = ')' ∨ c = '>') (hne : ts ≠ []) (hts : ∀ t ∈ ts, t.IsProper)
    (hk : (TypeRef.spellings ts).toList.length < k) :
    Reads (commaSeparated τ) ((TypeRef.spellings ts).toList ++ c :: r) ts (c :: r) := by
  cases ts with
  | nil => exact absurd rfl hne
  | cons t ts =>
    obtain ⟨ht, hts⟩ := List.forall_mem_cons.1 hts
    rw [TypeRef.toList_spellings, List.length_append] at hk
    rw [TypeRef.toList_spellings, List.append_assoc]
    have hends := ends_moreSpellings (r := r) hc ts
    exact reads_commaSeparated (hτ.reads ht (by omega) hends)
      (readsAll_types hτ hc ts hts (by omega))

theorem reads_templateType {args : List TypeRef} (h : (TypeRef.specialization n args).IsProper)
    (hk : (TypeRef.specialization n args).spelling.toList.length ≤ k) :
    Reads (templateType τ) ((TypeRef.specialization n args).spelling.toList ++ m)
      (.specialization n args) m := by
  obtain ⟨hn, hne, hargs⟩ : IsIdent n ∧ args ≠ [] ∧ TypeRef.AllProper args := by
    rwa [TypeRef.IsProper] at h
  rw [TypeRef.toList_spelling_specialization] at hk ⊢
  simp only [List.length_append, List.length_cons] at hk
  simp only [List.append_assoc, List.cons_append, List.nil_append]
  have hargs := TypeRef.allProper_iff.1 hargs
  have hskip : Skips ((TypeRef.spellings args).toList ++ '>' :: m)
      ((TypeRef.spellings args).toList ++ '>' :: m) := by
    cases args with
    | nil => exact absurd rfl hne
    | cons t ts =>
      rw [TypeRef.toList_spellings, List.append_assoc]
      exact (hargs t List.mem_cons_self).skips _
  have hlt : EndsWord ('<' :: ((TypeRef.spellings args).toList ++ '>' :: m)) :=
    endsWord_sign rfl _
  refine reads_named (reads_bind (reads_ident hn hlt) ?_)
  refine reads_bind (reads_next (skips_cons rfl) (reads_word "<")) ?_
  refine reads_bind (reads_next hskip (reads_types hτ (Or.inr rfl) hne hargs (by omega))) ?_
  exact reads_bind (reads_next (skips_cons rfl) (reads_word ">")) reads_pure

/-- The result of a function, after one blank. -/
theorem reads_result (ht : t.IsProper) (hk : t.spelling.toList.length < k) (hm : Ends closing m) :
    Reads (result τ) (' ' :: '-' :: '>' :: ' ' :: (t.spelling.toList ++ m)) t m := by
  have hblank : ∀ {i}, blankLength false i = 0 → Skips (' ' :: i) i := fun h =>
    (IsGap.blank (Or.inl rfl) .nil).skips h
  have harrow : Reads (returnType τ) ('-' :: '>' :: ' ' :: (t.spelling.toList ++ m)) t m :=
    reads_named (reads_bind (reads_word "->")
      (reads_next (hblank (ht.blankLength m)) (hτ.reads ht hk hm)))
  exact reads_bind (reads_opt_some (reads_next (hblank rfl) harrow)) reads_pure

theorem exists_reads_opt_types (hts : ∀ t ∈ ts, t.IsProper)
    (hk : (TypeRef.spellings ts).toList.length < k) : ∃ x : Option (List TypeRef), x.getD [] = ts ∧
      Reads (opt (commaSeparated τ)) ((TypeRef.spellings ts).toList ++ ')' :: r) x (')' :: r) := by
  cases ts with
  | nil =>
    have hclose : EndsWord (')' :: r) :=
      endsWord_sign rfl _
    exact ⟨none, rfl, reads_opt_none (refuses_next (skips_cons rfl)
      (refuses_bind (hτ.refuses hclose)))⟩
  | cons t ts =>
    have hskip : Skips ((TypeRef.spellings (t :: ts)).toList ++ ')' :: r)
        ((TypeRef.spellings (t :: ts)).toList ++ ')' :: r) := by
      rw [TypeRef.toList_spellings, List.append_assoc]
      exact (hts t List.mem_cons_self).skips _
    exact ⟨some (t :: ts), rfl, reads_opt_some (reads_next hskip
      (reads_types hτ (Or.inl rfl) (List.cons_ne_nil t ts) hts hk))⟩

theorem reads_fnType {ps : List TypeRef} (h : (TypeRef.function t ps).IsProper)
    (hk : (TypeRef.function t ps).spelling.toList.length ≤ k) (hm : Ends closing m) :
    Reads (fnType τ) ((TypeRef.function t ps).spelling.toList ++ m) (.function t ps) m := by
  obtain ⟨ht, hps⟩ : t.IsProper ∧ TypeRef.AllProper ps := by rwa [TypeRef.IsProper] at h
  rw [TypeRef.toList_spelling_function] at hk ⊢
  simp only [List.length_append, List.length_cons] at hk
  simp only [List.append_assoc, List.cons_append]
  obtain ⟨x, rfl, hx⟩ := exists_reads_opt_types
    (r := ' ' :: '-' :: '>' :: ' ' :: (t.spelling.toList ++ m)) hτ (TypeRef.allProper_iff.1 hps)
    (by omega)
  have hopen : ∀ i, EndsWord ('(' :: i) := fun i =>
    endsWord_sign rfl _
  refine reads_named (reads_bind (reads_keyword isIdent_fn (hopen _)) ?_)
  refine reads_bind (reads_next (skips_cons rfl) (reads_word "(")) (reads_bind hx ?_)
  refine reads_bind (reads_next (skips_cons rfl) (reads_word ")")) ?_
  exact reads_bind (reads_result hτ ht (by omega) hm) reads_pure

end

/-! ### Alternatives that do not apply -/

theorem refuses_fnType (hw : IsIdent w) (hm : EndsWord m) (hskip : Skips m (c :: r))
    (hc : c ≠ '(') : Refuses (fnType τ) (w.toList ++ m) := by
  refine refuses_named ?_
  by_cases hfn : w = "fn"
  · subst hfn
    exact refuses_bind_of_reads (reads_keyword hw hm)
      (refuses_bind (refuses_next hskip (refuses_word_cons rfl hc)))
  · exact refuses_bind (refuses_keyword isIdent_fn hw hm hfn)

theorem refuses_templateType (hw : IsIdent w) (hm : EndsWord m) (hskip : Skips m (c :: r))
    (hc : c ≠ '<') : Refuses (templateType τ) (w.toList ++ m) := by
  refine refuses_named (refuses_bind_of_reads (reads_ident hw hm) (refuses_bind ?_))
  exact refuses_next hskip (refuses_word_cons rfl hc)

theorem refuses_namedType (hi : EndsWord i) : Refuses namedType i := by
  have h0 := identLength_eq_zero fun c hc => isIdentStart_eq_false (hi c hc)
  refine refuses_named (refuses_bind (refuses_run ?_))
  rw [wordsLength]
  exact if_pos h0

/-- What follows the first word of a name is no bracket. -/
theorem exists_skips_moreWords {ws : List String} (hws : ∀ v ∈ ws, IsIdent v)
    (hm : Ends opening m) :
    ∃ c r, Skips (moreWords ws ++ m) (c :: r) ∧ c ≠ '(' ∧ c ≠ '<' := by
  cases ws with
  | nil =>
    obtain ⟨c, r, hc, hm⟩ := hm
    have hne : ∀ c ∈ opening, c ≠ '(' ∧ c ≠ '<' := by simp [opening, closing]
    exact ⟨c, r, hm, hne c hc⟩
  | cons v ws =>
    have hv := hws v List.mem_cons_self
    obtain ⟨c, s, hs, hc, -⟩ := id hv
    refine ⟨c, s ++ (moreWords ws ++ m), ?_, ?_, ?_⟩
    · have hskip : Skips (' ' :: (v.toList ++ (moreWords ws ++ m))) _ :=
        (IsGap.blank (Or.inl rfl) .nil).skips (hv.blankLength _)
      rw [hs, List.cons_append] at hskip
      simpa [moreWords, hs] using hskip
    · rintro rfl
      exact absurd hc (by decide)
    · rintro rfl
      exact absurd hc (by decide)

theorem reads_core (hτ : ReadsTypes τ k) (hcore : b.isCore) (hb : b.IsProper)
    (hk : b.spelling.toList.length ≤ k) (hm : Ends opening m) :
    Reads (fnType τ <|> templateType τ <|> namedType) (b.spelling.toList ++ m) b m := by
  have hend := hm.endsWord isIdentChar_opening
  cases b with
  | named n =>
    have hn : IsName n := by rwa [TypeRef.IsProper] at hb
    have hread := reads_namedType hn hend (moreWordsLength_eq_zero hm isIdentChar_opening)
    obtain ⟨w, ws, hw, hws, -, hchars⟩ := hn.exists_words
    obtain ⟨c, r, hskip, hne⟩ := exists_skips_moreWords hws hm
    have hend' := endsWord_moreWords hend ws
    rw [TypeRef.spelling]
    rw [hchars, List.append_assoc] at hread ⊢
    exact reads_orElse_right (refuses_fnType hw hend' hskip hne.1)
      (reads_orElse_right (refuses_templateType hw hend' hskip hne.2) hread)
  | specialization n args =>
    have hn : IsIdent n := by
      rw [TypeRef.IsProper] at hb
      exact hb.1
    have hread := reads_templateType (m := m) hτ hb hk
    refine reads_orElse_right ?_ (reads_orElse_left hread)
    rw [TypeRef.toList_spelling_specialization, List.append_assoc, List.cons_append]
    have hlt : EndsWord ('<' :: (((TypeRef.spellings args).toList ++ ['>']) ++ m)) :=
      endsWord_sign rfl _
    exact refuses_fnType hn hlt (skips_cons rfl) (by decide)
  | pointer _ => exact absurd hcore nofun
  | array _ _ => exact absurd hcore nofun
  | function _ _ => exact absurd hcore nofun

/-! ### Pointers and suffixes -/

theorem readsAll_stars (hm : Ends ('[' :: closing) m) : ∀ stars : List Unit,
    ReadsAll (named .pointer (word "*")) ((stars.map fun _ => '*') ++ m) stars m
  | [] => by
    refine .nil (hm.refuses fun c hc r => refuses_named (refuses_word_cons rfl ?_))
    rintro rfl
    exact absurd hc (by decide)
  | _ :: stars => .cons (reads_next (skips_cons rfl) (reads_named (reads_word "*")))
    (Nat.lt_succ_self _) (readsAll_stars hm stars)

/-- A type is read part by part. -/
theorem reads_typeRef_parts {x : Option (Option String)} {m₁ m₂ : List Char}
    (hb : Reads (fnType (typeRef k) <|> templateType (typeRef k) <|> namedType) i b m₁)
    (hstars : ReadsAll (named .pointer (word "*")) m₁ stars m₂)
    (hx : Reads (opt arraySuffix) m₂ x m) :
    Reads (typeRef (k + 1)) i (x.elim (b.pointers stars) (.array (b.pointers stars))) m := by
  refine reads_named (reads_bind hb (reads_bind (reads_many hstars) (reads_bind hx ?_)))
  cases x with
  | none => exact reads_pure
  | some size => exact reads_pure

theorem reads_opt_arraySuffix_none (hm : Ends closing m) : Reads (opt arraySuffix) m none m := by
  refine reads_opt_none (hm.refuses fun c hc r => refuses_named (refuses_bind ?_))
  refine refuses_word_cons rfl ?_
  rintro rfl
  exact absurd hc (by decide)

theorem reads_typeRef (hτ : ReadsTypes (typeRef k) k) (ht : t.IsProper)
    (hk : t.spelling.toList.length ≤ k) (hm : Ends closing m) :
    Reads (typeRef (k + 1)) (t.spelling.toList ++ m) t m := by
  have hm' : Ends ('[' :: closing) m := hm.mono fun _ hc => List.mem_cons_of_mem _ hc
  have hplain : ∀ {u : TypeRef} {x : Option (Option String)} {m₂ : List Char}, u.isPlain →
      u.IsProper → u.spelling.toList.length ≤ k → Ends ('[' :: closing) m₂ →
      Reads (opt arraySuffix) m₂ x m →
      Reads (typeRef (k + 1)) (u.spelling.toList ++ m₂) (x.elim u (.array u)) m := by
    intro u x m₂ hu hproper hk hm₂ hx
    obtain ⟨b, stars, rfl, hcore, hb, hs⟩ := TypeRef.exists_core hu hproper
    rw [hs, List.length_append] at hk
    rw [hs, List.append_assoc]
    have hends : Ends opening ((stars.map fun _ => '*') ++ m₂) := by
      cases stars with
      | nil => exact hm₂.mono fun _ hc => List.mem_cons_of_mem _ hc
      | cons _ stars => exact ends_cons (c := '*') (by decide) fun _ => rfl
    exact reads_typeRef_parts (reads_core hτ hcore hb (by omega) hends)
      (readsAll_stars hm₂ stars) hx
  cases t with
  | named n => exact hplain (x := none) rfl ht hk hm' (reads_opt_arraySuffix_none hm)
  | specialization n args => exact hplain (x := none) rfl ht hk hm' (reads_opt_arraySuffix_none hm)
  | pointer t => exact hplain (x := none) rfl ht hk hm' (reads_opt_arraySuffix_none hm)
  | array t size =>
    obtain ⟨hplain', hproper, hsize⟩ : t.isPlain ∧ t.IsProper ∧ ∀ z ∈ size, IsArraySize z := by
      rwa [TypeRef.IsProper] at ht
    rw [TypeRef.toList_spelling_array, List.length_append] at hk
    rw [TypeRef.toList_spelling_array, List.append_assoc]
    refine hplain (x := some size) hplain' hproper (by omega)
      (ends_cons (by decide) fun _ => rfl) (reads_opt_some (reads_next (skips_cons rfl) ?_))
    simpa using reads_arraySuffix (m := m) hsize
  | function returns ps =>
    exact reads_typeRef_parts (x := none) (reads_orElse_left (reads_fnType hτ ht hk hm))
      (readsAll_stars hm' []) (reads_opt_arraySuffix_none hm)

theorem readsTypes_typeRef : ∀ k, ReadsTypes (typeRef k) k
  | 0 => ⟨fun _ h => absurd h (Nat.not_lt_zero _), fun _ => refuses_fail⟩
  | k + 1 => by
    have hτ := readsTypes_typeRef k
    refine ⟨fun ht hk hm => reads_typeRef hτ ht (Nat.le_of_lt_succ hk) hm, fun hi => ?_⟩
    refine refuses_named (refuses_bind (refuses_orElse ?_ (refuses_orElse ?_ ?_)))
    · exact refuses_named (refuses_bind (refuses_keyword_of_endsWord isIdent_fn hi))
    · exact refuses_named (refuses_bind (refuses_ident hi))
    · exact refuses_namedType hi

end Dump

end Bindery
