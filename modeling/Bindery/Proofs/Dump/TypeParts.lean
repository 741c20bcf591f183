import Bindery.Proofs.Dump.Spelling

/-!
# Reading the parts of types back

Names of several words and array suffixes are read as they are written. A name must not go on behind
itself, so what follows counts: `Ends cs m` says which characters may come first after the blanks.
-/

namespace Bindery.Dump

open Bindery.Dump.Parser

variable {c : Char} {cs j m r s : List Char} {w n : String}

/-! ### What follows a type -/

/-- The first character after blanks and comments is one of `cs`. -/
def Ends (cs m : List Char) : Prop := ∃ c r, c ∈ cs ∧ Skips m (c :: r)

/-- What may follow a type. -/
def closing : List Char := [',', ';', ')', '>']

/-- What may follow the name in a type. -/
def opening : List Char := '*' :: '[' :: closing

theorem Ends.mono {cs' : List Char} (h : Ends cs m) (hcs : ∀ c ∈ cs, c ∈ cs') : Ends cs' m := by
  obtain ⟨c, r, hc, hm⟩ := h
  exact ⟨c, r, hcs c hc, hm⟩

theorem Ends.endsWord (h : Ends cs m) (hcs : ∀ c ∈ cs, isIdentChar c = false) : EndsWord m := by
  obtain ⟨c, r, hc, hm⟩ := h
  exact hm.endsWord (hcs c hc)

theorem Ends.refuses {α : Type} {p : Parser α} (h : Ends cs m)
    (hp : ∀ c ∈ cs, ∀ r, Refuses p (c :: r)) : Refuses (next p) m := by
  obtain ⟨c, r, hc, hm⟩ := h
  exact refuses_next hm (hp c hc r)

theorem skips_cons (h : blankLength false (c :: r) = 0) : Skips (c :: r) (c :: r) := by
  rw [Skips, h, List.drop_zero]

theorem ends_cons (hc : c ∈ cs) (h : ∀ r, blankLength false (c :: r) = 0) : Ends cs (c :: r) :=
  ⟨c, r, hc, skips_cons (h r)⟩

/-! ### Names of several words -/

theorem Parser.Skips.drop_spaces (h : Skips m j) :
    Skips (m.drop (m.takeWhile (· = ' ')).length) j := by
  induction m with
  | nil => exact h
  | cons d m ih =>
    by_cases hd : d = ' '
    · subst hd
      exact ih h
    · rw [List.takeWhile_cons, decide_eq_false hd]
      exact h

theorem moreWordsLength_eq_zero (h : Ends cs m) (hcs : ∀ c ∈ cs, isIdentChar c = false) :
    moreWordsLength m = 0 := by
  obtain ⟨c, r, hc, hm⟩ := h
  have hend := hm.drop_spaces.endsWord (hcs c hc)
  have h0 := identLength_eq_zero fun c hc => isIdentStart_eq_false (hend c hc)
  rw [moreWordsLength]
  exact if_pos (Or.inr h0)

theorem moreWordsLength_cons (hw : IsIdent w) (hr : EndsWord r) :
    moreWordsLength (' ' :: (w.toList ++ r)) = w.toList.length + 1 + moreWordsLength r := by
  obtain ⟨c, s, hcs, hc, -⟩ := id hw
  have hspace : ¬ c = ' ' := by
    rintro rfl
    exact absurd hc (by decide)
  have htake : ((' ' :: (w.toList ++ r)).takeWhile (· = ' ')).length = 1 := by
    rw [hcs]
    simp [hspace]
  have hident := identLength_append hw hr
  have hne : w.toList.length ≠ 0 := fun h0 => hw.ne_nil (List.length_eq_zero_iff.1 h0)
  rw [moreWordsLength]
  simp only [htake, List.drop_succ_cons, List.drop_zero, hident, hne, or_false, Nat.one_ne_zero,
    if_false]
  rw [Nat.add_comm 1, List.drop_succ_cons, List.drop_left]

theorem endsWord_space : EndsWord (' ' :: r) := by
  intro c hc
  obtain rfl := Option.some.inj hc
  decide

/-- The words after the first one. -/
def moreWords (ws : List String) : List Char := ws.flatMap fun w => ' ' :: w.toList

theorem endsWord_moreWords (hm : EndsWord m) (ws : List String) : EndsWord (moreWords ws ++ m) := by
  cases ws with
  | nil => exact hm
  | cons w ws => exact endsWord_space

theorem moreWordsLength_moreWords (hm : EndsWord m) (h0 : moreWordsLength m = 0) :
    ∀ ws : List String, (∀ w ∈ ws, IsIdent w) →
      moreWordsLength (moreWords ws ++ m) = (moreWords ws).length
  | [], _ => h0
  | w :: ws, hws => by
    have hrec := moreWordsLength_moreWords hm h0 ws fun v hv => hws v (List.mem_cons_of_mem w hv)
    rw [show moreWords (w :: ws) = ' ' :: (w.toList ++ moreWords ws) from rfl, List.cons_append,
      List.append_assoc, moreWordsLength_cons (hws w List.mem_cons_self) (endsWord_moreWords hm ws),
      hrec]
    simp only [List.length_cons, List.length_append]
    omega

theorem intercalate_words (w : String) :
    ∀ ws : List String, [' '].intercalate ((w :: ws).map String.toList) =
      w.toList ++ moreWords ws
  | [] => by simp [moreWords]
  | v :: ws => by
    rw [List.map_cons, List.map_cons, List.intercalate_cons_cons, ← List.map_cons,
      intercalate_words v ws]
    simp [moreWords]

/-- A name is its first word and more words. -/
theorem IsName.exists_words (hn : IsName n) : ∃ w ws, IsIdent w ∧ (∀ v ∈ ws, IsIdent v) ∧
    n = " ".intercalate (w :: ws) ∧ n.toList = w.toList ++ moreWords ws := by
  obtain ⟨ws, hne, hws, rfl⟩ := hn
  cases ws with
  | nil => exact absurd rfl hne
  | cons w ws =>
    refine ⟨w, ws, hws w List.mem_cons_self, fun v hv => hws v (List.mem_cons_of_mem w hv), rfl, ?_⟩
    rw [String.toList_intercalate, ← intercalate_words]
    rfl

theorem reads_namedType (hn : IsName n) (hm : EndsWord m) (h0 : moreWordsLength m = 0) :
    Reads namedType (n.toList ++ m) (.named n) m := by
  obtain ⟨w, ws, hw, hws, hname, hchars⟩ := hn.exists_words
  have hall : ∀ v ∈ w :: ws, IsIdent v := List.forall_mem_cons.2 ⟨hw, hws⟩
  have hlen : wordsLength (n.toList ++ m) = n.toList.length := by
    have hne : w.toList.length ≠ 0 := fun h0 => hw.ne_nil (List.length_eq_zero_iff.1 h0)
    rw [hchars, List.append_assoc, wordsLength, identLength_append hw (endsWord_moreWords hm ws)]
    simp only [hne, if_false, List.drop_left]
    rw [moreWordsLength_moreWords hm h0 ws hws, List.length_append]
  have hsplit : n.toList.splitOn ' ' = (w :: ws).map String.toList := by
    rw [hname, String.toList_intercalate]
    refine List.splitOn_intercalate ' ' (fun l hl hspace => ?_) (List.cons_ne_nil _ _)
    obtain ⟨v, hv, rfl⟩ := List.mem_map.1 hl
    exact absurd ((hall v hv).forall_mem ' ' hspace) (by decide)
  have hfilter : ((w :: ws).map String.toList).filter (!·.isEmpty) =
      (w :: ws).map String.toList := by
    refine List.filter_eq_self.2 fun l hl => ?_
    obtain ⟨v, hv, rfl⟩ := List.mem_map.1 hl
    simp [(hall v hv).ne_nil]
  have hnil : n.toList ≠ [] := by
    rw [hchars]
    exact fun h => hw.ne_nil (List.append_eq_nil_iff.1 h).1
  refine reads_named (reads_bind (reads_run hnil hlen) ?_)
  have hwords : ((w :: ws).map String.toList).map String.ofList = w :: ws := by
    rw [List.map_map, show String.ofList ∘ String.toList = id from
      funext fun v => String.ofList_toList, List.map_id]
  simp only [hsplit, hfilter, hwords, ← hname]
  exact reads_pure

/-! ### Array sizes -/

/-- A text without blanks around it is not skipped, unless it begins as a comment. -/
theorem blankLength_eq_zero_of_trim (hs : s ≠ []) (htrim : Text.trim s = s)
    (hslash : ¬ ['/', '/'] <+: s ++ m) : blankLength false (s ++ m) = 0 := by
  cases s with
  | nil => exact absurd rfl hs
  | cons c s =>
    have hc := Text.isBlank_eq_false_of_trim htrim
    have hne : ∀ d, Text.isBlank d → c ≠ d := by
      rintro d hd rfl
      exact absurd (hd.symm.trans hc) nofun
    have h1 : ¬ (c = '\n' ∨ c = '\r') :=
      not_or.2 ⟨hne '\n' (by decide), hne '\r' (by decide)⟩
    have h2 : ¬ (c = ' ' ∨ c = '\t') := not_or.2 ⟨hne ' ' (by decide), hne '\t' (by decide)⟩
    have h3 : ¬ (c = '/' ∧ (s ++ m).head? = some '/') := by
      rintro ⟨rfl, hd⟩
      obtain ⟨r, hr⟩ := List.head?_eq_some_iff.1 hd
      exact hslash (by rw [List.cons_append, hr]; exact ⟨r, rfl⟩)
    rw [List.cons_append, blankLength, if_neg h1, if_neg Bool.false_ne_true, if_neg h2, if_neg h3]

theorem slashes_prefix_append (hs : s ≠ []) (h : ['/', '/'] <+: s ++ m) :
    ['/', '/'] <+: s ∨ s.getLast? = some '/' ∧ m.head? = some '/' := by
  match s, hs with
  | [c], _ =>
    rw [List.singleton_append, List.cons_prefix_cons] at h
    obtain ⟨rfl, h⟩ := h
    cases m with
    | nil => exact absurd h (by simp)
    | cons d m =>
      obtain ⟨rfl, -⟩ := List.cons_prefix_cons.1 h
      exact Or.inr ⟨rfl, rfl⟩
  | c :: d :: s, _ =>
    rw [List.cons_append, List.cons_append, List.cons_prefix_cons, List.cons_prefix_cons] at h
    obtain ⟨rfl, rfl, -⟩ := h
    exact Or.inl ⟨s, rfl⟩

theorem IsArraySize.blankLength {z : String} (hz : IsArraySize z) (r : List Char) :
    blankLength false (z.toList ++ ']' :: r) = 0 := by
  obtain ⟨hne, htrim, -, hslash⟩ := hz
  have hnil : z.toList ≠ [] := fun h => hne (String.toList_eq_nil_iff.1 h)
  refine blankLength_eq_zero_of_trim hnil htrim fun h => ?_
  rcases slashes_prefix_append hnil h with h | ⟨-, h⟩
  · exact hslash h
  · exact absurd h (by simp)

theorem reads_arraySuffix {size : Option String} (hsize : ∀ z ∈ size, IsArraySize z) :
    Reads arraySuffix ('[' :: ((size.getD "").toList ++ ']' :: m)) size m := by
  have hbracket : ∀ r, Skips (']' :: r) (']' :: r) := fun r => skips_cons rfl
  refine reads_named (reads_bind (reads_word "[") ?_)
  cases size with
  | none =>
    refine reads_bind (reads_opt_none (refuses_next (hbracket m) ?_)) ?_
    · exact refuses_named (refuses_run rfl)
    · exact reads_bind (reads_next (hbracket m) (reads_word "]")) reads_pure
  | some z =>
    have hz := hsize z rfl
    have hskip : Skips (z.toList ++ ']' :: m) (z.toList ++ ']' :: m) := by
      rw [Skips, hz.blankLength, List.drop_zero]
    obtain ⟨hne, htrim, hfree, -⟩ := hz
    have htake : (z.toList ++ ']' :: m).takeWhile (· != ']') = z.toList := by
      rw [List.takeWhile_append_of_pos]
      · simp
      · intro c hc
        rw [bne_iff_ne]
        rintro rfl
        exact hfree hc
    refine reads_bind (reads_opt_some (reads_next hskip (reads_named (reads_run ?_ ?_)))) ?_
    · exact fun h => hne (String.toList_eq_nil_iff.1 h)
    · rw [htake]
    · refine reads_bind (reads_next (hbracket m) (reads_word "]")) ?_
      have hsame : trimmed z.toList = z := by rw [trimmed, htrim, String.ofList_toList]
      rw [Option.map_some, hsame]
      exact reads_pure

end Bindery.Dump
