import Bindery.Proofs.Flags

/-!
# Flags by name

The text of a word of flags reads back as that word. `parts` are the names and the number between
the bars; a part has neither a bar nor a blank in it, so splitting and trimming give it back, and
the union of what the parts stand for is the word.
-/

namespace Bindery.Flags

open Text (isBlank trim)

/-! ### Splitting what was joined -/

/-- A part of a list with bars between its parts. -/
def IsPart (s : List Char) : Prop := s ≠ [] ∧ '|' ∉ s ∧ s.any isBlank = false

theorem IsPart.trim_eq {s : List Char} (h : IsPart s) : trim s = s :=
  Text.trim_of_forall (by simpa using h.2.2)

theorem map_trim_splitOn {b p : List Char} {ps : List (List Char)} (hb : ∀ c ∈ b, isBlank c)
    (hbar : '|' ∉ b) (h : ∀ q ∈ p :: ps, IsPart q) :
    ((b ++ [' ', '|', ' '].intercalate (p :: ps)).splitOn '|').map trim = p :: ps := by
  -- the blank behind a bar is the `b` of the parts that follow
  induction ps generalizing b p with
  | nil =>
    have hp := h p (List.mem_cons_self ..)
    have htrim := Text.trim_append_append hb (b := []) (by simp) hp.trim_eq
    rw [List.append_nil] at htrim
    rw [List.intercalate_singleton, List.splitOn_eq_singleton (by simp [hbar, hp.2.1])]
    simp [htrim]
  | cons q qs ih =>
    have hp := h p (List.mem_cons_self ..)
    have hblank : ∀ c ∈ [' '], isBlank c := List.forall_mem_singleton.2 rfl
    have hrest := ih (b := [' ']) (p := q) hblank (by decide)
      fun r hr => h r (List.mem_cons_of_mem p hr)
    have htrim := Text.trim_append_append hb hblank hp.trim_eq
    have hsplit : b ++ [' ', '|', ' '].intercalate (p :: q :: qs)
        = (b ++ (p ++ [' '])) ++ '|' :: ([' '] ++ [' ', '|', ' '].intercalate (q :: qs)) := by
      simp [List.intercalate_cons_cons]
    rw [hsplit, List.splitOn_append_cons_self_of_not_mem (by simp [hbar, hp.2.1]), List.map_cons,
      htrim, hrest]

/-! ### The parts of a text -/

def parts (f : Flags) : List String :=
  (names.filter fun p => f.has p.2).map Prod.fst ++
    if f.unnamed = 0 then [] else ["0x" ++ String.ofList (Text.hexDigits f.unnamed.toNat)]

theorem text_eq (f : Flags) : f.text = " | ".intercalate f.parts := rfl

theorem isPart_name : ∀ p ∈ names, IsPart p.1.toList := by
  simp only [names, IsPart]
  decide

theorem isPart_number (n : Nat) : IsPart ("0x" ++ String.ofList (Text.hexDigits n)).toList := by
  have hbar := Text.forall_mem_hexDigits (P := (· ≠ '|')) (by decide) n
  have hblank := Text.forall_mem_hexDigits (P := (isBlank · = false)) (by decide) n
  refine ⟨by simp, ?_, ?_⟩
  · simp only [String.toList_append, String.toList_ofList, List.mem_append, not_or]
    exact ⟨by decide, fun h => hbar '|' h rfl⟩
  · rw [String.toList_append, String.toList_ofList, List.any_append, Bool.or_eq_false_iff]
    exact ⟨by decide, by simpa using hblank⟩

theorem isPart_of_mem_parts {f : Flags} : ∀ p ∈ f.parts, IsPart p.toList := by
  simp only [parts, List.mem_append, List.mem_map, List.mem_filter]
  rintro p (⟨q, ⟨hq, -⟩, rfl⟩ | hp)
  · exact isPart_name q hq
  · split at hp
    · nomatch hp
    · rw [List.mem_singleton.1 hp]
      exact isPart_number f.unnamed.toNat

theorem ofPart?_name : ∀ p ∈ names, ofPart? p.1.toList = some p.2 := by
  decide

theorem ofPart?_number (f : Flags) :
    ofPart? ("0x" ++ String.ofList (Text.hexDigits f.word.toNat)).toList = some f := by
  have hnumber : hexNumber? (Text.hexDigits f.word.toNat) = some f.word.toNat := by
    have hne := Text.hexDigits_ne_nil f.word.toNat
    have hplus := Text.forall_mem_hexDigits (P := (· ≠ '+')) (by decide) f.word.toNat
    have hvalue := Text.hexValue?_hexDigits f.word.toNat
    cases hs : Text.hexDigits f.word.toNat with
    | nil => exact absurd hs hne
    | cons c s =>
      rw [hs] at hplus hvalue
      have hc := hplus c (List.mem_cons_self ..)
      simp [hexNumber?, hc, hvalue]
  have hlt : f.word.toNat < 0x10000 := f.word.isLt
  simp only [String.toList_append, String.toList_ofList]
  show (do
    let n ← hexNumber? (Text.hexDigits f.word.toNat)
    guard (n < 0x10000)
    return (⟨BitVec.ofNat 16 n⟩ : Flags)) = some f
  simp [hnumber, hlt]

/-! ### Their union -/

/-- The flags of `l` that are set are the part of the word that `l` covers. -/
theorem foldl_filter_has {l : List (String × Flags)} (hl : ∀ p ∈ l, p.2.IsBit) (f g : Flags) :
    (l.filter fun p => f.has p.2).foldl (fun a p => a ∪ p.2) ⟨f.word &&& g.word⟩
      = ⟨f.word &&& (l.foldl (fun a p => a ∪ p.2) g).word⟩ := by
  induction l generalizing g with
  | nil => rfl
  | cons p l ih =>
    have hrest := ih (fun q hq => hl q (List.mem_cons_of_mem p hq)) (g ∪ p.2)
    rw [word_union, BitVec.and_or_distrib_left] at hrest
    rw [List.foldl_cons, ← hrest]
    by_cases hp : f.has p.2
    · rw [List.filter_cons_of_pos (p := fun q : String × Flags => f.has q.2) hp, List.foldl_cons,
        has_iff.1 hp]
      rfl
    · obtain ⟨i, hi, -⟩ := hl p (List.mem_cons_self ..)
      have hzero : f.word &&& p.2.word = 0#16 := by
        have hne : f.word &&& p.2.word ≠ p.2.word := mt has_iff.2 hp
        rw [hi, BitVec.and_twoPow] at hne ⊢
        split at hne
        · exact absurd rfl hne
        · next h => rw [if_neg h]
      rw [List.filter_cons_of_neg (p := fun q : String × Flags => f.has q.2) hp, hzero,
        BitVec.or_zero]

theorem isBit_names : ∀ p ∈ names, p.2.IsBit := by
  simp only [names, List.mem_cons, List.not_mem_nil, or_false]
  rintro p (rfl | rfl | rfl | rfl | rfl | rfl | rfl | rfl)
  exacts [isBit_ignored, isBit_valueType, isBit_bitmask, isBit_readOnly, isBit_incomplete,
    isBit_synthesized, isBit_removed, isBit_renamed]

/-- The named flags and the other bits are the whole word. -/
theorem foldl_names_union_unnamed (f : Flags) :
    (names.filter fun p => f.has p.2).foldl (fun a p => a ∪ p.2) none ∪ ⟨f.unnamed⟩ = f := by
  have h := foldl_filter_has isBit_names f none
  have hall : (names.foldl (fun a p => a ∪ p.2) none).word ||| 0xFF00#16 = BitVec.allOnes 16 := by
    decide
  rw [show f.word &&& none.word = 0#16 from BitVec.and_zero] at h
  rw [show none = (⟨0#16⟩ : Flags) from rfl, h]
  show (⟨(f.word &&& _) ||| (f.word &&& _)⟩ : Flags) = f
  rw [← BitVec.and_or_distrib_left, hall, BitVec.and_allOnes]

/-- Reading a list of parts, once they are split and trimmed. -/
theorem foldlM_ofPart? {ps : List String} {gs : List Flags} (f : Flags)
    (h : List.Forall₂ (fun p g => ofPart? p.toList = some g) ps gs) :
    (ps.map String.toList).foldlM (fun f part => (ofPart? part).map (f ∪ ·)) f
      = some (gs.foldl (· ∪ ·) f) := by
  induction h generalizing f with
  | nil => rfl
  | cons hp _ ih => simp [hp, ih]

theorem foldlM_parts (f : Flags) :
    (f.parts.map String.toList).foldlM (fun f part => (ofPart? part).map (f ∪ ·)) none
      = some f := by
  have hnames : ∀ l : List (String × Flags), (∀ p ∈ l, p ∈ names) →
      List.Forall₂ (fun p g => ofPart? p.toList = some g) (l.map Prod.fst) (l.map Prod.snd) := by
    intro l hl
    induction l with
    | nil => exact .nil
    | cons p l ih =>
      exact .cons (ofPart?_name p (hl p (List.mem_cons_self ..)))
        (ih fun q hq => hl q (List.mem_cons_of_mem p hq))
  have hset := hnames (names.filter fun p => f.has p.2) fun p hp => (List.mem_filter.1 hp).1
  have hunion := foldl_names_union_unnamed f
  rw [← List.foldl_map (f := Prod.snd) (g := (· ∪ ·))] at hunion
  rw [parts]
  split
  · next h0 =>
    rw [show (⟨f.unnamed⟩ : Flags) = none from congrArg mk h0, union_none] at hunion
    rw [List.append_nil, foldlM_ofPart? none hset, hunion]
  · rw [foldlM_ofPart? none (List.rel_append hset (.cons (ofPart?_number ⟨f.unnamed⟩) .nil)),
      List.foldl_append, List.foldl_cons, List.foldl_nil, hunion]

theorem ofText?_text (f : Flags) : ofText? f.text = some f := by
  have hread := foldlM_parts f
  rw [text_eq, ofText?, String.toList_intercalate]
  cases hparts : f.parts with
  | nil =>
    rw [hparts] at hread
    exact hread
  | cons p ps =>
    rw [hparts] at hread
    have hpart : ∀ q ∈ (p :: ps).map String.toList, IsPart q := by
      intro q hq
      obtain ⟨r, hr, rfl⟩ := List.mem_map.1 hq
      exact isPart_of_mem_parts r (hparts ▸ hr)
    have hsplit := map_trim_splitOn (b := []) (by simp) (by simp) hpart
    rw [List.nil_append] at hsplit
    have hblank : (" | ".toList.intercalate ((p :: ps).map String.toList)).all isBlank = false := by
      obtain ⟨hne, -, hp⟩ := hpart _ (List.mem_cons_self ..)
      obtain ⟨c, s, hc⟩ := List.exists_cons_of_ne_nil hne
      refine List.all_eq_false.2 ⟨c, ?_, List.any_eq_false.1 hp c (hc ▸ List.mem_cons_self ..)⟩
      rw [List.map_cons, hc]
      cases ps <;> simp [List.intercalate_cons_cons]
    rw [hblank, if_neg Bool.false_ne_true]
    show ((([' ', '|', ' '].intercalate ((p :: ps).map String.toList)).splitOn '|').foldlM
      (fun f part => (ofPart? (trim part)).map (f ∪ ·)) none) = some f
    rw [List.map_cons, ← hsplit, List.foldlM_map] at hread
    exact hread

end Bindery.Flags
