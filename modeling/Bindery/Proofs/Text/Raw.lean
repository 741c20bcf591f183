import Bindery.Text.Raw
import Mathlib.Data.List.Basic

/-!
# Endings of raw texts

No byte of a longer character is below 128, so the decoder never runs past such a byte, and what
ends in ASCII characters goes on doing so whether its bytes are UTF-8 or not.
-/

namespace Bindery

namespace Text

/-- The bytes of ASCII characters. -/
def asciiBytes (t : List Char) : List UInt8 := t.map Char.toUInt8

def IsAscii (t : List Char) : Prop := ∀ c ∈ t, c.toNat < 0x80

instance (t : List Char) : Decidable (IsAscii t) :=
  List.decidableBAll (fun c : Char => c.toNat < 0x80) t

variable {as bs : List UInt8} {b : UInt8} {t u : List Char} {c d : Char}

theorem IsAscii.append (ht : IsAscii t) (hu : IsAscii u) : IsAscii (t ++ u) := fun c hc =>
  (List.mem_append.1 hc).elim (ht c) (hu c)

theorem toNat_toUInt8 (hc : c.toNat < 0x80) : c.toUInt8.toNat = c.toNat := by
  rw [Char.toUInt8, UInt32.toNat_toUInt8]
  exact Nat.mod_eq_of_lt (Nat.lt_trans hc (by decide))

theorem asciiBytes_append (t u : List Char) : asciiBytes (t ++ u) = asciiBytes t ++ asciiBytes u :=
  List.map_append

/-! ### The decoder stops before ASCII -/

/-- What is read of a character ends before a byte below 128. -/
def StopsAtAscii (read : List UInt8 → Option Char × Nat) : Prop :=
  ∀ b : UInt8, b.toNat < 0x80 → ∀ as bs, read (as ++ b :: bs) = read as ∧ (read as).2 ≤ as.length

theorem decodeTail_append (hb : b.toNat < 0x80) (acc read k : Nat) {lo : Nat} (hlo : 0x80 ≤ lo)
    (hi : Nat) (as bs : List UInt8) :
    decodeTail acc read k lo hi (as ++ b :: bs) = decodeTail acc read k lo hi as ∧
      (decodeTail acc read k lo hi as).2 ≤ read + as.length := by
  induction as generalizing acc read k lo hi with
  | nil =>
    cases k with
    | zero => exact ⟨rfl, Nat.le_refl _⟩
    | succ k =>
      refine ⟨?_, Nat.le_refl _⟩
      show (if lo ≤ b.toNat ∧ b.toNat ≤ hi then _ else (none, read)) = (none, read)
      rw [if_neg (by omega)]
  | cons a as ih =>
    cases k with
    | zero => exact ⟨rfl, Nat.le_add_right _ _⟩
    | succ k =>
      simp only [List.cons_append, decodeTail, List.length_cons]
      split
      · obtain ⟨htail, hlength⟩ :=
          ih (acc * 64 + (a.toNat - 0x80)) (read + 1) k (Nat.le_refl 0x80) 0xBF
        exact ⟨htail, by omega⟩
      · exact ⟨rfl, by omega⟩

theorem stopsAtAscii_decodeTail (acc k : Nat) {lo : Nat} (hlo : 0x80 ≤ lo) (hi : Nat) :
    StopsAtAscii (decodeTail acc 0 k lo hi) := fun b hb as bs => by
  have h := decodeTail_append hb acc 0 k hlo hi as bs
  rwa [Nat.zero_add] at h

theorem stopsAtAscii_const (c : Option Char) : StopsAtAscii fun _ => (c, 0) := fun _ _ _ _ =>
  ⟨rfl, Nat.zero_le _⟩

theorem StopsAtAscii.ite {p : Prop} [Decidable p] {f g : List UInt8 → Option Char × Nat}
    (hf : StopsAtAscii f) (hg : StopsAtAscii g) :
    StopsAtAscii fun bs => if p then f bs else g bs := by
  by_cases h : p
  · simpa only [if_pos h] using hf
  · simpa only [if_neg h] using hg

theorem stopsAtAscii_decodeChar (a : UInt8) : StopsAtAscii (decodeChar a) := by
  have htail : ∀ acc k {lo} hi, 0x80 ≤ lo → StopsAtAscii (decodeTail acc 0 k lo hi) :=
    fun acc k _ hi hlo => stopsAtAscii_decodeTail acc k hlo hi
  exact .ite (stopsAtAscii_const _) (.ite (htail _ _ _ (by decide)) (.ite (htail _ _ _ (by decide))
    (.ite (htail _ _ _ (by decide)) (.ite (htail _ _ _ (by decide)) (.ite (htail _ _ _ (by decide))
      (.ite (htail _ _ _ (by decide)) (.ite (htail _ _ _ (by decide))
        (stopsAtAscii_const _))))))))

theorem decodeUtf8_cons (a : UInt8) (as : List UInt8) :
    decodeUtf8 (a :: as) = (decodeChar a as).1 :: decodeUtf8 (as.drop (decodeChar a as).2) := by
  rw [decodeUtf8]

/-- A byte below 128 is a character, and separates what is before it from what is after it. -/
theorem decodeUtf8_append (hb : b.toNat < 0x80) (as bs : List UInt8) :
    decodeUtf8 (as ++ b :: bs)
      = decodeUtf8 as ++ some (Char.ofNat b.toNat) :: decodeUtf8 bs := by
  match as with
  | [] =>
    have hchar : decodeChar b bs = (some (Char.ofNat b.toNat), 0) := if_pos hb
    rw [List.nil_append, decodeUtf8_cons, hchar, decodeUtf8, List.drop_zero, List.nil_append]
  | a :: as =>
    obtain ⟨hchar, hlength⟩ := stopsAtAscii_decodeChar a b hb as bs
    rw [List.cons_append, decodeUtf8_cons, hchar, List.drop_append_of_le_length hlength,
      decodeUtf8_append hb (as.drop _) bs, decodeUtf8_cons, List.cons_append]
termination_by as.length
decreasing_by simp only [List.length_drop, List.length_cons]; omega

theorem decodeUtf8_append_ascii (ht : IsAscii t) (as : List UInt8) :
    decodeUtf8 (as ++ asciiBytes t) = decodeUtf8 as ++ t.map some := by
  induction t generalizing as with
  | nil => rw [asciiBytes, List.map_nil, List.append_nil, List.map_nil, List.append_nil]
  | cons c t ih =>
    have hc := ht c (List.mem_cons_self ..)
    have hrest := ih (fun d hd => ht d (List.mem_cons_of_mem c hd)) []
    rw [List.nil_append, decodeUtf8, List.nil_append] at hrest
    show decodeUtf8 (as ++ c.toUInt8 :: asciiBytes t) = _
    rw [decodeUtf8_append (by rwa [toNat_toUInt8 hc]), toNat_toUInt8 hc, hrest, Char.ofNat_toNat]
    rfl

/-! ### The encoder -/

theorem toList_loop (bs : ByteArray) (i : Nat) (r : List UInt8) :
    ByteArray.toList.loop bs i r = r.reverse ++ bs.data.toList.drop i := by
  fun_induction ByteArray.toList.loop bs i r with
  | case1 i r h ih =>
    have hi : i < bs.data.toList.length := by simpa using h
    rw [ih, List.drop_eq_getElem_cons hi]
    simp [ByteArray.get!, h]
  | case2 i r h =>
    rw [List.drop_eq_nil_of_le (by simpa using Nat.le_of_not_lt h), List.append_nil]

theorem toList_toUTF8 (s : String) : s.toUTF8.toList = s.toList.flatMap String.utf8EncodeChar := by
  have hbytes : s.toUTF8 = (s.toList.flatMap String.utf8EncodeChar).toByteArray := by
    conv_lhs => rw [← String.ofList_toList (s := s)]
    rw [String.toUTF8_eq_toByteArray, String.toByteArray_ofList]
    rfl
  rw [hbytes, ByteArray.toList, toList_loop, List.toList_data_toByteArray]
  rfl

theorem toList_toUTF8_append (s t : String) :
    (s ++ t).toUTF8.toList = s.toUTF8.toList ++ t.toUTF8.toList := by
  rw [toList_toUTF8, String.toList_append, List.flatMap_append, ← toList_toUTF8, ← toList_toUTF8]

theorem toList_toUTF8_ofList (ht : IsAscii t) : (String.ofList t).toUTF8.toList = asciiBytes t := by
  rw [toList_toUTF8, String.toList_ofList]
  induction t with
  | nil => rfl
  | cons c t ih =>
    have hc := ht c (List.mem_cons_self ..)
    have hsize : c.utf8Size = 1 := by
      rw [Char.utf8Size_eq_one_iff, UInt32.le_iff_toNat_le]
      exact Nat.le_of_lt_succ hc
    rw [List.flatMap_cons, String.utf8EncodeChar_eq_singleton hsize,
      ih fun d hd => ht d (List.mem_cons_of_mem c hd)]
    rfl

end Text

open Text

namespace RawText

variable {x : RawText} {bs : List UInt8} {t u : List Char} {c d : Char}

/-- The last characters of a text, or the last bytes of what is none. -/
def EndsIn (t : List Char) : RawText → Prop
  | .text s => t <:+ s.toList
  | .bytes bs => asciiBytes t <:+ bs

theorem mapM_map_some (cs : List Char) : (cs.map some).mapM id = some cs := by
  induction cs with
  | nil => rfl
  | cons c cs ih =>
    rw [List.map_cons, List.mapM_cons, ih]
    rfl

theorem ofBytes_asciiBytes (ht : IsAscii t) : ofBytes (asciiBytes t) = .text (String.ofList t) := by
  have hdecode := decodeUtf8_append_ascii ht []
  rw [List.nil_append, decodeUtf8, List.nil_append] at hdecode
  rw [ofBytes, hdecode, mapM_map_some]

theorem endsIn_ofBytes (ht : IsAscii t) (bs : List UInt8) :
    (ofBytes (bs ++ asciiBytes t)).EndsIn t := by
  unfold ofBytes
  split
  · next cs hcs =>
    rw [decodeUtf8_append_ascii ht, List.mapM_append, mapM_map_some] at hcs
    obtain ⟨cs', -, hcs⟩ := Option.bind_eq_some_iff.1 hcs
    rw [EndsIn, String.toList_ofList, ← Option.some.inj hcs]
    exact List.suffix_append _ _
  · exact List.suffix_append _ _

/-- What is put behind something keeps its ASCII end. -/
theorem endsIn_append (ht : IsAscii t) (x : RawText) {s : String} (hs : t <:+ s.toList) :
    (x ++ .text s).EndsIn t := by
  obtain ⟨r, hr⟩ := hs
  cases x with
  | text s' =>
    show t <:+ (s' ++ s).toList
    rw [String.toList_append, ← hr, ← List.append_assoc]
    exact List.suffix_append _ _
  | bytes bs =>
    have hbytes : s.toUTF8.toList = (String.ofList r).toUTF8.toList ++ asciiBytes t := by
      rw [← toList_toUTF8_ofList ht, ← toList_toUTF8_append, ← String.ofList_append, hr,
        String.ofList_toList]
    show (ofBytes (bs ++ s.toUTF8.toList)).EndsIn t
    rw [hbytes, ← List.append_assoc]
    exact endsIn_ofBytes ht _

/-- ASCII characters that are put behind others continue them. -/
theorem EndsIn.append (h : x.EndsIn t) (ht : IsAscii t) (hu : IsAscii u) :
    (x ++ .text (String.ofList u)).EndsIn (t ++ u) := by
  cases x with
  | text s =>
    show t ++ u <:+ (s ++ String.ofList u).toList
    rw [String.toList_append, String.toList_ofList]
    exact (List.suffix_append_inj_of_length_eq rfl).2 ⟨h, rfl⟩
  | bytes bs =>
    obtain ⟨bs', rfl⟩ := h
    show (ofBytes (bs' ++ asciiBytes t ++ (String.ofList u).toUTF8.toList)).EndsIn (t ++ u)
    rw [toList_toUTF8_ofList hu, List.append_assoc, ← asciiBytes_append]
    exact endsIn_ofBytes (ht.append hu) bs'

theorem EndsIn.toBytes (h : x.EndsIn t) (ht : IsAscii t) : asciiBytes t <:+ x.toBytes := by
  cases x with
  | text s =>
    obtain ⟨r, hr⟩ := h
    show _ <:+ s.toUTF8.toList
    rw [← String.ofList_toList (s := s), ← hr, String.ofList_append, toList_toUTF8_append,
      toList_toUTF8_ofList ht]
    exact List.suffix_append _ _
  | bytes bs => exact h

/-- There is one last character. -/
theorem EndsIn.unique (hc : x.EndsIn [c]) (hd : x.EndsIn [d]) (hcs : IsAscii [c])
    (hds : IsAscii [d]) : c = d := by
  cases x with
  | text s =>
    have hsuffix := List.suffix_of_suffix_length_le hc hd (Nat.le_refl _)
    exact List.singleton_inj.1 (hsuffix.eq_of_length rfl)
  | bytes bs =>
    have hsuffix := List.suffix_of_suffix_length_le hc hd (Nat.le_refl _)
    have hbyte : c.toUInt8 = d.toUInt8 := List.singleton_inj.1 (hsuffix.eq_of_length rfl)
    have hnat := congrArg UInt8.toNat hbyte
    rw [toNat_toUInt8 (hcs c (List.mem_singleton_self c)),
      toNat_toUInt8 (hds d (List.mem_singleton_self d))] at hnat
    exact Char.toNat_inj.1 hnat

end RawText

end Bindery
