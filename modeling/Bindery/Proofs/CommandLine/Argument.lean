import Bindery.CommandLine.Argument
import Bindery.CommandLine.Options
import Mathlib.Data.List.Forall2
import Mathlib.Data.List.TakeWhile

/-!
# Spellings of modes are harmless

Arguments from which options are read are left as they are: where an option is due, no other
spelling of a mode means anything, and a value in an argument of its own does not begin with a dash.
So all that `normalize` does is to take the other spellings of the modes back to the one that is
read.
-/

namespace Bindery

namespace Argument

/-- The second letter is the first one or the capital letter for it. -/
def SameLetter (c d : Char) : Prop := d = c ∨ d = c.toUpper

instance (c d : Char) : Decidable (SameLetter c d) := inferInstanceAs (Decidable (_ ∨ _))

/-- A mode with one dash or two before it, and with letters of either case. -/
def IsSpelling (mode s : String) : Prop :=
  ∃ dashes letters, (dashes = ['-'] ∨ dashes = ['-', '-']) ∧
    List.Forall₂ SameLetter mode.toList letters ∧ s.toList = dashes ++ letters

/-- The second argument is the first one, or another spelling of the mode that the first one is. -/
def Respells (x y : RawText) : Prop :=
  y = x ∨ ∃ mode ∈ modes, x = .text ("--" ++ mode) ∧ ∃ s, y = .text s ∧ IsSpelling mode s

variable {c : Char} {m s : String} {x y : RawText} {xs ys : List RawText} {letters : List Char}

/-! ### Letters -/

theorem sameLetter_toLower (c : Char) : SameLetter c.toLower c := by
  have hsmall : ∀ n < 128, SameLetter (Char.ofNat n).toLower (Char.ofNat n) := by decide
  rcases Nat.lt_or_ge c.toNat 128 with h | h
  · rw [← Char.ofNat_toNat c]
    exact hsmall _ h
  · have hlower : c.toLower = c := dif_neg fun hc => by
      have := UInt32.le_iff_toNat_le.1 hc.2
      exact absurd (Nat.le_trans h this) (by decide)
    exact Or.inl hlower.symm

theorem map_toLower (hm : m ∈ modes) (h : List.Forall₂ SameLetter m.toList letters) :
    letters.map Char.toLower = m.toList := by
  have hletters : ∀ m ∈ modes,
      m.toList.all fun c => c.toLower = c ∧ c.toUpper.toLower = c := by decide
  have hall := hletters m hm
  generalize m.toList = cs at h hall
  induction h with
  | nil => rfl
  | @cons c d cs ds hd _ ih =>
    rw [List.all_cons, Bool.and_eq_true, decide_eq_true_eq] at hall
    obtain ⟨hc, hcs⟩ := hall
    have hd : d.toLower = c := by
      rcases hd with rfl | rfl
      · exact hc.1
      · exact hc.2
    rw [List.map_cons, hd, ih hcs]

theorem forall₂_map_toLower : ∀ cs : List Char,
    List.Forall₂ SameLetter (cs.map Char.toLower) cs
  | [] => .nil
  | c :: cs => .cons (sameLetter_toLower c) (forall₂_map_toLower cs)

theorem eq_dash_of_toLower (h : c.toLower = '-') : c = '-' := by
  have hc := sameLetter_toLower c
  rw [h] at hc
  exact hc.elim id id

/-! ### Modes -/

theorem isSpelling_of_mode? (h : mode? s = some m) : m ∈ modes ∧ IsSpelling m s := by
  rw [mode?] at h
  split at h
  · next hdashes =>
    have hmap : (s.toList.map Char.toLower).dropWhile (· = '-') =
        (s.toList.dropWhile (·.toLower = '-')).map Char.toLower := List.dropWhile_map ..
    rw [hmap, List.length_map, List.length_map] at hdashes
    rw [hmap] at h
    have hflag : m.toList = (s.toList.dropWhile (·.toLower = '-')).map Char.toLower := by
      simpa using List.find?_some h
    have hsplit := (List.takeWhile_append_dropWhile (p := (·.toLower = '-')) (l := s.toList)).symm
    have hall : ∀ c ∈ s.toList.takeWhile (·.toLower = '-'), c = '-' := fun c hc => by
      have hlower := List.mem_takeWhile_imp (p := fun c : Char => decide (c.toLower = '-')) hc
      exact eq_dash_of_toLower (of_decide_eq_true hlower)
    have hlength := congrArg List.length hsplit
    rw [List.length_append] at hlength
    rw [hlength, Nat.add_sub_cancel] at hdashes
    refine ⟨List.mem_of_find?_eq_some h, _, _, ?_, hflag ▸ forall₂_map_toLower _, hsplit⟩
    rw [List.eq_replicate_of_mem hall]
    rcases hdashes with hd | hd <;> simp [hd]
  · nomatch h

theorem mode?_of_isSpelling (hm : m ∈ modes) (h : IsSpelling m s) : mode? s = some m := by
  obtain ⟨dashes, letters, hdashes, hletters, hs⟩ := h
  have hlowered : s.toList.map Char.toLower = dashes ++ m.toList := by
    rw [hs, List.map_append, map_toLower hm hletters]
    rcases hdashes with rfl | rfl <;> rfl
  have hmodes : ∀ m ∈ modes, m.toList.dropWhile (· = '-') = m.toList ∧
      modes.find? (·.toList == m.toList) = some m := by decide
  obtain ⟨hdrop, hfind⟩ := hmodes m hm
  have hflag : (dashes ++ m.toList).dropWhile (· = '-') = m.toList := by
    rcases hdashes with rfl | rfl <;> simpa using hdrop
  have hlength : dashes.length = 1 ∨ dashes.length = 2 := by
    rcases hdashes with rfl | rfl <;> simp
  simp only [mode?, hlowered, hflag, List.length_append, Nat.add_sub_cancel, hfind]
  rw [if_pos hlength]

/-- The spellings of the modes are just what is taken for them. -/
theorem mode?_eq_some_iff : mode? s = some m ↔ m ∈ modes ∧ IsSpelling m s :=
  ⟨isSpelling_of_mode?, fun h => mode?_of_isSpelling h.1 h.2⟩

theorem isSpelling_self (m : String) : IsSpelling m ("--" ++ m) :=
  ⟨['-', '-'], m.toList, Or.inr rfl, List.forall₂_same.2 fun _ _ => Or.inl rfl,
    String.toList_append ..⟩

theorem normalizeOne_of_isSpelling (hm : m ∈ modes) (h : IsSpelling m s) :
    normalizeOne (.text s) = .text ("--" ++ m) := by
  rw [normalizeOne, mode?_eq_some_iff.2 ⟨hm, h⟩]

theorem normalizeOne_normalizeOne (x : RawText) :
    normalizeOne (normalizeOne x) = normalizeOne x := by
  cases x with
  | bytes bs => rfl
  | text s =>
    cases hmode : mode? s with
    | none =>
      have hself : normalizeOne (.text s) = .text s := by rw [normalizeOne, hmode]
      rw [hself, hself]
    | some m =>
      obtain ⟨hm, hs⟩ := mode?_eq_some_iff.1 hmode
      rw [normalizeOne_of_isSpelling hm hs, normalizeOne_of_isSpelling hm (isSpelling_self m)]

/-- Other spellings are taken back. -/
theorem normalizeOne_of_respells (hx : normalizeOne x = x) (h : Respells x y) :
    normalizeOne y = x := by
  rcases h with rfl | ⟨m, hm, rfl, s, rfl, hs⟩
  · exact hx
  · exact normalizeOne_of_isSpelling hm hs

end Argument

namespace Options

open Argument

variable {o : Options} {r r' : Reading} {x : RawText} {xs : List RawText} {m s : String}
  {letters : List Char}

/-! ### Reading -/

theorem exists_of_bind {α β : Type} {p : Except Refusal α} {f : α → Except Refusal β} {y : β}
    (h : p >>= f = .ok y) : ∃ x, p = .ok x ∧ f x = .ok y := by
  cases p with
  | error e => nomatch h
  | ok x => exact ⟨x, rfl, h⟩

/-- A reading goes on with each argument but the last one. -/
theorem exists_readFrom (h : readFrom r (x :: xs) = .ok o) :
    xs = [] ∨ ∃ r', readFrom r' xs = .ok o := by
  rw [readFrom] at h
  cases hform : formOf x with
  | dashes =>
    cases xs with
    | nil => exact Or.inl rfl
    | cons y ys =>
      rw [hform] at h
      nomatch h
  | long name value =>
    rw [hform] at h
    obtain ⟨r', -, h⟩ := exists_of_bind h
    exact Or.inr ⟨r', h⟩
  | short letters isText =>
    rw [hform] at h
    obtain ⟨r', -, h⟩ := exists_of_bind h
    exact Or.inr ⟨r', h⟩
  | plain =>
    rw [hform] at h
    obtain ⟨r', -, h⟩ := exists_of_bind h
    exact Or.inr ⟨r', h⟩

/-- No switch has the first letter of a mode. -/
theorem readShort_of_mode (hm : m ∈ modes) (h : List.Forall₂ SameLetter m.toList letters)
    (isText : Bool) : readShort r letters isText ≠ .ok r' := by
  have hfirst : ∀ m ∈ modes, ∃ c cs, m.toList = c :: cs ∧ shortNames.lookup c = none ∧
      shortNames.lookup c.toUpper = none := by
    simp only [modes, List.forall_mem_cons]
    exact ⟨⟨_, _, rfl, rfl, rfl⟩, ⟨_, _, rfl, rfl, rfl⟩, ⟨_, _, rfl, rfl, rfl⟩,
      List.forall_mem_nil _⟩
  obtain ⟨c, cs, hc, hlower, hupper⟩ := hfirst m hm
  rw [hc] at h
  cases h with
  | @cons _ d _ ds hd _ =>
    have hnone : shortNames.lookup d = none := by
      rcases hd with rfl | rfl
      · exact hlower
      · exact hupper
    have hswitches : switchesOf (d :: ds) = [] := by
      rw [switchesOf, List.map_cons, hnone]
      rfl
    rw [readShort, hswitches]
    simp [readSwitches, bind, Except.bind]

/-- The names of options have small letters. -/
theorem readLong_of_mode (hm : m ∈ modes) (hletters : List.Forall₂ SameLetter m.toList letters)
    (h : readLong r (some (String.ofList letters)) none = .ok r') : letters = m.toList := by
  have hsmall : ∀ p ∈ longNames, p.1.toList.map Char.toLower = p.1.toList := by decide
  cases hlookup : longNames.lookup (String.ofList letters) with
  | none =>
    simp only [readLong, Option.bind_some, hlookup] at h
    nomatch h
  | some name =>
    obtain ⟨p, hp, heq⟩ := List.lookup_isSome_iff.1 (Option.isSome_of_eq_some hlookup)
    have hname : p.1.toList = letters := by rw [← eq_of_beq heq, String.toList_ofList]
    have hlower := hsmall p hp
    rw [hname, map_toLower hm hletters] at hlower
    exact hlower.symm

theorem cutAt_of_notMem {α : Type} [BEq α] [LawfulBEq α] {a : α} {l : List α} (h : a ∉ l) :
    cutAt a l = (l, none) := by
  have hdrop : l.dropWhile (· != a) = [] := by
    rw [List.dropWhile_eq_nil_iff]
    exact fun b hb => bne_iff_ne.2 fun hab => h (hab ▸ hb)
  rw [cutAt, hdrop]

/-- Of the spellings of a mode, only one means something. -/
theorem eq_of_readFrom_mode (hm : m ∈ modes) (hs : IsSpelling m s)
    (h : readFrom r (.text s :: xs) = .ok o) : s = "--" ++ m := by
  obtain ⟨dashes, letters, hdashes, hletters, hs⟩ := hs
  have hmodes : ∀ m ∈ modes, m.toList ≠ [] ∧ '-' ∉ m.toList ∧ '=' ∉ m.toList := by decide
  obtain ⟨hne, hdash, hequals⟩ := hmodes m hm
  have hlower := map_toLower hm hletters
  have hfree : ∀ c, c.toLower = c → c ∉ m.toList → c ∉ letters := fun c hc hcm hcl =>
    hcm (hlower ▸ List.mem_map.2 ⟨c, hcl, hc⟩)
  replace hdash := hfree '-' rfl hdash
  replace hequals := hfree '=' rfl hequals
  obtain ⟨d, ds, rfl⟩ : ∃ d ds, letters = d :: ds :=
    List.exists_cons_of_ne_nil fun hnil => hne (by rw [← hlower, hnil]; rfl)
  rw [readFrom] at h
  rcases hdashes with rfl | rfl
  · have hform : formOf (.text s) = .short (d :: ds) true := by
      have hd : d ≠ '-' := fun hd => hdash (hd ▸ List.mem_cons_self)
      simp [formOf, hs, hd]
    rw [hform] at h
    obtain ⟨r', hr, -⟩ := exists_of_bind h
    exact absurd hr (readShort_of_mode hm hletters true)
  · have hform : formOf (.text s) = .long (some (String.ofList (d :: ds))) none := by
      simp [formOf, hs, cutAt_of_notMem hequals]
    rw [hform] at h
    obtain ⟨r', hr, -⟩ := exists_of_bind h
    rw [← String.toList_inj, hs, String.toList_append, ← readLong_of_mode hm hletters hr]
    rfl

theorem normalizeOne_of_readFrom (h : readFrom r (x :: xs) = .ok o) : normalizeOne x = x := by
  cases x with
  | bytes bs => rfl
  | text s =>
    cases hmode : mode? s with
    | none => rw [normalizeOne, hmode]
    | some m =>
      obtain ⟨hm, hs⟩ := mode?_eq_some_iff.1 hmode
      rw [normalizeOne_of_isSpelling hm hs, eq_of_readFrom_mode hm hs h]

theorem normalizeOne_of_mem : ∀ {xs : List RawText} {r : Reading}, readFrom r xs = .ok o →
    ∀ x ∈ xs, normalizeOne x = x
  | [], _, _ => nofun
  | x :: xs, _, h => by
    refine List.forall_mem_cons.2 ⟨normalizeOne_of_readFrom h, ?_⟩
    rcases exists_readFrom h with rfl | ⟨r', h⟩
    · exact nofun
    · exact normalizeOne_of_mem h

end Options

namespace Argument

variable {xs ys : List RawText} {o : Options}

theorem normalize_of_forall₂ (hxs : ∀ x ∈ xs, normalizeOne x = x)
    (h : List.Forall₂ Respells xs ys) :
    normalize ys = xs := by
  induction h with
  | nil => rfl
  | @cons x y xs ys hxy _ ih =>
    obtain ⟨hx, hxs⟩ := List.forall_mem_cons.1 hxs
    rw [normalize, List.map_cons, normalizeOne_of_respells hx hxy, ← normalize, ih hxs]

/-- Arguments are normalized once and for all; those from which options are read stay as they are,
and other spellings of their modes are taken back to them. -/
theorem normalize_conservative (xs : List RawText) :
    normalize (normalize xs) = normalize xs ∧
      ∀ {o : Options}, Options.read xs = .ok o → normalize xs = xs ∧
        ∀ {ys : List RawText}, List.Forall₂ Respells xs ys →
          normalize ys = xs ∧ Options.read (normalize ys) = .ok o := by
  refine ⟨?_, fun {o} h => ?_⟩
  · rw [normalize, normalize, List.map_map]
    exact List.map_congr_left fun x _ => normalizeOne_normalizeOne x
  · have hxs := Options.normalizeOne_of_mem h
    have hsame : List.Forall₂ Respells xs xs := List.forall₂_same.2 fun _ _ => Or.inl rfl
    refine ⟨normalize_of_forall₂ hxs hsame, fun hys => ?_⟩
    have hback := normalize_of_forall₂ hxs hys
    exact ⟨hback, hback ▸ h⟩

/-- A dump whose path is no text, and modes in several spellings. -/
theorem normalize_conservative_bytes :
    Options.read [.text "--old", .text "--dump", .bytes [105, 255], .text "--cln"] =
        .ok { old := true, clean := true, dump := some (.bytes [105, 255]) } ∧
      List.Forall₂ Respells [.text "--old", .text "--dump", .bytes [105, 255], .text "--cln"]
        [.text "-OLD", .text "--dump", .bytes [105, 255], .text "--Cln"] ∧
      normalize [.text "-OLD", .text "--dump", .bytes [105, 255], .text "--Cln"] =
        [.text "--old", .text "--dump", .bytes [105, 255], .text "--cln"] := by
  have hread : Options.read [.text "--old", .text "--dump", .bytes [105, 255], .text "--cln"] =
      .ok { old := true, clean := true, dump := some (.bytes [105, 255]) } := by decide +kernel
  have hspelling : ∀ {m s : String}, m ∈ modes → mode? s = some m →
      Respells (.text ("--" ++ m)) (.text s) := fun hm hs =>
    Or.inr ⟨_, hm, rfl, _, rfl, (mode?_eq_some_iff.1 hs).2⟩
  have hrespells : List.Forall₂ Respells
      [.text "--old", .text "--dump", .bytes [105, 255], .text "--cln"]
      [.text "-OLD", .text "--dump", .bytes [105, 255], .text "--Cln"] :=
    .cons (hspelling (m := "old") (by decide) (by decide +kernel)) <| .cons (Or.inl rfl) <|
      .cons (Or.inl rfl) <|
      .cons (hspelling (m := "cln") (by decide) (by decide +kernel)) .nil
  exact ⟨hread, hrespells,
    (((normalize_conservative _).2 hread).2 hrespells).1⟩

end Argument

end Bindery
