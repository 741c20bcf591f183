import Bindery.Proofs.Dump.Formed
import Bindery.Proofs.Text.Lines

/-!
# Types that their texts tell apart

Where each suffix stands behind a type that cannot take it up (`IsBound`), the text of a type can be
read in one way only, whatever may follow it: its words come first, then what stands in brackets,
and the suffixes behind that are its own.
-/

namespace Bindery.TypeRef

open Dump (isIdentChar opening closing)

variable {b b' t u : TypeRef} {ts us : List TypeRef} {x y : List Char} {c : Char}
  {stars stars' : List Unit} {z z' : Option (Option String)}

/-- Every suffix is behind a type that cannot take it up: behind a function only if its result ends
in an array already. -/
def IsBound : TypeRef → Prop := FormedBy (fun r => r.isArray) fun s => s ≠ "" ∧ ']' ∉ s.toList

/-- The text may follow the type: it is no suffix, or nothing takes up a suffix there. -/
def Follows (t : TypeRef) (x : List Char) : Prop :=
  ∀ c ∈ x.head?, c ∈ closing ∨ t.isArray ∧ (c = '*' ∨ c = '[')

/-! ### Suffixes -/

/-- Stars, and perhaps the size of an array. -/
def suffix (stars : List Unit) (z : Option (Option String)) : List Char :=
  (stars.map fun _ => '*') ++ z.elim [] fun size => '[' :: ((size.getD "").toList ++ [']'])

/-- The size of an array has a text of its own. -/
def HasSize (z : Option (Option String)) : Prop :=
  ∀ size ∈ z, ∀ s ∈ size, s ≠ "" ∧ ']' ∉ s.toList

/-- What may be behind a suffix, or in its place if there is none. -/
def Closes (z : Option (Option String)) (x : List Char) : Prop :=
  ∀ c ∈ x.head?, c ∈ closing ∨ z.isSome ∧ (c = '*' ∨ c = '[')

theorem suffix_nil_ne_star (hx : Closes z x) : ∀ c ∈ (suffix [] z ++ x).head?, c ≠ '*' := by
  rintro c hc rfl
  cases z with
  | none =>
    rcases hx '*' hc with h | ⟨h, -⟩
    · exact absurd h (by decide)
    · cases h
  | some size => cases hc

/-- The text of a size that is not empty is not that of an array without one. -/
theorem size_inj {size size' : Option String} (hsize : ∀ s ∈ size, s ≠ "")
    (hsize' : ∀ s ∈ size', s ≠ "") (h : size.getD "" = size'.getD "") : size = size' := by
  cases size with
  | none =>
    cases size' with
    | none => rfl
    | some s' => exact absurd h.symm (hsize' s' rfl)
  | some s =>
    cases size' with
    | none => exact absurd h (hsize s rfl)
    | some s' => exact congrArg some h

theorem suffix_nil_append_inj (hz : HasSize z) (hz' : HasSize z') (hx : Closes z x)
    (hy : Closes z' y) (h : suffix [] z ++ x = suffix [] z' ++ y) : z = z' ∧ x = y := by
  have hno : ∀ {v w : List Char}, Closes none v → v ≠ '[' :: w := by
    rintro v w hv rfl
    rcases hv '[' rfl with h | ⟨h, -⟩
    · exact absurd h (by decide)
    · cases h
  have hfree : ∀ {size : Option String}, (∀ s ∈ size, s ≠ "" ∧ ']' ∉ s.toList) →
      ']' ∉ (size.getD "").toList := by
    intro size hsize
    cases size with
    | none => exact List.not_mem_nil
    | some s => exact (hsize s rfl).2
  cases z with
  | none =>
    cases z' with
    | none => exact ⟨rfl, h⟩
    | some size' => exact absurd h (hno hx)
  | some size =>
    cases z' with
    | none => exact absurd h.symm (hno hy)
    | some size' =>
      have hsize := hz size rfl
      have hsize' := hz' size' rfl
      replace h : '[' :: ((size.getD "").toList ++ [']']) ++ x =
        '[' :: ((size'.getD "").toList ++ [']']) ++ y := h
      rw [List.cons_append, List.cons_append, List.append_assoc, List.append_assoc] at h
      obtain ⟨hsame, hxy⟩ := Text.append_cons_inj (hfree hsize) (hfree hsize') (List.cons.inj h).2
      have hsizes := size_inj (fun s hs => (hsize s hs).1) (fun s hs => (hsize' s hs).1)
        (String.toList_inj.1 hsame)
      exact ⟨congrArg some hsizes, hxy⟩

theorem suffix_append_inj (hz : HasSize z) (hz' : HasSize z') (hx : Closes z x)
    (hy : Closes z' y) (h : suffix stars z ++ x = suffix stars' z' ++ y) :
    stars = stars' ∧ z = z' ∧ x = y := by
  induction stars generalizing stars' with
  | nil =>
    cases stars' with
    | nil => exact ⟨rfl, suffix_nil_append_inj hz hz' hx hy h⟩
    | cons _ stars' => exact absurd rfl (suffix_nil_ne_star hx '*' (by rw [h]; rfl))
  | cons _ stars ih =>
    cases stars' with
    | nil => exact absurd rfl (suffix_nil_ne_star hy '*' (by rw [← h]; rfl))
    | cons _ stars' =>
      obtain ⟨hstars, hrest⟩ := ih (List.cons.inj h).2
      exact ⟨congrArg _ hstars, hrest⟩

/-! ### Bases -/

/-- A type that ends without a suffix. -/
def isBase : TypeRef → Bool
  | .named _ | .specialization _ _ | .function _ _ => true
  | .pointer _ | .array _ _ => false

/-- The base ends before the text, of which it takes up nothing. -/
structure EndsBefore (b : TypeRef) (x : List Char) : Prop where
  isBase : b.isBase
  bound : b.All IsBound
  head : ∀ c ∈ x.head?, c ∈ opening
  result : ∀ r ∈ b.returns?, Follows r x

theorem head?_suffix_append (hx : Closes z x) :
    ∀ c ∈ (suffix stars z ++ x).head?, c ∈ opening := by
  intro c hc
  cases stars with
  | cons _ stars =>
    obtain rfl : '*' = c := Option.some.inj hc
    decide
  | nil =>
    cases z with
    | some size =>
      obtain rfl : '[' = c := Option.some.inj hc
      decide
    | none =>
      rcases hx c hc with h | ⟨h, -⟩
      · exact List.mem_cons_of_mem _ (List.mem_cons_of_mem _ h)
      · cases h

/-- A base that takes a suffix, or has none, ends before it. -/
theorem endsBefore_suffix (hbase : b.isBase) (hall : b.All IsBound)
    (hb : b.TakesSuffix (fun r => r.isArray) ∨ stars = [] ∧ z = none) (hx : Closes z x) :
    b.EndsBefore (suffix stars z ++ x) := by
  refine ⟨hbase, hall, head?_suffix_append hx, fun r hr c hc => ?_⟩
  rcases hb with hb | ⟨rfl, rfl⟩
  · have hopen := head?_suffix_append hx c hc
    rw [opening, List.mem_cons, List.mem_cons] at hopen
    rcases hopen with h | h | h
    · exact .inr ⟨hb.2 r hr, .inl h⟩
    · exact .inr ⟨hb.2 r hr, .inr h⟩
    · exact .inl h
  · exact .inl ((hx c hc).resolve_right fun h => Bool.false_ne_true h.1)

/-- What stands behind the stars of a type. -/
theorem exists_base_of_not_isArray : ∀ {t : TypeRef}, t.All IsBound → t.isArray = false →
    ∃ b stars, t = pointers stars b ∧ b.isBase ∧ b.All IsBound ∧
      t.spelling.toList = b.spelling.toList ++ stars.map (fun _ => '*') ∧
      (b.TakesSuffix (fun r => r.isArray) ∨ stars = [])
  | .named n, h, _ => ⟨_, [], rfl, rfl, h, by simp, .inr rfl⟩
  | .specialization n args, h, _ => ⟨_, [], rfl, rfl, h, by simp, .inr rfl⟩
  | .function r ps, h, _ => ⟨_, [], rfl, rfl, h, by simp, .inr rfl⟩
  | .pointer t, h, _ => by
    rw [All] at h
    obtain ⟨hsuffix, hall⟩ := h
    replace hsuffix : t.TakesSuffix (fun r => r.isArray) := hsuffix
    obtain ⟨b, stars, rfl, hb, hball, hs, hor⟩ := exists_base_of_not_isArray hall hsuffix.1
    refine ⟨b, stars ++ [()], ?_, hb, hball, ?_, .inl ?_⟩
    · rw [pointers, pointers, List.foldl_append]
      rfl
    · rw [toList_spelling_pointer, hs, List.map_append, List.append_assoc]
      rfl
    · rcases hor with h | rfl
      · exact h
      · exact hsuffix

/-- A type is a base with stars and perhaps a size behind it. -/
theorem exists_base (h : t.All IsBound) : ∃ b stars z,
    t = z.elim (pointers stars b) (array (pointers stars b)) ∧
      t.spelling.toList = b.spelling.toList ++ suffix stars z ∧ HasSize z ∧
      ∀ x, Follows t x → Closes z x ∧ b.EndsBefore (suffix stars z ++ x) := by
  by_cases ha : t.isArray
  · obtain ⟨t, size, rfl⟩ : ∃ v size, t = array v size := by
      cases t <;> first | exact ⟨_, _, rfl⟩ | cases ha
    rw [All] at h
    obtain ⟨⟨hsuffix, hsize⟩, hall⟩ := h
    obtain ⟨b, stars, rfl, hb, hball, hs, hor⟩ := exists_base_of_not_isArray hall hsuffix.1
    refine ⟨b, stars, some size, rfl, ?_, ?_, fun x hx => ?_⟩
    · rw [toList_spelling_array, hs, List.append_assoc]
      rfl
    · intro z hz
      obtain rfl := Option.some.inj hz
      exact hsize
    · refine ⟨hx, endsBefore_suffix hb hball (.inl ?_) hx⟩
      rcases hor with h | rfl
      · exact h
      · exact hsuffix
  · rw [Bool.not_eq_true] at ha
    obtain ⟨b, stars, rfl, hb, hball, hs, hor⟩ := exists_base_of_not_isArray h ha
    refine ⟨b, stars, none, rfl, ?_, nofun, fun x hx => ?_⟩
    · rw [hs, suffix, Option.elim_none, List.append_nil]
    · have hcloses : Closes none x := fun c hc =>
        .inl ((hx c hc).resolve_right fun h => absurd (ha.symm.trans h.1) nofun)
      exact ⟨hcloses, endsBefore_suffix hb hball (hor.imp_right fun h => ⟨h, rfl⟩) hcloses⟩

/-! ### Words and what stands behind them -/

def isWordChar (c : Char) : Bool := isIdentChar c || c = ' '

/-- The words at the front of a base. -/
def words : TypeRef → List Char
  | .named n | .specialization n _ => n.toList
  | .function _ _ => "fn".toList
  | .pointer _ | .array _ _ => []

def details : TypeRef → List Char
  | .specialization _ args => '<' :: ((spellings args).toList ++ ['>'])
  | .function r ps => '(' :: ((spellings ps).toList ++
      ')' :: ' ' :: '-' :: '>' :: ' ' :: r.spelling.toList)
  | .named _ | .pointer _ | .array _ _ => []

theorem spelling_of_isBase (hb : b.isBase) : b.spelling.toList = b.words ++ b.details := by
  cases b with
  | named n => simp [words, details, spelling]
  | specialization n args => exact toList_spelling_specialization n args
  | function r ps => exact toList_spelling_function r ps
  | pointer t => cases hb
  | array t z => cases hb

theorem words_of_isBase (hb : b.isBase) (h : b.All IsBound) :
    b.words ≠ [] ∧ ∀ c ∈ b.words, isWordChar c := by
  have hwords : ∀ {n : String}, Dump.IsWords n → n.toList ≠ [] ∧ ∀ c ∈ n.toList, isWordChar c :=
    fun ⟨hne, hn⟩ => ⟨hne, fun c hc => by simpa [isWordChar] using hn c hc⟩
  cases b with
  | named n => exact hwords h
  | specialization n args =>
    rw [All] at h
    exact hwords h.1.1
  | function r ps =>
    exact ⟨List.cons_ne_nil _ _, List.all_eq_true.1 (by decide : "fn".toList.all isWordChar)⟩
  | pointer t => cases hb
  | array t z => cases hb

theorem isWordChar_opening : ∀ c ∈ opening, isWordChar c = false := fun c hc =>
  (Bool.not_eq_eq_eq_not ..).1 <|
    List.all_eq_true.1 (by decide : opening.all fun c => !isWordChar c) c hc

/-- The words of a base end where what stands behind them begins. -/
theorem EndsBefore.isWordChar_head? (h : b.EndsBefore x) :
    ∀ c ∈ (b.details ++ x).head?, isWordChar c = false := by
  intro c hc
  cases b with
  | named n => exact isWordChar_opening c (h.head c hc)
  | specialization n args =>
    obtain rfl : '<' = c := Option.some.inj hc
    decide
  | function r ps =>
    obtain rfl : '(' = c := Option.some.inj hc
    decide
  | pointer t => cases h.isBase
  | array t size => cases h.isBase

theorem exists_spelling_cons (h : t.All IsBound) :
    ∃ c s, t.spelling.toList = c :: s ∧ isWordChar c := by
  obtain ⟨b, stars, z, -, hs, -, hends⟩ := exists_base h
  obtain ⟨-, hb⟩ := hends [] nofun
  obtain ⟨hne, hwords⟩ := words_of_isBase hb.isBase hb.bound
  obtain ⟨c, s, hcs⟩ := List.exists_cons_of_ne_nil hne
  refine ⟨c, s ++ b.details ++ suffix stars z, ?_, hwords c (hcs ▸ List.mem_cons_self ..)⟩
  rw [hs, spelling_of_isBase hb.isBase, hcs, List.cons_append, List.cons_append]

/-! ### Types from their texts -/

/-- A text begins with one type at most, of less than `k` characters. -/
def IsUnique (k : Nat) : Prop :=
  ∀ {t u : TypeRef} {x y : List Char}, t.spelling.toList.length < k → t.All IsBound →
    u.All IsBound → Follows t x → Follows u y →
    t.spelling.toList ++ x = u.spelling.toList ++ y → t = u ∧ x = y

section
variable {k : Nat} (ih : IsUnique k) (hc : c = ')' ∨ c = '>')
include ih hc

omit ih in
theorem follows_moreSpellings (t : TypeRef) (ts : List TypeRef) :
    Follows t (moreSpellings ts ++ c :: x) := by
  intro d hd
  cases ts with
  | nil =>
    obtain rfl := Option.some.inj hd
    rcases hc with rfl | rfl <;> exact .inl (by decide)
  | cons u ts =>
    obtain rfl := Option.some.inj hd
    exact .inl (by decide)

theorem moreSpellings_append_inj : ∀ {ts us : List TypeRef}, (moreSpellings ts).length < k →
    AllEach IsBound ts → AllEach IsBound us →
    moreSpellings ts ++ c :: x = moreSpellings us ++ c :: y → ts = us ∧ x = y
  | [], [], _, _, _, h => ⟨rfl, (List.cons.inj h).2⟩
  | [], u :: us, _, _, _, h => by
    obtain rfl := (List.cons.inj h).1
    rcases hc with h | h <;> cases h
  | t :: ts, [], _, _, _, h => by
    obtain rfl := (List.cons.inj h).1
    rcases hc with h | h <;> cases h
  | t :: ts, u :: us, hk, hts, hus, h => by
    have hcons : ∀ (t : TypeRef) (ts : List TypeRef) (v : List Char), moreSpellings (t :: ts) ++ v =
        ',' :: ' ' :: (t.spelling.toList ++ (moreSpellings ts ++ v)) :=
      fun t ts v => by simp [moreSpellings]
    have hlength := congrArg List.length (hcons t ts [])
    simp only [List.append_nil, List.length_cons, List.length_append] at hlength
    rw [hcons, hcons] at h
    have h := (List.cons.inj (List.cons.inj h).2).2
    obtain ⟨rfl, hrest⟩ := ih (by omega) hts.1 hus.1 (follows_moreSpellings hc t ts)
      (follows_moreSpellings hc u us) h
    obtain ⟨rfl, hxy⟩ := moreSpellings_append_inj (by omega) hts.2 hus.2 hrest
    exact ⟨rfl, hxy⟩

theorem spellings_append_inj (hk : (spellings ts).toList.length < k) (hts : AllEach IsBound ts)
    (hus : AllEach IsBound us)
    (h : (spellings ts).toList ++ c :: x = (spellings us).toList ++ c :: y) : ts = us ∧ x = y := by
  have hne : ∀ {t : TypeRef} {ts : List TypeRef} {v w : List Char}, t.All IsBound →
      (spellings (t :: ts)).toList ++ v ≠ c :: w := by
    intro t ts v w ht h
    obtain ⟨d, s, hs, hd⟩ := exists_spelling_cons ht
    rw [toList_spellings, hs, List.cons_append, List.cons_append] at h
    obtain rfl := (List.cons.inj h).1
    rcases hc with rfl | rfl <;> exact absurd hd (by decide)
  cases ts with
  | nil =>
    cases us with
    | nil => exact ⟨rfl, (List.cons.inj h).2⟩
    | cons u us => exact absurd h.symm (hne hus.1)
  | cons t ts =>
    cases us with
    | nil => exact absurd h (hne hts.1)
    | cons u us =>
      rw [toList_spellings, List.length_append] at hk
      rw [toList_spellings, toList_spellings, List.append_assoc, List.append_assoc] at h
      obtain ⟨rfl, hrest⟩ := ih (by omega) hts.1 hus.1 (follows_moreSpellings hc t ts)
        (follows_moreSpellings hc u us) h
      obtain ⟨rfl, hxy⟩ := moreSpellings_append_inj ih hc (by omega) hts.2 hus.2 hrest
      exact ⟨rfl, hxy⟩

end

section
variable {k : Nat} (ih : IsUnique k)
include ih

theorem specialization_details_append_inj {n : String}
    (hk : (specialization n ts).spelling.toList.length ≤ k)
    (ht : (specialization n ts).All IsBound) (hu : (specialization n us).All IsBound)
    (h : (specialization n ts).details ++ x = (specialization n us).details ++ y) :
    ts = us ∧ x = y := by
  rw [All] at ht hu
  rw [toList_spelling_specialization] at hk
  simp only [List.length_append, List.length_cons] at hk
  replace h : ((spellings ts).toList ++ ['>']) ++ x = ((spellings us).toList ++ ['>']) ++ y :=
    (List.cons.inj h).2
  rw [List.append_assoc, List.append_assoc] at h
  exact spellings_append_inj ih (.inr rfl) (by omega) ht.2 hu.2 h

theorem function_details_append_inj (hk : (function t ts).spelling.toList.length ≤ k)
    (ht : (function t ts).EndsBefore x) (hu : (function u us).EndsBefore y)
    (h : (function t ts).details ++ x = (function u us).details ++ y) :
    t = u ∧ ts = us ∧ x = y := by
  have hall := ht.bound
  have hall' := hu.bound
  rw [All] at hall hall'
  rw [toList_spelling_function] at hk
  simp only [List.length_append, List.length_cons] at hk
  replace h : ((spellings ts).toList ++ ')' :: (" -> ".toList ++ t.spelling.toList)) ++ x =
    ((spellings us).toList ++ ')' :: (" -> ".toList ++ u.spelling.toList)) ++ y :=
      (List.cons.inj h).2
  rw [List.append_assoc, List.append_assoc] at h
  obtain ⟨hsame, hrest⟩ := spellings_append_inj ih (.inl rfl) (by omega) hall.2.2 hall'.2.2 h
  rw [List.append_eq, List.append_eq, List.append_assoc, List.append_assoc] at hrest
  replace hrest := List.append_cancel_left hrest
  obtain ⟨hresult, hxy⟩ := ih (by omega) hall.2.1 hall'.2.1 (ht.result t rfl) (hu.result u rfl)
    hrest
  exact ⟨hresult, hsame, hxy⟩

theorem details_append_inj (hk : b.spelling.toList.length ≤ k) (hb : b.EndsBefore x)
    (hb' : b'.EndsBefore y) (hwords : b.words = b'.words)
    (h : b.details ++ x = b'.details ++ y) : b = b' ∧ x = y := by
  have hopen : ∀ {b : TypeRef} {s v : List Char}, b.EndsBefore v → v ≠ '<' :: s ∧ v ≠ '(' :: s := by
    intro b s v hv
    constructor <;> rintro rfl <;> exact absurd (hv.head _ rfl) (by decide)
  cases b with
  | named n =>
    cases b' with
    | named n' => exact ⟨congrArg _ (String.toList_inj.1 hwords), h⟩
    | specialization n' us => exact absurd h (hopen hb).1
    | function u us => exact absurd h (hopen hb).2
    | pointer u => cases hb'.isBase
    | array u size => cases hb'.isBase
  | specialization n ts =>
    cases b' with
    | named n' => exact absurd h.symm (hopen hb').1
    | specialization n' us =>
      obtain rfl := String.toList_inj.1 hwords
      obtain ⟨rfl, hxy⟩ := specialization_details_append_inj ih hk hb.bound hb'.bound h
      exact ⟨rfl, hxy⟩
    | function u us => cases (List.cons.inj h).1
    | pointer u => cases hb'.isBase
    | array u size => cases hb'.isBase
  | function t ts =>
    cases b' with
    | named n' => exact absurd h.symm (hopen hb').2
    | specialization n' us => cases (List.cons.inj h).1
    | function u us =>
      obtain ⟨rfl, rfl, hxy⟩ := function_details_append_inj ih hk hb hb' h
      exact ⟨rfl, hxy⟩
    | pointer u => cases hb'.isBase
    | array u size => cases hb'.isBase
  | pointer t => cases hb.isBase
  | array t size => cases hb.isBase

theorem base_append_inj (hk : b.spelling.toList.length ≤ k) (hb : b.EndsBefore x)
    (hb' : b'.EndsBefore y) (h : b.spelling.toList ++ x = b'.spelling.toList ++ y) :
    b = b' ∧ x = y := by
  rw [spelling_of_isBase hb.isBase, spelling_of_isBase hb'.isBase, List.append_assoc,
    List.append_assoc] at h
  obtain ⟨hwords, h⟩ := Text.append_inj_of_head? (words_of_isBase hb.isBase hb.bound).2
    (words_of_isBase hb'.isBase hb'.bound).2 hb.isWordChar_head? hb'.isWordChar_head? h
  exact details_append_inj ih hk hb hb' hwords h

end

theorem isUnique (k : Nat) : IsUnique k := by
  induction k with
  | zero => exact fun h => absurd h (Nat.not_lt_zero _)
  | succ k ih =>
    intro t u x y hk ht hu hx hy h
    obtain ⟨b, stars, z, rfl, hs, hsize, hends⟩ := exists_base ht
    obtain ⟨b', stars', z', rfl, hs', hsize', hends'⟩ := exists_base hu
    obtain ⟨hcloses, hb⟩ := hends x hx
    obtain ⟨hcloses', hb'⟩ := hends' y hy
    rw [hs, List.length_append] at hk
    rw [hs, hs', List.append_assoc, List.append_assoc] at h
    obtain ⟨rfl, hrest⟩ := base_append_inj ih (by omega) hb hb' h
    obtain ⟨rfl, rfl, hxy⟩ := suffix_append_inj hsize hsize' hcloses hcloses' hrest
    exact ⟨rfl, hxy⟩

/-- Types that are bound are told apart by their texts. -/
theorem spelling_inj (ht : t.All IsBound) (hu : u.All IsBound) (h : t.spelling = u.spelling) :
    t = u := by
  refine (isUnique _ (Nat.lt_succ_self _) ht hu (x := []) (y := []) nofun nofun ?_).1
  rw [h]

end Bindery.TypeRef
