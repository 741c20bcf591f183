import Bindery.Proofs.Dump.Types

/-!
# What parsers take

`Takes n p x ts us`: on a text of at most `n` characters that consists of the tokens `ts` and then
`us`, the parser `p` reads the value `x` and leaves a text of the tokens `us`. There is a rule for
each token, and one for each way in which parsers are put together.
-/

namespace Bindery.Dump

open Bindery.Dump.Parser

variable {α β : Type} {n n' : Nat} {t : Token} {ts us vs : List Token} {i j m r : List Char}
  {c : Char} {w : String} {x : α} {y : β} {p q : Parser α} {k : Construct}

/-! ### Texts of tokens -/

theorem Token.exists_cons (h : t.IsProper) : ∃ c s, t.text = c :: s := by
  cases t with
  | word w =>
    obtain ⟨c, s, hw, -⟩ : IsIdent w := h
    exact ⟨c, s, hw⟩
  | sign w =>
    have hw : ∀ w ∈ signs, w.toList ≠ [] := by decide
    exact List.exists_cons_of_ne_nil (hw w h)
  | quoted s => exact ⟨'"', _, rfl⟩
  | value v => exact List.exists_cons_of_ne_nil fun hv => h.1 (String.toList_eq_nil_iff.1 hv)
  | type t =>
    obtain ⟨c, s, ht, -⟩ := TypeRef.IsProper.exists_cons h
    exact ⟨c, s, ht⟩

/-- A token does not begin with a blank or a comment. -/
theorem Token.blankLength (h : t.IsProper) (hm : t.MayEnd m) :
    blankLength false (t.text ++ m) = 0 := by
  cases t with
  | word w => exact IsIdent.blankLength h m
  | sign w =>
    have hw : ∀ w ∈ signs, ∃ c ∈ w.toList.head?, ¬ (c = '\n' ∨ c = '\r') ∧ ¬ (c = ' ' ∨ c = '\t') ∧
        ¬ c = '/' := by simp [signs]
    obtain ⟨c, hc, h1, h2, h3⟩ := hw w h
    obtain ⟨s, hs⟩ := List.head?_eq_some_iff.1 hc
    show Dump.blankLength false (w.toList ++ m) = 0
    rw [hs, List.cons_append, Dump.blankLength, if_neg h1, if_neg Bool.false_ne_true, if_neg h2,
      if_neg fun h => h3 h.1]
  | quoted s => rfl
  | value v =>
    obtain ⟨hne, htrim, -, hslash⟩ : IsInitializer v := h
    have hnil : v.toList ≠ [] := fun h => hne (String.toList_eq_nil_iff.1 h)
    refine blankLength_eq_zero_of_trim hnil htrim fun h => ?_
    rcases slashes_prefix_append hnil h with h | ⟨h, hm'⟩
    · exact hslash h.isInfix
    · exact hm h hm'
  | type t => exact TypeRef.IsProper.blankLength h m

theorem Laid.cons (h : Laid (t :: ts) i) : ∃ m, Skips i (t.text ++ m) ∧ t.IsProper ∧ t.MayEnd m ∧
    Laid ts m ∧ m.length < i.length := by
  obtain ⟨g, m, hg, ht, hm, rfl, h⟩ := h
  refine ⟨m, hg.skips (Token.blankLength ht hm), ht, hm, h, ?_⟩
  obtain ⟨c, s, hs⟩ := Token.exists_cons ht
  rw [hs]
  simp only [List.length_append, List.length_cons]
  omega

/-- What comes first if a sign does. -/
theorem Laid.ends (h : Laid (.sign w :: ts) i) {s : List Char} (hw : w.toList = c :: s) :
    Ends [c] i := by
  obtain ⟨m, hskip, -⟩ := h.cons
  have htext : (Token.sign w).text ++ m = c :: (s ++ m) := by
    show w.toList ++ m = _
    rw [hw, List.cons_append]
  exact ⟨c, s ++ m, List.mem_singleton_self c, htext ▸ hskip⟩

theorem Laid.refuses (h : Laid (.sign w :: ts) i) {s : List Char} (hw : w.toList = c :: s)
    (hp : ∀ r, Refuses p (c :: r)) : Refuses (next p) i :=
  (h.ends hw).refuses fun _ hd r => List.mem_singleton.1 hd ▸ hp r

/-! ### Rules -/

def Takes (n : Nat) (p : Parser α) (x : α) (ts us : List Token) : Prop :=
  ∀ i, i.length ≤ n → Laid (ts ++ us) i →
    ∃ m, Reads p i x m ∧ Laid us m ∧ m.length + ts.length ≤ i.length

/-- No token fits into an empty text. -/
theorem takes_zero : Takes 0 p x (t :: ts) us := by
  intro i hi h
  obtain ⟨m, -, -, -, -, hlt⟩ := Laid.cons h
  exact absurd (Nat.lt_of_lt_of_le hlt hi) (Nat.not_lt_zero _)

theorem takes_pure : Takes n (pure x) x [] us := fun i _ h => ⟨i, reads_pure, h, Nat.le_refl _⟩

theorem takes_bind {p : Parser β} {f : β → Parser α} (hp : Takes n p y ts (vs ++ us))
    (hf : Takes n (f y) x vs us) : Takes n (p >>= f) x (ts ++ vs) us := by
  intro i hi h
  rw [List.append_assoc] at h
  obtain ⟨m, hread, hm, hlen⟩ := hp i hi h
  obtain ⟨m', hread', hm', hlen'⟩ := hf m (by omega) hm
  refine ⟨m', reads_bind hread hread', hm', ?_⟩
  rw [List.length_append]
  omega

theorem takes_cons {p : Parser β} {f : β → Parser α} (hp : Takes n p y [t] (ts ++ us))
    (hf : Takes n (f y) x ts us) : Takes n (p >>= f) x (t :: ts) us :=
  takes_bind hp hf

/-- The text behind a token is shorter. -/
theorem takes_cons_lt {p : Parser β} {f : β → Parser α} (hp : Takes (n + 1) p y [t] (ts ++ us))
    (hf : Takes n (f y) x ts us) : Takes (n + 1) (p >>= f) x (t :: ts) us := by
  intro i hi h
  obtain ⟨m, hread, hm, hlen⟩ := hp i hi h
  rw [List.length_singleton] at hlen
  obtain ⟨m', hread', hm', hlen'⟩ := hf m (by omega) hm
  refine ⟨m', reads_bind hread hread', hm', ?_⟩
  rw [List.length_cons]
  omega

theorem takes_map {p : Parser β} {f : β → α} (hp : Takes n p y ts us) :
    Takes n (f <$> p) (f y) ts us := by
  intro i hi h
  obtain ⟨m, hread, hm⟩ := hp i hi h
  exact ⟨m, reads_map hread, hm⟩

theorem next_bind (p : Parser β) (f : β → Parser α) : next (p >>= f) = next p >>= f := by
  unfold next
  rw [bind_assoc]

theorem takes_next_map {p : Parser β} {f : β → α} (hp : Takes n (next p) y ts us) :
    Takes n (next (f <$> p)) (f y) ts us := by
  rw [map_eq_pure_bind, next_bind, ← map_eq_pure_bind]
  exact takes_map hp

theorem takes_next_named (h : Takes n (next p) x ts us) : Takes n (next (named k p)) x ts us := by
  intro i hi hl
  obtain ⟨m, hread, hm⟩ := h i hi hl
  refine ⟨m, fun pos a => ?_, hm⟩
  obtain ⟨pos', a', hp⟩ := hread pos a
  exact ⟨pos', a', by
    show named k p _ _ = _
    rw [named, show p _ _ = _ from hp]⟩

theorem takes_next_orElse_left (h : Takes n (next p) x ts us) :
    Takes n (next (p <|> q)) x ts us := by
  intro i hi hl
  obtain ⟨m, hread, hm⟩ := h i hi hl
  refine ⟨m, fun pos a => ?_, hm⟩
  obtain ⟨pos', a', hp⟩ := hread pos a
  exact ⟨pos', a', by
    show Parser.orElse p (fun _ => q) _ _ = _
    rw [Parser.orElse, show p _ _ = _ from hp]⟩

/-- An alternative that is not for the first token. -/
theorem takes_next_orElse_right (hp : ∀ m, t.IsProper → t.MayEnd m → Refuses p (t.text ++ m))
    (hq : Takes n (next q) x (t :: ts) us) : Takes n (next (p <|> q)) x (t :: ts) us := by
  intro i hi hl
  obtain ⟨m, hread, hm⟩ := hq i hi hl
  obtain ⟨r, hskip, ht, hend, -⟩ := Laid.cons hl
  refine ⟨m, fun pos a => ?_, hm⟩
  obtain ⟨a₁, hrefuse⟩ := hp r ht hend (pos + blankLength false i) a
  obtain ⟨pos', a', hread⟩ := hread pos a₁
  refine ⟨pos', a', ?_⟩
  show Parser.orElse p (fun _ => q) (Cursor.advance ⟨pos, i⟩ (blankLength false i)) a = _
  have hj : Cursor.advance ⟨pos, i⟩ (blankLength false i) =
      ⟨pos + blankLength false i, t.text ++ r⟩ := by rw [← hskip]; rfl
  have hread' : q (Cursor.advance ⟨pos, i⟩ (blankLength false i)) a₁ = _ := hread
  rw [hj] at hread' ⊢
  rw [Parser.orElse, hrefuse]
  exact hread'

/-! ### Tokens -/

theorem takes_ident : Takes n (next ident) w [.word w] us := by
  intro i _ h
  obtain ⟨m, hskip, hw, hend, hm, hlt⟩ := Laid.cons h
  exact ⟨m, reads_next hskip (reads_ident hw hend), hm, hlt⟩

theorem takes_keyword : Takes n (next (keyword k w)) () [.word w] us := by
  intro i _ h
  obtain ⟨m, hskip, hw, hend, hm, hlt⟩ := Laid.cons h
  exact ⟨m, reads_next hskip (reads_keyword hw hend), hm, hlt⟩

theorem takes_sign : Takes n (next (word w)) () [.sign w] us := by
  intro i _ h
  obtain ⟨m, hskip, -, -, hm, hlt⟩ := Laid.cons h
  exact ⟨m, reads_next hskip (reads_word w), hm, hlt⟩

theorem takes_word : Takes n (next (word w)) () [.word w] us := by
  intro i _ h
  obtain ⟨m, hskip, -, -, hm, hlt⟩ := Laid.cons h
  exact ⟨m, reads_next hskip (reads_word w), hm, hlt⟩

theorem takes_string : Takes n (next string) w [.quoted w] us := by
  intro i _ h
  obtain ⟨m, hskip, hw, -, hm, hlt⟩ := Laid.cons h
  have htake : (w.toList ++ '"' :: m).takeWhile (· != '"') = w.toList := by
    rw [List.takeWhile_append_of_pos]
    · simp
    · intro c hc
      rw [bne_iff_ne]
      rintro rfl
      exact hw hc
  have hquoted : Reads quotedText (w.toList ++ '"' :: m) w.toList ('"' :: m) := by
    intro pos a
    refine ⟨pos + w.toList.length, a, ?_⟩
    simp only [quotedText, htake, Cursor.advance, List.drop_left]
  have hread : Reads string ('"' :: (w.toList ++ '"' :: m)) w m := by
    refine reads_named (reads_bind (reads_word "\"") (reads_bind hquoted ?_))
    refine reads_bind (reads_word "\"") ?_
    rw [String.ofList_toList]
    exact reads_pure
  refine ⟨m, reads_next (hskip.trans ?_) hread, hm, hlt⟩
  simp [Token.text]

/-- The first of the tokens is one of the signs `ws`. -/
def BeginsWith (ws : List String) (us : List Token) : Prop :=
  ∃ w vs, w ∈ ws ∧ us = .sign w :: vs

theorem takes_type {τ : Parser TypeRef} {t : TypeRef} (hτ : ReadsTypes τ (n + 1))
    (hus : BeginsWith [",", ")", ";"] us) : Takes n (next τ) t [.type t] us := by
  intro i hi h
  obtain ⟨m, hskip, ht, -, hm, hlt⟩ := Laid.cons h
  obtain ⟨w, vs, hw, rfl⟩ := hus
  have hlen := hskip.length_le
  rw [List.length_append] at hlen
  have hclosing : ∀ w ∈ [",", ")", ";"], ∃ c ∈ closing, w.toList = [c] := by simp [closing]
  obtain ⟨c, hc, hwc⟩ := hclosing w hw
  have hends : Ends closing m := (Laid.ends hm hwc).mono fun d hd => List.mem_singleton.1 hd ▸ hc
  exact ⟨m, reads_next hskip (hτ.reads ht (by
    show t.spelling.toList.length < n + 1
    have : t.spelling.toList.length ≤ i.length := Nat.le_trans (Nat.le_add_right _ _) hlen
    omega) hends), hm, hlt⟩

/-! ### Parts that may be missing, and lists -/

theorem takes_opt_some (h : Takes n (next p) x ts us) : Takes n (opt p) (some x) ts us := by
  intro i hi hl
  obtain ⟨m, hread, hm⟩ := h i hi hl
  exact ⟨m, reads_opt_some hread, hm⟩

theorem takes_opt_none (h : ∀ i, Laid us i → Refuses (next p) i) : Takes n (opt p) none [] us :=
  fun i _ hl => ⟨i, reads_opt_none (h i hl), hl, Nat.le_refl _⟩

section
variable {S : α → List Token → Prop} {F : List Token → Prop}

theorem follows_spellsAll (hus : F us) : ∀ {xs : List α} {ts : List Token},
    (∀ x ∈ xs, ∀ ts vs, S x ts → F vs → F (ts ++ vs)) → SpellsAll S xs ts → F (ts ++ us)
  | [], ts, _, h => by
    obtain rfl : ts = [] := h
    exact hus
  | x :: xs, ts, hF, h => by
    obtain ⟨us', vs, hx, hxs, rfl⟩ := h
    rw [List.append_assoc]
    exact hF x List.mem_cons_self us' _ hx
      (follows_spellsAll hus (fun y hy => hF y (List.mem_cons_of_mem x hy)) hxs)

/-- Values one after the other, each of which is read where `F` holds of what follows it. -/
theorem takes_many (hus : F us) {xs : List α} {ts : List Token}
    (hF : ∀ x ∈ xs, ∀ ts vs, S x ts → F vs → F (ts ++ vs))
    (hp : ∀ x ∈ xs, ∀ ts vs, S x ts → F vs → ts ≠ [] ∧ Takes n (next p) x ts vs)
    (hstop : ∀ i, Laid us i → Refuses (next p) i) (hs : SpellsAll S xs ts) :
    Takes n (many p) xs ts us := by
  suffices hall : ∀ i, i.length ≤ n → Laid (ts ++ us) i →
      ∃ m, ReadsAll p i xs m ∧ Laid us m ∧ m.length + ts.length ≤ i.length by
    intro i hi hl
    obtain ⟨m, hread, hm⟩ := hall i hi hl
    exact ⟨m, reads_many hread, hm⟩
  induction xs generalizing ts with
  | nil =>
    obtain rfl : ts = [] := hs
    exact fun i _ hl => ⟨i, .nil (hstop i hl), hl, Nat.le_refl _⟩
  | cons x xs ih =>
    obtain ⟨us', vs, hx, hxs, rfl⟩ := hs
    have hF' := fun y hy => hF y (List.mem_cons_of_mem x hy)
    obtain ⟨hne, htake⟩ := hp x List.mem_cons_self us' (vs ++ us) hx (follows_spellsAll hus hF' hxs)
    intro i hi hl
    rw [List.append_assoc] at hl
    obtain ⟨m, hread, hm, hlen⟩ := htake i hi hl
    obtain ⟨m', hall, hm', hlen'⟩ :=
      ih hF' (fun y hy => hp y (List.mem_cons_of_mem x hy)) hxs m (by omega) hm
    have hpos := List.length_pos_iff.2 hne
    refine ⟨m', .cons hread (by omega) hall, hm', ?_⟩
    rw [List.length_append]
    omega

end

theorem BeginsWith.refuses {ws : List String} (hus : BeginsWith ws us) (hl : Laid us i)
    (hp : ∀ w ∈ ws, ∃ c, w.toList = [c] ∧ ∀ r, Refuses p (c :: r)) : Refuses (next p) i := by
  obtain ⟨w, vs, hw, rfl⟩ := hus
  obtain ⟨c, hc, hp⟩ := hp w hw
  exact Laid.refuses hl hc hp

/-- Values with commas between them. -/
theorem takes_commaSeparated {tokens : α → List Token} {ws : List String} (hcomma : "," ∈ ws)
    (hus : BeginsWith ws us) {xs : List α} (hne : xs ≠ [])
    (hp : ∀ y ∈ xs, ∀ vs, BeginsWith ws vs → Takes n (next p) y (tokens y) vs)
    (hstop : ∀ i, Laid us i → Refuses (next (do word ","; next p)) i) :
    Takes n (next (commaSeparated p)) xs (commas (xs.map tokens)) us := by
  cases xs with
  | nil => exact absurd rfl hne
  | cons x xs =>
    have hbegins : ∀ y vs, BeginsWith ws ((.sign "," :: tokens y) ++ vs) := fun y vs =>
      ⟨",", tokens y ++ vs, hcomma, rfl⟩
    have hall : ∀ ys : List α, SpellsAll (fun y ts => ts = .sign "," :: tokens y) ys
        ((ys.map tokens).flatMap fun us => .sign "," :: us) := by
      intro ys
      induction ys with
      | nil => exact rfl
      | cons y ys ih => exact ⟨_, _, rfl, ih, rfl⟩
    have hF : ∀ y ∈ xs, ∀ ts vs, ts = .sign "," :: tokens y → BeginsWith ws vs →
        BeginsWith ws (ts ++ vs) := by
      rintro y - ts vs rfl -
      exact hbegins y vs
    rw [commaSeparated, next_bind]
    refine takes_bind (hp x List.mem_cons_self _ (follows_spellsAll hus hF (hall xs))) ?_
    rw [← List.append_nil (List.flatMap _ _)]
    refine takes_bind (takes_many hus hF ?_ hstop (hall xs)) takes_pure
    rintro y hy ts vs rfl hvs
    refine ⟨List.cons_ne_nil _ _, ?_⟩
    rw [next_bind]
    exact takes_cons takes_sign (hp y (List.mem_cons_of_mem x hy) vs hvs)

end Bindery.Dump
