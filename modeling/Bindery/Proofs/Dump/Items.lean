import Bindery.Proofs.Dump.Takes

/-!
# Reading enumerations and signatures back

Lists with commas: the items of an enumeration, with their initializers, and the parameters of a
function. An initializer takes the blanks behind it on its line along, which trimming removes.
-/

namespace Bindery.Dump

open Bindery.Dump.Parser

variable {α : Type} {n : Nat} {ts us : List Token} {i m r s : List Char} {c : Char} {v w : String}
  {τ : Parser TypeRef} {p : Parser α}

/-! ### Initializers -/

theorem valueLength_append : ∀ {s : List Char},
    (∀ c ∈ s, c ≠ ',' ∧ c ≠ '\x7d' ∧ ¬ IsLineEnd c) → ¬ ['/', '/'] <:+: s →
    (s.getLast? = some '/' → r.head? ≠ some '/') →
    valueLength (s ++ r) = s.length + valueLength r
  | [], _, _, _ => by simp
  | c :: s, hs, hslash, hlast => by
    obtain ⟨hc, hs⟩ := List.forall_mem_cons.1 hs
    have hstop : ¬ (c = ',' ∨ c = '\x7d' ∨ c = '\n' ∨ c = '\r' ∨
        (c = '/' ∧ (s ++ r).head? = some '/')) := by
      rintro (h | h | h | h | ⟨rfl, h⟩)
      · exact hc.1 h
      · exact hc.2.1 h
      · exact hc.2.2 (Or.inl h)
      · exact hc.2.2 (Or.inr h)
      · cases s with
        | nil => exact hlast rfl h
        | cons d s =>
          obtain rfl := Option.some.inj h
          exact hslash ⟨[], s, rfl⟩
    have hrec : valueLength (s ++ r) = s.length + valueLength r := valueLength_append hs
      (fun h => hslash (h.trans (List.suffix_cons c s).isInfix)) fun h => hlast (by
        cases s with
        | nil => exact absurd h nofun
        | cons d s => rwa [List.getLast?_cons_cons])
    rw [List.cons_append, valueLength, if_neg hstop, hrec, List.length_cons]
    omega

theorem valueLength_eq_zero
    (hi : i = [] ∨ (∃ c t, i = c :: t ∧ (c = ',' ∨ c = '\x7d' ∨ IsLineEnd c)) ∨
    ∃ t, i = '/' :: '/' :: t) : valueLength i = 0 := by
  rcases hi with rfl | ⟨c, t, rfl, hc⟩ | ⟨t, rfl⟩
  · rfl
  · refine if_pos ?_
    rcases hc with h | h | h | h
    · exact Or.inl h
    · exact Or.inr (Or.inl h)
    · exact Or.inr (Or.inr (Or.inl h))
    · exact Or.inr (Or.inr (Or.inr (Or.inl h)))
  · exact if_pos (Or.inr (Or.inr (Or.inr (Or.inr ⟨rfl, rfl⟩))))

/-- An initializer up to the comma or brace behind it. -/
theorem Laid.reads_value (h : Laid (.value v :: us) i) (hus : BeginsWith [",", "\x7d"] us) :
    ∃ s m, Reads (next (named .enumValue (run valueLength))) i s m ∧ trimmed s = v ∧ Laid us m ∧
      m.length + 1 ≤ i.length := by
  obtain ⟨m, hskip, ⟨hne, htrim, hfree, hslash⟩, hend, hm, hlt⟩ := Laid.cons h
  obtain ⟨w, vs, hw, rfl⟩ := hus
  obtain ⟨g, m', hg, hproper, hend', rfl, hvs⟩ := hm
  obtain ⟨s, g', rfl, hg', hs, hstart⟩ := hg.exists_split
  have hsign : ∀ w ∈ [",", "\x7d"], ∃ c ∈ [',', '\x7d'], w.toList = [c] := by simp
  obtain ⟨c, hc, hwc⟩ := hsign w hw
  replace hc : c = ',' ∨ c = '\x7d' := by simpa using hc
  have hblank : ∀ c ∈ s, Text.isBlank c := by
    intro c hc
    rcases hs c hc with rfl | rfl <;> decide
  have h0 : valueLength (g' ++ ((Token.sign w).text ++ m')) = 0 := by
    refine valueLength_eq_zero ?_
    show _ = [] ∨ _
    rw [Token.text, hwc]
    rcases hstart with rfl | ⟨d, t, rfl, hd⟩ | ⟨t, rfl⟩
    · exact Or.inr (Or.inl ⟨c, m', rfl, hc.elim Or.inl fun h => Or.inr (Or.inl h)⟩)
    · exact Or.inr (Or.inl ⟨d, _, rfl, Or.inr (Or.inr hd)⟩)
    · exact Or.inr (Or.inr ⟨_, rfl⟩)
  have hlen : valueLength ((v.toList ++ s) ++ (g' ++ ((Token.sign w).text ++ m'))) =
      (v.toList ++ s).length := by
    rw [List.append_assoc] at hend
    rw [List.append_assoc, valueLength_append hfree hslash hend, valueLength_append, h0,
      List.length_append, Nat.add_zero]
    · intro c hc
      rcases hs c hc with rfl | rfl <;> decide
    · rintro ⟨a, b, hab⟩
      have : '/' ∈ s := hab ▸ List.mem_append_left b (List.mem_append_right a List.mem_cons_self)
      rcases hs '/' this with h | h <;> exact absurd h (by decide)
    · intro h
      rcases hs '/' (List.mem_of_getLast? h) with h | h <;> exact absurd h (by decide)
  refine ⟨v.toList ++ s, g' ++ ((Token.sign w).text ++ m'), reads_next hskip ?_, ?_,
    ⟨g', m', hg', hproper, hend', rfl, hvs⟩, ?_⟩
  · show Reads _ (v.toList ++ _) _ _
    rw [List.append_assoc s, ← List.append_assoc v.toList]
    refine reads_named (reads_run (fun h => hne ?_) hlen)
    exact String.toList_eq_nil_iff.1 (List.append_eq_nil_iff.1 h).1
  · have htext := Text.trim_append_append (a := []) (List.forall_mem_nil _) hblank htrim
    rw [trimmed, ← List.nil_append (v.toList ++ s), htext, String.ofList_toList]
  · rw [List.append_assoc, List.length_append] at hlt
    omega

/-! ### Lists with commas -/

/-- A list with commas, or nothing. -/
theorem exists_takes_opt {tokens : α → List Token} {ws : List String} (hcomma : "," ∈ ws)
    (hus : BeginsWith ws us) {xs : List α}
    (hp : ∀ y ∈ xs, ∀ vs, BeginsWith ws vs → Takes n (next p) y (tokens y) vs)
    (hstop : ∀ i, Laid us i → Refuses (next (do word ","; next p)) i)
    (hnone : ∀ i, Laid us i → Refuses (next (commaSeparated p)) i) :
    ∃ x : Option (List α), x.getD [] = xs ∧
      Takes n (opt (commaSeparated p)) x (commas (xs.map tokens)) us := by
  cases xs with
  | nil => exact ⟨none, rfl, takes_opt_none hnone⟩
  | cons x xs =>
    exact ⟨some (x :: xs), rfl, takes_opt_some
      (takes_commaSeparated hcomma hus (List.cons_ne_nil x xs) hp hstop)⟩

/-- An item before a comma or a brace. -/
theorem takes_enumItem (hus : BeginsWith [",", "\x7d"] us) (x : EnumItem) :
    Takes n (next enumItem) x x.tokens us := by
  obtain ⟨name, value⟩ := x
  refine takes_next_named ?_
  rw [next_bind]
  refine takes_cons takes_ident ?_
  cases value with
  | none =>
    show Takes n _ _ ([] ++ []) us
    refine takes_bind (takes_opt_none fun i hl => hus.refuses hl ?_) takes_pure
    simp only [List.forall_mem_cons, List.not_mem_nil, false_imp_iff, implies_true, and_true]
    exact ⟨⟨',', rfl, fun r => refuses_bind (refuses_word_cons rfl (by decide))⟩,
      ⟨'\x7d', rfl, fun r => refuses_bind (refuses_word_cons rfl (by decide))⟩⟩
  | some v =>
    intro i hi hl
    obtain ⟨m, heq, hm, hlen⟩ := takes_sign (n := n) (w := "=") i hi hl
    obtain ⟨s, m', hvalue, htrim, hm', hlen'⟩ := Laid.reads_value hm hus
    have hread : Reads (next do word "="; next (named .enumValue (run valueLength))) i s m' := by
      rw [next_bind]
      exact reads_bind heq hvalue
    refine ⟨m', reads_bind (reads_opt_some hread) ?_, hm', ?_⟩
    · rw [Option.map_some, htrim]
      exact reads_pure
    · simp only [Option.elim_some, List.length_cons, List.length_nil] at hlen ⊢
      omega

/-- A parameter before a comma or a parenthesis. -/
theorem takes_param (hτ : ReadsTypes τ (n + 1)) (hus : BeginsWith [",", ")", ";"] us)
    (x : Parameter) : Takes n (next (param τ)) x x.tokens us := by
  refine takes_next_named ?_
  rw [next_bind]
  refine takes_cons takes_ident (takes_cons takes_sign (takes_cons ?_ takes_pure))
  exact takes_type hτ hus

/-- A result before a semicolon. -/
theorem takes_result (hτ : ReadsTypes τ (n + 1)) {returns : TypeRef}
    (hts : SpellsResult returns ts) : Takes n (result τ) returns ts (.sign ";" :: us) := by
  rw [← List.append_nil ts]
  rcases hts with rfl | ⟨rfl, rfl⟩
  · have hus : BeginsWith [",", ")", ";"] (.sign ";" :: us) := ⟨";", us, by decide, rfl⟩
    refine takes_bind (takes_opt_some (takes_next_named ?_)) takes_pure
    rw [next_bind]
    exact takes_cons takes_sign (takes_type hτ hus)
  · refine takes_bind (takes_opt_none fun i hl => ?_) takes_pure
    refine Laid.refuses hl rfl fun r => ?_
    exact refuses_named (refuses_bind (refuses_word_cons rfl (by decide)))

theorem takes_signature (hτ : ReadsTypes τ (n + 1)) {name : String} {ps : List Parameter}
    {returns : TypeRef} (hts : SpellsSignature name ps returns ts) :
    Takes n (signature τ) (name, ps, returns) ts us := by
  obtain ⟨rs, hrs, rfl⟩ := hts
  have hus : BeginsWith [",", ")", ";"] (.sign ")" :: (rs ++ [.sign ";"]) ++ us) :=
    ⟨")", _, by decide, rfl⟩
  have hident : ∀ r, Refuses (commaSeparated (param τ)) (')' :: r) := fun r =>
    refuses_bind (refuses_named (refuses_bind (refuses_ident (endsWord_sign rfl r))))
  obtain ⟨x, rfl, hx⟩ := exists_takes_opt (n := n) (by decide) hus
    (fun y (_ : y ∈ ps) vs hvs => takes_param hτ hvs y)
    (fun i hl => Laid.refuses hl rfl fun r => refuses_bind (refuses_word_cons rfl (by decide)))
    (fun i hl => Laid.refuses hl rfl hident)
  refine takes_cons takes_ident (takes_cons takes_sign (takes_bind hx ?_))
  refine takes_cons takes_sign (takes_bind ?_ (takes_cons takes_sign takes_pure))
  exact takes_result hτ hrs

end Bindery.Dump
