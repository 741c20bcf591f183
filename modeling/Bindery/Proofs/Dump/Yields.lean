import Bindery.Proofs.Dump.Reads

/-!
# What parsers have read

`Yields p i x r`: somewhere, after some attempts, the parser `p` has read the value `x` from `i` and
left `r`. `Stops p i`: it has failed there. For each way in which parsers are put together there is
a lemma that says what the parts have read. A `Uniform` parser reads or fails whatever has been
attempted before.
-/

namespace Bindery.Dump.Parser

variable {α β : Type} {p q : Parser α} {i m r : List Char} {x : α} {xs : List α} {k : Construct}

def Yields (p : Parser α) (i : List Char) (x : α) (r : List Char) : Prop :=
  ∃ pos a pos' a', p ⟨pos, i⟩ a = (some (x, ⟨pos', r⟩), a')

def Stops (p : Parser α) (i : List Char) : Prop := ∃ pos a a', p ⟨pos, i⟩ a = (none, a')

theorem Reads.yields (h : Reads p i x r) : Yields p i x r := by
  obtain ⟨pos', a', h⟩ := h 0 {}
  exact ⟨0, {}, pos', a', h⟩

theorem Refuses.not_yields (hp : Refuses p i) : ¬ Yields p i x r := by
  rintro ⟨pos, a, pos', a', h⟩
  obtain ⟨a'', h'⟩ := hp pos a
  cases h.symm.trans h'

theorem Yields.of_pure {y : α} (h : Yields (pure y) i x r) : x = y ∧ r = i := by
  obtain ⟨pos, a, pos', a', h⟩ := h
  cases h
  exact ⟨rfl, rfl⟩

theorem Yields.of_bind {p : Parser β} {f : β → Parser α} (h : Yields (p >>= f) i x r) :
    ∃ y m, Yields p i y m ∧ Yields (f y) m x r := by
  obtain ⟨pos, a, pos', a', h⟩ := h
  replace h : Parser.bind p f ⟨pos, i⟩ a = _ := h
  rw [Parser.bind] at h
  split at h
  · next y c a₁ hp => exact ⟨y, c.rest, ⟨pos, a, c.pos, a₁, hp⟩, c.pos, a₁, pos', a', h⟩
  · cases h

theorem Yields.of_map {p : Parser β} {g : β → α} (h : Yields (g <$> p) i x r) :
    ∃ y, Yields p i y r ∧ x = g y := by
  rw [map_eq_pure_bind] at h
  obtain ⟨y, m, hy, h⟩ := h.of_bind
  obtain ⟨rfl, rfl⟩ := h.of_pure
  exact ⟨y, hy, rfl⟩

theorem not_stops_pure : ¬ Stops (pure x) i := by
  rintro ⟨pos, a, a', h⟩
  cases h

theorem Stops.of_bind {p : Parser β} {f : β → Parser α} (h : Stops (p >>= f) i) :
    Stops p i ∨ ∃ y m, Yields p i y m ∧ Stops (f y) m := by
  obtain ⟨pos, a, a', h⟩ := h
  replace h : Parser.bind p f ⟨pos, i⟩ a = _ := h
  rw [Parser.bind] at h
  split at h
  · next y c a₁ hp => exact .inr ⟨y, c.rest, ⟨pos, a, c.pos, a₁, hp⟩, c.pos, a₁, a', h⟩
  · next a₁ hp => exact .inl ⟨pos, a, a₁, hp⟩

theorem Stops.of_map {p : Parser β} {g : β → α} (h : Stops (g <$> p) i) : Stops p i := by
  rw [map_eq_pure_bind] at h
  rcases h.of_bind with h | ⟨y, m, -, h⟩
  · exact h
  · exact absurd h not_stops_pure

theorem Stops.of_orElse (h : Stops (p <|> q) i) : Stops q i := by
  obtain ⟨pos, a, a', h⟩ := h
  replace h : Parser.orElse p (fun _ => q) ⟨pos, i⟩ a = _ := h
  rw [Parser.orElse] at h
  split at h
  · cases h
  · next a₁ hp => exact ⟨pos, a₁, a', h⟩

/-- The second parser is tried only where the first one has failed. -/
theorem Yields.of_orElse (h : Yields (p <|> q) i x r) :
    Yields p i x r ∨ Stops p i ∧ Yields q i x r := by
  obtain ⟨pos, a, pos', a', h⟩ := h
  replace h : Parser.orElse p (fun _ => q) ⟨pos, i⟩ a = _ := h
  rw [Parser.orElse] at h
  split at h
  · next y a₁ hp =>
    cases h
    exact .inl ⟨pos, a, pos', a', hp⟩
  · next a₁ hp => exact .inr ⟨⟨pos, a, a₁, hp⟩, pos, a₁, pos', a', h⟩

theorem Yields.of_named (h : Yields (named k p) i x r) : Yields p i x r := by
  obtain ⟨pos, a, pos', a', h⟩ := h
  rw [Parser.named] at h
  split at h
  · next y a₁ hp =>
    cases h
    exact ⟨pos, a, pos', a', hp⟩
  · cases h

theorem Yields.of_run {length : List Char → Nat} {s : List Char} (h : Yields (run length) i s r) :
    length i ≠ 0 ∧ s = i.take (length i) ∧ r = i.drop (length i) := by
  obtain ⟨pos, a, pos', a', h⟩ := h
  rw [Parser.run] at h
  split at h
  · cases h
  · next hne =>
    cases h
    exact ⟨hne, rfl, rfl⟩

theorem Yields.of_word {w : String} {u : Unit} (h : Yields (word w) i u r) : i = w.toList ++ r := by
  obtain ⟨pos, a, pos', a', h⟩ := h
  rw [Parser.word] at h
  split at h
  · next hpre =>
    obtain ⟨t, ht⟩ := List.isPrefixOf_iff_prefix.1 hpre
    replace ht : w.toList ++ t = i := ht
    cases h
    rw [← ht]
    simp [← String.length_toList]
  · cases h

theorem Yields.of_next (h : Yields (next p) i x r) : ∃ j, Skips i j ∧ Yields p j x r := by
  obtain ⟨u, j, hskip, h⟩ := h.of_bind
  obtain ⟨pos, a, pos', a', hskip⟩ := hskip
  cases hskip
  exact ⟨_, rfl, h⟩

theorem Yields.of_opt {y : Option α} (h : Yields (opt p) i y r) :
    (∃ x, y = some x ∧ Yields (next p) i x r) ∨ y = none ∧ r = i ∧ Stops (next p) i := by
  rcases h.of_orElse with h | ⟨hstop, h⟩
  · obtain ⟨x, hx, rfl⟩ := h.of_map
    exact .inl ⟨x, rfl, hx⟩
  · obtain ⟨rfl, rfl⟩ := h.of_pure
    exact .inr ⟨rfl, rfl, hstop.of_map⟩

/-! ### Repetitions -/

theorem Yields.forall_mem_upTo : ∀ {n : Nat} {i : List Char} {xs : List α},
    Yields (upTo p n) i xs r → ∀ x ∈ xs, ∃ j m, Yields p j x m
  | 0, i, xs, h => by
    obtain ⟨rfl, -⟩ := h.of_pure
    exact List.forall_mem_nil _
  | n + 1, i, xs, h => by
    rcases h.of_orElse with h | ⟨-, h⟩
    · obtain ⟨x, m, hx, h⟩ := h.of_bind
      obtain ⟨ys, m', hys, h⟩ := h.of_bind
      obtain ⟨rfl, rfl⟩ := h.of_pure
      obtain ⟨j, -, hx⟩ := hx.of_next
      exact List.forall_mem_cons.2 ⟨⟨j, m, hx⟩, hys.forall_mem_upTo⟩
    · obtain ⟨rfl, -⟩ := h.of_pure
      exact List.forall_mem_nil _

theorem Yields.forall_mem_many (h : Yields (many p) i xs r) : ∀ x ∈ xs, ∃ j m, Yields p j x m := by
  obtain ⟨pos, a, pos', a', h⟩ := h
  exact Yields.forall_mem_upTo (n := i.length + 1) ⟨pos, a, pos', a', h⟩

theorem not_stops_upTo : ∀ {n : Nat} {i : List Char}, ¬ Stops (upTo p n) i
  | 0, _ => not_stops_pure
  | _ + 1, _ => fun h => not_stops_pure h.of_orElse

/-- A repetition ends where its parser fails. -/
theorem Yields.stops_upTo (hp : ∀ {i x r}, Yields (next p) i x r → r.length < i.length) :
    ∀ {n : Nat} {i : List Char} {xs : List α}, i.length < n → Yields (upTo p n) i xs r →
      Stops (next p) r ∧ (Refuses (next p) i → xs = [] ∧ r = i)
  | 0, _, _, hn, _ => absurd hn (Nat.not_lt_zero _)
  | n + 1, i, xs, hn, h => by
    rcases h.of_orElse with h | ⟨hstop, h⟩
    · obtain ⟨x, m, hx, h⟩ := h.of_bind
      obtain ⟨ys, m', hys, h⟩ := h.of_bind
      obtain ⟨-, rfl⟩ := h.of_pure
      have hm := hp hx
      exact ⟨(hys.stops_upTo hp (by omega)).1, fun hi => absurd hx hi.not_yields⟩
    · obtain ⟨rfl, rfl⟩ := h.of_pure
      refine ⟨?_, fun _ => ⟨rfl, rfl⟩⟩
      rcases hstop.of_bind with hstop | ⟨x, m, -, hstop⟩
      · exact hstop
      · rcases hstop.of_bind with hstop | ⟨ys, m', -, hstop⟩
        · exact absurd hstop not_stops_upTo
        · exact absurd hstop not_stops_pure

theorem Yields.stops_many (h : Yields (many p) i xs r)
    (hp : ∀ {i x r}, Yields (next p) i x r → r.length < i.length) :
    Stops (next p) r ∧ (Refuses (next p) i → xs = [] ∧ r = i) := by
  obtain ⟨pos, a, pos', a', h⟩ := h
  exact Yields.stops_upTo hp (n := i.length + 1) i.length.lt_succ_self ⟨pos, a, pos', a', h⟩

theorem Yields.forall_mem_commaSeparated (h : Yields (commaSeparated p) i xs r) :
    xs ≠ [] ∧ ∀ x ∈ xs, ∃ j m, Yields p j x m := by
  obtain ⟨x, m, hx, h⟩ := h.of_bind
  obtain ⟨ys, m', hys, h⟩ := h.of_bind
  obtain ⟨rfl, rfl⟩ := h.of_pure
  refine ⟨List.cons_ne_nil x ys, List.forall_mem_cons.2 ⟨⟨i, m, hx⟩, fun y hy => ?_⟩⟩
  obtain ⟨j, m, h⟩ := hys.forall_mem_many y hy
  obtain ⟨-, m', -, h⟩ := h.of_bind
  obtain ⟨j', -, h⟩ := h.of_next
  exact ⟨j', m, h⟩

/-! ### Parsers that do not depend on what was attempted -/

def Uniform (p : Parser α) : Prop := ∀ i, (∃ x r, Reads p i x r) ∨ Refuses p i

theorem Uniform.refuses (hp : Uniform p) (h : Stops p i) : Refuses p i := by
  rcases hp i with ⟨x, r, hreads⟩ | hrefuses
  · obtain ⟨pos, a, a', h⟩ := h
    obtain ⟨pos', a'', h'⟩ := hreads pos a
    cases h.symm.trans h'
  · exact hrefuses

theorem uniform_pure : Uniform (pure x) := fun i => .inl ⟨x, i, reads_pure⟩

theorem uniform_bind {p : Parser β} {f : β → Parser α} (hp : Uniform p)
    (hf : ∀ y, Uniform (f y)) : Uniform (p >>= f) := fun i => by
  rcases hp i with ⟨y, m, hy⟩ | hi
  · rcases hf y m with ⟨x, r, hx⟩ | hm
    · exact .inl ⟨x, r, reads_bind hy hx⟩
    · exact .inr (refuses_bind_of_reads hy hm)
  · exact .inr (refuses_bind hi)

theorem uniform_orElse (hp : Uniform p) (hq : Uniform q) : Uniform (p <|> q) := fun i => by
  rcases hp i with ⟨x, r, hx⟩ | hi
  · exact .inl ⟨x, r, reads_orElse_left hx⟩
  · rcases hq i with ⟨x, r, hx⟩ | hi'
    · exact .inl ⟨x, r, reads_orElse_right hi hx⟩
    · exact .inr (refuses_orElse hi hi')

theorem uniform_named (hp : Uniform p) : Uniform (named k p) := fun i =>
  (hp i).imp (fun ⟨x, r, hx⟩ => ⟨x, r, reads_named hx⟩) refuses_named

theorem uniform_word (w : String) : Uniform (word w) := fun i => by
  by_cases h : w.toList <+: i
  · obtain ⟨r, rfl⟩ := h
    exact .inl ⟨(), r, reads_word w⟩
  · exact .inr (refuses_word h)

theorem uniform_run (length : List Char → Nat) : Uniform (run length) := fun i => by
  by_cases h : length i = 0
  · exact .inr (refuses_run h)
  · refine .inl ⟨i.take (length i), i.drop (length i), fun pos a => ⟨pos + length i, a, ?_⟩⟩
    simp only [run, h, if_false, Cursor.advance]

theorem uniform_next (hp : Uniform p) : Uniform (next p) := fun i =>
  (hp (i.drop (blankLength false i))).imp (fun ⟨x, r, hx⟩ => ⟨x, r, reads_next rfl hx⟩)
    (refuses_next rfl)

theorem uniform_opt (hp : Uniform p) : Uniform (opt p) := by
  refine uniform_orElse ?_ uniform_pure
  rw [map_eq_pure_bind]
  exact uniform_bind (uniform_next hp) fun _ => uniform_pure

end Bindery.Dump.Parser
