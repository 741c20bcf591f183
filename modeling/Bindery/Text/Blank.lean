/-!
# Blank characters

`isBlank` is Unicode's `White_Space` property; `trimEnd` and `trim` strip such characters from the
end, or from both ends, of a text.
-/

namespace Bindery.Text

/-- The characters with Unicode's `White_Space` property. -/
def isBlank (c : Char) : Bool :=
  let n := c.toNat
  (9 ≤ n && n ≤ 13) || n == 0x20 || n == 0x85 || n == 0xA0 || n == 0x1680 ||
    (0x2000 ≤ n && n ≤ 0x200A) || n == 0x2028 || n == 0x2029 || n == 0x202F || n == 0x205F ||
    n == 0x3000

def trimEnd (s : List Char) : List Char := (s.reverse.dropWhile isBlank).reverse

def trim (s : List Char) : List Char := trimEnd (s.dropWhile isBlank)

/-- A text without blanks around it does not begin with one. -/
theorem isBlank_eq_false_of_trim {c : Char} {s : List Char} (h : trim (c :: s) = c :: s) :
    isBlank c = false := by
  rw [Bool.eq_false_iff]
  intro hc
  have hlen := congrArg List.length h
  rw [trim, List.dropWhile_cons_of_pos hc, trimEnd, List.length_reverse] at hlen
  have h1 := (List.dropWhile_sublist isBlank (l := (s.dropWhile isBlank).reverse)).length_le
  have h2 := (List.dropWhile_sublist isBlank (l := s)).length_le
  rw [hlen, List.length_reverse, List.length_cons] at h1
  omega

theorem trimEnd_append {s b : List Char} (hb : ∀ c ∈ b, isBlank c) :
    trimEnd (s ++ b) = trimEnd s := by
  rw [trimEnd, List.reverse_append, List.dropWhile_append_of_pos (by simpa using hb), ← trimEnd]

theorem trim_of_forall {s : List Char} (h : ∀ c ∈ s, isBlank c = false) : trim s = s := by
  have hdrop : ∀ t : List Char, (∀ c ∈ t, isBlank c = false) → t.dropWhile isBlank = t := by
    intro t ht
    cases t with
    | nil => rfl
    | cons c t => exact List.dropWhile_cons_of_neg (by simp [ht c (List.mem_cons_self ..)])
  have hrev : ∀ c ∈ s.reverse, isBlank c = false := fun c hc => h c (List.mem_reverse.1 hc)
  rw [trim, hdrop s h, trimEnd, hdrop s.reverse hrev, List.reverse_reverse]

/-- Blanks around a text that has none are stripped. -/
theorem trim_append_append {a s b : List Char} (ha : ∀ c ∈ a, isBlank c) (hb : ∀ c ∈ b, isBlank c)
    (hs : trim s = s) : trim (a ++ (s ++ b)) = s := by
  rw [trim, List.dropWhile_append_of_pos ha]
  cases s with
  | nil =>
    rw [List.nil_append, ← List.append_nil b, List.dropWhile_append_of_pos hb]
    rfl
  | cons c s =>
    have hc : ¬ isBlank c = true := by simp [isBlank_eq_false_of_trim hs]
    rw [trim, List.dropWhile_cons_of_neg hc] at hs
    rw [List.cons_append, List.dropWhile_cons_of_neg hc, ← List.cons_append, trimEnd_append hb, hs]

end Bindery.Text
