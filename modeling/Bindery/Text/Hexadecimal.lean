/-!
# Numbers in base sixteen
-/

namespace Bindery.Text

/-- The digits of `n` in base sixteen, in lower case. -/
def hexDigits (n : Nat) : List Char := Nat.toDigits 16 n

def hexDigit? (c : Char) : Option Nat :=
  if '0' ≤ c ∧ c ≤ '9' then some (c.toNat - '0'.toNat)
  else if 'a' ≤ c ∧ c ≤ 'f' then some (c.toNat - 'a'.toNat + 10)
  else if 'A' ≤ c ∧ c ≤ 'F' then some (c.toNat - 'A'.toNat + 10)
  else none

/-- The number that a list of digits stands for, if each is a digit of base sixteen. -/
def hexValue? (s : List Char) : Option Nat :=
  s.foldlM (fun n c => (hexDigit? c).map (n * 16 + ·)) 0

theorem hexDigit?_digitChar : ∀ {d : Nat}, d < 16 → hexDigit? d.digitChar = some d := by
  decide

theorem hexDigits_eq (n : Nat) :
    hexDigits n = if n < 16 then [n.digitChar] else hexDigits (n / 16) ++ [(n % 16).digitChar] :=
  Nat.toDigits_eq_if (by decide)

/-- The digits of a number stand for it. -/
theorem hexValue?_hexDigits (n : Nat) : hexValue? (hexDigits n) = some n := by
  induction n using Nat.strongRecOn with
  | _ n ih =>
    rw [hexDigits_eq]
    split
    · next h => simp [hexValue?, hexDigit?_digitChar h]
    · next h =>
      have hrec : hexValue? (hexDigits (n / 16)) = some (n / 16) := ih _ (by omega)
      have hlast := hexDigit?_digitChar (Nat.mod_lt n (show 0 < 16 by decide))
      rw [hexValue?] at hrec
      rw [hexValue?, List.foldlM_append, hrec, Option.bind_eq_bind, Option.bind_some]
      simp only [List.foldlM_cons, List.foldlM_nil, hlast, Option.map_some]
      show some (n / 16 * 16 + n % 16) = some n
      rw [Nat.mul_comm, Nat.div_add_mod]

theorem hexDigits_ne_nil (n : Nat) : hexDigits n ≠ [] := by
  rw [hexDigits_eq]
  split <;> simp

/-- What holds of the sixteen digits holds of every digit of a number. -/
theorem forall_mem_hexDigits {P : Char → Prop} (hP : ∀ d < 16, P d.digitChar) (n : Nat) :
    ∀ c ∈ hexDigits n, P c := by
  induction n using Nat.strongRecOn with
  | _ n ih =>
    rw [hexDigits_eq]
    split
    · next h => simpa using hP n h
    · next h =>
      intro c hc
      rcases List.mem_append.1 hc with hc | hc
      · exact ih _ (by omega) c hc
      · rw [List.mem_singleton.1 hc]
        exact hP _ (Nat.mod_lt n (by decide))

end Bindery.Text
