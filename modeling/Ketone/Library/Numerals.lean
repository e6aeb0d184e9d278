import Mathlib.Data.Nat.Digits.Lemmas

/-! Numbers written with the highest digit first. -/

namespace Ketone.Library.Numerals

/-- The number that digits stand for when they are read behind a number already read. -/
def valueFrom (base : Nat) : Nat → List Nat → Nat
  | read, [] => read
  | read, digit :: rest => valueFrom base (read * base + digit) rest

def value (base : Nat) (digits : List Nat) : Nat := valueFrom base 0 digits

def lowDigits (base : Nat) : Nat → Nat → List Nat
  | 0, _ => []
  | count + 1, n => n / base ^ count % base :: lowDigits base count n

section
variable {base : Nat}

theorem valueFrom_append (read : Nat) (first second : List Nat) :
    valueFrom base read (first ++ second) = valueFrom base (valueFrom base read first) second := by
  induction first generalizing read with
  | nil => rfl
  | cons digit rest ih => exact ih _

theorem lowDigits_length (count n : Nat) : (lowDigits base count n).length = count := by
  induction count with
  | zero => rfl
  | succ count ih => simp only [lowDigits, List.length_cons, ih]

theorem lowDigits_below (positive : 0 < base) (count n : Nat) : ∀ digit ∈ lowDigits base count n, digit < base := by
  induction count with
  | zero => exact fun digit member => absurd member List.not_mem_nil
  | succ count ih =>
    intro digit member
    rcases List.mem_cons.mp member with rfl | later
    · exact Nat.mod_lt _ positive
    · exact ih digit later

theorem valueFrom_lowDigits (read count n : Nat) :
    valueFrom base read (lowDigits base count n) = read * base ^ count + n % base ^ count := by
  induction count generalizing read with
  | zero => simp [lowDigits, valueFrom, Nat.mod_one]
  | succ count ih =>
    rw [lowDigits, valueFrom, ih]
    calc
      _ = read * (base * base ^ count) + (n % base ^ count + base ^ count * (n / base ^ count % base)) := by ring
      _ = read * base ^ (count + 1) + n % base ^ (count + 1) := by
        rw [← Nat.mod_mul, Nat.pow_succ, Nat.mul_comm base]

theorem value_lowDigits {count n : Nat} (enough : n < base ^ count) : value base (lowDigits base count n) = n := by
  unfold value
  rw [valueFrom_lowDigits, Nat.zero_mul, Nat.zero_add, Nat.mod_eq_of_lt enough]

theorem value_reverse_digits (n : Nat) : value base (Nat.digits base n).reverse = n := by
  have from_end : ∀ digits, value base digits.reverse = Nat.ofDigits base digits := by
    intro digits
    induction digits with
    | nil => rfl
    | cons digit rest ih =>
      unfold value at ih ⊢
      rw [List.reverse_cons, valueFrom_append, ih, Nat.ofDigits_cons]
      simp only [valueFrom]
      ring
  rw [from_end, Nat.ofDigits_digits]

end

end Ketone.Library.Numerals
