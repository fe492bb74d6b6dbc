import Mathlib.Data.Nat.Size
import Mathlib.Tactic.Ring

/-!
# Numbers as lists of machine words

A number of fixed width is a list of words of 32 bits, the lowest first. Sums and products run over
the words with a carry and drop the last one; division shifts and subtracts. Each is the operation on
numbers, reduced to the width.
-/

namespace Words

open List Nat

def base : Nat := 2 ^ 32

def value : List Nat → Nat
  | [] => 0
  | x :: xs => x + base * value xs

def ofNat : Nat → Nat → List Nat
  | 0, _ => []
  | k + 1, n => n % base :: ofNat k (n / base)

@[simp] theorem length_ofNat (k n : Nat) : (ofNat k n).length = k := by
  induction k generalizing n with
  | zero => rfl
  | succ k ih => rw [ofNat, length_cons, ih]

theorem value_ofNat (k n : Nat) : value (ofNat k n) = n % base ^ k := by
  induction k generalizing n with
  | zero => rw [ofNat, value, pow_zero, mod_one]
  | succ k ih =>
    rw [ofNat, value, ih, pow_succ', mod_mul]

theorem value_ofNat_of_lt {k n : Nat} (h : n < base ^ k) : value (ofNat k n) = n := by
  rw [value_ofNat, mod_eq_of_lt h]

/-- The product with one word. -/
def mulWord (b : Nat) : Nat → List Nat → List Nat
  | _, [] => []
  | carry, x :: xs => (carry + b * x) % base :: mulWord b ((carry + b * x) / base) xs

/-- The sum with another number of the width. -/
def add : Nat → List Nat → List Nat → List Nat
  | carry, x :: xs, y :: ys => (carry + x + y) % base :: add ((carry + x + y) / base) xs ys
  | _, _, _ => []

/-- The lowest word and the carry make up the whole. -/
theorem low_add_high (n m k : Nat) :
    n % base + base * ((n / base + m) % base ^ k) = (n + base * m) % base ^ (k + 1) := by
  have hlow : (n + base * m) % base = n % base := add_mul_mod_self_left n base m
  have hhigh : (n + base * m) / base = n / base + m := add_mul_div_left n m (by decide)
  rw [pow_succ', mod_mul, hlow, hhigh]

theorem value_mulWord (b carry : Nat) (xs : List Nat) :
    value (mulWord b carry xs) = (carry + b * value xs) % base ^ xs.length := by
  induction xs generalizing carry with
  | nil => rw [mulWord, value, length_nil, pow_zero, mod_one]
  | cons x xs ih =>
    rw [mulWord, value, ih, length_cons, low_add_high, value]
    congr 1
    ring

theorem value_add {xs ys : List Nat} (carry : Nat) (hlen : xs.length = ys.length) :
    value (add carry xs ys) = (carry + value xs + value ys) % base ^ xs.length := by
  induction xs generalizing carry ys with
  | nil => rw [add, value, length_nil, pow_zero, mod_one]; simp
  | cons x xs ih =>
    cases ys with
    | nil => simp at hlen
    | cons y ys =>
      have hstep : add carry (x :: xs) (y :: ys) =
          (carry + x + y) % base :: add ((carry + x + y) / base) xs ys := rfl
      rw [hstep, value, ih _ (by simpa using hlen), length_cons, add_assoc (_ / base),
        low_add_high, value, value]
      congr 1
      ring

/-- The rounds of a division by `d` from the shift `k - 1` down: where the shifted divisor fits it
is taken off, and the bit of the quotient is set. -/
def divideFrom (d : Nat) : Nat → Nat → Nat → Nat
  | 0, _, quotient => quotient
  | k + 1, num, quotient =>
      if d * 2 ^ k ≤ num then divideFrom d k (num - d * 2 ^ k) (quotient + 2 ^ k)
      else divideFrom d k num quotient

/-- Division from the shift that aligns the two numbers. -/
def divide (num d : Nat) : Nat :=
  if d.size > num.size then 0 else divideFrom d (num.size - d.size + 1) num 0

theorem divideFrom_eq {d : Nat} (hd : 0 < d) {k num : Nat} (h : num < d * 2 ^ k) (quotient : Nat) :
    divideFrom d k num quotient = quotient + num / d := by
  induction k generalizing num quotient with
  | zero =>
    rw [pow_zero, mul_one] at h
    rw [divideFrom, div_eq_of_lt h, add_zero]
  | succ k ih =>
    rw [pow_succ, ← mul_assoc] at h
    rw [divideFrom]
    split
    · next hfits =>
        have hquot : num / d = (num - d * 2 ^ k) / d + 2 ^ k := by
          have hsum := Nat.add_mul_div_left (num - d * 2 ^ k) (2 ^ k) hd
          rwa [Nat.sub_add_cancel hfits] at hsum
        rw [ih (by omega), hquot]
        omega
    · next hfits => exact ih (by omega) quotient

theorem divide_eq {num d : Nat} (hd : 0 < d) : divide num d = num / d := by
  have hnum := lt_size_self num
  have hpos : 0 < d.size := size_pos.mpr hd
  have hlow : 2 ^ (d.size - 1) ≤ d := lt_size.mp (by omega)
  unfold divide
  split
  · next hlong =>
      have hlt : num < d := by
        calc num < 2 ^ num.size := hnum
          _ ≤ 2 ^ (d.size - 1) := Nat.pow_le_pow_right (by omega) (by omega)
          _ ≤ d := hlow
      rw [Nat.div_eq_of_lt hlt]
  · next hshort =>
      have hbound : num < d * 2 ^ (num.size - d.size + 1) := by
        calc num < 2 ^ num.size := hnum
          _ = 2 ^ (d.size - 1) * 2 ^ (num.size - d.size + 1) := by
            rw [← pow_add]
            congr 1
            omega
          _ ≤ d * 2 ^ (num.size - d.size + 1) := mul_le_mul_right _ hlow
      rw [divideFrom_eq hd hbound, zero_add]

end Words
