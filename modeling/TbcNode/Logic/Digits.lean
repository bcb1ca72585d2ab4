import Mathlib.Data.Nat.Size
import Mathlib.Tactic.Positivity

/-! # Numbers cut to their leading digits

`truncDigits b k x` clears the `k` lowest base-`b` digits of `x`, the largest multiple of `b ^ k`
not above `x`; beside it, facts on the scaling `x * b ^ p / b ^ q` of a mantissa.
-/

namespace TbcNode.Logic

/-- `x` with its `k` lowest base-`b` digits cleared. -/
def truncDigits (b k x : Nat) : Nat := x / b ^ k * b ^ k

section Truncation

variable {b k x y : Nat}

theorem truncDigits_le (b k x : Nat) : truncDigits b k x ≤ x := Nat.div_mul_le_self _ _

theorem dvd_truncDigits (b k x : Nat) : b ^ k ∣ truncDigits b k x := Nat.dvd_mul_left _ _

theorem truncDigits_of_dvd (h : b ^ k ∣ x) : truncDigits b k x = x := Nat.div_mul_cancel h

@[simp] theorem truncDigits_zero (b x : Nat) : truncDigits b 0 x = x := by
  simp [truncDigits]

/-- Every multiple of `b ^ k` not above `x` is at most the truncation. -/
theorem le_truncDigits (hb : 0 < b) {m : Nat} (hm : b ^ k ∣ m) (hmx : m ≤ x) :
    m ≤ truncDigits b k x := by
  obtain ⟨t, rfl⟩ := hm
  have hpow : 0 < b ^ k := by positivity
  have ht : t ≤ x / b ^ k := (Nat.le_div_iff_mul_le hpow).mpr (by rw [Nat.mul_comm]; exact hmx)
  calc b ^ k * t = t * b ^ k := Nat.mul_comm _ _
    _ ≤ x / b ^ k * b ^ k := Nat.mul_le_mul_right _ ht

theorem truncDigits_mono (hb : 0 < b) (hxy : x ≤ y) : truncDigits b k x ≤ truncDigits b k y :=
  le_truncDigits hb (dvd_truncDigits b k x) ((truncDigits_le b k x).trans hxy)

theorem truncDigits_anti (hb : 0 < b) {k' : Nat} (hk : k ≤ k') :
    truncDigits b k' x ≤ truncDigits b k x :=
  le_truncDigits hb ((Nat.pow_dvd_pow b hk).trans (dvd_truncDigits b k' x)) (truncDigits_le _ _ _)

theorem truncDigits_truncDigits (b k x : Nat) :
    truncDigits b k (truncDigits b k x) = truncDigits b k x :=
  truncDigits_of_dvd (dvd_truncDigits b k x)

theorem truncDigits_div_pow_of_le (hb : 0 < b) {j : Nat} (hk : k ≤ j) :
    truncDigits b k x / b ^ j = x / b ^ j := by
  have hsplit : b ^ j = b ^ k * b ^ (j - k) := by rw [← Nat.pow_add]; congr 1; omega
  rw [truncDigits, hsplit, ← Nat.div_div_eq_div_mul, Nat.mul_div_cancel _ (by positivity),
    Nat.div_div_eq_div_mul]

@[simp] theorem truncDigits_of_zero (b k : Nat) : truncDigits b k 0 = 0 := by
  simp [truncDigits]

end Truncation

section Scaling

variable {b : Nat}

theorem mul_pow_div_pow_of_le (hb : 0 < b) (x : Nat) {p q : Nat} (h : q ≤ p) :
    x * b ^ p / b ^ q = x * b ^ (p - q) := by
  have hsplit : b ^ p = b ^ (p - q) * b ^ q := by rw [← Nat.pow_add]; congr 1; omega
  rw [hsplit, ← Nat.mul_assoc, Nat.mul_div_cancel _ (by positivity)]

theorem mul_pow_div_pow_of_ge (hb : 0 < b) (x : Nat) {p q : Nat} (h : p ≤ q) :
    x * b ^ p / b ^ q = x / b ^ (q - p) := by
  have hsplit : b ^ q = b ^ (q - p) * b ^ p := by rw [← Nat.pow_add]; congr 1; omega
  rw [hsplit, Nat.mul_div_mul_right _ _ (by positivity)]

theorem truncDigits_div_pow (hb : 0 < b) (k x : Nat) : truncDigits b k x / b ^ k = x / b ^ k :=
  Nat.mul_div_cancel _ (by positivity)

end Scaling

end TbcNode.Logic
