import Mathlib

/-! # Decimal digit strings

Facts on `Nat.toDigits 10` and `Nat.ofDigitChars 10` for printing with a field width and trimming
zeros: leading zeros keep the value, trailing zeros multiply it, and `k` digits read below `10 ^ k`.
-/

namespace TbcNode.Logic

theorem char_le_iff (a b : Char) : a ≤ b ↔ a.toNat ≤ b.toNat :=
  Char.le_def.trans UInt32.le_iff_toNat_le

theorem digit_lt_ten {c : Char} (h : c.isDigit = true) : c.toNat - '0'.toNat < 10 := by
  simp only [Char.isDigit, Bool.and_eq_true, decide_eq_true_eq] at h
  have h9 : c.val.toNat ≤ 57 := UInt32.le_iff_toNat_le.mp h.2
  show c.val.toNat - 48 < 10
  omega

theorem isDigit_of_between {c : Char} (h1 : '1' ≤ c) (h9 : c ≤ '9') : c.isDigit = true := by
  rw [char_le_iff] at h1 h9
  have h1' : 49 ≤ c.toNat := h1
  simp only [Char.isDigit, Bool.and_eq_true, decide_eq_true_eq, UInt32.le_iff_toNat_le]
  exact ⟨show 48 ≤ c.toNat by omega, h9⟩

theorem ofDigitChars_ten_init (m : List Char) (x : Nat) :
    Nat.ofDigitChars 10 m x = x * 10 ^ m.length + Nat.ofDigitChars 10 m 0 := by
  induction m generalizing x with
  | nil => simp [Nat.ofDigitChars_nil]
  | cons c m ih =>
    rw [Nat.ofDigitChars_cons, Nat.ofDigitChars_cons, ih, ih (10 * 0 + _), List.length_cons,
      Nat.pow_succ]
    ring

theorem ofDigitChars_ten_cons (c : Char) (m : List Char) :
    Nat.ofDigitChars 10 (c :: m) 0 =
      (c.toNat - '0'.toNat) * 10 ^ m.length + Nat.ofDigitChars 10 m 0 := by
  rw [Nat.ofDigitChars_cons, ofDigitChars_ten_init, Nat.mul_zero, Nat.zero_add]

theorem ofDigitChars_ten_append (l m : List Char) :
    Nat.ofDigitChars 10 (l ++ m) 0 =
      Nat.ofDigitChars 10 l 0 * 10 ^ m.length + Nat.ofDigitChars 10 m 0 := by
  rw [Nat.ofDigitChars_append, ofDigitChars_ten_init]

@[simp] theorem ofDigitChars_replicate_zero (k : Nat) :
    Nat.ofDigitChars 10 (List.replicate k '0') 0 = 0 := by
  induction k with
  | zero => rfl
  | succ k ih =>
    rw [List.replicate_succ, Nat.ofDigitChars_cons, ofDigitChars_ten_init, ih]
    simp

/-- Zeros in front do not change the value read. -/
theorem ofDigitChars_leftpad (n : Nat) (l : List Char) :
    Nat.ofDigitChars 10 (l.leftpad n '0') 0 = Nat.ofDigitChars 10 l 0 := by
  rw [List.leftpad, ofDigitChars_ten_append, ofDigitChars_replicate_zero, Nat.zero_mul,
    Nat.zero_add]

/-- Zeros behind multiply the value read. -/
theorem ofDigitChars_append_zeros (l : List Char) (k : Nat) :
    Nat.ofDigitChars 10 (l ++ List.replicate k '0') 0 = Nat.ofDigitChars 10 l 0 * 10 ^ k := by
  rw [ofDigitChars_ten_append, ofDigitChars_replicate_zero, List.length_replicate, Nat.add_zero]

/-- `k` digits read below `10 ^ k`. -/
theorem ofDigitChars_lt (l : List Char) (h : ∀ c ∈ l, c.isDigit = true) :
    Nat.ofDigitChars 10 l 0 < 10 ^ l.length := by
  induction l using List.reverseRecOn with
  | nil => simp [Nat.ofDigitChars_nil]
  | append_singleton l c ih =>
    have hl := ih fun d hd => h d (List.mem_append_left _ hd)
    have hc := digit_lt_ten (h c (List.mem_append_right _ (List.mem_singleton_self c)))
    rw [Nat.ofDigitChars_append, Nat.ofDigitChars_cons, Nat.ofDigitChars_nil, List.length_append,
      List.length_singleton, Nat.pow_succ]
    omega

theorem isDigit_of_mem_toDigits_ten {n : Nat} {c : Char} (h : c ∈ Nat.toDigits 10 n) :
    c.isDigit = true :=
  Nat.isDigit_of_mem_toDigits (by decide) (by decide) h

theorem length_toDigits_le {n k : Nat} (hk : 0 < k) (h : n < 10 ^ k) :
    (Nat.toDigits 10 n).length ≤ k :=
  Nat.toDigits_length 10 n k hk h

theorem length_leftpad_toDigits {n k : Nat} (hk : 0 < k) (h : n < 10 ^ k) :
    ((Nat.toDigits 10 n).leftpad k '0').length = k := by
  rw [List.length_leftpad]
  exact Nat.max_eq_left (length_toDigits_le hk h)

theorem isDigit_of_mem_leftpad {l : List Char} {k : Nat} (hl : ∀ c ∈ l, c.isDigit = true)
    {c : Char} (h : c ∈ l.leftpad k '0') : c.isDigit = true := by
  rw [List.leftpad] at h
  rcases List.mem_append.mp h with h | h
  · rw [List.eq_of_mem_replicate h]
    rfl
  · exact hl c h

/-- A positive number is written with a leading digit from `'1'` to `'9'`. -/
theorem toDigits_head {n : Nat} (hn : 0 < n) :
    ∃ c cs, Nat.toDigits 10 n = c :: cs ∧ '1' ≤ c ∧ c ≤ '9' := by
  induction n using Nat.strong_induction_on with
  | _ n ih =>
    by_cases hlt : n < 10
    · refine ⟨n.digitChar, [], Nat.toDigits_of_lt_base hlt, ?_, ?_⟩
      · rw [char_le_iff, Nat.toNat_digitChar_of_lt_ten hlt]
        show 49 ≤ 48 + n
        omega
      · rw [char_le_iff, Nat.toNat_digitChar_of_lt_ten hlt]
        show 48 + n ≤ 57
        omega
    · obtain ⟨c, cs, hcs, hc⟩ := ih (n / 10) (by omega) (by omega)
      have hsplit := Nat.toDigits_append_toDigits (b := 10) (n := n / 10) (d := n % 10)
        (by decide) (by omega) (Nat.mod_lt _ (by decide))
      rw [Nat.div_add_mod] at hsplit
      exact ⟨c, cs ++ Nat.toDigits 10 (n % 10), by rw [← hsplit, hcs, List.cons_append], hc⟩

end TbcNode.Logic
