import TbcNode.Encoding.Integers

/-! # Bits of byte strings

The value of a byte string read one bit at a time, the shifts of a big-endian string as operations
on its value at its width, and the bits of a fold that only sets bits (`testBit_foldl_of_or`).
-/

namespace TbcNode.Encoding

/-! ## Bits of little- and big-endian values -/

theorem testBit_readLE (l : List UInt8) (j : Nat) :
    (readLE l).testBit j = (l.getD (j / 8) 0).toNat.testBit (j % 8) := by
  induction l generalizing j with
  | nil => simp
  | cons b bs ih =>
    have hb := b.toNat_lt
    rcases Nat.lt_or_ge j 8 with hj | hj
    · have h := Nat.testBit_mod_two_pow (readLE (b :: bs)) 8 j
      rw [show readLE (b :: bs) % 2 ^ 8 = b.toNat by rw [readLE_cons]; omega] at h
      simp [h, hj, Nat.div_eq_of_lt hj, Nat.mod_eq_of_lt hj]
    · obtain ⟨i, rfl⟩ : ∃ i, j = i + 8 := ⟨j - 8, by omega⟩
      have h := Nat.testBit_div_two_pow (readLE (b :: bs)) (n := 8) (i := i)
      rw [show readLE (b :: bs) / 2 ^ 8 = readLE bs by rw [readLE_cons]; omega] at h
      rw [← h, ih, Nat.add_div_right _ (by omega), Nat.add_mod_right]
      simp

theorem getD_reverse {α : Type} (l : List α) (i : Nat) (d : α) :
    l.reverse.getD i d = if i < l.length then l.getD (l.length - 1 - i) d else d := by
  by_cases hi : i < l.length
  · rw [if_pos hi, List.getD_eq_getElem _ _ (by simpa using hi),
      List.getD_eq_getElem _ _ (by omega), List.getElem_reverse]
  · rw [if_neg hi, List.getD_eq_default _ _ (by simpa using hi)]

theorem testBit_readBE (l : List UInt8) (j : Nat) :
    (readBE l).testBit j = (j / 8 < l.length &&
      (l.getD (l.length - 1 - j / 8) 0).toNat.testBit (j % 8)) := by
  rw [readBE, testBit_readLE, getD_reverse]
  by_cases hj : j / 8 < l.length
  · simp [hj]
  · simp [hj]

theorem readBE_lt (l : List UInt8) : readBE l < 256 ^ l.length := by
  rw [readBE, ← List.length_reverse]
  exact readLE_lt _

/-! ## Shifts of big-endian strings -/

/-- The `w` bytes of `n` modulo `256 ^ w`, most significant first. -/
def writeBE (w n : Nat) : List UInt8 := (writeLE w n).reverse

/-- The string shifted left by `n` bits, with zero fill and the bits past the width dropped. -/
def shiftLeftBE (x : List UInt8) (n : Nat) : List UInt8 := writeBE x.length (readBE x * 2 ^ n)

/-- The string shifted right by `n` bits, with zero fill. -/
def shiftRightBE (x : List UInt8) (n : Nat) : List UInt8 := writeBE x.length (readBE x / 2 ^ n)

@[simp] theorem length_writeBE (w n : Nat) : (writeBE w n).length = w := by
  simp [writeBE]

theorem readBE_writeBE (w n : Nat) : readBE (writeBE w n) = n % 256 ^ w := by
  rw [writeBE, readBE, List.reverse_reverse, readLE_writeLE]

theorem eq_of_readBE_eq {a b : List UInt8} (hlen : a.length = b.length)
    (h : readBE a = readBE b) : a = b := by
  have ha := writeLE_readLE (List.length_reverse : a.reverse.length = a.length)
  have hb := writeLE_readLE (List.length_reverse : b.reverse.length = b.length)
  unfold readBE at h
  rw [← List.reverse_reverse a, ← List.reverse_reverse b, ← ha, ← hb, h, hlen]

theorem two_pow_eight_mul (w : Nat) : 2 ^ (8 * w) = 256 ^ w := by
  rw [Nat.pow_mul]

@[simp] theorem length_shiftLeftBE (x : List UInt8) (n : Nat) :
    (shiftLeftBE x n).length = x.length := length_writeBE _ _

@[simp] theorem length_shiftRightBE (x : List UInt8) (n : Nat) :
    (shiftRightBE x n).length = x.length := length_writeBE _ _

theorem readBE_shiftLeftBE (x : List UInt8) (n : Nat) :
    readBE (shiftLeftBE x n) = readBE x * 2 ^ n % 2 ^ (8 * x.length) := by
  rw [shiftLeftBE, readBE_writeBE, two_pow_eight_mul]

theorem readBE_shiftRightBE (x : List UInt8) (n : Nat) :
    readBE (shiftRightBE x n) = readBE x / 2 ^ n := by
  rw [shiftRightBE, readBE_writeBE, Nat.mod_eq_of_lt]
  exact lt_of_le_of_lt (Nat.div_le_self _ _) (readBE_lt x)

theorem shiftLeftBE_add (x : List UInt8) (a b : Nat) :
    shiftLeftBE (shiftLeftBE x a) b = shiftLeftBE x (a + b) := by
  apply eq_of_readBE_eq (by simp)
  rw [readBE_shiftLeftBE, readBE_shiftLeftBE, readBE_shiftLeftBE, length_shiftLeftBE,
    Nat.mod_mul_mod, Nat.mul_assoc, ← Nat.pow_add]

theorem shiftRightBE_add (x : List UInt8) (a b : Nat) :
    shiftRightBE (shiftRightBE x a) b = shiftRightBE x (a + b) := by
  apply eq_of_readBE_eq (by simp)
  rw [readBE_shiftRightBE, readBE_shiftRightBE, readBE_shiftRightBE, Nat.div_div_eq_div_mul,
    ← Nat.pow_add]

theorem readBE_replicate_zero (k : Nat) : readBE (List.replicate k 0) = 0 := by
  rw [readBE, List.reverse_replicate]
  have h := readLE_append_replicate_zero [] k
  rwa [List.nil_append, readLE_nil] at h

theorem shiftLeftBE_of_le {x : List UInt8} {n : Nat} (h : 8 * x.length ≤ n) :
    shiftLeftBE x n = List.replicate x.length 0 := by
  apply eq_of_readBE_eq (by simp)
  rw [readBE_shiftLeftBE, readBE_replicate_zero]
  exact Nat.mod_eq_zero_of_dvd (Dvd.dvd.mul_left (Nat.pow_dvd_pow 2 h) _)

theorem shiftRightBE_of_le {x : List UInt8} {n : Nat} (h : 8 * x.length ≤ n) :
    shiftRightBE x n = List.replicate x.length 0 := by
  apply eq_of_readBE_eq (by simp)
  rw [readBE_shiftRightBE, readBE_replicate_zero, Nat.div_eq_zero_iff_lt (by positivity)]
  calc readBE x < 256 ^ x.length := readBE_lt x
    _ = 2 ^ (8 * x.length) := (two_pow_eight_mul _).symm
    _ ≤ 2 ^ n := Nat.pow_le_pow_right (by omega) h

/-! ## Bits of bytes -/

theorem testBit_toNat_of_le (t : UInt8) {j : Nat} (h : 8 ≤ j) : t.toNat.testBit j = false :=
  Nat.testBit_lt_two_pow (lt_of_lt_of_le t.toNat_lt (Nat.pow_le_pow_right (by omega) h))

@[simp] theorem testBit_toNat_or (t u : UInt8) (j : Nat) :
    (t ||| u).toNat.testBit j = (t.toNat.testBit j || u.toNat.testBit j) := by
  rw [UInt8.toNat_or, Nat.testBit_or]

@[simp] theorem testBit_toNat_and (t u : UInt8) (j : Nat) :
    (t &&& u).toNat.testBit j = (t.toNat.testBit j && u.toNat.testBit j) := by
  rw [UInt8.toNat_and, Nat.testBit_and]

theorem testBit_ofNat_shiftRight (t : UInt8) (b j : Nat) :
    (UInt8.ofNat (t.toNat >>> b)).toNat.testBit j = t.toNat.testBit (b + j) := by
  have hlt : t.toNat >>> b < 256 :=
    lt_of_le_of_lt (by rw [Nat.shiftRight_eq_div_pow]; exact Nat.div_le_self _ _) t.toNat_lt
  rw [UInt8.toNat_ofNat_of_lt' hlt, Nat.testBit_shiftRight]

theorem testBit_ofNat_shiftLeft (t : UInt8) (c j : Nat) :
    (UInt8.ofNat (t.toNat <<< c)).toNat.testBit j =
      (decide (j < 8) && decide (c ≤ j) && t.toNat.testBit (j - c)) := by
  rw [UInt8.toNat_ofNat', Nat.testBit_mod_two_pow, Nat.testBit_shiftLeft, Bool.and_assoc]

theorem testBit_getD_modify_or (l : List UInt8) (k p j : Nat) (v : UInt8) :
    ((l.modify k (· ||| v)).getD p 0).toNat.testBit j =
      ((l.getD p 0).toNat.testBit j || (decide (p = k ∧ k < l.length) && v.toNat.testBit j)) := by
  rw [List.getD_eq_getElem?_getD, List.getElem?_modify, List.getD_eq_getElem?_getD]
  by_cases hk : k = p
  · subst hk
    by_cases hl : k < l.length
    · rw [List.getElem?_eq_getElem hl]
      simp [hl]
    · rw [List.getElem?_eq_none (by omega)]
      simp [hl]
  · simp [hk, Ne.symm hk]

theorem testBit_getD_replicate_zero (L p j : Nat) :
    ((List.replicate L (0 : UInt8)).getD p 0).toNat.testBit j = false := by
  by_cases hp : p < L <;> simp [List.getD_eq_getElem?_getD, hp]

/-- A fold whose rounds only set bits: a bit of the result is set when it is set at the start or
some round sets it. -/
theorem testBit_foldl_of_or {ι : Type} (L : Nat) (step : List UInt8 → ι → List UInt8)
    (set : ι → Nat → Nat → Bool) (hlen : ∀ acc i, acc.length = L → (step acc i).length = L)
    (hbit : ∀ acc i p j, acc.length = L → ((step acc i).getD p 0).toNat.testBit j =
      ((acc.getD p 0).toNat.testBit j || set i p j)) :
    ∀ (is : List ι) (init : List UInt8), init.length = L → ∀ p j,
      ((is.foldl step init).getD p 0).toNat.testBit j =
        ((init.getD p 0).toNat.testBit j || is.any fun i => set i p j) := by
  intro is
  induction is with
  | nil => simp
  | cons i is ih =>
    intro init hinit p j
    rw [List.foldl_cons, ih _ (hlen init i hinit), hbit init i p j hinit, List.any_cons,
      Bool.or_assoc]

theorem any_or (l : List Nat) (P Q : Nat → Bool) :
    l.any (fun i => P i || Q i) = (l.any P || l.any Q) := by
  induction l with
  | nil => rfl
  | cons i l ih =>
    rw [List.any_cons, List.any_cons, List.any_cons, ih]
    cases P i <;> cases Q i <;> simp

theorem any_range_add (L c p : Nat) (P : Nat → Bool) :
    (List.range L).any (fun i => decide (p = i + c ∧ i + c < L) && P i) =
      (decide (c ≤ p ∧ p < L) && P (p - c)) := by
  apply Bool.eq_iff_iff.mpr
  simp only [List.any_eq_true, List.mem_range, Bool.and_eq_true, decide_eq_true_eq]
  constructor
  · rintro ⟨i, -, ⟨rfl, hi⟩, h⟩
    refine ⟨⟨by omega, hi⟩, ?_⟩
    rwa [Nat.add_sub_cancel]
  · rintro ⟨⟨hc, hp⟩, h⟩
    exact ⟨p - c, by omega, ⟨by omega, by omega⟩, h⟩

theorem any_range_sub (L c p : Nat) (P : Nat → Bool) :
    (List.range L).any (fun i => decide (c ≤ i ∧ p = i - c ∧ i - c < L) && P i) =
      (decide (p + c < L) && P (p + c)) := by
  apply Bool.eq_iff_iff.mpr
  simp only [List.any_eq_true, List.mem_range, Bool.and_eq_true, decide_eq_true_eq]
  constructor
  · rintro ⟨i, hi, ⟨hc, rfl, -⟩, h⟩
    refine ⟨by omega, ?_⟩
    rwa [Nat.sub_add_cancel hc]
  · rintro ⟨hp, h⟩
    exact ⟨p + c, hp, ⟨by omega, by omega, by omega⟩, h⟩


end TbcNode.Encoding
