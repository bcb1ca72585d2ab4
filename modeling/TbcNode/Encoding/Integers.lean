import Mathlib.Data.Nat.Bitwise
import Mathlib.Data.Nat.Digits.Lemmas

/-! # Byte encodings of integers

Little-endian digits (`digitsLE`, `readLE`), the minimal sign-magnitude encoding of an integer
(`signMagnitudeLE`) and the MPI format, whose body is the sign-magnitude encoding reversed.
-/

namespace TbcNode.Encoding

/-! ## Little-endian values and digits -/

/-- The value of a little-endian byte string. -/
def readLE : List UInt8 → Nat
  | [] => 0
  | b :: bs => b.toNat + 256 * readLE bs

def readBE (l : List UInt8) : Nat := readLE l.reverse

/-- The base-256 digits of `n`, least significant first; `0` has none. -/
def digitsLE (n : Nat) : List UInt8 := (Nat.digits 256 n).map UInt8.ofNat

@[simp] theorem readLE_nil : readLE [] = 0 := rfl

@[simp] theorem readLE_cons (b : UInt8) (bs : List UInt8) :
    readLE (b :: bs) = b.toNat + 256 * readLE bs := rfl

theorem readLE_append (l₁ l₂ : List UInt8) :
    readLE (l₁ ++ l₂) = readLE l₁ + 256 ^ l₁.length * readLE l₂ := by
  induction l₁ with
  | nil => simp
  | cons b bs ih =>
    simp only [List.cons_append, readLE_cons, ih, List.length_cons, Nat.pow_succ]
    ring

theorem readLE_lt (l : List UInt8) : readLE l < 256 ^ l.length := by
  induction l with
  | nil => simp
  | cons b bs ih =>
    have hb : b.toNat < 256 := b.toNat_lt
    simp only [readLE_cons, List.length_cons, Nat.pow_succ]
    nlinarith

@[simp] theorem readBE_cons (b : UInt8) (bs : List UInt8) :
    readBE (b :: bs) = b.toNat * 256 ^ bs.length + readBE bs := by
  simp [readBE, readLE_append, Nat.add_comm, Nat.mul_comm]

@[simp] theorem digitsLE_zero : digitsLE 0 = [] := by simp [digitsLE]

theorem digitsLE_of_pos {n : Nat} (h : 0 < n) :
    digitsLE n = UInt8.ofNat (n % 256) :: digitsLE (n / 256) := by
  simp [digitsLE, Nat.digits_def' (by norm_num : 1 < 256) h]

theorem digitsLE_eq_nil_iff {n : Nat} : digitsLE n = [] ↔ n = 0 := by
  simp [digitsLE, Nat.digits_eq_nil_iff_eq_zero]

theorem length_digitsLE_le_iff (n k : Nat) : (digitsLE n).length ≤ k ↔ n < 256 ^ k := by
  simpa [digitsLE] using Nat.digits_length_le_iff (by norm_num : 1 < 256) n

theorem readLE_digitsLE (n : Nat) : readLE (digitsLE n) = n := by
  induction n using Nat.strong_induction_on with
  | _ n ih =>
    rcases Nat.eq_zero_or_pos n with rfl | hn
    · simp
    · have hlt : n / 256 < n := Nat.div_lt_self hn (by norm_num)
      have hdigit : (UInt8.ofNat (n % 256)).toNat = n % 256 :=
        UInt8.toNat_ofNat_of_lt' (Nat.mod_lt _ (by norm_num))
      rw [digitsLE_of_pos hn, readLE_cons, ih _ hlt, hdigit]
      omega

theorem digitsLE_getLast_ne_zero {n : Nat} (hn : n ≠ 0) (h : digitsLE n ≠ []) :
    (digitsLE n).getLast h ≠ 0 := by
  have hd : Nat.digits 256 n ≠ [] := by simpa [Nat.digits_eq_nil_iff_eq_zero] using hn
  have hlast := Nat.getLast_digit_ne_zero 256 hn
  have hlt : (Nat.digits 256 n).getLast hd < 256 :=
    Nat.digits_lt_base (by norm_num) (List.getLast_mem hd)
  simp only [digitsLE, List.getLast_map]
  intro h0
  apply hlast
  have := congrArg UInt8.toNat h0
  rwa [UInt8.toNat_ofNat_of_lt' hlt] at this

/-- The low `w` bytes of `n`, least significant first: `WriteLE32`, `WriteLE64`, and a `memcpy` of
an unsigned integer on a little-endian machine. -/
def writeLE (w n : Nat) : List UInt8 := (List.range w).map fun i => UInt8.ofNat (n / 256 ^ i)

@[simp] theorem length_writeLE (w n : Nat) : (writeLE w n).length = w := by simp [writeLE]

theorem writeLE_succ (w n : Nat) : writeLE (w + 1) n = UInt8.ofNat n :: writeLE w (n / 256) := by
  simp only [writeLE, List.range_succ_eq_map, List.map_cons, List.map_map, Nat.pow_zero,
    Nat.div_one, List.cons.injEq, true_and]
  refine List.map_congr_left fun i _ => ?_
  simp only [Function.comp_apply, Nat.pow_succ', Nat.div_div_eq_div_mul]

theorem readLE_writeLE (w n : Nat) : readLE (writeLE w n) = n % 256 ^ w := by
  induction w generalizing n with
  | zero => simp [writeLE, Nat.mod_one]
  | succ w ih =>
    rw [writeLE_succ, readLE_cons, ih, Nat.pow_succ', Nat.mod_mul, UInt8.toNat_ofNat']

theorem writeLE_readLE {l : List UInt8} {w : Nat} (h : l.length = w) : writeLE w (readLE l) = l := by
  subst h
  induction l with
  | nil => rfl
  | cons b bs ih =>
    have hb : b.toNat < 256 := b.toNat_lt
    rw [List.length_cons, writeLE_succ, readLE_cons]
    have hdiv : (b.toNat + 256 * readLE bs) / 256 = readLE bs := by omega
    rw [hdiv, ih]
    congr 1
    apply UInt8.toNat_inj.mp
    rw [UInt8.toNat_ofNat']
    omega

/-! ## Sign-magnitude, little-endian -/

/-- Puts the sign into a little-endian magnitude: in the top bit of the last byte, or in one more
byte when that bit is already taken by the magnitude. -/
def signLast (neg : Bool) : List UInt8 → List UInt8
  | [] => []
  | [t] => if t &&& 0x80 ≠ 0 then [t, if neg then 0x80 else 0] else [if neg then t ||| 0x80 else t]
  | t :: ts => t :: signLast neg ts

/-- The minimal little-endian sign-magnitude encoding; `0` is the empty string. -/
def signMagnitudeLE (v : Int) : List UInt8 := signLast (decide (v < 0)) (digitsLE v.natAbs)

/-- The integer a non-empty little-endian sign-magnitude string encodes. -/
def signMagnitudeValue (s : List UInt8) : Int :=
  match s.getLast? with
  | none => 0
  | some last =>
    let m : Int := readLE (s.dropLast ++ [last &&& 0x7f])
    if last &&& 0x80 ≠ 0 then -m else m

theorem signLast_append_single (neg : Bool) (ts : List UInt8) (t : UInt8) :
    signLast neg (ts ++ [t]) = ts ++ signLast neg [t] := by
  induction ts with
  | nil => rfl
  | cons a ts ih =>
    cases ts with
    | nil => rfl
    | cons b ts => simpa [signLast] using ih

theorem length_signLast_le (neg : Bool) (l : List UInt8) :
    (signLast neg l).length ≤ l.length + 1 := by
  induction l with
  | nil => simp [signLast]
  | cons a ts ih =>
    cases ts with
    | nil => unfold signLast; split <;> simp
    | cons b ts => simpa [signLast] using ih

/-! ## The sign bit of a byte -/

theorem toNat_and_7f (t : UInt8) : (t &&& 0x7f).toNat = t.toNat % 128 := by
  rw [UInt8.toNat_and]
  exact Nat.and_two_pow_sub_one_eq_mod t.toNat 7

theorem and_80_eq_zero_iff (t : UInt8) : t &&& 0x80 = 0 ↔ t.toNat < 128 := by
  have ht := t.toNat_lt
  rw [← UInt8.toNat_inj, UInt8.toNat_and, show (0x80 : UInt8).toNat = 2 ^ 7 from rfl,
    Nat.and_two_pow, Nat.testBit_eq_decide_div_mod_eq]
  by_cases hc : t.toNat < 128
  · simp [hc]
    omega
  · simp [hc]
    omega

theorem toNat_or_80 {t : UInt8} (h : t.toNat < 128) : (t ||| 0x80).toNat = t.toNat + 128 := by
  rw [UInt8.toNat_or]
  exact Nat.or_two_pow_eq_add_of_lt (n := 7) h

theorem eq_zero_or_eq_80 {t : UInt8} (h : t &&& 0x7f = 0) : t = 0 ∨ t = 0x80 := by
  have hm := congrArg UInt8.toNat h
  rw [toNat_and_7f, UInt8.toNat_zero] at hm
  have ht := t.toNat_lt
  rcases Nat.lt_or_ge t.toNat 128 with hlt | hge
  · exact .inl (UInt8.toNat_inj.mp (by simp; omega))
  · exact .inr (UInt8.toNat_inj.mp (show t.toNat = 128 by omega))

/-! ## Minimal sign-magnitude strings -/

/-- No byte of a sign-magnitude string can be dropped: a last byte without magnitude bits is
only there because the byte before it has its top bit set. -/
def MinimalSM (s : List UInt8) : Prop :=
  ∀ t ∈ s.getLast?, t &&& 0x7f = 0 → ∃ u ∈ s.dropLast.getLast?, u &&& 0x80 ≠ 0

theorem readLE_pos {l : List UInt8} (hl : l ≠ []) (h : ∀ t ∈ l.getLast?, t ≠ 0) :
    0 < readLE l := by
  obtain ⟨ts, t, rfl⟩ := List.eq_nil_or_concat l |>.resolve_left hl
  have ht : t ≠ 0 := h t (by simp)
  have ht' : 0 < t.toNat := by
    rcases Nat.eq_zero_or_pos t.toNat with h0 | h0
    · exact absurd (UInt8.toNat_inj.mp (by simpa using h0)) ht
    · exact h0
  rw [List.concat_eq_append, readLE_append, readLE_cons, readLE_nil, Nat.mul_zero, Nat.add_zero]
  have := Nat.mul_pos (Nat.pow_pos (n := ts.length) (by norm_num : 0 < 256)) ht'
  omega

theorem digitsLE_readLE {l : List UInt8} (h : ∀ t ∈ l.getLast?, t ≠ 0) :
    digitsLE (readLE l) = l := by
  induction l with
  | nil => simp
  | cons b bs ih =>
    have hb : b.toNat < 256 := b.toNat_lt
    by_cases hbs : bs = []
    · subst hbs
      have hb0 : b ≠ 0 := h b (by simp)
      have hpos : 0 < b.toNat := by
        rcases Nat.eq_zero_or_pos b.toNat with h0 | h0
        · exact absurd (UInt8.toNat_inj.mp (by simpa using h0)) hb0
        · exact h0
      rw [readLE_cons, readLE_nil, Nat.mul_zero, Nat.add_zero, digitsLE_of_pos hpos,
        Nat.mod_eq_of_lt hb, Nat.div_eq_of_lt hb, digitsLE_zero, UInt8.ofNat_toNat]
    · have hlast : ∀ t ∈ bs.getLast?, t ≠ 0 := by
        intro t ht
        exact h t (by rwa [List.getLast?_cons_of_ne_nil hbs])
      have hr := readLE_pos hbs hlast
      rw [readLE_cons, digitsLE_of_pos (by omega)]
      have hmod : (b.toNat + 256 * readLE bs) % 256 = b.toNat := by omega
      have hdiv : (b.toNat + 256 * readLE bs) / 256 = readLE bs := by omega
      rw [hmod, hdiv, ih hlast, UInt8.ofNat_toNat]

theorem digitsLE_eq_append {n : Nat} (hn : n ≠ 0) :
    ∃ ts t, digitsLE n = ts ++ [t] ∧ t ≠ 0 ∧ readLE ts + 256 ^ ts.length * t.toNat = n := by
  have hne : digitsLE n ≠ [] := by rwa [Ne, digitsLE_eq_nil_iff]
  refine ⟨(digitsLE n).dropLast, (digitsLE n).getLast hne,
    (List.dropLast_append_getLast hne).symm, digitsLE_getLast_ne_zero hn hne, ?_⟩
  have hread := readLE_digitsLE n
  rw [← List.dropLast_append_getLast hne, readLE_append] at hread
  simpa using hread

theorem signMagnitudeValue_append (ts : List UInt8) (t : UInt8) :
    signMagnitudeValue (ts ++ [t]) =
      if t &&& 0x80 ≠ 0 then -((readLE ts + 256 ^ ts.length * (t.toNat % 128) : Nat) : Int)
      else ((readLE ts + 256 ^ ts.length * (t.toNat % 128) : Nat) : Int) := by
  simp only [signMagnitudeValue, List.getLast?_concat, List.dropLast_concat, readLE_append,
    readLE_cons, readLE_nil, Nat.mul_zero, Nat.add_zero, toNat_and_7f]

theorem signLast_singleton (neg : Bool) (t : UInt8) :
    signLast neg [t] = if t &&& 0x80 ≠ 0 then [t, if neg then 0x80 else 0]
      else [if neg then t ||| 0x80 else t] := rfl

theorem signMagnitudeLE_of_ne_zero {v : Int} (hv : v ≠ 0) :
    ∃ ts t, t ≠ 0 ∧ readLE ts + 256 ^ ts.length * t.toNat = v.natAbs ∧
      signMagnitudeLE v = ts ++ signLast (decide (v < 0)) [t] := by
  obtain ⟨ts, t, hd, ht, hm⟩ := digitsLE_eq_append (Int.natAbs_ne_zero.mpr hv)
  exact ⟨ts, t, ht, hm, by rw [signMagnitudeLE, hd, signLast_append_single]⟩

theorem signMagnitudeValue_signMagnitudeLE (v : Int) :
    signMagnitudeValue (signMagnitudeLE v) = v := by
  by_cases hv : v = 0
  · subst hv
    rfl
  obtain ⟨ts, t, -, hm, he⟩ := signMagnitudeLE_of_ne_zero hv
  have htlt := t.toNat_lt
  rw [he, signLast_singleton]
  by_cases h80 : t &&& 0x80 = 0
  · have ht := (and_80_eq_zero_iff t).mp h80
    rw [if_neg (not_not.mpr h80)]
    by_cases hneg : v < 0
    · have h80' : (t ||| 0x80) &&& 0x80 ≠ 0 := by
        rw [Ne, and_80_eq_zero_iff, toNat_or_80 ht]
        omega
      rw [if_pos (decide_eq_true hneg), signMagnitudeValue_append, if_pos h80', toNat_or_80 ht]
      have : (t.toNat + 128) % 128 = t.toNat := by omega
      rw [this]
      omega
    · rw [if_neg (by simpa using hneg), signMagnitudeValue_append, if_neg (not_not.mpr h80),
        Nat.mod_eq_of_lt ht]
      omega
  · rw [if_pos h80, List.append_cons]
    by_cases hneg : v < 0
    · rw [if_pos (decide_eq_true hneg), signMagnitudeValue_append, if_pos (by decide),
        show (0x80 : UInt8).toNat % 128 = 0 from rfl]
      simp only [List.length_append, List.length_singleton, readLE_append, readLE_cons,
        readLE_nil, Nat.mul_zero, Nat.add_zero]
      omega
    · rw [if_neg (by simpa using hneg), signMagnitudeValue_append, if_neg (by decide),
        show (0 : UInt8).toNat % 128 = 0 from rfl]
      simp only [List.length_append, List.length_singleton, readLE_append, readLE_cons,
        readLE_nil, Nat.mul_zero, Nat.add_zero]
      omega

theorem signMagnitudeLE_eq_signLast {v : Int} {l : List UInt8} (h : ∀ t ∈ l.getLast?, t ≠ 0)
    (hv : v.natAbs = readLE l) : signMagnitudeLE v = signLast (decide (v < 0)) l := by
  rw [signMagnitudeLE, hv, digitsLE_readLE h]

theorem minimalSM_signMagnitudeLE (v : Int) : MinimalSM (signMagnitudeLE v) := by
  by_cases hv : v = 0
  · subst hv
    intro t ht
    simp [signMagnitudeLE, signLast] at ht
  obtain ⟨ts, t, ht0, -, he⟩ := signMagnitudeLE_of_ne_zero hv
  have hpos : t.toNat ≠ 0 := fun h => ht0 (UInt8.toNat_inj.mp h)
  intro last hlast h7f
  rw [he, signLast_singleton] at hlast ⊢
  by_cases h80 : t &&& 0x80 = 0
  · have ht := (and_80_eq_zero_iff t).mp h80
    rw [if_neg (not_not.mpr h80), List.getLast?_concat, Option.mem_some_iff] at hlast
    have hmask := congrArg UInt8.toNat h7f
    rw [toNat_and_7f, ← hlast] at hmask
    split at hmask
    · rw [toNat_or_80 ht] at hmask
      exact absurd hmask (by simp only [UInt8.toNat_zero]; omega)
    · exact absurd hmask (by simp only [UInt8.toNat_zero]; omega)
  · rw [if_pos h80, List.append_cons, List.dropLast_concat, List.getLast?_concat]
    exact ⟨t, rfl, h80⟩

theorem signMagnitudeLE_signMagnitudeValue {s : List UInt8} (h : MinimalSM s) :
    signMagnitudeLE (signMagnitudeValue s) = s := by
  rcases List.eq_nil_or_concat s with rfl | ⟨ts, t, rfl⟩
  · rfl
  rw [List.concat_eq_append] at h ⊢
  have htlt := t.toNat_lt
  rw [signMagnitudeValue_append]
  by_cases h7f : t.toNat % 128 = 0
  · have h7f' : t &&& 0x7f = 0 := UInt8.toNat_inj.mp (by rw [toNat_and_7f]; exact h7f)
    obtain ⟨u, hu, hu80⟩ := h t (by simp) h7f'
    rw [List.dropLast_concat, Option.mem_def, List.getLast?_eq_some_iff] at hu
    obtain ⟨us, rfl⟩ := hu
    have hu128 : 128 ≤ u.toNat := by
      have := (and_80_eq_zero_iff u).not.mp hu80
      omega
    have hlast : ∀ x ∈ (us ++ [u]).getLast?, x ≠ 0 := by
      intro x hx
      rw [List.getLast?_concat, Option.mem_some_iff] at hx
      subst hx
      intro h0
      rw [h0] at hu128
      exact absurd hu128 (by decide)
    have hr := readLE_pos (by simp) hlast
    rw [h7f, Nat.mul_zero, Nat.add_zero]
    by_cases h80 : t &&& 0x80 = 0
    · have ht0 : t = 0 := UInt8.toNat_inj.mp (by have := (and_80_eq_zero_iff t).mp h80; simp; omega)
      rw [if_neg (not_not.mpr h80), signMagnitudeLE_eq_signLast hlast (by simp),
        signLast_append_single, signLast_singleton, if_pos hu80, ht0]
      simp
    · have ht80 : t = 0x80 := UInt8.toNat_inj.mp (by
        have := (and_80_eq_zero_iff t).not.mp h80
        show t.toNat = 128
        omega)
      rw [if_pos h80, signMagnitudeLE_eq_signLast hlast (by simp),
        signLast_append_single, signLast_singleton, if_pos hu80, ht80]
      simp only [Left.neg_neg_iff, Nat.cast_pos, hr, decide_true, if_true, List.append_assoc,
        List.cons_append, List.nil_append]
  · have hd : (t &&& 0x7f) ≠ 0 := fun h0 => h7f (by rw [← toNat_and_7f, h0]; rfl)
    have hlast : ∀ x ∈ (ts ++ [t &&& 0x7f]).getLast?, x ≠ 0 := by
      intro x hx
      rw [List.getLast?_concat, Option.mem_some_iff] at hx
      exact hx ▸ hd
    have hr := readLE_pos (by simp) hlast
    have hval : readLE (ts ++ [t &&& 0x7f]) = readLE ts + 256 ^ ts.length * (t.toNat % 128) := by
      simp only [readLE_append, readLE_cons, readLE_nil, Nat.mul_zero, Nat.add_zero, toNat_and_7f]
    have h80' : (t &&& 0x7f) &&& 0x80 = 0 := by
      rw [and_80_eq_zero_iff, toNat_and_7f]
      omega
    rw [hval] at hr
    by_cases h80 : t &&& 0x80 = 0
    · have ht := (and_80_eq_zero_iff t).mp h80
      have hnn : ¬ ((readLE ts + 256 ^ ts.length * (t.toNat % 128) : Nat) : Int) < 0 := by omega
      rw [if_neg (not_not.mpr h80), signMagnitudeLE_eq_signLast hlast (by rw [hval]; omega),
        signLast_append_single, signLast_singleton, if_neg (not_not.mpr h80'),
        decide_eq_false hnn]
      have hkeep : t &&& 0x7f = t := UInt8.toNat_inj.mp (by rw [toNat_and_7f]; omega)
      simp only [Bool.false_eq_true, if_false, hkeep]
    · have ht := (and_80_eq_zero_iff t).not.mp h80
      have hneg : -((readLE ts + 256 ^ ts.length * (t.toNat % 128) : Nat) : Int) < 0 := by omega
      rw [if_pos h80, signMagnitudeLE_eq_signLast hlast (by rw [hval]; omega),
        signLast_append_single, signLast_singleton, if_neg (not_not.mpr h80'),
        decide_eq_true hneg]
      have hback : (t &&& 0x7f) ||| 0x80 = t := UInt8.toNat_inj.mp (by
        rw [toNat_or_80 (by rw [toNat_and_7f]; omega), toNat_and_7f]
        omega)
      simp only [if_true, hback]

theorem length_signMagnitudeLE_le {v : Int} {k : Nat} (h : v.natAbs < 128 * 256 ^ k) :
    (signMagnitudeLE v).length ≤ k + 1 := by
  by_cases hv : v = 0
  · subst hv
    simp [signMagnitudeLE, signLast]
  obtain ⟨ts, t, ht0, hm, he⟩ := signMagnitudeLE_of_ne_zero hv
  have hpos : 1 ≤ t.toNat := by
    rcases Nat.eq_zero_or_pos t.toNat with h0 | h0
    · exact absurd (UInt8.toNat_inj.mp (by simpa using h0)) ht0
    · exact h0
  have hlow : 256 ^ ts.length * 1 ≤ 256 ^ ts.length * t.toNat := Nat.mul_le_mul_left _ hpos
  rw [he, signLast_singleton, List.length_append]
  split
  · next h80 =>
    have ht := (and_80_eq_zero_iff t).not.mp h80
    have hmid : 256 ^ ts.length * 128 ≤ 256 ^ ts.length * t.toNat :=
      Nat.mul_le_mul_left _ (by omega)
    have hlt : 256 ^ ts.length < 256 ^ k := by omega
    have := (Nat.pow_lt_pow_iff_right (by norm_num)).mp hlt
    simp only [List.length_cons, List.length_nil]
    omega
  · have hlt : 256 ^ ts.length < 256 ^ (k + 1) := by
      rw [Nat.pow_succ]
      omega
    have := (Nat.pow_lt_pow_iff_right (by norm_num)).mp hlt
    simp only [List.length_singleton]
    omega

/-! ## Zero padding and the sign byte -/

theorem readLE_append_replicate_zero (l : List UInt8) (k : Nat) :
    readLE (l ++ List.replicate k 0) = readLE l := by
  induction k with
  | zero => simp
  | succ k ih =>
    rw [List.replicate_succ', ← List.append_assoc, readLE_append, ih]
    simp

theorem toNat_and_80_mod (t : UInt8) : (t &&& 0x80).toNat % 128 = 0 := by
  rw [← toNat_and_7f, UInt8.and_assoc, show (0x80 &&& 0x7f : UInt8) = 0 from rfl, UInt8.and_zero]
  rfl

theorem and_80_and_80 (t : UInt8) : t &&& 0x80 &&& 0x80 = t &&& 0x80 := by
  rw [UInt8.and_assoc]
  rfl

theorem signMagnitudeValue_moveSign (ts : List UInt8) (t : UInt8) (k : Nat) :
    signMagnitudeValue (ts ++ [t &&& 0x7f] ++ List.replicate k 0 ++ [t &&& 0x80]) =
      signMagnitudeValue (ts ++ [t]) := by
  rw [signMagnitudeValue_append, signMagnitudeValue_append, toNat_and_80_mod, and_80_and_80,
    readLE_append_replicate_zero, readLE_append, readLE_cons, readLE_nil, toNat_and_7f]
  simp

theorem signMagnitudeValue_replicate_zero (k : Nat) :
    signMagnitudeValue (List.replicate k 0) = 0 := by
  cases k with
  | zero => rfl
  | succ k =>
    rw [List.replicate_succ', signMagnitudeValue_append]
    have h := readLE_append_replicate_zero [] k
    simp at h
    simp [h]

/-! ## The MPI format -/

def be32 (n : Nat) : List UInt8 :=
  [UInt8.ofNat (n / 2 ^ 24), UInt8.ofNat (n / 2 ^ 16), UInt8.ofNat (n / 2 ^ 8), UInt8.ofNat n]

/-- The MPI body of an integer: the big-endian magnitude, a zero byte in front when its top bit
is set, and the sign in the top bit of the first byte. -/
def mpiBody (v : Int) : List UInt8 :=
  let mag := (digitsLE v.natAbs).reverse
  let body := match mag with
    | [] => []
    | b :: _ => if b &&& 0x80 ≠ 0 then 0 :: mag else mag
  if v < 0 then
    match body with
    | [] => []
    | b :: bs => (b ||| 0x80) :: bs
  else body

/-- The MPI encoding: the length of the body, then the body. -/
def mpiEncode (v : Int) : List UInt8 := be32 (mpiBody v).length ++ mpiBody v

/-- The integer an MPI body encodes: the top bit of the first byte is the sign, the rest the
big-endian magnitude. -/
def mpiValue : List UInt8 → Int
  | [] => 0
  | b :: bs =>
    let m : Int := readBE ((b &&& 0x7f) :: bs)
    if b &&& 0x80 ≠ 0 then -m else m

theorem reverse_mpiBody (v : Int) : (mpiBody v).reverse = signMagnitudeLE v := by
  unfold mpiBody signMagnitudeLE
  rcases List.eq_nil_or_concat (digitsLE v.natAbs) with hd | ⟨ts, t, hd⟩
  · rw [hd]
    split <;> rfl
  · rw [hd, List.concat_eq_append, signLast_append_single]
    simp only [List.reverse_append, List.reverse_cons, List.reverse_nil, List.nil_append,
      List.singleton_append]
    by_cases ht : t &&& 0x80 ≠ 0 <;> by_cases hv : v < 0 <;>
      simp [ht, hv, signLast, List.reverse_cons]

theorem mpiValue_reverse (s : List UInt8) : mpiValue s.reverse = signMagnitudeValue s := by
  rcases List.eq_nil_or_concat s with rfl | ⟨ts, t, rfl⟩
  · rfl
  · simp [mpiValue, signMagnitudeValue, readBE, readLE_append, Nat.add_comm]

end TbcNode.Encoding
