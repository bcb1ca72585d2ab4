import Mathlib
import TbcNode.Logic.Decimal

/-! # Fixed-point numbers (`ParseFixedPoint`)

`ParseFixedPoint(val, decimals)` reads a JSON number into `val * 10 ^ decimals` when that is a
whole number within `UPPER_BOUND`, keeping trailing zeros apart and checking each multiplication by
ten first. The phases of the parse are separate functions, each returning the rest.
-/

namespace TbcNode.Util

open TbcNode.Logic

/-! ### `ParseFixedPoint` -/

/-- `UPPER_BOUND`: `10 ^ 18 - 1`, the largest arbitrary decimal that fits an `int64_t`. -/
def UPPER_BOUND : Int := 1000000000000000000 - 1

theorem UPPER_BOUND_eq : UPPER_BOUND = 999999999999999999 := rfl

/-- Multiplying by ten `k` times, refusing before each step a value that `overflow` flags: the
loop of `ProcessMantissaDigit` and the scaling loop of `ParseFixedPoint`. -/
def timesTen (overflow : Int → Bool) (mantissa : Int) : Nat → Option Int
  | 0 => some mantissa
  | k + 1 => if overflow mantissa then none else timesTen overflow (mantissa * 10) k

/-- `ProcessMantissaDigit`: a `'0'` is counted in `mantissa_tzeros`; another digit first multiplies
in the zeros counted and its own place. -/
def processMantissaDigit (ch : Char) (mantissa : Int) (mantissa_tzeros : Nat) :
    Option (Int × Nat) :=
  if ch = '0' then some (mantissa, mantissa_tzeros + 1)
  else
    match timesTen (fun mantissa => mantissa > UPPER_BOUND / 10) mantissa (mantissa_tzeros + 1) with
    | some mantissa => some (mantissa + (ch.toNat - '0'.toNat : Nat), 0)
    | none => none

/-- The `while` loop over the digits of the mantissa, before or after the `'.'`: the mantissa, its
trailing zeros, the digits read and the rest of the string, or `none` on an overflow. -/
def mantissaDigits : List Char → Int → Nat → Nat → Option (Int × Nat × Nat × List Char)
  | c :: cs, mantissa, mantissa_tzeros, n =>
    if c.isDigit then
      match processMantissaDigit c mantissa mantissa_tzeros with
      | some (mantissa, mantissa_tzeros) => mantissaDigits cs mantissa mantissa_tzeros (n + 1)
      | none => none
    else some (mantissa, mantissa_tzeros, n, c :: cs)
  | [], mantissa, mantissa_tzeros, n => some (mantissa, mantissa_tzeros, n, [])

/-- The `while` loop over the digits of the exponent. -/
def exponentDigits : List Char → Int → Option (Int × List Char)
  | c :: cs, exponent =>
    if c.isDigit then
      if exponent > UPPER_BOUND / 10 then none
      else exponentDigits cs (exponent * 10 + (c.toNat - '0'.toNat : Nat))
    else some (exponent, c :: cs)
  | [], exponent => some (exponent, [])

/-- The sign of the mantissa: a leading `'-'`. -/
def mantissaSign : List Char → Bool × List Char
  | '-' :: s => (true, s)
  | s => (false, s)

/-- The integer part: a single `'0'`, or digits from one of `'1'` to `'9'` on; `none` on an empty
string, a loose `'-'`, a missing digit or an overflow. -/
def integerPart : List Char → Option (Int × Nat × List Char)
  | '0' :: s => some (0, 0, s)
  | c :: s =>
    if '1' ≤ c ∧ c ≤ '9' then
      match mantissaDigits (c :: s) 0 0 0 with
      | some (mantissa, mantissa_tzeros, _, s) => some (mantissa, mantissa_tzeros, s)
      | none => none
    else none
  | [] => none

/-- The fraction: after a `'.'`, at least one digit, each counted in `point_ofs`. -/
def fractionPart (mantissa : Int) (mantissa_tzeros : Nat) :
    List Char → Option (Int × Nat × Nat × List Char)
  | '.' :: c :: s => if c.isDigit then mantissaDigits (c :: s) mantissa mantissa_tzeros 0 else none
  | ['.'] => none
  | s => some (mantissa, mantissa_tzeros, 0, s)

/-- The sign of the exponent: a `'+'` or a `'-'`. -/
def exponentSign : List Char → Bool × List Char
  | '+' :: s => (false, s)
  | '-' :: s => (true, s)
  | s => (false, s)

/-- The exponent: after an `'e'` or an `'E'` and its sign, at least one digit. -/
def exponentPart : List Char → Option (Bool × Int × List Char)
  | c :: s =>
    if c = 'e' ∨ c = 'E' then
      match exponentSign s with
      | (exponent_sign, d :: s) =>
        if d.isDigit then
          match exponentDigits (d :: s) 0 with
          | some (exponent, s) => some (exponent_sign, exponent, s)
          | none => none
        else none
      | (_, []) => none
    else some (false, 0, c :: s)
  | [] => some (false, 0, [])

/-- `ParseFixedPoint` on the characters before `end`: the value of `val` times `10 ^ decimals`, if
it is a whole number within `UPPER_BOUND`. -/
def parseFixedPointChars (val : List Char) (decimals : Int) : Option Int := do
  let (mantissa_sign, s) := mantissaSign val
  let (mantissa, mantissa_tzeros, s) ← integerPart s
  let (mantissa, mantissa_tzeros, point_ofs, s) ← fractionPart mantissa mantissa_tzeros s
  let (exponent_sign, exponent, s) ← exponentPart s
  if s ≠ [] then none
  else
    let exponent := if exponent_sign then -exponent else exponent
    let exponent := exponent - point_ofs + mantissa_tzeros
    let mantissa := if mantissa_sign then -mantissa else mantissa
    let exponent := exponent + decimals
    if exponent < 0 then none
    else if exponent ≥ 18 then none
    else
      let mantissa ← timesTen
        (fun mantissa => mantissa > UPPER_BOUND / 10 || mantissa < -(UPPER_BOUND / 10))
        mantissa exponent.toNat
      if mantissa > UPPER_BOUND || mantissa < -UPPER_BOUND then none else some mantissa

/-- A length as the 32-bit `int` it is converted to: reduced modulo `2 ^ 32` into
`[-2 ^ 31, 2 ^ 31)`. -/
def toInt32 (n : Nat) : Int :=
  if n % 2 ^ 32 < 2 ^ 31 then (n % 2 ^ 32 : Nat) else ((n % 2 ^ 32 : Nat) : Int) - 2 ^ 32

/-- `ParseFixedPoint`. Its indices are `int`s and `int end = val.size()` keeps the length modulo
`2 ^ 32`: a negative `end` stops the parse at once, and otherwise the characters before `end` are
parsed. -/
def parseFixedPoint (val : List Char) (decimals : Int) : Option Int :=
  let end_ := toInt32 val.length
  if end_ < 0 then none else parseFixedPointChars (val.take end_.toNat) decimals

example : parseFixedPoint "-1.5e-3".toList 6 = some (-1500) := by decide
example : parseFixedPoint "0.0000001".toList 6 = none := by decide
example : parseFixedPoint "1.".toList 6 = none := by decide

/-! ### The length -/

theorem toInt32_of_lt {n : Nat} (h : n < 2 ^ 31) : toInt32 n = n := by
  have hmod : n % 2 ^ 32 = n := Nat.mod_eq_of_lt (by omega)
  rw [toInt32, hmod, if_pos h]

theorem parseFixedPoint_of_length_lt {val : List Char} (h : val.length < 2 ^ 31) (decimals : Int) :
    parseFixedPoint val decimals = parseFixedPointChars val decimals := by
  rw [parseFixedPoint, toInt32_of_lt h, if_neg (by omega), Int.toNat_natCast,
    List.take_of_length_le (Nat.le_refl _)]

/-! ### Multiplying by ten -/

section TimesTen

variable {overflow : Int → Bool}

theorem timesTen_of_le (hov : ∀ x, 0 ≤ x → x ≤ UPPER_BOUND / 10 → overflow x = false)
    {m : Int} (hm : 0 ≤ m) {k : Nat} (hk : m * 10 ^ k ≤ UPPER_BOUND) :
    timesTen overflow m k = some (m * 10 ^ k) := by
  induction k generalizing m with
  | zero => simp [timesTen]
  | succ k ih =>
    have hstep : m * 10 * 10 ^ k = m * 10 ^ (k + 1) := by ring
    have hpow : (1 : Int) ≤ 10 ^ k := one_le_pow₀ (by norm_num)
    have hm10 : m * 10 ≤ UPPER_BOUND :=
      le_trans (le_mul_of_one_le_right (by omega) hpow) (hstep ▸ hk)
    rw [timesTen, hov m hm (Int.le_ediv_of_mul_le (by norm_num) hm10), if_neg Bool.false_ne_true,
      ih (by omega) (hstep ▸ hk), hstep]

theorem timesTen_neg (hsymm : ∀ x, overflow (-x) = overflow x) (m : Int) (k : Nat) :
    timesTen overflow (-m) k = (timesTen overflow m k).map (- ·) := by
  induction k generalizing m with
  | zero => rfl
  | succ k ih =>
    rw [timesTen, timesTen, hsymm, neg_mul, ih]
    split_ifs <;> rfl

end TimesTen

/-! ### Scaling and the final check -/

section Scaling

theorem scaleMantissa_of_le {M : Int} (hM : 0 ≤ M) {k : Nat} (h : M * 10 ^ k ≤ UPPER_BOUND)
    (neg : Bool) :
    timesTen (fun mantissa => decide (mantissa > UPPER_BOUND / 10) ||
        decide (mantissa < -(UPPER_BOUND / 10))) (if neg then -M else M) k =
      some ((if neg then -M else M) * 10 ^ k) := by
  have hov : ∀ x : Int, 0 ≤ x → x ≤ UPPER_BOUND / 10 →
      (decide (x > UPPER_BOUND / 10) || decide (x < -(UPPER_BOUND / 10))) = false := by
    intro x h0 h1
    rw [UPPER_BOUND_eq] at h1 ⊢
    simp only [Bool.or_eq_false_iff, decide_eq_false_iff_not]
    omega
  have hsymm : ∀ x : Int,
      (decide (-x > UPPER_BOUND / 10) || decide (-x < -(UPPER_BOUND / 10))) =
        (decide (x > UPPER_BOUND / 10) || decide (x < -(UPPER_BOUND / 10))) := by
    intro x
    rw [UPPER_BOUND_eq, Bool.eq_iff_iff]
    simp only [Bool.or_eq_true, decide_eq_true_eq]
    omega
  cases neg with
  | false =>
    rw [if_neg Bool.false_ne_true]
    exact timesTen_of_le hov hM h
  | true =>
    rw [if_pos rfl, timesTen_neg hsymm, timesTen_of_le hov hM h, Option.map_some, neg_mul]

theorem boundCheck_of_abs_le {x : Int} (h : |x| ≤ UPPER_BOUND) :
    (if (decide (x > UPPER_BOUND) || decide (x < -UPPER_BOUND)) = true then none else some x) =
      some x := by
  obtain ⟨h1, h2⟩ := abs_le.mp h
  rw [if_neg (by simp only [Bool.or_eq_true, decide_eq_true_eq]; omega)]

end Scaling

/-! ### The digits of the mantissa -/

section Mantissa

theorem processMantissaDigit_zero (m : Int) (tz : Nat) :
    processMantissaDigit '0' m tz = some (m, tz + 1) := rfl

theorem processMantissaDigit_of_ne {ch : Char} (hch : ch ≠ '0') {m : Int} (hm : 0 ≤ m) {tz : Nat}
    (hfit : m * 10 ^ (tz + 1) ≤ UPPER_BOUND) :
    processMantissaDigit ch m tz = some (m * 10 ^ (tz + 1) + (ch.toNat - '0'.toNat : Nat), 0) := by
  rw [processMantissaDigit, if_neg hch,
    timesTen_of_le (fun x _ hx => decide_eq_false (not_lt.mpr hx)) hm hfit]

theorem mantissaDigits_stop {rest : List Char} (hrest : ∀ c ∈ rest.head?, c.isDigit = false)
    (m : Int) (tz n : Nat) : mantissaDigits rest m tz n = some (m, tz, n, rest) := by
  cases rest with
  | nil => rfl
  | cons c cs => simp [mantissaDigits, hrest c rfl]

theorem mantissaDigits_digits (ds rest : List Char)
    (hds : ∀ c ∈ ds, c.isDigit = true) (hrest : ∀ c ∈ rest.head?, c.isDigit = false)
    {m : Int} (hm : 0 ≤ m) (tz n : Nat)
    (hfit : m * 10 ^ (tz + ds.length) + Nat.ofDigitChars 10 ds 0 ≤ UPPER_BOUND) :
    ∃ m' tz', mantissaDigits (ds ++ rest) m tz n = some (m', tz', n + ds.length, rest) ∧
      0 ≤ m' ∧ m' * 10 ^ tz' = m * 10 ^ (tz + ds.length) + Nat.ofDigitChars 10 ds 0 ∧
      tz' ≤ tz + ds.length := by
  induction ds generalizing m tz n with
  | nil =>
    exact ⟨m, tz, mantissaDigits_stop hrest m tz n, hm, by simp [Nat.ofDigitChars_nil],
      Nat.le_refl _⟩
  | cons d ds ih =>
    have hd := hds d List.mem_cons_self
    have hds' : ∀ c ∈ ds, c.isDigit = true := fun c hc => hds c (List.mem_cons_of_mem d hc)
    have hval := ofDigitChars_ten_cons d ds
    rw [List.length_cons] at hfit ⊢
    have hn : n + 1 + ds.length = n + (ds.length + 1) := by omega
    rw [List.cons_append, mantissaDigits, if_pos hd]
    by_cases hd0 : d = '0'
    · subst hd0
      rw [Nat.sub_self, Nat.zero_mul, Nat.zero_add] at hval
      rw [processMantissaDigit_zero]
      dsimp only
      obtain ⟨m', tz', hrun, hm', hval', htz⟩ :=
        ih hds' hm (tz + 1) (n + 1) (by rw [← hval, Nat.add_assoc, Nat.add_comm 1]; exact hfit)
      refine ⟨m', tz', by rw [hrun, hn], hm', ?_, by omega⟩
      rw [hval', hval, Nat.add_assoc, Nat.add_comm 1]
    · have hpow : (1 : Int) ≤ 10 ^ ds.length := one_le_pow₀ (by norm_num)
      have hshift : m * 10 ^ (tz + (ds.length + 1)) = m * 10 ^ (tz + 1) * 10 ^ ds.length := by
        ring
      have hle : m * 10 ^ (tz + 1) ≤ UPPER_BOUND := by
        have h0 : (0 : Int) ≤ m * 10 ^ (tz + 1) := mul_nonneg hm (by positivity)
        have h1 := le_mul_of_one_le_right h0 hpow
        have h2 : (0 : Int) ≤ Nat.ofDigitChars 10 (d :: ds) 0 := Int.natCast_nonneg _
        omega
      rw [processMantissaDigit_of_ne hd0 hm hle]
      dsimp only
      have hsum : (m * 10 ^ (tz + 1) + ((d.toNat - '0'.toNat : Nat) : Int)) * 10 ^ (0 + ds.length)
          + Nat.ofDigitChars 10 ds 0 =
          m * 10 ^ (tz + (ds.length + 1)) + Nat.ofDigitChars 10 (d :: ds) 0 := by
        rw [hval]
        push_cast
        ring
      obtain ⟨m', tz', hrun, hm', hval', htz⟩ :=
        ih hds' (by positivity) 0 (n + 1) (hsum ▸ hfit)
      exact ⟨m', tz', by rw [hrun, hn], hm', hval'.trans hsum, by omega⟩

end Mantissa

/-! ### The phases of `ParseFixedPoint` -/

section Phases

theorem mantissaSign_of_ne {c : Char} (hc : c ≠ '-') (s : List Char) :
    mantissaSign (c :: s) = (false, c :: s) := by
  simp [mantissaSign, hc]

theorem integerPart_toDigits {q : Nat} (hq : (q : Int) ≤ UPPER_BOUND) (rest : List Char)
    (hrest : ∀ c ∈ rest.head?, c.isDigit = false) :
    ∃ m tz, integerPart (Nat.toDigits 10 q ++ rest) = some (m, tz, rest) ∧ 0 ≤ m ∧
      m * 10 ^ tz = q ∧ tz ≤ (Nat.toDigits 10 q).length := by
  rcases Nat.eq_zero_or_pos q with rfl | hq0
  · exact ⟨0, 0, rfl, le_refl _, by simp, Nat.zero_le _⟩
  · obtain ⟨c, cs, hcs, hc1, hc9⟩ := toDigits_head hq0
    have hc0 : c ≠ '0' := by
      rintro rfl
      exact absurd hc1 (by decide)
    obtain ⟨m, tz, hrun, hm, hval, htz⟩ := mantissaDigits_digits (Nat.toDigits 10 q) rest
      (fun d hd => isDigit_of_mem_toDigits_ten hd) hrest (le_refl 0) 0 0
      (by rw [Nat.ofDigitChars_ten_toDigits]; simpa using hq)
    refine ⟨m, tz, ?_, hm, by rw [hval, Nat.ofDigitChars_ten_toDigits]; simp, by omega⟩
    rw [hcs, List.cons_append] at hrun ⊢
    unfold integerPart
    split
    · rename_i heq
      exact absurd (List.cons.inj heq).1 hc0
    · rename_i heq
      obtain ⟨rfl, rfl⟩ := List.cons.inj heq
      rw [if_pos ⟨hc1, hc9⟩, hrun]
    · rename_i heq
      exact absurd heq (List.cons_ne_nil _ _)

theorem fractionPart_point {c : Char} (hc : c.isDigit = true) (m : Int) (tz : Nat)
    (s : List Char) : fractionPart m tz ('.' :: c :: s) = mantissaDigits (c :: s) m tz 0 := by
  simp [fractionPart, hc]

/-- A decimal of a sign, the digits of `q` and a fraction `F`, read with as many decimals as `F`
has, is `q` and `F` as one number, with that sign. -/
theorem parseFixedPointChars_decimal (neg : Bool) (q : Nat) {F : List Char}
    (hF : ∀ c ∈ F, c.isDigit = true) (hFne : F ≠ [])
    (hfit : ((q * 10 ^ F.length + Nat.ofDigitChars 10 F 0 : Nat) : Int) ≤ UPPER_BOUND)
    (hlen : (Nat.toDigits 10 q).length + F.length < 18) :
    parseFixedPointChars ((if neg then ['-'] else []) ++ Nat.toDigits 10 q ++ '.' :: F) F.length =
      some (if neg then -((q * 10 ^ F.length + Nat.ofDigitChars 10 F 0 : Nat) : Int)
        else ((q * 10 ^ F.length + Nat.ofDigitChars 10 F 0 : Nat) : Int)) := by
  have hsign : mantissaSign ((if neg then ['-'] else []) ++ Nat.toDigits 10 q ++ '.' :: F) =
      (neg, Nat.toDigits 10 q ++ '.' :: F) := by
    cases neg with
    | true => rfl
    | false =>
      obtain ⟨c, cs, hcs⟩ := List.exists_cons_of_ne_nil (Nat.toDigits_ne_nil (n := q) (b := 10))
      have hc : c ≠ '-' := by
        have hd := isDigit_of_mem_toDigits_ten (hcs ▸ List.mem_cons_self : c ∈ Nat.toDigits 10 q)
        rintro rfl
        exact absurd hd (by decide)
      rw [if_neg Bool.false_ne_true, List.nil_append, hcs, List.cons_append, mantissaSign_of_ne hc]
  have hq : (q : Int) ≤ UPPER_BOUND := by
    have : q ≤ q * 10 ^ F.length + Nat.ofDigitChars 10 F 0 :=
      le_add_right (Nat.le_mul_of_pos_right q (Nat.pow_pos (by decide)))
    omega
  obtain ⟨m, tz, hint, hm, hmq, htz⟩ :=
    integerPart_toDigits hq ('.' :: F) (fun c hc => by cases hc; rfl)
  obtain ⟨f, F', rfl⟩ := List.exists_cons_of_ne_nil hFne
  have hfrac := fractionPart_point (hF f List.mem_cons_self) m tz F'
  have hshift : m * 10 ^ (tz + (f :: F').length) = (q : Int) * 10 ^ (f :: F').length := by
    rw [pow_add, ← mul_assoc, hmq]
  obtain ⟨m', tz', hrun, hm', hval, htz'⟩ := mantissaDigits_digits (f :: F') [] hF
    (fun c hc => nomatch hc) hm tz 0 (by rw [hshift]; exact_mod_cast hfit)
  rw [List.append_nil] at hrun
  rw [hshift] at hval
  have hexp : ((if false = true then -0 else 0 : Int) - ((0 + (f :: F').length : Nat) : Int) + tz'
      + ((f :: F').length : Int)) = tz' := by
    rw [if_neg Bool.false_ne_true, Nat.zero_add]
    omega
  simp only [parseFixedPointChars, hsign, hint, Option.bind_eq_bind, Option.bind_some, hfrac, hrun,
    exponentPart]
  rw [if_neg (not_not.mpr rfl), hexp, if_neg (by omega), if_neg (by omega), Int.toNat_natCast]
  obtain ⟨v, hv⟩ : ∃ v : Nat, q * 10 ^ (f :: F').length + Nat.ofDigitChars 10 (f :: F') 0 = v :=
    ⟨_, rfl⟩
  have hval' : m' * 10 ^ tz' = v := by
    rw [hval, ← hv]
    push_cast
    ring
  rw [hv] at hfit ⊢
  have hres : (if neg then -m' else m') * 10 ^ tz' = if neg then -(v : Int) else v := by
    cases neg <;> simp [hval', neg_mul]
  rw [scaleMantissa_of_le hm' (by rw [hval']; exact hfit) neg, Option.bind_some, hres,
    boundCheck_of_abs_le]
  cases neg <;> simpa using hfit

end Phases

/-! ### What a successful parse has read -/

section Sound

end Sound

/-! ### The digit loops when they do not overflow -/

section Complete

/-- The mantissa and its trailing zeros that the digit loop of `ParseFixedPoint` computes, without
its overflow checks. -/
def digitsMantissa : List Char → Int → Nat → Int × Nat
  | c :: cs, m, tz =>
    if c = '0' then digitsMantissa cs m (tz + 1)
    else digitsMantissa cs (m * 10 ^ (tz + 1) + (c.toNat - '0'.toNat : Nat)) 0
  | [], m, tz => (m, tz)

theorem digitsMantissa_append (l₁ l₂ : List Char) (m : Int) (tz : Nat) :
    digitsMantissa (l₁ ++ l₂) m tz =
      digitsMantissa l₂ (digitsMantissa l₁ m tz).1 (digitsMantissa l₁ m tz).2 := by
  induction l₁ generalizing m tz with
  | nil => rfl
  | cons c cs ih =>
    rw [List.cons_append, digitsMantissa, digitsMantissa]
    split_ifs <;> exact ih _ _

theorem digitsMantissa_value (ds : List Char) (m : Int) (tz : Nat) :
    (digitsMantissa ds m tz).1 * 10 ^ (digitsMantissa ds m tz).2 =
      m * 10 ^ (tz + ds.length) + Nat.ofDigitChars 10 ds 0 := by
  induction ds generalizing m tz with
  | nil => simp [digitsMantissa, Nat.ofDigitChars_nil]
  | cons c cs ih =>
    rw [digitsMantissa, ofDigitChars_ten_cons, List.length_cons]
    split_ifs with hc
    · subst hc
      rw [ih, Nat.sub_self, Nat.zero_mul, Nat.zero_add]
      ring_nf
    · rw [ih]
      push_cast
      ring

theorem le_digitsMantissa (ds : List Char) {m : Int} (hm : 0 ≤ m) (tz : Nat) :
    m ≤ (digitsMantissa ds m tz).1 := by
  induction ds generalizing m tz with
  | nil => exact le_refl _
  | cons c cs ih =>
    rw [digitsMantissa]
    split_ifs
    · exact ih hm _
    · have h1 : m ≤ m * 10 ^ (tz + 1) := le_mul_of_one_le_right hm (one_le_pow₀ (by norm_num))
      have h2 : (0 : Int) ≤ ((c.toNat - '0'.toNat : Nat) : Int) := Int.natCast_nonneg _
      exact le_trans (by omega) (ih (by omega) 0)

theorem digitsMantissa_tz_le (ds : List Char) (m : Int) (tz : Nat) :
    (digitsMantissa ds m tz).2 ≤ tz + ds.length := by
  induction ds generalizing m tz with
  | nil => exact Nat.le_refl _
  | cons c cs ih =>
    rw [digitsMantissa, List.length_cons]
    split_ifs
    · have := ih m (tz + 1)
      omega
    · have := ih (m * 10 ^ (tz + 1) + (c.toNat - '0'.toNat : Nat)) 0
      omega

theorem digitsMantissa_cases (ds : List Char) (hds : ∀ c ∈ ds, c.isDigit = true) (m : Int)
    (tz : Nat) : (digitsMantissa ds m tz).1 = m ∨ (digitsMantissa ds m tz).1 % 10 ≠ 0 := by
  induction ds generalizing m tz with
  | nil => exact Or.inl rfl
  | cons c cs ih =>
    have hds' : ∀ d ∈ cs, d.isDigit = true := fun d hd => hds d (List.mem_cons_of_mem c hd)
    rw [digitsMantissa]
    split_ifs with hc
    · exact ih hds' m (tz + 1)
    · have hlt := digit_lt_ten (hds c List.mem_cons_self)
      have hpos : c.toNat - '0'.toNat ≠ 0 := by
        have hge : '0'.toNat ≤ c.toNat := by
          have := hds c List.mem_cons_self
          simp only [Char.isDigit, Bool.and_eq_true, decide_eq_true_eq] at this
          exact UInt32.le_iff_toNat_le.mp this.1
        intro h0
        exact hc (Char.toNat_inj.mp (by omega))
      have hmod : (m * 10 ^ (tz + 1) + (c.toNat - '0'.toNat : Nat)) % 10 ≠ 0 := by
        rw [show m * 10 ^ (tz + 1) = 10 * (m * 10 ^ tz) by ring]
        omega
      rcases ih hds' (m * 10 ^ (tz + 1) + (c.toNat - '0'.toNat : Nat)) 0 with h | h
      · right
        rw [h]
        exact hmod
      · exact Or.inr h

theorem mantissaDigits_of_le (ds rest : List Char) (hds : ∀ c ∈ ds, c.isDigit = true)
    (hrest : ∀ c ∈ rest.head?, c.isDigit = false) {m : Int} (hm : 0 ≤ m) (tz n : Nat)
    (hfit : (digitsMantissa ds m tz).1 ≤ UPPER_BOUND) :
    mantissaDigits (ds ++ rest) m tz n =
      some ((digitsMantissa ds m tz).1, (digitsMantissa ds m tz).2, n + ds.length, rest) := by
  induction ds generalizing m tz n with
  | nil => rw [List.nil_append, mantissaDigits_stop hrest]; rfl
  | cons d ds ih =>
    have hd := hds d List.mem_cons_self
    have hds' : ∀ c ∈ ds, c.isDigit = true := fun c hc => hds c (List.mem_cons_of_mem d hc)
    have hn : n + 1 + ds.length = n + (ds.length + 1) := by omega
    rw [digitsMantissa] at hfit ⊢
    rw [List.cons_append, mantissaDigits, if_pos hd, List.length_cons, ← hn]
    by_cases hd0 : d = '0'
    · subst hd0
      rw [if_pos rfl] at hfit ⊢
      rw [processMantissaDigit_zero]
      exact ih hds' hm (tz + 1) (n + 1) hfit
    · rw [if_neg hd0] at hfit ⊢
      have hdv : (0 : Int) ≤ ((d.toNat - '0'.toNat : Nat) : Int) := Int.natCast_nonneg _
      have hm₁ : 0 ≤ m * 10 ^ (tz + 1) := mul_nonneg hm (by positivity)
      have hle := le_digitsMantissa ds (m := m * 10 ^ (tz + 1) + (d.toNat - '0'.toNat : Nat))
        (by omega) 0
      rw [processMantissaDigit_of_ne hd0 hm (by omega)]
      exact ih hds' (by omega) 0 (n + 1) hfit

theorem exponentDigits_stop {rest : List Char} (hrest : ∀ c ∈ rest.head?, c.isDigit = false)
    (e : Int) : exponentDigits rest e = some (e, rest) := by
  cases rest with
  | nil => rfl
  | cons c cs => simp [exponentDigits, hrest c rfl]

theorem exponentDigits_of_le (ds rest : List Char) (hds : ∀ c ∈ ds, c.isDigit = true)
    (hrest : ∀ c ∈ rest.head?, c.isDigit = false) {e : Int} (he : 0 ≤ e)
    (hfit : e * 10 ^ ds.length + Nat.ofDigitChars 10 ds 0 ≤ UPPER_BOUND) :
    exponentDigits (ds ++ rest) e = some (e * 10 ^ ds.length + Nat.ofDigitChars 10 ds 0, rest) := by
  induction ds generalizing e with
  | nil => simpa [Nat.ofDigitChars_nil] using exponentDigits_stop hrest e
  | cons d ds ih =>
    have hd := hds d List.mem_cons_self
    have hds' : ∀ c ∈ ds, c.isDigit = true := fun c hc => hds c (List.mem_cons_of_mem d hc)
    have hdv : (0 : Int) ≤ ((d.toNat - '0'.toNat : Nat) : Int) := Int.natCast_nonneg _
    have hval : e * 10 ^ (ds.length + 1) + ((Nat.ofDigitChars 10 (d :: ds) 0 : Nat) : Int) =
        (e * 10 + (d.toNat - '0'.toNat : Nat)) * 10 ^ ds.length + Nat.ofDigitChars 10 ds 0 := by
      rw [ofDigitChars_ten_cons]
      push_cast
      ring
    rw [List.length_cons, hval] at hfit ⊢
    have hpow : (1 : Int) ≤ 10 ^ ds.length := one_le_pow₀ (by norm_num)
    have hV : (0 : Int) ≤ Nat.ofDigitChars 10 ds 0 := Int.natCast_nonneg _
    have h10 : e * 10 ≤ UPPER_BOUND := by
      have := le_mul_of_one_le_right (by omega : 0 ≤ e * 10 + ((d.toNat - '0'.toNat : Nat) : Int)) hpow
      omega
    rw [List.cons_append, exponentDigits, if_pos hd,
      if_neg (not_lt.mpr (Int.le_ediv_of_mul_le (by norm_num) h10))]
    exact ih hds' (by omega) hfit

end Complete

end TbcNode.Util
