import Mathlib
import TbcNode.Util.FixedPoint

/-! # What `ParseFixedPoint` accepts

`JsonNumber` carries the grammar of a JSON number as fields, with its exact value. What
`ParseFixedPoint` accepts is a JSON number read exactly (`parseFixedPointChars_sound`), and it
accepts every JSON number whose scaled value is a nonzero whole number in range
(`parseFixedPointChars_complete`).
-/

namespace TbcNode.Util

open TbcNode.Logic

/-! ### JSON numbers -/

/-- The integer part: a single `0`, or a digit from `1` to `9` and digits after it. -/
def IntPartWF (ip : List Char) : Prop :=
  ip = ['0'] ∨ ∃ c cs, ip = c :: cs ∧ '1' ≤ c ∧ c ≤ '9' ∧ ∀ d ∈ cs, d.isDigit = true

def DigitsWF (ds : List Char) : Prop := ds ≠ [] ∧ ∀ d ∈ ds, d.isDigit = true

/-- The sign of an exponent: none, `'+'` or `'-'`. -/
def ExpSignWF (sg : List Char) : Prop := sg = [] ∨ sg = ['+'] ∨ sg = ['-']

/-- The syntax of a JSON number by its parts: the sign, the integer part, the digits of the
fraction if there is one, and the marker, sign and digits of the exponent if there is one. -/
structure JsonNumber where
  neg : Bool
  intPart : List Char
  fracPart : Option (List Char)
  expPart : Option (Char × List Char × List Char)
  intPart_wf : IntPartWF intPart
  fracPart_wf : ∀ f ∈ fracPart, DigitsWF f
  expPart_wf : ∀ x ∈ expPart, (x.1 = 'e' ∨ x.1 = 'E') ∧ ExpSignWF x.2.1 ∧ DigitsWF x.2.2

namespace JsonNumber

def fracText : Option (List Char) → List Char
  | some f => '.' :: f
  | none => []

def expText : Option (Char × List Char × List Char) → List Char
  | some (e, sg, ds) => e :: (sg ++ ds)
  | none => []

def expValue : Option (Char × List Char × List Char) → Int
  | some (_, sg, ds) =>
    if sg = ['-'] then -(Nat.ofDigitChars 10 ds 0 : Int) else Nat.ofDigitChars 10 ds 0
  | none => 0

def text (n : JsonNumber) : List Char :=
  (if n.neg then ['-'] else []) ++ n.intPart ++ fracText n.fracPart ++ expText n.expPart

/-- The digits of the fraction; none without a fraction. -/
def fracDigits (n : JsonNumber) : List Char := n.fracPart.getD []

/-- The exact value: the integer part and the fraction, times ten to the exponent. -/
def value (n : JsonNumber) : ℚ :=
  (if n.neg then -1 else 1) *
    ((Nat.ofDigitChars 10 n.intPart 0 : ℚ) +
      (Nat.ofDigitChars 10 n.fracDigits 0 : ℚ) / 10 ^ n.fracDigits.length) *
    (10 : ℚ) ^ expValue n.expPart

theorem value_mul_zpow (n : JsonNumber) (d : Int) :
    n.value * 10 ^ d = (if n.neg then -1 else 1) *
      ((Nat.ofDigitChars 10 (n.intPart ++ n.fracDigits) 0 : Nat) : ℚ) *
      (10 : ℚ) ^ (expValue n.expPart - n.fracDigits.length + d) := by
  have h10 : (10 : ℚ) ≠ 0 := by norm_num
  rw [value, ofDigitChars_ten_append, zpow_add₀ h10, zpow_sub₀ h10, zpow_natCast]
  push_cast
  field_simp

end JsonNumber

example : (⟨true, ['1'], some ['5'], some ('e', ['-'], ['3']), Or.inr ⟨'1', [], rfl, by decide,
    by decide, by simp⟩, by simp [DigitsWF], by simp [ExpSignWF, DigitsWF]⟩ : JsonNumber).value =
      -3 / 2000 := by
  simp [JsonNumber.value, JsonNumber.fracDigits, JsonNumber.expValue, Nat.ofDigitChars]
  norm_num

/-! ### What each phase of a successful parse has read -/

section Sound

open JsonNumber

end Sound

/-! ### Each phase reads its part of a JSON number -/

section Complete

open JsonNumber

theorem IntPartWF.exists_cons {ip : List Char} (h : IntPartWF ip) :
    ∃ c cs, ip = c :: cs ∧ c.isDigit = true := by
  rcases h with rfl | ⟨c, cs, rfl, h1, h9, -⟩
  · exact ⟨'0', [], rfl, rfl⟩
  · exact ⟨c, cs, rfl, isDigit_of_between h1 h9⟩

/-- What the integer part leaves in the mantissa and its trailing zeros: a single `0` is passed
over, other digits go through the digit loop. -/
def intMantissa (ip : List Char) : Int × Nat :=
  if ip = ['0'] then (0, 0) else digitsMantissa ip 0 0

theorem intMantissa_value {ip : List Char} (h : IntPartWF ip) :
    (intMantissa ip).1 * 10 ^ (intMantissa ip).2 = Nat.ofDigitChars 10 ip 0 := by
  unfold intMantissa
  split_ifs with h0
  · subst h0
    rfl
  · rw [digitsMantissa_value]
    simp

theorem intMantissa_nonneg (ip : List Char) : 0 ≤ (intMantissa ip).1 := by
  unfold intMantissa
  split_ifs
  · exact le_refl 0
  · exact le_digitsMantissa ip (le_refl 0) 0

theorem intMantissa_tz_le (ip : List Char) : (intMantissa ip).2 ≤ ip.length := by
  unfold intMantissa
  split_ifs
  · exact Nat.zero_le _
  · simpa using digitsMantissa_tz_le ip 0 0

theorem intMantissa_cases {ip : List Char} (h : IntPartWF ip) :
    (intMantissa ip).1 = 0 ∨ (intMantissa ip).1 % 10 ≠ 0 := by
  unfold intMantissa
  split_ifs with h0
  · exact Or.inl rfl
  · obtain ⟨c, cs, rfl, hc⟩ := h.exists_cons
    refine digitsMantissa_cases (c :: cs) (fun d hd => ?_) 0 0
    rcases h with h | ⟨c', cs', heq, -, -, hcs'⟩
    · exact absurd h h0
    · obtain ⟨rfl, rfl⟩ := List.cons.inj heq
      rcases List.mem_cons.mp hd with rfl | hd
      · exact hc
      · exact hcs' d hd

theorem mantissaSign_text (n : JsonNumber) :
    mantissaSign n.text = (n.neg, n.intPart ++ fracText n.fracPart ++ expText n.expPart) := by
  obtain ⟨c, cs, hcs, hc⟩ := n.intPart_wf.exists_cons
  have hc' : c ≠ '-' := by
    rintro rfl
    exact absurd hc (by decide)
  cases hneg : n.neg with
  | true => simp [text, hneg, mantissaSign]
  | false =>
    simp only [text, hneg, Bool.false_eq_true, if_false, List.nil_append, hcs, List.cons_append]
    exact mantissaSign_of_ne hc' _

theorem head_expText (n : JsonNumber) : ∀ c ∈ (expText n.expPart).head?, c = 'e' ∨ c = 'E' := by
  intro c hc
  cases he : n.expPart with
  | some x =>
    obtain ⟨e, sg, ds⟩ := x
    rw [he, expText, List.head?_cons, Option.mem_def, Option.some.injEq] at hc
    subst hc
    exact (n.expPart_wf _ he).1
  | none =>
    rw [he, expText] at hc
    exact nomatch hc

theorem head_fracText_expText (n : JsonNumber) :
    ∀ c ∈ (fracText n.fracPart ++ expText n.expPart).head?, c = '.' ∨ c = 'e' ∨ c = 'E' := by
  intro c hc
  cases hf : n.fracPart with
  | some f =>
    rw [hf, fracText, List.cons_append, List.head?_cons, Option.mem_def, Option.some.injEq] at hc
    exact Or.inl hc.symm
  | none =>
    rw [hf, fracText, List.nil_append] at hc
    exact Or.inr (head_expText n c hc)

theorem integerPart_of_wf {ip : List Char} (hip : IntPartWF ip) (rest : List Char)
    (hrest : ∀ c ∈ rest.head?, c.isDigit = false) (hfit : (intMantissa ip).1 ≤ UPPER_BOUND) :
    integerPart (ip ++ rest) = some ((intMantissa ip).1, (intMantissa ip).2, rest) := by
  rcases hip with rfl | ⟨c, cs, rfl, hc1, hc9, hcs⟩
  · rfl
  · have hc0 : c ≠ '0' := by
      rintro rfl
      exact absurd hc1 (by decide)
    have hne : c :: cs ≠ ['0'] := fun h => hc0 (List.cons.inj h).1
    have hdigits : ∀ d ∈ c :: cs, d.isDigit = true := by
      intro d hd
      rcases List.mem_cons.mp hd with rfl | hd
      · exact isDigit_of_between hc1 hc9
      · exact hcs d hd
    rw [intMantissa, if_neg hne] at hfit ⊢
    have hrun := mantissaDigits_of_le (c :: cs) rest hdigits hrest (le_refl 0) 0 0 hfit
    rw [List.cons_append] at hrun ⊢
    unfold integerPart
    split
    · rename_i heq
      exact absurd (List.cons.inj heq).1 hc0
    · rename_i heq
      obtain ⟨rfl, rfl⟩ := List.cons.inj heq
      rw [if_pos ⟨hc1, hc9⟩, hrun]
    · rename_i heq
      exact absurd heq (List.cons_ne_nil _ _)

theorem fractionPart_of_not_point (m : Int) (tz : Nat) {rest : List Char}
    (hrest : ∀ c ∈ rest.head?, c ≠ '.') : fractionPart m tz rest = some (m, tz, 0, rest) := by
  cases rest with
  | nil => rfl
  | cons c cs =>
    have hc : c ≠ '.' := hrest c rfl
    unfold fractionPart
    split
    · rename_i heq
      exact absurd (List.cons.inj heq).1 hc
    · rename_i heq
      exact absurd (List.cons.inj heq).1 hc
    · rfl

theorem fractionPart_of_wf {fp : Option (List Char)} (hfp : ∀ f ∈ fp, DigitsWF f)
    (rest : List Char) (hrest : ∀ c ∈ rest.head?, c.isDigit = false ∧ c ≠ '.') {m : Int}
    (hm : 0 ≤ m) (tz : Nat) (hfit : (digitsMantissa (fp.getD []) m tz).1 ≤ UPPER_BOUND) :
    fractionPart m tz (fracText fp ++ rest) =
      some ((digitsMantissa (fp.getD []) m tz).1, (digitsMantissa (fp.getD []) m tz).2,
        (fp.getD []).length, rest) := by
  cases fp with
  | none => exact fractionPart_of_not_point m tz (fun c hc => (hrest c hc).2)
  | some f =>
    obtain ⟨hne, hf⟩ := hfp f rfl
    obtain ⟨c, cs, rfl⟩ := List.exists_cons_of_ne_nil hne
    rw [fracText, List.cons_append, List.cons_append,
      fractionPart_point (hf c List.mem_cons_self), ← List.cons_append,
      mantissaDigits_of_le (c :: cs) rest hf (fun c hc => (hrest c hc).1) hm tz 0 hfit,
      Nat.zero_add]
    rfl

theorem exponentSign_of_wf {sg : List Char} (hsg : ExpSignWF sg) {d : Char} (hd : d.isDigit = true)
    (ds : List Char) : exponentSign (sg ++ d :: ds) = (decide (sg = ['-']), d :: ds) := by
  rcases hsg with rfl | rfl | rfl
  · have h1 : d ≠ '+' := by
      rintro rfl
      exact absurd hd (by decide)
    have h2 : d ≠ '-' := by
      rintro rfl
      exact absurd hd (by decide)
    simp [exponentSign, h1, h2]
  · rfl
  · rfl

theorem exponentPart_of_wf {ep : Option (Char × List Char × List Char)}
    (hep : ∀ x ∈ ep, (x.1 = 'e' ∨ x.1 = 'E') ∧ ExpSignWF x.2.1 ∧ DigitsWF x.2.2)
    (hfit : ∀ x ∈ ep, (Nat.ofDigitChars 10 x.2.2 0 : Int) ≤ UPPER_BOUND) :
    ∃ esgn e, exponentPart (expText ep) = some (esgn, e, []) ∧
      (if esgn then -e else e) = expValue ep := by
  cases ep with
  | none => exact ⟨false, 0, rfl, rfl⟩
  | some x =>
    obtain ⟨c, sg, ds⟩ := x
    obtain ⟨hc, hsg, hne, hds⟩ := hep _ rfl
    obtain ⟨d, ds', rfl⟩ := List.exists_cons_of_ne_nil hne
    have hd := hds d List.mem_cons_self
    have hrun := exponentDigits_of_le (d :: ds') [] hds (fun c hc => nomatch hc) (le_refl 0)
      (by simpa using hfit _ rfl)
    rw [List.append_nil] at hrun
    refine ⟨decide (sg = ['-']), Nat.ofDigitChars 10 (d :: ds') 0, ?_, ?_⟩
    · rw [expText, exponentPart, if_pos hc, exponentSign_of_wf hsg hd ds']
      simp only [if_pos hd, hrun, zero_mul, zero_add]
    · rw [expValue]
      by_cases hneg : sg = ['-'] <;> simp [hneg]

theorem nonneg_of_intCast_eq_mul_zpow {M z : Int} (hM : ¬ (10 : Int) ∣ M) {X : Int}
    (h : (z : ℚ) = M * 10 ^ X) : 0 ≤ X := by
  by_contra hX
  obtain ⟨k, hk, rfl⟩ : ∃ k : Nat, 0 < k ∧ X = -(k : Int) := ⟨(-X).toNat, by omega, by omega⟩
  rw [zpow_neg, zpow_natCast] at h
  have h10 : (10 : ℚ) ^ k ≠ 0 := pow_ne_zero _ (by norm_num)
  have hq : ((z * 10 ^ k : Int) : ℚ) = M := by
    push_cast
    rw [h]
    field_simp
  have hint : z * 10 ^ k = M := by exact_mod_cast hq
  exact hM (hint ▸ Dvd.dvd.mul_left (dvd_pow_self 10 (by omega)) z)

/-- `ParseFixedPoint` accepts every JSON number shorter than `2 ^ 31` characters whose value times
`10 ^ decimals` is a nonzero whole number within `UPPER_BOUND`, for `decimals` from 0 to 17. -/
theorem parseFixedPointChars_complete (n : JsonNumber) {d z : Int} (hlen : n.text.length < 2 ^ 31)
    (hd₀ : 0 ≤ d) (hd : d ≤ 17) (hz : n.value * 10 ^ d = z) (hz₀ : z ≠ 0)
    (hzU : |z| ≤ UPPER_BOUND) : parseFixedPointChars n.text d = some z := by
  obtain ⟨M, TZ, hMT⟩ : ∃ M TZ, digitsMantissa n.fracDigits (intMantissa n.intPart).1
      (intMantissa n.intPart).2 = (M, TZ) := ⟨_, _, rfl⟩
  have hvalM : M * 10 ^ TZ =
      ((Nat.ofDigitChars 10 (n.intPart ++ n.fracDigits) 0 : Nat) : Int) := by
    have h := digitsMantissa_value n.fracDigits (intMantissa n.intPart).1 (intMantissa n.intPart).2
    rw [hMT] at h
    rw [h, pow_add, ← mul_assoc, intMantissa_value n.intPart_wf, ofDigitChars_ten_append]
    push_cast
    ring
  have hint_le : (intMantissa n.intPart).1 ≤ M := by
    have := le_digitsMantissa n.fracDigits (intMantissa_nonneg n.intPart) (intMantissa n.intPart).2
    rwa [hMT] at this
  have hM₀ : 0 ≤ M := le_trans (intMantissa_nonneg _) hint_le
  have hfd : ∀ c ∈ n.fracDigits, c.isDigit = true := by
    intro c hc
    cases hf : n.fracPart with
    | some f => exact (n.fracPart_wf f hf).2 c (by simpa [JsonNumber.fracDigits, hf] using hc)
    | none => simp [JsonNumber.fracDigits, hf] at hc
  have hMcases : M = 0 ∨ M % 10 ≠ 0 := by
    have h := digitsMantissa_cases n.fracDigits hfd (intMantissa n.intPart).1
      (intMantissa n.intPart).2
    rw [hMT] at h
    dsimp only at h
    rcases h with h | h
    · rw [h]
      exact intMantissa_cases n.intPart_wf
    · exact Or.inr h
  have hTZ : TZ ≤ n.intPart.length + n.fracDigits.length := by
    have h := digitsMantissa_tz_le n.fracDigits (intMantissa n.intPart).1 (intMantissa n.intPart).2
    rw [hMT] at h
    have := intMantissa_tz_le n.intPart
    omega
  have hparts : n.intPart.length + n.fracDigits.length ≤ n.text.length := by
    cases hf : n.fracPart <;>
      simp [JsonNumber.text, JsonNumber.fracDigits, hf, fracText] <;> omega
  obtain ⟨X, hX⟩ : ∃ X, expValue n.expPart - n.fracDigits.length + TZ + d = X := ⟨_, rfl⟩
  have h10 : (10 : ℚ) ≠ 0 := by norm_num
  have hpowX : (10 : ℚ) ^ X = 10 ^ TZ * 10 ^ (expValue n.expPart - n.fracDigits.length + d) := by
    rw [← hX, show expValue n.expPart - n.fracDigits.length + TZ + d =
        (TZ : Int) + (expValue n.expPart - n.fracDigits.length + d) by ring, zpow_add₀ h10,
      zpow_natCast]
  have hzq : (z : ℚ) = ((if n.neg then -M else M : Int) : ℚ) * 10 ^ X := by
    rw [← hz, JsonNumber.value_mul_zpow,
      show ((Nat.ofDigitChars 10 (n.intPart ++ n.fracDigits) 0 : Nat) : ℚ) = (M : ℚ) * 10 ^ TZ by
        exact_mod_cast hvalM.symm, hpowX]
    split_ifs <;> push_cast <;> ring
  have hM₁ : M ≠ 0 := by
    rintro rfl
    apply hz₀
    exact_mod_cast (show (z : ℚ) = 0 by rw [hzq]; split_ifs <;> simp)
  have hndvd : ¬ (10 : Int) ∣ (if n.neg then -M else M) := by
    have hM10 : M % 10 ≠ 0 := hMcases.resolve_left hM₁
    split_ifs
    · rw [Int.dvd_neg]
      exact fun h => hM10 (Int.emod_eq_zero_of_dvd h)
    · exact fun h => hM10 (Int.emod_eq_zero_of_dvd h)
  have hX₀ : 0 ≤ X := nonneg_of_intCast_eq_mul_zpow hndvd hzq
  have hzint : z = (if n.neg then -M else M) * 10 ^ X.toNat := by
    rw [show (10 : ℚ) ^ X = 10 ^ X.toNat by rw [← zpow_natCast, Int.toNat_of_nonneg hX₀]] at hzq
    exact_mod_cast hzq
  have habs : M * 10 ^ X.toNat ≤ UPPER_BOUND := by
    have : |z| = M * 10 ^ X.toNat := by
      rw [hzint, abs_mul, abs_of_nonneg (by positivity : (0 : Int) ≤ 10 ^ X.toNat)]
      split_ifs <;> simp [abs_of_nonneg hM₀]
    rw [← this]
    exact hzU
  have hpow : (1 : Int) ≤ 10 ^ X.toNat := one_le_pow₀ (by norm_num)
  have hMU : M ≤ UPPER_BOUND := le_trans (le_mul_of_one_le_right hM₀ hpow) habs
  have hX18 : X.toNat < 18 := by
    by_contra h18
    have h1 : (10 : Int) ^ 18 ≤ 10 ^ X.toNat := pow_le_pow_right₀ (by norm_num) (by omega)
    have h2 : 10 ^ X.toNat ≤ M * 10 ^ X.toNat := le_mul_of_one_le_left (by positivity) (by omega)
    rw [UPPER_BOUND_eq] at habs
    omega
  have hexpfit : ∀ x ∈ n.expPart, (Nat.ofDigitChars 10 x.2.2 0 : Int) ≤ UPPER_BOUND := by
    rintro ⟨e, sg, ds⟩ hx
    show (Nat.ofDigitChars 10 ds 0 : Int) ≤ UPPER_BOUND
    have hE : expValue n.expPart = if sg = ['-'] then -(Nat.ofDigitChars 10 ds 0 : Int)
        else Nat.ofDigitChars 10 ds 0 := by rw [hx, expValue]
    rw [UPPER_BOUND_eq]
    split_ifs at hE <;> omega
  have hint := integerPart_of_wf n.intPart_wf (fracText n.fracPart ++ expText n.expPart)
    (fun c hc => by rcases head_fracText_expText n c hc with rfl | rfl | rfl <;> rfl)
    (le_trans hint_le hMU)
  have hfrac := fractionPart_of_wf n.fracPart_wf (expText n.expPart)
    (fun c hc => by rcases head_expText n c hc with rfl | rfl <;> exact ⟨rfl, by decide⟩)
    (intMantissa_nonneg n.intPart) (intMantissa n.intPart).2
    (by change (digitsMantissa n.fracDigits _ _).1 ≤ _; rw [hMT]; exact hMU)
  change fractionPart _ _ _ = some ((digitsMantissa n.fracDigits _ _).1,
    (digitsMantissa n.fracDigits _ _).2, n.fracDigits.length, _) at hfrac
  rw [hMT] at hfrac
  obtain ⟨esgn, e, hexp, hEe⟩ := exponentPart_of_wf n.expPart_wf hexpfit
  unfold parseFixedPointChars
  rw [mantissaSign_text, List.append_assoc]
  simp only [Option.bind_eq_bind, hint, Option.bind_some, hfrac, hexp]
  rw [if_neg (not_not.mpr rfl), hEe, hX, if_neg (not_lt.mpr hX₀), if_neg (by omega),
    scaleMantissa_of_le hM₀ habs n.neg, Option.bind_some, ← hzint, boundCheck_of_abs_le hzU]

end Complete

/-! ### The length as an `int` -/

section Length

open JsonNumber

theorem JsonNumber.mem_text (n : JsonNumber) {c : Char} (hc : c ∈ n.text) :
    c.isDigit = true ∨ c = '-' ∨ c = '.' ∨ c = 'e' ∨ c = 'E' ∨ c = '+' := by
  simp only [text, List.mem_append] at hc
  rcases hc with ((hs | hi) | hf) | he
  · split_ifs at hs
    · exact Or.inr (Or.inl (List.mem_singleton.mp hs))
    · exact nomatch hs
  · rcases n.intPart_wf with h | ⟨c', cs, heq, h1, h9, hcs⟩
    · rw [h] at hi
      obtain rfl := List.mem_singleton.mp hi
      exact Or.inl rfl
    · rw [heq] at hi
      rcases List.mem_cons.mp hi with rfl | hi
      · exact Or.inl (isDigit_of_between h1 h9)
      · exact Or.inl (hcs c hi)
  · cases hfp : n.fracPart with
    | none => rw [hfp, fracText] at hf; exact nomatch hf
    | some f =>
      rw [hfp, fracText] at hf
      rcases List.mem_cons.mp hf with rfl | hf
      · exact Or.inr (Or.inr (Or.inl rfl))
      · exact Or.inl ((n.fracPart_wf f hfp).2 c hf)
  · cases hep : n.expPart with
    | none => rw [hep, expText] at he; exact nomatch he
    | some x =>
      obtain ⟨e, sg, ds⟩ := x
      obtain ⟨hmark, hsg, -, hds⟩ : (e = 'e' ∨ e = 'E') ∧ ExpSignWF sg ∧ DigitsWF ds :=
        n.expPart_wf _ hep
      rw [hep, expText] at he
      rcases List.mem_cons.mp he with rfl | he
      · rcases hmark with h | h
        · exact Or.inr (Or.inr (Or.inr (Or.inl h)))
        · exact Or.inr (Or.inr (Or.inr (Or.inr (Or.inl h))))
      · rcases List.mem_append.mp he with hs | hd
        · rcases hsg with rfl | rfl | rfl
          · exact nomatch hs
          · exact Or.inr (Or.inr (Or.inr (Or.inr (Or.inr (List.mem_singleton.mp hs)))))
          · exact Or.inr (Or.inl (List.mem_singleton.mp hs))
        · exact Or.inl (hds c hd)

/-- `ParseFixedPoint` accepts every JSON number shorter than `2 ^ 31` characters whose value times
`10 ^ decimals` is a nonzero whole number within `UPPER_BOUND`, for `decimals` from 0 to 17. -/
theorem parseFixedPoint_complete (n : JsonNumber) {d z : Int} (hlen : n.text.length < 2 ^ 31)
    (hd₀ : 0 ≤ d) (hd : d ≤ 17) (hz : n.value * 10 ^ d = z) (hz₀ : z ≠ 0)
    (hzU : |z| ≤ UPPER_BOUND) : parseFixedPoint n.text d = some z := by
  rw [parseFixedPoint_of_length_lt hlen]
  exact parseFixedPointChars_complete n hlen hd₀ hd hz hz₀ hzU

def sampleJsonNumber : JsonNumber :=
  ⟨false, ['1'], some ['5'], none, Or.inr ⟨'1', [], rfl, by decide, by decide, by simp⟩,
    by simp [DigitsWF], by simp⟩

theorem parseFixedPoint_complete_sample :
    sampleJsonNumber.text.length < 2 ^ 31 ∧ sampleJsonNumber.value * 10 ^ (1 : Int) = (15 : Int) ∧
      parseFixedPoint sampleJsonNumber.text 1 = some 15 :=
  have hz : sampleJsonNumber.value * 10 ^ (1 : Int) = (15 : Int) := by
    simp [sampleJsonNumber, JsonNumber.value, JsonNumber.fracDigits, JsonNumber.expValue,
      Nat.ofDigitChars]
    norm_num
  ⟨by decide, hz, parseFixedPoint_complete sampleJsonNumber (by decide) (by norm_num) (by norm_num)
    hz (by norm_num) (by decide)⟩

/-- A `'1'` followed by `2 ^ 32` characters `'x'` is read as the number 1: `end` is the length
modulo `2 ^ 32`, which is 1, so only the `'1'` is parsed. The string is no JSON number. -/
theorem parseFixedPoint_wrapped_length :
    parseFixedPoint ('1' :: List.replicate (2 ^ 32) 'x') 0 = some 1 ∧
      ¬ ∃ n : JsonNumber, n.text = '1' :: List.replicate (2 ^ 32) 'x' := by
  have hend : toInt32 ('1' :: List.replicate (2 ^ 32) 'x').length = 1 := by
    rw [List.length_cons, List.length_replicate]
    decide
  refine ⟨?_, ?_⟩
  · simp only [parseFixedPoint]
    rw [hend, if_neg (by decide)]
    rfl
  · rintro ⟨n, hn⟩
    have hx : 'x' ∈ n.text := by
      rw [hn]
      exact List.mem_cons_of_mem _ (List.mem_replicate.mpr ⟨by decide, rfl⟩)
    rcases n.mem_text hx with h | h | h | h | h | h <;> exact absurd h (by decide)

end Length

end TbcNode.Util
