import Mathlib
import TbcNode.Util.FixedPoint
import TbcNode.Util.MoneyStr

/-! # Amounts in RPC values (`rpc/server.cpp`)

`ValueFromAmount` writes `"%s%d.%06d"`, and `AmountFromValue` reads it back through
`ParseFixedPoint(s, 6)` and `MoneyRange` (`amountFromValue_valueFromAmount`). A `UniValue` is its
type and the text `getValStr` returns.
-/

namespace TbcNode.Rpc

open TbcNode.Logic TbcNode.Primitives TbcNode.Util

/-- `UniValue::VType`. -/
inductive VType
  | VNULL | VOBJ | VARR | VSTR | VNUM | VBOOL
  deriving DecidableEq, Repr

/-- A scalar `UniValue`: its type and its text. -/
structure UniValue where
  typ : VType
  val : List Char
  deriving DecidableEq, Repr

def UniValue.isNum (v : UniValue) : Bool := v.typ = .VNUM

def UniValue.isStr (v : UniValue) : Bool := v.typ = .VSTR

def UniValue.getValStr (v : UniValue) : List Char := v.val

/-! ### Amounts -/

def valueFromAmount (amount : Amount) : UniValue :=
  let amt := amount
  let sign := decide (amt < 0)
  let n_abs := if sign then -amt else amt
  let quotient := n_abs / TBCCOIN
  let remainder := n_abs % TBCCOIN
  ⟨.VNUM, (if sign then ['-'] else []) ++ Nat.toDigits 10 quotient.toNat ++ '.' ::
    (Nat.toDigits 10 remainder.toNat).leftpad 6 '0'⟩

def amountFromValue (value : UniValue) : Except String Amount :=
  if !value.isNum && !value.isStr then .error "Amount is not a number or string"
  else
    match parseFixedPoint value.getValStr 6 with
    | some n =>
      let amt : Amount := n
      if !moneyRange amt then .error "Amount out of range" else .ok amt
    | none => .error "Invalid amount"

/-! ### Amounts as RPC values -/

section Amounts

/-- The text of every amount of magnitude at most `MAX_MONEY` reads back as that amount. -/
theorem parseFixedPoint_valueFromAmount {a : Amount} (h₁ : -MAX_MONEY ≤ a) (h₂ : a ≤ MAX_MONEY) :
    parseFixedPoint (valueFromAmount a).getValStr 6 = some a := by
  obtain ⟨n_abs, hn⟩ : ∃ n_abs, (if decide (a < 0) = true then -a else a) = n_abs := ⟨_, rfl⟩
  have hrange : 0 ≤ n_abs ∧ n_abs ≤ MAX_MONEY := by
    rw [← hn]
    simp only [Amount] at *
    split_ifs with ha <;> simp only [decide_eq_true_eq] at ha <;> omega
  have hr := toNat_emod_TBCCOIN_lt n_abs
  have hq : (n_abs / TBCCOIN).toNat < 10 ^ 10 := by
    simp only [MAX_MONEY, COIN, TBCCOIN, Amount] at hrange ⊢
    have : n_abs / 1000000 < 10 ^ 10 := Int.ediv_lt_of_lt_mul (by decide) (by omega)
    omega
  set F := (Nat.toDigits 10 (n_abs % TBCCOIN).toNat).leftpad 6 '0' with hF
  have hFlen : F.length = 6 := length_leftpad_toDigits (by decide) hr
  have hFdigits : ∀ c ∈ F, c.isDigit = true := fun c hc =>
    isDigit_of_mem_leftpad (fun d hd => isDigit_of_mem_toDigits_ten hd) hc
  have hFne : F ≠ [] := List.ne_nil_of_length_pos (by omega)
  have hqr : (((n_abs / TBCCOIN).toNat * 10 ^ F.length + Nat.ofDigitChars 10 F 0 : Nat) : Int) =
      n_abs := by
    rw [hFlen, hF, ofDigitChars_leftpad, Nat.ofDigitChars_ten_toDigits]
    push_cast
    rw [Int.toNat_of_nonneg (Int.ediv_nonneg hrange.1 (by decide)),
      Int.toNat_of_nonneg (Int.emod_nonneg _ (by decide))]
    exact Int.ediv_mul_add_emod n_abs TBCCOIN
  have hQlen := length_toDigits_le (by decide) hq
  have h := parseFixedPointChars_decimal (decide (a < 0)) (n_abs / TBCCOIN).toNat hFdigits hFne
    (by rw [hqr, UPPER_BOUND_eq]; simp only [MAX_MONEY, COIN, Amount] at hrange; omega)
    (by omega)
  rw [hqr, hFlen, Nat.cast_ofNat] at h
  have hlen : ((if decide (a < 0) = true then ['-'] else []) ++
      Nat.toDigits 10 (n_abs / TBCCOIN).toNat ++ '.' :: F).length < 2 ^ 31 := by
    simp only [List.length_append, List.length_cons, hFlen]
    split_ifs <;> simp only [List.length_cons, List.length_nil] <;> omega
  simp only [valueFromAmount, UniValue.getValStr, hn, ← hF]
  rw [parseFixedPoint_of_length_lt hlen, h]
  split_ifs with ha <;> simp only [decide_eq_true_eq] at ha <;> rw [← hn] <;> simp [ha]

/-- `AmountFromValue` after `ValueFromAmount` gives back every amount of `MoneyRange` and refuses
every negative amount down to `-MAX_MONEY` as out of range. -/
theorem amountFromValue_valueFromAmount {a : Amount} (h₁ : -MAX_MONEY ≤ a) (h₂ : a ≤ MAX_MONEY) :
    amountFromValue (valueFromAmount a) =
      if 0 ≤ a then .ok a else .error "Amount out of range" := by
  have hnum : (valueFromAmount a).isNum = true := rfl
  rw [amountFromValue, hnum, parseFixedPoint_valueFromAmount h₁ h₂]
  by_cases ha : 0 ≤ a
  · rw [if_pos ha]
    simp [moneyRange, ha, h₂]
  · rw [if_neg ha]
    simp [moneyRange, ha]

end Amounts

/-- Amounts round-trip between text and units: through `FormatMoney` and `ParseMoney` for every
amount of `MoneyRange`, and through `ValueFromAmount` and `AmountFromValue` for every amount of
magnitude at most `MAX_MONEY`, negative ones being refused; a seventh fractional digit with no NUL
before it is refused, and every string accepted reads below `10 ^ 16`. -/
theorem amount_text_round_trip :
    (∀ a : Amount, 0 ≤ a → a ≤ MAX_MONEY →
      parseMoney (formatMoney a) = some a ∧
      ∃ whole frac, formatMoney a = whole ++ '.' :: frac ∧ whole ≠ [] ∧
        (∀ c ∈ whole, c.isDigit = true) ∧ (∀ c ∈ frac, c.isDigit = true) ∧
        2 ≤ frac.length ∧ frac.length ≤ 6 ∧ (2 < frac.length → frac.getLast? ≠ some '0')) ∧
    (∀ (ws₁ s ws₂ : List Char) (a : Amount), (∀ c ∈ ws₁, isspace c = true) →
      (∀ c ∈ ws₂, isspace c = true) → parseMoney s = some a →
      parseMoney (ws₁ ++ s ++ ws₂) = some a) ∧
    (∀ pre frac rest : List Char, '.' ∉ pre → '\x00' ∉ pre → (∀ c ∈ frac, c.isDigit = true) →
      6 < frac.length → parseMoney (pre ++ '.' :: (frac ++ rest)) = none) ∧
    (∀ a : Amount, -MAX_MONEY ≤ a → a ≤ MAX_MONEY →
      amountFromValue (valueFromAmount a) =
        if 0 ≤ a then .ok a else .error "Amount out of range") ∧
    (∀ (s : List Char) (a : Amount), parseMoney s = some a →
      0 ≤ a ∧ a < 10 ^ 16 ∧ parseMoney (formatMoney a) = some a) := by
  have hmax : MAX_MONEY < 10 ^ 16 := by decide
  refine ⟨fun a h₀ h₁ => ⟨parseMoney_formatMoney h₀ (lt_of_le_of_lt h₁ hmax), formatMoney_form h₀⟩,
    fun ws₁ s ws₂ a h₁ h₂ h => parseMoney_spaces h₁ h₂ h,
    fun pre frac rest hpre hnul hfrac hlen => parseMoney_seventh_digit rest hpre hnul hfrac hlen,
    fun a h₁ h₂ => amountFromValue_valueFromAmount h₁ h₂, fun s a h => ?_⟩
  obtain ⟨h₀, hlt⟩ := parseMoney_lt h
  exact ⟨h₀, hlt, parseMoney_formatMoney h₀ hlt⟩

/-- A NUL ends the string `ParseMoney` reads: seven digits after a `'.'` that follows a NUL are
not seen, and the text reads as one coin. -/
theorem parseMoney_stops_at_nul :
    '.' ∉ ['1', '\x00'] ∧ (∀ c ∈ List.replicate 7 '0', c.isDigit = true) ∧
      6 < (List.replicate 7 '0').length ∧
      parseMoney (['1', '\x00'] ++ '.' :: (List.replicate 7 '0' ++ [])) = some TBCCOIN :=
  ⟨by decide, by simp, by simp, rfl⟩

end TbcNode.Rpc
