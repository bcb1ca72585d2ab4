import Mathlib
import TbcNode.Logic.Decimal
import TbcNode.Primitives.Transaction

/-! # Amounts as text (`utilmoneystr.cpp`)

`FormatMoney` writes `"%d.%06d"` and trims the fraction; `ParseMoney` reads spaces, the coins and
at most six fractional digits, up to the first NUL. Every amount from 0 to `10 ^ 16` reads back
from its text (`parseMoney_formatMoney`).
-/

namespace TbcNode.Util

open TbcNode.Logic TbcNode.Primitives

/-- `TBCCOIN`: the coin of the 6-decimal unit. -/
def TBCCOIN : Amount := 1000000

def TBCCENT : Amount := 10000

def isspace (c : Char) : Bool :=
  c = ' ' || c = '\t' || c = '\n' || c = '\x0b' || c = '\x0c' || c = '\r'

/-! ### `FormatMoney` -/

/-- The loop of `FormatMoney` that counts the zeros to trim, from index `i` down: a `'0'` two places
after a digit goes. -/
def nTrimFrom (str : List Char) : Nat → Nat
  | i + 2 =>
    if str[i + 2]? = some '0' && (str[i]?.any Char.isDigit) then nTrimFrom str (i + 1) + 1 else 0
  | _ => 0

def formatMoney (amt : Amount) : List Char :=
  let n := amt
  let n_abs := if n > 0 then n else -n
  let quotient := n_abs / TBCCOIN
  let remainder := n_abs % TBCCOIN
  let str := Nat.toDigits 10 quotient.toNat ++ '.' ::
    (Nat.toDigits 10 remainder.toNat).leftpad 6 '0'
  let nTrim := nTrimFrom str (str.length - 1)
  let str := if nTrim ≠ 0 then str.take (str.length - nTrim) else str
  if n < 0 then '-' :: str else str

/-! ### `ParseMoney` -/

/-- The digits after the `'.'`, each worth `nMult`, which starts at `10 * TBCCENT` and is divided by
10 after each: the units read and the rest of the string. -/
def parseFrac : List Char → Nat → Int → Int × List Char
  | c :: cs, nMult, nUnits =>
    if c.isDigit && decide (nMult > 0) then
      parseFrac cs (nMult / 10) (nUnits + (nMult * (c.toNat - '0'.toNat) : Nat))
    else (nUnits, c :: cs)
  | [], _, nUnits => (nUnits, [])

/-- The loop of `ParseMoney` over the digits of the coins, up to a space, the end, or the `'.'` and
the fraction after it: `strWhole`, the units and the rest of the string, or a refusal at any other
character. -/
def parseWhole : List Char → List Char → Option (List Char × Int × List Char)
  | c :: cs, strWhole =>
    if c = '.' then
      let frac := parseFrac cs (10 * TBCCENT).toNat 0
      some (strWhole, frac.1, frac.2)
    else if isspace c then some (strWhole, 0, c :: cs)
    else if !c.isDigit then none
    else parseWhole cs (strWhole ++ [c])
  | [], strWhole => some (strWhole, 0, [])

def atoi64 (str : List Char) : Int := Nat.ofDigitChars 10 str 0

/-- `ParseMoney(const char *)`, on the characters before the terminating NUL. -/
def parseMoneyCStr (pszIn : List Char) : Option Amount :=
  match parseWhole (pszIn.dropWhile isspace) [] with
  | some (strWhole, nUnits, rest) =>
    if !rest.all isspace then none
    else if strWhole.length > 10 then none
    else if nUnits < 0 || nUnits > TBCCOIN then none
    else some (atoi64 strWhole * TBCCOIN + nUnits)
  | none => none

/-- `ParseMoney(const std::string &)`: it passes on `str.c_str()`, which ends at the first NUL. -/
def parseMoney (str : List Char) : Option Amount := parseMoneyCStr (str.takeWhile (· != '\x00'))

/-! ### Characters -/

theorem isDigit_of_isspace {c : Char} (h : isspace c = true) : c.isDigit = false := by
  simp only [isspace, Bool.or_eq_true, decide_eq_true_eq] at h
  rcases h with ((((rfl | rfl) | rfl) | rfl) | rfl) | rfl <;> rfl

theorem isspace_of_isDigit {c : Char} (h : c.isDigit = true) : isspace c = false := by
  cases hs : isspace c with
  | false => rfl
  | true => exact absurd h (by rw [isDigit_of_isspace hs]; decide)

theorem ne_point_of_isDigit {c : Char} (h : c.isDigit = true) : c ≠ '.' := by
  rintro rfl
  exact absurd h (by decide)

theorem not_isspace_point : isspace '.' = false := rfl

/-! ### The fraction -/

section Fraction

theorem parseFrac_zero (s : List Char) (nUnits : Int) : parseFrac s 0 nUnits = (nUnits, s) := by
  cases s with
  | nil => rfl
  | cons c cs => simp [parseFrac]

theorem parseFrac_digits (ds rest : List Char) (hds : ∀ c ∈ ds, c.isDigit = true) {m : Nat}
    (hm : ds.length ≤ m + 1) (nUnits : Int) :
    parseFrac (ds ++ rest) (10 ^ m) nUnits = parseFrac rest (10 ^ m / 10 ^ ds.length)
      (nUnits + (Nat.ofDigitChars 10 ds 0 * 10 ^ (m + 1 - ds.length) : Nat)) := by
  induction ds generalizing m nUnits with
  | nil => simp [Nat.ofDigitChars_nil]
  | cons d ds ih =>
    have hd := hds d List.mem_cons_self
    have hval := ofDigitChars_ten_cons d ds
    have hpow : 0 < 10 ^ m := Nat.pow_pos (by decide)
    rw [List.cons_append, parseFrac, if_pos (by simp [hd, hpow])]
    simp only [List.length_cons] at hm ⊢
    cases m with
    | zero =>
      obtain rfl : ds = [] := List.eq_nil_of_length_eq_zero (by omega)
      simp [Nat.ofDigitChars_nil, hval]
    | succ m =>
      rw [Nat.pow_succ, Nat.mul_div_cancel _ (by decide),
        ih (fun c hc => hds c (List.mem_cons_of_mem d hc)) (by omega), Nat.pow_succ 10 ds.length,
        Nat.mul_div_mul_right _ _ (by decide : 0 < 10), hval]
      congr 1
      have hweight : 10 ^ m * 10 = 10 ^ ds.length * 10 ^ (m + 1 - ds.length) := by
        rw [← Nat.pow_succ, ← Nat.pow_add]
        congr 1
        omega
      rw [hweight]
      push_cast
      ring

theorem parseFrac_bound (s : List Char) (m : Nat) (nUnits : Int) :
    nUnits ≤ (parseFrac s (10 ^ m) nUnits).1 ∧
      (parseFrac s (10 ^ m) nUnits).1 < nUnits + 10 ^ (m + 1) := by
  induction s generalizing m nUnits with
  | nil =>
    have hpow : (0 : Int) < 10 ^ (m + 1) := pow_pos (by decide) _
    simp only [parseFrac, le_refl, true_and]
    omega
  | cons c cs ih =>
    unfold parseFrac
    split_ifs with hc
    · have hd := digit_lt_ten (by simpa using hc)
      cases m with
      | zero =>
        rw [Nat.pow_zero, Nat.div_eq_of_lt (by decide), parseFrac_zero]
        simp only [Nat.one_mul, Nat.zero_add, pow_one]
        omega
      | succ m =>
        rw [Nat.pow_succ, Nat.mul_div_cancel _ (by decide)]
        obtain ⟨hlo, hhi⟩ := ih m (nUnits + ((10 ^ m * 10 * (c.toNat - '0'.toNat) : Nat) : Int))
        have hmul : ((10 ^ m * 10 * (c.toNat - '0'.toNat) : Nat) : Int) ≤ (10 : Int) ^ m * 90 := by
          have hle : 10 ^ m * 10 * (c.toNat - '0'.toNat) ≤ 10 ^ m * 90 := by
            rw [Nat.mul_assoc]
            exact Nat.mul_le_mul_left _ (by omega)
          exact_mod_cast hle
        have hpow : (0 : Int) < 10 ^ m := pow_pos (by decide) _
        have h1 : (10 : Int) ^ (m + 1) = 10 ^ m * 10 := pow_succ _ _
        have h2 : (10 : Int) ^ (m + 1 + 1) = 10 ^ m * 100 := by ring
        constructor
        · omega
        · omega
    · have hpow : (0 : Int) < 10 ^ (m + 1) := pow_pos (by decide) _
      simp only [le_refl, true_and]
      omega

theorem parseFrac_append_spaces (s ws : List Char) (hws : ∀ c ∈ ws, isspace c = true)
    (nMult : Nat) (nUnits : Int) :
    parseFrac (s ++ ws) nMult nUnits =
      ((parseFrac s nMult nUnits).1, (parseFrac s nMult nUnits).2 ++ ws) := by
  induction s generalizing nMult nUnits with
  | nil =>
    cases ws with
    | nil => rfl
    | cons c cs =>
      have hc := isDigit_of_isspace (hws c List.mem_cons_self)
      simp [parseFrac, hc]
  | cons c cs ih =>
    simp only [List.cons_append, parseFrac]
    split_ifs
    · exact ih _ _
    · rfl

end Fraction

/-! ### The coins -/

section Whole

theorem parseWhole_point (cs strWhole : List Char) :
    parseWhole ('.' :: cs) strWhole =
      some (strWhole, (parseFrac cs 100000 0).1, (parseFrac cs 100000 0).2) := by
  simp [parseWhole, TBCCENT]

theorem parseWhole_digits (ds rest strWhole : List Char) (hds : ∀ c ∈ ds, c.isDigit = true) :
    parseWhole (ds ++ rest) strWhole = parseWhole rest (strWhole ++ ds) := by
  induction ds generalizing strWhole with
  | nil => rw [List.nil_append, List.append_nil]
  | cons d ds ih =>
    have hd := hds d List.mem_cons_self
    rw [List.cons_append, parseWhole, if_neg (ne_point_of_isDigit hd),
      if_neg (by rw [isspace_of_isDigit hd]; decide), if_neg (by rw [hd]; decide),
      ih _ (fun c hc => hds c (List.mem_cons_of_mem d hc)), List.append_assoc, List.singleton_append]

theorem parseWhole_spec {s strWhole w : List Char} {nUnits : Int} {rest : List Char}
    (hacc : ∀ c ∈ strWhole, c.isDigit = true) (h : parseWhole s strWhole = some (w, nUnits, rest)) :
    (∀ c ∈ w, c.isDigit = true) ∧ 0 ≤ nUnits ∧ nUnits < 10 ^ 6 := by
  induction s generalizing strWhole with
  | nil =>
    simp only [parseWhole, Option.some.injEq, Prod.mk.injEq] at h
    obtain ⟨rfl, rfl, -⟩ := h
    exact ⟨hacc, le_refl 0, by norm_num⟩
  | cons c cs ih =>
    unfold parseWhole at h
    split_ifs at h with hpoint hspace hdigit
    · simp only [Option.some.injEq, Prod.mk.injEq] at h
      obtain ⟨rfl, rfl, -⟩ := h
      have hbound := parseFrac_bound cs 5 0
      simp only [TBCCENT] at hbound ⊢
      exact ⟨hacc, hbound.1, by simpa using hbound.2⟩
    · simp only [Option.some.injEq, Prod.mk.injEq] at h
      obtain ⟨rfl, rfl, -⟩ := h
      exact ⟨hacc, le_refl 0, by norm_num⟩
    · exact ih (fun d hd => by
        rcases List.mem_append.mp hd with hd | hd
        · exact hacc d hd
        · rw [List.mem_singleton.mp hd]
          simpa using hdigit) h

theorem parseWhole_append_spaces (s ws strWhole : List Char) (hws : ∀ c ∈ ws, isspace c = true) :
    parseWhole (s ++ ws) strWhole =
      (parseWhole s strWhole).map fun r => (r.1, r.2.1, r.2.2 ++ ws) := by
  induction s generalizing strWhole with
  | nil =>
    cases ws with
    | nil => rfl
    | cons c cs =>
      have hc := hws c List.mem_cons_self
      have hpoint : c ≠ '.' := by
        rintro rfl
        exact absurd hc (by decide)
      simp [parseWhole, hpoint, hc]
  | cons c cs ih =>
    simp only [List.cons_append, parseWhole]
    split_ifs
    · simp [parseFrac_append_spaces cs ws hws]
    · rfl
    · rfl
    · exact ih _

theorem parseWhole_rest_of_point {pre : List Char} (hpre : '.' ∉ pre) (cs strWhole : List Char)
    {w : List Char} {nUnits : Int} {rest : List Char}
    (h : parseWhole (pre ++ '.' :: cs) strWhole = some (w, nUnits, rest)) :
    '.' ∈ rest ∨ rest = (parseFrac cs 100000 0).2 := by
  induction pre generalizing strWhole with
  | nil =>
    rw [List.nil_append, parseWhole_point] at h
    simp only [Option.some.injEq, Prod.mk.injEq] at h
    exact Or.inr h.2.2.symm
  | cons c pre ih =>
    have hc : c ≠ '.' := fun he => hpre (he ▸ List.mem_cons_self)
    rw [List.cons_append, parseWhole, if_neg hc] at h
    split_ifs at h
    · simp only [Option.some.injEq, Prod.mk.injEq] at h
      exact Or.inl (h.2.2 ▸ List.mem_cons_of_mem c (List.mem_append_right pre List.mem_cons_self))
    · exact ih (fun hp => hpre (List.mem_cons_of_mem c hp)) _ h

end Whole

/-! ### The text of an amount -/

section Format

theorem toNat_emod_TBCCOIN_lt (a : Amount) : (a % TBCCOIN).toNat < 10 ^ 6 := by
  have hlt : a % TBCCOIN < 1000000 := Int.emod_lt_of_pos a (by decide)
  have hnonneg : 0 ≤ a % TBCCOIN := Int.emod_nonneg a (by decide)
  simp only [Amount] at *
  omega

theorem getElem?_frac (Q F : List Char) (t : Nat) :
    (Q ++ '.' :: F)[Q.length + 1 + t]? = F[t]? := by
  rw [List.getElem?_append_right (by omega), show Q.length + 1 + t - Q.length = t + 1 by omega,
    List.getElem?_cons_succ]

theorem getElem?_point (Q F : List Char) : (Q ++ '.' :: F)[Q.length]? = some '.' := by
  rw [List.getElem?_append_right (Nat.le_refl _), Nat.sub_self, List.getElem?_cons_zero]

theorem nTrimFrom_frac (Q : List Char) {F : List Char} (hF : ∀ c ∈ F, c.isDigit = true)
    (hlen : F.length = 6) (t : Nat) (ht : 1 ≤ t) (ht5 : t ≤ 5) :
    ∃ T, nTrimFrom (Q ++ '.' :: F) (Q.length + 1 + t) = T ∧ T ≤ t - 1 ∧
      (∀ j, t + 1 - T ≤ j → j ≤ t → F[j]? = some '0') ∧ (T < t - 1 → F[t - T]? ≠ some '0') := by
  induction t, ht using Nat.le_induction with
  | base =>
    refine ⟨0, ?_, Nat.le_refl _, fun j hj hj' => absurd hj' (by omega), fun h => absurd h (by omega)⟩
    rw [show Q.length + 1 + 1 = Q.length + 0 + 2 by omega, nTrimFrom, Nat.add_zero,
      getElem?_point]
    simp
  | succ t ht ih =>
    obtain ⟨T, hT, hle, hzeros, hlast⟩ := ih (by omega)
    have hprev : (Q ++ '.' :: F)[Q.length + t]?.any Char.isDigit = true := by
      rw [show Q.length + t = Q.length + 1 + (t - 1) by omega, getElem?_frac]
      obtain ⟨c, hc⟩ : ∃ c, F[t - 1]? = some c := ⟨_, List.getElem?_eq_getElem (by omega)⟩
      rw [hc]
      exact hF c (List.mem_of_getElem? hc)
    rw [show Q.length + 1 + (t + 1) = Q.length + t + 2 by omega, nTrimFrom,
      show Q.length + t + 2 = Q.length + 1 + (t + 1) by omega, getElem?_frac, hprev,
      Bool.and_true, show Q.length + t + 1 = Q.length + 1 + t by omega, hT]
    by_cases hz : F[t + 1]? = some '0'
    · refine ⟨T + 1, by simp [hz], by omega, fun j hj hj' => ?_, fun h => ?_⟩
      · rcases Nat.lt_or_ge j (t + 1) with hj'' | hj''
        · exact hzeros j (by omega) (by omega)
        · rw [show j = t + 1 by omega]
          exact hz
      · rw [show t + 1 - (T + 1) = t - T by omega]
        exact hlast (by omega)
    · exact ⟨0, by simp [hz], Nat.zero_le _, fun j hj hj' => absurd hj' (by omega),
        fun _ => hz⟩

theorem formatMoney_nonneg {a : Amount} (ha : 0 ≤ a) {Q F : List Char}
    (hQ : Q = Nat.toDigits 10 (a / TBCCOIN).toNat)
    (hF : F = (Nat.toDigits 10 (a % TBCCOIN).toNat).leftpad 6 '0') :
    ∃ T, T ≤ 4 ∧ (∀ j, 6 - T ≤ j → j ≤ 5 → F[j]? = some '0') ∧ (T < 4 → F[5 - T]? ≠ some '0') ∧
      formatMoney a = Q ++ '.' :: F.take (6 - T) := by
  have hrem := toNat_emod_TBCCOIN_lt a
  have hFlen : F.length = 6 := hF ▸ length_leftpad_toDigits (by decide) hrem
  have hFdigits : ∀ c ∈ F, c.isDigit = true := hF ▸ fun c hc =>
    isDigit_of_mem_leftpad (fun d hd => isDigit_of_mem_toDigits_ten hd) hc
  obtain ⟨T, hT, hle, hzeros, hlast⟩ := nTrimFrom_frac Q hFdigits hFlen 5 (by decide) (by decide)
  refine ⟨T, hle, hzeros, hlast, ?_⟩
  have habs : (if a > 0 then a else -a) = a := by
    simp only [Amount] at *
    split_ifs <;> omega
  have hlen : (Q ++ '.' :: F).length - 1 = Q.length + 1 + 5 := by
    simp only [List.length_append, List.length_cons, hFlen]
    omega
  have htrim : (if T ≠ 0 then (Q ++ '.' :: F).take ((Q ++ '.' :: F).length - T)
      else Q ++ '.' :: F) = Q ++ '.' :: F.take (6 - T) := by
    split_ifs with hT0
    · rw [List.take_append, List.take_of_length_le (by simp; omega),
        show (Q ++ '.' :: F).length - T - Q.length = (6 - T) + 1 by simp [hFlen]; omega,
        List.take_succ_cons]
    · rw [not_not.mp hT0, Nat.sub_zero, List.take_of_length_le (Nat.le_of_eq hFlen)]
  simp only [formatMoney]
  rw [habs, ← hQ, ← hF, hlen, hT, htrim, if_neg (not_lt.mpr ha)]

end Format

/-! ### Reading the text back -/

section Parse

theorem drop_eq_zeros {F : List Char} {T : Nat} (hlen : F.length = 6) (hT : T ≤ 6)
    (hzeros : ∀ j, 6 - T ≤ j → j ≤ 5 → F[j]? = some '0') :
    F.drop (6 - T) = List.replicate T '0' := by
  rw [List.eq_replicate_iff, List.length_drop, hlen]
  refine ⟨by omega, fun b hb => ?_⟩
  obtain ⟨i, hi⟩ := List.mem_iff_getElem?.mp hb
  rw [List.getElem?_drop] at hi
  obtain ⟨hlt, -⟩ := List.getElem?_eq_some_iff.mp hi
  rw [hzeros _ (Nat.le_add_right _ _) (by omega)] at hi
  exact (Option.some.inj hi).symm

theorem parseMoneyCStr_digits_point {Q G : List Char} (hQ : ∀ c ∈ Q, c.isDigit = true) (hQne : Q ≠ [])
    (hQlen : Q.length ≤ 10) (hG : ∀ c ∈ G, c.isDigit = true) (hGlen : G.length ≤ 6) :
    parseMoneyCStr (Q ++ '.' :: G) =
      some (atoi64 Q * TBCCOIN + (Nat.ofDigitChars 10 G 0 * 10 ^ (6 - G.length) : Nat)) := by
  obtain ⟨c, cs, rfl⟩ := List.exists_cons_of_ne_nil hQne
  have hdrop : (c :: cs ++ '.' :: G).dropWhile isspace = c :: cs ++ '.' :: G :=
    List.dropWhile_cons_of_neg (by rw [isspace_of_isDigit (hQ c List.mem_cons_self)]; decide)
  have hfrac : parseFrac G 100000 0 =
      (((Nat.ofDigitChars 10 G 0 * 10 ^ (6 - G.length) : Nat) : Int), []) := by
    have h := parseFrac_digits G [] hG (m := 5) (by omega) 0
    rw [List.append_nil] at h
    rw [show (100000 : Nat) = 10 ^ 5 by norm_num, h, Int.zero_add,
      show 5 + 1 - G.length = 6 - G.length by omega]
    rfl
  have hunits : Nat.ofDigitChars 10 G 0 * 10 ^ (6 - G.length) < 10 ^ 6 := by
    calc Nat.ofDigitChars 10 G 0 * 10 ^ (6 - G.length)
        < 10 ^ G.length * 10 ^ (6 - G.length) :=
          Nat.mul_lt_mul_of_pos_right (ofDigitChars_lt G hG) (Nat.pow_pos (by decide))
      _ = 10 ^ 6 := by rw [← Nat.pow_add, Nat.add_sub_cancel' hGlen]
  unfold parseMoneyCStr
  rw [hdrop, parseWhole_digits _ _ _ hQ, List.nil_append, parseWhole_point, hfrac]
  have hlen : ¬ (c :: cs).length > 10 := Nat.not_lt.mpr hQlen
  have hneg : decide (((Nat.ofDigitChars 10 G 0 * 10 ^ (6 - G.length) : Nat) : Int) < 0) = false :=
    decide_eq_false (not_lt.mpr (Int.natCast_nonneg _))
  have hover : decide (((Nat.ofDigitChars 10 G 0 * 10 ^ (6 - G.length) : Nat) : Int) > TBCCOIN) =
      false :=
    decide_eq_false (not_lt.mpr (by simp only [TBCCOIN]; exact_mod_cast Nat.le_of_lt hunits))
  simp only [List.all_nil, Bool.not_true, Bool.false_eq_true, ↓reduceIte, hlen, hneg, hover,
    Bool.or_false]

theorem parseMoneyCStr_formatMoney {a : Amount} (ha : 0 ≤ a) (hlt : a < 10 ^ 16) :
    parseMoneyCStr (formatMoney a) = some a := by
  obtain ⟨T, hT, hzeros, -, hfmt⟩ := formatMoney_nonneg ha rfl rfl
  have hq : (a / TBCCOIN).toNat < 10 ^ 10 := by
    have : a / TBCCOIN < 10 ^ 10 := Int.ediv_lt_of_lt_mul (by decide) (by simpa [TBCCOIN] using hlt)
    have : 0 ≤ a / TBCCOIN := Int.ediv_nonneg ha (by decide)
    simp only [Amount] at *
    omega
  have hr := toNat_emod_TBCCOIN_lt a
  set Q := Nat.toDigits 10 (a / TBCCOIN).toNat with hQ
  set F := (Nat.toDigits 10 (a % TBCCOIN).toNat).leftpad 6 '0' with hF
  have hFlen : F.length = 6 := length_leftpad_toDigits (by decide) hr
  have hFdigits : ∀ c ∈ F, c.isDigit = true := fun c hc =>
    isDigit_of_mem_leftpad (fun d hd => isDigit_of_mem_toDigits_ten hd) hc
  have hsplit : F = F.take (6 - T) ++ List.replicate T '0' := by
    rw [← drop_eq_zeros hFlen (by omega) hzeros, List.take_append_drop]
  have hGlen : (F.take (6 - T)).length = 6 - T := by
    rw [List.length_take, hFlen]
    omega
  have hunits : Nat.ofDigitChars 10 (F.take (6 - T)) 0 * 10 ^ (6 - (F.take (6 - T)).length) =
      (a % TBCCOIN).toNat := by
    rw [hGlen, show 6 - (6 - T) = T by omega, ← ofDigitChars_append_zeros, ← hsplit, hF,
      ofDigitChars_leftpad, Nat.ofDigitChars_ten_toDigits]
  rw [hfmt, parseMoneyCStr_digits_point (fun c hc => isDigit_of_mem_toDigits_ten hc) Nat.toDigits_ne_nil
    (length_toDigits_le (by decide) hq) (fun c hc => hFdigits c (List.mem_of_mem_take hc))
    (by omega), hunits, atoi64, Nat.ofDigitChars_ten_toDigits,
    Int.toNat_of_nonneg (Int.ediv_nonneg ha (by decide)),
    Int.toNat_of_nonneg (Int.emod_nonneg a (by decide)), Int.ediv_mul_add_emod]

theorem formatMoney_form {a : Amount} (ha : 0 ≤ a) :
    ∃ whole frac, formatMoney a = whole ++ '.' :: frac ∧ whole ≠ [] ∧
      (∀ c ∈ whole, c.isDigit = true) ∧ (∀ c ∈ frac, c.isDigit = true) ∧
      2 ≤ frac.length ∧ frac.length ≤ 6 ∧ (2 < frac.length → frac.getLast? ≠ some '0') := by
  obtain ⟨T, hT, -, hlast, hfmt⟩ := formatMoney_nonneg ha rfl rfl
  have hr := toNat_emod_TBCCOIN_lt a
  set F := (Nat.toDigits 10 (a % TBCCOIN).toNat).leftpad 6 '0'
  have hFlen : F.length = 6 := length_leftpad_toDigits (by decide) hr
  have hlen : (F.take (6 - T)).length = 6 - T := by
    rw [List.length_take, hFlen]
    omega
  refine ⟨_, F.take (6 - T), hfmt, Nat.toDigits_ne_nil, fun c hc => isDigit_of_mem_toDigits_ten hc,
    fun c hc => isDigit_of_mem_leftpad (fun d hd => isDigit_of_mem_toDigits_ten hd)
      (List.mem_of_mem_take hc), by omega, by omega, fun h2 => ?_⟩
  rw [List.getLast?_take, if_neg (by omega), show 6 - T - 1 = 5 - T by omega,
    List.getElem?_eq_getElem (by omega), Option.some_or]
  rw [List.getElem?_eq_getElem (by omega)] at hlast
  exact hlast (by omega)

theorem parseMoneyCStr_lt {s : List Char} {a : Amount} (h : parseMoneyCStr s = some a) :
    0 ≤ a ∧ a < 10 ^ 16 := by
  unfold parseMoneyCStr at h
  cases hw : parseWhole (s.dropWhile isspace) [] with
  | none => simp [hw] at h
  | some r =>
    obtain ⟨w, nUnits, rest⟩ := r
    obtain ⟨hdigits, hlo, hhi⟩ := parseWhole_spec (fun c hc => absurd hc List.not_mem_nil) hw
    simp only [hw] at h
    split_ifs at h with hrest hlen hrange
    obtain rfl := (Option.some.inj h).symm
    have hwhole : Nat.ofDigitChars 10 w 0 < 10 ^ 10 :=
      Nat.lt_of_lt_of_le (ofDigitChars_lt w hdigits) (Nat.pow_le_pow_right (by decide) (by omega))
    have hcast : (atoi64 w : Int) < 10 ^ 10 := by
      simp only [atoi64]
      exact_mod_cast hwhole
    have hnonneg : (0 : Int) ≤ atoi64 w := Int.natCast_nonneg _
    simp only [TBCCOIN, Amount] at *
    omega

theorem parseMoneyCStr_spaces {ws₁ s ws₂ : List Char} (h₁ : ∀ c ∈ ws₁, isspace c = true)
    (h₂ : ∀ c ∈ ws₂, isspace c = true) {a : Amount} (h : parseMoneyCStr s = some a) :
    parseMoneyCStr (ws₁ ++ s ++ ws₂) = some a := by
  have hspaces : (ws₂.all isspace) = true := List.all_eq_true.mpr h₂
  unfold parseMoneyCStr at h ⊢
  rw [List.append_assoc, List.dropWhile_append_of_pos h₁, List.dropWhile_append]
  split_ifs with hempty
  · rw [List.isEmpty_iff] at hempty
    rw [List.dropWhile_eq_nil_iff.mpr h₂]
    rwa [hempty] at h
  · rw [parseWhole_append_spaces _ _ _ h₂]
    cases hw : parseWhole (s.dropWhile isspace) [] with
    | none => simp [hw] at h
    | some r =>
      obtain ⟨w, nUnits, rest⟩ := r
      simp only [hw] at h
      simp only [Option.map_some, List.all_append, hspaces, Bool.and_true]
      exact h

theorem parseMoneyCStr_seventh_digit {pre frac : List Char} (rest : List Char) (hpre : '.' ∉ pre)
    (hfrac : ∀ c ∈ frac, c.isDigit = true) (hlen : 6 < frac.length) :
    parseMoneyCStr (pre ++ '.' :: (frac ++ rest)) = none := by
  have hdrop : (pre ++ '.' :: (frac ++ rest)).dropWhile isspace =
      pre.dropWhile isspace ++ '.' :: (frac ++ rest) := by
    rw [List.dropWhile_append]
    split_ifs with hempty
    · rw [List.isEmpty_iff] at hempty
      rw [hempty, List.nil_append, List.dropWhile_cons_of_neg (by decide)]
    · rfl
  have hpre' : '.' ∉ pre.dropWhile isspace := fun hp => hpre ((List.dropWhile_sublist _).subset hp)
  have hfrac6 : (parseFrac (frac ++ rest) 100000 0).2 = frac.drop 6 ++ rest := by
    have h := parseFrac_digits (frac.take 6) (frac.drop 6 ++ rest)
      (fun c hc => hfrac c (List.mem_of_mem_take hc)) (m := 5) (by simp) 0
    rw [← List.append_assoc, List.take_append_drop] at h
    rw [show (100000 : Nat) = 10 ^ 5 by norm_num, h, List.length_take, Nat.min_eq_left (by omega),
      Nat.div_eq_of_lt (by decide), parseFrac_zero]
  obtain ⟨d, ds, hds⟩ := List.exists_cons_of_ne_nil (List.ne_nil_of_length_pos
    (by rw [List.length_drop]; omega : 0 < (frac.drop 6).length))
  have hd : d.isDigit = true := hfrac d (List.mem_of_mem_drop (hds ▸ List.mem_cons_self))
  unfold parseMoneyCStr
  rw [hdrop]
  cases hw : parseWhole (pre.dropWhile isspace ++ '.' :: (frac ++ rest)) [] with
  | none => rfl
  | some r =>
    obtain ⟨w, nUnits, rest'⟩ := r
    have hnot : (rest'.all isspace) = false := by
      rcases parseWhole_rest_of_point hpre' _ _ hw with hp | hp
      · exact List.all_eq_false.mpr ⟨'.', hp, by decide⟩
      · rw [hp, hfrac6, hds, List.cons_append, List.all_cons, isspace_of_isDigit hd,
          Bool.false_and]
    simp [hnot]

end Parse

/-! ### `ParseMoney` on a `std::string` -/

section String

theorem ne_nul_of_isspace {c : Char} (h : isspace c = true) : (c != '\x00') = true := by
  simp only [isspace, Bool.or_eq_true, decide_eq_true_eq] at h
  rcases h with ((((rfl | rfl) | rfl) | rfl) | rfl) | rfl <;> rfl

theorem ne_nul_of_isDigit {c : Char} (h : c.isDigit = true) : (c != '\x00') = true := by
  rw [bne_iff_ne]
  rintro rfl
  exact absurd h (by decide)

theorem parseMoney_of_ne_nul {s : List Char} (h : ∀ c ∈ s, (c != '\x00') = true) :
    parseMoney s = parseMoneyCStr s := by
  rw [parseMoney, List.takeWhile_eq_self_iff.mpr h]

theorem takeWhile_append_of_not_forall {p : Char → Bool} {s : List Char}
    (h : ¬ ∀ c ∈ s, p c = true) (t : List Char) : (s ++ t).takeWhile p = s.takeWhile p := by
  rw [List.takeWhile_append, if_neg]
  exact fun hlen => h (List.takeWhile_eq_self_iff.mp ((List.takeWhile_prefix p).eq_of_length hlen))

theorem ne_nul_of_mem_formatMoney {a : Amount} (ha : 0 ≤ a) :
    ∀ c ∈ formatMoney a, (c != '\x00') = true := by
  obtain ⟨whole, frac, hfmt, -, hwhole, hfrac, -⟩ := formatMoney_form ha
  intro c hc
  rw [hfmt, List.mem_append, List.mem_cons] at hc
  rcases hc with hc | rfl | hc
  · exact ne_nul_of_isDigit (hwhole c hc)
  · rfl
  · exact ne_nul_of_isDigit (hfrac c hc)

/-- Every amount from 0 to `10 ^ 16` reads back from its text. -/
theorem parseMoney_formatMoney {a : Amount} (ha : 0 ≤ a) (hlt : a < 10 ^ 16) :
    parseMoney (formatMoney a) = some a := by
  rw [parseMoney_of_ne_nul (ne_nul_of_mem_formatMoney ha), parseMoneyCStr_formatMoney ha hlt]

theorem parseMoney_lt {s : List Char} {a : Amount} (h : parseMoney s = some a) :
    0 ≤ a ∧ a < 10 ^ 16 :=
  parseMoneyCStr_lt h

/-- Spaces before and after a string `ParseMoney` accepts do not change what it reads. -/
theorem parseMoney_spaces {ws₁ s ws₂ : List Char} (h₁ : ∀ c ∈ ws₁, isspace c = true)
    (h₂ : ∀ c ∈ ws₂, isspace c = true) {a : Amount} (h : parseMoney s = some a) :
    parseMoney (ws₁ ++ s ++ ws₂) = some a := by
  unfold parseMoney at h ⊢
  rw [List.append_assoc, List.takeWhile_append_of_pos fun c hc => ne_nul_of_isspace (h₁ c hc)]
  by_cases hs : ∀ c ∈ s, (c != '\x00') = true
  · rw [List.takeWhile_eq_self_iff.mpr hs] at h
    rw [List.takeWhile_append_of_pos hs,
      List.takeWhile_eq_self_iff.mpr fun c hc => ne_nul_of_isspace (h₂ c hc), ← List.append_assoc]
    exact parseMoneyCStr_spaces h₁ h₂ h
  · rw [takeWhile_append_of_not_forall hs]
    simpa using parseMoneyCStr_spaces h₁ (fun c (hc : c ∈ ([] : List Char)) => absurd hc List.not_mem_nil) h

/-- A string with no NUL before its first `'.'` and more than six digits after it is refused. -/
theorem parseMoney_seventh_digit {pre frac : List Char} (rest : List Char) (hpre : '.' ∉ pre)
    (hnul : '\x00' ∉ pre) (hfrac : ∀ c ∈ frac, c.isDigit = true) (hlen : 6 < frac.length) :
    parseMoney (pre ++ '.' :: (frac ++ rest)) = none := by
  have hpre' : ∀ c ∈ pre, (c != '\x00') = true := fun c hc => by
    rw [bne_iff_ne]
    rintro rfl
    exact hnul hc
  unfold parseMoney
  rw [List.takeWhile_append_of_pos hpre', List.takeWhile_cons_of_pos rfl,
    List.takeWhile_append_of_pos fun c hc => ne_nul_of_isDigit (hfrac c hc)]
  exact parseMoneyCStr_seventh_digit _ hpre hfrac hlen

end String

end TbcNode.Util
