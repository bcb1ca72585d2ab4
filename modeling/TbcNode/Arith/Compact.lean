import TbcNode.Arith.BaseUint
import TbcNode.Logic.Digits

/-! # The compact target format (`arith_uint256::SetCompact`, `GetCompact`)

A compact value is a size byte over a 23-bit mantissa and a sign bit. `compactTarget` and
`encodeCompact` state the format on numbers, and `setCompact` and `getCompact` compute exactly
these on `UInt32` and `arith_uint256`.
-/

namespace TbcNode.Arith

open TbcNode.Logic

/-! ## The format on numbers -/

/-- The number of bytes of `x`, `(bits() + 7) / 8`. -/
def byteLength (x : Nat) : Nat := (x.size + 7) / 8

/-- The three top bytes of `x` as `GetCompact` reads them: `x` moved up to three bytes, or the
bytes below its three top ones dropped. -/
def topBytes (x : Nat) : Nat :=
  if byteLength x ≤ 3 then x * 256 ^ (3 - byteLength x) else x / 256 ^ (byteLength x - 3)

/-- The mantissa `GetCompact` stores: the top bytes, moved down a byte when their top bit would
read as the sign. -/
def encodedMantissa (x : Nat) : Nat :=
  if 2 ^ 23 ≤ topBytes x then topBytes x / 256 else topBytes x

/-- The size `GetCompact` stores, one more when the mantissa was moved down. -/
def encodedSize (x : Nat) : Nat :=
  if 2 ^ 23 ≤ topBytes x then byteLength x + 1 else byteLength x

/-- `GetCompact(false)` on numbers: the size in the top byte over the mantissa. -/
def encodeCompact (x : Nat) : Nat := encodedMantissa x + 2 ^ 24 * encodedSize x

/-- `nSize`, the top byte of a compact value. -/
def compactExponent (c : Nat) : Nat := c / 2 ^ 24

/-- `nWord` as `SetCompact` reads it: the low 23 bits, shifted down when the size is at most 3. -/
def compactWord (c : Nat) : Nat :=
  if compactExponent c ≤ 3 then c % 2 ^ 23 / 256 ^ (3 - compactExponent c) else c % 2 ^ 23

/-- The target `SetCompact` decodes, modulo `2 ^ 256`. -/
def compactTarget (c : Nat) : Nat :=
  if compactExponent c ≤ 3 then compactWord c
  else compactWord c * 256 ^ (compactExponent c - 3) % 2 ^ 256

/-- `*pfNegative`: a nonzero mantissa with the sign bit set. -/
def compactNegative (c : Nat) : Bool := decide (compactWord c ≠ 0) && c.testBit 23

/-- `*pfOverflow`: a nonzero mantissa whose bytes reach past the 32nd. -/
def compactOverflow (c : Nat) : Bool :=
  decide (compactWord c ≠ 0 ∧ (34 < compactExponent c ∨ (0xff < compactWord c ∧
    33 < compactExponent c) ∨ (0xffff < compactWord c ∧ 32 < compactExponent c)))

/-- The bytes a compact encoding keeps of `x`: three, or two when the top byte is at least
`0x80`. -/
def compactKept (x : Nat) : Nat := if 0x80 ≤ x / 256 ^ (byteLength x - 1) then 2 else 3

/-- `x` with every byte below the ones a compact encoding keeps cleared. -/
def compactRound (x : Nat) : Nat := truncDigits 256 (byteLength x - compactKept x) x

/-! ### Byte lengths -/

theorem lt_pow_byteLength (x : Nat) : x < 256 ^ byteLength x :=
  calc x < 2 ^ x.size := Nat.lt_size_self x
    _ ≤ 2 ^ (8 * byteLength x) := Nat.pow_le_pow_right (by omega) (by unfold byteLength; omega)
    _ = 256 ^ byteLength x := TbcNode.Encoding.two_pow_eight_mul _

theorem pow_pred_byteLength_le {x : Nat} (hx : 0 < x) : 256 ^ (byteLength x - 1) ≤ x := by
  have hsize : 0 < x.size := Nat.size_pos.mpr hx
  calc 256 ^ (byteLength x - 1) = 2 ^ (8 * (byteLength x - 1)) :=
        (TbcNode.Encoding.two_pow_eight_mul _).symm
    _ ≤ 2 ^ (x.size - 1) := Nat.pow_le_pow_right (by omega) (by unfold byteLength; omega)
    _ ≤ x := Nat.lt_size.mp (by omega)

theorem byteLength_le_of_lt {x k : Nat} (h : x < 256 ^ k) : byteLength x ≤ k := by
  have hsize : x.size ≤ 8 * k := Nat.size_le.mpr (by rwa [TbcNode.Encoding.two_pow_eight_mul])
  unfold byteLength
  omega

theorem byteLength_mono {x y : Nat} (h : x ≤ y) : byteLength x ≤ byteLength y := by
  have := Nat.size_le_size h
  unfold byteLength
  omega

theorem byteLength_pos {x : Nat} (hx : 0 < x) : 0 < byteLength x := by
  have := Nat.size_pos.mpr hx
  unfold byteLength
  omega

@[simp] theorem byteLength_zero : byteLength 0 = 0 := by simp [byteLength]

theorem byteLength_eq {x k : Nat} (hk : 0 < k) (h₁ : 256 ^ (k - 1) ≤ x) (h₂ : x < 256 ^ k) :
    byteLength x = k := by
  have hx : 0 < x := lt_of_lt_of_le (by positivity) h₁
  apply le_antisymm (byteLength_le_of_lt h₂)
  by_contra hlt
  have : x < 256 ^ (k - 1) :=
    lt_of_lt_of_le (lt_pow_byteLength x) (Nat.pow_le_pow_right (by omega) (by omega))
  omega

theorem byteLength_le_32 {x : Nat} (hx : x < 2 ^ 256) : byteLength x ≤ 32 :=
  byteLength_le_of_lt (by rwa [show (256 : Nat) ^ 32 = 2 ^ 256 by norm_num])

/-! ### The top bytes -/

theorem topBytes_eq (x : Nat) : topBytes x = x * 256 ^ 3 / 256 ^ byteLength x := by
  unfold topBytes
  split_ifs with h
  · rw [mul_pow_div_pow_of_le (by omega) x h]
  · rw [mul_pow_div_pow_of_ge (by omega) x (by omega)]

theorem topBytes_lt (x : Nat) : topBytes x < 2 ^ 24 := by
  rw [topBytes_eq, Nat.div_lt_iff_lt_mul (by positivity)]
  calc x * 256 ^ 3 < 256 ^ byteLength x * 256 ^ 3 :=
        Nat.mul_lt_mul_of_pos_right (lt_pow_byteLength x) (by positivity)
    _ = 2 ^ 24 * 256 ^ byteLength x := by rw [Nat.mul_comm]; norm_num

theorem topBytes_div {x : Nat} (hx : 0 < x) :
    topBytes x / 2 ^ 16 = x / 256 ^ (byteLength x - 1) := by
  have hn := byteLength_pos hx
  rw [topBytes_eq, Nat.div_div_eq_div_mul, show (2 : Nat) ^ 16 = 256 ^ 2 by norm_num,
    ← Nat.pow_add, mul_pow_div_pow_of_ge (by omega) x (by omega),
    show byteLength x + 2 - 3 = byteLength x - 1 by omega]

theorem two_pow_23_le_topBytes_iff (x : Nat) :
    2 ^ 23 ≤ topBytes x ↔ 0x80 ≤ x / 256 ^ (byteLength x - 1) := by
  rcases Nat.eq_zero_or_pos x with rfl | hx
  · simp [topBytes]
  · rw [← topBytes_div hx, Nat.le_div_iff_mul_le (by positivity)]
    norm_num

theorem compactKept_eq (x : Nat) : compactKept x = if 2 ^ 23 ≤ topBytes x then 2 else 3 :=
  if_congr (two_pow_23_le_topBytes_iff x).symm rfl rfl

theorem topBytes_div_256 (x : Nat) : topBytes x / 256 = x * 256 ^ 2 / 256 ^ byteLength x := by
  rw [topBytes_eq, Nat.div_div_eq_div_mul, show x * 256 ^ 3 = x * 256 ^ 2 * 256 by ring,
    Nat.mul_div_mul_right _ _ (by omega)]

/-! ### Decoding an encoding -/

theorem encodedMantissa_lt (x : Nat) : encodedMantissa x < 2 ^ 23 := by
  have := topBytes_lt x
  unfold encodedMantissa
  split_ifs <;> omega

theorem encodedSize_le {x : Nat} (hx : x < 2 ^ 256) : encodedSize x ≤ 33 := by
  have := byteLength_le_32 hx
  unfold encodedSize
  split_ifs <;> omega

theorem compactExponent_encodeCompact (x : Nat) :
    compactExponent (encodeCompact x) = encodedSize x := by
  have := encodedMantissa_lt x
  unfold compactExponent encodeCompact
  omega

theorem mod_encodeCompact (x : Nat) : encodeCompact x % 2 ^ 23 = encodedMantissa x := by
  have := encodedMantissa_lt x
  unfold encodeCompact
  omega

theorem encodeCompact_lt {x : Nat} (hx : x < 2 ^ 256) : encodeCompact x < 2 ^ 32 := by
  have := encodedMantissa_lt x
  have := encodedSize_le hx
  unfold encodeCompact
  omega

theorem compactWord_encodeCompact (x : Nat) :
    compactWord (encodeCompact x) = if encodedSize x ≤ 3 then
      encodedMantissa x / 256 ^ (3 - encodedSize x) else encodedMantissa x := by
  rw [compactWord, compactExponent_encodeCompact, mod_encodeCompact]

theorem compactTarget_encodeCompact {x : Nat} (hx : x < 2 ^ 256) :
    compactTarget (encodeCompact x) = compactRound x := by
  have hpos : (0 : Nat) < 256 := by omega
  have htrunc : ∀ k, truncDigits 256 k x < 2 ^ 256 := fun k =>
    lt_of_le_of_lt (truncDigits_le 256 k x) hx
  rw [compactTarget, compactWord_encodeCompact, compactExponent_encodeCompact, compactRound,
    compactKept_eq]
  by_cases hsign : 2 ^ 23 ≤ topBytes x
  · have hsize : encodedSize x = byteLength x + 1 := if_pos hsign
    have hmant : encodedMantissa x = x * 256 ^ 2 / 256 ^ byteLength x := by
      rw [encodedMantissa, if_pos hsign, topBytes_div_256]
    rw [hsize, hmant, if_pos hsign]
    by_cases hshort : byteLength x + 1 ≤ 3
    · rw [if_pos hshort, if_pos hshort, mul_pow_div_pow_of_le hpos x (by omega),
        show 3 - (byteLength x + 1) = 2 - byteLength x by omega,
        Nat.mul_div_cancel _ (by positivity), show byteLength x - 2 = 0 by omega,
        truncDigits_zero]
    · rw [if_neg hshort, if_neg hshort, mul_pow_div_pow_of_ge hpos x (by omega),
        show byteLength x + 1 - 3 = byteLength x - 2 by omega]
      exact Nat.mod_eq_of_lt (htrunc _)
  · have hsize : encodedSize x = byteLength x := if_neg hsign
    have hmant : encodedMantissa x = x * 256 ^ 3 / 256 ^ byteLength x := by
      rw [encodedMantissa, if_neg hsign, topBytes_eq]
    rw [hsize, hmant, if_neg hsign]
    by_cases hshort : byteLength x ≤ 3
    · rw [if_pos hshort, if_pos hshort, mul_pow_div_pow_of_le hpos x hshort,
        Nat.mul_div_cancel _ (by positivity), show byteLength x - 3 = 0 by omega,
        truncDigits_zero]
    · rw [if_neg hshort, if_neg hshort, mul_pow_div_pow_of_ge hpos x (by omega)]
      exact Nat.mod_eq_of_lt (htrunc _)

theorem compactNegative_encodeCompact (x : Nat) : compactNegative (encodeCompact x) = false := by
  have hm := encodedMantissa_lt x
  have hbit : (encodeCompact x).testBit 23 = false := by
    rw [encodeCompact, Nat.add_comm, Nat.testBit_two_pow_mul_add _ (by omega : encodedMantissa x < 2 ^ 24),
      if_pos (by omega)]
    exact Nat.testBit_lt_two_pow hm
  rw [compactNegative, hbit, Bool.and_false]

theorem compactOverflow_encodeCompact {x : Nat} (hx : x < 2 ^ 256) :
    compactOverflow (encodeCompact x) = false := by
  have hn := byteLength_le_32 hx
  have ht := topBytes_lt x
  have hword : compactWord (encodeCompact x) = encodedMantissa x ∨
      compactExponent (encodeCompact x) ≤ 3 := by
    unfold compactWord
    split_ifs with h
    · exact Or.inr h
    · exact Or.inl (mod_encodeCompact x)
  rw [compactOverflow, decide_eq_false_iff_not, compactExponent_encodeCompact]
  rw [compactExponent_encodeCompact] at hword
  unfold encodedSize encodedMantissa at *
  split_ifs at * with hsign <;> omega

/-! ### Rounding -/

theorem compactRound_le (x : Nat) : compactRound x ≤ x := truncDigits_le _ _ _

theorem two_le_compactKept (x : Nat) : 2 ≤ compactKept x := by
  unfold compactKept
  split_ifs <;> omega

theorem compactKept_le (x : Nat) : compactKept x ≤ 3 := by
  unfold compactKept
  split_ifs <;> omega

@[simp] theorem compactRound_zero : compactRound 0 = 0 := truncDigits_of_zero _ _

theorem byteLength_compactRound (x : Nat) : byteLength (compactRound x) = byteLength x := by
  rcases Nat.eq_zero_or_pos x with rfl | hx
  · rw [compactRound_zero]
  · have hn := byteLength_pos hx
    have hK := two_le_compactKept x
    apply byteLength_eq hn _ (lt_of_le_of_lt (compactRound_le x) (lt_pow_byteLength x))
    exact le_truncDigits (by omega) (Nat.pow_dvd_pow 256 (by omega)) (pow_pred_byteLength_le hx)

theorem compactKept_compactRound (x : Nat) : compactKept (compactRound x) = compactKept x := by
  have hK := two_le_compactKept x
  unfold compactKept
  rw [byteLength_compactRound, compactRound,
    truncDigits_div_pow_of_le (by omega) (by omega : byteLength x - compactKept x ≤ byteLength x - 1)]

theorem encodedMantissa_eq (x : Nat) :
    encodedMantissa x = x * 256 ^ compactKept x / 256 ^ byteLength x := by
  rw [encodedMantissa, compactKept_eq]
  split_ifs
  · exact topBytes_div_256 x
  · exact topBytes_eq x

theorem encodedSize_eq (x : Nat) : encodedSize x = byteLength x + 3 - compactKept x := by
  rw [encodedSize, compactKept_eq]
  split_ifs <;> omega

theorem encodeCompact_compactRound (x : Nat) : encodeCompact (compactRound x) = encodeCompact x := by
  have hpos : (0 : Nat) < 256 := by omega
  have hscale : compactRound x * 256 ^ compactKept x / 256 ^ byteLength x =
      x * 256 ^ compactKept x / 256 ^ byteLength x := by
    by_cases hshort : byteLength x ≤ compactKept x
    · rw [compactRound, show byteLength x - compactKept x = 0 by omega, truncDigits_zero]
    · rw [mul_pow_div_pow_of_ge hpos _ (by omega), mul_pow_div_pow_of_ge hpos _ (by omega),
        compactRound, truncDigits_div_pow_of_le hpos le_rfl]
  rw [encodeCompact, encodeCompact, encodedMantissa_eq, encodedMantissa_eq, encodedSize_eq,
    encodedSize_eq, byteLength_compactRound, compactKept_compactRound, hscale]

theorem compactRound_mono {x y : Nat} (hxy : x ≤ y) : compactRound x ≤ compactRound y := by
  have hpos : (0 : Nat) < 256 := by omega
  by_cases hk : byteLength y - compactKept y ≤ byteLength x - compactKept x
  · calc compactRound x ≤ truncDigits 256 (byteLength y - compactKept y) x :=
          truncDigits_anti hpos hk
      _ ≤ compactRound y := truncDigits_mono hpos hxy
  · suffices h : ∃ m, 256 ^ (byteLength y - compactKept y) ∣ m ∧ x ≤ m ∧ m ≤ y by
      obtain ⟨m, hm, hxm, hmy⟩ := h
      exact le_trans ((compactRound_le x).trans hxm) (le_truncDigits hpos hm hmy)
    have hKx := compactKept_le x
    have hKy := two_le_compactKept y
    have hlen := byteLength_mono hxy
    have hy : 0 < y := by
      rcases Nat.eq_zero_or_pos y with rfl | hy
      · simp at hk
      · exact hy
    by_cases hlt : byteLength x < byteLength y
    · refine ⟨256 ^ (byteLength y - 1), Nat.pow_dvd_pow 256 (by omega), ?_,
        pow_pred_byteLength_le hy⟩
      exact le_of_lt (lt_of_lt_of_le (lt_pow_byteLength x)
        (Nat.pow_le_pow_right hpos (by omega)))
    · have hn : byteLength x = byteLength y := by omega
      have hx3 : compactKept x = 3 := by omega
      have hy2 : compactKept y = 2 := by omega
      have htopx : x / 256 ^ (byteLength y - 1) < 0x80 := by
        rw [← hn]
        by_contra hge
        rw [compactKept, if_pos (by omega)] at hx3
        omega
      have htopy : 0x80 ≤ y / 256 ^ (byteLength y - 1) := by
        by_contra hlt'
        rw [compactKept, if_neg hlt'] at hy2
        omega
      refine ⟨0x80 * 256 ^ (byteLength y - 1),
        Dvd.dvd.mul_left (Nat.pow_dvd_pow 256 (by omega)) _, ?_, ?_⟩
      · exact le_of_lt ((Nat.div_lt_iff_lt_mul (by positivity)).mp htopx)
      · exact (Nat.le_div_iff_mul_le (by positivity)).mp htopy

theorem compactWord_lt (c : Nat) : compactWord c < 2 ^ 23 := by
  have : c % 2 ^ 23 < 2 ^ 23 := Nat.mod_lt _ (by positivity)
  unfold compactWord
  split_ifs
  · exact lt_of_le_of_lt (Nat.div_le_self _ _) this
  · exact this

theorem compactWord_mul_add_one_lt {c : Nat} (hovf : compactOverflow c = false) :
    compactWord c * 256 ^ (compactExponent c - 3) + 1 < 2 ^ 256 := by
  have hpos : (0 : Nat) < 256 := by omega
  have hw := compactWord_lt c
  rw [compactOverflow, decide_eq_false_iff_not] at hovf
  rcases Nat.eq_zero_or_pos (compactWord c) with hzero | hnz
  · rw [hzero, Nat.zero_mul]
    norm_num
  · rcases (by omega : compactExponent c ≤ 32 ∨ compactExponent c = 33 ∨
        compactExponent c = 34) with he | he | he
    · have hlt : compactWord c * 256 ^ (compactExponent c - 3) < 2 ^ 23 * 256 ^ 29 :=
        Nat.mul_lt_mul_of_lt_of_le hw (Nat.pow_le_pow_right hpos (by omega)) (by positivity)
      have hb : (2 : Nat) ^ 23 * 256 ^ 29 = 2 ^ 255 := by norm_num
      omega
    · rw [he]
      have hle : compactWord c * 256 ^ (33 - 3) ≤ 0xffff * 256 ^ 30 :=
        Nat.mul_le_mul_right _ (by omega)
      have hb : (0xffff : Nat) * 256 ^ 30 + 1 < 2 ^ 256 := by norm_num
      exact lt_of_le_of_lt (Nat.add_le_add_right hle 1) hb
    · rw [he]
      have hle : compactWord c * 256 ^ (34 - 3) ≤ 0xff * 256 ^ 31 :=
        Nat.mul_le_mul_right _ (by omega)
      have hb : (0xff : Nat) * 256 ^ 31 + 1 < 2 ^ 256 := by norm_num
      exact lt_of_le_of_lt (Nat.add_le_add_right hle 1) hb

theorem compactTarget_add_one_lt {c : Nat} (hovf : compactOverflow c = false) :
    compactTarget c + 1 < 2 ^ 256 := by
  unfold compactTarget
  split_ifs
  · have := compactWord_lt c
    omega
  · have := compactWord_mul_add_one_lt hovf
    have := Nat.mod_le (compactWord c * 256 ^ (compactExponent c - 3)) (2 ^ 256)
    omega

theorem compactRound_compactTarget {c : Nat} (hovf : compactOverflow c = false) :
    compactRound (compactTarget c) = compactTarget c := by
  have hpos : (0 : Nat) < 256 := by omega
  have hw := compactWord_lt c
  have hfit := compactWord_mul_add_one_lt hovf
  rw [compactOverflow, decide_eq_false_iff_not] at hovf
  rcases Nat.eq_zero_or_pos (compactWord c) with hzero | hnz
  · have : compactTarget c = 0 := by
      unfold compactTarget
      split_ifs <;> simp [hzero]
    rw [this, compactRound_zero]
  · have hkept : ∀ {T e : Nat}, T = compactWord c * 256 ^ (e - 3) → 3 ≤ e →
        byteLength T - compactKept T ≤ e - 3 := by
      intro T e hT he
      have hTpos : 0 < T := by rw [hT]; positivity
      have hTlt : T < 256 ^ e := by
        calc T < 2 ^ 23 * 256 ^ (e - 3) := by rw [hT]; exact Nat.mul_lt_mul_of_pos_right hw (by positivity)
          _ ≤ 256 ^ 3 * 256 ^ (e - 3) := Nat.mul_le_mul_right _ (by norm_num)
          _ = 256 ^ e := by rw [← Nat.pow_add]; congr 1; omega
      have hlen := byteLength_le_of_lt hTlt
      have hK := two_le_compactKept T
      by_cases hfull : byteLength T = e
      · have htop : T / 256 ^ (byteLength T - 1) < 0x80 := by
          rw [hfull, hT, show e - 1 = (e - 3) + 2 by omega, Nat.pow_add, Nat.mul_comm (256 ^ (e - 3)),
            Nat.mul_div_mul_right _ _ (by positivity), Nat.div_lt_iff_lt_mul (by positivity)]
          omega
        have : compactKept T = 3 := by
          rw [compactKept, if_neg (by omega)]
        omega
      · omega
    unfold compactTarget
    split_ifs with hsmall
    · have h := hkept (e := 3) (by rw [Nat.sub_self, Nat.pow_zero, Nat.mul_one]) le_rfl
      rw [compactRound, show byteLength (compactWord c) - compactKept (compactWord c) = 0 by omega,
        truncDigits_zero]
    · rw [Nat.mod_eq_of_lt (by omega), compactRound]
      apply truncDigits_of_dvd
      exact (Nat.pow_dvd_pow 256 (hkept rfl (by omega))).trans (Nat.dvd_mul_left _ _)

/-! ## `SetCompact` and `GetCompact` -/

/-- `arith_uint256`, the 256-bit `base_uint`. -/
abbrev ArithUint256 := BaseUint 256

open BaseUint

/-- `nWord` as `SetCompact` leaves it: `nCompact & 0x007fffff`, shifted down by
`8 * (3 - nSize)` when `nSize <= 3`. -/
def setCompactWord (nCompact : UInt32) : UInt32 :=
  let nSize := (nCompact >>> 24).toNat
  let nWord := nCompact &&& 0x007fffff
  if nSize ≤ 3 then nWord >>> UInt32.ofNat (8 * (3 - nSize)) else nWord

/-- `SetCompact(nCompact, pfNegative, pfOverflow)`: the target, and the flags it writes through
`pfNegative` and `pfOverflow`. -/
def setCompact (nCompact : UInt32) : ArithUint256 × Bool × Bool :=
  let nSize := (nCompact >>> 24).toNat
  let nWord := setCompactWord nCompact
  ((if nSize ≤ 3 then ofUInt64 nWord.toUInt64
      else shiftLeft (ofUInt64 nWord.toUInt64) (8 * (nSize - 3))),
    decide (nWord ≠ 0) && decide (nCompact &&& 0x00800000 ≠ 0),
    decide (nWord ≠ 0) && (decide (nSize > 34) || decide (nWord > 0xff) && decide (nSize > 33) ||
      decide (nWord > 0xffff) && decide (nSize > 32)))

/-- The mantissa and size `GetCompact` settles on before packing them: the three top bytes, moved
down a byte when their `0x00800000` bit is set. -/
def getCompactParts (a : ArithUint256) : UInt32 × Nat :=
  let nSize := (bits a + 7) / 8
  let nCompact : UInt32 :=
    if nSize ≤ 3 then (getLow64 a <<< UInt64.ofNat (8 * (3 - nSize))).toUInt32
    else (getLow64 (shiftRight a (8 * (nSize - 3)))).toUInt32
  if nCompact &&& 0x00800000 ≠ 0 then (nCompact >>> 8, nSize + 1) else (nCompact, nSize)

/-- `GetCompact(fNegative)`, with a failed `assert` as an error. -/
def getCompact (a : ArithUint256) (fNegative : Bool) : Except String UInt32 :=
  let nCompact := (getCompactParts a).1
  let nSize := (getCompactParts a).2
  if nCompact &&& ~~~0x007fffff ≠ 0 then .error "(nCompact & ~0x007fffff) == 0"
  else if ¬nSize < 256 then .error "nSize < 256"
  else
    let nCompact := nCompact ||| UInt32.ofNat nSize <<< 24
    .ok (nCompact ||| (if fNegative && decide (nCompact &&& 0x007fffff ≠ 0) then 0x00800000 else 0))

/-! ### The code computes the format -/

theorem toNat_nSize (c : UInt32) : (c >>> 24).toNat = compactExponent c.toNat := by
  rw [UInt32.toNat_shiftRight, Nat.shiftRight_eq_div_pow]
  rfl

theorem toNat_low_23 (c : UInt32) : (c &&& 0x007fffff).toNat = c.toNat % 2 ^ 23 := by
  have hmask : (0x007fffff : UInt32).toNat = 2 ^ 23 - 1 := rfl
  rw [UInt32.toNat_and, hmask, Nat.and_two_pow_sub_one_eq_mod]

theorem toNat_shiftRight_bytes (w : UInt32) {k : Nat} (hk : k ≤ 3) :
    (w >>> UInt32.ofNat (8 * k)).toNat = w.toNat / 256 ^ k := by
  have hshift : (UInt32.ofNat (8 * k)).toNat % 32 = 8 * k := by
    rw [UInt32.toNat_ofNat']
    omega
  rw [UInt32.toNat_shiftRight, hshift, Nat.shiftRight_eq_div_pow, TbcNode.Encoding.two_pow_eight_mul]

theorem toNat_setCompactWord (c : UInt32) : (setCompactWord c).toNat = compactWord c.toNat := by
  unfold setCompactWord compactWord
  dsimp only
  rw [toNat_nSize]
  split_ifs with h
  · rw [toNat_shiftRight_bytes _ (by omega), toNat_low_23]
  · rw [toNat_low_23]

theorem value_ofUInt64_word (w : UInt32) : (ofUInt64 w.toUInt64 : ArithUint256).value = w.toNat := by
  rw [value_ofUInt64 _ (by decide), UInt32.toNat_toUInt64]

theorem setCompact_value (c : UInt32) : (setCompact c).1.value = compactTarget c.toNat := by
  unfold setCompact compactTarget
  dsimp only
  rw [toNat_nSize]
  split_ifs with h
  · rw [value_ofUInt64_word, toNat_setCompactWord]
  · rw [value_shiftLeft, value_ofUInt64_word, toNat_setCompactWord,
      TbcNode.Encoding.two_pow_eight_mul]

theorem setCompact_flags (c : UInt32) :
    (setCompact c).2 = (compactNegative c.toNat, compactOverflow c.toNat) := by
  have hsign : (0x00800000 : UInt32) = 1 <<< UInt32.ofNat 23 := by decide
  have hword : setCompactWord c ≠ 0 ↔ compactWord c.toNat ≠ 0 := by
    rw [Ne, Ne, ← UInt32.toNat_inj, UInt32.toNat_zero, toNat_setCompactWord]
  have h255 : (0xff : UInt32).toNat = 255 := rfl
  have h65535 : (0xffff : UInt32).toNat = 65535 := rfl
  unfold setCompact compactNegative compactOverflow
  dsimp only
  rw [hsign, toNat_nSize]
  congr 1
  · rw [Bool.eq_iff_iff]
    simp only [Bool.and_eq_true, decide_eq_true_eq, hword,
      and_one_shiftLeft_ne_zero_iff c (by omega : 23 < 32)]
  · rw [Bool.eq_iff_iff]
    simp only [Bool.and_eq_true, Bool.or_eq_true, decide_eq_true_eq, hword, toNat_setCompactWord,
      gt_iff_lt, UInt32.lt_iff_toNat_lt, h255, h65535, or_assoc]

theorem testBit_23_iff {t : Nat} (ht : t < 2 ^ 24) : t.testBit 23 = true ↔ 2 ^ 23 ≤ t := by
  rw [Nat.testBit_eq_decide_div_mod_eq, decide_eq_true_eq]
  omega

theorem getCompactParts_eq (a : ArithUint256) :
    (getCompactParts a).1.toNat = encodedMantissa a.value ∧
      (getCompactParts a).2 = encodedSize a.value := by
  have hlen : (bits a + 7) / 8 = byteLength a.value := by rw [bits_eq]; rfl
  have hx := lt_pow_byteLength a.value
  have h24 : (2 : Nat) ^ 24 = 256 ^ 3 := by norm_num
  have htop : (if byteLength a.value ≤ 3 then
      (getLow64 a <<< UInt64.ofNat (8 * (3 - byteLength a.value))).toUInt32
      else (getLow64 (shiftRight a (8 * (byteLength a.value - 3)))).toUInt32).toNat =
        topBytes a.value := by
    unfold topBytes
    split_ifs with h
    · have hsmall : a.value < 2 ^ 24 :=
        lt_of_lt_of_le hx (h24 ▸ Nat.pow_le_pow_right (by omega) h)
      have hscaled : a.value * 256 ^ (3 - byteLength a.value) < 2 ^ 24 := by
        have hexp : byteLength a.value + (3 - byteLength a.value) = 3 := by omega
        calc a.value * 256 ^ (3 - byteLength a.value)
            < 256 ^ byteLength a.value * 256 ^ (3 - byteLength a.value) :=
              Nat.mul_lt_mul_of_pos_right hx (by positivity)
          _ = 2 ^ 24 := by rw [← Nat.pow_add, hexp, h24]
      have hshift : (UInt64.ofNat (8 * (3 - byteLength a.value))).toNat % 64 =
          8 * (3 - byteLength a.value) := by
        rw [UInt64.toNat_ofNat']
        omega
      have hlow : a.value % 2 ^ 64 = a.value := Nat.mod_eq_of_lt (by omega)
      rw [UInt64.toNat_toUInt32, UInt64.toNat_shiftLeft, hshift, toNat_getLow64 _ (by decide),
        hlow, Nat.shiftLeft_eq, TbcNode.Encoding.two_pow_eight_mul,
        Nat.mod_eq_of_lt (show a.value * 256 ^ (3 - byteLength a.value) < 2 ^ 64 by omega),
        Nat.mod_eq_of_lt (show a.value * 256 ^ (3 - byteLength a.value) < 2 ^ 32 by omega)]
    · have hquot : a.value / 256 ^ (byteLength a.value - 3) < 2 ^ 24 := by
        rw [Nat.div_lt_iff_lt_mul (by positivity)]
        calc a.value < 256 ^ byteLength a.value := hx
          _ = 2 ^ 24 * 256 ^ (byteLength a.value - 3) := by
              rw [h24, ← Nat.pow_add]; congr 1; omega
      rw [UInt64.toNat_toUInt32, toNat_getLow64 _ (by decide), value_shiftRight,
        TbcNode.Encoding.two_pow_eight_mul,
        Nat.mod_eq_of_lt (show a.value / 256 ^ (byteLength a.value - 3) < 2 ^ 64 by omega),
        Nat.mod_eq_of_lt (show a.value / 256 ^ (byteLength a.value - 3) < 2 ^ 32 by omega)]
  have hsign : (0x00800000 : UInt32) = 1 <<< UInt32.ofNat 23 := by decide
  unfold getCompactParts encodedMantissa encodedSize
  dsimp only
  rw [hlen, hsign]
  by_cases hbit : 2 ^ 23 ≤ topBytes a.value
  · rw [if_pos ((and_one_shiftLeft_ne_zero_iff _ (by omega)).mpr
      (by rw [htop]; exact (testBit_23_iff (topBytes_lt _)).mpr hbit)), if_pos hbit, if_pos hbit]
    refine ⟨?_, rfl⟩
    have h8 : (8 : UInt32).toNat % 32 = 8 := rfl
    rw [UInt32.toNat_shiftRight, htop, h8, Nat.shiftRight_eq_div_pow]
  · rw [if_neg (fun h => hbit ((testBit_23_iff (topBytes_lt _)).mp
      (by rw [← htop]; exact (and_one_shiftLeft_ne_zero_iff _ (by omega)).mp h))),
      if_neg hbit, if_neg hbit]
    exact ⟨htop, rfl⟩

theorem and_not_low_23_eq_zero (m : UInt32) (hm : m.toNat < 2 ^ 23) : m &&& ~~~0x007fffff = 0 := by
  apply UInt32.toNat_inj.mp
  have hmask : (~~~(0x007fffff : UInt32)).toNat = 2 ^ 23 * 511 + 0 := rfl
  rw [UInt32.toNat_and, UInt32.toNat_zero, hmask]
  apply Nat.eq_of_testBit_eq
  intro i
  rw [Nat.testBit_and, Nat.testBit_two_pow_mul_add _ (by norm_num : 0 < 2 ^ 23), Nat.zero_testBit]
  split_ifs with hi
  · rw [Bool.and_false]
  · rw [Nat.testBit_lt_two_pow (lt_of_lt_of_le hm (Nat.pow_le_pow_right (by omega) (by omega))),
      Bool.false_and]

theorem getCompact_eq (a : ArithUint256) :
    getCompact a false = .ok (UInt32.ofNat (encodeCompact a.value)) := by
  obtain ⟨hm, hs⟩ := getCompactParts_eq a
  have hmlt := encodedMantissa_lt a.value
  have hslt := encodedSize_le a.value_lt
  have hlt := encodeCompact_lt a.value_lt
  unfold getCompact
  dsimp only
  rw [if_neg (not_not.mpr (and_not_low_23_eq_zero _ (by rw [hm]; exact hmlt))),
    if_neg (not_not.mpr (by rw [hs]; omega)), Bool.false_and, if_neg Bool.false_ne_true,
    UInt32.or_zero]
  congr 1
  apply UInt32.toNat_inj.mp
  have hsize : (UInt32.ofNat (getCompactParts a).2 <<< 24).toNat = 2 ^ 24 * encodedSize a.value := by
    have h24 : (24 : UInt32).toNat % 32 = 24 := rfl
    have hsz : (UInt32.ofNat (getCompactParts a).2).toNat = encodedSize a.value := by
      rw [UInt32.toNat_ofNat', hs]
      exact Nat.mod_eq_of_lt (by omega)
    rw [UInt32.toNat_shiftLeft, hsz, h24, Nat.shiftLeft_eq, Nat.mul_comm]
    exact Nat.mod_eq_of_lt (by omega)
  rw [UInt32.toNat_or, hsize, hm, Nat.lor_comm, ← Nat.two_pow_add_eq_or_of_lt (by omega),
    UInt32.toNat_ofNat', Nat.mod_eq_of_lt hlt, encodeCompact, Nat.add_comm]

theorem setCompact_getCompact (a : ArithUint256) :
    (setCompact (UInt32.ofNat (encodeCompact a.value))).1.value = compactRound a.value ∧
      (setCompact (UInt32.ofNat (encodeCompact a.value))).2 = (false, false) := by
  have hc : (UInt32.ofNat (encodeCompact a.value)).toNat = encodeCompact a.value := by
    rw [UInt32.toNat_ofNat']
    exact Nat.mod_eq_of_lt (encodeCompact_lt a.value_lt)
  rw [setCompact_value, setCompact_flags, hc, compactTarget_encodeCompact a.value_lt,
    compactNegative_encodeCompact, compactOverflow_encodeCompact a.value_lt]
  exact ⟨rfl, rfl⟩

theorem eq_of_getCompact {a : ArithUint256} {c : UInt32} (h : getCompact a false = .ok c) :
    c = UInt32.ofNat (encodeCompact a.value) := by
  rw [getCompact_eq] at h
  exact (Except.ok.inj h).symm

/-! ## Round trips through the compact format -/

/-- `SetCompact(GetCompact(x))` is `x` with every byte below its three top bytes (two when the top
byte is at least `0x80`) cleared, with both flags clear; hence it is at most `x`, `GetCompact`
writes the same compact value again for it, and it is monotone in `x`. A compact value that
decodes with both flags clear is written back by `GetCompact` as one that decodes to the same
target. -/
theorem compact_target_round_trip :
    (∀ a : ArithUint256, ∃ c, getCompact a false = .ok c ∧
        (setCompact c).1.value = compactRound a.value ∧ (setCompact c).2 = (false, false)) ∧
      (∀ (a : ArithUint256) (c : UInt32), getCompact a false = .ok c →
        (setCompact c).1.value ≤ a.value) ∧
      (∀ (a : ArithUint256) (c : UInt32), getCompact a false = .ok c →
        getCompact (setCompact c).1 false = .ok c) ∧
      (∀ (a b : ArithUint256) (c d : UInt32), a.value ≤ b.value → getCompact a false = .ok c →
        getCompact b false = .ok d → (setCompact c).1.value ≤ (setCompact d).1.value) ∧
      (∀ nCompact : UInt32, (setCompact nCompact).2 = (false, false) →
        ∃ c, getCompact (setCompact nCompact).1 false = .ok c ∧
          (setCompact c).1 = (setCompact nCompact).1) := by
  refine ⟨fun a => ⟨_, getCompact_eq a, setCompact_getCompact a⟩, ?_, ?_, ?_, ?_⟩
  · intro a c hc
    rw [eq_of_getCompact hc, (setCompact_getCompact a).1]
    exact compactRound_le _
  · intro a c hc
    rw [eq_of_getCompact hc, getCompact_eq, (setCompact_getCompact a).1,
      encodeCompact_compactRound]
  · intro a b c d hab hc hd
    rw [eq_of_getCompact hc, eq_of_getCompact hd, (setCompact_getCompact a).1,
      (setCompact_getCompact b).1]
    exact compactRound_mono hab
  · intro nCompact hflags
    have hovf : compactOverflow nCompact.toNat = false := by
      rw [setCompact_flags] at hflags
      exact (Prod.mk.inj hflags).2
    refine ⟨_, getCompact_eq _, ext_value ?_⟩
    rw [(setCompact_getCompact _).1, setCompact_value, compactRound_compactTarget hovf]

end TbcNode.Arith
