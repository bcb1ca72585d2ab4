import TbcNode.Script.Interpreter.Runs
import TbcNode.Encoding.Bits

/-! # `OP_LSHIFT` and `OP_RSHIFT`

`LShift` and `RShift` are the shifts of the big-endian value at the width of the input
(`rshift_eq_shiftRightBE`, `lshift_eq_shiftLeftBE`), so the opcodes' loop, which shifts by
`INT32_MAX` at a time, is one shift by the whole number (`run_shiftLoop`).
-/

namespace TbcNode.Script.Interpreter

open TbcNode.Logic TbcNode.Primitives TbcNode.Encoding

theorem testBit_rshiftMask : ∀ b, b < 8 → ∀ j, j < 8 →
    (rshiftMask b).toNat.testBit j = decide (b ≤ j) := by
  decide

theorem testBit_not_rshiftMask : ∀ b, b < 8 → ∀ j, j < 8 →
    (~~~rshiftMask b).toNat.testBit j = decide (j < b) := by
  decide

theorem testBit_lshiftMask : ∀ b, b < 8 → ∀ j, j < 8 →
    (lshiftMask b).toNat.testBit j = decide (j + b < 8) := by
  decide

theorem testBit_not_lshiftMask : ∀ b, b < 8 → ∀ j, j < 8 →
    (~~~lshiftMask b).toNat.testBit j = decide (8 ≤ j + b) := by
  decide

/-- Bit `j` of byte `p` of `RShift(x, n)`: the bit `n % 8` places up in the byte `n / 8` places
before, or, past the top of that byte, in the byte before it. -/
theorem testBit_getD_rshift (x : valtype) (n p j : Nat) (hj : j < 8) :
    ((rshift x n).getD p 0).toNat.testBit j =
      ((decide (n / 8 ≤ p ∧ p < x.length) &&
          (decide (j + n % 8 < 8) && (x.getD (p - n / 8) 0).toNat.testBit (j + n % 8))) ||
        (decide (n / 8 + 1 ≤ p ∧ p < x.length) &&
          (decide (8 ≤ j + n % 8) && (x.getD (p - (n / 8 + 1)) 0).toNat.testBit (j + n % 8 - 8)))) := by
  have hb : n % 8 < 8 := Nat.mod_lt _ (by omega)
  unfold rshift
  refine (testBit_foldl_of_or x.length _ (fun i p j =>
    (decide (p = i + n / 8 ∧ i + n / 8 < x.length) &&
      (decide (j + n % 8 < 8) && (x.getD i 0).toNat.testBit (j + n % 8))) ||
    (decide (p = i + (n / 8 + 1) ∧ i + (n / 8 + 1) < x.length) &&
      (decide (j < 8 ∧ 8 ≤ j + n % 8) && (x.getD i 0).toNat.testBit (j + n % 8 - 8)))) ?_ ?_ _ _
    (List.length_replicate) p j).trans ?_
  · intro acc i hacc
    dsimp only
    split_ifs <;> simp [hacc]
  · intro acc i p j hacc
    have hv : (UInt8.ofNat ((x.getD i 0 &&& rshiftMask (n % 8)).toNat >>> (n % 8))).toNat.testBit j =
        (decide (j + n % 8 < 8) && (x.getD i 0).toNat.testBit (j + n % 8)) := by
      rw [testBit_ofNat_shiftRight, testBit_toNat_and, Nat.add_comm (n % 8)]
      by_cases h : j + n % 8 < 8
      · rw [testBit_rshiftMask _ hb _ h]
        simp [h]
      · rw [testBit_toNat_of_le _ (by omega)]
        simp [h]
    have hc : (UInt8.ofNat ((x.getD i 0 &&& ~~~rshiftMask (n % 8)).toNat <<< (8 - n % 8))).toNat.testBit j =
        (decide (j < 8 ∧ 8 ≤ j + n % 8) && (x.getD i 0).toNat.testBit (j + n % 8 - 8)) := by
      rw [testBit_ofNat_shiftLeft]
      by_cases h : j < 8 ∧ 8 ≤ j + n % 8
      · rw [decide_eq_true h.1, decide_eq_true (by omega : 8 - n % 8 ≤ j), decide_eq_true h,
          show j - (8 - n % 8) = j + n % 8 - 8 by omega, testBit_toNat_and,
          testBit_not_rshiftMask _ hb _ (by omega), decide_eq_true (by omega : j + n % 8 - 8 < n % 8)]
        simp
      · have h' : (decide (j < 8) && decide (8 - n % 8 ≤ j)) = false := by
          simp only [Bool.and_eq_false_iff, decide_eq_false_iff_not]
          omega
        rw [h', Bool.false_and, decide_eq_false h, Bool.false_and]
    dsimp only
    split_ifs with h₁ h₂ h₂
    · rw [testBit_getD_modify_or, testBit_getD_modify_or, List.length_modify, hacc, hv, hc,
        Bool.or_assoc, Nat.add_assoc]
    · exact absurd (by omega) h₂
    · rw [testBit_getD_modify_or, hacc, hv,
        decide_eq_false (fun h => h₁ (by omega) : ¬ (p = i + (n / 8 + 1) ∧ i + (n / 8 + 1) < x.length)),
        Bool.false_and, Bool.or_false]
    · rw [decide_eq_false (fun h => h₂ h.2 : ¬ (p = i + n / 8 ∧ i + n / 8 < x.length)),
        decide_eq_false (fun h => h₁ (by omega) : ¬ (p = i + (n / 8 + 1) ∧ i + (n / 8 + 1) < x.length))]
      simp
  · rw [testBit_getD_replicate_zero, Bool.false_or, any_or, any_range_add, any_range_add]
    simp only [hj, true_and]

/-- Bit `j` of byte `p` of `LShift(x, n)`: the bit `n % 8` places down in the byte `n / 8`
places after, or, below the bottom of that byte, in the byte after it. -/
theorem testBit_getD_lshift (x : valtype) (n p j : Nat) (hj : j < 8) :
    ((lshift x n).getD p 0).toNat.testBit j =
      ((decide (p + n / 8 < x.length) &&
          (decide (n % 8 ≤ j) && (x.getD (p + n / 8) 0).toNat.testBit (j - n % 8))) ||
        (decide (p + (n / 8 + 1) < x.length) &&
          (decide (j < n % 8) && (x.getD (p + (n / 8 + 1)) 0).toNat.testBit (j + 8 - n % 8)))) := by
  have hb : n % 8 < 8 := Nat.mod_lt _ (by omega)
  unfold lshift
  refine (testBit_foldl_of_or x.length _ (fun i p j =>
    (decide (n / 8 ≤ i ∧ p = i - n / 8 ∧ i - n / 8 < x.length) &&
      (decide (j < 8 ∧ n % 8 ≤ j) && (x.getD i 0).toNat.testBit (j - n % 8))) ||
    (decide (n / 8 + 1 ≤ i ∧ p = i - (n / 8 + 1) ∧ i - (n / 8 + 1) < x.length) &&
      (decide (j < n % 8) && (x.getD i 0).toNat.testBit (j + 8 - n % 8)))) ?_ ?_ _ _
    (List.length_replicate) p j).trans ?_
  · intro acc i hacc
    dsimp only
    split_ifs <;> simp [hacc]
  · intro acc i p j hacc
    have hv : (UInt8.ofNat ((x.getD i 0 &&& lshiftMask (n % 8)).toNat <<< (n % 8))).toNat.testBit j =
        (decide (j < 8 ∧ n % 8 ≤ j) && (x.getD i 0).toNat.testBit (j - n % 8)) := by
      rw [testBit_ofNat_shiftLeft]
      by_cases h : j < 8 ∧ n % 8 ≤ j
      · rw [decide_eq_true h.1, decide_eq_true h.2, decide_eq_true h, testBit_toNat_and,
          testBit_lshiftMask _ hb _ (by omega), decide_eq_true (by omega : j - n % 8 + n % 8 < 8)]
        simp
      · have h' : (decide (j < 8) && decide (n % 8 ≤ j)) = false := by
          simp only [Bool.and_eq_false_iff, decide_eq_false_iff_not]
          omega
        rw [h', Bool.false_and, decide_eq_false h, Bool.false_and]
    have hc : (UInt8.ofNat ((x.getD i 0 &&& ~~~lshiftMask (n % 8)).toNat >>> (8 - n % 8))).toNat.testBit j =
        (decide (j < n % 8) && (x.getD i 0).toNat.testBit (j + 8 - n % 8)) := by
      rw [testBit_ofNat_shiftRight, testBit_toNat_and, show 8 - n % 8 + j = j + 8 - n % 8 by omega]
      by_cases h : j < n % 8
      · rw [testBit_not_lshiftMask _ hb _ (by omega), decide_eq_true (by omega : 8 ≤ j + 8 - n % 8 + n % 8),
          decide_eq_true h]
        simp
      · rw [testBit_toNat_of_le _ (by omega), decide_eq_false h]
        simp
    dsimp only
    split_ifs with h₁ h₂
    · have e₁ : decide (p = i - n / 8 ∧ i - n / 8 < acc.length) =
          decide (n / 8 ≤ i ∧ p = i - n / 8 ∧ i - n / 8 < x.length) :=
        decide_eq_decide.mpr (by omega)
      have e₂ : decide (p = i - n / 8 - 1 ∧ i - n / 8 - 1 < acc.length) =
          decide (n / 8 + 1 ≤ i ∧ p = i - (n / 8 + 1) ∧ i - (n / 8 + 1) < x.length) :=
        decide_eq_decide.mpr (by omega)
      rw [testBit_getD_modify_or, testBit_getD_modify_or, List.length_modify, e₁, e₂, hv, hc,
        Bool.or_assoc]
    · have e₁ : decide (p = i - n / 8 ∧ i - n / 8 < acc.length) =
          decide (n / 8 ≤ i ∧ p = i - n / 8 ∧ i - n / 8 < x.length) :=
        decide_eq_decide.mpr (by omega)
      rw [testBit_getD_modify_or, e₁, hv,
        decide_eq_false (by omega : ¬ (n / 8 + 1 ≤ i ∧ p = i - (n / 8 + 1) ∧ i - (n / 8 + 1) < x.length)),
        Bool.false_and, Bool.or_false]
    · rw [decide_eq_false (by omega : ¬ (n / 8 ≤ i ∧ p = i - n / 8 ∧ i - n / 8 < x.length)),
        decide_eq_false (by omega : ¬ (n / 8 + 1 ≤ i ∧ p = i - (n / 8 + 1) ∧ i - (n / 8 + 1) < x.length))]
      simp
  · rw [testBit_getD_replicate_zero, Bool.false_or, List.any_reverse, any_or, any_range_sub, any_range_sub]
    simp only [hj, true_and]

/-- `RShift` is the shift right of the big-endian string by `n` bits. -/
theorem rshift_eq_shiftRightBE (x : valtype) (n : Nat) : rshift x n = shiftRightBE x n := by
  apply eq_of_readBE_eq (by rw [length_rshift, length_shiftRightBE])
  rw [readBE_shiftRightBE]
  apply Nat.eq_of_testBit_eq
  intro J
  rw [testBit_readBE, Nat.testBit_div_two_pow, testBit_readBE, length_rshift,
    testBit_getD_rshift _ _ _ _ (Nat.mod_lt _ (by omega))]
  by_cases hc : J % 8 + n % 8 < 8
  · have h₁ : (J + n) / 8 = J / 8 + n / 8 := by omega
    have h₂ : (J + n) % 8 = J % 8 + n % 8 := by omega
    rw [h₁, h₂, show x.length - 1 - J / 8 - n / 8 = x.length - 1 - (J / 8 + n / 8) by omega]
    by_cases hq : J / 8 + n / 8 < x.length
    · simp [hq, hc, show J / 8 < x.length by omega, show n / 8 ≤ x.length - 1 - J / 8 by omega,
        show x.length - 1 - J / 8 < x.length by omega]
    · simp [hq, hc]
      omega
  · have h₁ : (J + n) / 8 = J / 8 + (n / 8 + 1) := by omega
    have h₂ : (J + n) % 8 = J % 8 + n % 8 - 8 := by omega
    rw [h₁, h₂, show x.length - 1 - J / 8 - (n / 8 + 1) = x.length - 1 - (J / 8 + (n / 8 + 1)) by omega]
    by_cases hq : J / 8 + (n / 8 + 1) < x.length
    · simp [hq, hc, show J / 8 < x.length by omega,
        show n / 8 + 1 ≤ x.length - 1 - J / 8 by omega, show x.length - 1 - J / 8 < x.length by omega]
      omega
    · simp [hq, hc]
      omega

/-- `LShift` is the shift left of the big-endian string by `n` bits. -/
theorem lshift_eq_shiftLeftBE (x : valtype) (n : Nat) : lshift x n = shiftLeftBE x n := by
  apply eq_of_readBE_eq (by rw [length_lshift, length_shiftLeftBE])
  rw [readBE_shiftLeftBE]
  apply Nat.eq_of_testBit_eq
  intro J
  rw [testBit_readBE, Nat.testBit_mod_two_pow, ← Nat.shiftLeft_eq, Nat.testBit_shiftLeft,
    testBit_readBE, length_lshift, testBit_getD_lshift _ _ _ _ (Nat.mod_lt _ (by omega))]
  by_cases hJ : n ≤ J
  · by_cases hc : n % 8 ≤ J % 8
    · have h₁ : (J - n) / 8 = J / 8 - n / 8 := by omega
      have h₂ : (J - n) % 8 = J % 8 - n % 8 := by omega
      rw [h₁, h₂]
      by_cases hq : J / 8 < x.length
      · simp [hq, hc, hJ, show J < 8 * x.length by omega, show ¬ J % 8 < n % 8 by omega,
          show x.length - 1 - J / 8 + n / 8 < x.length by omega,
          show J / 8 - n / 8 < x.length by omega,
          show x.length - 1 - (J / 8 - n / 8) = x.length - 1 - J / 8 + n / 8 by omega]
      · simp [hq]
        omega
    · have h₁ : (J - n) / 8 = J / 8 - (n / 8 + 1) := by omega
      have h₂ : (J - n) % 8 = J % 8 + 8 - n % 8 := by omega
      rw [h₁, h₂]
      by_cases hq : J / 8 < x.length
      · simp [hq, hc, hJ, show J < 8 * x.length by omega, show J % 8 < n % 8 by omega,
          show x.length - 1 - J / 8 + (n / 8 + 1) < x.length by omega,
          show J / 8 - (n / 8 + 1) < x.length by omega,
          show x.length - 1 - (J / 8 - (n / 8 + 1)) = x.length - 1 - J / 8 + (n / 8 + 1) by omega]
      · simp [hq]
        omega
  · have e₁ : (decide (x.length - 1 - J / 8 + n / 8 < x.length) && decide (n % 8 ≤ J % 8)) =
        false := by
      simp only [Bool.and_eq_false_iff, decide_eq_false_iff_not]
      omega
    have e₂ : (decide (x.length - 1 - J / 8 + (n / 8 + 1) < x.length) &&
        decide (J % 8 < n % 8)) = false := by
      simp only [Bool.and_eq_false_iff, decide_eq_false_iff_not]
      omega
    simp only [← Bool.and_assoc] at ⊢
    rw [e₁, e₂]
    simp [hJ]

/-! ## The loop of the shifts -/

section Loop

variable (env : Env)

theorem sub_intMax (hssl : env.ssl.Spec) {n : CScriptNum} (hbig : n.isBig = env.utxoAfterGenesis) :
    (n.sub env.ssl (if env.utxoAfterGenesis then .bint 2147483647 else .int64 2147483647)).value =
        n.value - 2147483647 ∧
      (n.sub env.ssl (if env.utxoAfterGenesis then .bint 2147483647 else .int64 2147483647)).isBig =
        env.utxoAfterGenesis := by
  cases n with
  | int64 a =>
    rw [← hbig]
    exact ⟨rfl, rfl⟩
  | bint a =>
    rw [← hbig]
    exact ⟨hssl.sub a 2147483647, rfl⟩

theorem getint_of_nonneg {n : CScriptNum} (h : 0 ≤ n.value) :
    n.getint.toNat = min n.value.toNat 2147483647 := by
  unfold CScriptNum.getint
  split_ifs <;> omega

/-- The `do ... while (n > 0)` loop with a token that is never cancelled: with enough rounds it
shifts by the whole of `n`, one chunk of at most `INT32_MAX` bits a round, for a shift whose
chunks add up. -/
theorem run_shiftLoop (hssl : env.ssl.Spec) (htoken : ∀ q, env.token.isCanceled q = false)
    {shift : valtype → Nat → valtype} (hadd : ∀ v a b, shift (shift v a) b = shift v (a + b)) :
    ∀ fuel values (n : CScriptNum) (s : EvalState), n.isBig = env.utxoAfterGenesis →
      0 ≤ n.value → n.value.toNat / 2147483647 < fuel →
      ∃ r, (shiftLoop env shift fuel values n).run s =
        .ok (shift values n.value.toNat) { s with polls := s.polls + r }
  | 0, _, _, _, _, _, hfuel => absurd hfuel (Nat.not_lt_zero _)
  | fuel + 1, values, n, s, hbig, hn, hfuel => by
    obtain ⟨hsub, hbig'⟩ := sub_intMax env hssl hbig
    rw [shiftLoop, EStateM.run_bind, run_isCanceled, htoken]
    dsimp only
    rw [if_neg Bool.false_ne_true, getint_of_nonneg hn]
    by_cases hlarge : 2147483647 < n.value
    · rw [if_pos (by rw [hsub]; omega)]
      obtain ⟨r, hr⟩ := run_shiftLoop hssl htoken hadd fuel (shift values 2147483647) _
        { s with polls := s.polls + 1 } hbig' (by rw [hsub]; omega) (by rw [hsub]; omega)
      refine ⟨1 + r, ?_⟩
      rw [min_eq_right (by omega), hr, hadd, hsub, Nat.add_assoc]
      congr 3
      omega
    · rw [if_neg (by rw [hsub]; omega), min_eq_left (by omega)]
      exact ⟨1, rfl⟩

end Loop

/-! ## `OP_LSHIFT` and `OP_RSHIFT` -/

section Op

variable (env : Env) {s : EvalState} {st : List valtype} {x top : valtype} {n : CScriptNum}

theorem run_opShift_of_top (hssl : env.ssl.Spec) (htoken : ∀ q, env.token.isCanceled q = false)
    {shift : valtype → Nat → valtype} (hadd : ∀ v a b, shift (shift v a) b = shift v (a + b))
    (hwide : ∀ v k, 8 * v.length ≤ k → shift v k = List.replicate v.length 0)
    (hlen : ∀ v k, (shift v k).length = v.length)
    (hs : s.root.stack = st ++ [x, top])
    (hn : CScriptNum.ofSpan env.ssl top env.fRequireMinimal env.maxScriptNumLength
      env.utxoAfterGenesis = .ok n) (h₀ : 0 ≤ n.value)
    (hx : x.length + ELEMENT_OVERHEAD + (top.length + ELEMENT_OVERHEAD) ≤ s.root.combinedStackSize)
    (hc : s.root.combinedStackSize ≤ s.root.maxStackSize) :
    ∃ p, (opShift env shift).run s = .ok ⟨⟩ (({ s with polls := p } : EvalState).withMain
      (s.root.combinedStackSize - (top.length + ELEMENT_OVERHEAD)) (st ++ [shift x n.value.toNat])) := by
  have hlen2 : 2 ≤ s.root.stack.length := by simp [hs]
  have hvch : (stacktop (-2)).run s = .ok ⟨x, .main⟩ s :=
    run_stacktop_of_eq (show s.root.stack = st ++ x :: [top] from hs) (by simp)
  have htop : (stacktop (-1)).run s = .ok ⟨top, .main⟩ s :=
    run_stacktop_top (show s.root.stack = (st ++ [x]) ++ [top] by simp [hs])
  have hneg : ¬ n.value < 0 := by omega
  have hpush : ∀ (t : EvalState), t.root = (s.withMain (s.root.combinedStackSize -
        (top.length + ELEMENT_OVERHEAD) - (x.length + ELEMENT_OVERHEAD)) st).root →
      (pushBack (shift x n.value.toNat)).run t = .ok ⟨⟩ (t.withMain
        (s.root.combinedStackSize - (top.length + ELEMENT_OVERHEAD)) (st ++ [shift x n.value.toNat])) := by
    intro t ht
    have hfit : t.root.combinedStackSize + ((shift x n.value.toNat).length + ELEMENT_OVERHEAD) ≤
        t.root.maxStackSize := by
      rw [ht, hlen]
      simp only [EvalState.withMain_combinedStackSize, EvalState.withMain_maxStackSize]
      omega
    rw [run_pushBack_of_le hfit, ht]
    simp only [EvalState.withMain_combinedStackSize, EvalState.withMain_stack, hlen]
    congr 2
    omega
  simp only [opShift, EStateM.run_bind, run_requireSize_of_le hlen2, hvch, htop,
    run_scriptNum_of_ok hn, if_neg hneg,
    run_popBack_of_eq (show s.root.stack = (st ++ [x]) ++ [top] by simp [hs]),
    run_popBack_withMain (show st ++ [x] = st ++ [x] from rfl)]
  by_cases hw : n.value ≥ x.length * 8
  · rw [if_pos hw, EStateM.run_bind, EStateM.run_pure, ← hwide x n.value.toNat (by omega)]
    exact ⟨s.polls, hpush _ rfl⟩
  · rw [if_neg hw]
    obtain ⟨r, hr⟩ := run_shiftLoop env hssl htoken hadd (n.value.toNat / 2147483647 + 1) x n
      (s.withMain (s.root.combinedStackSize - (top.length + ELEMENT_OVERHEAD) -
        (x.length + ELEMENT_OVERHEAD)) st) (CScriptNum.ofSpan_isBig env.ssl hn) h₀ (Nat.lt_succ_self _)
    rw [EStateM.run_bind, hr]
    refine ⟨s.polls + r, ?_⟩
    exact hpush _ rfl

end Op

/-- `OP_LSHIFT` and `OP_RSHIFT` from any accounted state, with a token that is never cancelled:
the two arguments are popped and `LShift(x, n)` or `RShift(x, n)` pushed, one shift by the whole
of `n` whatever the chunks of the loop; on the big-endian value of `x` at its width, `LShift` is
the product by `2 ^ n` modulo `2 ^ (8 * |x|)` and `RShift` the quotient by `2 ^ n`. -/
theorem shift_opcodes_shift_bits (env : Env) (s : EvalState) (k : Nat) (st : List valtype)
    (x top : valtype) (n : CScriptNum) (hssl : env.ssl.Spec)
    (htoken : ∀ q, env.token.isCanceled q = false) (hacc : LimitedStack.Accounted k s.root)
    (hs : s.root.stack = st ++ [x, top])
    (hn : CScriptNum.ofSpan env.ssl top env.fRequireMinimal env.maxScriptNumLength
      env.utxoAfterGenesis = .ok n) (h₀ : 0 ≤ n.value) :
    (∃ p, (opShift env lshift).run s = .ok ⟨⟩ (({ s with polls := p } : EvalState).withMain
      (s.root.combinedStackSize - (top.length + ELEMENT_OVERHEAD)) (st ++ [lshift x n.value.toNat]))) ∧
    (∃ p, (opShift env rshift).run s = .ok ⟨⟩ (({ s with polls := p } : EvalState).withMain
      (s.root.combinedStackSize - (top.length + ELEMENT_OVERHEAD)) (st ++ [rshift x n.value.toNat]))) ∧
    (lshift x n.value.toNat).length = x.length ∧
    readBE (lshift x n.value.toNat) = readBE x * 2 ^ n.value.toNat % 2 ^ (8 * x.length) ∧
    (rshift x n.value.toNat).length = x.length ∧
    readBE (rshift x n.value.toNat) = readBE x / 2 ^ n.value.toNat := by
  have hx : x.length + ELEMENT_OVERHEAD + (top.length + ELEMENT_OVERHEAD) ≤
      s.root.combinedStackSize := by
    have h := accounted_usage_le hacc
    rw [hs] at h
    simp only [LimitedStack.usage_append, LimitedStack.usage_cons, LimitedStack.usage_nil] at h
    omega
  have hl : ∀ v a b, lshift (lshift v a) b = lshift v (a + b) := by
    intro v a b
    rw [lshift_eq_shiftLeftBE, lshift_eq_shiftLeftBE, lshift_eq_shiftLeftBE, shiftLeftBE_add]
  have hr : ∀ v a b, rshift (rshift v a) b = rshift v (a + b) := by
    intro v a b
    rw [rshift_eq_shiftRightBE, rshift_eq_shiftRightBE, rshift_eq_shiftRightBE, shiftRightBE_add]
  refine ⟨run_opShift_of_top env hssl htoken hl
      (fun v k h => by rw [lshift_eq_shiftLeftBE, shiftLeftBE_of_le h]) length_lshift hs hn h₀ hx
      hacc.2,
    run_opShift_of_top env hssl htoken hr
      (fun v k h => by rw [rshift_eq_shiftRightBE, shiftRightBE_of_le h]) length_rshift hs hn h₀ hx
      hacc.2,
    length_lshift _ _, ?_, length_rshift _ _, ?_⟩
  · rw [lshift_eq_shiftLeftBE, readBE_shiftLeftBE]
  · rw [rshift_eq_shiftRightBE, readBE_shiftRightBE]

/-- The byte `0x81` under the number `3`, before Genesis. -/
theorem shift_opcodes_shift_bits_sample :
    let env := Env.sample 0 BaseSignatureChecker.base
    let s := EvalState.start ⟨2 * (1 + ELEMENT_OVERHEAD), 1000, [[0x81], [3]], []⟩ [] 0 [] 0
    (∃ p, (opShift env lshift).run s = .ok ⟨⟩ (({ s with polls := p } : EvalState).withMain
      (s.root.combinedStackSize - (1 + ELEMENT_OVERHEAD)) ([] ++ [lshift [0x81] 3]))) ∧
    (∃ p, (opShift env rshift).run s = .ok ⟨⟩ (({ s with polls := p } : EvalState).withMain
      (s.root.combinedStackSize - (1 + ELEMENT_OVERHEAD)) ([] ++ [rshift [0x81] 3]))) ∧
    (lshift [0x81] 3).length = 1 ∧ readBE (lshift [0x81] 3) = readBE [0x81] * 2 ^ 3 % 2 ^ (8 * 1) ∧
    (rshift [0x81] 3).length = 1 ∧ readBE (rshift [0x81] 3) = readBE [0x81] / 2 ^ 3 :=
  shift_opcodes_shift_bits _ _ 0 [] [0x81] [3] (.int64 3) Openssl.reference_spec (fun _ => rfl)
    ⟨rfl, by decide⟩ rfl rfl (by decide)

end TbcNode.Script.Interpreter
