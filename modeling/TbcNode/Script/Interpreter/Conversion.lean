import Mathlib
import TbcNode.Script.Interpreter.Runs
import TbcNode.Script.Interpreter.Eval

/-! # `OP_NUM2BIN` and `OP_BIN2NUM`

`OP_NUM2BIN` pads the minimal encoding of a number to a size, moving the sign bit, and `OP_BIN2NUM`
encodes the top minimally; both change the element in place, so the padding can raise
`stack_overflow_error` (`run_opNum2Bin_of_size`).
-/

namespace TbcNode.Script.Interpreter

open TbcNode.Logic TbcNode.Primitives TbcNode.Encoding

section Num2Bin

variable (env : Env) {s : EvalState} {st : List valtype} {x top : valtype} {n : CScriptNum}
  {size : Nat}

theorem dropLast_append_replicate_succ {α : Type} (l : List α) (a : α) (k : Nat) :
    (l ++ List.replicate (k + 1) a).dropLast = l ++ List.replicate k a := by
  rw [List.replicate_succ', ← List.append_assoc, List.dropLast_concat]

theorem signMagnitudeValue_padSign (m : List UInt8) (b : UInt8) {size : Nat}
    (h : (m ++ [b &&& 0x7f]).length < size) :
    signMagnitudeValue ((m ++ [b &&& 0x7f] ++
      List.replicate (size - (m ++ [b &&& 0x7f]).length) 0).dropLast ++ [b &&& 0x80]) =
      signMagnitudeValue (m ++ [b]) := by
  obtain ⟨k, hk⟩ : ∃ k, size - (m ++ [b &&& 0x7f]).length = k + 1 :=
    ⟨size - (m ++ [b &&& 0x7f]).length - 1, by omega⟩
  rw [hk, dropLast_append_replicate_succ, signMagnitudeValue_moveSign]

theorem signMagnitudeValue_padZero {size : Nat} (h : 0 < size) :
    signMagnitudeValue ((([] : List UInt8) ++
      List.replicate (size - ([] : List UInt8).length) 0).dropLast ++ [0]) = 0 := by
  obtain ⟨k, rfl⟩ : ∃ k, size = k + 1 := ⟨size - 1, by omega⟩
  rw [List.length_nil, Nat.sub_zero, dropLast_append_replicate_succ, List.nil_append, ← List.replicate_succ',
    signMagnitudeValue_replicate_zero]

theorem not_num2bin_size_error (hv : n.value = size) (h₁ : size ≤ 2147483647)
    (hg : env.utxoAfterGenesis = false → size ≤ MAX_SCRIPT_ELEMENT_SIZE_BEFORE_GENESIS) :
    ¬ (n.value < 0 ∨ n.value > 2147483647) ∧
      ¬ ((!env.utxoAfterGenesis && decide (n.value.toNat > MAX_SCRIPT_ELEMENT_SIZE_BEFORE_GENESIS)) =
        true) := by
  refine ⟨by omega, ?_⟩
  cases hgen : env.utxoAfterGenesis
  · have := hg hgen
    simp only [hv, Int.toNat_natCast, Bool.not_false, Bool.true_and, decide_eq_true_eq]
    omega
  · simp

theorem run_opNum2Bin_of_checks (hs : s.root.stack = st ++ [x, top])
    (hn : CScriptNum.ofSpan env.ssl top env.fRequireMinimal env.maxScriptNumLength
      env.utxoAfterGenesis = .ok n) (hv : n.value = size) (h₁ : size ≤ 2147483647)
    (hg : env.utxoAfterGenesis = false → size ≤ MAX_SCRIPT_ELEMENT_SIZE_BEFORE_GENESIS)
    (hx : x.length + (top.length + ELEMENT_OVERHEAD) ≤ s.root.combinedStackSize)
    (hc : s.root.combinedStackSize ≤ s.root.maxStackSize) :
    (opNum2Bin env).run s =
      (do
        let rawnum ← stacktop (-1)
        if rawnum.element.length > size then setError .SCRIPT_ERR_IMPOSSIBLE_ENCODING
        if rawnum.element.length ≠ size then
          let signbit ← if rawnum.element.length > 0 then do
              let signbit := rawnum.element.getLastD 0 &&& 0x80
              modifyElement 1 fun e => e.modify (e.length - 1) (· &&& 0x7f)
              pure signbit
            else pure 0
          padRight 1 size signbit : EvalM Unit).run
        (s.withMain (s.root.combinedStackSize - (top.length + ELEMENT_OVERHEAD) - x.length +
          (signMagnitudeLE (signMagnitudeValue x)).length)
          (st ++ [signMagnitudeLE (signMagnitudeValue x)])) := by
  have hlen : 2 ≤ s.root.stack.length := by simp [hs]
  have htop : (stacktop (-1)).run s = .ok ⟨top, .main⟩ s :=
    run_stacktop_top (show s.root.stack = (st ++ [x]) ++ [top] by simp [hs])
  obtain ⟨hrange, hpre⟩ := not_num2bin_size_error env hv h₁ hg
  have hfit : s.root.combinedStackSize - (top.length + ELEMENT_OVERHEAD) - x.length +
      (Script.minimallyEncode x).2.length ≤ s.root.maxStackSize := by
    have := length_minimallyEncode_le x
    omega
  simp only [opNum2Bin, EStateM.run_bind, run_requireSize_of_le hlen, htop,
    run_scriptNum_of_ok hn, if_neg hrange, run_toSizeTLimited_of (n := n) (by omega) (by omega),
    if_neg hpre, run_popBack_of_eq (show s.root.stack = (st ++ [x]) ++ [top] by simp [hs]),
    run_minimallyEncode_of_eq (EvalState.withMain_stack _ _) (by simpa using hfit),
    EvalState.withMain_withMain, EvalState.withMain_combinedStackSize]
  rw [hv, Int.toNat_natCast, minimallyEncode_eq]

/-- `OP_NUM2BIN` on a number `x` under a size that passes its checks: an encoding of the number
longer than the size fails; otherwise the element left has the size and the number of `x`, where
the memory of the stacks allows, and `stack_overflow_error` is raised where it does not. -/
theorem run_opNum2Bin_of_size (hs : s.root.stack = st ++ [x, top])
    (hn : CScriptNum.ofSpan env.ssl top env.fRequireMinimal env.maxScriptNumLength
      env.utxoAfterGenesis = .ok n) (hv : n.value = size) (h₁ : size ≤ 2147483647)
    (hg : env.utxoAfterGenesis = false → size ≤ MAX_SCRIPT_ELEMENT_SIZE_BEFORE_GENESIS)
    (hx : x.length + (top.length + ELEMENT_OVERHEAD) ≤ s.root.combinedStackSize)
    (hc : s.root.combinedStackSize ≤ s.root.maxStackSize) :
    (size < (signMagnitudeLE (signMagnitudeValue x)).length →
      (opNum2Bin env).run s = .error (.failure .SCRIPT_ERR_IMPOSSIBLE_ENCODING)
        (s.withMain (s.root.combinedStackSize - (top.length + ELEMENT_OVERHEAD) - x.length +
          (signMagnitudeLE (signMagnitudeValue x)).length)
          (st ++ [signMagnitudeLE (signMagnitudeValue x)]))) ∧
    ((signMagnitudeLE (signMagnitudeValue x)).length ≤ size →
      ∃ y s', y.length = size ∧ signMagnitudeValue y = signMagnitudeValue x ∧
        (s.root.combinedStackSize - (top.length + ELEMENT_OVERHEAD) - x.length + size ≤
            s.root.maxStackSize →
          (opNum2Bin env).run s = .ok ⟨⟩ (s.withMain
            (s.root.combinedStackSize - (top.length + ELEMENT_OVERHEAD) - x.length + size)
            (st ++ [y]))) ∧
        (s.root.maxStackSize <
            s.root.combinedStackSize - (top.length + ELEMENT_OVERHEAD) - x.length + size →
          (opNum2Bin env).run s = .error (.raise .stackOverflow) s')) := by
  rw [run_opNum2Bin_of_checks env hs hn hv h₁ hg hx hc]
  have hval := signMagnitudeValue_signMagnitudeLE (signMagnitudeValue x)
  have hmx : (signMagnitudeLE (signMagnitudeValue x)).length ≤ x.length := by
    simpa [minimallyEncode_eq] using length_minimallyEncode_le x
  have hcx : x.length ≤ s.root.combinedStackSize - (top.length + ELEMENT_OVERHEAD) := by omega
  have hcm : s.root.combinedStackSize - (top.length + ELEMENT_OVERHEAD) ≤ s.root.maxStackSize := by
    omega
  generalize signMagnitudeLE (signMagnitudeValue x) = m at hval hmx ⊢
  generalize s.root.combinedStackSize - (top.length + ELEMENT_OVERHEAD) = c at hcx hcm ⊢
  rw [EStateM.run_bind, run_stacktop_top (EvalState.withMain_stack _ _)]
  dsimp only
  constructor
  · intro hlt
    rw [if_pos hlt]
    rfl
  · intro hle
    rw [if_neg (Nat.not_lt.mpr hle)]
    rcases Nat.lt_or_eq_of_le hle with hlt | rfl
    · rw [if_pos (Nat.ne_of_lt hlt)]
      rcases List.eq_nil_or_concat m with rfl | ⟨m', b, rfl⟩
      · rw [if_neg (by simp), EStateM.run_bind, EStateM.run_pure]
        dsimp only
        refine ⟨_, s.withMain (c - x.length + 0) (st ++ [[]]),
          LimitedStack.length_padRight_element [] size 0 hlt, ?_, fun hfit => ?_, fun hover => ?_⟩
        · rw [signMagnitudeValue_padZero hlt, ← hval]
          rfl
        · rw [run_padRight_of_le 0 (EvalState.withMain_stack _ _) hlt (by simpa using hfit)]
          simp
        · exact run_padRight_of_lt 0 (EvalState.withMain_stack _ _) hlt (by simpa using hover)
      · rw [List.concat_eq_append] at hval hlt ⊢
        have hmod : (m' ++ [b]).modify ((m' ++ [b]).length - 1) (· &&& 0x7f) = m' ++ [b &&& 0x7f] := by
          rw [List.length_append, List.length_singleton, Nat.add_sub_cancel, modify_append_singleton]
        have hlt' : (m' ++ [b &&& 0x7f]).length < size := by simpa using hlt
        rw [if_pos (by simp), EStateM.run_bind, run_modifyElement_of_eq _ (EvalState.withMain_stack _ _)]
        simp only [EvalState.withMain_withMain, EvalState.withMain_combinedStackSize, EStateM.run_bind,
          EStateM.run_pure, List.getLastD_concat, hmod]
        refine ⟨_, s.withMain (c - x.length + (m' ++ [b]).length) (st ++ [m' ++ [b &&& 0x7f]]),
          LimitedStack.length_padRight_element _ size (b &&& 0x80) hlt', ?_, fun hfit => ?_, fun hover => ?_⟩
        · rw [signMagnitudeValue_padSign m' b hlt', hval]
        · rw [run_padRight_of_le _ (EvalState.withMain_stack _ _) hlt' (by simp at hlt ⊢; omega)]
          have hcount : c - x.length + (m' ++ [b]).length + (size - (m' ++ [b &&& 0x7f]).length) =
              c - x.length + size := by
            simp only [List.length_append, List.length_singleton] at hlt ⊢
            omega
          rw [EvalState.withMain_withMain, EvalState.withMain_combinedStackSize, hcount]
        · exact run_padRight_of_lt _ (EvalState.withMain_stack _ _) hlt' (by simp at hlt ⊢; omega)
    · refine ⟨m, s, rfl, hval, fun _ => ?_, fun hover => absurd hover (by omega)⟩
      rw [if_neg (not_not.mpr rfl)]
      rfl

end Num2Bin

section Bin2Num

variable (env : Env) {s : EvalState} {st : List valtype} {y : valtype}

/-- `OP_BIN2NUM` replaces the top by the minimal encoding of its number, and fails when that
encoding is longer than `maxScriptNumLength`. -/
theorem run_opBin2Num_of_top (hs : s.root.stack = st ++ [y])
    (hy : y.length ≤ s.root.combinedStackSize) (hc : s.root.combinedStackSize ≤ s.root.maxStackSize) :
    ((signMagnitudeLE (signMagnitudeValue y)).length ≤ env.maxScriptNumLength →
      (opBin2Num env).run s = .ok ⟨⟩ (s.withMain (s.root.combinedStackSize - y.length +
        (signMagnitudeLE (signMagnitudeValue y)).length) (st ++ [signMagnitudeLE (signMagnitudeValue y)]))) ∧
    (env.maxScriptNumLength < (signMagnitudeLE (signMagnitudeValue y)).length →
      (opBin2Num env).run s = .error (.failure .SCRIPT_ERR_INVALID_NUMBER_RANGE)
        (s.withMain (s.root.combinedStackSize - y.length +
          (signMagnitudeLE (signMagnitudeValue y)).length)
          (st ++ [signMagnitudeLE (signMagnitudeValue y)]))) := by
  have hlen : 1 ≤ s.root.stack.length := by simp [hs]
  have hfit : s.root.combinedStackSize - y.length + (Script.minimallyEncode y).2.length ≤
      s.root.maxStackSize := by
    have := length_minimallyEncode_le y
    omega
  simp only [opBin2Num, EStateM.run_bind, run_requireSize_of_le hlen,
    run_minimallyEncode_of_eq hs hfit,
    run_stacktop_top (EvalState.withMain_stack _ _)]
  rw [minimallyEncode_eq]
  have hmin := isMinimallyEncoded_iff (signMagnitudeLE (signMagnitudeValue y)) env.maxScriptNumLength
  constructor
  · intro h
    rw [if_neg (by simpa using hmin.mpr ⟨h, minimalSM_signMagnitudeLE _⟩)]
    rfl
  · intro h
    have hnot : isMinimallyEncoded (signMagnitudeLE (signMagnitudeValue y)) env.maxScriptNumLength ≠
        true := fun h' => absurd (hmin.mp h').1 (Nat.not_le.mpr h)
    rw [if_pos (by simpa using hnot)]
    rfl

end Bin2Num

/-- `OP_NUM2BIN` followed by `OP_BIN2NUM`, from any accounted state: `OP_NUM2BIN` fails with
`SCRIPT_ERR_IMPOSSIBLE_ENCODING` exactly when the minimal encoding of `x` is longer than the
size; otherwise it raises `stack_overflow_error` where the padding does not fit the memory of the
stacks, and else leaves an element of the size with the number of `x`, which `OP_BIN2NUM` turns
back into the minimal encoding of `x` when that fits `maxScriptNumLength` and refuses otherwise. -/
theorem num2bin_bin2num_round_trip (env : Env) (s : EvalState) (k size : Nat)
    (st : List valtype) (x top : valtype) (n : CScriptNum) (hacc : LimitedStack.Accounted k s.root)
    (hs : s.root.stack = st ++ [x, top])
    (hn : CScriptNum.ofSpan env.ssl top env.fRequireMinimal env.maxScriptNumLength
      env.utxoAfterGenesis = .ok n) (hv : n.value = size) (h₁ : size ≤ 2147483647)
    (hg : env.utxoAfterGenesis = false → size ≤ MAX_SCRIPT_ELEMENT_SIZE_BEFORE_GENESIS) :
    ((∃ s', (opNum2Bin env).run s = .error (.failure .SCRIPT_ERR_IMPOSSIBLE_ENCODING) s') ↔
      size < (signMagnitudeLE (signMagnitudeValue x)).length) ∧
    ((signMagnitudeLE (signMagnitudeValue x)).length ≤ size →
      s.root.maxStackSize <
        s.root.combinedStackSize - (top.length + ELEMENT_OVERHEAD) - x.length + size →
      ∃ s', (opNum2Bin env).run s = .error (.raise .stackOverflow) s') ∧
    ((signMagnitudeLE (signMagnitudeValue x)).length ≤ size →
      s.root.combinedStackSize - (top.length + ELEMENT_OVERHEAD) - x.length + size ≤
        s.root.maxStackSize →
      ∃ y s', (opNum2Bin env).run s = .ok ⟨⟩ s' ∧ s'.root.stack = st ++ [y] ∧ y.length = size ∧
        signMagnitudeValue y = signMagnitudeValue x ∧
        ((signMagnitudeLE (signMagnitudeValue x)).length ≤ env.maxScriptNumLength →
          ∃ s'', (opBin2Num env).run s' = .ok ⟨⟩ s'' ∧
            s''.root.stack = st ++ [signMagnitudeLE (signMagnitudeValue x)]) ∧
        (env.maxScriptNumLength < (signMagnitudeLE (signMagnitudeValue x)).length →
          ∃ s'', (opBin2Num env).run s' = .error (.failure .SCRIPT_ERR_INVALID_NUMBER_RANGE) s'')) := by
  have hx : x.length + (top.length + ELEMENT_OVERHEAD) ≤ s.root.combinedStackSize := by
    have h := accounted_usage_le hacc
    rw [hs] at h
    simp only [LimitedStack.usage_append, LimitedStack.usage_cons, LimitedStack.usage_nil] at h
    omega
  obtain ⟨himp, hpad⟩ := run_opNum2Bin_of_size env hs hn hv h₁ hg hx hacc.2
  refine ⟨⟨?_, fun h => ⟨_, himp h⟩⟩, fun hle hover => ?_, fun hle hfit => ?_⟩
  · rintro ⟨s', hrun⟩
    by_contra hle
    obtain ⟨y, s'', -, -, hok, hov⟩ := hpad (Nat.not_lt.mp hle)
    by_cases hfit : s.root.combinedStackSize - (top.length + ELEMENT_OVERHEAD) - x.length + size ≤
        s.root.maxStackSize
    · rw [hok hfit] at hrun
      cases hrun
    · rw [hov (Nat.lt_of_not_le hfit)] at hrun
      cases hrun
  · obtain ⟨y, s', -, -, -, hov⟩ := hpad hle
    exact ⟨s', hov hover⟩
  · obtain ⟨y, -, hlen, hval, hok, -⟩ := hpad hle
    refine ⟨y, _, hok hfit, EvalState.withMain_stack _ _, hlen, hval, ?_⟩
    obtain ⟨hb₁, hb₂⟩ := run_opBin2Num_of_top env (s := s.withMain
      (s.root.combinedStackSize - (top.length + ELEMENT_OVERHEAD) - x.length + size) (st ++ [y]))
      (EvalState.withMain_stack _ _) (by rw [EvalState.withMain_combinedStackSize]; omega)
      (by simpa using hfit)
    rw [hval] at hb₁ hb₂
    exact ⟨fun h => ⟨_, hb₁ h, EvalState.withMain_stack _ _⟩, fun h => ⟨_, hb₂ h⟩⟩

/-- A root holding the number `5` under the size `2`, before Genesis. -/
theorem num2bin_bin2num_round_trip_sample :
    let env := Env.sample 0 BaseSignatureChecker.base
    let s := EvalState.start ⟨2 * (1 + ELEMENT_OVERHEAD), 1000, [[5], [2]], []⟩ [] 0 [] 0
    ((∃ s', (opNum2Bin env).run s = .error (.failure .SCRIPT_ERR_IMPOSSIBLE_ENCODING) s') ↔
      2 < (signMagnitudeLE (signMagnitudeValue [5])).length) ∧
    ((signMagnitudeLE (signMagnitudeValue [5])).length ≤ 2 →
      s.root.maxStackSize < s.root.combinedStackSize - (1 + ELEMENT_OVERHEAD) - 1 + 2 →
      ∃ s', (opNum2Bin env).run s = .error (.raise .stackOverflow) s') ∧
    ((signMagnitudeLE (signMagnitudeValue [5])).length ≤ 2 →
      s.root.combinedStackSize - (1 + ELEMENT_OVERHEAD) - 1 + 2 ≤ s.root.maxStackSize →
      ∃ y s', (opNum2Bin env).run s = .ok ⟨⟩ s' ∧ s'.root.stack = [] ++ [y] ∧ y.length = 2 ∧
        signMagnitudeValue y = signMagnitudeValue [5] ∧
        ((signMagnitudeLE (signMagnitudeValue [5])).length ≤ env.maxScriptNumLength →
          ∃ s'', (opBin2Num env).run s' = .ok ⟨⟩ s'' ∧
            s''.root.stack = [] ++ [signMagnitudeLE (signMagnitudeValue [5])]) ∧
        (env.maxScriptNumLength < (signMagnitudeLE (signMagnitudeValue [5])).length →
          ∃ s'', (opBin2Num env).run s' = .error (.failure .SCRIPT_ERR_INVALID_NUMBER_RANGE) s'')) :=
  num2bin_bin2num_round_trip _ _ 0 2 [] [5] [2] (.int64 2) ⟨rfl, by decide⟩ rfl rfl rfl
    (by decide) (fun _ => by decide)

/-- Before Genesis a five-byte number that `OP_NUM2BIN` leaves at five bytes is refused by
`OP_BIN2NUM`, whose result must fit four bytes; and the padding of `OP_NUM2BIN` overflows a
small limit on the memory of the stacks. -/
theorem bin2num_refuses_long_number :
    (evalScript (Env.sample 0 BaseSignatureChecker.base) (LimitedStack.empty 1000)
        [0x05, 1, 2, 3, 4, 5, 0x01, 0x05, OP_NUM2BIN] 0).1 = .success ∧
      (evalScript (Env.sample 0 BaseSignatureChecker.base) (LimitedStack.empty 1000)
        [0x05, 1, 2, 3, 4, 5, 0x01, 0x05, OP_NUM2BIN] 0).2.1.stack = [[1, 2, 3, 4, 5]] ∧
      (evalScript (Env.sample 0 BaseSignatureChecker.base) (LimitedStack.empty 1000)
        [0x05, 1, 2, 3, 4, 5, 0x01, 0x05, OP_NUM2BIN, OP_BIN2NUM] 0).1 =
        .failure .SCRIPT_ERR_INVALID_NUMBER_RANGE ∧
      (evalScript (Env.sample 0 BaseSignatureChecker.base) (LimitedStack.empty 100)
        [OP_0, 0x01, 100, OP_NUM2BIN] 0).1 = .failure .SCRIPT_ERR_STACK_SIZE := by
  decide_cbv

end TbcNode.Script.Interpreter
