import Mathlib
import TbcNode.Script.Interpreter.Runs
import TbcNode.Script.Interpreter.Eval

/-! # The opcodes that read the spending context

`OP_PUSH_META` with selector `6` reads the input at `nIn % 256`, as the index is a `uint8_t`
(`run_opPushMeta_six`). `OP_PARTIAL_HASH` resumes SHA-256 from a midstate and checks neither its
length beyond 32 bytes nor that the total covers the data (`run_opPartialHash_resume`).
-/

namespace TbcNode.Script.Interpreter

open TbcNode.Logic TbcNode.Primitives TbcNode.Encoding

/-! ### `OP_PUSH_META` -/

section PushMeta

variable (env : Env) {s : EvalState} {st : List valtype}

theorem run_opPushMeta_of_top {c : UInt8} (hs : s.root.stack = st ++ [[c]]) (hc : 1 ≤ c ∧ c ≤ 7) :
    (opPushMeta env).run s =
      (pushMetaItem env c >>= pushBack).run
        (s.withMain (s.root.combinedStackSize - (1 + ELEMENT_OVERHEAD)) st) := by
  have hlen : 1 ≤ s.root.stack.length := by
    rw [hs, List.length_append, List.length_singleton]
    omega
  have htop : (stacktop (-1)).run s = .ok ⟨[c], .main⟩ s := run_stacktop_of_eq hs (by simp)
  have hsel : ¬ (c < 1 ∨ c > 7) := by
    rw [not_or, UInt8.not_lt, UInt8.not_lt]
    exact hc
  simp only [opPushMeta, EStateM.run_bind, run_requireSize_of_le hlen, htop,
    List.length_singleton, gt_iff_lt, Nat.lt_irrefl, if_false, if_true,
    run_readAt_of_getElem? (show [c][0]? = some c from rfl), if_neg hsel,
    run_popBack_of_eq hs]

/-- An empty selector passes both size checks and is then read past its end. -/
theorem run_opPushMeta_empty (hs : s.root.stack = st ++ [[]]) :
    (opPushMeta env).run s = .error .undefined s := by
  have hlen : 1 ≤ s.root.stack.length := by
    rw [hs, List.length_append, List.length_singleton]
    omega
  have htop : (stacktop (-1)).run s = .ok ⟨[], .main⟩ s := run_stacktop_of_eq hs (by simp)
  simp only [opPushMeta, EStateM.run_bind, run_requireSize_of_le hlen, htop, List.length_nil,
    gt_iff_lt, Nat.not_lt_zero, if_false, Nat.zero_ne_one,
    run_readAt_of_le (show ([] : List UInt8).length ≤ 0 from Nat.le_refl 0)]

theorem run_pushMetaItem_six {tx : CTransaction} {txin : CTxIn}
    (htx : env.checker.getTx = some tx) (hin : tx.vin[env.checker.getnIn % 256]? = some txin) :
    (pushMetaItem env 6).run s =
      .ok (txin.prevout.txid.toList ++ writeLE 4 txin.prevout.n.toNat ++
        writeLE 4 txin.nSequence.toNat) s := by
  simp only [pushMetaItem, show (6 : UInt8).toNat = 6 from rfl, EStateM.run_bind, htx,
    run_deref_some, run_elementAt_of_getElem? hin]
  rfl

/-- `OP_PUSH_META` with selector `6` pushes the outpoint and sequence number of the input at
index `nIn % 256`, where the memory of the stacks allows. -/
theorem run_opPushMeta_six {tx : CTransaction} {txin : CTxIn}
    (hs : s.root.stack = st ++ [[6]]) (htx : env.checker.getTx = some tx)
    (hin : tx.vin[env.checker.getnIn % 256]? = some txin)
    (hfit : s.root.combinedStackSize - (1 + ELEMENT_OVERHEAD) + (40 + ELEMENT_OVERHEAD) ≤
      s.root.maxStackSize) :
    (opPushMeta env).run s =
      .ok ⟨⟩ (s.withMain (s.root.combinedStackSize - (1 + ELEMENT_OVERHEAD) + (40 + ELEMENT_OVERHEAD))
        (st ++ [txin.prevout.txid.toList ++ writeLE 4 txin.prevout.n.toNat ++
          writeLE 4 txin.nSequence.toNat])) := by
  rw [run_opPushMeta_of_top env hs (by decide), EStateM.run_bind, run_pushMetaItem_six env htx hin]
  dsimp only
  rw [run_pushBack_of_le (by simpa using hfit)]
  simp

/-- An input that spends output `n` of the null id, with the final sequence number. -/
def spendingOutput (n : UInt32) : CTxIn := ⟨⟨Vector.replicate 32 0, n⟩, [], 0xffffffff⟩

/-- A transaction with 257 inputs: the first 256 spend output `0`, the last one output `1`. -/
def manyInputsTx : CTransaction :=
  ⟨1, List.replicate 256 (spendingOutput 0) ++ [spendingOutput 1], [], 0, Vector.replicate 32 0⟩

/-- The checker of the last input of `manyInputsTx`, the one at index `256`. -/
def lastInputEnv : Env :=
  Env.sample 0 { BaseSignatureChecker.base with getTx := some manyInputsTx, getnIn := 256 }

set_option maxRecDepth 4000 in
/-- Verifying input `256` of `manyInputsTx`, `OP_PUSH_META` with selector `6` pushes the outpoint
of input `0`, and with an empty selector it reads past the end of the element. -/
theorem pushMeta_reads_input_at_low_byte :
    (evalScript lastInputEnv (LimitedStack.empty 1000) [0x01, 0x06, OP_PUSH_META] 0).1 =
        .success ∧
      (evalScript lastInputEnv (LimitedStack.empty 1000) [0x01, 0x06, OP_PUSH_META] 0).2.1.stack =
        [(spendingOutput 0).prevout.txid.toList ++ writeLE 4 0 ++ writeLE 4 0xffffffff] ∧
      manyInputsTx.vin[256]? = some (spendingOutput 1) ∧ spendingOutput 0 ≠ spendingOutput 1 ∧
      (evalScript lastInputEnv (LimitedStack.empty 1000) [OP_0, OP_PUSH_META] 0).1 =
        .undefined := by
  decide_cbv

end PushMeta

/-! ### `OP_PARTIAL_HASH` -/

section PartialHash

variable (env : Env) {s : EvalState} {st : List valtype}

/-- With a size element of at most 8 bytes and a midstate of at least 32, the three arguments are
popped and SHA-256 of the data is pushed, continued from the first 32 bytes of the midstate after
the declared total less the length of the data, modulo `2 ^ 64`. -/
theorem run_opPartialHash_resume {data part size : valtype}
    (hs : s.root.stack = st ++ [data, part, size]) (hsize : size.length ≤ 8)
    (hpart : 32 ≤ part.length) :
    (opPartialHash env).run s =
      (pushBack (env.crypto.sha256Resume (Vector.ofFn fun i => part.getD i 0)
          (((readLE size : Int) - data.length) % 2 ^ 64).toNat data).toList).run
        (s.withMain (s.root.combinedStackSize - (size.length + ELEMENT_OVERHEAD) -
          (part.length + ELEMENT_OVERHEAD) - (data.length + ELEMENT_OVERHEAD)) st) := by
  have hlen : 3 ≤ s.root.stack.length := by
    rw [hs]
    simp
  have h₃ : (stacktop (-3)).run s = .ok ⟨data, .main⟩ s := run_stacktop_of_eq hs (by simp)
  have h₂ : (stacktop (-2)).run s = .ok ⟨part, .main⟩ s :=
    run_stacktop_of_eq (show s.root.stack = (st ++ [data]) ++ part :: [size] by simp [hs])
      (by simp)
  have h₁ : (stacktop (-1)).run s = .ok ⟨size, .main⟩ s :=
    run_stacktop_of_eq (show s.root.stack = (st ++ [data, part]) ++ size :: [] by simp [hs])
      (by simp)
  have hp : s.root.stack = (st ++ [data, part]) ++ [size] := by simp [hs]
  rw [opPartialHash, run_bind_of_ok (run_requireSize_of_le hlen), run_bind_of_ok h₃,
    run_bind_of_ok h₂, run_bind_of_ok h₁, run_bind_of_ok (run_popBack_of_eq hp),
    run_bind_of_ok (run_popBack_withMain (show st ++ [data, part] = (st ++ [data]) ++ [part] by
      simp)), run_bind_of_ok (run_popBack_withMain rfl)]
  dsimp only
  rw [if_neg (by omega), if_neg (by omega), if_neg (by omega)]

theorem run_opPartialHash_fresh {data size : valtype}
    (hs : s.root.stack = st ++ [data, [], size]) (hsize : size.length ≤ 8) :
    (opPartialHash env).run s =
      if readLE size = data.length then
        (pushBack (env.crypto.sha256 data).toList).run
          (s.withMain (s.root.combinedStackSize - (size.length + ELEMENT_OVERHEAD) -
            ELEMENT_OVERHEAD - (data.length + ELEMENT_OVERHEAD)) st)
      else .error (.failure .SCRIPT_ERR_INVALID_STACK_OPERATION)
        (s.withMain (s.root.combinedStackSize - (size.length + ELEMENT_OVERHEAD) -
          ELEMENT_OVERHEAD - (data.length + ELEMENT_OVERHEAD)) st) := by
  have hlen : 3 ≤ s.root.stack.length := by
    rw [hs]
    simp
  have h₃ : (stacktop (-3)).run s = .ok ⟨data, .main⟩ s := run_stacktop_of_eq hs (by simp)
  have h₂ : (stacktop (-2)).run s = .ok ⟨[], .main⟩ s :=
    run_stacktop_of_eq (show s.root.stack = (st ++ [data]) ++ [] :: [size] by simp [hs])
      (by simp)
  have h₁ : (stacktop (-1)).run s = .ok ⟨size, .main⟩ s :=
    run_stacktop_of_eq (show s.root.stack = (st ++ [data, []]) ++ size :: [] by simp [hs])
      (by simp)
  have hp : s.root.stack = (st ++ [data, []]) ++ [size] := by simp [hs]
  rw [opPartialHash, run_bind_of_ok (run_requireSize_of_le hlen), run_bind_of_ok h₃,
    run_bind_of_ok h₂, run_bind_of_ok h₁, run_bind_of_ok (run_popBack_of_eq hp),
    run_bind_of_ok (run_popBack_withMain (show st ++ [data, []] = (st ++ [data]) ++ [[]] by
      simp)), run_bind_of_ok (run_popBack_withMain rfl)]
  dsimp only
  rw [if_neg (by omega), if_pos List.length_nil]
  by_cases hd : readLE size = data.length
  · rw [if_neg (not_not.mpr hd), if_pos hd]
    rfl
  · rw [if_pos hd, if_neg hd]
    rfl

/-- A midstate of 33 bytes, and a declared total below the length of the data, are accepted:
`OP_PARTIAL_HASH` pushes a hash in both cases. -/
theorem partialHash_accepts_malformed_arguments :
    (evalScript (Env.sample 0 BaseSignatureChecker.base) (LimitedStack.empty 1000)
        ([0x01, 0xaa, 0x21] ++ List.replicate 33 0 ++ [0x01, 0x41, OP_PARTIAL_HASH]) 0).1 =
        .success ∧
      ((evalScript (Env.sample 0 BaseSignatureChecker.base) (LimitedStack.empty 1000)
        ([0x01, 0xaa, 0x21] ++ List.replicate 33 0 ++ [0x01, 0x41, OP_PARTIAL_HASH]) 0).2.1.stack.map
          List.length) = [32] ∧
      (evalScript (Env.sample 0 BaseSignatureChecker.base) (LimitedStack.empty 1000)
        ([0x01, 0xaa, 0x20] ++ List.replicate 32 0 ++ [OP_0, OP_PARTIAL_HASH]) 0).1 = .success := by
  decide_cbv

end PartialHash

end TbcNode.Script.Interpreter
