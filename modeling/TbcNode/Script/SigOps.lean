import Mathlib
import TbcNode.Script.Interpreter.Verify

/-! # Counting signature operations (`CScript::GetSigOpCount`)

`GetSigOpCount` walks a script with the instruction iterator up to the first `OP_INVALIDOPCODE`.
The iterator decodes the byte `0xff` as that opcode where `GetOp2` reads on, so after a `0xff` in a
branch not executed the interpreter runs signature checks the count does not see.
-/

namespace TbcNode.Script

open TbcNode.Logic TbcNode.Script.Interpreter

/-- `CScript::DecodeOP_N` for `OP_1` ... `OP_16`. -/
def decodeOP_N (opcode : UInt8) : Nat := opcode.toNat - (OP_1.toNat - 1)

/-- The `for` loop of `GetSigOpCount` over the (opcode, operand) pairs of the instructions, with
the last instruction and the count so far; `(0, true)` is the early `return 0` that sets
`sigOpCountError`. The operand of a multisig count has its size and encoding checked before
`CScriptNum` reads it, so the constructor does not throw; its exception is passed on. -/
def sigOpCountLoop (ssl : Openssl) (fAccurate isGenesisEnabled : Bool) :
    UInt8 × valtype → List (UInt8 × valtype) → Nat → Except Exception (Nat × Bool)
  | _, [], n => pure (n, false)
  | last, (opcode, operand) :: rest, n =>
    let lastOpcode := last.1
    if opcode = OP_INVALIDOPCODE then pure (n, false)
    else if opcode = OP_CHECKSIG ∨ opcode = OP_CHECKSIGVERIFY then
      sigOpCountLoop ssl fAccurate isGenesisEnabled (opcode, operand) rest (n + 1)
    else if opcode = OP_CHECKMULTISIG ∨ opcode = OP_CHECKMULTISIGVERIFY then
      if (fAccurate || isGenesisEnabled) && OP_1 ≤ lastOpcode && lastOpcode ≤ OP_16 then
        sigOpCountLoop ssl fAccurate isGenesisEnabled (opcode, operand) rest
          (n + decodeOP_N lastOpcode)
      else if isGenesisEnabled then
        if lastOpcode = OP_0 then
          sigOpCountLoop ssl fAccurate isGenesisEnabled (opcode, operand) rest n
        else if last.2.length > 4 then pure (0, true)
        else if !isMinimallyEncoded last.2 4 then pure (0, true)
        else do
          let numSigs := (← CScriptNum.ofSpan ssl last.2 true 4 false).getint
          if numSigs < 0 then pure (0, true)
          else
            sigOpCountLoop ssl fAccurate isGenesisEnabled (opcode, operand) rest
              (n + numSigs.toNat)
      else
        sigOpCountLoop ssl fAccurate isGenesisEnabled (opcode, operand) rest
          (n + MAX_PUBKEYS_PER_MULTISIG_BEFORE_GENESIS)
    else sigOpCountLoop ssl fAccurate isGenesisEnabled (opcode, operand) rest n

/-- `CScript::GetSigOpCount(fAccurate, isGenesisEnabled, sigOpCountError)`: the count and the
error flag. The loop starts with `last_instruction{OP_INVALIDOPCODE}`. -/
def getSigOpCount (ssl : Openssl) (fAccurate isGenesisEnabled : Bool) (script : CScript) :
    Except Exception (Nat × Bool) :=
  sigOpCountLoop ssl fAccurate isGenesisEnabled (OP_INVALIDOPCODE, [])
    ((instructions script).map Instruction.pair) 0

theorem getSigOpCount_eq (ssl : Openssl) (fAccurate isGenesisEnabled : Bool) (script : CScript) :
    getSigOpCount ssl fAccurate isGenesisEnabled script =
      sigOpCountLoop ssl fAccurate isGenesisEnabled (OP_INVALIDOPCODE, [])
        (untilInvalid (getOpTrace script.length script)) 0 := by
  rw [getSigOpCount, instructions_pair]

theorem untilInvalid_eq_self {l : List (UInt8 × valtype)}
    (h : ∀ x ∈ l.dropLast, x.1 ≠ OP_INVALIDOPCODE) : untilInvalid l = l := by
  induction l with
  | nil => rfl
  | cons x xs ih =>
    cases xs with
    | nil => by_cases hx : x.1 = OP_INVALIDOPCODE <;> simp [untilInvalid, hx]
    | cons y ys =>
      have hx : x.1 ≠ OP_INVALIDOPCODE := h x (by simp)
      have hrest : ∀ z ∈ (y :: ys).dropLast, z.1 ≠ OP_INVALIDOPCODE := fun z hz =>
        h z (by rw [List.dropLast_cons_cons]; exact List.mem_cons_of_mem _ hz)
      rw [untilInvalid, if_neg hx, ih hrest]

theorem instructions_pair_of_no_invalid {script : CScript}
    (h : ∀ x ∈ (getOpTrace script.length script).dropLast, x.1 ≠ OP_INVALIDOPCODE) :
    (instructions script).map Instruction.pair = getOpTrace script.length script := by
  rw [instructions_pair, untilInvalid_eq_self h]

/-- A locking script with a `0xff` in a branch that is not executed: its count is `0`, while
`getOp2` reads the `OP_CHECKSIG` after the branch and `VerifyScript` runs it, here with a checker
that accepts the signature. -/
theorem getSigOpCount_misses_checksig :
    getSigOpCount Openssl.reference true true [OP_0, OP_IF, 0xff, OP_ENDIF, OP_CHECKSIG] =
        .ok (0, false) ∧
      (OP_CHECKSIG, []) ∈ getOpTrace 5 [OP_0, OP_IF, 0xff, OP_ENDIF, OP_CHECKSIG] ∧
      ∃ env : Env, (verifyScript env [0x01, 0x30, 0x01, 0x02]
        [OP_0, OP_IF, 0xff, OP_ENDIF, OP_CHECKSIG]).1 = .success :=
  ⟨by decide_cbv, by decide_cbv,
    { config := GlobalConfig.default.toScriptConfig
      consensus := true
      token := ⟨fun _ => false⟩
      flags := 0
      checker := { BaseSignatureChecker.base with checkSig := fun _ _ _ _ => true }
      crypto := ⟨fun _ => Vector.replicate 20 0, fun _ => Vector.replicate 20 0,
        fun _ => Vector.replicate 32 0, fun _ => Vector.replicate 20 0,
        fun _ => Vector.replicate 32 0, fun _ _ _ => Vector.replicate 32 0, fun _ => true⟩
      ssl := Openssl.reference }, by decide_cbv⟩

end TbcNode.Script
