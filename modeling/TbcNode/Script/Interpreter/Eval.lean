import TbcNode.Script.Interpreter.Ops

/-! # `EvalScript`

A round reads an instruction with `GetOp`, checks it, and pushes a push's data or runs the opcode's
`case`. `evalScriptWith` is the twelve-argument `EvalScript` with its `try` block, and `evalScript`
the eight-argument one with a fresh child altstack.
-/

namespace TbcNode.Script.Interpreter

open TbcNode.Logic TbcNode.Primitives

section

variable (env : Env)

/-- A round after its `GetOp`: the checks on the instruction read in the state `s`, the push of
its data or the body of its opcode, and the check of the number of elements. After a post-Genesis
`OP_RETURN` in a branch only a further `OP_RETURN` executes. -/
def execInstruction (s : EvalState) (opcode : UInt8) (vchPushValue : valtype) : EvalM Unit := do
  if !env.utxoAfterGenesis && vchPushValue.length > MAX_SCRIPT_ELEMENT_SIZE_BEFORE_GENESIS then
    setError .SCRIPT_ERR_PUSH_SIZE
  let fExec := s.allExec && (!s.nonTopLevelReturnAfterGenesis || opcode == OP_RETURN)
  if opcode > OP_16 then
    modify fun s => { s with nOpCount := s.nOpCount + 1 }
    if !env.isValidMaxOpsPerScript (← get).nOpCount then setError .SCRIPT_ERR_OP_COUNT
  if isOpcodeDisabled opcode && (!env.utxoAfterGenesis || fExec) then
    setError .SCRIPT_ERR_DISABLED_OPCODE
  if fExec && opcode ≤ OP_PUSHDATA4 then
    if env.fRequireMinimal && !checkMinimalPush vchPushValue opcode then
      setError .SCRIPT_ERR_MINIMALDATA
    pushBack vchPushValue
  else if fExec || (OP_IF ≤ opcode && opcode ≤ OP_ENDIF) then
    execOpcode env opcode fExec
  if !env.utxoAfterGenesis &&
      (← stackSize) + (← altstackSize) > MAX_STACK_ELEMENTS_BEFORE_GENESIS then
    setError .SCRIPT_ERR_STACK_SIZE

/-- One round of `while (pc < pend)`: the token is polled and an instruction read. -/
def evalStep (script : CScript) : EvalM Unit := do
  if ← isCanceled env then throw .canceled
  let s ← get
  match getOp2 s.pc with
  | none => setError .SCRIPT_ERR_BAD_OPCODE
  | some (opcode, vchPushValue, pc) =>
    set { s with pc := pc, ipc := script.length - pc.length }
    execInstruction env s opcode vchPushValue

def EvalState.running (s : EvalState) : Bool := !s.pc.isEmpty

/-- The loop; every round reads at least one byte, so the length of the script is enough fuel
(`evalLoop_fuel`). -/
def evalLoop (script : CScript) : EvalM Unit :=
  whileFuel EvalState.running (evalStep env script) script.length

def catchExceptions (m : EvalM Unit) : EvalM Unit := fun s =>
  match m s with
  | .ok a s => .ok a s
  | .error e s => .error e.caught s

/-- The body of `EvalScript`: the size check, the loop in its `try` block, and the check that
every conditional is closed. It always stops. -/
def evalScriptWith (script : CScript) : EvalM Unit := do
  if script.length > env.config.getMaxScriptSize env.utxoAfterGenesis env.consensus then
    setError .SCRIPT_ERR_SCRIPT_SIZE
  catchExceptions (evalLoop env script)
  if (← get).branches ≠ [] then setError .SCRIPT_ERR_UNBALANCED_CONDITIONAL
  setSuccess

end

/-- The locals at the start of `EvalScript`: the iterators at the beginning of the script, no
operation counted, no `OP_RETURN` seen. -/
def EvalState.start (root : LimitedStack) (branches : List Branch) (ipc : Nat) (script : CScript)
    (polls : Nat) : EvalState :=
  ⟨root, script, script, branches, 0, false, ipc, polls⟩

/-- The stop a run ends in; `evalScriptWith` never ends normally. -/
def Stop.ofResult : EStateM.Result Stop EvalState Unit → Stop
  | .ok _ _ => .success
  | .error e _ => e

/-- `EvalScript(config, consensus, token, stack, script, flags, checker, serror)`: the result, the
root stack after the run, and the calls made to the token. The run gets a fresh child altstack
and no open conditionals; the child's elements are dropped at the end, and the counter keeps
them. -/
def evalScript (env : Env) (root : LimitedStack) (script : CScript) (polls : Nat) :
    Stop × LimitedStack × Nat :=
  let r := (evalScriptWith env script).run
    (EvalState.start { root with altstack := [] } [] 0 script polls)
  let s := finalState r
  (Stop.ofResult r, { s.root with altstack := [] }, s.polls)

/-- How the first `n` rounds of the loop of the run `evalScript env root script polls` end: normally
or with a stop, and in which state. -/
def evalRounds (env : Env) (root : LimitedStack) (script : CScript) (polls n : Nat) :
    EStateM.Result Stop EvalState PUnit :=
  (whileFuel EvalState.running (evalStep env script) n).run
    (EvalState.start { root with altstack := [] } [] 0 script polls)

/-- The state of the run `evalScript env root script polls` after `n` rounds of its loop, or where
the loop stopped if it stopped before: the states the run passes through are these. -/
def evalStateAfter (env : Env) (root : LimitedStack) (script : CScript) (polls n : Nat) :
    EvalState :=
  finalState ((whileFuel EvalState.running (evalStep env script) n).run
    (EvalState.start { root with altstack := [] } [] 0 script polls))

theorem evalStateAfter_eq (env : Env) (root : LimitedStack) (script : CScript) (polls n : Nat) :
    evalStateAfter env root script polls n = finalState (evalRounds env root script polls n) := rfl

theorem evalRounds_add (env : Env) (root : LimitedStack) (script : CScript) (polls n k : Nat) :
    evalRounds env root script polls (n + k) = match evalRounds env root script polls n with
      | .ok _ s => (whileFuel EvalState.running (evalStep env script) k).run s
      | .error e s => .error e s := by
  unfold evalRounds
  rw [run_whileFuel_add]
  cases (whileFuel EvalState.running (evalStep env script) n).run _ <;> rfl

end TbcNode.Script.Interpreter
