import TbcNode.Script.Interpreter.Eval

/-! # `VerifyScript`

The unlocking script, the locking script on the stack it leaves, and for a pre-Genesis P2SH output
the serialized script on the copy; the model also returns the root stack each run starts from.
-/

namespace TbcNode.Script.Interpreter

open TbcNode.Logic TbcNode.Primitives

/-- The flags `VerifyScript` evaluates with: `SIGHASH_FORKID` implies strict encoding. -/
def verifyFlags (flags : UInt32) : UInt32 :=
  if hasFlag flags SCRIPT_ENABLE_SIGHASH_FORKID then flags ||| SCRIPT_VERIFY_STRICTENC else flags

/-- The checks after the last run: the `CLEANSTACK` rule, which asserts that `P2SH` is set. -/
def cleanStack (flags : UInt32) (stack : LimitedStack) : Stop :=
  if hasFlag flags SCRIPT_VERIFY_CLEANSTACK then
    if !hasFlag flags SCRIPT_VERIFY_P2SH then .assertFailed
    else if stack.stack.length ≠ 1 then .failure .SCRIPT_ERR_CLEANSTACK
    else .success
  else .success

/-- The result of a run, and whether its top element is true: `EVAL_FALSE` on an empty stack or a
false top. -/
def evalTrue (stack : LimitedStack) : Bool :=
  match stack.stack.getLast? with
  | none => false
  | some top => castToBool top

/-- The pay-to-script-hash part of `VerifyScript`: the unlocking script must be push-only, the
stack is restored from the copy, and its top element is popped and run as a script. An empty copy is
the failed `assert(!stack.empty())`. -/
def verifyP2SH (env : Env) (scriptSig : CScript) (stackCopy : LimitedStack) (polls : Nat) :
    Stop × List LimitedStack :=
  if !isPushOnly scriptSig then (.failure .SCRIPT_ERR_SIG_PUSHONLY, [])
  else
    match stackCopy.stack.getLast? with
    | none => (.assertFailed, [])
    | some pubKeySerialized =>
      match (LimitedStack.popBack .main).run stackCopy with
      | .error e _ => (.raise e, [])
      | .ok _ stack =>
        let (res, stack', _) := evalScript env stack pubKeySerialized polls
        if res ≠ .success then (res, [stack])
        else if !evalTrue stack' then (.failure .SCRIPT_ERR_EVAL_FALSE, [stack])
        else (cleanStack env.flags stack', [stack])

/-- `VerifyScript(config, consensus, token, scriptSig, scriptPubKey, flags, checker, serror)`,
with `env.flags` the flags it is called with; the result, and the roots its runs start from. -/
def verifyScript (env : Env) (scriptSig scriptPubKey : CScript) : Stop × List LimitedStack :=
  let env := { env with flags := verifyFlags env.flags }
  let flags := env.flags
  if hasFlag flags SCRIPT_VERIFY_SIGPUSHONLY && !isPushOnly scriptSig then
    (.failure .SCRIPT_ERR_SIG_PUSHONLY, [])
  else
    let maxStack := env.config.getMaxStackMemoryUsage
      (hasFlag flags SCRIPT_UTXO_AFTER_GENESIS) env.consensus
    let stack₀ := LimitedStack.empty maxStack
    let (res, stack, polls) := evalScript env stack₀ scriptSig 0
    if res ≠ .success then (res, [stack₀])
    else
      let p2shBeforeGenesis :=
        hasFlag flags SCRIPT_VERIFY_P2SH && !hasFlag flags SCRIPT_UTXO_AFTER_GENESIS
      let stackCopy := if p2shBeforeGenesis then stack.makeRootStackCopy else LimitedStack.empty maxStack
      let (res, stack', polls) := evalScript env stack scriptPubKey polls
      if res ≠ .success then (res, [stack₀, stack])
      else if !evalTrue stack' then (.failure .SCRIPT_ERR_EVAL_FALSE, [stack₀, stack])
      else if p2shBeforeGenesis && isP2SH scriptPubKey then
        let (res, roots) := verifyP2SH env scriptSig stackCopy polls
        (res, [stack₀, stack] ++ roots)
      else (cleanStack flags stack', [stack₀, stack])

end TbcNode.Script.Interpreter
