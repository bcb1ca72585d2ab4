import TbcNode.Logic.Loop
import TbcNode.Script.LimitedStack
import TbcNode.Script.Parse
import TbcNode.Script.SigEncoding
import TbcNode.Primitives.Transaction

/-! # The interpreter's machine

`Env` holds what `EvalScript` reads and `EvalState` what it changes; a round is an `EvalM` program,
which ends normally or with a `Stop`: a `return`, an exception, an undefined read or a failed
`assert`. The configuration, the checker, the hashes and OpenSSL are parameters.
-/

namespace TbcNode.Script.Interpreter

open TbcNode.Logic TbcNode.Primitives

/-- `CScriptConfig`: each limit by whether Genesis is enabled and whether consensus (rather than
policy) rules apply. -/
structure CScriptConfig where
  getMaxOpsPerScript : Bool → Bool → Nat
  getMaxScriptNumLength : Bool → Bool → Nat
  getMaxScriptSize : Bool → Bool → Nat
  getMaxPubKeysPerMultiSig : Bool → Bool → Nat
  getMaxStackMemoryUsage : Bool → Bool → Nat

/-! ### The limits of `GlobalConfig` (`config.cpp`, `consensus.h`, `policy.h`) -/

def MAX_OPS_PER_SCRIPT_BEFORE_GENESIS : Nat := 500
def MAX_OPS_PER_SCRIPT_AFTER_GENESIS : Nat := 4294967295
def MAX_PUBKEYS_PER_MULTISIG_BEFORE_GENESIS : Nat := 20
def MAX_PUBKEYS_PER_MULTISIG_AFTER_GENESIS : Nat := 4294967295
def MAX_SCRIPT_SIZE_BEFORE_GENESIS : Nat := 10000
def MAX_SCRIPT_SIZE_AFTER_GENESIS : Nat := 4294967295
def MAX_SCRIPT_NUM_LENGTH_BEFORE_GENESIS : Nat := 4
def MAX_SCRIPT_NUM_LENGTH_AFTER_GENESIS : Nat := 750 * 1000
def INT64_MAX : Nat := 9223372036854775807

/-- The settings of `GlobalConfig` that its script limits read. -/
structure GlobalConfig where
  maxOpsPerScriptPolicy : Nat
  maxPubKeysPerMultiSig : Nat
  maxStackMemoryUsagePolicy : Nat
  maxStackMemoryUsageConsensus : Nat
  maxScriptSizePolicy : Nat
  maxScriptNumLengthPolicy : Nat

namespace GlobalConfig

def default : GlobalConfig where
  maxOpsPerScriptPolicy := 4294967295
  maxPubKeysPerMultiSig := 4294967295
  maxStackMemoryUsagePolicy := 100 * 1000 * 1000
  maxStackMemoryUsageConsensus := INT64_MAX
  maxScriptSizePolicy := 10000
  maxScriptNumLengthPolicy := 250 * 1000

/-- `GlobalConfig`'s getters: the constants before Genesis and for consensus, the settings for
policy. Before Genesis the memory of the stack is not limited. -/
def toScriptConfig (c : GlobalConfig) : CScriptConfig where
  getMaxOpsPerScript isGenesisEnabled consensus :=
    if !isGenesisEnabled then MAX_OPS_PER_SCRIPT_BEFORE_GENESIS
    else if consensus then MAX_OPS_PER_SCRIPT_AFTER_GENESIS
    else c.maxOpsPerScriptPolicy
  getMaxScriptNumLength isGenesisEnabled isConsensus :=
    if !isGenesisEnabled then MAX_SCRIPT_NUM_LENGTH_BEFORE_GENESIS
    else if isConsensus then MAX_SCRIPT_NUM_LENGTH_AFTER_GENESIS
    else c.maxScriptNumLengthPolicy
  getMaxScriptSize isGenesisEnabled isConsensus :=
    if !isGenesisEnabled then MAX_SCRIPT_SIZE_BEFORE_GENESIS
    else if isConsensus then MAX_SCRIPT_SIZE_AFTER_GENESIS
    else c.maxScriptSizePolicy
  getMaxPubKeysPerMultiSig isGenesisEnabled consensus :=
    if !isGenesisEnabled then MAX_PUBKEYS_PER_MULTISIG_BEFORE_GENESIS
    else if consensus then MAX_PUBKEYS_PER_MULTISIG_AFTER_GENESIS
    else c.maxPubKeysPerMultiSig
  getMaxStackMemoryUsage isGenesisEnabled consensus :=
    if !isGenesisEnabled then INT64_MAX
    else if consensus then c.maxStackMemoryUsageConsensus
    else c.maxStackMemoryUsagePolicy

end GlobalConfig

/-- `BaseSignatureChecker`'s virtual methods; `getTx` is `none` for the null pointer the base
class returns. -/
structure BaseSignatureChecker where
  checkSig : valtype → valtype → CScript → Bool → Bool
  getSha256Inputs : uint256
  getSha256Outputs : uint256
  checkLockTime : CScriptNum → Bool
  checkSequence : CScriptNum → Bool
  getTx : Option CTransaction
  getnIn : Nat

/-- The base class itself: no signature, lock time or sequence checks out, and there is no
transaction. -/
def BaseSignatureChecker.base : BaseSignatureChecker where
  checkSig _ _ _ _ := false
  getSha256Inputs := Vector.replicate 32 0
  getSha256Outputs := Vector.replicate 32 0
  checkLockTime _ := false
  checkSequence _ := false
  getTx := none
  getnIn := 0

/-- The cryptographic routines `EvalScript` calls. `sha256Resume midstate bytes data` is
`CSHA256(midstate, size).Write(data).Finalize()`: SHA-256 continued from a midstate after `bytes`
bytes. -/
structure Crypto where
  ripemd160 : List UInt8 → Vector UInt8 20
  sha1 : List UInt8 → Vector UInt8 20
  sha256 : List UInt8 → Vector UInt8 32
  hash160 : List UInt8 → Vector UInt8 20
  hash256 : List UInt8 → Vector UInt8 32
  sha256Resume : Vector UInt8 32 → Nat → List UInt8 → Vector UInt8 32
  checkLowS : List UInt8 → Bool

/-- `task::CCancellationToken`: the answer of `IsCanceled` at each of its calls. -/
structure CCancellationToken where
  isCanceled : Nat → Bool

/-- What `EvalScript` reads and does not change. -/
structure Env where
  config : CScriptConfig
  consensus : Bool
  token : CCancellationToken
  flags : UInt32
  checker : BaseSignatureChecker
  crypto : Crypto
  ssl : Openssl

namespace Env

variable (env : Env)

def utxoAfterGenesis : Bool := hasFlag env.flags SCRIPT_UTXO_AFTER_GENESIS

def fRequireMinimal : Bool := hasFlag env.flags SCRIPT_VERIFY_MINIMALDATA

def maxScriptNumLength : Nat :=
  env.config.getMaxScriptNumLength env.utxoAfterGenesis env.consensus

def isValidMaxOpsPerScript (nOpCount : Nat) : Bool :=
  nOpCount ≤ env.config.getMaxOpsPerScript env.utxoAfterGenesis env.consensus

end Env

def Env.sample (flags : UInt32) (checker : BaseSignatureChecker) : Env where
  config := GlobalConfig.default.toScriptConfig
  consensus := true
  token := ⟨fun _ => false⟩
  flags := flags
  checker := checker
  crypto := ⟨fun _ => Vector.replicate 20 0, fun _ => Vector.replicate 20 0,
    fun _ => Vector.replicate 32 0, fun _ => Vector.replicate 20 0,
    fun _ => Vector.replicate 32 0, fun _ _ _ => Vector.replicate 32 0, fun _ => true⟩
  ssl := Openssl.reference

/-- One open conditional: its entry of `vfExec` (whether its current branch executes) and of
`vfElse` (whether its `OP_ELSE` has been seen). The source keeps the two in vectors that are
pushed and popped together. -/
structure Branch where
  vfExec : Bool
  vfElse : Bool
  deriving DecidableEq, Repr

/-- What `EvalScript` changes: the root stack with its child, its locals, and the number of calls
to the token. The open conditionals are listed innermost first; `pc` and `pbegincodehash` are the
rest of the script from the iterator on. -/
structure EvalState where
  root : LimitedStack
  pc : CScript
  pbegincodehash : CScript
  branches : List Branch
  nOpCount : Nat
  nonTopLevelReturnAfterGenesis : Bool
  ipc : Nat
  polls : Nat
  deriving DecidableEq, Repr

def EvalState.allExec (s : EvalState) : Bool := s.branches.all (·.vfExec)

/-- How a program of the interpreter stops early. -/
inductive Stop where
  /-- `return {}` after a cancellation. -/
  | canceled
  /-- `return set_error(serror, e)`. -/
  | failure (e : ScriptError)
  /-- `return set_success(serror)`. -/
  | success
  /-- An exception on its way to the `catch` clauses after the loop. -/
  | raise (e : Exception)
  /-- A read past the end of a vector, which the source does not check. -/
  | undefined
  /-- A failed `assert`. -/
  | assertFailed
  deriving DecidableEq, Repr

/-- The `catch` clauses: an exception becomes the error it is reported as. -/
def Stop.caught : Stop → Stop
  | .raise e => .failure e.toScriptError
  | s => s

/-- Programs of the interpreter. -/
abbrev EvalM := EStateM Stop EvalState

/-! ## Primitives -/

def setError (e : ScriptError) : EvalM α := throw (.failure e)

def setSuccess : EvalM α := throw .success

def readAt (l : List UInt8) (i : Nat) : EvalM UInt8 :=
  match l[i]? with
  | some b => pure b
  | none => throw .undefined

/-- `token.IsCanceled()`: the token's answer at this call. -/
def isCanceled (env : Env) : EvalM Bool :=
  modifyGet fun s => (env.token.isCanceled s.polls, { s with polls := s.polls + 1 })

/-- A `LimitedStack` operation on the two stacks; its exceptions are thrown on. -/
def onStacks (m : StackM α) : EvalM α :=
  focus EvalState.root (fun t s => { s with root := t }) Stop.raise m

def scriptNum (env : Env) (span : List UInt8) (fRequireMinimal : Bool) (nMaxNumSize : Nat)
    (big_int : Bool) : EvalM CScriptNum :=
  match CScriptNum.ofSpan env.ssl span fRequireMinimal nMaxNumSize big_int with
  | .ok n => pure n
  | .error e => throw (.raise e)

/-- `CScriptNum::to_size_t_limited`, which asserts that the number is in `0..INT32_MAX`. -/
def toSizeTLimited (n : CScriptNum) : EvalM Nat :=
  if 0 ≤ n.value ∧ n.value ≤ 2147483647 then pure n.value.toNat else throw .assertFailed

/-- The `int` an index of type `uint64_t` converts to: the value modulo `2 ^ 32`, as a signed
number. -/
def toInt32 (v : Int) : Int :=
  let m := v % 2 ^ 32
  if m ≥ 2 ^ 31 then m - 2 ^ 32 else m

/-! ## The stacks

`stack` is the main stack and `altstack` its child; the operations below are those of
`LimitedStack` and `LimitedVector` on them. -/

def stackSize : EvalM Nat := onStacks (LimitedStack.size .main)
def altstackSize : EvalM Nat := onStacks (LimitedStack.size .alt)
def stacktop (index : Int) : EvalM LimitedVector := onStacks (LimitedStack.stacktop .main index)
def popBack : EvalM Unit := onStacks (LimitedStack.popBack .main)
def pushBack (element : valtype) : EvalM Unit := onStacks (LimitedStack.pushBack .main element)
def pushBackVector (element : LimitedVector) : EvalM Unit :=
  onStacks (LimitedStack.pushBackVector .main element)
def erase (index : Int) : EvalM Unit := onStacks (LimitedStack.erase .main index)
def eraseRange (first last : Int) : EvalM Unit :=
  onStacks (LimitedStack.eraseRange .main first last)
def insert (position : Int) (element : LimitedVector) : EvalM Unit :=
  onStacks (LimitedStack.insert .main position element)
def swapElements (index1 index2 : Nat) : EvalM Unit :=
  onStacks (LimitedStack.swapElements .main index1 index2)
def moveTopToStack (r other : StackRef) : EvalM Unit :=
  onStacks (LimitedStack.moveTopToStack r other)
/-- A write through the reference `stack.stacktop(-i)`. -/
def modifyElement (i : Nat) (f : valtype → valtype) : EvalM Unit :=
  onStacks (LimitedStack.modifyElement .main i f)
def append (i : Nat) (second : valtype) : EvalM Unit :=
  onStacks (LimitedStack.append .main i second)
def padRight (i size : Nat) (signbit : UInt8) : EvalM Unit :=
  onStacks (LimitedStack.padRight .main i size signbit)
def minimallyEncode (i : Nat) : EvalM Bool := onStacks (LimitedStack.minimallyEncode .main i)

/-- `if (stack.size() < n) return set_error(serror, e);`: the check before every opcode that
reads the top of a stack. -/
def requireSize (n : Nat) (e : ScriptError) : EvalM Unit := do
  if (← stackSize) < n then setError e

/-! ## What the stacks see

A program that changes the stacks only through `onStacks` keeps every invariant of the stacks
that the `LimitedStack` operations keep. -/

section Frame

variable {I : LimitedStack → Prop}

theorem run_onStacks (m : StackM α) (s : EvalState) :
    (onStacks m).run s = match m.run s.root with
      | .ok a t => .ok a { s with root := t }
      | .error e t => .error (Stop.raise e) { s with root := t } := by
  rw [onStacks, run_focus]
  cases m.run s.root <;> rfl

theorem keeps_onStacks_of {J : EvalState → Prop} (hJ : ∀ s t, J s → J { s with root := t })
    {m : StackM α} : Keeps J (onStacks m) := by
  intro s hs
  rw [run_onStacks]
  cases m.run s.root <;> exact hJ s _ hs

theorem keeps_onStacks {m : StackM α} (h : Keeps I m) :
    Keeps (fun s : EvalState => I s.root) (onStacks m) :=
  Keeps.focus h fun _ _ => rfl

theorem triple_onStacks {P : LimitedStack → Prop} {Q : α → LimitedStack → Prop}
    {E : LimitedStack → Prop} {m : StackM α} (h : Triple P m Q fun _ => E) :
    Triple (fun s : EvalState => P s.root) (onStacks m) (fun a s => Q a s.root)
      (fun _ s => E s.root) := by
  intro s hs
  have h' := h s.root hs
  rw [run_onStacks]
  revert h'
  cases m.run s.root <;> exact id

@[simp] theorem run_isCanceled (env : Env) (s : EvalState) :
    (isCanceled env).run s = .ok (env.token.isCanceled s.polls) { s with polls := s.polls + 1 } :=
  rfl

theorem readsOnly_readAt (l : List UInt8) (i : Nat) : ReadsOnly (readAt l i) := by
  unfold readAt
  split
  · exact ReadsOnly.pure' _
  · exact ReadsOnly.throw' _

theorem readsOnly_scriptNum (env : Env) (span : List UInt8) (fRequireMinimal : Bool) (n : Nat)
    (b : Bool) : ReadsOnly (scriptNum env span fRequireMinimal n b) := by
  unfold scriptNum
  split
  · exact ReadsOnly.pure' _
  · exact ReadsOnly.throw' _

theorem readsOnly_toSizeTLimited (n : CScriptNum) : ReadsOnly (toSizeTLimited n) := by
  unfold toSizeTLimited
  split
  · exact ReadsOnly.pure' _
  · exact ReadsOnly.throw' _

theorem readsOnly_onStacks {m : StackM α} (h : ReadsOnly m) : ReadsOnly (onStacks m) := by
  intro s
  have hs := h s.root
  rw [run_onStacks]
  revert hs
  cases m.run s.root with
  | ok a t => intro hs; simp only [finalState_ok] at hs ⊢; rw [hs]
  | error e t => intro hs; simp only [finalState_error] at hs ⊢; rw [hs]

theorem readsOnly_stackSize : ReadsOnly stackSize := readsOnly_onStacks LimitedStack.readsOnly_size

theorem readsOnly_altstackSize : ReadsOnly altstackSize :=
  readsOnly_onStacks LimitedStack.readsOnly_size

theorem readsOnly_stacktop (index : Int) : ReadsOnly (stacktop index) :=
  readsOnly_onStacks (LimitedStack.readsOnly_stacktop index)

theorem mem_stack_of_run_stacktop {index : Int} {s s' : EvalState} {v : LimitedVector}
    (h : (stacktop index).run s = .ok v s') :
    s' = s ∧ v.element ∈ s.root.stack.drop (s.root.stack.length - index.natAbs) := by
  rw [stacktop, run_onStacks] at h
  cases hst : (LimitedStack.stacktop .main index).run s.root with
  | error e t =>
    rw [hst] at h
    cases h
  | ok a t =>
    rw [hst] at h
    cases h
    obtain ⟨rfl, -, hmem⟩ := LimitedStack.mem_of_run_stacktop hst
    exact ⟨rfl, hmem⟩

theorem readsOnly_requireSize (n : Nat) (e : ScriptError) : ReadsOnly (requireSize n e) :=
  ReadsOnly.bind readsOnly_stackSize fun _ => ReadsOnly.ite' (ReadsOnly.throw' _) (ReadsOnly.pure' _)

end Frame

end TbcNode.Script.Interpreter
