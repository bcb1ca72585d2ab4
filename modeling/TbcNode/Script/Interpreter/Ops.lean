import TbcNode.Script.Interpreter.Machine

/-! # The opcodes of `EvalScript`

One definition per `case` group of the interpreter's `switch`, in the source's order; `execOpcode`
runs the group of an opcode. A `LimitedVector &` written through is modelled by the operations that
change the `i`-th element from the top in place.
-/

namespace TbcNode.Script.Interpreter

open TbcNode.Logic TbcNode.Primitives TbcNode.Encoding

def vchTrue : valtype := [1]

def vchFalse : valtype := []

/-- A value behind a pointer; the null pointer is `none`, and dereferencing it is undefined. -/
def deref : Option α → EvalM α
  | some a => pure a
  | none => throw .undefined

/-- An element of a `std::vector` read with `operator[]`, which does not check the index. -/
def elementAt (l : List α) (i : Nat) : EvalM α :=
  match l[i]? with
  | some a => pure a
  | none => throw .undefined

/-- A check that returns `false` after setting the error (or reads out of range). -/
def liftCheck (x : Except Stop Unit) : EvalM Unit :=
  match x with
  | .ok _ => pure ()
  | .error e => throw e

section

variable (env : Env)

/-! ## Signatures and public keys -/

/-- `IsLowDERSignature`: a strict DER signature whose `S` is in the lower half of the order. -/
def isLowDERSignature (vchSig : List UInt8) : Except Stop Unit :=
  match isValidSignatureEncoding vchSig with
  | none => throw .undefined
  | some false => throw (.failure .SCRIPT_ERR_SIG_DER)
  | some true =>
    if env.crypto.checkLowS vchSig.dropLast then pure () else throw (.failure .SCRIPT_ERR_SIG_HIGH_S)

def checkSignatureEncoding (vchSig : List UInt8) : Except Stop Unit := do
  if vchSig = [] then return
  if hasFlag env.flags (SCRIPT_VERIFY_DERSIG ||| SCRIPT_VERIFY_LOW_S ||| SCRIPT_VERIFY_STRICTENC) then
    match isValidSignatureEncoding vchSig with
    | none => throw .undefined
    | some false => throw (.failure .SCRIPT_ERR_SIG_DER)
    | some true => pure ()
  if hasFlag env.flags SCRIPT_VERIFY_LOW_S then isLowDERSignature env vchSig
  if hasFlag env.flags SCRIPT_VERIFY_STRICTENC then
    if !(getHashType vchSig).isDefined then throw (.failure .SCRIPT_ERR_SIG_HASHTYPE)
    let usesForkId := (getHashType vchSig).hasForkId
    let forkIdEnabled := hasFlag env.flags SCRIPT_ENABLE_SIGHASH_FORKID
    if !forkIdEnabled && usesForkId then throw (.failure .SCRIPT_ERR_ILLEGAL_FORKID)
    if forkIdEnabled && !usesForkId then throw (.failure .SCRIPT_ERR_MUST_USE_FORKID)

def checkPubKeyEncoding (vchPubKey : List UInt8) : Except Stop Unit := do
  if hasFlag env.flags SCRIPT_VERIFY_STRICTENC && !isCompressedOrUncompressedPubKey vchPubKey then
    throw (.failure .SCRIPT_ERR_PUBKEYTYPE)
  if hasFlag env.flags SCRIPT_VERIFY_COMPRESSED_PUBKEYTYPE && !isCompressedPubKey vchPubKey then
    throw (.failure .SCRIPT_ERR_NONCOMPRESSED_PUBKEY)

/-- `CleanupScriptCode`: without `SIGHASH_FORKID`, the signature is removed from the code. -/
def cleanupScriptCode (scriptCode : CScript) (vchSig : List UInt8) : CScript :=
  if !hasFlag env.flags SCRIPT_ENABLE_SIGHASH_FORKID || !(getHashType vchSig).hasForkId then
    (findAndDelete scriptCode (pushData vchSig)).1
  else scriptCode

/-! ## Push value and control -/

def opPushNumber (opcode : UInt8) : EvalM Unit :=
  pushBack ((CScriptNum.int64 ((opcode.toNat : Int) - (OP_1.toNat - 1))).getvch env.ssl)

/-- An upgradable `NOP`: an error under `SCRIPT_VERIFY_DISCOURAGE_UPGRADABLE_NOPS`. -/
def discourageUpgradableNops : EvalM Unit := do
  if hasFlag env.flags SCRIPT_VERIFY_DISCOURAGE_UPGRADABLE_NOPS then
    setError .SCRIPT_ERR_DISCOURAGE_UPGRADABLE_NOPS

/-- `OP_CHECKLOCKTIMEVERIFY`; a `NOP2` when not enabled or after Genesis. -/
def opCheckLockTimeVerify : EvalM Unit := do
  if !hasFlag env.flags SCRIPT_VERIFY_CHECKLOCKTIMEVERIFY || env.utxoAfterGenesis then
    discourageUpgradableNops env
  else
    requireSize 1 .SCRIPT_ERR_INVALID_STACK_OPERATION
    let top ← stacktop (-1)
    let nLockTime ← scriptNum env top.element env.fRequireMinimal 5 false
    if nLockTime.value < 0 then setError .SCRIPT_ERR_NEGATIVE_LOCKTIME
    if !env.checker.checkLockTime nLockTime then setError .SCRIPT_ERR_UNSATISFIED_LOCKTIME

/-- `OP_CHECKSEQUENCEVERIFY`; a `NOP3` when not enabled or after Genesis. With the disable flag set
it is a `NOP`. -/
def opCheckSequenceVerify : EvalM Unit := do
  if !hasFlag env.flags SCRIPT_VERIFY_CHECKSEQUENCEVERIFY || env.utxoAfterGenesis then
    discourageUpgradableNops env
  else
    requireSize 1 .SCRIPT_ERR_INVALID_STACK_OPERATION
    let top ← stacktop (-1)
    let nSequence ← scriptNum env top.element env.fRequireMinimal 5 false
    if nSequence.value < 0 then setError .SCRIPT_ERR_NEGATIVE_LOCKTIME
    if nSequence.value.toNat &&& SEQUENCE_LOCKTIME_DISABLE_FLAG = 0 then
      if !env.checker.checkSequence nSequence then setError .SCRIPT_ERR_UNSATISFIED_LOCKTIME

/-- The element `OP_PUSH_META` pushes for its condition byte: a field of the spending
transaction, copied from its `uint32_t` with `memcpy` (little-endian), or a hash of the checker.
`uint8_t n = checker.GetnIn()` keeps the low byte of the input index. -/
def pushMetaItem (condition : UInt8) : EvalM valtype :=
  match condition.toNat with
  | 1 => do
    let tx ← deref env.checker.getTx
    pure (writeLE 4 tx.nVersion.toUInt32.toNat)
  | 2 => do
    let tx ← deref env.checker.getTx
    pure (writeLE 4 tx.nLockTime.toNat)
  | 3 => do
    let tx ← deref env.checker.getTx
    pure (writeLE 4 tx.vin.length)
  | 4 => do
    let tx ← deref env.checker.getTx
    pure (writeLE 4 tx.vout.length)
  | 5 => pure env.checker.getSha256Inputs.toList
  | 6 => do
    let tx ← deref env.checker.getTx
    let txin ← elementAt tx.vin (env.checker.getnIn % 256)
    pure (txin.prevout.txid.toList ++ writeLE 4 txin.prevout.n.toNat ++
      writeLE 4 txin.nSequence.toNat)
  | 7 => pure env.checker.getSha256Outputs.toList
  | _ => setError .SCRIPT_ERR_INVALID_STACK_OPERATION

/-- `OP_PUSH_META`: replaces a condition byte in `1..7` on top of the stack by a field of the
transaction. An empty top element passes both checks and is then read at index `0`. -/
def opPushMeta : EvalM Unit := do
  requireSize 1 .SCRIPT_ERR_INVALID_STACK_OPERATION
  let vch ← stacktop (-1)
  if vch.element.length > 1 then setError .SCRIPT_ERR_INVALID_STACK_OPERATION
  if vch.element.length = 1 then
    let b ← readAt vch.element 0
    if b < 1 ∨ b > 7 then setError .SCRIPT_ERR_INVALID_STACK_OPERATION
  let condition ← readAt vch.element 0
  popBack
  pushBack (← pushMetaItem env condition)

/-- `OP_PARTIAL_HASH`: `data midstate size -- hash`, SHA-256 of `data` from scratch when the
midstate is empty (and `size` is the length of `data`), else continued from the midstate after
`size - |data|` bytes. `vchSizeUint64 |= uint64_t(vchSize[i]) << (8 * i)` shifts by 64 bits or more
past 8 bytes, and the midstate constructor reads 32 bytes of the element. -/
def opPartialHash : EvalM Unit := do
  requireSize 3 .SCRIPT_ERR_INVALID_STACK_OPERATION
  let vch ← stacktop (-3)
  let vchPartHash ← stacktop (-2)
  let vchSize ← stacktop (-1)
  popBack
  popBack
  popBack
  if vchSize.element.length > 8 then throw .undefined
  let vchSizeUint64 := readLE vchSize.element
  let remainVchSizeUint64 := vch.element.length
  if vchPartHash.element.length = 0 then
    if vchSizeUint64 ≠ remainVchSizeUint64 then setError .SCRIPT_ERR_INVALID_STACK_OPERATION
    else pushBack (env.crypto.sha256 vch.element).toList
  else
    let partHashSize := (((vchSizeUint64 : Int) - remainVchSizeUint64) % 2 ^ 64).toNat
    if vchPartHash.element.length < 32 then throw .undefined
    let midstate : Vector UInt8 32 := Vector.ofFn fun i => vchPartHash.element.getD i 0
    pushBack (env.crypto.sha256Resume midstate partHashSize vch.element).toList

/-- The value an executed `OP_IF` or `OP_NOTIF` branches on: the top element, popped. -/
def popCondition (opcode : UInt8) : EvalM Bool := do
  requireSize 1 .SCRIPT_ERR_UNBALANCED_CONDITIONAL
  let vch ← stacktop (-1)
  if hasFlag env.flags SCRIPT_VERIFY_MINIMALIF then
    if vch.element.length > 1 then setError .SCRIPT_ERR_MINIMALIF
    if vch.element.length = 1 then
      if (← readAt vch.element 0) ≠ 1 then setError .SCRIPT_ERR_MINIMALIF
  let fValue := castToBool vch.element
  popBack
  return if opcode = OP_NOTIF then !fValue else fValue

/-- `OP_IF`, `OP_NOTIF`: opens a conditional, executed only when the opcode is. -/
def opIf (opcode : UInt8) (fExec : Bool) : EvalM Unit := do
  let fValue ← if fExec then popCondition env opcode else pure false
  modify fun s => { s with branches := ⟨fValue, false⟩ :: s.branches }

/-- `OP_ELSE`: after Genesis a conditional takes one `OP_ELSE`. -/
def opElse : EvalM Unit := do
  let s ← get
  match s.branches with
  | [] => setError .SCRIPT_ERR_UNBALANCED_CONDITIONAL
  | b :: bs =>
    if b.vfElse && env.utxoAfterGenesis then setError .SCRIPT_ERR_UNBALANCED_CONDITIONAL
    else set { s with branches := ⟨!b.vfExec, true⟩ :: bs }

def opEndIf : EvalM Unit := do
  let s ← get
  match s.branches with
  | [] => setError .SCRIPT_ERR_UNBALANCED_CONDITIONAL
  | _ :: bs => set { s with branches := bs }

def opVerify : EvalM Unit := do
  requireSize 1 .SCRIPT_ERR_INVALID_STACK_OPERATION
  let top ← stacktop (-1)
  if castToBool top.element then popBack else setError .SCRIPT_ERR_VERIFY

/-- `OP_RETURN`: before Genesis an error; after it, success at the top level and otherwise the
mark that only the grammar of the rest is checked. -/
def opReturn : EvalM Unit := do
  if env.utxoAfterGenesis then
    if (← get).branches = [] then setSuccess
    modify fun s => { s with nonTopLevelReturnAfterGenesis := true }
  else setError .SCRIPT_ERR_OP_RETURN

/-! ## Stack operations -/

def opToAltStack : EvalM Unit := do
  requireSize 1 .SCRIPT_ERR_INVALID_STACK_OPERATION
  moveTopToStack .alt .main

def opFromAltStack : EvalM Unit := do
  if (← altstackSize) < 1 then setError .SCRIPT_ERR_INVALID_ALTSTACK_OPERATION
  moveTopToStack .main .alt

def op2Drop : EvalM Unit := do
  requireSize 2 .SCRIPT_ERR_INVALID_STACK_OPERATION
  popBack
  popBack

def op2Dup : EvalM Unit := do
  requireSize 2 .SCRIPT_ERR_INVALID_STACK_OPERATION
  let vch1 ← stacktop (-2)
  let vch2 ← stacktop (-1)
  pushBackVector vch1
  pushBackVector vch2

def op3Dup : EvalM Unit := do
  requireSize 3 .SCRIPT_ERR_INVALID_STACK_OPERATION
  let vch1 ← stacktop (-3)
  let vch2 ← stacktop (-2)
  let vch3 ← stacktop (-1)
  pushBackVector vch1
  pushBackVector vch2
  pushBackVector vch3

def op2Over : EvalM Unit := do
  requireSize 4 .SCRIPT_ERR_INVALID_STACK_OPERATION
  let vch1 ← stacktop (-4)
  let vch2 ← stacktop (-3)
  pushBackVector vch1
  pushBackVector vch2

def op2Rot : EvalM Unit := do
  requireSize 6 .SCRIPT_ERR_INVALID_STACK_OPERATION
  let vch1 ← stacktop (-6)
  let vch2 ← stacktop (-5)
  eraseRange (-6) (-4)
  pushBackVector vch1
  pushBackVector vch2

def op2Swap : EvalM Unit := do
  requireSize 4 .SCRIPT_ERR_INVALID_STACK_OPERATION
  swapElements ((← stackSize) - 4) ((← stackSize) - 2)
  swapElements ((← stackSize) - 3) ((← stackSize) - 1)

def opIfDup : EvalM Unit := do
  requireSize 1 .SCRIPT_ERR_INVALID_STACK_OPERATION
  let vch ← stacktop (-1)
  if castToBool vch.element then pushBackVector vch

/-- `OP_DEPTH`: the size, as a `bsv::bint` number. -/
def opDepth : EvalM Unit := do
  let bn := CScriptNum.bint (← stackSize)
  pushBack (bn.getvch env.ssl)

def opDrop : EvalM Unit := do
  requireSize 1 .SCRIPT_ERR_INVALID_STACK_OPERATION
  popBack

def opDup : EvalM Unit := do
  requireSize 1 .SCRIPT_ERR_INVALID_STACK_OPERATION
  let vch ← stacktop (-1)
  pushBackVector vch

def opNip : EvalM Unit := do
  requireSize 2 .SCRIPT_ERR_INVALID_STACK_OPERATION
  erase (-2)

def opOver : EvalM Unit := do
  requireSize 2 .SCRIPT_ERR_INVALID_STACK_OPERATION
  let vch ← stacktop (-2)
  pushBackVector vch

def opPickRoll (opcode : UInt8) : EvalM Unit := do
  requireSize 2 .SCRIPT_ERR_INVALID_STACK_OPERATION
  let top ← stacktop (-1)
  let sn ← scriptNum env top.element env.fRequireMinimal env.maxScriptNumLength env.utxoAfterGenesis
  popBack
  if sn.value < 0 ∨ sn.value ≥ (← stackSize) then setError .SCRIPT_ERR_INVALID_STACK_OPERATION
  let n ← toSizeTLimited sn
  let vch ← stacktop (toInt32 (-(n : Int) - 1))
  if opcode = OP_ROLL then erase (toInt32 (-(n : Int) - 1))
  pushBackVector vch

def opRot : EvalM Unit := do
  requireSize 3 .SCRIPT_ERR_INVALID_STACK_OPERATION
  swapElements ((← stackSize) - 3) ((← stackSize) - 2)
  swapElements ((← stackSize) - 2) ((← stackSize) - 1)

def opSwap : EvalM Unit := do
  requireSize 2 .SCRIPT_ERR_INVALID_STACK_OPERATION
  swapElements ((← stackSize) - 2) ((← stackSize) - 1)

def opTuck : EvalM Unit := do
  requireSize 2 .SCRIPT_ERR_INVALID_STACK_OPERATION
  let vch ← stacktop (-1)
  insert (-2) vch

/-- `OP_SIZE`: the size of the top element, as a `bsv::bint` number. -/
def opSize : EvalM Unit := do
  requireSize 1 .SCRIPT_ERR_INVALID_STACK_OPERATION
  let top ← stacktop (-1)
  let bn := CScriptNum.bint top.element.length
  pushBack (bn.getvch env.ssl)

/-! ## Bitwise logic -/

/-- The byte operation of `OP_AND`, `OP_OR`, `OP_XOR`; the inner `switch` does nothing for any
other opcode. -/
def bitwiseOp (opcode : UInt8) (a b : UInt8) : UInt8 :=
  if opcode = OP_AND then a &&& b
  else if opcode = OP_OR then a ||| b
  else if opcode = OP_XOR then a ^^^ b
  else a

/-- `OP_AND`, `OP_OR`, `OP_XOR`: the second element from the top is changed in place. -/
def opBitwise (opcode : UInt8) : EvalM Unit := do
  requireSize 2 .SCRIPT_ERR_INVALID_STACK_OPERATION
  let vch1 ← stacktop (-2)
  let vch2 ← stacktop (-1)
  if vch1.element.length ≠ vch2.element.length then setError .SCRIPT_ERR_INVALID_OPERAND_SIZE
  modifyElement 2 fun e => e.mapIdx fun i a => bitwiseOp opcode a (vch2.element.getD i 0)
  popBack

/-- `OP_INVERT`: the top element is changed in place. -/
def opInvert : EvalM Unit := do
  requireSize 1 .SCRIPT_ERR_INVALID_STACK_OPERATION
  modifyElement 1 fun e => e.map (~~~ ·)

def rshiftMask (n : Nat) : UInt8 := [0xFF, 0xFE, 0xFC, 0xF8, 0xF0, 0xE0, 0xC0, 0x80].getD n 0

def lshiftMask (n : Nat) : UInt8 := [0xFF, 0x7F, 0x3F, 0x1F, 0x0F, 0x07, 0x03, 0x01].getD n 0

/-- `RShift`: the loop over the bytes of `x`, each shifted into its byte and a carry into the
next. Shifts are on the promoted `int` and stored back into a byte. -/
def rshift (x : valtype) (n : Nat) : valtype :=
  let bitShift := n % 8
  let byteShift := n / 8
  let mask := rshiftMask bitShift
  let overflowMask := ~~~mask
  (List.range x.length).foldl (fun result i =>
      let xi := x.getD i 0
      let k := i + byteShift
      let result :=
        if k < x.length then result.modify k (· ||| UInt8.ofNat ((xi &&& mask).toNat >>> bitShift))
        else result
      if k + 1 < x.length then
        result.modify (k + 1) (· ||| UInt8.ofNat ((xi &&& overflowMask).toNat <<< (8 - bitShift)))
      else result)
    (List.replicate x.length 0)

/-- `LShift`: the loop from the last byte down. -/
def lshift (x : valtype) (n : Nat) : valtype :=
  let bitShift := n % 8
  let byteShift := n / 8
  let mask := lshiftMask bitShift
  let overflowMask := ~~~mask
  (List.range x.length).reverse.foldl (fun result i =>
      if byteShift ≤ i then
        let xi := x.getD i 0
        let k := i - byteShift
        let result := result.modify k (· ||| UInt8.ofNat ((xi &&& mask).toNat <<< bitShift))
        if k ≥ 1 then
          result.modify (k - 1) (· ||| UInt8.ofNat ((xi &&& overflowMask).toNat >>> (8 - bitShift)))
        else result
      else result)
    (List.replicate x.length 0)

/-- The `do ... while (n > 0)` of the shifts: shift by `n.getint()`, poll the token, and subtract
`INT32_MAX` in `n`'s own representation. `fuel` bounds the rounds. -/
def shiftLoop (shift : valtype → Nat → valtype) : Nat → valtype → CScriptNum → EvalM valtype
  | 0, values, _ => pure values
  | fuel + 1, values, n => do
    let values := shift values n.getint.toNat
    if ← isCanceled env then throw .canceled
    let n := n.sub env.ssl
      (if env.utxoAfterGenesis then .bint 2147483647 else .int64 2147483647)
    if n.value > 0 then shiftLoop shift fuel values n else pure values

/-- `OP_LSHIFT`, `OP_RSHIFT` with their shift function. -/
def opShift (shift : valtype → Nat → valtype) : EvalM Unit := do
  requireSize 2 .SCRIPT_ERR_INVALID_STACK_OPERATION
  let vch1 ← stacktop (-2)
  let top ← stacktop (-1)
  let n ← scriptNum env top.element env.fRequireMinimal env.maxScriptNumLength env.utxoAfterGenesis
  if n.value < 0 then setError .SCRIPT_ERR_INVALID_NUMBER_RANGE
  popBack
  popBack
  let values := vch1.element
  let values ← if n.value ≥ values.length * 8 then pure (List.replicate values.length 0)
    else shiftLoop env shift (n.value.toNat / 2147483647 + 1) values n
  pushBack values

def opEqual (opcode : UInt8) : EvalM Unit := do
  requireSize 2 .SCRIPT_ERR_INVALID_STACK_OPERATION
  let vch1 ← stacktop (-2)
  let vch2 ← stacktop (-1)
  let fEqual := vch1.element = vch2.element
  popBack
  popBack
  pushBack (if fEqual then vchTrue else vchFalse)
  if opcode = OP_EQUALVERIFY then
    if fEqual then popBack else setError .SCRIPT_ERR_EQUALVERIFY

/-! ## Numeric -/

/-- `CScriptNum{bsv::bint{1}}` after Genesis, `bnOne` before. -/
def scriptNumOne : CScriptNum := if env.utxoAfterGenesis then .bint 1 else .int64 1

/-- The inner `switch` of `OP_1ADD` ... `OP_0NOTEQUAL`; its `default` asserts. -/
def unaryNumeric (opcode : UInt8) (bn : CScriptNum) : EvalM CScriptNum :=
  if opcode = OP_1ADD then pure (bn.add env.ssl (scriptNumOne env))
  else if opcode = OP_1SUB then pure (bn.sub env.ssl (scriptNumOne env))
  else if opcode = OP_NEGATE then pure bn.neg
  else if opcode = OP_ABS then pure (if bn.value < 0 then bn.neg else bn)
  else if opcode = OP_NOT then pure (CScriptNum.ofBool (bn.value = 0))
  else if opcode = OP_0NOTEQUAL then pure (CScriptNum.ofBool (bn.value ≠ 0))
  else throw .assertFailed

/-- `OP_1ADD`, `OP_1SUB`, `OP_NEGATE`, `OP_ABS`, `OP_NOT`, `OP_0NOTEQUAL`. -/
def opUnaryNumeric (opcode : UInt8) : EvalM Unit := do
  requireSize 1 .SCRIPT_ERR_INVALID_STACK_OPERATION
  let top ← stacktop (-1)
  let bn ← scriptNum env top.element env.fRequireMinimal env.maxScriptNumLength env.utxoAfterGenesis
  let bn ← unaryNumeric env opcode bn
  popBack
  pushBack (bn.getvch env.ssl)

/-- The inner `switch` of `OP_ADD` ... `OP_MAX`; its `default` asserts. -/
def binaryNumeric (opcode : UInt8) (bn1 bn2 : CScriptNum) : EvalM CScriptNum :=
  if opcode = OP_ADD then pure (bn1.add env.ssl bn2)
  else if opcode = OP_SUB then pure (bn1.sub env.ssl bn2)
  else if opcode = OP_MUL then pure (bn1.mul env.ssl bn2)
  else if opcode = OP_DIV then
    if bn2.value = 0 then setError .SCRIPT_ERR_DIV_BY_ZERO else pure (bn1.div env.ssl bn2)
  else if opcode = OP_MOD then
    if bn2.value = 0 then setError .SCRIPT_ERR_MOD_BY_ZERO else pure (bn1.mod env.ssl bn2)
  else if opcode = OP_BOOLAND then pure (CScriptNum.ofBool (bn1.value ≠ 0 ∧ bn2.value ≠ 0))
  else if opcode = OP_BOOLOR then pure (CScriptNum.ofBool (bn1.value ≠ 0 ∨ bn2.value ≠ 0))
  else if opcode = OP_NUMEQUAL then pure (CScriptNum.ofBool (bn1.value = bn2.value))
  else if opcode = OP_NUMEQUALVERIFY then pure (CScriptNum.ofBool (bn1.value = bn2.value))
  else if opcode = OP_NUMNOTEQUAL then pure (CScriptNum.ofBool (bn1.value ≠ bn2.value))
  else if opcode = OP_LESSTHAN then pure (CScriptNum.ofBool (bn1.value < bn2.value))
  else if opcode = OP_GREATERTHAN then pure (CScriptNum.ofBool (bn1.value > bn2.value))
  else if opcode = OP_LESSTHANOREQUAL then pure (CScriptNum.ofBool (bn1.value ≤ bn2.value))
  else if opcode = OP_GREATERTHANOREQUAL then pure (CScriptNum.ofBool (bn1.value ≥ bn2.value))
  else if opcode = OP_MIN then pure (if bn1.value < bn2.value then bn1 else bn2)
  else if opcode = OP_MAX then pure (if bn1.value > bn2.value then bn1 else bn2)
  else throw .assertFailed

def opBinaryNumeric (opcode : UInt8) : EvalM Unit := do
  requireSize 2 .SCRIPT_ERR_INVALID_STACK_OPERATION
  let arg2 ← stacktop (-2)
  let arg1 ← stacktop (-1)
  let bn1 ← scriptNum env arg2.element env.fRequireMinimal env.maxScriptNumLength env.utxoAfterGenesis
  let bn2 ← scriptNum env arg1.element env.fRequireMinimal env.maxScriptNumLength env.utxoAfterGenesis
  let bn ← binaryNumeric env opcode bn1 bn2
  popBack
  popBack
  pushBack (bn.getvch env.ssl)
  if opcode = OP_NUMEQUALVERIFY then
    let top ← stacktop (-1)
    if castToBool top.element then popBack else setError .SCRIPT_ERR_NUMEQUALVERIFY

def opWithin : EvalM Unit := do
  requireSize 3 .SCRIPT_ERR_INVALID_STACK_OPERATION
  let top3 ← stacktop (-3)
  let bn1 ← scriptNum env top3.element env.fRequireMinimal env.maxScriptNumLength env.utxoAfterGenesis
  let top2 ← stacktop (-2)
  let bn2 ← scriptNum env top2.element env.fRequireMinimal env.maxScriptNumLength env.utxoAfterGenesis
  let top1 ← stacktop (-1)
  let bn3 ← scriptNum env top1.element env.fRequireMinimal env.maxScriptNumLength env.utxoAfterGenesis
  let fValue := bn2.value ≤ bn1.value ∧ bn1.value < bn3.value
  popBack
  popBack
  popBack
  pushBack (if fValue then vchTrue else vchFalse)

/-! ## Crypto -/

/-- The digest of `OP_RIPEMD160` ... `OP_HASH256`; for any other opcode the buffer stays the 32 zero
bytes it is created with. -/
def hashOf (opcode : UInt8) (data : List UInt8) : valtype :=
  if opcode = OP_RIPEMD160 then (env.crypto.ripemd160 data).toList
  else if opcode = OP_SHA1 then (env.crypto.sha1 data).toList
  else if opcode = OP_SHA256 then (env.crypto.sha256 data).toList
  else if opcode = OP_HASH160 then (env.crypto.hash160 data).toList
  else if opcode = OP_HASH256 then (env.crypto.hash256 data).toList
  else List.replicate 32 0

/-- `OP_RIPEMD160`, `OP_SHA1`, `OP_SHA256`, `OP_HASH160`, `OP_HASH256`. -/
def opHash (opcode : UInt8) : EvalM Unit := do
  requireSize 1 .SCRIPT_ERR_INVALID_STACK_OPERATION
  let vch ← stacktop (-1)
  let vchHash := hashOf env opcode vch.element
  popBack
  pushBack vchHash

/-- `OP_CODESEPARATOR`: the code hashed by signatures starts after it. -/
def opCodeSeparator : EvalM Unit :=
  modify fun s => { s with pbegincodehash := s.pc }

def opCheckSig (opcode : UInt8) : EvalM Unit := do
  requireSize 2 .SCRIPT_ERR_INVALID_STACK_OPERATION
  let vchSig ← stacktop (-2)
  let vchPubKey ← stacktop (-1)
  liftCheck (checkSignatureEncoding env vchSig.element)
  liftCheck (checkPubKeyEncoding env vchPubKey.element)
  let scriptCode := cleanupScriptCode env (← get).pbegincodehash vchSig.element
  let fSuccess := env.checker.checkSig vchSig.element vchPubKey.element scriptCode
    (hasFlag env.flags SCRIPT_ENABLE_SIGHASH_FORKID)
  if !fSuccess && hasFlag env.flags SCRIPT_VERIFY_NULLFAIL && vchSig.element ≠ [] then
    setError .SCRIPT_ERR_SIG_NULLFAIL
  popBack
  popBack
  pushBack (if fSuccess then vchTrue else vchFalse)
  if opcode = OP_CHECKSIGVERIFY then
    if fSuccess then popBack else setError .SCRIPT_ERR_CHECKSIGVERIFY

/-- The `for` loop of `OP_CHECKMULTISIG` that removes each signature from the code. -/
def cleanupSigs (isig nSigsCount : Nat) (scriptCode : CScript) : EvalM CScript :=
  (List.range nSigsCount).foldlM (fun scriptCode k => do
    let vchSig ← stacktop (toInt32 (-((isig + k : Nat) : Int)))
    pure (cleanupScriptCode env scriptCode vchSig.element)) scriptCode

/-- The `while (fSuccess && nSigsCount > 0)` loop of `OP_CHECKMULTISIG`, on fuel: each round uses
up a key. Returns `fSuccess`. More signatures left than keys means too many have failed. -/
def checkSigsLoop (scriptCode : CScript) :
    Nat → (isig ikey nSigsCount nKeysCount : Nat) → (fSuccess : Bool) → EvalM Bool
  | 0, _, _, _, _, fSuccess => pure fSuccess
  | fuel + 1, isig, ikey, nSigsCount, nKeysCount, fSuccess =>
    if fSuccess && nSigsCount > 0 then do
      if ← isCanceled env then throw .canceled
      let vchSig ← stacktop (toInt32 (-(isig : Int)))
      let vchPubKey ← stacktop (toInt32 (-(ikey : Int)))
      liftCheck (checkSignatureEncoding env vchSig.element)
      liftCheck (checkPubKeyEncoding env vchPubKey.element)
      let fOk := env.checker.checkSig vchSig.element vchPubKey.element scriptCode
        (hasFlag env.flags SCRIPT_ENABLE_SIGHASH_FORKID)
      let isig := if fOk then isig + 1 else isig
      let nSigsCount := if fOk then nSigsCount - 1 else nSigsCount
      let ikey := ikey + 1
      let nKeysCount := nKeysCount - 1
      let fSuccess := if nSigsCount > nKeysCount then false else fSuccess
      checkSigsLoop scriptCode fuel isig ikey nSigsCount nKeysCount fSuccess
    else pure fSuccess

/-- `while (i-- > 1)`: pops the arguments, `n` of them, checking under `NULLFAIL` that after a
failed check every signature is empty (`ikey2` counts down the keys and counts). -/
def popArgs (fSuccess : Bool) : Nat → Nat → EvalM Unit
  | 0, _ => pure ()
  | n + 1, ikey2 => do
    if !fSuccess && hasFlag env.flags SCRIPT_VERIFY_NULLFAIL && ikey2 = 0 then
      if (← stacktop (-1)).element ≠ [] then setError .SCRIPT_ERR_SIG_NULLFAIL
    popBack
    popArgs fSuccess n (ikey2 - 1)

/-- `OP_CHECKMULTISIG`, `OP_CHECKMULTISIGVERIFY`. The extra argument it consumes is checked last. -/
def opCheckMultiSig (opcode : UInt8) : EvalM Unit := do
  requireSize 1 .SCRIPT_ERR_INVALID_STACK_OPERATION
  let nKeysCountSigned :=
    (← scriptNum env (← stacktop (toInt32 (-1))).element env.fRequireMinimal 4 false).getint
  if nKeysCountSigned < 0 then setError .SCRIPT_ERR_PUBKEY_COUNT
  let nKeysCount := nKeysCountSigned.toNat
  if nKeysCount > env.config.getMaxPubKeysPerMultiSig env.utxoAfterGenesis env.consensus then
    setError .SCRIPT_ERR_PUBKEY_COUNT
  modify fun s => { s with nOpCount := s.nOpCount + nKeysCount }
  if !env.isValidMaxOpsPerScript (← get).nOpCount then setError .SCRIPT_ERR_OP_COUNT
  let ikey := 2
  let ikey2 := nKeysCount + 2
  let i := 2 + nKeysCount
  requireSize i .SCRIPT_ERR_INVALID_STACK_OPERATION
  let nSigsCountSigned :=
    (← scriptNum env (← stacktop (toInt32 (-(i : Int)))).element env.fRequireMinimal 4 false).getint
  if nSigsCountSigned < 0 then setError .SCRIPT_ERR_SIG_COUNT
  let nSigsCount := nSigsCountSigned.toNat
  if nSigsCount > nKeysCount then setError .SCRIPT_ERR_SIG_COUNT
  let isig := i + 1
  let i := i + 1 + nSigsCount
  requireSize i .SCRIPT_ERR_INVALID_STACK_OPERATION
  let scriptCode ← cleanupSigs env isig nSigsCount (← get).pbegincodehash
  let fSuccess ← checkSigsLoop env scriptCode nKeysCount isig ikey nSigsCount nKeysCount true
  popArgs env fSuccess (i - 1) ikey2
  requireSize 1 .SCRIPT_ERR_INVALID_STACK_OPERATION
  if hasFlag env.flags SCRIPT_VERIFY_NULLDUMMY then
    if (← stacktop (-1)).element ≠ [] then setError .SCRIPT_ERR_SIG_NULLDUMMY
  popBack
  pushBack (if fSuccess then vchTrue else vchFalse)
  if opcode = OP_CHECKMULTISIGVERIFY then
    if fSuccess then popBack else setError .SCRIPT_ERR_CHECKMULTISIGVERIFY

/-! ## Byte strings and conversions -/

/-- `OP_CAT`: the top is popped before it is appended, so that the append does not count it
twice. -/
def opCat : EvalM Unit := do
  requireSize 2 .SCRIPT_ERR_INVALID_STACK_OPERATION
  let vch1 ← stacktop (-2)
  let vch2 ← stacktop (-1)
  if !env.utxoAfterGenesis && vch1.element.length + vch2.element.length >
      MAX_SCRIPT_ELEMENT_SIZE_BEFORE_GENESIS then
    setError .SCRIPT_ERR_PUSH_SIZE
  popBack
  append 1 vch2.element

def opSplit : EvalM Unit := do
  requireSize 2 .SCRIPT_ERR_INVALID_STACK_OPERATION
  let data ← stacktop (-2)
  let top ← stacktop (-1)
  let n ← scriptNum env top.element env.fRequireMinimal env.maxScriptNumLength env.utxoAfterGenesis
  if n.value < 0 ∨ n.value > data.element.length then setError .SCRIPT_ERR_INVALID_SPLIT_RANGE
  let position ← toSizeTLimited n
  let n1 := data.element.take position
  let n2 := data.element.drop position
  popBack
  popBack
  pushBack n1
  pushBack n2

/-- `OP_NUM2BIN`: the number is re-encoded minimally in place, then padded to `size` bytes with
its sign moved to the new last byte. -/
def opNum2Bin : EvalM Unit := do
  requireSize 2 .SCRIPT_ERR_INVALID_STACK_OPERATION
  let arg1 ← stacktop (-1)
  let n ← scriptNum env arg1.element env.fRequireMinimal env.maxScriptNumLength env.utxoAfterGenesis
  if n.value < 0 ∨ n.value > 2147483647 then setError .SCRIPT_ERR_PUSH_SIZE
  let size ← toSizeTLimited n
  if !env.utxoAfterGenesis && size > MAX_SCRIPT_ELEMENT_SIZE_BEFORE_GENESIS then
    setError .SCRIPT_ERR_PUSH_SIZE
  popBack
  let _ ← minimallyEncode 1
  let rawnum ← stacktop (-1)
  if rawnum.element.length > size then setError .SCRIPT_ERR_IMPOSSIBLE_ENCODING
  if rawnum.element.length ≠ size then
    let signbit ← if rawnum.element.length > 0 then do
        let signbit := rawnum.element.getLastD 0 &&& 0x80
        modifyElement 1 fun e => e.modify (e.length - 1) (· &&& 0x7f)
        pure signbit
      else pure 0
    padRight 1 size signbit

def opBin2Num : EvalM Unit := do
  requireSize 1 .SCRIPT_ERR_INVALID_STACK_OPERATION
  let _ ← minimallyEncode 1
  let n ← stacktop (-1)
  if !isMinimallyEncoded n.element env.maxScriptNumLength then
    setError .SCRIPT_ERR_INVALID_NUMBER_RANGE

/-- The `default` case: after Genesis an unexecuted `OP_VERIF` or `OP_VERNOTIF` is skipped. -/
def opDefault (opcode : UInt8) (fExec : Bool) : EvalM Unit := do
  if isInvalidBranchingOpcode opcode && env.utxoAfterGenesis && !fExec then pure ()
  else setError .SCRIPT_ERR_BAD_OPCODE

end

/-! ## The `switch` -/

/-- The `case` groups of the interpreter's `switch`. -/
inductive OpGroup where
  | pushNumber | nop | checkLockTimeVerify | checkSequenceVerify | pushMeta | partialHash
  | upgradableNop | ifNotIf | elseBranch | endIf | verify | opReturn
  | toAltStack | fromAltStack | twoDrop | twoDup | threeDup | twoOver | twoRot | twoSwap
  | ifDup | depth | drop | dup | nip | over | pickRoll | rot | swap | tuck | size
  | bitwise | invert | lshift | rshift | equal
  | unaryNumeric | binaryNumeric | within
  | hash | codeSeparator | checkSig | checkMultiSig
  | cat | split | num2bin | bin2num
  | other
  deriving DecidableEq, Repr

/-- The group whose `case` label an opcode is. -/
def opGroup (opcode : UInt8) : OpGroup :=
  if opcode = OP_1NEGATE ∨ (OP_1 ≤ opcode ∧ opcode ≤ OP_16) then .pushNumber
  else if opcode = OP_NOP then .nop
  else if opcode = OP_CHECKLOCKTIMEVERIFY then .checkLockTimeVerify
  else if opcode = OP_CHECKSEQUENCEVERIFY then .checkSequenceVerify
  else if opcode = OP_PUSH_META then .pushMeta
  else if opcode = OP_PARTIAL_HASH then .partialHash
  else if opcode = OP_NOP1 ∨ (OP_NOP4 ≤ opcode ∧ opcode ≤ OP_NOP10) then .upgradableNop
  else if opcode = OP_IF ∨ opcode = OP_NOTIF then .ifNotIf
  else if opcode = OP_ELSE then .elseBranch
  else if opcode = OP_ENDIF then .endIf
  else if opcode = OP_VERIFY then .verify
  else if opcode = OP_RETURN then .opReturn
  else if opcode = OP_TOALTSTACK then .toAltStack
  else if opcode = OP_FROMALTSTACK then .fromAltStack
  else if opcode = OP_2DROP then .twoDrop
  else if opcode = OP_2DUP then .twoDup
  else if opcode = OP_3DUP then .threeDup
  else if opcode = OP_2OVER then .twoOver
  else if opcode = OP_2ROT then .twoRot
  else if opcode = OP_2SWAP then .twoSwap
  else if opcode = OP_IFDUP then .ifDup
  else if opcode = OP_DEPTH then .depth
  else if opcode = OP_DROP then .drop
  else if opcode = OP_DUP then .dup
  else if opcode = OP_NIP then .nip
  else if opcode = OP_OVER then .over
  else if opcode = OP_PICK ∨ opcode = OP_ROLL then .pickRoll
  else if opcode = OP_ROT then .rot
  else if opcode = OP_SWAP then .swap
  else if opcode = OP_TUCK then .tuck
  else if opcode = OP_SIZE then .size
  else if opcode = OP_AND ∨ opcode = OP_OR ∨ opcode = OP_XOR then .bitwise
  else if opcode = OP_INVERT then .invert
  else if opcode = OP_LSHIFT then .lshift
  else if opcode = OP_RSHIFT then .rshift
  else if opcode = OP_EQUAL ∨ opcode = OP_EQUALVERIFY then .equal
  else if opcode = OP_1ADD ∨ opcode = OP_1SUB ∨ opcode = OP_NEGATE ∨ opcode = OP_ABS ∨
      opcode = OP_NOT ∨ opcode = OP_0NOTEQUAL then .unaryNumeric
  else if (OP_ADD ≤ opcode ∧ opcode ≤ OP_MOD) ∨ (OP_BOOLAND ≤ opcode ∧ opcode ≤ OP_MAX) then
    .binaryNumeric
  else if opcode = OP_WITHIN then .within
  else if OP_RIPEMD160 ≤ opcode ∧ opcode ≤ OP_HASH256 then .hash
  else if opcode = OP_CODESEPARATOR then .codeSeparator
  else if opcode = OP_CHECKSIG ∨ opcode = OP_CHECKSIGVERIFY then .checkSig
  else if opcode = OP_CHECKMULTISIG ∨ opcode = OP_CHECKMULTISIGVERIFY then .checkMultiSig
  else if opcode = OP_CAT then .cat
  else if opcode = OP_SPLIT then .split
  else if opcode = OP_NUM2BIN then .num2bin
  else if opcode = OP_BIN2NUM then .bin2num
  else .other

def execOpcode (env : Env) (opcode : UInt8) (fExec : Bool) : EvalM Unit :=
  match opGroup opcode with
  | .pushNumber => opPushNumber env opcode
  | .nop => pure ()
  | .checkLockTimeVerify => opCheckLockTimeVerify env
  | .checkSequenceVerify => opCheckSequenceVerify env
  | .pushMeta => opPushMeta env
  | .partialHash => opPartialHash env
  | .upgradableNop => discourageUpgradableNops env
  | .ifNotIf => opIf env opcode fExec
  | .elseBranch => opElse env
  | .endIf => opEndIf
  | .verify => opVerify
  | .opReturn => opReturn env
  | .toAltStack => opToAltStack
  | .fromAltStack => opFromAltStack
  | .twoDrop => op2Drop
  | .twoDup => op2Dup
  | .threeDup => op3Dup
  | .twoOver => op2Over
  | .twoRot => op2Rot
  | .twoSwap => op2Swap
  | .ifDup => opIfDup
  | .depth => opDepth env
  | .drop => opDrop
  | .dup => opDup
  | .nip => opNip
  | .over => opOver
  | .pickRoll => opPickRoll env opcode
  | .rot => opRot
  | .swap => opSwap
  | .tuck => opTuck
  | .size => opSize env
  | .bitwise => opBitwise opcode
  | .invert => opInvert
  | .lshift => opShift env lshift
  | .rshift => opShift env rshift
  | .equal => opEqual opcode
  | .unaryNumeric => opUnaryNumeric env opcode
  | .binaryNumeric => opBinaryNumeric env opcode
  | .within => opWithin env
  | .hash => opHash env opcode
  | .codeSeparator => opCodeSeparator
  | .checkSig => opCheckSig env opcode
  | .checkMultiSig => opCheckMultiSig env opcode
  | .cat => opCat env
  | .split => opSplit env
  | .num2bin => opNum2Bin env
  | .bin2num => opBin2Num env
  | .other => opDefault env opcode fExec

end TbcNode.Script.Interpreter
