import TbcNode.Script.Interpreter.Verify

/-! # Invariants through a run of `EvalScript`

The opcodes change the stacks only through the `LimitedStack` operations (`StackOp`), so an
invariant these keep (`OpInvariant`) is kept by every opcode, and one the step keeps too by every
round and by the whole body of `EvalScript`.
-/

namespace TbcNode.Script.Interpreter

open TbcNode.Logic TbcNode.Primitives

/-- The operations of `LimitedStack` the opcodes change the stacks with; `modifyElement` with a
function that keeps the size of the element, as the in-place byte edits do. -/
inductive StackOp : {α : Type} → StackM α → Prop where
  | popBack (r : StackRef) : StackOp (LimitedStack.popBack r)
  | pushBack (r : StackRef) (e : valtype) : StackOp (LimitedStack.pushBack r e)
  | pushBackVector (r : StackRef) (v : LimitedVector) : StackOp (LimitedStack.pushBackVector r v)
  | erase (r : StackRef) (i : Int) : StackOp (LimitedStack.erase r i)
  | eraseRange (r : StackRef) (first last : Int) : StackOp (LimitedStack.eraseRange r first last)
  | insert (r : StackRef) (p : Int) (v : LimitedVector) : StackOp (LimitedStack.insert r p v)
  | swapElements (r : StackRef) (i j : Nat) : StackOp (LimitedStack.swapElements r i j)
  | moveTopToStack (r other : StackRef) : StackOp (LimitedStack.moveTopToStack r other)
  | modifyElement (r : StackRef) (i : Nat) (f : valtype → valtype)
      (hf : ∀ e, (f e).length = e.length) : StackOp (LimitedStack.modifyElement r i f)
  | append (r : StackRef) (i : Nat) (second : valtype) : StackOp (LimitedStack.append r i second)
  | padRight (r : StackRef) (i size : Nat) (signbit : UInt8) :
      StackOp (LimitedStack.padRight r i size signbit)
  | minimallyEncode (r : StackRef) (i : Nat) : StackOp (LimitedStack.minimallyEncode r i)

/-- The operations that rearrange the elements and add no bytes: they remove or move elements,
swap two, change one in place keeping its size, or re-encode one minimally. -/
inductive RearrangeOp : {α : Type} → StackM α → Prop where
  | popBack (r : StackRef) : RearrangeOp (LimitedStack.popBack r)
  | erase (r : StackRef) (i : Int) : RearrangeOp (LimitedStack.erase r i)
  | eraseRange (r : StackRef) (first last : Int) :
      RearrangeOp (LimitedStack.eraseRange r first last)
  | swapElements (r : StackRef) (i j : Nat) : RearrangeOp (LimitedStack.swapElements r i j)
  | moveTopToStack (r other : StackRef) : RearrangeOp (LimitedStack.moveTopToStack r other)
  | modifyElement (r : StackRef) (i : Nat) (f : valtype → valtype)
      (hf : ∀ e, (f e).length = e.length) : RearrangeOp (LimitedStack.modifyElement r i f)
  | minimallyEncode (r : StackRef) (i : Nat) : RearrangeOp (LimitedStack.minimallyEncode r i)

theorem RearrangeOp.stackOp {α : Type} {m : StackM α} (h : RearrangeOp m) : StackOp m := by
  cases h with
  | popBack r => exact .popBack r
  | erase r i => exact .erase r i
  | eraseRange r first last => exact .eraseRange r first last
  | swapElements r i j => exact .swapElements r i j
  | moveTopToStack r other => exact .moveTopToStack r other
  | modifyElement r i f hf => exact .modifyElement r i f hf
  | minimallyEncode r i => exact .minimallyEncode r i

/-- An invariant of the root stack that every operation keeps, on a normal and on an exceptional
end. -/
def StackInvariant (I : LimitedStack → Prop) : Prop :=
  ∀ {α : Type} (m : StackM α), StackOp m → Keeps I m

/-- An invariant of the interpreter's state that the opcodes' changes of the locals keep: the
open conditionals, the operation count, the `OP_RETURN` mark, the code hashed by signatures and
the calls to the token. -/
structure LocalsInvariant (J : EvalState → Prop) : Prop where
  branches : ∀ s bs, J s → J { s with branches := bs }
  nOpCount : ∀ s n, J s → J { s with nOpCount := n }
  nonTopLevelReturnAfterGenesis : ∀ s b, J s → J { s with nonTopLevelReturnAfterGenesis := b }
  pbegincodehash : ∀ s p, J s → J { s with pbegincodehash := p }
  polls : ∀ s n, J s → J { s with polls := n }

/-- An invariant of the interpreter's state that the opcodes keep: one of the locals that the
stack operations keep too. -/
structure OpInvariant (J : EvalState → Prop) : Prop extends LocalsInvariant J where
  stackOps : ∀ {α : Type} (m : StackM α), StackOp m → Keeps J (onStacks m)

theorem OpInvariant.ofRoot {I : LimitedStack → Prop} (hI : StackInvariant I) :
    OpInvariant (fun s : EvalState => I s.root) where
  branches _ _ h := h
  nOpCount _ _ h := h
  nonTopLevelReturnAfterGenesis _ _ h := h
  pbegincodehash _ _ h := h
  polls _ _ h := h
  stackOps m hm := keeps_onStacks (hI m hm)

theorem OpInvariant.pc (p : CScript) : OpInvariant (fun s : EvalState => s.pc = p) where
  branches _ _ h := h
  nOpCount _ _ h := h
  nonTopLevelReturnAfterGenesis _ _ h := h
  pbegincodehash _ _ h := h
  polls _ _ h := h
  stackOps _ _ := keeps_onStacks_of fun _ _ h => h

/-- An invariant of the interpreter's state that the changes of the locals and the operations that
rearrange the stacks keep: the opcodes that push nothing new keep it. -/
structure RearrangeInvariant (J : EvalState → Prop) : Prop extends LocalsInvariant J where
  rearrangeOps : ∀ {α : Type} (m : StackM α), RearrangeOp m → Keeps J (onStacks m)

theorem OpInvariant.rearrange {J : EvalState → Prop} (hJ : OpInvariant J) : RearrangeInvariant J where
  toLocalsInvariant := hJ.toLocalsInvariant
  rearrangeOps m hm := hJ.stackOps m hm.stackOp

/-! ## Helpers that only compute a value -/

section ReadsOnly

variable (env : Env)

theorem readsOnly_deref (x : Option α) : ReadsOnly (deref x) := by
  cases x
  · exact ReadsOnly.throw' _
  · exact ReadsOnly.pure' _

theorem readsOnly_elementAt (l : List α) (i : Nat) : ReadsOnly (elementAt l i) := by
  unfold elementAt
  split
  · exact ReadsOnly.pure' _
  · exact ReadsOnly.throw' _

theorem readsOnly_liftCheck (x : Except Stop Unit) : ReadsOnly (liftCheck x) := by
  cases x
  · exact ReadsOnly.throw' _
  · exact ReadsOnly.pure' _

theorem readsOnly_pushMetaItem (condition : UInt8) : ReadsOnly (pushMetaItem env condition) := by
  unfold pushMetaItem
  split
  any_goals exact (readsOnly_deref _).bind fun _ => ReadsOnly.pure' _
  any_goals exact ReadsOnly.pure' _
  · exact (readsOnly_deref _).bind fun _ => (readsOnly_elementAt _ _).bind fun _ =>
      ReadsOnly.pure' _
  · exact ReadsOnly.throw' _

theorem readsOnly_unaryNumeric (opcode : UInt8) (bn : CScriptNum) :
    ReadsOnly (unaryNumeric env opcode bn) := by
  unfold unaryNumeric
  repeat' refine ReadsOnly.ite' ?_ ?_
  all_goals first | exact ReadsOnly.pure' _ | exact ReadsOnly.throw' _

theorem readsOnly_binaryNumeric (opcode : UInt8) (bn1 bn2 : CScriptNum) :
    ReadsOnly (binaryNumeric env opcode bn1 bn2) := by
  unfold binaryNumeric
  repeat' refine ReadsOnly.ite' ?_ ?_
  all_goals first | exact ReadsOnly.pure' _ | exact ReadsOnly.throw' _

theorem readsOnly_cleanupSigs (isig nSigsCount : Nat) (scriptCode : CScript) :
    ReadsOnly (cleanupSigs env isig nSigsCount scriptCode) :=
  ReadsOnly.foldlM (fun _ _ => (readsOnly_stacktop _).bind fun _ => ReadsOnly.pure' _) _ _

end ReadsOnly

/-! ## What leaves the stacks alone

The reads and the checks keep every invariant; the opcodes that change only the locals, and the
loops that only poll the token and read, keep every invariant of the locals. -/

section Frame

variable {J : EvalState → Prop} (env : Env)

theorem keeps_requireSize (n : Nat) (e : ScriptError) :
    Keeps J (requireSize n e) :=
  Keeps.of_readsOnly (readsOnly_requireSize n e)

theorem keeps_stackSize : Keeps J stackSize :=
  Keeps.of_readsOnly readsOnly_stackSize

theorem keeps_altstackSize : Keeps J altstackSize :=
  Keeps.of_readsOnly readsOnly_altstackSize

theorem keeps_stacktop (i : Int) : Keeps J (stacktop i) :=
  Keeps.of_readsOnly (readsOnly_stacktop i)

theorem keeps_readAt (l : List UInt8) (i : Nat) :
    Keeps J (readAt l i) :=
  Keeps.of_readsOnly (readsOnly_readAt l i)

theorem keeps_scriptNum (span : List UInt8) (fRequireMinimal : Bool) (n : Nat) (b : Bool) :
    Keeps J (scriptNum env span fRequireMinimal n b) :=
  Keeps.of_readsOnly (readsOnly_scriptNum env span fRequireMinimal n b)

theorem keeps_toSizeTLimited (n : CScriptNum) :
    Keeps J (toSizeTLimited n) :=
  Keeps.of_readsOnly (readsOnly_toSizeTLimited n)

theorem keeps_liftCheck (x : Except Stop Unit) :
    Keeps J (liftCheck x) :=
  Keeps.of_readsOnly (readsOnly_liftCheck x)

theorem keeps_catchExceptions {m : EvalM Unit} (h : Keeps J m) :
    Keeps J (catchExceptions m) := by
  intro s hs
  have h' := h s hs
  revert h'
  simp only [catchExceptions, EStateM.run]
  cases m s <;> exact id


theorem keeps_discourageUpgradableNops : Keeps J (discourageUpgradableNops env) :=
  Keeps.ite' (Keeps.throw' _) (Keeps.pure' _)

theorem keeps_opCheckLockTimeVerify : Keeps J (opCheckLockTimeVerify env) := by
  unfold opCheckLockTimeVerify
  refine Keeps.ite' (keeps_discourageUpgradableNops env) ?_
  refine (keeps_requireSize _ _).bind fun _ => (keeps_stacktop _).bind fun _ =>
    (keeps_scriptNum env _ _ _ _).bind fun _ => ?_
  exact Keeps.ite_throw _ (Keeps.ite' (Keeps.throw' _) (Keeps.pure' _))

theorem keeps_opCheckSequenceVerify : Keeps J (opCheckSequenceVerify env) := by
  unfold opCheckSequenceVerify
  refine Keeps.ite' (keeps_discourageUpgradableNops env) ?_
  refine (keeps_requireSize _ _).bind fun _ => (keeps_stacktop _).bind fun _ =>
    (keeps_scriptNum env _ _ _ _).bind fun _ => ?_
  exact Keeps.ite_throw _
    (Keeps.ite' (Keeps.ite' (Keeps.throw' _) (Keeps.pure' _)) (Keeps.pure' _))

theorem keeps_opDefault (opcode : UInt8) (fExec : Bool) : Keeps J (opDefault env opcode fExec) :=
  Keeps.ite' (Keeps.pure' _) (Keeps.throw' _)

end Frame

/-! ## What changes only the locals -/

section Locals

variable {J : EvalState → Prop} (hL : LocalsInvariant J) (env : Env)
include hL

theorem keeps_isCanceled : Keeps J (isCanceled env) :=
  Triple.modifyGet' fun s h => hL.polls s _ h

theorem keeps_opIf_of_not (opcode : UInt8) : Keeps J (opIf env opcode false) :=
  (Keeps.pure' _).bind fun _ => Keeps.modify' fun s h => hL.branches s _ h

theorem keeps_opElse : Keeps J (opElse env) := by
  refine Keeps.bind_get fun s hs => ?_
  split
  · exact Keeps.throw' _
  · exact Keeps.ite' (Keeps.throw' _) (Keeps.set' (hL.branches s _ hs))

theorem keeps_opEndIf : Keeps J opEndIf := by
  refine Keeps.bind_get fun s hs => ?_
  split
  · exact Keeps.throw' _
  · exact Keeps.set' (hL.branches s _ hs)

theorem keeps_opReturn : Keeps J (opReturn env) :=
  Keeps.ite' (Keeps.get'.bind fun _ => Keeps.ite_throw _
    (Keeps.modify' fun s h => hL.nonTopLevelReturnAfterGenesis s _ h)) (Keeps.throw' _)

theorem keeps_opCodeSeparator : Keeps J opCodeSeparator :=
  Keeps.modify' fun s h => hL.pbegincodehash s _ h

theorem keeps_shiftLoop (shift : valtype → Nat → valtype) :
    ∀ fuel values n, Keeps J (shiftLoop env shift fuel values n)
  | 0, _, _ => Keeps.pure' _
  | fuel + 1, values, n => by
    refine (keeps_isCanceled hL env).bind fun c => ?_
    dsimp only
    refine Keeps.ite' (Keeps.throw_bind _) (Keeps.ite' ?_ (Keeps.pure' _))
    exact keeps_shiftLoop shift fuel _ _

theorem keeps_checkSigsLoop (scriptCode : CScript) :
    ∀ fuel isig ikey nSigsCount nKeysCount fSuccess, Keeps J
      (checkSigsLoop env scriptCode fuel isig ikey nSigsCount nKeysCount fSuccess)
  | 0, _, _, _, _, _ => Keeps.pure' _
  | fuel + 1, isig, ikey, nSigsCount, nKeysCount, fSuccess => by
    refine Keeps.ite' ((keeps_isCanceled hL env).bind fun c => ?_) (Keeps.pure' _)
    dsimp only
    refine Keeps.ite' (Keeps.throw_bind _) ?_
    refine (keeps_stacktop _).bind fun _ => ?_
    refine (keeps_stacktop _).bind fun _ => ?_
    refine (keeps_liftCheck _).bind fun _ => ?_
    refine (keeps_liftCheck _).bind fun _ => ?_
    exact keeps_checkSigsLoop scriptCode fuel _ _ _ _ _

end Locals

/-! ## The operations that rearrange the stacks -/

section Rearrange

variable {J : EvalState → Prop} (hJ : RearrangeInvariant J)
include hJ

theorem keeps_popBack : Keeps J popBack :=
  hJ.rearrangeOps _ (.popBack _)

theorem keeps_erase (i : Int) : Keeps J (erase i) :=
  hJ.rearrangeOps _ (.erase _ _)

theorem keeps_eraseRange (first last : Int) :
    Keeps J (eraseRange first last) :=
  hJ.rearrangeOps _ (.eraseRange _ _ _)

theorem keeps_swapElements (i j : Nat) : Keeps J (swapElements i j) :=
  hJ.rearrangeOps _ (.swapElements _ _ _)

theorem keeps_moveTopToStack (r other : StackRef) :
    Keeps J (moveTopToStack r other) :=
  hJ.rearrangeOps _ (.moveTopToStack _ _)

theorem keeps_modifyElement (i : Nat) {f : valtype → valtype} (hf : ∀ e, (f e).length = e.length) :
    Keeps J (modifyElement i f) :=
  hJ.rearrangeOps _ (.modifyElement _ _ _ hf)

theorem keeps_minimallyEncode (i : Nat) :
    Keeps J (minimallyEncode i) :=
  hJ.rearrangeOps _ (.minimallyEncode _ _)

/-! ## The opcodes that push nothing new -/

variable (env : Env)

theorem keeps_popArgs (fSuccess : Bool) :
    ∀ n ikey2, Keeps J (popArgs env fSuccess n ikey2)
  | 0, _ => Keeps.pure' _
  | n + 1, ikey2 => by
    dsimp only [popArgs]
    refine Keeps.ite' ((keeps_stacktop _).bind fun _ => ?_) ?_
    · exact Keeps.ite' (Keeps.throw_bind _) ((keeps_popBack hJ).bind fun _ => keeps_popArgs _ n _)
    · exact (keeps_popBack hJ).bind fun _ => keeps_popArgs _ n _

theorem keeps_popCondition (opcode : UInt8) :
    Keeps J (popCondition env opcode) := by
  unfold popCondition
  refine (keeps_requireSize _ _).bind fun _ => (keeps_stacktop _).bind fun _ => ?_
  refine Keeps.ite' (Keeps.ite_throw _ (Keeps.ite' ((keeps_readAt _ _).bind fun _ =>
    Keeps.ite_throw _ ?_) ?_)) ?_
  all_goals exact (keeps_popBack hJ).bind fun _ => Keeps.pure' _

theorem keeps_opIf (opcode : UInt8) (fExec : Bool) :
    Keeps J (opIf env opcode fExec) :=
  Keeps.ite' ((keeps_popCondition hJ env opcode).bind fun _ =>
    Keeps.modify' fun s h => hJ.branches s _ h) (keeps_opIf_of_not hJ.toLocalsInvariant env opcode)

theorem keeps_opVerify : Keeps J opVerify :=
  (keeps_requireSize _ _).bind fun _ => (keeps_stacktop _).bind fun _ =>
    Keeps.ite' (keeps_popBack hJ) (Keeps.throw' _)

theorem keeps_opToAltStack : Keeps J opToAltStack :=
  (keeps_requireSize _ _).bind fun _ => keeps_moveTopToStack hJ _ _

theorem keeps_opFromAltStack : Keeps J opFromAltStack :=
  keeps_altstackSize.bind fun _ => Keeps.ite_throw _ (keeps_moveTopToStack hJ _ _)

theorem keeps_op2Drop : Keeps J op2Drop :=
  (keeps_requireSize _ _).bind fun _ => (keeps_popBack hJ).bind fun _ => keeps_popBack hJ

theorem keeps_op2Swap : Keeps J op2Swap :=
  (keeps_requireSize _ _).bind fun _ => keeps_stackSize.bind fun _ => keeps_stackSize.bind fun _ =>
    (keeps_swapElements hJ _ _).bind fun _ => keeps_stackSize.bind fun _ =>
      keeps_stackSize.bind fun _ => keeps_swapElements hJ _ _

theorem keeps_opDrop : Keeps J opDrop :=
  (keeps_requireSize _ _).bind fun _ => keeps_popBack hJ

theorem keeps_opNip : Keeps J opNip :=
  (keeps_requireSize _ _).bind fun _ => keeps_erase hJ _

theorem keeps_opRot : Keeps J opRot :=
  (keeps_requireSize _ _).bind fun _ => keeps_stackSize.bind fun _ => keeps_stackSize.bind fun _ =>
    (keeps_swapElements hJ _ _).bind fun _ => keeps_stackSize.bind fun _ =>
      keeps_stackSize.bind fun _ => keeps_swapElements hJ _ _

theorem keeps_opSwap : Keeps J opSwap :=
  (keeps_requireSize _ _).bind fun _ => keeps_stackSize.bind fun _ => keeps_stackSize.bind fun _ =>
    keeps_swapElements hJ _ _

theorem keeps_opBitwise (opcode : UInt8) :
    Keeps J (opBitwise opcode) := by
  unfold opBitwise
  refine (keeps_requireSize _ _).bind fun _ => (keeps_stacktop _).bind fun _ =>
    (keeps_stacktop _).bind fun _ => Keeps.ite_throw _ ?_
  exact (keeps_modifyElement hJ _ fun _ => List.length_mapIdx).bind fun _ => keeps_popBack hJ

theorem keeps_opInvert : Keeps J opInvert :=
  (keeps_requireSize _ _).bind fun _ => keeps_modifyElement hJ _ fun _ => List.length_map _

theorem keeps_opBin2Num : Keeps J (opBin2Num env) :=
  (keeps_requireSize _ _).bind fun _ => (keeps_minimallyEncode hJ _).bind fun _ =>
    (keeps_stacktop _).bind fun _ => Keeps.ite' (Keeps.throw' _) (Keeps.pure' _)

end Rearrange

/-! ## The operations that push -/

section Invariant

variable {J : EvalState → Prop} (hJ : OpInvariant J)
include hJ

theorem keeps_pushBack (e : valtype) : Keeps J (pushBack e) :=
  hJ.stackOps _ (.pushBack _ _)

theorem keeps_pushBackVector (v : LimitedVector) :
    Keeps J (pushBackVector v) :=
  hJ.stackOps _ (.pushBackVector _ _)

theorem keeps_insert (p : Int) (v : LimitedVector) :
    Keeps J (insert p v) :=
  hJ.stackOps _ (.insert _ _ _)

theorem keeps_append (i : Nat) (second : valtype) :
    Keeps J (append i second) :=
  hJ.stackOps _ (.append _ _ _)

theorem keeps_padRight (i size : Nat) (signbit : UInt8) :
    Keeps J (padRight i size signbit) :=
  hJ.stackOps _ (.padRight _ _ _ _)

/-! ## The opcodes -/

variable (env : Env)

theorem keeps_opPushNumber (opcode : UInt8) :
    Keeps J (opPushNumber env opcode) :=
  keeps_pushBack hJ _

theorem keeps_opPushMeta : Keeps J (opPushMeta env) := by
  unfold opPushMeta
  refine (keeps_requireSize _ _).bind fun _ => (keeps_stacktop _).bind fun vch => ?_
  refine Keeps.ite_throw _ (Keeps.ite' ((keeps_readAt _ _).bind fun _ => Keeps.ite_throw _ ?_) ?_)
  all_goals exact (keeps_readAt _ _).bind fun _ => (keeps_popBack hJ.rearrange).bind fun _ =>
    (Keeps.of_readsOnly (readsOnly_pushMetaItem env _)).bind fun _ => keeps_pushBack hJ _

theorem keeps_opPartialHash : Keeps J (opPartialHash env) := by
  unfold opPartialHash
  refine (keeps_requireSize _ _).bind fun _ => (keeps_stacktop _).bind fun _ =>
    (keeps_stacktop _).bind fun _ => (keeps_stacktop _).bind fun _ => ?_
  refine (keeps_popBack hJ.rearrange).bind fun _ => (keeps_popBack hJ.rearrange).bind fun _ =>
    (keeps_popBack hJ.rearrange).bind fun _ => Keeps.ite_throw _ ?_
  exact Keeps.ite' (Keeps.ite' (Keeps.throw' _) (keeps_pushBack hJ _))
    (Keeps.ite_throw _ (keeps_pushBack hJ _))

theorem keeps_op2Dup : Keeps J op2Dup :=
  (keeps_requireSize _ _).bind fun _ => (keeps_stacktop _).bind fun _ =>
    (keeps_stacktop _).bind fun _ => (keeps_pushBackVector hJ _).bind fun _ =>
      keeps_pushBackVector hJ _

theorem keeps_op3Dup : Keeps J op3Dup :=
  (keeps_requireSize _ _).bind fun _ => (keeps_stacktop _).bind fun _ =>
    (keeps_stacktop _).bind fun _ => (keeps_stacktop _).bind fun _ =>
      (keeps_pushBackVector hJ _).bind fun _ => (keeps_pushBackVector hJ _).bind fun _ =>
        keeps_pushBackVector hJ _

theorem keeps_op2Over : Keeps J op2Over :=
  (keeps_requireSize _ _).bind fun _ => (keeps_stacktop _).bind fun _ =>
    (keeps_stacktop _).bind fun _ => (keeps_pushBackVector hJ _).bind fun _ =>
      keeps_pushBackVector hJ _

theorem keeps_op2Rot : Keeps J op2Rot :=
  (keeps_requireSize _ _).bind fun _ => (keeps_stacktop _).bind fun _ =>
    (keeps_stacktop _).bind fun _ => (keeps_eraseRange hJ.rearrange _ _).bind fun _ =>
      (keeps_pushBackVector hJ _).bind fun _ => keeps_pushBackVector hJ _

theorem keeps_opIfDup : Keeps J opIfDup :=
  (keeps_requireSize _ _).bind fun _ => (keeps_stacktop _).bind fun _ =>
    Keeps.ite' (keeps_pushBackVector hJ _) (Keeps.pure' _)

theorem keeps_opDepth : Keeps J (opDepth env) :=
  keeps_stackSize.bind fun _ => keeps_pushBack hJ _

theorem keeps_opDup : Keeps J opDup :=
  (keeps_requireSize _ _).bind fun _ => (keeps_stacktop _).bind fun _ => keeps_pushBackVector hJ _

theorem keeps_opOver : Keeps J opOver :=
  (keeps_requireSize _ _).bind fun _ => (keeps_stacktop _).bind fun _ => keeps_pushBackVector hJ _

theorem keeps_opPickRoll (opcode : UInt8) :
    Keeps J (opPickRoll env opcode) := by
  unfold opPickRoll
  refine (keeps_requireSize _ _).bind fun _ => (keeps_stacktop _).bind fun _ =>
    (keeps_scriptNum env _ _ _ _).bind fun _ => (keeps_popBack hJ.rearrange).bind fun _ =>
      keeps_stackSize.bind fun _ => Keeps.ite_throw _ ?_
  exact (keeps_toSizeTLimited _).bind fun _ => (keeps_stacktop _).bind fun _ =>
    Keeps.ite' ((keeps_erase hJ.rearrange _).bind fun _ => keeps_pushBackVector hJ _)
      (keeps_pushBackVector hJ _)

theorem keeps_opTuck : Keeps J opTuck :=
  (keeps_requireSize _ _).bind fun _ => (keeps_stacktop _).bind fun _ => keeps_insert hJ _ _

theorem keeps_opSize : Keeps J (opSize env) :=
  (keeps_requireSize _ _).bind fun _ => (keeps_stacktop _).bind fun _ => keeps_pushBack hJ _

theorem keeps_opShift (shift : valtype → Nat → valtype) :
    Keeps J (opShift env shift) := by
  unfold opShift
  refine (keeps_requireSize _ _).bind fun _ => (keeps_stacktop _).bind fun _ =>
    (keeps_stacktop _).bind fun _ => (keeps_scriptNum env _ _ _ _).bind fun _ =>
      Keeps.ite_throw _ ?_
  refine (keeps_popBack hJ.rearrange).bind fun _ => (keeps_popBack hJ.rearrange).bind fun _ => ?_
  exact Keeps.ite' ((Keeps.pure' _).bind fun _ => keeps_pushBack hJ _)
    ((keeps_shiftLoop hJ.toLocalsInvariant env _ _ _ _).bind fun _ => keeps_pushBack hJ _)

theorem keeps_opEqual (opcode : UInt8) :
    Keeps J (opEqual opcode) :=
  (keeps_requireSize _ _).bind fun _ => (keeps_stacktop _).bind fun _ =>
    (keeps_stacktop _).bind fun _ => (keeps_popBack hJ.rearrange).bind fun _ =>
      (keeps_popBack hJ.rearrange).bind fun _ => (keeps_pushBack hJ _).bind fun _ =>
        Keeps.ite' (Keeps.ite' (keeps_popBack hJ.rearrange) (Keeps.throw' _)) (Keeps.pure' _)

theorem keeps_opUnaryNumeric (opcode : UInt8) :
    Keeps J (opUnaryNumeric env opcode) :=
  (keeps_requireSize _ _).bind fun _ => (keeps_stacktop _).bind fun _ =>
    (keeps_scriptNum env _ _ _ _).bind fun _ =>
      (Keeps.of_readsOnly (readsOnly_unaryNumeric env _ _)).bind fun _ =>
        (keeps_popBack hJ.rearrange).bind fun _ => keeps_pushBack hJ _

theorem keeps_opBinaryNumeric (opcode : UInt8) :
    Keeps J (opBinaryNumeric env opcode) :=
  (keeps_requireSize _ _).bind fun _ => (keeps_stacktop _).bind fun _ =>
    (keeps_stacktop _).bind fun _ => (keeps_scriptNum env _ _ _ _).bind fun _ =>
      (keeps_scriptNum env _ _ _ _).bind fun _ =>
        (Keeps.of_readsOnly (readsOnly_binaryNumeric env _ _ _)).bind fun _ =>
          (keeps_popBack hJ.rearrange).bind fun _ => (keeps_popBack hJ.rearrange).bind fun _ =>
            (keeps_pushBack hJ _).bind fun _ =>
              Keeps.ite' ((keeps_stacktop _).bind fun _ =>
                Keeps.ite' (keeps_popBack hJ.rearrange) (Keeps.throw' _)) (Keeps.pure' _)

theorem keeps_opWithin : Keeps J (opWithin env) :=
  (keeps_requireSize _ _).bind fun _ => (keeps_stacktop _).bind fun _ =>
    (keeps_scriptNum env _ _ _ _).bind fun _ => (keeps_stacktop _).bind fun _ =>
      (keeps_scriptNum env _ _ _ _).bind fun _ => (keeps_stacktop _).bind fun _ =>
        (keeps_scriptNum env _ _ _ _).bind fun _ => (keeps_popBack hJ.rearrange).bind fun _ =>
          (keeps_popBack hJ.rearrange).bind fun _ => (keeps_popBack hJ.rearrange).bind fun _ => keeps_pushBack hJ _

theorem keeps_opHash (opcode : UInt8) :
    Keeps J (opHash env opcode) :=
  (keeps_requireSize _ _).bind fun _ => (keeps_stacktop _).bind fun _ =>
    (keeps_popBack hJ.rearrange).bind fun _ => keeps_pushBack hJ _

theorem keeps_opCheckSig (opcode : UInt8) :
    Keeps J (opCheckSig env opcode) := by
  unfold opCheckSig
  refine (keeps_requireSize _ _).bind fun _ => (keeps_stacktop _).bind fun _ =>
    (keeps_stacktop _).bind fun _ => (keeps_liftCheck _).bind fun _ =>
      (keeps_liftCheck _).bind fun _ => Keeps.get'.bind fun _ => Keeps.ite_throw _ ?_
  exact (keeps_popBack hJ.rearrange).bind fun _ => (keeps_popBack hJ.rearrange).bind fun _ =>
    (keeps_pushBack hJ _).bind fun _ =>
      Keeps.ite' (Keeps.ite' (keeps_popBack hJ.rearrange) (Keeps.throw' _)) (Keeps.pure' _)

theorem keeps_opCheckMultiSig (opcode : UInt8) :
    Keeps J (opCheckMultiSig env opcode) := by
  unfold opCheckMultiSig
  refine (keeps_requireSize _ _).bind fun _ => (keeps_stacktop _).bind fun _ =>
    (keeps_scriptNum env _ _ _ _).bind fun _ => Keeps.ite_throw _ (Keeps.ite_throw _ ?_)
  refine Keeps.bind ?_ fun _ => Keeps.get'.bind fun _ => Keeps.ite_throw _ ?_
  · exact Keeps.modify' fun s h => hJ.nOpCount s _ h
  refine (keeps_requireSize _ _).bind fun _ => (keeps_stacktop _).bind fun _ =>
    (keeps_scriptNum env _ _ _ _).bind fun _ => Keeps.ite_throw _ (Keeps.ite_throw _ ?_)
  refine (keeps_requireSize _ _).bind fun _ => Keeps.get'.bind fun _ =>
    (Keeps.of_readsOnly (readsOnly_cleanupSigs env _ _ _)).bind fun _ =>
      (keeps_checkSigsLoop hJ.toLocalsInvariant env _ _ _ _ _ _ _).bind fun _ => (keeps_popArgs hJ.rearrange env _ _ _).bind
        fun _ => (keeps_requireSize _ _).bind fun _ => ?_
  refine Keeps.ite' ((keeps_stacktop _).bind fun _ => Keeps.ite_throw _ ?_) ?_
  all_goals exact (keeps_popBack hJ.rearrange).bind fun _ => (keeps_pushBack hJ _).bind fun _ =>
    Keeps.ite' (Keeps.ite' (keeps_popBack hJ.rearrange) (Keeps.throw' _)) (Keeps.pure' _)

theorem keeps_opCat : Keeps J (opCat env) :=
  (keeps_requireSize _ _).bind fun _ => (keeps_stacktop _).bind fun _ =>
    (keeps_stacktop _).bind fun _ =>
      Keeps.ite_throw _ ((keeps_popBack hJ.rearrange).bind fun _ => keeps_append hJ _ _)

theorem keeps_opSplit : Keeps J (opSplit env) := by
  unfold opSplit
  refine (keeps_requireSize _ _).bind fun _ => (keeps_stacktop _).bind fun _ =>
    (keeps_stacktop _).bind fun _ => (keeps_scriptNum env _ _ _ _).bind fun _ =>
      Keeps.ite_throw _ ?_
  exact (keeps_toSizeTLimited _).bind fun _ => (keeps_popBack hJ.rearrange).bind fun _ =>
    (keeps_popBack hJ.rearrange).bind fun _ => (keeps_pushBack hJ _).bind fun _ => keeps_pushBack hJ _

theorem keeps_opNum2Bin : Keeps J (opNum2Bin env) := by
  unfold opNum2Bin
  refine (keeps_requireSize _ _).bind fun _ => (keeps_stacktop _).bind fun _ =>
    (keeps_scriptNum env _ _ _ _).bind fun _ => Keeps.ite_throw _ ?_
  refine (keeps_toSizeTLimited _).bind fun _ => Keeps.ite_throw _ ?_
  refine (keeps_popBack hJ.rearrange).bind fun _ => (keeps_minimallyEncode hJ.rearrange _).bind fun _ =>
    (keeps_stacktop _).bind fun _ => Keeps.ite_throw _ ?_
  exact Keeps.ite' (Keeps.ite' ((keeps_modifyElement hJ.rearrange _ fun _ => List.length_modify _ _ _).bind
      fun _ => (Keeps.pure' _).bind fun _ => keeps_padRight hJ _ _ _)
    ((Keeps.pure' _).bind fun _ => keeps_padRight hJ _ _ _)) (Keeps.pure' _)

theorem keeps_execOpcode (opcode : UInt8) (fExec : Bool) :
    Keeps J (execOpcode env opcode fExec) := by
  unfold execOpcode
  split
  case h_1 => exact keeps_opPushNumber hJ env opcode
  case h_2 => exact Keeps.pure' _
  case h_3 => exact keeps_opCheckLockTimeVerify env
  case h_4 => exact keeps_opCheckSequenceVerify env
  case h_5 => exact keeps_opPushMeta hJ env
  case h_6 => exact keeps_opPartialHash hJ env
  case h_7 => exact keeps_discourageUpgradableNops env
  case h_8 => exact keeps_opIf hJ.rearrange env opcode fExec
  case h_9 => exact keeps_opElse hJ.toLocalsInvariant env
  case h_10 => exact keeps_opEndIf hJ.toLocalsInvariant
  case h_11 => exact keeps_opVerify hJ.rearrange
  case h_12 => exact keeps_opReturn hJ.toLocalsInvariant env
  case h_13 => exact keeps_opToAltStack hJ.rearrange
  case h_14 => exact keeps_opFromAltStack hJ.rearrange
  case h_15 => exact keeps_op2Drop hJ.rearrange
  case h_16 => exact keeps_op2Dup hJ
  case h_17 => exact keeps_op3Dup hJ
  case h_18 => exact keeps_op2Over hJ
  case h_19 => exact keeps_op2Rot hJ
  case h_20 => exact keeps_op2Swap hJ.rearrange
  case h_21 => exact keeps_opIfDup hJ
  case h_22 => exact keeps_opDepth hJ env
  case h_23 => exact keeps_opDrop hJ.rearrange
  case h_24 => exact keeps_opDup hJ
  case h_25 => exact keeps_opNip hJ.rearrange
  case h_26 => exact keeps_opOver hJ
  case h_27 => exact keeps_opPickRoll hJ env opcode
  case h_28 => exact keeps_opRot hJ.rearrange
  case h_29 => exact keeps_opSwap hJ.rearrange
  case h_30 => exact keeps_opTuck hJ
  case h_31 => exact keeps_opSize hJ env
  case h_32 => exact keeps_opBitwise hJ.rearrange opcode
  case h_33 => exact keeps_opInvert hJ.rearrange
  case h_34 => exact keeps_opShift hJ env _
  case h_35 => exact keeps_opShift hJ env _
  case h_36 => exact keeps_opEqual hJ opcode
  case h_37 => exact keeps_opUnaryNumeric hJ env opcode
  case h_38 => exact keeps_opBinaryNumeric hJ env opcode
  case h_39 => exact keeps_opWithin hJ env
  case h_40 => exact keeps_opHash hJ env opcode
  case h_41 => exact keeps_opCodeSeparator hJ.toLocalsInvariant
  case h_42 => exact keeps_opCheckSig hJ env opcode
  case h_43 => exact keeps_opCheckMultiSig hJ env opcode
  case h_44 => exact keeps_opCat hJ env
  case h_45 => exact keeps_opSplit hJ env
  case h_46 => exact keeps_opNum2Bin hJ env
  case h_47 => exact keeps_opBin2Num hJ.rearrange env
  case h_48 => exact keeps_opDefault env opcode fExec

/-! ## The loop and `EvalScript` -/

theorem keeps_execInstruction (s : EvalState) (opcode : UInt8) (vchPushValue : valtype) :
    Keeps J (execInstruction env s opcode vchPushValue) := by
  unfold execInstruction
  refine Keeps.ite_throw _ ?_
  refine Keeps.ite' (Keeps.bind ?_ fun _ => Keeps.get'.bind fun _ => Keeps.ite_throw _ ?_) ?_
  · exact Keeps.modify' fun s h => hJ.nOpCount s _ h
  all_goals refine Keeps.ite_throw _ ?_
  all_goals
    refine Keeps.ite' (Keeps.ite_throw _ ?_) (Keeps.ite' ?_ ?_)
    on_goal 1 => refine (keeps_pushBack hJ _).bind fun _ => ?_
    on_goal 2 => refine (keeps_execOpcode hJ env _ _).bind fun _ => ?_
  all_goals exact keeps_stackSize.bind fun _ => keeps_altstackSize.bind fun _ =>
    Keeps.ite' (Keeps.throw' _) (Keeps.pure' _)

theorem keeps_evalStep (hpc : ∀ s p i, J s → J { s with pc := p, ipc := i }) (script : CScript) :
    Keeps J (evalStep env script) := by
  refine (keeps_isCanceled hJ.toLocalsInvariant env).bind fun _ =>
    Keeps.ite_throw _ (Keeps.bind_get fun s hs => ?_)
  split
  · exact Keeps.throw' _
  · exact (Keeps.set' (hpc s _ _ hs)).bind fun _ => keeps_execInstruction hJ env s _ _

theorem keeps_evalLoop (hpc : ∀ s p i, J s → J { s with pc := p, ipc := i }) (script : CScript) :
    Keeps J (evalLoop env script) :=
  Keeps.whileFuel (keeps_evalStep hJ env hpc script) _

theorem keeps_evalScriptWith (hpc : ∀ s p i, J s → J { s with pc := p, ipc := i })
    (script : CScript) :
    Keeps J (evalScriptWith env script) := by
  unfold evalScriptWith
  refine Keeps.ite_throw _ ?_
  exact (keeps_catchExceptions (keeps_evalLoop hJ env hpc script)).bind fun _ =>
    Keeps.get'.bind fun _ => Keeps.ite_throw _ (Keeps.throw' _)

end Invariant

/-! ## The loop ends

Every round that ends normally has read an instruction, and the opcodes do not move in the script,
so the rounds are at most as many as the bytes of the script: the fuel of `evalLoop` is never what
stops it. -/

section Fuel

variable (env : Env)

theorem pc_length_lt_of_evalStep {script : CScript} {s t : EvalState}
    (h : (evalStep env script).run s = .ok ⟨⟩ t) : t.pc.length < s.pc.length := by
  simp only [evalStep, EStateM.run_bind, run_isCanceled] at h
  split at h
  · cases h
  · simp only [EStateM.run_bind, EStateM.run_get] at h
    split at h
    · cases h
    · rename_i opcode v pc hget
      simp only [EStateM.run_bind, EStateM.run_set] at h
      have hkeep := keeps_execInstruction (OpInvariant.pc pc) env { s with polls := s.polls + 1 }
        opcode v { s with pc := pc, ipc := script.length - pc.length, polls := s.polls + 1 } rfl
      rw [h] at hkeep
      change t.pc = pc at hkeep
      rw [hkeep]
      exact length_lt_of_getOp2_some hget

theorem run_whileFuel_evalStep {script : CScript} {n m : Nat} (s : EvalState)
    (hs : s.pc.length ≤ n) (hnm : n ≤ m) :
    (whileFuel EvalState.running (evalStep env script) n).run s =
      (whileFuel EvalState.running (evalStep env script) m).run s :=
  run_whileFuel_of_decreasing (fun s => s.pc.length)
    (fun s hs => List.length_pos_iff.mpr (by simpa [EvalState.running] using hs))
    (fun _ _ _ h => pc_length_lt_of_evalStep env h) n m s hs hnm

theorem evalLoop_fuel {script : CScript} {m : Nat} (s : EvalState) (hs : s.pc = script)
    (hm : script.length ≤ m) :
    (evalLoop env script).run s = (whileFuel EvalState.running (evalStep env script) m).run s :=
  run_whileFuel_evalStep env s (by rw [hs]) hm

end Fuel

end TbcNode.Script.Interpreter
