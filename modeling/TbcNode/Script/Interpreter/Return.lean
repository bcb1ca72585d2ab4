import Mathlib
import TbcNode.Script.Interpreter.Invariant

/-! # After a post-Genesis `OP_RETURN` in a branch

After such an `OP_RETURN` only a further `OP_RETURN` executes: no later round touches the stacks
(`Frozen`), and the run stops only by the grammar checks, cancellation, or success where no
conditional is open (`GrammarStop`).
-/

namespace TbcNode.Script.Interpreter

open TbcNode.Logic TbcNode.Primitives

/-- How a run whose stacks are frozen may stop: success only where no conditional is open,
cancellation, and the failures of the grammar checks (an instruction that does not parse, the
operation count, an unbalanced conditional). -/
def GrammarStop : Stop → EvalState → Prop
  | .success, s => s.branches = []
  | .canceled, _ => True
  | .failure e, _ =>
    e = .SCRIPT_ERR_BAD_OPCODE ∨ e = .SCRIPT_ERR_OP_COUNT ∨ e = .SCRIPT_ERR_UNBALANCED_CONDITIONAL
  | _, _ => False

/-- A state after the mark, on the stacks `r`. -/
def Frozen (r : LimitedStack) (s : EvalState) : Prop :=
  s.nonTopLevelReturnAfterGenesis = true ∧ s.root = r

/-- A stop on the stacks `r` that the grammar decides. -/
def FrozenEnd (r : LimitedStack) (e : Stop) (s : EvalState) : Prop :=
  s.root = r ∧ GrammarStop e s

theorem caught_of_grammarStop {e : Stop} {s : EvalState} (h : GrammarStop e s) : e.caught = e := by
  cases e with
  | raise e => exact h.elim
  | _ => rfl

/-! ## One round after the mark -/

section Round

variable (env : Env) {r : LimitedStack}

theorem frozenEnd_failure {e : ScriptError} {s : EvalState} (h : Frozen r s)
    (he : e = .SCRIPT_ERR_BAD_OPCODE ∨ e = .SCRIPT_ERR_OP_COUNT ∨
      e = .SCRIPT_ERR_UNBALANCED_CONDITIONAL) : FrozenEnd r (.failure e) s :=
  ⟨h.2, he⟩

theorem frozen_opIf (opcode : UInt8) :
    Triple (Frozen r) (opIf env opcode false) (fun _ => Frozen r) (FrozenEnd r) :=
  Triple.bind (Triple.pure' fun _ h => h) fun _ => Triple.modify' fun _ h => h

theorem frozen_opElse : Triple (Frozen r) (opElse env) (fun _ => Frozen r) (FrozenEnd r) := by
  refine Triple.bind_get_at fun s hs => ?_
  split
  · exact Triple.throw' fun t ht => frozenEnd_failure (ht ▸ hs) (.inr (.inr rfl))
  · exact Triple.ite'
      (fun _ => Triple.throw' fun t ht => frozenEnd_failure (ht ▸ hs) (.inr (.inr rfl)))
      fun _ => Triple.set' fun _ _ => hs

theorem frozen_opEndIf : Triple (Frozen r) opEndIf (fun _ => Frozen r) (FrozenEnd r) := by
  refine Triple.bind_get_at fun s hs => ?_
  split
  · exact Triple.throw' fun t ht => frozenEnd_failure (ht ▸ hs) (.inr (.inr rfl))
  · exact Triple.set' fun _ _ => hs

theorem frozen_opReturn (hg : env.utxoAfterGenesis = true) :
    Triple (Frozen r) (opReturn env) (fun _ => Frozen r) (FrozenEnd r) := by
  unfold opReturn
  rw [if_pos hg]
  refine Triple.bind_get_at fun s hs => Triple.ite_throw (fun hb t ht => ht ▸ ⟨hs.2, hb⟩) ?_
  exact Triple.modify' fun t ht => ⟨rfl, ht ▸ hs.2⟩

theorem eq_conditional_of_le {opcode : UInt8} (h1 : OP_IF ≤ opcode) (h2 : opcode ≤ OP_ENDIF) :
    opcode = OP_IF ∨ opcode = OP_NOTIF ∨ opcode = OP_VERIF ∨ opcode = OP_VERNOTIF ∨
      opcode = OP_ELSE ∨ opcode = OP_ENDIF := by
  simp only [OP_IF, OP_ENDIF, OP_NOTIF, OP_VERIF, OP_VERNOTIF, OP_ELSE, ← UInt8.toNat_inj,
    UInt8.le_iff_toNat_le, UInt8.reduceToNat] at *
  omega

theorem opGroup_of_conditional {opcode : UInt8} (h1 : OP_IF ≤ opcode) (h2 : opcode ≤ OP_ENDIF) :
    opGroup opcode = .ifNotIf ∨ opGroup opcode = .elseBranch ∨ opGroup opcode = .endIf ∨
      (opGroup opcode = .other ∧ isInvalidBranchingOpcode opcode = true) := by
  rcases eq_conditional_of_le h1 h2 with rfl | rfl | rfl | rfl | rfl | rfl <;> decide

theorem frozen_execOpcode_of_conditional (hg : env.utxoAfterGenesis = true) {opcode : UInt8}
    (h1 : OP_IF ≤ opcode) (h2 : opcode ≤ OP_ENDIF) :
    Triple (Frozen r) (execOpcode env opcode false) (fun _ => Frozen r) (FrozenEnd r) := by
  unfold execOpcode
  rcases opGroup_of_conditional h1 h2 with h | h | h | ⟨h, hb⟩ <;> rw [h]
  · exact frozen_opIf env opcode
  · exact frozen_opElse env
  · exact frozen_opEndIf
  · unfold opDefault
    rw [if_pos (by simp [hb, hg])]
    exact Triple.pure' fun _ h => h

theorem frozen_execOpcode (hg : env.utxoAfterGenesis = true) {opcode : UInt8} {fExec : Bool}
    (hret : fExec = true → opcode = OP_RETURN)
    (hc : (fExec || (decide (OP_IF ≤ opcode) && decide (opcode ≤ OP_ENDIF))) = true) :
    Triple (Frozen r) (execOpcode env opcode fExec) (fun _ => Frozen r) (FrozenEnd r) := by
  cases fExec with
  | true =>
    obtain rfl := hret rfl
    have h : opGroup OP_RETURN = .opReturn := by decide
    unfold execOpcode
    rw [h]
    exact frozen_opReturn env hg
  | false =>
    simp only [Bool.false_or, Bool.and_eq_true, decide_eq_true_eq] at hc
    exact frozen_execOpcode_of_conditional env hg hc.1 hc.2

theorem frozen_stackSize : Triple (Frozen r) stackSize (fun _ => Frozen r) (FrozenEnd r) :=
  fun _ hs => hs

theorem frozen_altstackSize : Triple (Frozen r) altstackSize (fun _ => Frozen r) (FrozenEnd r) :=
  fun _ hs => hs

theorem frozen_stackSizeCheck (hg : env.utxoAfterGenesis = true) :
    Triple (Frozen r) (do
      let a ← stackSize
      let b ← altstackSize
      if (!env.utxoAfterGenesis && decide (a + b > MAX_STACK_ELEMENTS_BEFORE_GENESIS)) = true then
        setError .SCRIPT_ERR_STACK_SIZE
      else pure ()) (fun _ => Frozen r) (FrozenEnd r) :=
  Triple.bind frozen_stackSize fun _ => Triple.bind frozen_altstackSize fun _ =>
    Triple.ite' (fun hc => by simp [hg] at hc) fun _ => Triple.pure' fun _ h => h

theorem frozen_execInstruction (hg : env.utxoAfterGenesis = true) {s : EvalState}
    (hs : s.nonTopLevelReturnAfterGenesis = true) (opcode : UInt8) (vchPushValue : valtype) :
    Triple (Frozen r) (execInstruction env s opcode vchPushValue) (fun _ => Frozen r)
      (FrozenEnd r) := by
  unfold execInstruction
  generalize hfe : (s.allExec && (!s.nonTopLevelReturnAfterGenesis || opcode == OP_RETURN)) = fExec
  have hret : fExec = true → opcode = OP_RETURN := by
    rintro rfl
    simp only [hs, Bool.not_true, Bool.false_or, Bool.and_eq_true, beq_iff_eq] at hfe
    exact hfe.2
  have hdis : (isOpcodeDisabled opcode && (!env.utxoAfterGenesis || fExec)) = false := by
    cases fExec with
    | false => simp [hg]
    | true =>
      have h : isOpcodeDisabled OP_RETURN = false := by decide
      rw [hret rfl, h, Bool.false_and]
  have hpush : (fExec && decide (opcode ≤ OP_PUSHDATA4)) = false := by
    cases fExec with
    | false => rfl
    | true => rw [hret rfl]; decide
  refine Triple.ite_throw (fun hc => by simp [hg] at hc) ?_
  refine Triple.ite' (fun _ => Triple.bind (Triple.modify' fun _ h => h) fun _ =>
    Triple.bind_get fun t ht => Triple.ite_throw
      (fun _ u hu => frozenEnd_failure hu (.inr (.inl rfl))) ?_) (fun _ => ?_)
  all_goals
    refine Triple.ite_throw (fun hc => by simp [hdis] at hc) ?_
    refine Triple.ite' (fun hc => by simp [hpush] at hc) fun _ => ?_
    refine Triple.ite' (fun hc => Triple.bind (frozen_execOpcode env hg hret hc) fun _ => ?_)
      fun _ => ?_
  all_goals exact frozen_stackSizeCheck env hg

theorem frozen_isCanceled : Triple (Frozen r) (isCanceled env) (fun _ => Frozen r) (FrozenEnd r) :=
  Triple.modifyGet' fun _ h => h

theorem frozen_evalStep (hg : env.utxoAfterGenesis = true) (script : CScript) :
    Triple (Frozen r) (evalStep env script) (fun _ => Frozen r) (FrozenEnd r) := by
  refine Triple.bind (frozen_isCanceled env) fun _ =>
    Triple.ite_throw (fun _ t ht => ⟨ht.2, trivial⟩) (Triple.bind_get fun s hs => ?_)
  split
  · exact Triple.throw' fun t ht => frozenEnd_failure ht (.inl rfl)
  · exact Triple.bind (Triple.set' fun _ _ => hs) fun _ => frozen_execInstruction env hg hs.1 _ _

theorem frozen_whileFuel (hg : env.utxoAfterGenesis = true) (script : CScript) (n : Nat) :
    Triple (Frozen r) (whileFuel EvalState.running (evalStep env script) n) (fun _ => Frozen r)
      (FrozenEnd r) :=
  Triple.whileFuel ((frozen_evalStep env hg script).consequence (fun _ h => h.1)
    (fun _ _ h => h) (fun _ _ h => h)) n

theorem frozen_catchExceptions {P : EvalState → Prop} {m : EvalM Unit}
    (h : Triple P m (fun _ => Frozen r) (FrozenEnd r)) :
    Triple P (catchExceptions m) (fun _ => Frozen r) (FrozenEnd r) := by
  intro s hs
  have h' := h s hs
  revert h'
  simp only [catchExceptions, EStateM.run]
  cases m s with
  | ok _ t => exact id
  | error e t =>
    intro he
    show FrozenEnd r e.caught t
    rw [caught_of_grammarStop he.2]
    exact he

theorem root_finalState_of_frozen {α : Type} {m : EvalM α} {s : EvalState}
    (h : Triple (Frozen r) m (fun _ => Frozen r) (FrozenEnd r)) (hs : Frozen r s) :
    (finalState (m.run s)).root = r := by
  have h' := h s hs
  revert h'
  cases m.run s with
  | ok _ t => exact fun h => h.2
  | error e t => exact fun h => h.1

end Round

/-! ## The rest of the run -/

section Run

variable (env : Env) {root : LimitedStack} {script : CScript} {polls n : Nat} {s : EvalState}

theorem root_evalStateAfter_of_frozen (hg : env.utxoAfterGenesis = true)
    (hrun : evalRounds env root script polls n = .ok ⟨⟩ s)
    (hret : s.nonTopLevelReturnAfterGenesis = true) {m : Nat} (hm : n ≤ m) :
    (evalStateAfter env root script polls m).root = s.root := by
  obtain ⟨k, rfl⟩ := Nat.exists_eq_add_of_le hm
  rw [evalStateAfter_eq, evalRounds_add, hrun]
  exact root_finalState_of_frozen (frozen_whileFuel env hg script k) ⟨hret, rfl⟩

theorem frozen_evalLoop (hg : env.utxoAfterGenesis = true)
    (hrun : evalRounds env root script polls n = .ok ⟨⟩ s)
    (hret : s.nonTopLevelReturnAfterGenesis = true) :
    Triple (· = EvalState.start { root with altstack := [] } [] 0 script polls)
      (evalLoop env script) (fun _ => Frozen s.root) (FrozenEnd s.root) := by
  rintro _ rfl
  have hpc : (EvalState.start { root with altstack := [] } [] 0 script polls).pc = script := rfl
  rw [evalLoop_fuel env _ hpc (Nat.le_add_left script.length n)]
  have hrun' : (whileFuel EvalState.running (evalStep env script) n).run
      (EvalState.start { root with altstack := [] } [] 0 script polls) = .ok ⟨⟩ s := hrun
  rw [run_whileFuel_add, hrun']
  exact frozen_whileFuel env hg script _ s ⟨hret, rfl⟩

theorem frozen_evalScriptWith (hg : env.utxoAfterGenesis = true)
    (hsize : script.length ≤ env.config.getMaxScriptSize env.utxoAfterGenesis env.consensus)
    (hrun : evalRounds env root script polls n = .ok ⟨⟩ s)
    (hret : s.nonTopLevelReturnAfterGenesis = true) :
    Triple (· = EvalState.start { root with altstack := [] } [] 0 script polls)
      (evalScriptWith env script) (fun _ _ => False) (FrozenEnd s.root) := by
  unfold evalScriptWith
  refine Triple.ite' (fun hc => absurd hc (by omega)) fun _ => ?_
  refine Triple.bind (frozen_catchExceptions (frozen_evalLoop env hg hrun hret)) fun _ =>
    Triple.bind_get_at fun t ht => Triple.ite' ?_ ?_
  · exact fun _ u hu => frozenEnd_failure (hu ▸ ht) (.inr (.inr rfl))
  · exact fun hc => Triple.throw' fun u hu => hu ▸ ⟨ht.2, not_not.mp hc⟩

end Run

/-- **A post-Genesis `OP_RETURN` in a branch freezes the stacks.** Once the first `n` rounds of a
run after Genesis have ended normally with the mark set, that is, with an `OP_RETURN` executed
inside a conditional, no later round changes the main stack or the altstack; and a script that
passes the size check then ends on those stacks, with success only where no conditional is open,
with cancellation, or with a failure of the grammar checks. -/
theorem genesis_return_freezes_stacks {env : Env} (hg : env.utxoAfterGenesis = true)
    {root : LimitedStack} {script : CScript} {polls n : Nat} {s : EvalState}
    (hrun : evalRounds env root script polls n = .ok ⟨⟩ s)
    (hret : s.nonTopLevelReturnAfterGenesis = true) :
    (∀ m, n ≤ m → (evalStateAfter env root script polls m).root = s.root) ∧
    (script.length ≤ env.config.getMaxScriptSize env.utxoAfterGenesis env.consensus →
      let res := (evalScriptWith env script).run
        (EvalState.start { root with altstack := [] } [] 0 script polls)
      (finalState res).root = s.root ∧ GrammarStop (Stop.ofResult res) (finalState res)) := by
  refine ⟨fun m hm => root_evalStateAfter_of_frozen env hg hrun hret hm, fun hsize => ?_⟩
  have h := frozen_evalScriptWith env hg hsize hrun hret _ rfl
  dsimp only
  revert h
  cases (evalScriptWith env script).run
      (EvalState.start { root with altstack := [] } [] 0 script polls) with
  | ok _ t => exact False.elim
  | error e t => exact id

/-- `OP_1 OP_IF OP_RETURN OP_ENDIF` after Genesis: the third round sets the mark inside the
conditional, and the run ends with success at the end of the script on the stack `OP_1` left. -/
theorem genesis_return_freezes_stacks_in_branch :
    let env := Env.sample SCRIPT_UTXO_AFTER_GENESIS BaseSignatureChecker.base
    let root := LimitedStack.empty 1000
    let script : CScript := [OP_1, OP_IF, OP_RETURN, OP_ENDIF]
    let s := evalStateAfter env root script 0 3
    env.utxoAfterGenesis = true ∧ evalRounds env root script 0 3 = .ok ⟨⟩ s ∧
      s.nonTopLevelReturnAfterGenesis = true ∧
      (∀ m, 3 ≤ m → (evalStateAfter env root script 0 m).root = s.root) ∧
      (script.length ≤ env.config.getMaxScriptSize env.utxoAfterGenesis env.consensus →
        let res := (evalScriptWith env script).run
          (EvalState.start { root with altstack := [] } [] 0 script 0)
        (finalState res).root = s.root ∧ GrammarStop (Stop.ofResult res) (finalState res)) :=
  have hg : (Env.sample SCRIPT_UTXO_AFTER_GENESIS BaseSignatureChecker.base).utxoAfterGenesis =
    true := by decide
  have hrun : evalRounds (Env.sample SCRIPT_UTXO_AFTER_GENESIS BaseSignatureChecker.base)
      (LimitedStack.empty 1000) [OP_1, OP_IF, OP_RETURN, OP_ENDIF] 0 3 = .ok ⟨⟩
      (evalStateAfter (Env.sample SCRIPT_UTXO_AFTER_GENESIS BaseSignatureChecker.base)
        (LimitedStack.empty 1000) [OP_1, OP_IF, OP_RETURN, OP_ENDIF] 0 3) := by decide_cbv
  have hret : (evalStateAfter (Env.sample SCRIPT_UTXO_AFTER_GENESIS BaseSignatureChecker.base)
      (LimitedStack.empty 1000) [OP_1, OP_IF, OP_RETURN, OP_ENDIF] 0 3
      ).nonTopLevelReturnAfterGenesis = true := by decide_cbv
  ⟨hg, hrun, hret, genesis_return_freezes_stacks hg hrun hret⟩

/-- The same script succeeds, although its only `OP_RETURN` is inside the conditional: the success
comes from the check of the conditionals at the end of the script, not from a top-level
`OP_RETURN`. -/
theorem genesis_return_in_branch_succeeds_at_end :
    (evalStateAfter (Env.sample SCRIPT_UTXO_AFTER_GENESIS BaseSignatureChecker.base)
        (LimitedStack.empty 1000) [OP_1, OP_IF, OP_RETURN, OP_ENDIF] 0 3
      ).nonTopLevelReturnAfterGenesis = true ∧
    (evalScript (Env.sample SCRIPT_UTXO_AFTER_GENESIS BaseSignatureChecker.base)
        (LimitedStack.empty 1000) [OP_1, OP_IF, OP_RETURN, OP_ENDIF] 0).1 = .success := by
  decide_cbv

end TbcNode.Script.Interpreter
