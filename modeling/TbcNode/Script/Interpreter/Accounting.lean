import Mathlib
import TbcNode.Script.Interpreter.Invariant

/-! # The memory of the stacks

Every operation and every step of `EvalScript` keeps `combinedStackSize` equal to a fixed surplus
plus the memory of the elements (`Accounted`, `Rollback`). The altstack is destroyed without giving
its memory back, so later runs of `VerifyScript` start from a counter above the elements.
-/

namespace TbcNode.Script.Interpreter

open TbcNode.Logic TbcNode.Primitives LimitedStack

theorem stackInvariant_accounted (k : Nat) : StackInvariant (Accounted k) := by
  intro α m hm
  cases hm with
  | popBack r => exact LimitedStack.keeps_popBack
  | pushBack r e => exact LimitedStack.keeps_pushBack e
  | pushBackVector r v => exact LimitedStack.keeps_pushBackVector v
  | erase r i => exact LimitedStack.keeps_erase i
  | eraseRange r first last => exact LimitedStack.keeps_eraseRange first last
  | insert r p v => exact LimitedStack.keeps_insert p v
  | swapElements r i j => exact LimitedStack.keeps_swapElements i j
  | moveTopToStack r other => exact LimitedStack.keeps_moveTopToStack other
  | modifyElement r i f hf => exact LimitedStack.keeps_modifyElement i f hf
  | append r i second => exact LimitedStack.keeps_append i second
  | padRight r i size signbit => exact LimitedStack.keeps_padRight i size signbit
  | minimallyEncode r i => exact LimitedStack.keeps_minimallyEncode i

theorem rollback_stackOp (k : Nat) {α : Type} {m : StackM α} (hm : StackOp m) :
    Rollback (Accounted k) m := by
  cases hm with
  | popBack r => exact LimitedStack.rollback_popBack
  | pushBack r e => exact LimitedStack.rollback_pushBack e
  | pushBackVector r v => exact LimitedStack.rollback_pushBackVector v
  | erase r i => exact LimitedStack.rollback_erase i
  | eraseRange r first last => exact LimitedStack.rollback_eraseRange first last
  | insert r p v => exact LimitedStack.rollback_insert p v
  | swapElements r i j => exact LimitedStack.rollback_swapElements i j
  | moveTopToStack r other => exact LimitedStack.rollback_moveTopToStack other
  | modifyElement r i f _ => exact LimitedStack.rollback_modifyElement i f
  | append r i second => exact LimitedStack.rollback_append i second
  | padRight r i size signbit => exact LimitedStack.rollback_padRight i size signbit
  | minimallyEncode r i => exact LimitedStack.rollback_minimallyEncode i

theorem accounted_empty (maxStackSizeIn : Nat) : Accounted 0 (LimitedStack.empty maxStackSizeIn) :=
  ⟨rfl, Nat.zero_le _⟩

theorem accounted_dropAltstack {k : Nat} {st : LimitedStack} (h : Accounted k st) :
    Accounted (k + usage st.altstack) { st with altstack := [] } := by
  obtain ⟨hc, hm⟩ := h
  refine ⟨?_, hm⟩
  simp only [totalUsage, usage_nil] at hc ⊢
  omega

/-! ## A run of `EvalScript` -/

section Run

variable (env : Env) (script : CScript) (polls : Nat)

theorem accounted_evalStateAfter {k : Nat} {root : LimitedStack} (h : Accounted k root) (n : Nat) :
    Accounted (k + usage root.altstack) (evalStateAfter env root script polls n).root :=
  Keeps.finalState (Keeps.whileFuel (keeps_evalStep (OpInvariant.ofRoot
    (stackInvariant_accounted _)) env (fun _ _ _ h => h) script) n) (accounted_dropAltstack h)

theorem accounted_evalScript {k : Nat} {root : LimitedStack} (h : Accounted k root) :
    ∃ k', k ≤ k' ∧ Accounted k' (evalScript env root script polls).2.1 := by
  have hrun := Keeps.finalState (keeps_evalScriptWith (OpInvariant.ofRoot
    (stackInvariant_accounted (k + usage root.altstack))) env (fun _ _ _ h => h) script)
    (s := EvalState.start { root with altstack := [] } [] 0 script polls) (accounted_dropAltstack h)
  exact ⟨_, by omega, accounted_dropAltstack hrun⟩

theorem altstack_evalScript (root : LimitedStack) :
    (evalScript env root script polls).2.1.altstack = [] := rfl

end Run

/-! ## The runs of `VerifyScript` -/

theorem roots_verifyP2SH {k : Nat} {stackCopy : LimitedStack} (h : Accounted k stackCopy)
    (hc : stackCopy.altstack = []) (env : Env) (scriptSig : CScript) (polls : Nat) :
    ∀ r ∈ (verifyP2SH env scriptSig stackCopy polls).2, Accounted k r ∧ r.altstack = [] := by
  unfold verifyP2SH
  split
  · simp
  split
  · simp
  rename_i top _
  have hpop := (LimitedStack.keeps_popBack (r := .main)) stackCopy h
  revert hpop
  cases hrun : (LimitedStack.popBack .main).run stackCopy with
  | error e t => simp
  | ok a t =>
    intro hpop
    have halt : t.altstack = [] := by
      rw [run_popBack] at hrun
      split at hrun
      · cases hrun
      · cases hrun
        exact hc
    simp only
    split_ifs <;> simp [hpop, halt]

theorem roots_verifyScript (env : Env) (scriptSig scriptPubKey : CScript) :
    (∀ r ∈ (verifyScript env scriptSig scriptPubKey).2.head?, Accounted 0 r) ∧
    ∀ r ∈ (verifyScript env scriptSig scriptPubKey).2, r.altstack = [] ∧ ∃ k, Accounted k r := by
  unfold verifyScript
  dsimp only
  set env' : Env := { env with flags := verifyFlags env.flags }
  set stack₀ := empty (env.config.getMaxStackMemoryUsage
    (hasFlag (verifyFlags env.flags) SCRIPT_UTXO_AFTER_GENESIS) env.consensus)
  set first := evalScript env' stack₀ scriptSig 0
  have h0 : Accounted 0 stack₀ := accounted_empty _
  obtain ⟨k1, -, h1⟩ := accounted_evalScript env' scriptSig 0 h0
  have a1 : first.2.1.altstack = [] := altstack_evalScript env' scriptSig 0 stack₀
  have hcopy : ∀ polls, ∀ r ∈ (verifyP2SH env' scriptSig first.2.1.makeRootStackCopy polls).2,
      r.altstack = [] ∧ ∃ k, Accounted k r := fun polls r hr =>
    have h := roots_verifyP2SH (accounted_dropAltstack h1) rfl env' scriptSig polls r hr
    ⟨h.2, _, h.1⟩
  have hempty : ∀ polls, ∀ r ∈ (verifyP2SH env' scriptSig stack₀ polls).2,
      r.altstack = [] ∧ ∃ k, Accounted k r := fun polls r hr =>
    have h := roots_verifyP2SH h0 rfl env' scriptSig polls r hr
    ⟨h.2, _, h.1⟩
  have hfirst : ∀ r, r = stack₀ ∨ r = first.2.1 → r.altstack = [] ∧ ∃ k, Accounted k r := by
    rintro r (rfl | rfl)
    · exact ⟨rfl, 0, h0⟩
    · exact ⟨a1, k1, h1⟩
  split_ifs
  all_goals refine ⟨fun r hr => ?_, fun r hr => ?_⟩
  all_goals simp only [List.head?_cons, List.head?_nil, Option.mem_def, reduceCtorEq,
    Option.some.injEq, List.mem_cons, List.not_mem_nil, List.cons_append,
    List.nil_append, or_false] at hr
  all_goals first
    | exact hr ▸ h0
    | exact hfirst r (.inl hr)
    | exact hfirst r hr
    | exact hr.elim (fun hr => hfirst r (.inl hr)) fun hr => hr.elim (fun hr => hfirst r (.inr hr))
        fun hr => hcopy _ r hr
    | exact hr.elim (fun hr => hfirst r (.inl hr)) fun hr => hr.elim (fun hr => hfirst r (.inr hr))
        fun hr => hempty _ r hr
/-! ## The accounting of `VerifyScript` -/

/-- **The memory of the stacks.** Every operation of `LimitedStack` keeps the counter equal to a
surplus plus the memory of the elements of both stacks and within the limit, and changes nothing
when it raises. At every step of a run of `EvalScript` from an accounted root the counter stays so
accounted. `VerifyScript` evaluates its first script on a root whose counter is exactly the memory
of its elements, and each of its runs on a root with an empty child and some surplus. -/
theorem stack_memory_accounting :
    (∀ (k : Nat) {α : Type} (m : StackM α), StackOp m →
      Keeps (Accounted k) m ∧ Rollback (Accounted k) m) ∧
    (∀ (k : Nat) (root : LimitedStack), Accounted k root →
      ∀ env script polls n,
        Accounted (k + usage root.altstack) (evalStateAfter env root script polls n).root) ∧
    (∀ env scriptSig scriptPubKey,
      ∀ r ∈ (verifyScript env scriptSig scriptPubKey).2.head?, Accounted 0 r) ∧
    (∀ env scriptSig scriptPubKey, ∀ r ∈ (verifyScript env scriptSig scriptPubKey).2,
      r.altstack = [] ∧ ∃ k, Accounted k r) :=
  ⟨fun k _ _ hm => ⟨stackInvariant_accounted k _ hm, rollback_stackOp k hm⟩,
    fun _ _ h env script polls n => accounted_evalStateAfter env script polls h n,
    fun env scriptSig scriptPubKey => (roots_verifyScript env scriptSig scriptPubKey).1,
    fun env scriptSig scriptPubKey => (roots_verifyScript env scriptSig scriptPubKey).2⟩

/-- The unlocking script leaves one element on its altstack; the locking script's run then starts
from a root that counts the element's 33 bytes with no element on either stack. -/
theorem verifyScript_root_overcounts :
    ∃ env : Env, (verifyScript env [OP_1, OP_TOALTSTACK] [OP_1]).1 = .success ∧
      ∃ r ∈ (verifyScript env [OP_1, OP_TOALTSTACK] [OP_1]).2,
        r.combinedStackSize ≠ totalUsage r := by
  refine ⟨{ config := GlobalConfig.default.toScriptConfig
            consensus := true
            token := ⟨fun _ => false⟩
            flags := 0
            checker := BaseSignatureChecker.base
            crypto := ⟨fun _ => Vector.replicate 20 0, fun _ => Vector.replicate 20 0,
              fun _ => Vector.replicate 32 0, fun _ => Vector.replicate 20 0,
              fun _ => Vector.replicate 32 0, fun _ _ _ => Vector.replicate 32 0, fun _ => true⟩
            ssl := Openssl.reference }, by decide_cbv, ?_⟩
  refine (List.any_eq_true (p := fun r => r.combinedStackSize != totalUsage r)).mp ?_ |>.imp
    fun r h => ⟨h.1, by simpa using h.2⟩
  decide_cbv

end TbcNode.Script.Interpreter
