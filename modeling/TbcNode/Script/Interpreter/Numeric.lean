import TbcNode.Script.Interpreter.Ops

/-! # The two numeric back ends agree

On operands of at most four bytes, the `int64_t` path before Genesis and the `bsv::bint` path after
it push the same bytes and fail alike: each numeric opcode runs alike in two environments that
differ only in Genesis (`GenesisPair`).
-/

namespace TbcNode.Script.Interpreter

open TbcNode.Logic

/-- Two environments that the numeric opcodes tell apart only by whether Genesis is enabled:
the same OpenSSL, behaving as documented, the same `MINIMALDATA` flag, and limits on the length of
numbers that admit four bytes. -/
structure GenesisPair (env₁ env₂ : Env) : Prop where
  spec : env₁.ssl.Spec
  ssl : env₂.ssl = env₁.ssl
  fRequireMinimal : env₂.fRequireMinimal = env₁.fRequireMinimal
  before : env₁.utxoAfterGenesis = false
  after : env₂.utxoAfterGenesis = true
  numLength₁ : 4 ≤ env₁.maxScriptNumLength
  numLength₂ : 4 ≤ env₂.maxScriptNumLength

theorem ite_bind_backends {β γ : Type} {c : Prop} [Decidable c] {x₁ y₁ x₂ y₂ : EvalM β}
    {f₁ f₂ : β → EvalM γ} (hx : c → x₁ >>= f₁ = x₂ >>= f₂) (hy : ¬ c → y₁ >>= f₁ = y₂ >>= f₂) :
    ((if c then x₁ else y₁) >>= f₁) = ((if c then x₂ else y₂) >>= f₂) := by
  by_cases hc : c
  · rw [if_pos hc, if_pos hc]
    exact hx hc
  · rw [if_neg hc, if_neg hc]
    exact hy hc

/-- The top `k` elements of the main stack have at most four bytes: the operands of an opcode
that reads `k` numbers fit the constructor before Genesis. -/
def OperandsFit (k : Nat) (s : EvalState) : Prop :=
  ∀ e ∈ s.root.stack.drop (s.root.stack.length - k), e.length ≤ 4

theorem OperandsFit.of_stacktop {k i : Nat} {s s' : EvalState} {v : LimitedVector}
    (hs : OperandsFit k s) (hi : i ≤ k) (hv : (stacktop (-(i : Int))).run s = .ok v s') :
    s' = s ∧ v.element.length ≤ 4 := by
  obtain ⟨rfl, hmem⟩ := mem_stack_of_run_stacktop hv
  refine ⟨rfl, hs _ ((List.drop_sublist_drop_left _ ?_).subset hmem)⟩
  omega

section Backends

variable {env₁ env₂ : Env} (h : GenesisPair env₁ env₂)
include h

theorem getvch_backends {r₁ r₂ : CScriptNum} (hv : r₁.value = r₂.value) :
    r₁.getvch env₁.ssl = r₂.getvch env₂.ssl := by
  rw [CScriptNum.getvch_eq_serialize h.spec, h.ssl, CScriptNum.getvch_eq_serialize h.spec, hv]

theorem pure_bind_backends {β : Type} {x₁ x₂ : CScriptNum} {f₁ f₂ : CScriptNum → EvalM β}
    (hf : ∀ r₁ r₂, r₁.getvch env₁.ssl = r₂.getvch env₂.ssl → f₁ r₁ = f₂ r₂)
    (hv : x₁.value = x₂.value) : (pure x₁ >>= f₁) = (pure x₂ >>= f₂) := by
  rw [pure_bind, pure_bind]
  exact hf _ _ (getvch_backends h hv)

theorem scriptNum_backends {span : List UInt8} (hspan : span.length ≤ 4) {β : Type}
    {f₁ f₂ : CScriptNum → EvalM β} {s : EvalState}
    (hf : ∀ v, (f₁ (.int64 v)).run s = (f₂ (.bint v)).run s) :
    (scriptNum env₁ span env₁.fRequireMinimal env₁.maxScriptNumLength env₁.utxoAfterGenesis >>=
      f₁).run s =
    (scriptNum env₂ span env₂.fRequireMinimal env₂.maxScriptNumLength env₂.utxoAfterGenesis >>=
      f₂).run s := by
  unfold scriptNum
  rw [h.before, h.after, h.ssl, h.fRequireMinimal]
  rcases ofSpan_backends h.spec hspan h.numLength₁ h.numLength₂ env₁.fRequireMinimal with
    ⟨v, h₁, h₂⟩ | ⟨e, h₁, h₂⟩
  · rw [h₁, h₂]
    exact hf _
  · rw [h₁, h₂]
    rfl

/-- The inner `switch` of `OP_1ADD` ... `OP_0NOTEQUAL` on the same number held either way gives
results with the same encoding. -/
theorem unaryNumeric_backends (opcode : UInt8) (u : Int) {β : Type}
    {f₁ f₂ : CScriptNum → EvalM β}
    (hf : ∀ r₁ r₂, r₁.getvch env₁.ssl = r₂.getvch env₂.ssl → f₁ r₁ = f₂ r₂) :
    (unaryNumeric env₁ opcode (.int64 u) >>= f₁) = (unaryNumeric env₂ opcode (.bint u) >>= f₂) := by
  have hadd := h.spec.add
  have hsub := h.spec.sub
  unfold unaryNumeric scriptNumOne
  simp only [h.before, h.after, Bool.false_eq_true, if_false, if_true]
  repeat' refine ite_bind_backends (fun _ => ?_) (fun _ => ?_)
  all_goals first
    | rfl
    | refine pure_bind_backends h hf ?_
      first
        | rfl
        | (rw [apply_ite CScriptNum.value, apply_ite CScriptNum.value]; rfl)
        | simp [CScriptNum.add, CScriptNum.sub, CScriptNum.arith, h.ssl, hadd, hsub]

/-- The inner `switch` of `OP_ADD` ... `OP_MAX` on the same numbers held either way gives results
with the same encoding; a zero divisor is refused on both sides. -/
theorem binaryNumeric_backends (opcode : UInt8) (u v : Int) {β : Type}
    {f₁ f₂ : CScriptNum → EvalM β}
    (hf : ∀ r₁ r₂, r₁.getvch env₁.ssl = r₂.getvch env₂.ssl → f₁ r₁ = f₂ r₂) :
    (binaryNumeric env₁ opcode (.int64 u) (.int64 v) >>= f₁) =
      (binaryNumeric env₂ opcode (.bint u) (.bint v) >>= f₂) := by
  have hadd := h.spec.add
  have hsub := h.spec.sub
  have hmul := h.spec.mul
  unfold binaryNumeric
  repeat' refine ite_bind_backends (fun _ => ?_) (fun _ => ?_)
  all_goals first
    | rfl
    | refine pure_bind_backends h hf ?_
      first
        | rfl
        | (rw [apply_ite CScriptNum.value, apply_ite CScriptNum.value]; rfl)
        | (simp [CScriptNum.add, CScriptNum.sub, CScriptNum.mul, CScriptNum.arith, h.ssl, hadd,
            hsub, hmul]; done)
        | (rename_i hv; simp [CScriptNum.div, CScriptNum.arith, h.ssl, h.spec.div u v hv]; done)
        | (rename_i hv; simp [CScriptNum.mod, CScriptNum.arith, h.ssl, h.spec.mod u v hv])

theorem opUnaryNumeric_backends (opcode : UInt8) {s : EvalState} (hs : OperandsFit 1 s) :
    (opUnaryNumeric env₁ opcode).run s = (opUnaryNumeric env₂ opcode).run s := by
  unfold opUnaryNumeric
  refine run_bind_congr fun _ s₁ h₁ => ?_
  have hs₁ : s₁ = s := by
    simpa [h₁] using readsOnly_requireSize 1 .SCRIPT_ERR_INVALID_STACK_OPERATION s
  subst hs₁
  refine run_bind_congr fun top s₂ h₂ => ?_
  obtain ⟨rfl, htop⟩ := hs.of_stacktop (le_refl 1) h₂
  refine scriptNum_backends h htop fun v => congrArg (fun m => EStateM.run m s₂) ?_
  exact unaryNumeric_backends h opcode v fun r₁ r₂ hr => by simp only [hr]

theorem opBinaryNumeric_backends (opcode : UInt8) {s : EvalState} (hs : OperandsFit 2 s) :
    (opBinaryNumeric env₁ opcode).run s = (opBinaryNumeric env₂ opcode).run s := by
  unfold opBinaryNumeric
  refine run_bind_congr fun _ s₁ h₁ => ?_
  have hs₁ : s₁ = s := by
    simpa [h₁] using readsOnly_requireSize 2 .SCRIPT_ERR_INVALID_STACK_OPERATION s
  subst hs₁
  refine run_bind_congr fun arg2 s₂ h₂ => ?_
  obtain ⟨rfl, h2⟩ := hs.of_stacktop (le_refl 2) h₂
  refine run_bind_congr fun arg1 s₃ h₃ => ?_
  obtain ⟨rfl, h1⟩ := hs.of_stacktop (by omega : 1 ≤ 2) h₃
  refine scriptNum_backends h h2 fun u => scriptNum_backends h h1 fun v =>
    congrArg (fun m => EStateM.run m s₃) ?_
  exact binaryNumeric_backends h opcode u v fun r₁ r₂ hr => by simp only [hr]

theorem opWithin_backends {s : EvalState} (hs : OperandsFit 3 s) :
    (opWithin env₁).run s = (opWithin env₂).run s := by
  unfold opWithin
  refine run_bind_congr fun _ s₁ h₁ => ?_
  have hs₁ : s₁ = s := by
    simpa [h₁] using readsOnly_requireSize 3 .SCRIPT_ERR_INVALID_STACK_OPERATION s
  subst hs₁
  refine run_bind_congr fun top3 s₂ h₂ => ?_
  obtain ⟨rfl, h3⟩ := hs.of_stacktop (le_refl 3) h₂
  refine scriptNum_backends h h3 fun u => run_bind_congr fun top2 s₃ h₃ => ?_
  obtain ⟨rfl, h2⟩ := hs.of_stacktop (by omega : 2 ≤ 3) h₃
  refine scriptNum_backends h h2 fun v => run_bind_congr fun top1 s₄ h₄ => ?_
  obtain ⟨rfl, h1⟩ := hs.of_stacktop (by omega : 1 ≤ 3) h₄
  exact scriptNum_backends h h1 fun w => rfl

end Backends

/-- **The two numeric back ends agree.** Under OpenSSL's documented behaviour `bsv::bint`'s
encoding is `bsv::serialize`, and its decoding is `bsv::deserialize<int64_t>` on at most four
bytes; and each numeric opcode runs alike, with the same stacks and the same errors, before and
after Genesis, from every state whose operands have at most four bytes. -/
theorem numeric_backends_agree {env₁ env₂ : Env} (h : GenesisPair env₁ env₂) :
    (∀ v : Int, bintSerialize env₁.ssl v = serialize v) ∧
    (∀ (span : List UInt8) (hne : span ≠ []), span.length ≤ 4 →
      bintDeserialize env₁.ssl span = deserialize span hne) ∧
    (∀ opcode s, OperandsFit 1 s →
      (opUnaryNumeric env₁ opcode).run s = (opUnaryNumeric env₂ opcode).run s) ∧
    (∀ opcode s, OperandsFit 2 s →
      (opBinaryNumeric env₁ opcode).run s = (opBinaryNumeric env₂ opcode).run s) ∧
    (∀ s, OperandsFit 3 s → (opWithin env₁).run s = (opWithin env₂).run s) :=
  ⟨bintSerialize_eq h.spec, fun span hne hspan => bintDeserialize_eq h.spec span hne (by omega),
    fun opcode _ hs => opUnaryNumeric_backends h opcode hs,
    fun opcode _ hs => opBinaryNumeric_backends h opcode hs,
    fun _ hs => opWithin_backends h hs⟩

/-- The sample environments before and after Genesis are such a pair. -/
theorem numeric_backends_agree_sample :
    GenesisPair (Env.sample 0 BaseSignatureChecker.base)
        (Env.sample SCRIPT_UTXO_AFTER_GENESIS BaseSignatureChecker.base) ∧
      (∀ v : Int, bintSerialize Openssl.reference v = serialize v) ∧
      (∀ (span : List UInt8) (hne : span ≠ []), span.length ≤ 4 →
        bintDeserialize Openssl.reference span = deserialize span hne) ∧
      (∀ opcode s, OperandsFit 1 s →
        (opUnaryNumeric (Env.sample 0 BaseSignatureChecker.base) opcode).run s =
          (opUnaryNumeric (Env.sample SCRIPT_UTXO_AFTER_GENESIS BaseSignatureChecker.base)
            opcode).run s) ∧
      (∀ opcode s, OperandsFit 2 s →
        (opBinaryNumeric (Env.sample 0 BaseSignatureChecker.base) opcode).run s =
          (opBinaryNumeric (Env.sample SCRIPT_UTXO_AFTER_GENESIS BaseSignatureChecker.base)
            opcode).run s) ∧
      (∀ s, OperandsFit 3 s →
        (opWithin (Env.sample 0 BaseSignatureChecker.base)).run s =
          (opWithin (Env.sample SCRIPT_UTXO_AFTER_GENESIS BaseSignatureChecker.base)).run s) :=
  have hpair : GenesisPair (Env.sample 0 BaseSignatureChecker.base)
      (Env.sample SCRIPT_UTXO_AFTER_GENESIS BaseSignatureChecker.base) :=
    ⟨Openssl.reference_spec, rfl, by decide, by decide, by decide, by decide, by decide⟩
  ⟨hpair, numeric_backends_agree hpair⟩

end TbcNode.Script.Interpreter
