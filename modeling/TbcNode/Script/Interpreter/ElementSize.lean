import TbcNode.Script.Interpreter.Invariant

/-! # The sizes of the elements before Genesis

Before Genesis every opcode rearranges elements, pushes a part of one or a short value, or checks
the size it pushes. So from a root within `MAX_SCRIPT_ELEMENT_SIZE_BEFORE_GENESIS` every state of a
run is within it, however the run ends.
-/

namespace TbcNode.Script

open TbcNode.Logic

theorem mem_modify_cases {α : Type} {l : List α} {k : Nat} {f : α → α} {x : α}
    (h : x ∈ l.modify k f) : x ∈ l ∨ ∃ y, l[k]? = some y ∧ x = f y := by
  rw [List.modify_eq_set_getElem?] at h
  cases hk : l[k]? with
  | none =>
    rw [hk] at h
    exact .inl h
  | some y =>
    rw [hk] at h
    rcases List.mem_or_eq_of_mem_set h with h | h
    · exact .inl h
    · exact .inr ⟨y, rfl, h⟩

namespace LimitedStack

/-- Every element of both stacks has at most `B` bytes. -/
def ElementsWithin (B : Nat) (st : LimitedStack) : Prop :=
  (∀ e ∈ st.stack, e.length ≤ B) ∧ ∀ e ∈ st.altstack, e.length ≤ B

variable {B : Nat} {r : StackRef}

theorem ElementsWithin.elems {st : LimitedStack} (h : st.ElementsWithin B) :
    ∀ r, ∀ e ∈ st.elems r, e.length ≤ B
  | .main => h.1
  | .alt => h.2

theorem elementsWithin_setElems {st : LimitedStack} (h : st.ElementsWithin B) {n : Nat}
    {l : List valtype} (hl : ∀ e ∈ l, e.length ≤ B) :
    (({ st with combinedStackSize := n } : LimitedStack).setElems r l).ElementsWithin B := by
  cases r
  · exact ⟨hl, h.2⟩
  · exact ⟨h.1, hl⟩

theorem elementsWithin_modify {st : LimitedStack} (h : st.ElementsWithin B) {n k : Nat}
    {f : valtype → valtype} (hf : ∀ y, (st.elems r)[k]? = some y → (f y).length ≤ B) :
    (({ st with combinedStackSize := n } : LimitedStack).setElems r
      ((st.elems r).modify k f)).ElementsWithin B := by
  refine elementsWithin_setElems h fun e he => ?_
  rcases mem_modify_cases he with he | ⟨y, hy, rfl⟩
  · exact h.elems r e he
  · exact hf y hy

/-! ## The operations on the stacks -/

theorem elementsWithin_popBack : Keeps (ElementsWithin B) (popBack r) := by
  intro st h
  rw [run_popBack]
  cases (st.elems r).getLast? with
  | none => exact h
  | some top =>
    dsimp only
    exact elementsWithin_setElems h fun e he => h.elems r e (List.dropLast_subset _ he)

theorem elementsWithin_erase (index : Int) : Keeps (ElementsWithin B) (erase r index) := by
  intro st h
  rw [run_erase]
  split_ifs
  · exact h
  · exact h
  · cases (st.elems r)[(((st.elems r).length : Int) + index).toNat]? with
    | none => exact h
    | some e =>
      dsimp only
      exact elementsWithin_setElems h fun e he => h.elems r e (List.mem_of_mem_eraseIdx he)

theorem elementsWithin_eraseRange (first last : Int) :
    Keeps (ElementsWithin B) (eraseRange r first last) := by
  intro st h
  rw [run_eraseRange]
  dsimp only
  split_ifs
  · exact h
  · exact h
  · dsimp only
    refine elementsWithin_setElems h fun e he => ?_
    rcases List.mem_append.mp he with he | he
    · exact h.elems r e (List.mem_of_mem_take he)
    · exact h.elems r e (List.mem_of_mem_drop he)

theorem elementsWithin_swapElements (index1 index2 : Nat) :
    Keeps (ElementsWithin B) (swapElements r index1 index2) := by
  intro st h
  rw [run_swapElements]
  cases h₁ : (st.elems r)[index1]? with
  | none => exact h
  | some a =>
    cases h₂ : (st.elems r)[index2]? with
    | none => exact h
    | some b =>
      dsimp only
      refine elementsWithin_setElems h fun e he => ?_
      rcases List.mem_or_eq_of_mem_set he with he | rfl
      · rcases List.mem_or_eq_of_mem_set he with he | rfl
        · exact h.elems r e he
        · exact h.elems r e (List.mem_of_getElem? h₂)
      · exact h.elems r e (List.mem_of_getElem? h₁)

theorem elementsWithin_moveTopToStack (other : StackRef) :
    Keeps (ElementsWithin B) (moveTopToStack r other) := by
  intro st h
  rw [run_moveTopToStack]
  split_ifs with hr
  · exact h
  · cases htop : (st.elems other).getLast? with
    | none => exact h
    | some top =>
      have hmoved : (st.setElems r (st.elems r ++ [top])).ElementsWithin B := by
        refine elementsWithin_setElems h fun e he => ?_
        rcases List.mem_append.mp he with he | he
        · exact h.elems r e he
        · rw [List.mem_singleton.mp he]
          exact h.elems other top (List.mem_of_getLast? htop)
      dsimp only
      exact elementsWithin_setElems hmoved fun e he => h.elems other e (List.dropLast_subset _ he)

theorem elementsWithin_modifyElement (i : Nat) {f : valtype → valtype}
    (hf : ∀ e, (f e).length = e.length) : Keeps (ElementsWithin B) (modifyElement r i f) := by
  intro st h
  rw [run_modifyElement]
  cases topIndex (st.elems r) i with
  | none => exact h
  | some k =>
    dsimp only
    exact elementsWithin_modify h fun y hy => (hf y).symm ▸ h.elems r y (List.mem_of_getElem? hy)

theorem elementsWithin_minimallyEncode (i : Nat) :
    Keeps (ElementsWithin B) (minimallyEncode r i) := by
  intro st h
  rw [run_minimallyEncode]
  cases hk : topIndex (st.elems r) i with
  | none => exact h
  | some j =>
    dsimp only
    split_ifs
    · exact h
    · have hj : (st.elems r).getD j [] ∈ st.elems r := by
        rw [List.getD_eq_getElem?_getD, List.getElem?_eq_getElem (topIndex_lt hk), Option.getD_some]
        exact List.getElem_mem _
      dsimp only
      exact elementsWithin_modify h fun _ _ =>
        (length_minimallyEncode_le _).trans (h.elems r _ hj)

theorem elementsWithin_pushBack {e : valtype} (he : e.length ≤ B) :
    Keeps (ElementsWithin B) (pushBack r e) := by
  intro st h
  rw [run_pushBack]
  split_ifs
  · exact h
  · dsimp only
    refine elementsWithin_setElems h fun x hx => ?_
    rcases List.mem_append.mp hx with hx | hx
    · exact h.elems r x hx
    · rw [List.mem_singleton.mp hx]
      exact he

theorem elementsWithin_pushBackVector {v : LimitedVector} (hv : v.element.length ≤ B) :
    Keeps (ElementsWithin B) (pushBackVector r v) := by
  by_cases ho : v.owner = r
  · rw [pushBackVector_eq v ho]
    exact elementsWithin_pushBack hv
  · intro st h
    rw [run_pushBackVector_of_ne v ho]
    exact h

theorem elementsWithin_insert (position : Int) {v : LimitedVector} (hv : v.element.length ≤ B) :
    Keeps (ElementsWithin B) (insert r position v) := by
  intro st h
  rw [run_insert]
  split_ifs with h₁ h₂ h₃
  · exact h
  · exact h
  · exact h
  · exact h
  · dsimp only
    refine elementsWithin_setElems h fun x hx => ?_
    rcases (List.mem_insertIdx (by omega)).mp hx with rfl | hx
    · exact hv
    · exact h.elems r x hx

theorem elementsWithin_padRight (i : Nat) {size : Nat} (signbit : UInt8) (hsize : size ≤ B) :
    Keeps (ElementsWithin B) (padRight r i size signbit) := by
  intro st h
  rw [run_padRight]
  cases hk : topIndex (st.elems r) i with
  | none => exact h
  | some j =>
    dsimp only
    split_ifs with hlong
    · exact h
    · dsimp only
      refine elementsWithin_modify h fun y hy => ?_
      have hyj : (st.elems r).getD j [] = y := by
        rw [List.getD_eq_getElem?_getD, hy, Option.getD_some]
      rw [length_padRight_element _ _ _ (hyj ▸ hlong)]
      exact hsize
    · exact h

theorem elementsWithin_append_top {e second : valtype} (hle : e.length + second.length ≤ B) :
    Triple (fun st => st.ElementsWithin B ∧ (st.elems r).getLast? = some e) (append r 1 second)
      (fun _ => ElementsWithin B) (fun _ => ElementsWithin B) := by
  rintro st ⟨h, htop⟩
  rw [run_append]
  cases hk : topIndex (st.elems r) 1 with
  | none => exact h
  | some j =>
    dsimp only
    split_ifs
    · exact h
    · have hj : j = (st.elems r).length - 1 := by
        unfold topIndex at hk
        split_ifs at hk
        exact (Option.some.inj hk).symm
      dsimp only
      refine elementsWithin_modify h fun y hy => ?_
      rw [hj, ← List.getLast?_eq_getElem?] at hy
      rw [htop] at hy
      cases hy
      simpa using hle

theorem triple_popBack_second {P : LimitedStack → Prop} (hP : Keeps P (popBack r)) {e : valtype} :
    Triple (fun st => P st ∧ 2 ≤ (st.elems r).length ∧
        (st.elems r)[(st.elems r).length - 2]? = some e) (popBack r)
      (fun _ st => P st ∧ (st.elems r).getLast? = some e) (fun _ => P) := by
  rintro st ⟨h, hlen, he⟩
  have hkeep := hP st h
  rw [run_popBack] at hkeep ⊢
  cases hlast : (st.elems r).getLast? with
  | none =>
    rw [hlast] at hkeep
    exact hkeep
  | some top =>
    rw [hlast] at hkeep
    refine ⟨hkeep, ?_⟩
    rw [elems_setElems_self, List.getLast?_eq_getElem?, List.getElem?_dropLast,
      List.length_dropLast, if_pos (by omega), ← he]
    congr 1

theorem getElem?_of_run_stacktop {index : Int} {st st' : LimitedStack} {v : LimitedVector}
    (h : (stacktop r index).run st = .ok v st') :
    st' = st ∧ 0 ≤ ((st.elems r).length : Int) + index ∧
      (st.elems r)[(((st.elems r).length : Int) + index).toNat]? = some v.element := by
  rw [run_stacktop] at h
  split_ifs at h with h1 h2
  split at h
  · next e he =>
    cases h
    exact ⟨rfl, by omega, he⟩
  · cases h

end LimitedStack

end TbcNode.Script

namespace TbcNode.Script.Interpreter

open TbcNode.Logic TbcNode.Primitives TbcNode.Encoding LimitedStack

/-- Every element of both stacks of the state has at most
`MAX_SCRIPT_ELEMENT_SIZE_BEFORE_GENESIS` bytes. -/
def EvalState.SizedElements (s : EvalState) : Prop :=
  s.root.ElementsWithin MAX_SCRIPT_ELEMENT_SIZE_BEFORE_GENESIS

theorem sized_rearrange : RearrangeInvariant EvalState.SizedElements where
  branches _ _ h := h
  nOpCount _ _ h := h
  nonTopLevelReturnAfterGenesis _ _ h := h
  pbegincodehash _ _ h := h
  polls _ _ h := h
  rearrangeOps m hm := by
    cases hm with
    | popBack r => exact keeps_onStacks elementsWithin_popBack
    | erase r i => exact keeps_onStacks (elementsWithin_erase i)
    | eraseRange r first last => exact keeps_onStacks (elementsWithin_eraseRange first last)
    | swapElements r i j => exact keeps_onStacks (elementsWithin_swapElements i j)
    | moveTopToStack r other => exact keeps_onStacks (elementsWithin_moveTopToStack other)
    | modifyElement r i f hf => exact keeps_onStacks (elementsWithin_modifyElement i hf)
    | minimallyEncode r i => exact keeps_onStacks (elementsWithin_minimallyEncode i)

/-! ## Reads and pushes -/

section Primitives

variable {P : EvalState → Prop}

theorem run_stackSize (s : EvalState) : stackSize.run s = .ok s.root.stack.length s := rfl

theorem run_altstackSize (s : EvalState) : altstackSize.run s = .ok s.root.altstack.length s :=
  rfl

theorem triple_stackSize {E : Stop → EvalState → Prop} :
    Triple P stackSize (fun n s => P s ∧ n = s.root.stack.length) E := by
  intro s hs
  rw [run_stackSize]
  exact ⟨hs, rfl⟩

theorem triple_altstackSize {E : Stop → EvalState → Prop} :
    Triple P altstackSize (fun n s => P s ∧ n = s.root.altstack.length) E := by
  intro s hs
  rw [run_altstackSize]
  exact ⟨hs, rfl⟩

theorem sized_stacktop (index : Int) (hP : ∀ s, P s → s.SizedElements) :
    Triple P (stacktop index)
      (fun v s => P s ∧ v.element.length ≤ MAX_SCRIPT_ELEMENT_SIZE_BEFORE_GENESIS) (fun _ => P) := by
  intro s hs
  cases h : (stacktop index).run s with
  | ok v s' =>
    obtain ⟨rfl, hmem⟩ := mem_stack_of_run_stacktop h
    exact ⟨hs, (hP s' hs).1 _ (List.mem_of_mem_drop hmem)⟩
  | error e s' =>
    have hread := readsOnly_stacktop index s
    rw [h, finalState_error] at hread
    subst hread
    exact hs

theorem getElem?_stacktop (index : Int) :
    Triple P (stacktop index) (fun v s => P s ∧ 0 ≤ (s.root.stack.length : Int) + index ∧
      s.root.stack[((s.root.stack.length : Int) + index).toNat]? = some v.element) (fun _ => P) := by
  intro s hs
  cases h : (stacktop index).run s with
  | ok v s' =>
    rw [stacktop, run_onStacks] at h
    cases hst : (LimitedStack.stacktop .main index).run s.root with
    | error e t =>
      rw [hst] at h
      cases h
    | ok a t =>
      rw [hst] at h
      cases h
      obtain ⟨rfl, hle, hget⟩ := getElem?_of_run_stacktop hst
      exact ⟨hs, hle, hget⟩
  | error e s' =>
    have hread := readsOnly_stacktop index s
    rw [h, finalState_error] at hread
    subst hread
    exact hs

theorem sized_pushBack {e : valtype} (he : e.length ≤ MAX_SCRIPT_ELEMENT_SIZE_BEFORE_GENESIS) :
    Keeps EvalState.SizedElements (pushBack e) :=
  keeps_onStacks (elementsWithin_pushBack he)

theorem sized_pushBackVector {v : LimitedVector}
    (hv : v.element.length ≤ MAX_SCRIPT_ELEMENT_SIZE_BEFORE_GENESIS) :
    Keeps EvalState.SizedElements (pushBackVector v) :=
  keeps_onStacks (elementsWithin_pushBackVector hv)

theorem sized_insert (position : Int) {v : LimitedVector}
    (hv : v.element.length ≤ MAX_SCRIPT_ELEMENT_SIZE_BEFORE_GENESIS) :
    Keeps EvalState.SizedElements (insert position v) :=
  keeps_onStacks (elementsWithin_insert position hv)

theorem sized_padRight (i : Nat) {size : Nat} (signbit : UInt8)
    (hsize : size ≤ MAX_SCRIPT_ELEMENT_SIZE_BEFORE_GENESIS) :
    Keeps EvalState.SizedElements (padRight i size signbit) :=
  keeps_onStacks (elementsWithin_padRight i signbit hsize)

theorem length_vchBool_le (b : Prop) [Decidable b] :
    (if b then vchTrue else vchFalse).length ≤ MAX_SCRIPT_ELEMENT_SIZE_BEFORE_GENESIS := by
  split <;> decide

theorem length_serialize_sized {v : Int} (hv : v.natAbs < 256 ^ 9) :
    (serialize v).length ≤ MAX_SCRIPT_ELEMENT_SIZE_BEFORE_GENESIS := by
  have := length_serialize_le v 9 hv
  unfold MAX_SCRIPT_ELEMENT_SIZE_BEFORE_GENESIS
  omega

end Primitives

/-! ## The values the opcodes push -/

section Values

variable (env : Env) {P : EvalState → Prop}

theorem length_hashOf_le (opcode : UInt8) (data : List UInt8) :
    (hashOf env opcode data).length ≤ 32 := by
  unfold hashOf
  split_ifs <;> simp

theorem length_pushMetaItem (condition : UInt8) :
    Triple P (pushMetaItem env condition) (fun v s => P s ∧ v.length ≤ 40) (fun _ => P) := by
  unfold pushMetaItem
  split
  any_goals exact Triple.bind (Keeps.of_readsOnly (readsOnly_deref _)) fun _ =>
    Triple.pure' fun _ hs => ⟨hs, by simp⟩
  any_goals exact Triple.pure' fun _ hs => ⟨hs, by simp⟩
  · exact Triple.bind (Keeps.of_readsOnly (readsOnly_deref _)) fun _ =>
      Triple.bind (Keeps.of_readsOnly (readsOnly_elementAt _ _)) fun _ =>
        Triple.pure' fun _ hs => ⟨hs, by simp⟩
  · exact Triple.throw' fun _ hs => hs

theorem int64_scriptNum (span : List UInt8) (fRequireMinimal : Bool) {nMaxNumSize : Nat}
    (hmax : nMaxNumSize ≤ 4) {big_int : Bool} (hbig : big_int = false) :
    Triple P (scriptNum env span fRequireMinimal nMaxNumSize big_int)
      (fun n s => P s ∧ ∃ v, n = .int64 v ∧ v.natAbs < 256 ^ 4) (fun _ => P) := by
  subst hbig
  unfold scriptNum
  split
  · next n h =>
    obtain ⟨hlen, ⟨-, rfl⟩ | ⟨hne, rfl⟩⟩ := CScriptNum.ofSpan_int64 env.ssl h
    · exact Triple.pure' fun _ hs => ⟨hs, _, rfl, by norm_num⟩
    refine Triple.pure' fun _ hs => ⟨hs, _, rfl, ?_⟩
    calc (deserialize span hne).natAbs < 256 ^ span.length := natAbs_deserialize_lt span hne
      _ ≤ 256 ^ 4 := Nat.pow_le_pow_right (by norm_num) (by omega)
  · exact Triple.throw' fun _ hs => hs

variable {env}

theorem int64_unaryNumeric (hg : env.utxoAfterGenesis = false) (opcode : UInt8) (a : Int) :
    Triple P (unaryNumeric env opcode (.int64 a))
      (fun r s => P s ∧ ∃ v, r = .int64 v ∧ v.natAbs ≤ a.natAbs + 1) (fun _ => P) := by
  have hone : scriptNumOne env = .int64 1 := by simp [scriptNumOne, hg]
  unfold unaryNumeric
  rw [hone]
  simp only [CScriptNum.add_int64, CScriptNum.sub_int64, CScriptNum.neg_int64]
  repeat' refine Triple.ite' (fun _ => ?_) (fun _ => ?_)
  all_goals first
    | exact Triple.throw' fun _ hs => hs
    | refine Triple.pure' fun _ hs => ⟨hs, ?_⟩
  all_goals first
    | (refine ⟨_, rfl, ?_⟩; omega)
    | (split <;> exact ⟨_, rfl, by omega⟩)

theorem int64_binaryNumeric (opcode : UInt8) (a b : Int) :
    Triple P (binaryNumeric env opcode (.int64 a) (.int64 b))
      (fun r s => P s ∧ ∃ v ∈ [a + b, a - b, a * b, a.tdiv b, a.tmod b, 0, 1, a, b],
        r = .int64 v) (fun _ => P) := by
  unfold binaryNumeric
  simp only [CScriptNum.add_int64, CScriptNum.sub_int64, CScriptNum.mul_int64,
    CScriptNum.div_int64, CScriptNum.mod_int64]
  repeat' refine Triple.ite' (fun _ => ?_) (fun _ => ?_)
  all_goals first
    | exact Triple.throw' fun _ hs => hs
    | refine Triple.pure' fun _ hs => ⟨hs, ?_⟩
  all_goals first
    | (refine ⟨_, ?_, rfl⟩; first | (simp; done) | (split <;> simp))
    | (split <;> exact ⟨_, by simp, rfl⟩)

theorem natAbs_lt_of_mem_binaryResults {a b v : Int} (ha : a.natAbs < 256 ^ 4)
    (hb : b.natAbs < 256 ^ 4)
    (hv : v ∈ [a + b, a - b, a * b, a.tdiv b, a.tmod b, 0, 1, a, b]) : v.natAbs < 256 ^ 9 := by
  have h4 : (256 : Nat) ^ 4 * 256 ^ 4 < 256 ^ 9 := by norm_num
  have h49 : (256 : Nat) ^ 4 < 256 ^ 9 := by norm_num
  simp only [List.mem_cons, List.not_mem_nil, or_false] at hv
  rcases hv with rfl | rfl | rfl | rfl | rfl | rfl | rfl | rfl | rfl
  · omega
  · omega
  · rw [Int.natAbs_mul]
    exact (Nat.mul_lt_mul'' ha hb).trans h4
  · exact (Int.natAbs_tdiv_le_natAbs a b).trans_lt (ha.trans h49)
  · rw [Int.natAbs_tmod]
    exact (Nat.mod_le _ _).trans_lt (ha.trans h49)
  · norm_num
  · norm_num
  · exact ha.trans h49
  · exact hb.trans h49

end Values

/-! ## The shifts keep the size -/

theorem length_foldl_of_length {β : Type} {f : List UInt8 → β → List UInt8}
    (hf : ∀ acc b, (f acc b).length = acc.length) :
    ∀ (l : List β) (init : List UInt8), (l.foldl f init).length = init.length
  | [], _ => rfl
  | b :: l, init => by rw [List.foldl_cons, length_foldl_of_length hf l, hf]

theorem length_rshift (x : valtype) (n : Nat) : (rshift x n).length = x.length := by
  unfold rshift
  rw [length_foldl_of_length, List.length_replicate]
  intro acc i
  dsimp only
  split_ifs <;> simp only [List.length_modify]

theorem length_lshift (x : valtype) (n : Nat) : (lshift x n).length = x.length := by
  unfold lshift
  rw [length_foldl_of_length, List.length_replicate]
  intro acc i
  dsimp only
  split_ifs <;> simp only [List.length_modify]

theorem length_shiftLoop (env : Env) {P : EvalState → Prop} (hP : LocalsInvariant P)
    {shift : valtype → Nat → valtype} (hshift : ∀ x k, (shift x k).length = x.length) :
    ∀ fuel values n, Triple P (shiftLoop env shift fuel values n)
      (fun v s => P s ∧ v.length = values.length) (fun _ => P)
  | 0, _, _ => Triple.pure' fun _ hs => ⟨hs, rfl⟩
  | fuel + 1, values, n => by
    refine Triple.bind (keeps_isCanceled hP env) fun c => ?_
    dsimp only
    refine Triple.ite' (fun _ => fun _ hs => hs) fun _ => Triple.ite' (fun _ => ?_) fun _ =>
      Triple.pure' fun _ hs => ⟨hs, hshift _ _⟩
    exact Triple.consequence (length_shiftLoop env hP hshift fuel _ _) (fun _ h => h)
      (fun _ _ h => ⟨h.1, h.2.trans (hshift _ _)⟩) (fun _ _ h => h)

/-! ## The opcodes -/

section Opcodes

variable (env : Env)

theorem sized_opPushNumber (opcode : UInt8) :
    Keeps EvalState.SizedElements (opPushNumber env opcode) := by
  refine sized_pushBack (length_serialize_sized ?_)
  have hop : opcode.toNat < 256 := opcode.toNat_lt
  have h81 : OP_1.toNat = 81 := rfl
  have hsmall : ((opcode.toNat : Int) - (OP_1.toNat - 1)).natAbs < 256 := by omega
  exact hsmall.trans (by norm_num)

theorem sized_opPushMeta : Keeps EvalState.SizedElements (opPushMeta env) := by
  unfold opPushMeta
  refine (keeps_requireSize _ _).bind fun _ => (keeps_stacktop _).bind fun vch => ?_
  refine Keeps.ite_throw _ (Keeps.ite' ((keeps_readAt _ _).bind fun _ => Keeps.ite_throw _ ?_) ?_)
  all_goals exact (keeps_readAt _ _).bind fun _ =>
    (keeps_popBack sized_rearrange).bind fun _ =>
      Triple.bind_of (length_pushMetaItem env _) fun _ hv =>
        sized_pushBack (hv.trans (by decide))

theorem sized_opPartialHash : Keeps EvalState.SizedElements (opPartialHash env) := by
  unfold opPartialHash
  refine (keeps_requireSize _ _).bind fun _ => (keeps_stacktop _).bind fun _ =>
    (keeps_stacktop _).bind fun _ => (keeps_stacktop _).bind fun _ => ?_
  refine (keeps_popBack sized_rearrange).bind fun _ =>
    (keeps_popBack sized_rearrange).bind fun _ =>
      (keeps_popBack sized_rearrange).bind fun _ => Keeps.ite_throw _ ?_
  have h32 : ∀ d : Vector UInt8 32, d.toList.length ≤ MAX_SCRIPT_ELEMENT_SIZE_BEFORE_GENESIS :=
    fun d => by simp only [Vector.length_toList]; decide
  exact Keeps.ite' (Keeps.ite' (Keeps.throw' _) (sized_pushBack (h32 _)))
    (Keeps.ite_throw _ (sized_pushBack (h32 _)))

theorem sized_op2Dup : Keeps EvalState.SizedElements op2Dup :=
  (keeps_requireSize _ _).bind fun _ =>
    Triple.bind_of (sized_stacktop _ fun _ h => h) fun _ h1 =>
      Triple.bind_of (sized_stacktop _ fun _ h => h) fun _ h2 =>
        (sized_pushBackVector h1).bind fun _ => sized_pushBackVector h2

theorem sized_op3Dup : Keeps EvalState.SizedElements op3Dup :=
  (keeps_requireSize _ _).bind fun _ =>
    Triple.bind_of (sized_stacktop _ fun _ h => h) fun _ h1 =>
      Triple.bind_of (sized_stacktop _ fun _ h => h) fun _ h2 =>
        Triple.bind_of (sized_stacktop _ fun _ h => h) fun _ h3 =>
          (sized_pushBackVector h1).bind fun _ => (sized_pushBackVector h2).bind fun _ =>
            sized_pushBackVector h3

theorem sized_op2Over : Keeps EvalState.SizedElements op2Over :=
  (keeps_requireSize _ _).bind fun _ =>
    Triple.bind_of (sized_stacktop _ fun _ h => h) fun _ h1 =>
      Triple.bind_of (sized_stacktop _ fun _ h => h) fun _ h2 =>
        (sized_pushBackVector h1).bind fun _ => sized_pushBackVector h2

theorem sized_op2Rot : Keeps EvalState.SizedElements op2Rot :=
  (keeps_requireSize _ _).bind fun _ =>
    Triple.bind_of (sized_stacktop _ fun _ h => h) fun _ h1 =>
      Triple.bind_of (sized_stacktop _ fun _ h => h) fun _ h2 =>
        (keeps_eraseRange sized_rearrange _ _).bind fun _ =>
          (sized_pushBackVector h1).bind fun _ => sized_pushBackVector h2

theorem sized_opIfDup : Keeps EvalState.SizedElements opIfDup :=
  (keeps_requireSize _ _).bind fun _ =>
    Triple.bind_of (sized_stacktop _ fun _ h => h) fun _ h1 =>
      Keeps.ite' (sized_pushBackVector h1) (Keeps.pure' _)

theorem sized_opDepth (hssl : env.ssl.Spec) :
    Triple (fun s => s.SizedElements ∧ s.root.stack.length < 2 ^ 64) (opDepth env)
      (fun _ => EvalState.SizedElements) (fun _ => EvalState.SizedElements) := by
  unfold opDepth
  refine Triple.bind triple_stackSize fun n => ?_
  rintro s ⟨⟨hs, hlen⟩, rfl⟩
  refine sized_pushBack ?_ s hs
  rw [CScriptNum.getvch_eq_serialize hssl, CScriptNum.value_bint]
  exact length_serialize_sized ((by simpa using hlen : _ < 2 ^ 64).trans (by norm_num))

theorem sized_opDup : Keeps EvalState.SizedElements opDup :=
  (keeps_requireSize _ _).bind fun _ =>
    Triple.bind_of (sized_stacktop _ fun _ h => h) fun _ h1 => sized_pushBackVector h1

theorem sized_opOver : Keeps EvalState.SizedElements opOver :=
  (keeps_requireSize _ _).bind fun _ =>
    Triple.bind_of (sized_stacktop _ fun _ h => h) fun _ h1 => sized_pushBackVector h1

theorem sized_opPickRoll (opcode : UInt8) : Keeps EvalState.SizedElements (opPickRoll env opcode) := by
  unfold opPickRoll
  refine (keeps_requireSize _ _).bind fun _ => (keeps_stacktop _).bind fun _ =>
    (keeps_scriptNum env _ _ _ _).bind fun _ => (keeps_popBack sized_rearrange).bind fun _ =>
      keeps_stackSize.bind fun _ => Keeps.ite_throw _ ?_
  exact (keeps_toSizeTLimited _).bind fun _ =>
    Triple.bind_of (sized_stacktop _ fun _ h => h) fun _ h1 =>
      Keeps.ite' ((keeps_erase sized_rearrange _).bind fun _ => sized_pushBackVector h1)
        (sized_pushBackVector h1)

theorem sized_opTuck : Keeps EvalState.SizedElements opTuck :=
  (keeps_requireSize _ _).bind fun _ =>
    Triple.bind_of (sized_stacktop _ fun _ h => h) fun _ h1 => sized_insert _ h1

theorem sized_opSize (hssl : env.ssl.Spec) : Keeps EvalState.SizedElements (opSize env) := by
  unfold opSize
  refine (keeps_requireSize _ _).bind fun _ =>
    Triple.bind_of (sized_stacktop _ fun _ h => h) fun top htop => sized_pushBack ?_
  rw [CScriptNum.getvch_eq_serialize hssl, CScriptNum.value_bint]
  refine length_serialize_sized (lt_of_le_of_lt (by simpa using htop) ?_)
  unfold MAX_SCRIPT_ELEMENT_SIZE_BEFORE_GENESIS
  norm_num

theorem sized_opShift {shift : valtype → Nat → valtype}
    (hshift : ∀ x k, (shift x k).length = x.length) :
    Keeps EvalState.SizedElements (opShift env shift) := by
  unfold opShift
  refine (keeps_requireSize _ _).bind fun _ =>
    Triple.bind_of (sized_stacktop _ fun _ h => h) fun vch1 h1 =>
      (keeps_stacktop _).bind fun _ => (keeps_scriptNum env _ _ _ _).bind fun _ =>
        Keeps.ite_throw _ ?_
  refine (keeps_popBack sized_rearrange).bind fun _ =>
    (keeps_popBack sized_rearrange).bind fun _ => ?_
  refine Keeps.ite' (Triple.bind_of (Triple.pure' fun _ hs => ⟨hs, by simpa using h1⟩)
      fun _ hv => sized_pushBack hv)
    (Triple.bind_of (length_shiftLoop env sized_rearrange.toLocalsInvariant hshift _ _ _)
      fun _ hv => sized_pushBack (hv ▸ h1))

theorem sized_opEqual (opcode : UInt8) : Keeps EvalState.SizedElements (opEqual opcode) :=
  (keeps_requireSize _ _).bind fun _ => (keeps_stacktop _).bind fun _ =>
    (keeps_stacktop _).bind fun _ => (keeps_popBack sized_rearrange).bind fun _ =>
      (keeps_popBack sized_rearrange).bind fun _ => (sized_pushBack (length_vchBool_le _)).bind
        fun _ => Keeps.ite' (Keeps.ite' (keeps_popBack sized_rearrange) (Keeps.throw' _))
          (Keeps.pure' _)

theorem sized_opWithin : Keeps EvalState.SizedElements (opWithin env) :=
  (keeps_requireSize _ _).bind fun _ => (keeps_stacktop _).bind fun _ =>
    (keeps_scriptNum env _ _ _ _).bind fun _ => (keeps_stacktop _).bind fun _ =>
      (keeps_scriptNum env _ _ _ _).bind fun _ => (keeps_stacktop _).bind fun _ =>
        (keeps_scriptNum env _ _ _ _).bind fun _ => (keeps_popBack sized_rearrange).bind fun _ =>
          (keeps_popBack sized_rearrange).bind fun _ =>
            (keeps_popBack sized_rearrange).bind fun _ => sized_pushBack (length_vchBool_le _)

theorem sized_opHash (opcode : UInt8) : Keeps EvalState.SizedElements (opHash env opcode) :=
  (keeps_requireSize _ _).bind fun _ => (keeps_stacktop _).bind fun _ =>
    (keeps_popBack sized_rearrange).bind fun _ =>
      sized_pushBack ((length_hashOf_le env opcode _).trans (by decide))

theorem sized_opCheckSig (opcode : UInt8) :
    Keeps EvalState.SizedElements (opCheckSig env opcode) := by
  unfold opCheckSig
  refine (keeps_requireSize _ _).bind fun _ => (keeps_stacktop _).bind fun _ =>
    (keeps_stacktop _).bind fun _ => (keeps_liftCheck _).bind fun _ =>
      (keeps_liftCheck _).bind fun _ => Keeps.get'.bind fun _ => Keeps.ite_throw _ ?_
  exact (keeps_popBack sized_rearrange).bind fun _ => (keeps_popBack sized_rearrange).bind fun _ =>
    (sized_pushBack (length_vchBool_le _)).bind fun _ =>
      Keeps.ite' (Keeps.ite' (keeps_popBack sized_rearrange) (Keeps.throw' _)) (Keeps.pure' _)

theorem sized_opCheckMultiSig (opcode : UInt8) :
    Keeps EvalState.SizedElements (opCheckMultiSig env opcode) := by
  unfold opCheckMultiSig
  refine (keeps_requireSize _ _).bind fun _ => (keeps_stacktop _).bind fun _ =>
    (keeps_scriptNum env _ _ _ _).bind fun _ => Keeps.ite_throw _ (Keeps.ite_throw _ ?_)
  refine Keeps.bind ?_ fun _ => Keeps.get'.bind fun _ => Keeps.ite_throw _ ?_
  · exact Keeps.modify' fun s h => sized_rearrange.nOpCount s _ h
  refine (keeps_requireSize _ _).bind fun _ => (keeps_stacktop _).bind fun _ =>
    (keeps_scriptNum env _ _ _ _).bind fun _ => Keeps.ite_throw _ (Keeps.ite_throw _ ?_)
  refine (keeps_requireSize _ _).bind fun _ => Keeps.get'.bind fun _ =>
    (Keeps.of_readsOnly (readsOnly_cleanupSigs env _ _ _)).bind fun _ =>
      (keeps_checkSigsLoop sized_rearrange.toLocalsInvariant env _ _ _ _ _ _ _).bind fun _ =>
        (keeps_popArgs sized_rearrange env _ _ _).bind fun _ =>
          (keeps_requireSize _ _).bind fun _ => ?_
  refine Keeps.ite' ((keeps_stacktop _).bind fun _ => Keeps.ite_throw _ ?_) ?_
  all_goals exact (keeps_popBack sized_rearrange).bind fun _ =>
    (sized_pushBack (length_vchBool_le _)).bind fun _ =>
      Keeps.ite' (Keeps.ite' (keeps_popBack sized_rearrange) (Keeps.throw' _)) (Keeps.pure' _)

theorem sized_opSplit : Keeps EvalState.SizedElements (opSplit env) := by
  unfold opSplit
  refine (keeps_requireSize _ _).bind fun _ => ?_
  refine Triple.bind_of (sized_stacktop _ fun _ h => h) fun data hdata => ?_
  refine (keeps_stacktop _).bind fun _ => (keeps_scriptNum env _ _ _ _).bind fun _ =>
    Keeps.ite_throw _ ?_
  refine (keeps_toSizeTLimited _).bind fun position => ?_
  dsimp only
  refine (keeps_popBack sized_rearrange).bind fun _ =>
    (keeps_popBack sized_rearrange).bind fun _ => ?_
  have h1 : (data.element.take position).length ≤ MAX_SCRIPT_ELEMENT_SIZE_BEFORE_GENESIS := by
    rw [List.length_take]
    omega
  have h2 : (data.element.drop position).length ≤ MAX_SCRIPT_ELEMENT_SIZE_BEFORE_GENESIS := by
    rw [List.length_drop]
    omega
  exact (sized_pushBack h1).bind fun _ => sized_pushBack h2

variable {env} (hg : env.utxoAfterGenesis = false)
include hg

theorem sized_opUnaryNumeric (hnum : env.maxScriptNumLength ≤ 4) (opcode : UInt8) :
    Keeps EvalState.SizedElements (opUnaryNumeric env opcode) := by
  unfold opUnaryNumeric
  refine (keeps_requireSize _ _).bind fun _ => (keeps_stacktop _).bind fun _ => ?_
  refine Triple.bind_of (int64_scriptNum env _ _ hnum hg) fun bn hbn => ?_
  obtain ⟨a, rfl, ha⟩ := hbn
  refine Triple.bind_of (int64_unaryNumeric hg opcode a) fun r hr => ?_
  obtain ⟨v, rfl, hv⟩ := hr
  refine (keeps_popBack sized_rearrange).bind fun _ => sized_pushBack (length_serialize_sized ?_)
  have h4 : (256 : Nat) ^ 4 + 1 < 256 ^ 9 := by norm_num
  omega

theorem sized_opBinaryNumeric (hnum : env.maxScriptNumLength ≤ 4) (opcode : UInt8) :
    Keeps EvalState.SizedElements (opBinaryNumeric env opcode) := by
  unfold opBinaryNumeric
  refine (keeps_requireSize _ _).bind fun _ => (keeps_stacktop _).bind fun _ =>
    (keeps_stacktop _).bind fun _ => ?_
  refine Triple.bind_of (int64_scriptNum env _ _ hnum hg) fun bn1 h1 => ?_
  refine Triple.bind_of (int64_scriptNum env _ _ hnum hg) fun bn2 h2 => ?_
  obtain ⟨a, rfl, ha⟩ := h1
  obtain ⟨b, rfl, hb⟩ := h2
  refine Triple.bind_of (int64_binaryNumeric opcode a b) fun r hr => ?_
  obtain ⟨v, hv, rfl⟩ := hr
  refine (keeps_popBack sized_rearrange).bind fun _ => (keeps_popBack sized_rearrange).bind fun _ =>
    (sized_pushBack (length_serialize_sized (natAbs_lt_of_mem_binaryResults ha hb hv))).bind
      fun _ => ?_
  exact Keeps.ite' ((keeps_stacktop _).bind fun _ =>
    Keeps.ite' (keeps_popBack sized_rearrange) (Keeps.throw' _)) (Keeps.pure' _)

theorem sized_opCat : Keeps EvalState.SizedElements (opCat env) := by
  unfold opCat
  refine (keeps_requireSize _ _).bind fun _ => Triple.bind (getElem?_stacktop (-2)) fun vch1 => ?_
  refine Triple.bind (Triple.of_readsOnly (readsOnly_stacktop (-1)) fun _ _ hs => hs.1)
    fun vch2 => ?_
  refine Triple.ite_throw_of (fun _ _ hs => hs.1) fun hc => ?_
  have hle : vch1.element.length + vch2.element.length ≤ MAX_SCRIPT_ELEMENT_SIZE_BEFORE_GENESIS := by
    simpa [hg] using hc
  have hpop := triple_onStacks (triple_popBack_second (r := .main) (e := vch1.element)
    (elementsWithin_popBack (B := MAX_SCRIPT_ELEMENT_SIZE_BEFORE_GENESIS)))
  refine Triple.bind (hpop.consequence (fun s ⟨hs, h0, hget⟩ => ⟨hs, ?_, ?_⟩)
    (fun _ _ h => h) (fun _ _ h => h)) fun _ => triple_onStacks (elementsWithin_append_top hle)
  · change 2 ≤ s.root.stack.length
    omega
  · change s.root.stack[s.root.stack.length - 2]? = some vch1.element
    rwa [show ((s.root.stack.length : Int) + -2).toNat = s.root.stack.length - 2 by omega] at hget

theorem sized_opNum2Bin : Keeps EvalState.SizedElements (opNum2Bin env) := by
  unfold opNum2Bin
  refine (keeps_requireSize _ _).bind fun _ => (keeps_stacktop _).bind fun _ =>
    (keeps_scriptNum env _ _ _ _).bind fun _ => Keeps.ite_throw _ ?_
  refine (keeps_toSizeTLimited _).bind fun size => Triple.ite_throw_of (fun _ _ hs => hs)
    fun hc => ?_
  have hsize : size ≤ MAX_SCRIPT_ELEMENT_SIZE_BEFORE_GENESIS := by simpa [hg] using hc
  refine (keeps_popBack sized_rearrange).bind fun _ =>
    (keeps_minimallyEncode sized_rearrange _).bind fun _ => (keeps_stacktop _).bind fun _ =>
      Keeps.ite_throw _ ?_
  exact Keeps.ite' (Keeps.ite'
    ((keeps_modifyElement sized_rearrange _ fun _ => List.length_modify _ _ _).bind fun _ =>
      (Keeps.pure' _).bind fun _ => sized_padRight _ _ hsize)
    ((Keeps.pure' _).bind fun _ => sized_padRight _ _ hsize)) (Keeps.pure' _)

end Opcodes

/-! ## The rounds of the loop -/

/-- The state a round starts from: the elements within the bound, and fewer than `2 ^ 64` of
them on the main stack, as a `size_t` counts them. -/
def RoundStart (s : EvalState) : Prop := s.SizedElements ∧ s.root.stack.length < 2 ^ 64

/-- The state a round that ends normally leaves: the elements within the bound, and at most
`MAX_STACK_ELEMENTS_BEFORE_GENESIS` of them on the two stacks. -/
def RoundEnd (s : EvalState) : Prop :=
  s.SizedElements ∧ s.root.stack.length + s.root.altstack.length ≤ MAX_STACK_ELEMENTS_BEFORE_GENESIS

theorem RoundEnd.roundStart {s : EvalState} (h : RoundEnd s) : RoundStart s := by
  refine ⟨h.1, ?_⟩
  have hcount := h.2
  unfold MAX_STACK_ELEMENTS_BEFORE_GENESIS at hcount
  omega

theorem triple_catchExceptions {P Q : EvalState → Prop} {E : EvalState → Prop} {m : EvalM Unit}
    (h : Triple P m (fun _ => Q) fun _ => E) :
    Triple P (catchExceptions m) (fun _ => Q) (fun _ => E) := by
  intro s hs
  have h' := h s hs
  revert h'
  simp only [catchExceptions, EStateM.run]
  cases m s <;> exact id

section Run

variable {env : Env} (hg : env.utxoAfterGenesis = false) (hssl : env.ssl.Spec)
  (hnum : env.maxScriptNumLength ≤ 4)
include hg hssl hnum

theorem sized_execOpcode (opcode : UInt8) (fExec : Bool) :
    Triple RoundStart (execOpcode env opcode fExec) (fun _ => EvalState.SizedElements)
      (fun _ => EvalState.SizedElements) := by
  unfold execOpcode
  split
  case h_22 => exact sized_opDepth env hssl
  all_goals refine Keeps.weaken ?_ fun _ h => h.1
  case h_1 => exact sized_opPushNumber env opcode
  case h_2 => exact Keeps.pure' _
  case h_3 => exact keeps_opCheckLockTimeVerify env
  case h_4 => exact keeps_opCheckSequenceVerify env
  case h_5 => exact sized_opPushMeta env
  case h_6 => exact sized_opPartialHash env
  case h_7 => exact keeps_discourageUpgradableNops env
  case h_8 => exact keeps_opIf sized_rearrange env opcode fExec
  case h_9 => exact keeps_opElse sized_rearrange.toLocalsInvariant env
  case h_10 => exact keeps_opEndIf sized_rearrange.toLocalsInvariant
  case h_11 => exact keeps_opVerify sized_rearrange
  case h_12 => exact keeps_opReturn sized_rearrange.toLocalsInvariant env
  case h_13 => exact keeps_opToAltStack sized_rearrange
  case h_14 => exact keeps_opFromAltStack sized_rearrange
  case h_15 => exact keeps_op2Drop sized_rearrange
  case h_16 => exact sized_op2Dup
  case h_17 => exact sized_op3Dup
  case h_18 => exact sized_op2Over
  case h_19 => exact sized_op2Rot
  case h_20 => exact keeps_op2Swap sized_rearrange
  case h_21 => exact sized_opIfDup
  case h_23 => exact keeps_opDrop sized_rearrange
  case h_24 => exact sized_opDup
  case h_25 => exact keeps_opNip sized_rearrange
  case h_26 => exact sized_opOver
  case h_27 => exact sized_opPickRoll env opcode
  case h_28 => exact keeps_opRot sized_rearrange
  case h_29 => exact keeps_opSwap sized_rearrange
  case h_30 => exact sized_opTuck
  case h_31 => exact sized_opSize env hssl
  case h_32 => exact keeps_opBitwise sized_rearrange opcode
  case h_33 => exact keeps_opInvert sized_rearrange
  case h_34 => exact sized_opShift env length_lshift
  case h_35 => exact sized_opShift env length_rshift
  case h_36 => exact sized_opEqual opcode
  case h_37 => exact sized_opUnaryNumeric hg hnum opcode
  case h_38 => exact sized_opBinaryNumeric hg hnum opcode
  case h_39 => exact sized_opWithin env
  case h_40 => exact sized_opHash env opcode
  case h_41 => exact keeps_opCodeSeparator sized_rearrange.toLocalsInvariant
  case h_42 => exact sized_opCheckSig env opcode
  case h_43 => exact sized_opCheckMultiSig env opcode
  case h_44 => exact sized_opCat hg
  case h_45 => exact sized_opSplit env
  case h_46 => exact sized_opNum2Bin hg
  case h_47 => exact keeps_opBin2Num sized_rearrange env
  case h_48 => exact keeps_opDefault env opcode fExec

theorem sized_execInstruction (s₀ : EvalState) (opcode : UInt8) (vchPushValue : valtype) :
    Triple RoundStart (execInstruction env s₀ opcode vchPushValue) (fun _ => RoundEnd)
      (fun _ => EvalState.SizedElements) := by
  unfold execInstruction
  refine Triple.ite_throw_of (fun _ _ hs => hs.1) fun hpush => ?_
  have hvch : vchPushValue.length ≤ MAX_SCRIPT_ELEMENT_SIZE_BEFORE_GENESIS := by
    simpa [hg] using hpush
  refine Triple.ite' (fun _ => Triple.bind (Triple.modify' (Q := fun _ => RoundStart)
    fun _ hs => hs) fun _ =>
    Triple.bind_get fun _ _ => Triple.ite_throw (fun _ _ hs => hs.1) ?_) fun _ => ?_
  all_goals refine Triple.ite_throw (fun _ _ hs => hs.1) ?_
  all_goals
    refine Triple.ite' (fun _ => Triple.ite_throw (fun _ _ hs => hs.1) ?_)
      fun _ => Triple.ite' (fun _ => ?_) fun _ => ?_
    on_goal 1 => refine Triple.bind ((sized_pushBack hvch).weaken fun _ h => h.1) fun _ => ?_
    on_goal 2 => refine Triple.bind (sized_execOpcode hg hssl hnum _ _) fun _ => ?_
    on_goal 3 => refine Triple.mono_pre ?_ fun _ h => h.1
  all_goals exact Triple.bind triple_stackSize fun a => Triple.bind triple_altstackSize fun b =>
    Triple.ite' (fun _ => Triple.throw' fun _ hs => hs.1.1) fun hc =>
      Triple.pure' fun s ⟨⟨hs, ha⟩, hb⟩ => ⟨hs, by simp [hg] at hc; omega⟩

theorem sized_evalStep (script : CScript) :
    Triple (fun s => RoundStart s ∧ s.running = true) (evalStep env script) (fun _ => RoundEnd)
      (fun _ => EvalState.SizedElements) := by
  unfold evalStep
  refine Triple.bind (Triple.modifyGet' (Q := fun _ s => RoundStart s ∧ s.running = true)
    fun _ hs => hs) fun _ => ?_
  refine Triple.ite_throw (fun _ _ hs => hs.1.1) (Triple.bind_get fun s hs => ?_)
  split
  · exact Triple.throw' fun _ h => h.1.1
  · exact Triple.bind (Triple.set' fun _ _ => hs.1) fun _ =>
      sized_execInstruction hg hssl hnum s _ _

theorem sized_whileFuel (script : CScript) (n : Nat) :
    Triple RoundStart (whileFuel EvalState.running (evalStep env script) n) (fun _ => RoundStart)
      (fun _ => EvalState.SizedElements) :=
  Triple.whileFuel ((sized_evalStep hg hssl hnum script).consequence (fun _ h => h)
    (fun _ _ h => h.roundStart) (fun _ _ h => h)) n

theorem roundEnd_whileFuel (script : CScript) (n : Nat) :
    Triple RoundEnd (whileFuel EvalState.running (evalStep env script) n) (fun _ => RoundEnd)
      (fun _ => EvalState.SizedElements) :=
  Triple.whileFuel ((sized_evalStep hg hssl hnum script).consequence
    (fun _ h => ⟨h.1.roundStart, h.2⟩) (fun _ _ h => h) (fun _ _ h => h)) n

theorem sized_evalScriptWith (script : CScript) :
    Triple RoundStart (evalScriptWith env script) (fun _ => EvalState.SizedElements)
      (fun _ => EvalState.SizedElements) := by
  unfold evalScriptWith
  refine Triple.ite_throw (fun _ _ hs => hs.1) ?_
  refine Triple.bind (triple_catchExceptions (sized_whileFuel hg hssl hnum script _)) fun _ =>
    Triple.bind_get fun _ _ => ?_
  exact Triple.ite_throw (fun _ _ hs => hs.1) (Triple.throw' fun _ hs => hs.1)

end Run

/-- **The sizes of the elements before Genesis.** With `SCRIPT_UTXO_AFTER_GENESIS` clear, numbers
of at most four bytes and OpenSSL behaving as documented, a run of `EvalScript` from a root whose
elements have at most `MAX_SCRIPT_ELEMENT_SIZE_BEFORE_GENESIS` bytes (and fewer than `2 ^ 64` of
them, as a `size_t` counts) passes only through states whose elements on both stacks have at most
that many bytes, whether it fails or not; after every round that ends normally the two stacks hold
at most `MAX_STACK_ELEMENTS_BEFORE_GENESIS` elements; and the root the run returns is within the
bound. -/
theorem pre_genesis_element_sizes {env : Env} (hg : env.utxoAfterGenesis = false)
    (hssl : env.ssl.Spec) (hnum : env.maxScriptNumLength ≤ 4) {root : LimitedStack}
    (hroot : root.ElementsWithin MAX_SCRIPT_ELEMENT_SIZE_BEFORE_GENESIS)
    (hlen : root.stack.length < 2 ^ 64) (script : CScript) (polls : Nat) :
    (∀ n, (evalStateAfter env root script polls n).root.ElementsWithin
      MAX_SCRIPT_ELEMENT_SIZE_BEFORE_GENESIS) ∧
    (∀ n s, evalRounds env root script polls (n + 1) = .ok ⟨⟩ s → script ≠ [] →
      s.root.stack.length + s.root.altstack.length ≤ MAX_STACK_ELEMENTS_BEFORE_GENESIS) ∧
    (evalScript env root script polls).2.1.ElementsWithin MAX_SCRIPT_ELEMENT_SIZE_BEFORE_GENESIS := by
  set start := EvalState.start { root with altstack := [] } [] 0 script polls
  have hstart : RoundStart start := ⟨⟨hroot.1, fun _ h => absurd h List.not_mem_nil⟩, hlen⟩
  refine ⟨fun n => ?_, fun n s hrun hne => ?_, ?_⟩
  · exact Triple.finalState (sized_whileFuel hg hssl hnum script n) (fun _ h => h.1) hstart
  · have hrunning : start.running = true := by
      cases script with
      | nil => exact absurd rfl hne
      | cons b bs => rfl
    have hfirst := sized_evalStep hg hssl hnum script start ⟨hstart, hrunning⟩
    unfold evalRounds at hrun
    rw [run_whileFuel_succ, if_pos hrunning, EStateM.run_bind] at hrun
    revert hfirst
    cases hstep : (evalStep env script).run start with
    | ok _ s₁ =>
      intro hfirst
      rw [hstep] at hrun
      dsimp only at hrun
      have hrest := roundEnd_whileFuel hg hssl hnum script n s₁ hfirst
      rw [hrun] at hrest
      exact hrest.2
    | error e s₁ =>
      rw [hstep] at hrun
      cases hrun
  · have hend := Triple.finalState (sized_evalScriptWith hg hssl hnum script) (fun _ h => h) hstart
    exact ⟨hend.1, fun _ h => by simp [evalScript] at h⟩

/-- The bound holds for a run of `OP_1 OP_DUP` from an empty root under the pre-Genesis sample
environment. -/
theorem pre_genesis_element_sizes_sample :
    (Env.sample 0 BaseSignatureChecker.base).utxoAfterGenesis = false ∧
      (Env.sample 0 BaseSignatureChecker.base).maxScriptNumLength ≤ 4 ∧
      (LimitedStack.empty 1000).ElementsWithin MAX_SCRIPT_ELEMENT_SIZE_BEFORE_GENESIS ∧
      (∀ n, (evalStateAfter (Env.sample 0 BaseSignatureChecker.base) (LimitedStack.empty 1000)
        [OP_1, OP_DUP] 0 n).root.ElementsWithin MAX_SCRIPT_ELEMENT_SIZE_BEFORE_GENESIS) ∧
      (∀ n s, evalRounds (Env.sample 0 BaseSignatureChecker.base) (LimitedStack.empty 1000)
          [OP_1, OP_DUP] 0 (n + 1) = .ok ⟨⟩ s → [OP_1, OP_DUP] ≠ [] →
        s.root.stack.length + s.root.altstack.length ≤ MAX_STACK_ELEMENTS_BEFORE_GENESIS) ∧
      (evalScript (Env.sample 0 BaseSignatureChecker.base) (LimitedStack.empty 1000)
        [OP_1, OP_DUP] 0).2.1.ElementsWithin MAX_SCRIPT_ELEMENT_SIZE_BEFORE_GENESIS :=
  have hg : (Env.sample 0 BaseSignatureChecker.base).utxoAfterGenesis = false := by decide
  have hnum : (Env.sample 0 BaseSignatureChecker.base).maxScriptNumLength ≤ 4 := by decide
  have hroot : (LimitedStack.empty 1000).ElementsWithin MAX_SCRIPT_ELEMENT_SIZE_BEFORE_GENESIS :=
    ⟨fun _ h => absurd h List.not_mem_nil, fun _ h => absurd h List.not_mem_nil⟩
  ⟨hg, hnum, hroot, pre_genesis_element_sizes hg Openssl.reference_spec hnum hroot (by decide)
    [OP_1, OP_DUP] 0⟩

end TbcNode.Script.Interpreter
