import TbcNode.Script.Interpreter.ElementSize

/-! # Runs of the primitives on a known stack

What `requireSize`, `stacktop`, `popBack` and `pushBack` return and leave on a main stack
`st ++ [x]`, so that the specs of the opcodes cite these instead of unfolding the primitives.
-/

namespace TbcNode.Script.Interpreter

open TbcNode.Logic TbcNode.Primitives

/-- The state with the counter of the stacks set to `c` and the main stack to `l`. -/
def EvalState.withMain (s : EvalState) (c : Nat) (l : List valtype) : EvalState :=
  { s with root := { s.root with combinedStackSize := c, stack := l } }

section

variable {s : EvalState}

@[simp] theorem EvalState.withMain_stack (c : Nat) (l : List valtype) :
    (s.withMain c l).root.stack = l := rfl

@[simp] theorem EvalState.withMain_combinedStackSize (c : Nat) (l : List valtype) :
    (s.withMain c l).root.combinedStackSize = c := rfl

@[simp] theorem EvalState.withMain_maxStackSize (c : Nat) (l : List valtype) :
    (s.withMain c l).root.maxStackSize = s.root.maxStackSize := rfl

@[simp] theorem EvalState.withMain_altstack (c : Nat) (l : List valtype) :
    (s.withMain c l).root.altstack = s.root.altstack := rfl

@[simp] theorem EvalState.withMain_polls (c p : Nat) (l : List valtype) :
    { s.withMain c l with polls := p } = ({ s with polls := p } : EvalState).withMain c l := rfl

@[simp] theorem EvalState.withMain_withMain (c c' : Nat) (l l' : List valtype) :
    (s.withMain c l).withMain c' l' = s.withMain c' l' := rfl

theorem run_requireSize_of_le {n : Nat} {e : ScriptError} (h : n ≤ s.root.stack.length) :
    (requireSize n e).run s = .ok ⟨⟩ s := by
  rw [requireSize, EStateM.run_bind, run_stackSize]
  simp only [if_neg (Nat.not_lt.mpr h)]
  rfl

theorem run_requireSize_of_lt {n : Nat} {e : ScriptError} (h : s.root.stack.length < n) :
    (requireSize n e).run s = .error (.failure e) s := by
  rw [requireSize, EStateM.run_bind, run_stackSize]
  simp only [if_pos h]
  rfl

theorem run_stacktop_of_getElem? {index : Int} {x : valtype} (hneg : index < 0)
    (hle : 0 ≤ (s.root.stack.length : Int) + index)
    (hx : s.root.stack[((s.root.stack.length : Int) + index).toNat]? = some x) :
    (stacktop index).run s = .ok ⟨x, .main⟩ s := by
  have h₁ : ¬ index ≥ 0 := by omega
  have h₂ : ¬ (s.root.stack.length : Int) + index < 0 := by omega
  rw [stacktop, run_onStacks, LimitedStack.run_stacktop]
  simp only [LimitedStack.elems, if_neg h₁, if_neg h₂, hx]

theorem run_stacktop_of_eq {st rest : List valtype} {x : valtype} {index : Int}
    (hs : s.root.stack = st ++ x :: rest) (hi : index = -((rest.length : Int) + 1)) :
    (stacktop index).run s = .ok ⟨x, .main⟩ s := by
  have hlen : (s.root.stack.length : Int) + index = st.length := by
    rw [hs, hi, List.length_append, List.length_cons]
    omega
  refine run_stacktop_of_getElem? (by omega) (by omega) ?_
  rw [hlen, Int.toNat_natCast, hs, List.getElem?_append_right (Nat.le_refl _), Nat.sub_self]
  rfl

theorem run_stacktop_top {st : List valtype} {x : valtype} (hs : s.root.stack = st ++ [x]) :
    (stacktop (-1)).run s = .ok ⟨x, .main⟩ s :=
  run_stacktop_of_eq hs (by simp)

theorem run_popBack_of_eq {st : List valtype} {x : valtype} (hs : s.root.stack = st ++ [x]) :
    popBack.run s =
      .ok ⟨⟩ (s.withMain (s.root.combinedStackSize - (x.length + ELEMENT_OVERHEAD)) st) := by
  rw [popBack, run_onStacks, LimitedStack.run_popBack]
  simp only [LimitedStack.elems, hs, List.getLast?_append, List.getLast?_singleton,
    Option.some_or, List.dropLast_concat]
  rfl

theorem run_popBack_withMain {c : Nat} {l st : List valtype} {x : valtype} (hl : l = st ++ [x]) :
    popBack.run (s.withMain c l) = .ok ⟨⟩ (s.withMain (c - (x.length + ELEMENT_OVERHEAD)) st) :=
  run_popBack_of_eq hl

theorem run_pushBack_of_le {e : valtype}
    (h : s.root.combinedStackSize + (e.length + ELEMENT_OVERHEAD) ≤ s.root.maxStackSize) :
    (pushBack e).run s = .ok ⟨⟩ (s.withMain
      (s.root.combinedStackSize + (e.length + ELEMENT_OVERHEAD)) (s.root.stack ++ [e])) := by
  rw [pushBack, run_onStacks, LimitedStack.run_pushBack, if_neg (Nat.not_lt.mpr h)]
  rfl

theorem run_pushBack_withMain {c : Nat} {l : List valtype} {e : valtype}
    (h : c + (e.length + ELEMENT_OVERHEAD) ≤ s.root.maxStackSize) :
    (pushBack e).run (s.withMain c l) =
      .ok ⟨⟩ (s.withMain (c + (e.length + ELEMENT_OVERHEAD)) (l ++ [e])) :=
  run_pushBack_of_le h

theorem run_pushBack_of_lt {e : valtype}
    (h : s.root.maxStackSize < s.root.combinedStackSize + (e.length + ELEMENT_OVERHEAD)) :
    (pushBack e).run s = .error (.raise .stackOverflow) s := by
  rw [pushBack, run_onStacks, LimitedStack.run_pushBack, if_pos h]

theorem run_readAt_of_getElem? {l : List UInt8} {i : Nat} {b : UInt8} (h : l[i]? = some b) :
    (readAt l i).run s = .ok b s := by
  rw [readAt, h]
  rfl

theorem run_readAt_of_le {l : List UInt8} {i : Nat} (h : l.length ≤ i) :
    (readAt l i).run s = .error .undefined s := by
  rw [readAt, List.getElem?_eq_none h]
  rfl

theorem run_elementAt_of_getElem? {α : Type} {l : List α} {i : Nat} {a : α} (h : l[i]? = some a) :
    (elementAt l i).run s = .ok a s := by
  rw [elementAt, h]
  rfl

theorem run_deref_some {α : Type} (a : α) : (deref (some a)).run s = .ok a s := rfl

theorem topIndex_append_singleton (st : List valtype) (x : valtype) :
    LimitedStack.topIndex (st ++ [x]) 1 = some st.length := by
  simp [LimitedStack.topIndex]

theorem modify_append_singleton {α : Type} (st : List α) (x : α) (f : α → α) :
    (st ++ [x]).modify st.length f = st ++ [f x] := by
  induction st with
  | nil => rfl
  | cons a st ih => rw [List.cons_append, List.length_cons, List.modify_succ_cons, ih, List.cons_append]

theorem run_modifyElement_of_eq {st : List valtype} {x : valtype} (f : valtype → valtype)
    (hs : s.root.stack = st ++ [x]) :
    (modifyElement 1 f).run s = .ok ⟨⟩ (s.withMain s.root.combinedStackSize (st ++ [f x])) := by
  rw [modifyElement, run_onStacks, LimitedStack.run_modifyElement]
  simp only [LimitedStack.elems, hs, topIndex_append_singleton, modify_append_singleton]
  rfl

theorem getD_append_singleton (st : List valtype) (x : valtype) :
    (st ++ [x]).getD st.length [] = x := by
  simp [List.getD_eq_getElem?_getD]

theorem run_minimallyEncode_of_eq {st : List valtype} {x : valtype}
    (hs : s.root.stack = st ++ [x])
    (h : s.root.combinedStackSize - x.length + (Script.minimallyEncode x).2.length ≤
      s.root.maxStackSize) :
    (minimallyEncode 1).run s = .ok (Script.minimallyEncode x).1
      (s.withMain (s.root.combinedStackSize - x.length + (Script.minimallyEncode x).2.length)
        (st ++ [(Script.minimallyEncode x).2])) := by
  rw [minimallyEncode, run_onStacks, LimitedStack.run_minimallyEncode]
  simp only [LimitedStack.elems, hs, topIndex_append_singleton, getD_append_singleton,
    if_neg (Nat.not_lt.mpr h), modify_append_singleton]
  rfl

theorem run_padRight_of_le {st : List valtype} {x : valtype} {size : Nat} (signbit : UInt8)
    (hs : s.root.stack = st ++ [x]) (hlt : x.length < size)
    (h : s.root.combinedStackSize + (size - x.length) ≤ s.root.maxStackSize) :
    (padRight 1 size signbit).run s =
      .ok ⟨⟩ (s.withMain (s.root.combinedStackSize + (size - x.length))
        (st ++ [(x ++ List.replicate (size - x.length) 0).dropLast ++ [signbit]])) := by
  rw [padRight, run_onStacks, LimitedStack.run_padRight]
  simp only [LimitedStack.elems, hs, topIndex_append_singleton, getD_append_singleton,
    if_pos hlt, if_neg (Nat.not_lt.mpr h), modify_append_singleton]
  rfl

theorem run_padRight_of_lt {st : List valtype} {x : valtype} {size : Nat} (signbit : UInt8)
    (hs : s.root.stack = st ++ [x]) (hlt : x.length < size)
    (h : s.root.maxStackSize < s.root.combinedStackSize + (size - x.length)) :
    (padRight 1 size signbit).run s = .error (.raise .stackOverflow) s := by
  rw [padRight, run_onStacks, LimitedStack.run_padRight]
  simp only [LimitedStack.elems, hs, topIndex_append_singleton, getD_append_singleton,
    if_pos hlt, if_pos h]

theorem run_scriptNum_of_ok {env : Env} {span : List UInt8} {fRequireMinimal : Bool}
    {nMaxNumSize : Nat} {big_int : Bool} {n : CScriptNum}
    (h : CScriptNum.ofSpan env.ssl span fRequireMinimal nMaxNumSize big_int = .ok n) :
    (scriptNum env span fRequireMinimal nMaxNumSize big_int).run s = .ok n s := by
  rw [scriptNum, h]
  rfl

theorem run_toSizeTLimited_of {n : CScriptNum} (h₀ : 0 ≤ n.value) (h₁ : n.value ≤ 2147483647) :
    (toSizeTLimited n).run s = .ok n.value.toNat s := by
  rw [toSizeTLimited, if_pos ⟨h₀, h₁⟩]
  rfl

theorem accounted_usage_le {k : Nat} {t : LimitedStack} (h : LimitedStack.Accounted k t) :
    LimitedStack.usage t.stack ≤ t.combinedStackSize := by
  rw [h.1, LimitedStack.totalUsage]
  omega

end

end TbcNode.Script.Interpreter
