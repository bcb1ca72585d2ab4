import TbcNode.Logic.Triple
import TbcNode.Script.Num

/-! # `LimitedStack` and `LimitedVector`

The root stack and its child are one record with the root's counter and limit; `StackRef` names
the stack an operation works on, and elements are listed bottom first. Every operation raises
before it changes anything, and keeps the counter accounting for the elements (`Accounted`).
-/

namespace TbcNode.Script

open TbcNode.Logic

def ELEMENT_OVERHEAD : Nat := 32

/-- The main stack (the root) or the altstack (its child). -/
inductive StackRef where
  | main
  | alt
  deriving DecidableEq, Repr

/-- The root `LimitedStack` with its child. -/
structure LimitedStack where
  combinedStackSize : Nat
  maxStackSize : Nat
  stack : List valtype
  altstack : List valtype
  deriving DecidableEq, Repr

/-- A `LimitedVector`: the element and the stack it belongs to. -/
structure LimitedVector where
  element : valtype
  owner : StackRef

/-- Programs on the two stacks, raising the exceptions of `limitedstack.cpp`. -/
abbrev StackM := EStateM Exception LimitedStack

namespace LimitedStack

/-- `LimitedStack(maxStackSizeIn)`: an empty root with an empty child. -/
def empty (maxStackSizeIn : Nat) : LimitedStack := ⟨0, maxStackSizeIn, [], []⟩

def elems (st : LimitedStack) : StackRef → List valtype
  | .main => st.stack
  | .alt => st.altstack

/-- Replaces the elements of one of the stacks. -/
def setElems (st : LimitedStack) : StackRef → List valtype → LimitedStack
  | .main, l => { st with stack := l }
  | .alt, l => { st with altstack := l }

@[simp] theorem elems_setElems_self (st : LimitedStack) (r : StackRef) (l : List valtype) :
    (st.setElems r l).elems r = l := by
  cases r <;> rfl

@[simp] theorem combinedStackSize_setElems (st : LimitedStack) (r : StackRef) (l : List valtype) :
    (st.setElems r l).combinedStackSize = st.combinedStackSize := by
  cases r <;> rfl

@[simp] theorem maxStackSize_setElems (st : LimitedStack) (r : StackRef) (l : List valtype) :
    (st.setElems r l).maxStackSize = st.maxStackSize := by
  cases r <;> rfl

/-- `increaseCombinedStackSize`: the root checks the limit before it adds. -/
def increaseCombinedStackSize (additionalSize : Nat) : StackM PUnit := do
  let st ← get
  if st.combinedStackSize + additionalSize > st.maxStackSize then throw .stackOverflow
  set { st with combinedStackSize := st.combinedStackSize + additionalSize }

def decreaseCombinedStackSize (additionalSize : Nat) : StackM PUnit :=
  modify fun st => { st with combinedStackSize := st.combinedStackSize - additionalSize }

def size (r : StackRef) : StackM Nat := do
  return ((← get).elems r).length

/-- `stacktop(index)`: `stack.at(stack.size() + index)` for a negative `index`. -/
def stacktop (r : StackRef) (index : Int) : StackM LimitedVector := do
  if index ≥ 0 then throw .invalidArgument
  let l := (← get).elems r
  if (l.length : Int) + index < 0 then throw .outOfRange
  match l[((l.length : Int) + index).toNat]? with
  | some e => pure ⟨e, r⟩
  | none => throw .outOfRange

def popBack (r : StackRef) : StackM PUnit := do
  let l := (← get).elems r
  match l.getLast? with
  | none => throw .runtimeError
  | some top =>
    decreaseCombinedStackSize (top.length + ELEMENT_OVERHEAD)
    modify fun st => st.setElems r l.dropLast

def pushBack (r : StackRef) (element : valtype) : StackM PUnit := do
  increaseCombinedStackSize (element.length + ELEMENT_OVERHEAD)
  modify fun st => st.setElems r (st.elems r ++ [element])

/-- `push_back(const LimitedVector&)`: the element must belong to this stack. -/
def pushBackVector (r : StackRef) (element : LimitedVector) : StackM PUnit := do
  if element.owner ≠ r then throw .invalidArgument
  pushBack r element.element

/-- `erase(first, last)`: the elements from `top - first` up to, not including, `top - last`. -/
def eraseRange (r : StackRef) (first last : Int) : StackM PUnit := do
  if last ≥ 0 ∨ last ≤ first then throw .invalidArgument
  let l := (← get).elems r
  if (l.length : Int) + first < 0 then throw .outOfRange
  let lo := ((l.length : Int) + first).toNat
  let hi := ((l.length : Int) + last).toNat
  decreaseCombinedStackSize (((l.drop lo).take (hi - lo)).map (·.length + ELEMENT_OVERHEAD)).sum
  modify fun st => st.setElems r (l.take lo ++ l.drop hi)

def erase (r : StackRef) (index : Int) : StackM PUnit := do
  if index ≥ 0 then throw .invalidArgument
  let l := (← get).elems r
  if (l.length : Int) + index < 0 then throw .outOfRange
  let i := ((l.length : Int) + index).toNat
  match l[i]? with
  | none => throw .outOfRange
  | some e =>
    decreaseCombinedStackSize (e.length + ELEMENT_OVERHEAD)
    modify fun st => st.setElems r (l.eraseIdx i)

def insert (r : StackRef) (position : Int) (element : LimitedVector) : StackM PUnit := do
  if element.owner ≠ r then throw .invalidArgument
  if position ≥ 0 then throw .invalidArgument
  let l := (← get).elems r
  if (l.length : Int) + position < 0 then throw .outOfRange
  increaseCombinedStackSize (element.element.length + ELEMENT_OVERHEAD)
  modify fun st => st.setElems r (l.insertIdx ((l.length : Int) + position).toNat element.element)

/-- `swapElements(index1, index2)`, with `std::vector::at`. -/
def swapElements (r : StackRef) (index1 index2 : Nat) : StackM PUnit := do
  let l := (← get).elems r
  match l[index1]?, l[index2]? with
  | some a, some b => modify fun st => st.setElems r ((l.set index1 b).set index2 a)
  | _, _ => throw .outOfRange

/-- `moveTopToStack(otherStack)` on `r`: moves the top of `other` onto `r` without touching the
counter; only between a parent and its child. -/
def moveTopToStack (r other : StackRef) : StackM PUnit := do
  if r = other then throw .runtimeError
  let l := (← get).elems other
  match l.getLast? with
  | none => throw .outOfRange
  | some top =>
    modify fun st => (st.setElems r (st.elems r ++ [top])).setElems other l.dropLast

/-! ### Changing an element in place

`LimitedVector &v = stacktop(-i)` followed by a change of `v`: the element `i`-th from the top. -/

/-- The position of the element `i`-th from the top, if there is one. -/
def topIndex (l : List valtype) (i : Nat) : Option Nat :=
  if 0 < i ∧ i ≤ l.length then some (l.length - i) else none

/-- Replaces the element `i`-th from the top by `f` of it, without touching the counter, as a
write through `operator[]` does; `stack.at` raises `out_of_range` when there is no such element. -/
def modifyElement (r : StackRef) (i : Nat) (f : valtype → valtype) : StackM PUnit := do
  let l := (← get).elems r
  match topIndex l i with
  | none => throw .outOfRange
  | some k => modify fun st => st.setElems r (l.modify k f)

def element (r : StackRef) (i : Nat) : StackM valtype := do
  let l := (← get).elems r
  match topIndex l i with
  | none => throw .outOfRange
  | some k => pure (l.getD k [])

def append (r : StackRef) (i : Nat) (second : valtype) : StackM PUnit := do
  let _ ← element r i
  increaseCombinedStackSize second.length
  modifyElement r i (· ++ second)

/-- `LimitedVector::padRight(size, signbit)`: zero bytes up to `size`, the last one `signbit`. -/
def padRight (r : StackRef) (i : Nat) (size : Nat) (signbit : UInt8) : StackM PUnit := do
  let e ← element r i
  if size > e.length then
    increaseCombinedStackSize (size - e.length)
    modifyElement r i fun e => (e ++ List.replicate (size - e.length) 0).dropLast ++ [signbit]

/-- `LimitedVector::MinimallyEncode()`: the counter gives up the old size and takes the new one. -/
def minimallyEncode (r : StackRef) (i : Nat) : StackM Bool := do
  let e ← element r i
  decreaseCombinedStackSize e.length
  let (successfulEncoding, e') := Script.minimallyEncode e
  increaseCombinedStackSize e'.length
  modifyElement r i fun _ => e'
  return successfulEncoding

/-- `makeRootStackCopy()`: a root with the same elements, counter and limit; the child's elements
are not part of the root object. -/
def makeRootStackCopy (st : LimitedStack) : LimitedStack := { st with altstack := [] }

/-! ## The memory of the elements -/

/-- The memory a list of elements takes: its bytes and `ELEMENT_OVERHEAD` for each element. -/
def usage (l : List valtype) : Nat := (l.map fun e => e.length + ELEMENT_OVERHEAD).sum

@[simp] theorem usage_nil : usage [] = 0 := rfl

@[simp] theorem usage_cons (e : valtype) (l : List valtype) :
    usage (e :: l) = e.length + ELEMENT_OVERHEAD + usage l := by
  simp [usage]

@[simp] theorem usage_append (l₁ l₂ : List valtype) : usage (l₁ ++ l₂) = usage l₁ + usage l₂ := by
  simp [usage]

theorem usage_take_add_drop (l : List valtype) (i : Nat) :
    usage (l.take i) + usage (l.drop i) = usage l := by
  rw [← usage_append, List.take_append_drop]

theorem usage_eraseIdx {l : List valtype} {i : Nat} (h : i < l.length) :
    usage (l.eraseIdx i) + (l[i].length + ELEMENT_OVERHEAD) = usage l := by
  have hsplit := usage_take_add_drop l i
  rw [List.drop_eq_getElem_cons h, usage_cons] at hsplit
  rw [List.eraseIdx_eq_take_drop_succ, usage_append]
  omega

theorem usage_eraseRange {l : List valtype} (lo hi : Nat) (h : lo ≤ hi) :
    usage (l.take lo ++ l.drop hi) + usage ((l.drop lo).take (hi - lo)) = usage l := by
  have h₁ := usage_take_add_drop l lo
  have h₂ := usage_take_add_drop (l.drop lo) (hi - lo)
  rw [List.drop_drop, Nat.add_sub_cancel' h] at h₂
  rw [usage_append]
  omega

theorem usage_insertIdx {l : List valtype} {i : Nat} (e : valtype) (h : i ≤ l.length) :
    usage (l.insertIdx i e) = usage l + (e.length + ELEMENT_OVERHEAD) := by
  have hp := ((List.perm_insertIdx e l h).map fun e => e.length + ELEMENT_OVERHEAD).sum_eq
  simp only [List.map_cons, List.sum_cons] at hp
  simp only [usage, hp]
  omega

theorem usage_swap {l : List valtype} {i j : Nat} (hi : i < l.length) (hj : j < l.length) :
    usage ((l.set i l[j]).set j l[i]) = usage l :=
  ((List.set_set_perm hi hj).map _).sum_eq

theorem usage_modify {l : List valtype} {k : Nat} (f : valtype → valtype) (h : k < l.length) :
    usage (l.modify k f) + l[k].length = usage l + (f l[k]).length := by
  have hsplit := usage_take_add_drop l k
  rw [List.drop_eq_getElem_cons h, usage_cons] at hsplit
  rw [List.modify_eq_take_drop, List.drop_eq_getElem_cons h, List.modifyHead_cons, usage_append,
    usage_cons]
  omega

theorem length_add_le_usage {l : List valtype} {j : Nat} (h : j < l.length) :
    l[j].length + ELEMENT_OVERHEAD ≤ usage l := by
  have := usage_eraseIdx h
  omega

theorem usage_dropLast {l ys : List valtype} {top : valtype} (h : l = ys ++ [top]) :
    usage l.dropLast + (top.length + ELEMENT_OVERHEAD) = usage l := by
  subst h
  simp

/-- The memory of the elements of both stacks. -/
def totalUsage (st : LimitedStack) : Nat := usage st.stack + usage st.altstack

theorem totalUsage_setElems (st : LimitedStack) (r : StackRef) (l : List valtype) :
    totalUsage (st.setElems r l) + usage (st.elems r) = totalUsage st + usage l := by
  cases r <;> simp [totalUsage, setElems, elems] <;> omega

@[simp] theorem totalUsage_counter (st : LimitedStack) (n : Nat) :
    totalUsage { st with combinedStackSize := n } = totalUsage st := rfl

/-- The accounting invariant: the counter is the memory of the elements of both stacks plus a
fixed surplus, and within the limit. -/
def Accounted (surplus : Nat) (st : LimitedStack) : Prop :=
  st.combinedStackSize = surplus + totalUsage st ∧ st.combinedStackSize ≤ st.maxStackSize


/-! ## Every operation keeps the accounting -/

variable {r : StackRef} {k : Nat}

@[simp] theorem elems_counter (st : LimitedStack) (n : Nat) (r : StackRef) :
    ({ st with combinedStackSize := n } : LimitedStack).elems r = st.elems r := by
  cases r <;> rfl

@[simp] theorem run_decreaseCombinedStackSize (n : Nat) (st : LimitedStack) :
    (decreaseCombinedStackSize n).run st =
      .ok ⟨⟩ { st with combinedStackSize := st.combinedStackSize - n } := rfl

theorem run_increaseCombinedStackSize (n : Nat) (st : LimitedStack) :
    (increaseCombinedStackSize n).run st =
      if st.combinedStackSize + n > st.maxStackSize then .error .stackOverflow st
      else .ok ⟨⟩ { st with combinedStackSize := st.combinedStackSize + n } := by
  simp only [increaseCombinedStackSize, EStateM.run_bind, EStateM.run_get]
  split <;> rfl

theorem run_pushBack (e : valtype) (st : LimitedStack) :
    (pushBack r e).run st =
      if st.combinedStackSize + (e.length + ELEMENT_OVERHEAD) > st.maxStackSize then
        .error .stackOverflow st
      else .ok ⟨⟩ (({ st with combinedStackSize :=
        st.combinedStackSize + (e.length + ELEMENT_OVERHEAD) } : LimitedStack).setElems r
          (st.elems r ++ [e])) := by
  rw [pushBack, EStateM.run_bind, run_increaseCombinedStackSize]
  split_ifs <;> rfl

theorem run_popBack (st : LimitedStack) :
    (popBack r).run st =
      match (st.elems r).getLast? with
      | none => .error .runtimeError st
      | some top => .ok ⟨⟩ (({ st with combinedStackSize :=
          st.combinedStackSize - (top.length + ELEMENT_OVERHEAD) } : LimitedStack).setElems r
            (st.elems r).dropLast) := by
  simp only [popBack, EStateM.run_bind, EStateM.run_get]
  cases (st.elems r).getLast? <;> rfl

theorem keeps_pushBack (e : valtype) : Keeps (Accounted k) (pushBack r e) := by
  intro st ⟨hc, hm⟩
  rw [run_pushBack]
  split_ifs with h
  · exact ⟨hc, hm⟩
  · have hu := totalUsage_setElems
      ({ st with combinedStackSize := st.combinedStackSize + (e.length + ELEMENT_OVERHEAD) } :
        LimitedStack) r (st.elems r ++ [e])
    simp only [elems_counter, totalUsage_counter, usage_append, usage_cons, usage_nil] at hu
    refine ⟨?_, ?_⟩
    · simp only [combinedStackSize_setElems]
      omega
    · simp only [combinedStackSize_setElems, maxStackSize_setElems]
      omega

theorem rollback_pushBack (e : valtype) : Rollback (Accounted k) (pushBack r e) := by
  intro st _
  rw [run_pushBack]
  split_ifs <;> trivial

theorem keeps_popBack : Keeps (Accounted k) (popBack r) := by
  intro st ⟨hc, hm⟩
  rw [run_popBack]
  cases hlast : (st.elems r).getLast? with
  | none => exact ⟨hc, hm⟩
  | some top =>
    obtain ⟨ys, hys⟩ := List.getLast?_eq_some_iff.mp hlast
    have hd := usage_dropLast hys
    have hu := totalUsage_setElems
      ({ st with combinedStackSize := st.combinedStackSize - (top.length + ELEMENT_OVERHEAD) } :
        LimitedStack) r (st.elems r).dropLast
    have hle := totalUsage_setElems st r []
    simp only [elems_counter, totalUsage_counter] at hu
    simp only [usage_nil] at hle
    refine ⟨?_, ?_⟩
    · simp only [combinedStackSize_setElems]
      omega
    · simp only [combinedStackSize_setElems, maxStackSize_setElems]
      omega

theorem rollback_popBack : Rollback (Accounted k) (popBack r) := by
  intro st _
  rw [run_popBack]
  cases (st.elems r).getLast? <;> trivial

theorem pushBackVector_eq (element : LimitedVector) (h : element.owner = r) :
    pushBackVector r element = pushBack r element.element := by
  simp [pushBackVector, h]

theorem run_pushBackVector_of_ne (element : LimitedVector) (h : element.owner ≠ r) (st : LimitedStack) :
    (pushBackVector r element).run st = .error .invalidArgument st := by
  simp [pushBackVector, h]

theorem keeps_pushBackVector (element : LimitedVector) : Keeps (Accounted k) (pushBackVector r element) := by
  by_cases h : element.owner = r
  · rw [pushBackVector_eq element h]
    exact keeps_pushBack _
  · intro st hst
    rw [run_pushBackVector_of_ne element h]
    exact hst

theorem topIndex_lt {l : List valtype} {i k : Nat} (h : topIndex l i = some k) : k < l.length := by
  unfold topIndex at h
  split at h
  · next hi =>
    cases h
    omega
  · cases h

theorem run_element (i : Nat) (st : LimitedStack) :
    (element r i).run st =
      match topIndex (st.elems r) i with
      | none => .error .outOfRange st
      | some k => .ok ((st.elems r).getD k []) st := by
  simp only [element, EStateM.run_bind, EStateM.run_get]
  cases topIndex (st.elems r) i <;> rfl

theorem readsOnly_element (i : Nat) : ReadsOnly (element r i) := by
  intro st
  rw [run_element]
  cases topIndex (st.elems r) i <;> rfl

theorem readsOnly_size : ReadsOnly (size r) := fun _ => rfl

theorem readsOnly_stacktop (index : Int) : ReadsOnly (stacktop r index) := by
  unfold stacktop
  refine ReadsOnly.ite' (ReadsOnly.throw' _) (ReadsOnly.bind ReadsOnly.get' fun st => ?_)
  refine ReadsOnly.ite' (ReadsOnly.bind (ReadsOnly.throw' _) fun _ => ?_) ?_ <;>
    split <;> first | exact ReadsOnly.pure' _ | exact ReadsOnly.throw' _

theorem run_stacktop (index : Int) (st : LimitedStack) :
    (stacktop r index).run st =
      if index ≥ 0 then .error .invalidArgument st
      else if ((st.elems r).length : Int) + index < 0 then .error .outOfRange st
      else match (st.elems r)[(((st.elems r).length : Int) + index).toNat]? with
        | some e => .ok ⟨e, r⟩ st
        | none => .error .outOfRange st := by
  unfold stacktop
  by_cases h1 : index ≥ 0
  · rw [if_pos h1, if_pos h1]
    rfl
  · rw [if_neg h1, if_neg h1]
    by_cases h2 : ((st.elems r).length : Int) + index < 0
    · rw [if_pos h2]
      simp only [EStateM.run_bind, EStateM.run_get, if_pos h2]
      rfl
    · rw [if_neg h2]
      simp only [EStateM.run_bind, EStateM.run_get, if_neg h2]
      split <;> rfl

theorem mem_of_run_stacktop {index : Int} {st st' : LimitedStack} {v : LimitedVector}
    (h : (stacktop r index).run st = .ok v st') :
    st' = st ∧ v.owner = r ∧
      v.element ∈ (st.elems r).drop ((st.elems r).length - index.natAbs) := by
  rw [run_stacktop] at h
  split_ifs at h with h1 h2
  split at h
  · next e he =>
    cases h
    have hi : ((st.elems r).drop ((st.elems r).length - index.natAbs))[
        (((st.elems r).length : Int) + index).toNat - ((st.elems r).length - index.natAbs)]? =
        some e := by
      rw [List.getElem?_drop, ← he]
      congr 1
      omega
    exact ⟨rfl, rfl, List.mem_of_getElem? hi⟩
  · cases h

theorem run_modifyElement (i : Nat) (f : valtype → valtype) (st : LimitedStack) :
    (modifyElement r i f).run st =
      match topIndex (st.elems r) i with
      | none => .error .outOfRange st
      | some k => .ok ⟨⟩ (st.setElems r ((st.elems r).modify k f)) := by
  simp only [modifyElement, EStateM.run_bind, EStateM.run_get]
  cases topIndex (st.elems r) i <;> rfl

theorem keeps_modifyElement (i : Nat) (f : valtype → valtype) (hf : ∀ e, (f e).length = e.length) :
    Keeps (Accounted k) (modifyElement r i f) := by
  intro st ⟨hc, hm⟩
  rw [run_modifyElement]
  cases hk : topIndex (st.elems r) i with
  | none => exact ⟨hc, hm⟩
  | some j =>
    have hlt := topIndex_lt hk
    have hmod := usage_modify f hlt
    have hu := totalUsage_setElems st r ((st.elems r).modify j f)
    rw [hf] at hmod
    exact ⟨by simp only [combinedStackSize_setElems]; omega, by simpa using hm⟩

theorem run_append (i : Nat) (second : valtype) (st : LimitedStack) :
    (append r i second).run st =
      match topIndex (st.elems r) i with
      | none => .error .outOfRange st
      | some j =>
        if st.combinedStackSize + second.length > st.maxStackSize then .error .stackOverflow st
        else .ok ⟨⟩ (({ st with combinedStackSize := st.combinedStackSize + second.length } :
          LimitedStack).setElems r ((st.elems r).modify j (· ++ second))) := by
  simp only [append, EStateM.run_bind, run_element]
  cases hk : topIndex (st.elems r) i with
  | none => rfl
  | some j =>
    simp only [run_increaseCombinedStackSize]
    split_ifs
    · rfl
    · simp only [run_modifyElement, elems_counter, hk]

theorem keeps_append (i : Nat) (second : valtype) : Keeps (Accounted k) (append r i second) := by
  intro st ⟨hc, hm⟩
  rw [run_append]
  cases hk : topIndex (st.elems r) i with
  | none => exact ⟨hc, hm⟩
  | some j =>
    dsimp only
    split_ifs with h
    · exact ⟨hc, hm⟩
    · have hlt := topIndex_lt hk
      have hmod := usage_modify (· ++ second) hlt
      have hu := totalUsage_setElems
        ({ st with combinedStackSize := st.combinedStackSize + second.length } : LimitedStack) r
        ((st.elems r).modify j (· ++ second))
      simp only [elems_counter, totalUsage_counter, List.length_append] at hu hmod
      exact ⟨by simp only [combinedStackSize_setElems]; omega,
        by simp only [combinedStackSize_setElems, maxStackSize_setElems]; omega⟩

theorem rollback_append (i : Nat) (second : valtype) : Rollback (Accounted k) (append r i second) := by
  intro st _
  rw [run_append]
  cases topIndex (st.elems r) i with
  | none => trivial
  | some j =>
    dsimp only
    split_ifs <;> trivial

theorem run_padRight (i size : Nat) (signbit : UInt8) (st : LimitedStack) :
    (padRight r i size signbit).run st =
      match topIndex (st.elems r) i with
      | none => .error .outOfRange st
      | some j =>
        if size > ((st.elems r).getD j []).length then
          if st.combinedStackSize + (size - ((st.elems r).getD j []).length) > st.maxStackSize then
            .error .stackOverflow st
          else .ok ⟨⟩ (({ st with combinedStackSize :=
            st.combinedStackSize + (size - ((st.elems r).getD j []).length) } :
              LimitedStack).setElems r ((st.elems r).modify j fun e =>
                (e ++ List.replicate (size - e.length) 0).dropLast ++ [signbit]))
        else .ok ⟨⟩ st := by
  simp only [padRight, EStateM.run_bind, run_element]
  cases hk : topIndex (st.elems r) i with
  | none => rfl
  | some j =>
    dsimp only
    by_cases hsize : size > ((st.elems r).getD j []).length
    · rw [if_pos hsize, if_pos hsize, EStateM.run_bind, run_increaseCombinedStackSize]
      by_cases hover : st.combinedStackSize + (size - ((st.elems r).getD j []).length) >
          st.maxStackSize
      · rw [if_pos hover, if_pos hover]
      · rw [if_neg hover, if_neg hover]
        simp only [run_modifyElement, elems_counter, hk]
    · rw [if_neg hsize, if_neg hsize]
      rfl

theorem length_padRight_element (e : valtype) (size : Nat) (signbit : UInt8) (h : size > e.length) :
    ((e ++ List.replicate (size - e.length) 0).dropLast ++ [signbit]).length = size := by
  simp only [List.length_append, List.length_dropLast, List.length_replicate, List.length_singleton]
  omega

theorem keeps_padRight (i size : Nat) (signbit : UInt8) :
    Keeps (Accounted k) (padRight r i size signbit) := by
  intro st ⟨hc, hm⟩
  rw [run_padRight]
  cases hk : topIndex (st.elems r) i with
  | none => exact ⟨hc, hm⟩
  | some j =>
    have hlt := topIndex_lt hk
    have hget : (st.elems r).getD j [] = (st.elems r)[j] := by simp [List.getD_eq_getElem?_getD, List.getElem?_eq_getElem hlt]
    dsimp only
    rw [hget]
    split_ifs with hsize hover
    · exact ⟨hc, hm⟩
    · have hmod := usage_modify (fun e => (e ++ List.replicate (size - e.length) 0).dropLast ++
        [signbit]) hlt
      rw [length_padRight_element _ _ _ hsize] at hmod
      have hu := totalUsage_setElems
        ({ st with combinedStackSize := st.combinedStackSize + (size - (st.elems r)[j].length) } :
          LimitedStack) r ((st.elems r).modify j fun e =>
            (e ++ List.replicate (size - e.length) 0).dropLast ++ [signbit])
      simp only [elems_counter, totalUsage_counter] at hu
      exact ⟨by simp only [combinedStackSize_setElems]; omega,
        by simp only [combinedStackSize_setElems, maxStackSize_setElems]; omega⟩
    · exact ⟨hc, hm⟩

theorem rollback_padRight (i size : Nat) (signbit : UInt8) :
    Rollback (Accounted k) (padRight r i size signbit) := by
  intro st _
  rw [run_padRight]
  cases topIndex (st.elems r) i with
  | none => trivial
  | some j =>
    dsimp only
    split_ifs <;> trivial

theorem run_minimallyEncode (i : Nat) (st : LimitedStack) :
    (minimallyEncode r i).run st =
      match topIndex (st.elems r) i with
      | none => .error .outOfRange st
      | some j =>
        if st.combinedStackSize - ((st.elems r).getD j []).length +
            (Script.minimallyEncode ((st.elems r).getD j [])).2.length > st.maxStackSize then
          .error .stackOverflow { st with combinedStackSize :=
            st.combinedStackSize - ((st.elems r).getD j []).length }
        else .ok (Script.minimallyEncode ((st.elems r).getD j [])).1
          (({ st with combinedStackSize := st.combinedStackSize -
            ((st.elems r).getD j []).length +
              (Script.minimallyEncode ((st.elems r).getD j [])).2.length } :
            LimitedStack).setElems r ((st.elems r).modify j fun _ =>
              (Script.minimallyEncode ((st.elems r).getD j [])).2)) := by
  simp only [minimallyEncode, EStateM.run_bind, run_element]
  cases hk : topIndex (st.elems r) i with
  | none => rfl
  | some j =>
    dsimp only
    simp only [run_decreaseCombinedStackSize, run_increaseCombinedStackSize]
    split_ifs
    · rfl
    · simp only [run_modifyElement, elems_counter, hk]
      rfl

theorem keeps_minimallyEncode (i : Nat) : Keeps (Accounted k) (minimallyEncode r i) := by
  intro st ⟨hc, hm⟩
  rw [run_minimallyEncode]
  cases hk : topIndex (st.elems r) i with
  | none => exact ⟨hc, hm⟩
  | some j =>
    have hlt := topIndex_lt hk
    have hget : (st.elems r).getD j [] = (st.elems r)[j] := by
      simp [List.getD_eq_getElem?_getD, List.getElem?_eq_getElem hlt]
    have hshort := length_minimallyEncode_le (st.elems r)[j]
    have hmod := usage_modify (fun _ => (Script.minimallyEncode (st.elems r)[j]).2) hlt
    have hu := totalUsage_setElems st r ((st.elems r).modify j fun _ =>
      (Script.minimallyEncode (st.elems r)[j]).2)
    have hin : usage (st.elems r) ≤ totalUsage st := by
      have := totalUsage_setElems st r []
      simp at this
      omega
    have hel := length_add_le_usage hlt
    dsimp only
    rw [hget]
    split_ifs with hover
    · exfalso
      omega
    · refine ⟨?_, ?_⟩
      · simp only [combinedStackSize_setElems]
        have hu' := totalUsage_setElems
          ({ st with combinedStackSize := st.combinedStackSize - (st.elems r)[j].length +
            (Script.minimallyEncode (st.elems r)[j]).2.length } : LimitedStack) r
          ((st.elems r).modify j fun _ => (Script.minimallyEncode (st.elems r)[j]).2)
        simp only [elems_counter, totalUsage_counter] at hu'
        omega
      · simp only [combinedStackSize_setElems, maxStackSize_setElems]
        omega

theorem rollback_minimallyEncode (i : Nat) : Rollback (Accounted k) (minimallyEncode r i) := by
  intro st hst
  have hkeep := keeps_minimallyEncode (r := r) (k := k) i st hst
  revert hkeep
  rw [run_minimallyEncode]
  cases hk : topIndex (st.elems r) i with
  | none => exact fun _ => rfl
  | some j =>
    dsimp only
    split_ifs with hover
    · intro hkeep
      obtain ⟨hc, hm⟩ := hst
      have hlt := topIndex_lt hk
      have hget : (st.elems r).getD j [] = (st.elems r)[j] := by
        simp [List.getD_eq_getElem?_getD, List.getElem?_eq_getElem hlt]
      have hshort := length_minimallyEncode_le ((st.elems r).getD j [])
      have hel := length_add_le_usage hlt
      have hin : usage (st.elems r) ≤ totalUsage st := by
        have := totalUsage_setElems st r []
        simp at this
        omega
      rw [hget] at hover hshort
      omega
    · exact fun _ => trivial

theorem run_erase (index : Int) (st : LimitedStack) :
    (erase r index).run st =
      if index ≥ 0 then .error .invalidArgument st
      else if ((st.elems r).length : Int) + index < 0 then .error .outOfRange st
      else match (st.elems r)[(((st.elems r).length : Int) + index).toNat]? with
        | none => .error .outOfRange st
        | some e => .ok ⟨⟩ (({ st with combinedStackSize :=
            st.combinedStackSize - (e.length + ELEMENT_OVERHEAD) } : LimitedStack).setElems r
              ((st.elems r).eraseIdx (((st.elems r).length : Int) + index).toNat)) := by
  unfold erase
  by_cases h1 : index ≥ 0
  · rw [if_pos h1, if_pos h1]
    rfl
  · rw [if_neg h1, if_neg h1]
    simp only [EStateM.run_bind, EStateM.run_get]
    by_cases h2 : ((st.elems r).length : Int) + index < 0
    · rw [if_pos h2, if_pos h2]
      rfl
    · rw [if_neg h2, if_neg h2]
      cases (st.elems r)[(((st.elems r).length : Int) + index).toNat]? <;> rfl

theorem keeps_erase (index : Int) : Keeps (Accounted k) (erase r index) := by
  intro st ⟨hc, hm⟩
  rw [run_erase]
  split_ifs with h1 h2
  · exact ⟨hc, hm⟩
  · exact ⟨hc, hm⟩
  · cases he : (st.elems r)[(((st.elems r).length : Int) + index).toNat]? with
    | none => exact ⟨hc, hm⟩
    | some e =>
      obtain ⟨hlt, rfl⟩ := List.getElem?_eq_some_iff.mp he
      have hdel := usage_eraseIdx hlt
      have hu := totalUsage_setElems
        ({ st with combinedStackSize := st.combinedStackSize -
          ((st.elems r)[(((st.elems r).length : Int) + index).toNat].length + ELEMENT_OVERHEAD) } :
          LimitedStack) r ((st.elems r).eraseIdx (((st.elems r).length : Int) + index).toNat)
      have hin := totalUsage_setElems st r []
      simp only [elems_counter, totalUsage_counter] at hu
      simp only [usage_nil] at hin
      exact ⟨by simp only [combinedStackSize_setElems]; omega,
        by simp only [combinedStackSize_setElems, maxStackSize_setElems]; omega⟩

theorem rollback_erase (index : Int) : Rollback (Accounted k) (erase r index) := by
  intro st _
  rw [run_erase]
  split_ifs
  · trivial
  · trivial
  · cases (st.elems r)[(((st.elems r).length : Int) + index).toNat]? <;> trivial

theorem run_eraseRange (first last : Int) (st : LimitedStack) :
    (eraseRange r first last).run st =
      let l := st.elems r
      let lo := ((l.length : Int) + first).toNat
      let hi := ((l.length : Int) + last).toNat
      if last ≥ 0 ∨ last ≤ first then .error .invalidArgument st
      else if (l.length : Int) + first < 0 then .error .outOfRange st
      else .ok ⟨⟩ (({ st with combinedStackSize :=
        st.combinedStackSize - usage ((l.drop lo).take (hi - lo)) } : LimitedStack).setElems r
          (l.take lo ++ l.drop hi)) := by
  unfold eraseRange
  by_cases h1 : last ≥ 0 ∨ last ≤ first
  · rw [if_pos h1, if_pos h1]
    rfl
  · rw [if_neg h1, if_neg h1]
    simp only [EStateM.run_bind, EStateM.run_get]
    by_cases h2 : ((st.elems r).length : Int) + first < 0
    · rw [if_pos h2, if_pos h2]
      rfl
    · rw [if_neg h2, if_neg h2]
      rfl

theorem keeps_eraseRange (first last : Int) : Keeps (Accounted k) (eraseRange r first last) := by
  intro st ⟨hc, hm⟩
  rw [run_eraseRange]
  dsimp only
  split_ifs with h1 h2
  · exact ⟨hc, hm⟩
  · exact ⟨hc, hm⟩
  · simp only [not_or, not_le] at h1
    have hdel := usage_eraseRange (l := st.elems r)
      (((st.elems r).length : Int) + first).toNat
      (((st.elems r).length : Int) + last).toNat (by omega)
    have hu := totalUsage_setElems
      ({ st with combinedStackSize := (st.combinedStackSize -
        usage (((st.elems r).drop (((st.elems r).length : Int) + first).toNat).take
          ((((st.elems r).length : Int) + last).toNat -
            (((st.elems r).length : Int) + first).toNat))) } : LimitedStack) r
      ((st.elems r).take (((st.elems r).length : Int) + first).toNat ++
        (st.elems r).drop (((st.elems r).length : Int) + last).toNat)
    have hin := totalUsage_setElems st r []
    simp only [elems_counter, totalUsage_counter] at hu
    simp only [usage_nil] at hin
    exact ⟨by simp only [combinedStackSize_setElems]; omega,
      by simp only [combinedStackSize_setElems, maxStackSize_setElems]; omega⟩

theorem rollback_eraseRange (first last : Int) : Rollback (Accounted k) (eraseRange r first last) := by
  intro st _
  rw [run_eraseRange]
  dsimp only
  split_ifs <;> trivial

theorem rollback_modifyElement (i : Nat) (f : valtype → valtype) :
    Rollback (Accounted k) (modifyElement r i f) := by
  intro st _
  rw [run_modifyElement]
  cases topIndex (st.elems r) i <;> trivial

theorem rollback_pushBackVector (element : LimitedVector) :
    Rollback (Accounted k) (pushBackVector r element) := by
  by_cases h : element.owner = r
  · rw [pushBackVector_eq element h]
    exact rollback_pushBack _
  · intro st _
    rw [run_pushBackVector_of_ne element h]

theorem run_insert (position : Int) (element : LimitedVector) (st : LimitedStack) :
    (insert r position element).run st =
      if element.owner ≠ r then .error .invalidArgument st
      else if position ≥ 0 then .error .invalidArgument st
      else if ((st.elems r).length : Int) + position < 0 then .error .outOfRange st
      else if st.combinedStackSize + (element.element.length + ELEMENT_OVERHEAD) >
          st.maxStackSize then .error .stackOverflow st
      else .ok ⟨⟩ (({ st with combinedStackSize :=
        st.combinedStackSize + (element.element.length + ELEMENT_OVERHEAD) } :
          LimitedStack).setElems r ((st.elems r).insertIdx
            (((st.elems r).length : Int) + position).toNat element.element)) := by
  unfold insert
  by_cases h1 : element.owner ≠ r
  · rw [if_pos h1, if_pos h1]
    rfl
  · rw [if_neg h1, if_neg h1]
    by_cases h2 : position ≥ 0
    · rw [if_pos h2, if_pos h2]
      rfl
    · rw [if_neg h2, if_neg h2]
      simp only [EStateM.run_bind, EStateM.run_get]
      by_cases h3 : ((st.elems r).length : Int) + position < 0
      · rw [if_pos h3, if_pos h3]
        rfl
      · rw [if_neg h3, if_neg h3, EStateM.run_bind, run_increaseCombinedStackSize]
        split_ifs <;> rfl

theorem keeps_insert (position : Int) (element : LimitedVector) :
    Keeps (Accounted k) (insert r position element) := by
  intro st ⟨hc, hm⟩
  rw [run_insert]
  split_ifs with h1 h2 h3 h4
  · exact ⟨hc, hm⟩
  · exact ⟨hc, hm⟩
  · exact ⟨hc, hm⟩
  · exact ⟨hc, hm⟩
  · have hins := usage_insertIdx (l := st.elems r) element.element
      (i := (((st.elems r).length : Int) + position).toNat) (by omega)
    have hu := totalUsage_setElems
      ({ st with combinedStackSize :=
        st.combinedStackSize + (element.element.length + ELEMENT_OVERHEAD) } : LimitedStack) r
      ((st.elems r).insertIdx (((st.elems r).length : Int) + position).toNat element.element)
    simp only [elems_counter, totalUsage_counter] at hu
    exact ⟨by simp only [combinedStackSize_setElems]; omega,
      by simp only [combinedStackSize_setElems, maxStackSize_setElems]; omega⟩

theorem rollback_insert (position : Int) (element : LimitedVector) :
    Rollback (Accounted k) (insert r position element) := by
  intro st _
  rw [run_insert]
  split_ifs <;> trivial

theorem run_swapElements (index1 index2 : Nat) (st : LimitedStack) :
    (swapElements r index1 index2).run st =
      match (st.elems r)[index1]?, (st.elems r)[index2]? with
      | some a, some b => .ok ⟨⟩ (st.setElems r (((st.elems r).set index1 b).set index2 a))
      | _, _ => .error .outOfRange st := by
  simp only [swapElements, EStateM.run_bind, EStateM.run_get]
  cases (st.elems r)[index1]? <;> cases (st.elems r)[index2]? <;> rfl

theorem keeps_swapElements (index1 index2 : Nat) :
    Keeps (Accounted k) (swapElements r index1 index2) := by
  intro st ⟨hc, hm⟩
  rw [run_swapElements]
  cases h₁ : (st.elems r)[index1]? with
  | none => exact ⟨hc, hm⟩
  | some a =>
    cases h₂ : (st.elems r)[index2]? with
    | none => exact ⟨hc, hm⟩
    | some b =>
      obtain ⟨hlt₁, rfl⟩ := List.getElem?_eq_some_iff.mp h₁
      obtain ⟨hlt₂, rfl⟩ := List.getElem?_eq_some_iff.mp h₂
      have hswap := usage_swap hlt₁ hlt₂
      have hu := totalUsage_setElems st r
        (((st.elems r).set index1 (st.elems r)[index2]).set index2 (st.elems r)[index1])
      exact ⟨by simp only [combinedStackSize_setElems]; omega, by simpa using hm⟩

theorem rollback_swapElements (index1 index2 : Nat) :
    Rollback (Accounted k) (swapElements r index1 index2) := by
  intro st _
  rw [run_swapElements]
  cases (st.elems r)[index1]? <;> cases (st.elems r)[index2]? <;> trivial

theorem elems_setElems_of_ne (st : LimitedStack) {r other : StackRef} (h : r ≠ other)
    (l : List valtype) : (st.setElems r l).elems other = st.elems other := by
  cases r <;> cases other <;> first | rfl | exact absurd rfl h

theorem run_moveTopToStack (other : StackRef) (st : LimitedStack) :
    (moveTopToStack r other).run st =
      if r = other then .error .runtimeError st
      else match (st.elems other).getLast? with
        | none => .error .outOfRange st
        | some top => .ok ⟨⟩ ((st.setElems r (st.elems r ++ [top])).setElems other
            (st.elems other).dropLast) := by
  unfold moveTopToStack
  by_cases h : r = other
  · rw [if_pos h, if_pos h]
    rfl
  · rw [if_neg h, if_neg h]
    simp only [EStateM.run_bind, EStateM.run_get]
    cases (st.elems other).getLast? <;> rfl

theorem totalUsage_moveTop (st : LimitedStack) {r other : StackRef} (h : r ≠ other)
    {ys : List valtype} {top : valtype} (hl : st.elems other = ys ++ [top]) :
    totalUsage ((st.setElems r (st.elems r ++ [top])).setElems other (st.elems other).dropLast) =
      totalUsage st := by
  have h₁ := totalUsage_setElems st r (st.elems r ++ [top])
  have h₂ := totalUsage_setElems (st.setElems r (st.elems r ++ [top])) other
    (st.elems other).dropLast
  have hd := usage_dropLast hl
  rw [elems_setElems_of_ne st h] at h₂
  simp only [usage_append, usage_cons, usage_nil] at h₁
  omega

theorem keeps_moveTopToStack (other : StackRef) : Keeps (Accounted k) (moveTopToStack r other) := by
  intro st ⟨hc, hm⟩
  rw [run_moveTopToStack]
  split_ifs with h
  · exact ⟨hc, hm⟩
  · cases hlast : (st.elems other).getLast? with
    | none => exact ⟨hc, hm⟩
    | some top =>
      obtain ⟨ys, hys⟩ := List.getLast?_eq_some_iff.mp hlast
      dsimp only
      rw [Accounted, totalUsage_moveTop st h hys]
      simpa using ⟨hc, hm⟩

theorem rollback_moveTopToStack (other : StackRef) :
    Rollback (Accounted k) (moveTopToStack r other) := by
  intro st _
  rw [run_moveTopToStack]
  split_ifs
  · trivial
  · cases (st.elems other).getLast? <;> trivial

end LimitedStack

end TbcNode.Script
