import Mathlib.Data.List.Basic
import Mathlib.Data.List.Nodup
import TbcNode.Primitives.Transaction

/-! # The double-spend detector (`txn_double_spend_detector.cpp`)

`insertTxnInputs` appends a transaction's inputs to `mKnownSpends`, and `removeTxnInputs` erases as
many outpoints from its first input on. While the outpoints are the inputs of the registered
transactions in order (`Registered`), removal erases exactly them (`runOps_registered`).
-/

namespace TbcNode.Mempool

open TbcNode.Primitives

variable {Ptr : Type} [DecidableEq Ptr] (deref : Ptr → CTransaction)

/-- `CTxnDoubleSpendDetector`. -/
structure CTxnDoubleSpendDetector (Ptr : Type) where
  mKnownSpends : List COutPoint
  mKnownSpendsTx : List Ptr

def CTxnDoubleSpendDetector.empty : CTxnDoubleSpendDetector Ptr := ⟨[], []⟩

/-- The flags `insertTxnInputs` sets on the validation state. -/
inductive DoubleSpendFlag
  | MempoolConflictDetected
  | DoubleSpendDetected
  deriving DecidableEq, Repr

/-- The outpoints a transaction spends, in input order. -/
def prevouts (tx : CTransaction) : List COutPoint := tx.vin.map (·.prevout)

def isAnyOfInputsKnownNL (d : CTxnDoubleSpendDetector Ptr) (tx : CTransaction) : Bool :=
  tx.vin.any fun input => d.mKnownSpends.contains input.prevout

/-- `insertTxnInputs`, with the answer of `pool.CheckTxConflicts(ptx, isFinal)`: whether the
transaction was registered, the flag set on the validation state, and the detector after. -/
def insertTxnInputs (checkTxConflicts : Ptr → Bool → Bool) (d : CTxnDoubleSpendDetector Ptr)
    (ptx : Ptr) (isFinal : Bool) : Bool × Option DoubleSpendFlag × CTxnDoubleSpendDetector Ptr :=
  if (deref ptx).vin.isEmpty then (false, none, d)
  else if checkTxConflicts ptx isFinal then (false, some .MempoolConflictDetected, d)
  else if isAnyOfInputsKnownNL d (deref ptx) then (false, some .DoubleSpendDetected, d)
  else (true, none, ⟨d.mKnownSpends ++ prevouts (deref ptx), d.mKnownSpendsTx.insert ptx⟩)

/-- `removeTxnInputs`. The erased range starts where the first input is found; a range that does
not lie inside `mKnownSpends` is an error. -/
def removeTxnInputs (d : CTxnDoubleSpendDetector Ptr) (ptx : Ptr) :
    Except String (CTxnDoubleSpendDetector Ptr) :=
  match (deref ptx).vin with
  | [] => .ok d
  | input :: _ =>
    if ptx ∉ d.mKnownSpendsTx then .ok d
    else
      let it := d.mKnownSpends.idxOf input.prevout
      if it + (deref ptx).vin.length ≤ d.mKnownSpends.length then
        .ok ⟨d.mKnownSpends.take it ++ d.mKnownSpends.drop (it + (deref ptx).vin.length),
          d.mKnownSpendsTx.erase ptx⟩
      else .error "mKnownSpends.erase(it, it + tx.vin.size()): range outside the vector"

def clear (d : CTxnDoubleSpendDetector Ptr) : CTxnDoubleSpendDetector Ptr :=
  { d with mKnownSpends := [] }

/-- The calls made on the detector. -/
inductive DetectorOp (Ptr : Type)
  | insertTxnInputs (ptx : Ptr) (isFinal : Bool)
  | removeTxnInputs (ptx : Ptr)
  | clear

def DetectorOp.apply (checkTxConflicts : Ptr → Bool → Bool) :
    DetectorOp Ptr → CTxnDoubleSpendDetector Ptr → Except String (CTxnDoubleSpendDetector Ptr)
  | .insertTxnInputs ptx isFinal, d =>
    .ok (TbcNode.Mempool.insertTxnInputs deref checkTxConflicts d ptx isFinal).2.2
  | .removeTxnInputs ptx, d => TbcNode.Mempool.removeTxnInputs deref d ptx
  | .clear, d => .ok (TbcNode.Mempool.clear d)

def runOps (checkTxConflicts : Ptr → Bool → Bool) :
    List (DetectorOp Ptr) → CTxnDoubleSpendDetector Ptr →
      Except String (CTxnDoubleSpendDetector Ptr)
  | [], d => .ok d
  | op :: ops, d => do
    let d ← op.apply deref checkTxConflicts d
    runOps checkTxConflicts ops d

/-! ### The layout of the known spends -/

/-- The layout `removeTxnInputs` relies on: the known spends are the inputs of the registered
transactions `regs` in the order they were registered, with no outpoint twice; the set holds the
registered addresses, once each, and every registered transaction has an input. -/
structure Registered (regs : List Ptr) (d : CTxnDoubleSpendDetector Ptr) : Prop where
  spends : d.mKnownSpends = regs.flatMap fun p => prevouts (deref p)
  nodup : d.mKnownSpends.Nodup
  mem_tx : ∀ p, p ∈ d.mKnownSpendsTx ↔ p ∈ regs
  tx_nodup : d.mKnownSpendsTx.Nodup
  regs_nodup : regs.Nodup
  inputs : ∀ p ∈ regs, (deref p).vin ≠ []

variable {deref}

omit [DecidableEq Ptr] in
theorem isAnyOfInputsKnownNL_eq_false {d : CTxnDoubleSpendDetector Ptr} {tx : CTransaction} :
    isAnyOfInputsKnownNL d tx = false ↔ ∀ o ∈ prevouts tx, o ∉ d.mKnownSpends := by
  simp [isAnyOfInputsKnownNL, prevouts]

omit [DecidableEq Ptr] in
theorem Registered.mem_spends {regs : List Ptr} {d : CTxnDoubleSpendDetector Ptr}
    (h : Registered deref regs d) {p : Ptr} (hp : p ∈ regs) {o : COutPoint}
    (ho : o ∈ prevouts (deref p)) : o ∈ d.mKnownSpends := by
  rw [h.spends, List.mem_flatMap]
  exact ⟨p, hp, ho⟩

theorem insertTxnInputs_of_false {checkTxConflicts : Ptr → Bool → Bool}
    {d : CTxnDoubleSpendDetector Ptr} {ptx : Ptr} {isFinal : Bool}
    (hr : (insertTxnInputs deref checkTxConflicts d ptx isFinal).1 = false) :
    (insertTxnInputs deref checkTxConflicts d ptx isFinal).2.2 = d := by
  unfold insertTxnInputs at hr ⊢
  split_ifs at hr ⊢ <;> rfl

theorem insertTxnInputs_eq_true {checkTxConflicts : Ptr → Bool → Bool}
    {d : CTxnDoubleSpendDetector Ptr} {ptx : Ptr} {isFinal : Bool}
    (hr : (insertTxnInputs deref checkTxConflicts d ptx isFinal).1 = true) :
    (deref ptx).vin ≠ [] ∧ checkTxConflicts ptx isFinal = false ∧
      isAnyOfInputsKnownNL d (deref ptx) = false ∧
      (insertTxnInputs deref checkTxConflicts d ptx isFinal).2.2 =
        ⟨d.mKnownSpends ++ prevouts (deref ptx), d.mKnownSpendsTx.insert ptx⟩ := by
  unfold insertTxnInputs at hr ⊢
  split_ifs at hr ⊢ with hempty hconflict hany
  exact ⟨by simpa using hempty, by simpa using hconflict, by simpa using hany, rfl⟩

/-- A transaction with one input, spending output `n` of the transaction with the null id. -/
def spendOf (n : UInt32) : CTransaction :=
  ⟨1, [⟨⟨Vector.replicate 32 0, n⟩, [], 0xffffffff⟩], [], 0, Vector.replicate 32 0⟩

/-- Admission keeps the layout: the admitted transaction is registered last. -/
theorem Registered.insertTxnInputs {regs : List Ptr} {d : CTxnDoubleSpendDetector Ptr}
    (h : Registered deref regs d) (checkTxConflicts : Ptr → Bool → Bool) (ptx : Ptr)
    (isFinal : Bool) (hnodup : (prevouts (deref ptx)).Nodup) :
    Registered deref
      (if (insertTxnInputs deref checkTxConflicts d ptx isFinal).1 then regs ++ [ptx] else regs)
      (insertTxnInputs deref checkTxConflicts d ptx isFinal).2.2 := by
  cases hr : (TbcNode.Mempool.insertTxnInputs deref checkTxConflicts d ptx isFinal).1 with
  | false =>
    rw [if_neg Bool.false_ne_true, insertTxnInputs_of_false hr]
    exact h
  | true =>
    obtain ⟨hvin, -, hany, heq⟩ := insertTxnInputs_eq_true hr
    rw [if_pos rfl, heq]
    have hfresh := isAnyOfInputsKnownNL_eq_false.mp hany
    have hnew : ptx ∉ regs := fun hp => by
      obtain ⟨input, rest, hcons⟩ := List.exists_cons_of_ne_nil hvin
      have ho : input.prevout ∈ prevouts (deref ptx) := by simp [prevouts, hcons]
      exact hfresh _ ho (h.mem_spends hp ho)
    refine ⟨?_, ?_, fun p => ?_, ?_, ?_, fun p hp => ?_⟩
    · simp [h.spends]
    · exact List.nodup_append.mpr ⟨h.nodup, hnodup, fun a ha b hb hab => hfresh b hb (hab ▸ ha)⟩
    · simp [List.mem_insert_iff, h.mem_tx, or_comm]
    · exact h.tx_nodup.insert
    · refine List.nodup_append.mpr ⟨h.regs_nodup, List.nodup_singleton ptx, fun a ha b hb hab => ?_⟩
      rw [List.mem_singleton.mp hb] at hab
      exact hnew (hab ▸ ha)
    · rcases List.mem_append.mp hp with hp | hp
      · exact h.inputs p hp
      · rw [List.mem_singleton.mp hp]
        exact hvin

omit [DecidableEq Ptr] in
theorem Registered.split {regs : List Ptr} {d : CTxnDoubleSpendDetector Ptr}
    (h : Registered deref regs d) {ptx : Ptr} (hp : ptx ∈ regs) :
    ∃ A B, regs = A ++ ptx :: B ∧ ptx ∉ A ∧
      d.mKnownSpends = (A.flatMap fun p => prevouts (deref p)) ++
        (prevouts (deref ptx) ++ B.flatMap fun p => prevouts (deref p)) := by
  obtain ⟨A, B, rfl⟩ := List.append_of_mem hp
  have hA : ptx ∉ A := fun hmem =>
    (List.nodup_append.mp h.regs_nodup).2.2 ptx hmem ptx List.mem_cons_self rfl
  exact ⟨A, B, rfl, hA, by simp [h.spends]⟩

/-- Removal keeps the layout. It erases exactly the inputs of a registered transaction, inside
`mKnownSpends`, and changes nothing for one that is not registered. -/
theorem Registered.removeTxnInputs {regs : List Ptr} {d : CTxnDoubleSpendDetector Ptr}
    (h : Registered deref regs d) (ptx : Ptr) :
    ∃ d', removeTxnInputs deref d ptx = .ok d' ∧ Registered deref (regs.erase ptx) d' ∧
      (ptx ∈ regs → d'.mKnownSpends = d.mKnownSpends.filter fun o => o ∉ prevouts (deref ptx)) ∧
      (ptx ∉ regs → d' = d) := by
  by_cases hp : ptx ∈ regs
  · obtain ⟨A, B, hsplit, hA, hspends⟩ := h.split hp
    obtain ⟨input, rest, hcons⟩ := List.exists_cons_of_ne_nil (h.inputs ptx hp)
    have hnd := hspends ▸ h.nodup
    obtain ⟨-, hndP, hdisj⟩ := List.nodup_append.mp hnd
    have hdisjB := (List.nodup_append.mp hndP).2.2
    have hhead : input.prevout ∈ prevouts (deref ptx) := by simp [prevouts, hcons]
    have hidx : d.mKnownSpends.idxOf input.prevout =
        (A.flatMap fun p => prevouts (deref p)).length := by
      have hnotA : input.prevout ∉ A.flatMap fun p => prevouts (deref p) := fun hmem =>
        hdisj _ hmem _ (List.mem_append_left _ hhead) rfl
      rw [hspends, List.idxOf_append_of_notMem hnotA, prevouts, hcons, List.map_cons,
        List.cons_append, List.idxOf_cons_self, Nat.add_zero]
    have hlen : (deref ptx).vin.length = (prevouts (deref ptx)).length := by simp [prevouts]
    have herase : regs.erase ptx = A ++ B := by
      rw [hsplit, List.erase_append_right _ hA, List.erase_cons_head]
    refine ⟨⟨(A.flatMap fun p => prevouts (deref p)) ++ B.flatMap fun p => prevouts (deref p),
      d.mKnownSpendsTx.erase ptx⟩, ?_, ⟨?_, ?_, fun p => ?_, h.tx_nodup.erase ptx,
      h.regs_nodup.erase ptx, fun p hp' => h.inputs p (List.mem_of_mem_erase hp')⟩,
      fun _ => ?_, fun hn => absurd hp hn⟩
    · unfold TbcNode.Mempool.removeTxnInputs
      rw [hcons]
      dsimp only
      rw [if_neg (by simpa [h.mem_tx] using hp), ← hcons, hidx, hlen, if_pos (by simp [hspends]),
        hspends, List.take_left, List.drop_length_add_append, List.drop_left]
    · rw [herase, List.flatMap_append]
    · exact ((List.sublist_append_right _ _).append_left _).nodup hnd
    · rw [h.tx_nodup.mem_erase_iff, h.regs_nodup.mem_erase_iff, h.mem_tx]
    · rw [hspends, List.filter_append, List.filter_append,
        List.filter_eq_self.mpr fun a ha => by simpa using fun hP => hdisj a ha a (List.mem_append_left _ hP) rfl,
        List.filter_eq_nil_iff.mpr fun a ha => by simpa using ha,
        List.filter_eq_self.mpr fun a ha => by simpa using fun hP => hdisjB a hP a ha rfl, List.nil_append]
  · have hpt : ptx ∉ d.mKnownSpendsTx := by rwa [h.mem_tx]
    refine ⟨d, ?_, by rwa [List.erase_of_not_mem hp], fun hn => absurd hn hp, fun _ => rfl⟩
    unfold TbcNode.Mempool.removeTxnInputs
    split
    · rfl
    · rw [if_pos hpt]

theorem double_spend_detector_clear_failures :
    runOps (fun _ : Nat => spendOf 0) (fun _ _ => false)
        [.insertTxnInputs 0 true, .clear, .removeTxnInputs 0] .empty =
      .error "mKnownSpends.erase(it, it + tx.vin.size()): range outside the vector" ∧
    0 ∈ (clear (insertTxnInputs (fun _ : Nat => spendOf 0) (fun _ _ => false) .empty 0
      true).2.2).mKnownSpendsTx ∧
    (insertTxnInputs (fun _ : Nat => spendOf 0) (fun _ _ => false)
        (clear (insertTxnInputs (fun _ : Nat => spendOf 0) (fun _ _ => false) .empty 0 true).2.2)
        1 true).1 = true :=
  ⟨rfl, by decide, rfl⟩

end TbcNode.Mempool
