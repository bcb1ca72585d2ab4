import Mathlib.Data.List.Rotate
import TbcNode.Logic.Runs
import TbcNode.Mempool.Orphans

/-! # The collected outpoints of the orphan pool (`orphan_txns.cpp`)

`collectTxnOutpoints` drops the oldest outpoints by a `std::rotate` whose middle can pass the end,
undefined behaviour the model throws at (`collectTxnOutpoints_eq_error_iff`). The erasure by ids
relies on each transaction's outpoints standing together (`Grouped`), which the operations keep.
-/

namespace TbcNode.Mempool

open TbcNode.Primitives TbcNode.Logic

namespace COrphanTxns

/-- The outpoints of the outputs of `tx`, `COutPoint{txhash, (uint32_t)i}`. -/
def txnOutpoints (tx : CTransaction) : List COutPoint :=
  (List.range tx.vout.length).map fun i => ⟨tx.getId, UInt32.ofNat i⟩

/-- `collectTxnOutpoints`. `std::rotate` with its middle past the end is undefined, and the model
throws there. The oldest outpoints are rotated to the back and cut off by `resize`. -/
def collectTxnOutpoints (s : COrphanTxns) (tx : CTransaction) : Except String COrphanTxns :=
  let nTxOutpointsNum := tx.vout.length
  let add (collected : List COutPoint) : COrphanTxns :=
    { s with mCollectedOutpoints := collected ++ txnOutpoints tx }
  if s.mMaxCollectedOutpoints ≠ 0 ∧
      s.mCollectedOutpoints.length + nTxOutpointsNum > s.mMaxCollectedOutpoints then
    if nTxOutpointsNum < s.mMaxCollectedOutpoints then
      if nTxOutpointsNum ≤ s.mCollectedOutpoints.length then
        .ok (add ((s.mCollectedOutpoints.rotate nTxOutpointsNum).take
          (s.mCollectedOutpoints.length - nTxOutpointsNum)))
      else .error "std::rotate: middle past the end"
    else .ok (add [])
  else .ok (add s.mCollectedOutpoints)

/-- `setRetryTxns.insert`: the set is ordered by transaction id, so an input with the id of one
already there is not added. -/
def insertRetry (setRetryTxns : List CTxInputData) (d : CTxInputData) : List CTxInputData :=
  if setRetryTxns.any (·.tx.getId == d.tx.getId) then setRetryTxns else setRetryTxns ++ [d]

/-- The loop of `collectDependentTxnsForRetry` over the outpoints with dependent orphans: the
orphans of an outpoint are scheduled, the outpoints of the same parent that follow it are
shuffled and kept for a later call, and the loop goes on at the next parent. -/
def retryLoop (s : COrphanTxns)
    (shuffle : List (COutPoint × List uint256) → List (COutPoint × List uint256)) :
    List (COutPoint × List uint256) → List CTxInputData → List COutPoint →
      List CTxInputData × List COutPoint
  | [], setRetryTxns, kept => (setRetryTxns, kept)
  | (outpoint, orphans) :: rest, setRetryTxns, kept =>
    let setRetryTxns := orphans.foldl (fun acc mi =>
      match s.findNL mi with
      | some e => insertRetry acc e.pTxInputData
      | none => acc) setRetryTxns
    let txid := outpoint.txid
    let sameParent := rest.takeWhile (·.1.txid == txid)
    retryLoop s shuffle (rest.dropWhile (·.1.txid == txid)) setRetryTxns
      (kept ++ (shuffle sameParent).map (·.1))
termination_by l => l.length
decreasing_by
  have := List.length_dropWhile_le (fun x : COutPoint × List uint256 => x.1.txid == outpoint.txid)
    rest
  simp only [List.length_cons]
  omega

/-- `collectDependentTxnsForRetry`, with the permutation `std::shuffle` draws for the outpoints
kept of a parent; it returns the inputs to retry. -/
def collectDependentTxnsForRetry (s : COrphanTxns)
    (shuffle : List (COutPoint × List uint256) → List (COutPoint × List uint256)) :
    COrphanTxns × List CTxInputData :=
  if s.mCollectedOutpoints.isEmpty then (s, [])
  else if s.mOrphanTxns.isEmpty then ({ s with mCollectedOutpoints := [] }, [])
  else
    let vDependentOrphans := s.mCollectedOutpoints.filterMap fun o =>
      (s.mOrphanTxnsByPrev o).map (o, ·)
    let r := retryLoop s shuffle vDependentOrphans [] []
    ({ s with mCollectedOutpoints := r.2 }, r.1)

def eraseCollectedOutpoints (s : COrphanTxns) : COrphanTxns :=
  { s with mCollectedOutpoints := [] }

/-- One round of `eraseCollectedOutpointsFromTxns`: from the first outpoint of `txid` up to the
first after it of another transaction. -/
def eraseOutpointsOf (collected : List COutPoint) (txid : uint256) : List COutPoint :=
  let firstElem := collected.findIdx (·.txid == txid)
  if firstElem = collected.length then collected
  else
    let endOfRange := firstElem + (collected.drop firstElem).findIdx (·.txid != txid)
    collected.take firstElem ++ collected.drop endOfRange

def eraseCollectedOutpointsFromTxns (s : COrphanTxns) (vRemovedTxIds : List uint256) :
    COrphanTxns :=
  { s with mCollectedOutpoints := vRemovedTxIds.foldl eraseOutpointsOf s.mCollectedOutpoints }

/-- The operations on the collected outpoints. -/
inductive CollectOp
  | collectTxnOutpoints (tx : CTransaction)
  | collectDependentTxnsForRetry
      (shuffle : List (COutPoint × List uint256) → List (COutPoint × List uint256))
  | eraseCollectedOutpoints
  | eraseCollectedOutpointsFromTxns (vRemovedTxIds : List uint256)

/-- One operation; only an undefined rotate fails. -/
def applyCollectOp (s : COrphanTxns) : CollectOp → Except String COrphanTxns
  | .collectTxnOutpoints tx => s.collectTxnOutpoints tx
  | .collectDependentTxnsForRetry shuffle => .ok (s.collectDependentTxnsForRetry shuffle).1
  | .eraseCollectedOutpoints => .ok s.eraseCollectedOutpoints
  | .eraseCollectedOutpointsFromTxns vRemovedTxIds =>
    .ok (s.eraseCollectedOutpointsFromTxns vRemovedTxIds)

/-- A run of operations on the collected outpoints. -/
def runCollectOps (s : COrphanTxns) : List CollectOp → Except String COrphanTxns
  | [] => .ok s
  | op :: ops =>
    match s.applyCollectOp op with
    | .ok s => runCollectOps s ops
    | .error e => .error e

/-! ### Making room -/

theorem take_rotate {C : List COutPoint} {n : Nat} (h : n ≤ C.length) :
    (C.rotate n).take (C.length - n) = C.drop n := by
  rw [List.rotate_eq_drop_append_take h, List.take_left' (by simp)]

/-- `collectTxnOutpoints` fails exactly when it must make room for fewer outpoints than the bound
and the vector holds fewer than that. -/
theorem collectTxnOutpoints_eq_error_iff (s : COrphanTxns) (tx : CTransaction) :
    (∃ e, s.collectTxnOutpoints tx = .error e) ↔
      s.mMaxCollectedOutpoints ≠ 0 ∧
        s.mCollectedOutpoints.length + tx.vout.length > s.mMaxCollectedOutpoints ∧
        tx.vout.length < s.mMaxCollectedOutpoints ∧ s.mCollectedOutpoints.length < tx.vout.length := by
  unfold collectTxnOutpoints
  dsimp only
  split_ifs with hroom hfew hfits
  · exact ⟨fun ⟨_, h⟩ => (nomatch h), fun h => absurd hfits (by omega)⟩
  · exact ⟨fun _ => ⟨hroom.1, hroom.2, hfew, by omega⟩, fun _ => ⟨_, rfl⟩⟩
  · exact ⟨fun ⟨_, h⟩ => (nomatch h), fun h => absurd h.2.2.1 hfew⟩
  · exact ⟨fun ⟨_, h⟩ => (nomatch h), fun h => absurd ⟨h.1, h.2.1⟩ hroom⟩

/-- When it succeeds, `collectTxnOutpoints` keeps a suffix of the vector, the oldest outpoints
dropped, and appends the new ones; it stays within the bound, or the size of the transaction, if
it was within the bound before. -/
theorem collectTxnOutpoints_eq_ok {s s' : COrphanTxns} {tx : CTransaction}
    (h : s.collectTxnOutpoints tx = .ok s') :
    ∃ k, s' = { s with mCollectedOutpoints := s.mCollectedOutpoints.drop k ++ txnOutpoints tx } ∧
      (s.mCollectedOutpoints.length ≤ s.mMaxCollectedOutpoints →
        s'.mCollectedOutpoints.length ≤ max s.mMaxCollectedOutpoints tx.vout.length) := by
  have hlen : (txnOutpoints tx).length = tx.vout.length := by simp [txnOutpoints]
  unfold collectTxnOutpoints at h
  dsimp only at h
  split_ifs at h with hroom hfew hfits
  · obtain rfl := Except.ok.inj h
    refine ⟨tx.vout.length, by rw [take_rotate hfits], fun _ => ?_⟩
    simp only [List.length_append, List.length_take, List.length_rotate, hlen]
    omega
  · obtain rfl := Except.ok.inj h
    refine ⟨s.mCollectedOutpoints.length, by rw [List.drop_length], fun _ => ?_⟩
    simp only [List.nil_append, hlen]
    omega
  · obtain rfl := Except.ok.inj h
    refine ⟨0, by rw [List.drop_zero], fun hle => ?_⟩
    simp only [List.length_append, hlen]
    by_cases hmax : s.mMaxCollectedOutpoints = 0
    · omega
    · have := not_and.mp hroom hmax
      omega

/-! ### The outpoints of one transaction stand together -/

/-- The outpoints of each transaction form one run of `mCollectedOutpoints`, as the erasure
assumes. -/
def Grouped (C : List COutPoint) : Prop := ∀ txid, OneRun (·.txid == txid) C

theorem Grouped.sublist {C C' : List COutPoint} (h : Grouped C) (hs : C'.Sublist C) :
    Grouped C' :=
  fun txid => (h txid).sublist hs

theorem Grouped.append_fresh {C F : List COutPoint} {t : uint256} (h : Grouped C)
    (hF : ∀ o ∈ F, o.txid = t) (hC : ∀ o ∈ C, o.txid ≠ t) : Grouped (C ++ F) := by
  intro txid
  by_cases ht : t = txid
  · subst ht
    exact (h t).append (oneRun_of_forall (.inl fun o ho => by simp [hF o ho]))
      (.inl fun o ho => by simp [hC o ho])
  · exact (h txid).append (oneRun_of_forall (.inr fun o ho => by simp [hF o ho, ht]))
      (.inr fun o ho => by simp [hF o ho, ht])

/-- Collecting a transaction none of whose outpoints is collected keeps the outpoints of each
transaction together. -/
theorem Grouped.collectTxnOutpoints {s s' : COrphanTxns} {tx : CTransaction}
    (h : Grouped s.mCollectedOutpoints) (hfresh : ∀ o ∈ s.mCollectedOutpoints, o.txid ≠ tx.getId)
    (hok : s.collectTxnOutpoints tx = .ok s') : Grouped s'.mCollectedOutpoints := by
  obtain ⟨k, rfl, -⟩ := collectTxnOutpoints_eq_ok hok
  exact (h.sublist (List.drop_sublist k _)).append_fresh (t := tx.getId)
    (fun o ho => by simp only [txnOutpoints, List.mem_map] at ho; obtain ⟨_, _, rfl⟩ := ho; rfl)
    (fun o ho => hfresh o ((List.drop_sublist k _).subset ho))

theorem grouped_retryLoop (s : COrphanTxns)
    {shuffle : List (COutPoint × List uint256) → List (COutPoint × List uint256)}
    (hshuffle : ∀ l, (shuffle l).Perm l) (l : List (COutPoint × List uint256))
    (r : List CTxInputData) (kept : List COutPoint)
    (hl : ∀ txid, OneRun (fun x : COutPoint × List uint256 => x.1.txid == txid) l)
    (hkept : Grouped kept) (hdisj : ∀ o ∈ kept, ∀ x ∈ l, o.txid ≠ x.1.txid) :
    Grouped (retryLoop s shuffle l r kept).2 := by
  induction hn : l.length using Nat.strong_induction_on generalizing l r kept with
  | _ n ih =>
  match l, hl, hdisj, hn with
  | [], _, _, _ => simpa [retryLoop] using hkept
  | (outpoint, orphans) :: rest, hl, hdisj, hn =>
    rw [retryLoop]
    have hafter : ∀ y ∈ rest.dropWhile (·.1.txid == outpoint.txid), y.1.txid ≠ outpoint.txid := by
      intro y hy
      have := (hl outpoint.txid).forall_after y
      simp only [List.dropWhile_cons, beq_self_eq_true, Bool.not_true, Bool.false_eq_true,
        if_false, if_true] at this
      simpa using this hy
    have hblock : ∀ o ∈ (shuffle (rest.takeWhile (·.1.txid == outpoint.txid))).map (·.1),
        o.txid = outpoint.txid := by
      intro o ho
      obtain ⟨x, hx, rfl⟩ := List.mem_map.mp ho
      simpa using List.mem_takeWhile_imp ((hshuffle _).mem_iff.mp hx)
    have hrest : (rest.dropWhile (·.1.txid == outpoint.txid)).Sublist ((outpoint, orphans) :: rest) :=
      (List.dropWhile_sublist _).trans (List.sublist_cons_self _ _)
    have hlt : (rest.dropWhile (·.1.txid == outpoint.txid)).length < n := by
      have := List.length_dropWhile_le (fun x : COutPoint × List uint256 => x.1.txid == outpoint.txid)
        rest
      simp only [List.length_cons] at hn
      omega
    apply ih _ hlt _ _ _ (fun t => (hl t).sublist hrest) _ _ rfl
    · exact hkept.append_fresh hblock
        (fun o ho => hdisj o ho (outpoint, orphans) List.mem_cons_self)
    · intro o ho y hy
      rcases List.mem_append.mp ho with ho | ho
      · exact hdisj o ho y (hrest.subset hy)
      · rw [hblock o ho]
        exact (hafter y hy).symm

theorem map_fst_dependents (byPrev : COutPoint → Option (List uint256)) (C : List COutPoint) :
    (C.filterMap fun o => (byPrev o).map (o, ·)).map (·.1) = C.filter fun o => (byPrev o).isSome := by
  induction C with
  | nil => rfl
  | cons o C ih =>
    rw [List.filterMap_cons, List.filter_cons]
    cases byPrev o with
    | none => simpa using ih
    | some set => simpa using ih

/-- Scheduling the dependent orphans keeps the outpoints of each transaction together, whatever
permutations the shuffles draw. -/
theorem Grouped.collectDependentTxnsForRetry {s : COrphanTxns}
    {shuffle : List (COutPoint × List uint256) → List (COutPoint × List uint256)}
    (hshuffle : ∀ l, (shuffle l).Perm l) (h : Grouped s.mCollectedOutpoints) :
    Grouped (s.collectDependentTxnsForRetry shuffle).1.mCollectedOutpoints := by
  unfold COrphanTxns.collectDependentTxnsForRetry
  split_ifs
  · exact h
  · exact fun _ => oneRun_of_forall (.inl fun _ h => absurd h List.not_mem_nil)
  · apply grouped_retryLoop s hshuffle _ [] []
    · intro txid
      apply OneRun.of_map (p := fun o : COutPoint => o.txid == txid) (f := Prod.fst)
      rw [map_fst_dependents]
      exact (h txid).sublist List.filter_sublist
    · exact fun _ => oneRun_of_forall (.inl fun _ h => absurd h List.not_mem_nil)
    · exact fun _ h => absurd h List.not_mem_nil

theorem eraseOutpointsOf_eq (C : List COutPoint) (txid : uint256) :
    eraseOutpointsOf C txid = eraseFirstRun (·.txid == txid) C := by
  unfold eraseOutpointsOf eraseFirstRun
  dsimp only
  have htake : C.takeWhile (fun x => !(x.txid == txid)) = C.take (C.findIdx (·.txid == txid)) := by
    rw [List.takeWhile_eq_take_findIdx_not]
    simp only [Bool.not_not]
  have hdrop : C.dropWhile (fun x => !(x.txid == txid)) = C.drop (C.findIdx (·.txid == txid)) := by
    rw [List.dropWhile_eq_drop_findIdx_not]
    simp only [Bool.not_not]
  rw [htake, hdrop, List.dropWhile_eq_drop_findIdx_not, List.drop_drop]
  split_ifs with hend
  · rw [hend, List.take_length, List.drop_length]
    simp
  · rfl

/-- With the outpoints of each transaction together, erasing the outpoints of a list of ids
erases all of them and keeps the others in order. -/
theorem Grouped.eraseCollectedOutpointsFromTxns {s : COrphanTxns} (h : Grouped s.mCollectedOutpoints)
    (vRemovedTxIds : List uint256) :
    (s.eraseCollectedOutpointsFromTxns vRemovedTxIds).mCollectedOutpoints =
      s.mCollectedOutpoints.filter (fun o => o.txid ∉ vRemovedTxIds) := by
  unfold COrphanTxns.eraseCollectedOutpointsFromTxns
  dsimp only
  generalize s.mCollectedOutpoints = C at h
  induction vRemovedTxIds generalizing C with
  | nil => simp
  | cons t ids ih =>
    rw [List.foldl_cons, eraseOutpointsOf_eq, eraseFirstRun_eq_filter (h t),
      ih _ (h.sublist List.filter_sublist), List.filter_filter]
    apply List.filter_congr
    intro o _
    rw [Bool.and_comm, beq_eq_decide]
    simp only [List.mem_cons, not_or, Bool.decide_and, decide_not]

/-! ### Three histories from a new pool -/

def sampleTxWithOutputs (b : UInt8) (n : Nat) : CTransaction :=
  ⟨1, [], List.replicate n ⟨0, []⟩, 0, Vector.replicate 32 b⟩

/-- From a new pool with room for ten outpoints: three outpoints and then eight reach the rotate
with its middle past the end; twenty and then three leave twenty, more than the bound and than the
second transaction; and a transaction collected twice around another keeps an outpoint after its
outpoints are erased. -/
theorem collected_outpoints_failures :
    (new 10 0 0).runCollectOps [.collectTxnOutpoints (sampleTxWithOutputs 1 3),
      .collectTxnOutpoints (sampleTxWithOutputs 2 8)] = .error "std::rotate: middle past the end" ∧
    (∃ s, (new 10 0 0).runCollectOps [.collectTxnOutpoints (sampleTxWithOutputs 1 20),
      .collectTxnOutpoints (sampleTxWithOutputs 2 3)] = .ok s ∧
      s.mCollectedOutpoints.length = 20) ∧
    (∃ s, (new 10 0 0).runCollectOps [.collectTxnOutpoints (sampleTxWithOutputs 1 1),
      .collectTxnOutpoints (sampleTxWithOutputs 2 1), .collectTxnOutpoints (sampleTxWithOutputs 1 1),
      .eraseCollectedOutpointsFromTxns [(sampleTxWithOutputs 1 1).getId]] = .ok s ∧
      ∃ o ∈ s.mCollectedOutpoints, o.txid = (sampleTxWithOutputs 1 1).getId) :=
  ⟨rfl, ⟨_, rfl, rfl⟩, ⟨_, rfl, ⟨(sampleTxWithOutputs 1 1).getId, 0⟩, by decide, rfl⟩⟩

end COrphanTxns

end TbcNode.Mempool
