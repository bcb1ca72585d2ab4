import Mathlib
import TbcNode.Logic.Sequence
import TbcNode.Primitives.Transaction

/-! # The orphan pool (`orphan_txns.h`, `orphan_txns.cpp`)

`COrphanTxns` keeps the orphans by id and, for each outpoint, the orphans that spend it.
`Consistent` says the second is the index of the first; every operation keeps it
(`consistent_runOps`), and `limitTxnsSize` ends within its limit (`Consistent.evictLoop`).
-/

namespace TbcNode.Mempool

open TbcNode.Primitives

/-- `TxSource`. -/
inductive TxSource
  | unknown
  | file
  | reorg
  | wallet
  | rpc
  | p2p
  | finalised
  deriving DecidableEq, Repr

/-- `NodeId`. -/
abbrev NodeId := Int

/-- `CTxInputData`, by what the orphan pool reads: the transaction, its source, the id of the peer
that sent it while that peer is still there (`GetNodePtr().lock()`), and the orphan mark. -/
structure CTxInputData where
  tx : CTransaction
  txSource : TxSource
  node : Option NodeId
  orphan : Bool
  deriving DecidableEq, Repr

/-- `COrphanTxnEntry`. -/
structure COrphanTxnEntry where
  pTxInputData : CTxInputData
  nTimeExpire : Int
  size : Nat
  deriving DecidableEq, Repr

namespace COrphanTxnEntry

/-- The key of the entry in `mOrphanTxns`: the id of its transaction. -/
def txid (e : COrphanTxnEntry) : uint256 := e.pTxInputData.tx.getId

/-- The outpoints the transaction of the entry spends. -/
def prevouts (e : COrphanTxnEntry) : List COutPoint := e.pTxInputData.tx.vin.map (·.prevout)

end COrphanTxnEntry

def ORPHAN_TX_EXPIRE_TIME : Int := 20 * 60

def ORPHAN_TX_EXPIRE_INTERVAL : Int := 5 * 60

/-- `base_blob::operator<`: the bytes compared by `memcmp`. -/
def idLt (a b : uint256) : Bool := decide (a.toList < b.toList)

/-- `COrphanTxns`, without its mutexes and its random generator. -/
structure COrphanTxns where
  mOrphanTxns : List COrphanTxnEntry
  mOrphanTxnsByPrev : COutPoint → Option (List uint256)
  mCollectedOutpoints : List COutPoint
  mMaxCollectedOutpoints : Nat
  mExtraTxnsForCompact : List (uint256 × Option CTransaction)
  mExtraTxnsForCompactIdx : Nat
  mMaxExtraTxnsForCompactBlock : Nat
  mMaxStandardTxSize : Nat
  mNextSweep : Int

namespace COrphanTxns

def new (maxCollectedOutpoints maxExtraTxnsForCompactBlock maxTxSizePolicy : Nat) : COrphanTxns where
  mOrphanTxns := []
  mOrphanTxnsByPrev := fun _ => none
  mCollectedOutpoints := []
  mMaxCollectedOutpoints := maxCollectedOutpoints
  mExtraTxnsForCompact := []
  mExtraTxnsForCompactIdx := 0
  mMaxExtraTxnsForCompactBlock := maxExtraTxnsForCompactBlock
  mMaxStandardTxSize := maxTxSizePolicy
  mNextSweep := 0

section Model

variable (getTotalSize : CTransaction → Nat)

def findNL (s : COrphanTxns) (hash : uint256) : Option COrphanTxnEntry :=
  s.mOrphanTxns.find? (·.txid == hash)

def checkTxnExistsNL (s : COrphanTxns) (txHash : uint256) : Bool :=
  (s.findNL txHash).isSome

def checkTxnExists (s : COrphanTxns) (prevout : COutPoint) : Bool :=
  (s.mOrphanTxnsByPrev prevout).isSome

/-- `getTxnsHash`: the hashes of the transactions of the set of `prevout`. -/
def getTxnsHash (s : COrphanTxns) (prevout : COutPoint) : List uint256 :=
  match s.mOrphanTxnsByPrev prevout with
  | none => []
  | some set => set.filterMap fun mi => (s.findNL mi).map (·.pTxInputData.tx.hash)

/-- One round of the loop of `eraseTxnNL`: `hash` leaves the set of `prevout`, and the set is
erased once empty. -/
def eraseFromPrevNL (hash : uint256) (m : COutPoint → Option (List uint256)) (prevout : COutPoint) :
    COutPoint → Option (List uint256) :=
  match m prevout with
  | none => m
  | some set =>
    let set := set.erase hash
    if set.isEmpty then Function.update m prevout none else Function.update m prevout (some set)

/-- `eraseTxnNL`, with the number of entries it erased. -/
def eraseTxnNL (s : COrphanTxns) (hash : uint256) : COrphanTxns × Nat :=
  match s.findNL hash with
  | none => (s, 0)
  | some it =>
    ({ s with
      mOrphanTxnsByPrev := it.pTxInputData.tx.vin.foldl
        (fun m txin => eraseFromPrevNL hash m txin.prevout) s.mOrphanTxnsByPrev
      mOrphanTxns := s.mOrphanTxns.erase it }, 1)

/-- `addToCompactExtraTxnsNL`: the ring buffer of extra transactions for block reconstruction,
sized on first use. -/
def addToCompactExtraTxnsNL (s : COrphanTxns) (tx : CTransaction) : COrphanTxns :=
  if s.mMaxExtraTxnsForCompactBlock = 0 then s
  else
    let extra := if s.mExtraTxnsForCompact.length = 0 then
        Logic.resize s.mExtraTxnsForCompact s.mMaxExtraTxnsForCompactBlock
          (Vector.replicate 32 0, none)
      else s.mExtraTxnsForCompact
    { s with
      mExtraTxnsForCompact := extra.set s.mExtraTxnsForCompactIdx (tx.getId, some tx)
      mExtraTxnsForCompactIdx :=
        (s.mExtraTxnsForCompactIdx + 1) % s.mMaxExtraTxnsForCompactBlock }

/-- One round of the loop of `addTxn`: `mOrphanTxnsByPrev[prevout].insert(txid)`. -/
def insertIntoPrev (txid : uint256) (m : COutPoint → Option (List uint256)) (prevout : COutPoint) :
    COutPoint → Option (List uint256) :=
  Function.update m prevout (some (((m prevout).getD []).insert txid))

/-- `addTxn` at time `nNow`: a transaction already held, and one from a peer above the standard
size, are ignored. `SetOrphanTxn` marks the shared input data before the checks. -/
def addTxn (s : COrphanTxns) (pTxInputData : Option CTxInputData) (nNow : Int) : COrphanTxns :=
  match pTxInputData with
  | none => s
  | some p =>
    let p := { p with orphan := true }
    let tx := p.tx
    let txid := tx.getId
    if s.checkTxnExistsNL txid then s
    else
      let sz := getTotalSize tx
      let stored (s : COrphanTxns) : COrphanTxns :=
        { s with
          mOrphanTxns := s.mOrphanTxns ++ [⟨p, nNow + ORPHAN_TX_EXPIRE_TIME, sz⟩]
          mOrphanTxnsByPrev := tx.vin.foldl (fun m txin => insertIntoPrev txid m txin.prevout)
            s.mOrphanTxnsByPrev }
      if p.txSource = .p2p then
        if sz > s.mMaxStandardTxSize then s else stored (s.addToCompactExtraTxnsNL tx)
      else stored s

/-- `eraseTxnsFromPeer`: every entry sent by `peer`, in the order of the map. -/
def eraseTxnsFromPeer (s : COrphanTxns) (peer : NodeId) : COrphanTxns :=
  s.mOrphanTxns.foldl (fun s e =>
    if e.pTxInputData.node = some peer then (s.eraseTxnNL e.pTxInputData.tx.getId).1 else s) s

def eraseTxns (s : COrphanTxns) : COrphanTxns :=
  { s with mOrphanTxns := [], mOrphanTxnsByPrev := fun _ => none }

/-- The entry of least id, as `begin()` of a map by id. -/
def leastById (entries : List COrphanTxnEntry) : Option COrphanTxnEntry :=
  entries.foldl (fun best e => some (match best with
    | none => e
    | some b => if idLt e.txid b.txid then e else b)) none

/-- `lower_bound(key)`, and `begin()` when it is the end. -/
def pickByLowerBound (entries : List COrphanTxnEntry) (key : uint256) : Option COrphanTxnEntry :=
  (leastById (entries.filter fun e => !idLt e.txid key)).or (leastById entries)

/-- The locals of the sweep of `limitTxnsSize`. -/
structure SweepState where
  pool : COrphanTxns
  nOrphanTxnsSize : Nat
  nMinExpTime : Int
  nErasedTimeLimit : Nat

/-- One round of the sweep of `limitTxnsSize` at time `nNow`, on the entry `e`. -/
def sweepRound (nNow : Int) (st : SweepState) (e : COrphanTxnEntry) : SweepState :=
  let txSize := e.size
  if st.pool.mNextSweep ≤ nNow then
    if e.nTimeExpire ≤ nNow then
      let erased := st.pool.eraseTxnNL e.pTxInputData.tx.getId
      { st with pool := erased.1, nErasedTimeLimit := st.nErasedTimeLimit + erased.2 }
    else
      { st with nMinExpTime := min e.nTimeExpire st.nMinExpTime
                nOrphanTxnsSize := st.nOrphanTxnsSize + txSize }
  else { st with nOrphanTxnsSize := st.nOrphanTxnsSize + txSize }

/-- The random eviction of `limitTxnsSize`, with fuel for its rounds; round `nEvicted` looks up
the random hash `randHash nEvicted`. Dereferencing `begin()` of an empty map is undefined, and the
model throws there. -/
def evictLoop (nMaxOrphanTxnsSize : Nat) (randHash : Nat → uint256) :
    Nat → COrphanTxns → Nat → Nat → Except String (COrphanTxns × Nat)
  | 0, s, _, nEvicted => .ok (s, nEvicted)
  | fuel + 1, s, nOrphanTxnsSize, nEvicted =>
    if nOrphanTxnsSize > nMaxOrphanTxnsSize then
      match pickByLowerBound s.mOrphanTxns (randHash nEvicted) with
      | none => .error "mOrphanTxns.begin() of an empty map"
      | some it =>
        let txTotalSize := getTotalSize it.pTxInputData.tx
        let nOrphanTxnsSize :=
          if txTotalSize ≥ nOrphanTxnsSize then 0 else nOrphanTxnsSize - txTotalSize
        evictLoop nMaxOrphanTxnsSize randHash fuel (s.eraseTxnNL it.txid).1 nOrphanTxnsSize
          (nEvicted + 1)
    else .ok (s, nEvicted)

/-- The sweep of `limitTxnsSize` at time `nNow` over the entries, and then, if it was due, the
time of the next one. -/
def sweep (s : COrphanTxns) (nNow : Int) : SweepState :=
  let st := s.mOrphanTxns.foldl (sweepRound nNow)
    ⟨s, 0, nNow + ORPHAN_TX_EXPIRE_TIME - ORPHAN_TX_EXPIRE_INTERVAL, 0⟩
  if s.mNextSweep ≤ nNow then
    { st with pool := { st.pool with mNextSweep := st.nMinExpTime + ORPHAN_TX_EXPIRE_INTERVAL } }
  else st

/-- `limitTxnsSize` at time `nNow`: the sweep and then, unless skipped, the random eviction, with
as many rounds as entries; it returns the number of entries evicted. -/
def limitTxnsSize (s : COrphanTxns) (nMaxOrphanTxnsSize : Nat) (fSkipRndEviction : Bool)
    (nNow : Int) (randHash : Nat → uint256) : Except String (COrphanTxns × Nat) :=
  let st := s.sweep nNow
  if fSkipRndEviction then .ok (st.pool, 0)
  else evictLoop getTotalSize nMaxOrphanTxnsSize randHash st.pool.mOrphanTxns.length st.pool
    st.nOrphanTxnsSize 0

end Model

/-! ### Lookups and the index of spent outpoints -/

section Index

variable {s : COrphanTxns}

theorem findNL_eq_some {hash : uint256} {e : COrphanTxnEntry} (h : s.findNL hash = some e) :
    e ∈ s.mOrphanTxns ∧ e.txid = hash :=
  ⟨List.mem_of_find?_eq_some h, by simpa using List.find?_some h⟩

theorem findNL_eq_none {hash : uint256} : s.findNL hash = none ↔ ∀ e ∈ s.mOrphanTxns, e.txid ≠ hash := by
  simp [findNL, List.find?_eq_none]

theorem findNL_of_mem (hnodup : (s.mOrphanTxns.map (·.txid)).Nodup) {e : COrphanTxnEntry}
    (he : e ∈ s.mOrphanTxns) : s.findNL e.txid = some e := by
  cases hf : s.findNL e.txid with
  | none => exact absurd rfl (findNL_eq_none.mp hf e he)
  | some x =>
    obtain ⟨hx, hxid⟩ := findNL_eq_some hf
    rw [List.inj_on_of_nodup_map hnodup hx he hxid]

theorem getD_eraseFromPrevNL (hash : uint256) (m : COutPoint → Option (List uint256))
    (p o : COutPoint) :
    ((eraseFromPrevNL hash m p) o).getD [] =
      if o = p then ((m o).getD []).erase hash else (m o).getD [] := by
  unfold eraseFromPrevNL
  by_cases ho : o = p
  · subst ho
    cases hp : m o with
    | none => simp [hp]
    | some set =>
      simp only [Option.getD_some, if_true]
      split_ifs with hemp
      · rw [Function.update_self]
        exact (List.isEmpty_iff.mp hemp).symm
      · rw [Function.update_self]
        rfl
  · rw [if_neg ho]
    cases m p with
    | none => rfl
    | some set =>
      dsimp only
      split_ifs <;> rw [Function.update_of_ne ho]

theorem eraseFromPrevNL_ne_nil (hash : uint256) {m : COutPoint → Option (List uint256)}
    (hm : ∀ o, m o ≠ some []) (p o : COutPoint) : eraseFromPrevNL hash m p o ≠ some [] := by
  unfold eraseFromPrevNL
  cases m p with
  | none => exact hm o
  | some set =>
    dsimp only
    split_ifs with hemp
    · rw [Function.update_apply]
      split
      · exact fun h => by simp at h
      · exact hm o
    · rw [Function.update_apply]
      split
      · intro h
        exact hemp (List.isEmpty_iff.mpr (Option.some.inj h))
      · exact hm o

theorem foldl_eraseFromPrevNL (hash : uint256) (vin : List CTxIn) :
    ∀ m : COutPoint → Option (List uint256), (∀ o, ((m o).getD []).Nodup) → (∀ o, m o ≠ some []) →
      let m' := vin.foldl (fun m txin => eraseFromPrevNL hash m txin.prevout) m
      (∀ o, (m' o).getD [] =
        if o ∈ vin.map (·.prevout) then ((m o).getD []).erase hash else (m o).getD []) ∧
      (∀ o, ((m' o).getD []).Nodup) ∧ (∀ o, m' o ≠ some []) := by
  induction vin with
  | nil => exact fun m hnd hne => ⟨fun o => by simp, hnd, hne⟩
  | cons txin vin ih =>
    intro m hnd hne
    have hnd₁ : ∀ o, ((eraseFromPrevNL hash m txin.prevout o).getD []).Nodup := by
      intro o
      rw [getD_eraseFromPrevNL]
      split
      · exact (hnd o).erase hash
      · exact hnd o
    obtain ⟨heq, hnd', hne'⟩ := ih _ hnd₁ (eraseFromPrevNL_ne_nil hash hne txin.prevout)
    refine ⟨fun o => ?_, hnd', hne'⟩
    rw [List.foldl_cons, heq, getD_eraseFromPrevNL]
    by_cases hp : o = txin.prevout
    · have hgone : hash ∉ ((m o).getD []).erase hash := (hnd o).not_mem_erase
      simp only [hp, if_true, List.map_cons, List.mem_cons, true_or]
      split
      · exact List.erase_of_not_mem (hp ▸ hgone)
      · rfl
    · simp [hp]

theorem foldl_insertIntoPrev (txid : uint256) (vin : List CTxIn) :
    ∀ (m : COutPoint → Option (List uint256)) (o : COutPoint),
      vin.foldl (fun m txin => insertIntoPrev txid m txin.prevout) m o =
        if o ∈ vin.map (·.prevout) then some (((m o).getD []).insert txid) else m o := by
  induction vin with
  | nil => exact fun m o => by simp
  | cons txin vin ih =>
    intro m o
    rw [List.foldl_cons, ih]
    by_cases hp : o = txin.prevout
    · simp only [insertIntoPrev, hp, Function.update_self, Option.getD_some, List.map_cons,
        List.mem_cons, true_or, if_true, List.insert_of_mem List.mem_insert_self, ite_self]
    · simp [insertIntoPrev, hp]

end Index

/-! ### The invariant -/

variable (getTotalSize : CTransaction → Nat)

/-- `mOrphanTxnsByPrev` is the index of `mOrphanTxns` by spent outpoint: the set of an outpoint
holds the ids of the entries spending it, without repeats, and no set is empty; and every entry
records the size of its transaction. -/
structure Consistent (s : COrphanTxns) : Prop where
  nodup : (s.mOrphanTxns.map (·.txid)).Nodup
  byPrev : ∀ o h, h ∈ (s.mOrphanTxnsByPrev o).getD [] ↔
    ∃ e ∈ s.mOrphanTxns, e.txid = h ∧ o ∈ e.prevouts
  nonempty : ∀ o, s.mOrphanTxnsByPrev o ≠ some []
  set_nodup : ∀ o, ((s.mOrphanTxnsByPrev o).getD []).Nodup
  size : ∀ e ∈ s.mOrphanTxns, e.size = getTotalSize e.pTxInputData.tx

variable {getTotalSize}

theorem consistent_new (maxCollectedOutpoints maxExtraTxnsForCompactBlock maxTxSizePolicy : Nat) :
    Consistent getTotalSize (new maxCollectedOutpoints maxExtraTxnsForCompactBlock maxTxSizePolicy) where
  nodup := List.nodup_nil
  byPrev _ _ := by simp [new]
  nonempty _ h := by simp [new] at h
  set_nodup _ := List.nodup_nil
  size _ h := absurd h List.not_mem_nil

section Erase

variable {s : COrphanTxns}

theorem Consistent.nodup_entries (h : Consistent getTotalSize s) : s.mOrphanTxns.Nodup :=
  h.nodup.of_map _

theorem Consistent.eq_of_txid (h : Consistent getTotalSize s) {x y : COrphanTxnEntry}
    (hx : x ∈ s.mOrphanTxns) (hy : y ∈ s.mOrphanTxns) (hxy : x.txid = y.txid) : x = y :=
  List.inj_on_of_nodup_map h.nodup hx hy hxy

theorem eraseTxnNL_of_mem (h : Consistent getTotalSize s) {e : COrphanTxnEntry}
    (he : e ∈ s.mOrphanTxns) : (s.eraseTxnNL e.txid).1.mOrphanTxns = s.mOrphanTxns.erase e := by
  simp only [eraseTxnNL, findNL_of_mem h.nodup he]

@[simp] theorem eraseTxnNL_mNextSweep (s : COrphanTxns) (hash : uint256) :
    (s.eraseTxnNL hash).1.mNextSweep = s.mNextSweep := by
  unfold eraseTxnNL
  split <;> rfl

@[simp] theorem eraseTxnNL_mCollectedOutpoints (s : COrphanTxns) (hash : uint256) :
    (s.eraseTxnNL hash).1.mCollectedOutpoints = s.mCollectedOutpoints := by
  unfold eraseTxnNL
  split <;> rfl

theorem Consistent.mem_eraseTxnNL (h : Consistent getTotalSize s) (hash : uint256)
    (x : COrphanTxnEntry) :
    x ∈ (s.eraseTxnNL hash).1.mOrphanTxns ↔ x ∈ s.mOrphanTxns ∧ x.txid ≠ hash := by
  unfold eraseTxnNL
  split
  · rename_i hf
    exact ⟨fun hx => ⟨hx, findNL_eq_none.mp hf x hx⟩, fun hx => hx.1⟩
  · rename_i it hf
    obtain ⟨hit, rfl⟩ := findNL_eq_some hf
    rw [h.nodup_entries.mem_erase_iff]
    exact ⟨fun ⟨hne, hx⟩ => ⟨hx, fun hid => hne (h.eq_of_txid hx hit hid)⟩,
      fun ⟨hx, hid⟩ => ⟨fun hxe => hid (hxe ▸ rfl), hx⟩⟩

theorem Consistent.eraseTxnNL (h : Consistent getTotalSize s) (hash : uint256) :
    Consistent getTotalSize (s.eraseTxnNL hash).1 := by
  have hmem := h.mem_eraseTxnNL hash
  unfold COrphanTxns.eraseTxnNL at hmem ⊢
  split
  · exact h
  · rename_i it hf
    rw [hf] at hmem
    obtain ⟨hit, rfl⟩ := findNL_eq_some hf
    obtain ⟨heq, hnd, hne⟩ :=
      foldl_eraseFromPrevNL it.txid it.pTxInputData.tx.vin _ h.set_nodup h.nonempty
    refine ⟨(h.nodup.sublist (List.erase_sublist.map _)), fun o x => ?_, hne, hnd,
      fun e he => h.size e (List.mem_of_mem_erase he)⟩
    simp only at hmem
    rw [heq o]
    split
    · rename_i ho
      rw [(h.set_nodup o).mem_erase_iff, h.byPrev]
      constructor
      · rintro ⟨hx, e, he, rfl, heo⟩
        exact ⟨e, (hmem e).mpr ⟨he, hx⟩, rfl, heo⟩
      · rintro ⟨e, he, rfl, heo⟩
        exact ⟨((hmem e).mp he).2, e, ((hmem e).mp he).1, rfl, heo⟩
    · rename_i ho
      rw [h.byPrev]
      constructor
      · rintro ⟨e, he, rfl, heo⟩
        have hid : e.txid ≠ it.txid := fun hid => ho (h.eq_of_txid he hit hid ▸ heo)
        exact ⟨e, (hmem e).mpr ⟨he, hid⟩, rfl, heo⟩
      · rintro ⟨e, he, rfl, heo⟩
        exact ⟨e, ((hmem e).mp he).1, rfl, heo⟩

end Erase

section Operations

variable {s : COrphanTxns}

theorem checkTxnExistsNL_eq_false {hash : uint256} :
    s.checkTxnExistsNL hash = false ↔ ∀ e ∈ s.mOrphanTxns, e.txid ≠ hash := by
  rw [← findNL_eq_none]
  unfold checkTxnExistsNL
  cases s.findNL hash <;> simp

theorem Consistent.store (h : Consistent getTotalSize s) (p : CTxInputData) (t : Int)
    (hnew : s.checkTxnExistsNL p.tx.getId = false) :
    Consistent getTotalSize { s with
      mOrphanTxns := s.mOrphanTxns ++ [⟨p, t, getTotalSize p.tx⟩]
      mOrphanTxnsByPrev := p.tx.vin.foldl (fun m txin => insertIntoPrev p.tx.getId m txin.prevout)
        s.mOrphanTxnsByPrev } := by
  have hfresh := checkTxnExistsNL_eq_false.mp hnew
  refine ⟨?_, fun o x => ?_, fun o => ?_, fun o => ?_, fun e he => ?_⟩
  · rw [List.map_append, List.nodup_append]
    refine ⟨h.nodup, List.nodup_singleton _, ?_⟩
    simp only [List.mem_map, List.map_cons, List.map_nil, List.mem_singleton]
    rintro _ ⟨e, he, rfl⟩ _ rfl
    exact hfresh e he
  · dsimp only
    rw [foldl_insertIntoPrev]
    have hnew : (∃ e ∈ s.mOrphanTxns ++ [(⟨p, t, getTotalSize p.tx⟩ : COrphanTxnEntry)],
        e.txid = x ∧ o ∈ e.prevouts) ↔ (∃ e ∈ s.mOrphanTxns, e.txid = x ∧ o ∈ e.prevouts) ∨
          (x = p.tx.getId ∧ o ∈ p.tx.vin.map (·.prevout)) := by
      simp only [List.mem_append, List.mem_singleton, or_and_right, exists_or, exists_eq_left,
        COrphanTxnEntry.txid, COrphanTxnEntry.prevouts, eq_comm]
    rw [hnew]
    split
    · rename_i ho
      rw [Option.getD_some, List.mem_insert_iff, h.byPrev]
      exact ⟨fun hx => hx.elim (fun hx => .inr ⟨hx, ho⟩) .inl,
        fun hx => hx.elim .inr (fun hx => .inl hx.1)⟩
    · rename_i ho
      rw [h.byPrev]
      exact ⟨.inl, fun hx => hx.elim id (fun hx => absurd hx.2 ho)⟩
  · dsimp only
    rw [foldl_insertIntoPrev]
    split
    · intro hnil
      exact List.ne_nil_of_mem List.mem_insert_self (Option.some.inj hnil)
    · exact h.nonempty o
  · dsimp only
    rw [foldl_insertIntoPrev]
    split
    · exact (h.set_nodup o).insert
    · exact h.set_nodup o
  · rcases List.mem_append.mp he with he | he
    · exact h.size e he
    · rw [List.mem_singleton.mp he]

theorem Consistent.addToCompactExtraTxnsNL (h : Consistent getTotalSize s) (tx : CTransaction) :
    Consistent getTotalSize (s.addToCompactExtraTxnsNL tx) := by
  unfold COrphanTxns.addToCompactExtraTxnsNL
  split
  · exact h
  · exact ⟨h.nodup, h.byPrev, h.nonempty, h.set_nodup, h.size⟩

theorem Consistent.addTxn (h : Consistent getTotalSize s) (pTxInputData : Option CTxInputData)
    (nNow : Int) : Consistent getTotalSize (s.addTxn getTotalSize pTxInputData nNow) := by
  unfold COrphanTxns.addTxn
  split
  · exact h
  · rename_i p
    dsimp only
    split
    · exact h
    · rename_i hnew
      rw [Bool.not_eq_true] at hnew
      split
      · split
        · exact h
        · have hnew' : (s.addToCompactExtraTxnsNL p.tx).checkTxnExistsNL p.tx.getId = false := by
            unfold COrphanTxns.addToCompactExtraTxnsNL
            split <;> exact hnew
          exact (h.addToCompactExtraTxnsNL p.tx).store { p with orphan := true } _ hnew'
      · exact h.store { p with orphan := true } _ hnew

theorem Consistent.eraseTxns (s : COrphanTxns) : Consistent getTotalSize s.eraseTxns where
  nodup := List.nodup_nil
  byPrev _ _ := by simp [COrphanTxns.eraseTxns]
  nonempty _ h := by simp [COrphanTxns.eraseTxns] at h
  set_nodup _ := List.nodup_nil
  size _ h := absurd h List.not_mem_nil

theorem Consistent.eraseTxnsFromPeer (h : Consistent getTotalSize s) (peer : NodeId) :
    Consistent getTotalSize (s.eraseTxnsFromPeer peer) := by
  unfold COrphanTxns.eraseTxnsFromPeer
  generalize s.mOrphanTxns = l
  induction l generalizing s with
  | nil => exact h
  | cons e l ih =>
    rw [List.foldl_cons]
    apply ih
    split
    · exact h.eraseTxnNL _
    · exact h

end Operations

/-! ### `limitTxnsSize` -/

section Limit

/-- The entries the sweep of `limitTxnsSize` at `nNow` erases from `s`: a sweep is due and the
entry has expired. -/
def Expired (s : COrphanTxns) (nNow : Int) (e : COrphanTxnEntry) : Prop :=
  s.mNextSweep ≤ nNow ∧ e.nTimeExpire ≤ nNow

instance (s : COrphanTxns) (nNow : Int) : DecidablePred (Expired s nNow) :=
  fun _ => inferInstanceAs (Decidable (_ ∧ _))

variable {s : COrphanTxns} {nNow : Int}

variable (getTotalSize) in
/-- What the sweep of `s` has done after the entries `done`: the expired ones among them are
erased, and the running total is the sum of the sizes of the others. -/
structure Swept (s : COrphanTxns) (nNow : Int) (done : List COrphanTxnEntry) (st : SweepState) :
    Prop where
  consistent : Consistent getTotalSize st.pool
  next : st.pool.mNextSweep = s.mNextSweep
  mem : ∀ x, x ∈ st.pool.mOrphanTxns ↔ x ∈ s.mOrphanTxns ∧ ¬ (x ∈ done ∧ Expired s nNow x)
  total : st.nOrphanTxnsSize = ((done.filter fun x => ¬ Expired s nNow x).map (·.size)).sum

theorem swept_init (h : Consistent getTotalSize s) (t : Int) :
    Swept getTotalSize s nNow [] ⟨s, 0, t, 0⟩ where
  consistent := h
  next := rfl
  mem _ := by simp
  total := rfl

theorem Swept.round (hs : Consistent getTotalSize s) {done : List COrphanTxnEntry}
    {st : SweepState} (h : Swept getTotalSize s nNow done st) {e : COrphanTxnEntry}
    (he : e ∈ s.mOrphanTxns) :
    Swept getTotalSize s nNow (done ++ [e]) (sweepRound nNow st e) := by
  unfold sweepRound
  rw [h.next]
  by_cases hexp : Expired s nNow e
  · rw [if_pos hexp.1, if_pos hexp.2]
    refine ⟨h.consistent.eraseTxnNL _, by simp [h.next], fun x => ?_, ?_⟩
    · rw [h.consistent.mem_eraseTxnNL, h.mem]
      constructor
      · rintro ⟨⟨hx, hnot⟩, hid⟩
        refine ⟨hx, fun ⟨hmem, hxexp⟩ => ?_⟩
        rcases List.mem_append.mp hmem with hmem | hmem
        · exact hnot ⟨hmem, hxexp⟩
        · exact hid (by rw [List.mem_singleton.mp hmem]; rfl)
      · rintro ⟨hx, hnot⟩
        refine ⟨⟨hx, fun ⟨hmem, hxexp⟩ => hnot ⟨List.mem_append_left _ hmem, hxexp⟩⟩, ?_⟩
        intro hid
        have hxe : x = e := hs.eq_of_txid hx he hid
        exact hnot ⟨List.mem_append_right _ (List.mem_singleton.mpr hxe), hxe ▸ hexp⟩
    · simp [h.total, hexp]
  · have hrest : ∀ x, (x ∈ s.mOrphanTxns ∧ ¬ (x ∈ done ∧ Expired s nNow x)) ↔
        (x ∈ s.mOrphanTxns ∧ ¬ (x ∈ done ++ [e] ∧ Expired s nNow x)) := by
      intro x
      rw [List.mem_append, List.mem_singleton]
      exact and_congr_right fun _ => not_congr ⟨fun h => ⟨.inl h.1, h.2⟩,
        fun ⟨hmem, hxexp⟩ => ⟨hmem.resolve_right (fun hxe => hexp (hxe ▸ hxexp)), hxexp⟩⟩
    have htotal : ((done ++ [e]).filter fun x => ¬ Expired s nNow x).map (·.size) =
        ((done.filter fun x => ¬ Expired s nNow x).map (·.size)) ++ [e.size] := by
      simp [hexp]
    have hsize : st.nOrphanTxnsSize + e.size =
        (((done ++ [e]).filter fun x => ¬ Expired s nNow x).map (·.size)).sum := by
      rw [htotal, List.sum_append, ← h.total]
      simp
    by_cases hdue : s.mNextSweep ≤ nNow
    · rw [if_pos hdue, if_neg (fun hx => hexp ⟨hdue, hx⟩)]
      exact ⟨h.consistent, h.next, fun x => (h.mem x).trans (hrest x), hsize⟩
    · rw [if_neg hdue]
      exact ⟨h.consistent, h.next, fun x => (h.mem x).trans (hrest x), hsize⟩

theorem Swept.foldl (hs : Consistent getTotalSize s) :
    ∀ (l done : List COrphanTxnEntry) (st : SweepState), Swept getTotalSize s nNow done st →
      (∀ e ∈ l, e ∈ s.mOrphanTxns) →
        Swept getTotalSize s nNow (done ++ l) (l.foldl (sweepRound nNow) st) := by
  intro l
  induction l with
  | nil => exact fun done st h _ => by simpa using h
  | cons e l ih =>
    intro done st h hl
    rw [List.foldl_cons, ← List.singleton_append, ← List.append_assoc]
    exact ih _ _ (h.round hs (hl e List.mem_cons_self)) fun x hx => hl x (List.mem_cons_of_mem e hx)

/-- The sweep erases exactly the expired entries, and its total is the sum of the sizes of the
entries left. -/
theorem Consistent.sweep (hs : Consistent getTotalSize s) (t : Int) :
    let st := s.mOrphanTxns.foldl (sweepRound nNow) ⟨s, 0, t, 0⟩
    Consistent getTotalSize st.pool ∧ st.pool.mNextSweep = s.mNextSweep ∧
      (∀ x, x ∈ st.pool.mOrphanTxns ↔ x ∈ s.mOrphanTxns ∧ ¬ Expired s nNow x) ∧
      st.nOrphanTxnsSize = (st.pool.mOrphanTxns.map (·.size)).sum := by
  have h : Swept getTotalSize s nNow ([] ++ s.mOrphanTxns)
      (s.mOrphanTxns.foldl (sweepRound nNow) ⟨s, 0, t, 0⟩) :=
    Swept.foldl hs s.mOrphanTxns [] _ (swept_init hs t) fun _ he => he
  rw [List.nil_append] at h
  have hmem : ∀ x, x ∈ (s.mOrphanTxns.foldl (sweepRound nNow) ⟨s, 0, t, 0⟩).pool.mOrphanTxns ↔
      x ∈ s.mOrphanTxns ∧ ¬ Expired s nNow x := fun x =>
    (h.mem x).trans (and_congr_right fun hx => by simp [hx])
  have hperm : ((s.mOrphanTxns.foldl (sweepRound nNow) ⟨s, 0, t, 0⟩).pool.mOrphanTxns).Perm
      (s.mOrphanTxns.filter fun x => ¬ Expired s nNow x) :=
    (List.perm_ext_iff_of_nodup h.consistent.nodup_entries (hs.nodup_entries.filter _)).mpr
      fun x => (hmem x).trans (by simp)
  exact ⟨h.consistent, h.next, hmem, by rw [h.total, (hperm.map _).sum_eq]⟩

theorem leastById_mem_or {l : List COrphanTxnEntry} :
    ∀ {init : Option COrphanTxnEntry} {e : COrphanTxnEntry},
      l.foldl (fun best e => some (match best with
        | none => e
        | some b => if idLt e.txid b.txid then e else b)) init = some e → e ∈ l ∨ init = some e := by
  induction l with
  | nil => exact fun h => .inr h
  | cons x l ih =>
    intro init e h
    rcases ih h with he | he
    · exact .inl (List.mem_cons_of_mem x he)
    · cases init with
      | none => exact .inl (Option.some.inj he ▸ List.mem_cons_self)
      | some b =>
        dsimp only at he
        split at he
        · exact .inl (Option.some.inj he ▸ List.mem_cons_self)
        · exact .inr he

theorem leastById_eq_none {l : List COrphanTxnEntry} : leastById l = none ↔ l = [] := by
  cases l with
  | nil => exact ⟨fun _ => rfl, fun _ => rfl⟩
  | cons x l =>
    simp only [leastById, List.foldl_cons, reduceCtorEq, iff_false]
    intro h
    have hsome : ∀ (l : List COrphanTxnEntry) (b : COrphanTxnEntry),
        l.foldl (fun best e => some (match best with
          | none => e
          | some b => if idLt e.txid b.txid then e else b)) (some b) ≠ none := by
      intro l
      induction l with
      | nil => exact fun b => Option.some_ne_none b
      | cons y l ih => exact fun b => ih _
    exact hsome l _ h

theorem mem_of_pickByLowerBound {l : List COrphanTxnEntry} {key : uint256} {e : COrphanTxnEntry}
    (h : pickByLowerBound l key = some e) : e ∈ l := by
  unfold pickByLowerBound at h
  cases hfirst : leastById (l.filter fun e => !idLt e.txid key) with
  | none =>
    rw [hfirst, Option.none_or] at h
    exact (leastById_mem_or h).resolve_right (by simp)
  | some x =>
    rw [hfirst, Option.some_or] at h
    obtain rfl := Option.some.inj h
    exact List.mem_of_mem_filter ((leastById_mem_or hfirst).resolve_right (by simp))

theorem pickByLowerBound_ne_none {l : List COrphanTxnEntry} (hl : l ≠ []) (key : uint256) :
    pickByLowerBound l key ≠ none := by
  unfold pickByLowerBound
  cases leastById (l.filter fun e => !idLt e.txid key) with
  | none => exact fun h => hl (leastById_eq_none.mp (by simpa using h))
  | some x => simp

variable (nMaxOrphanTxnsSize : Nat) (randHash : Nat → uint256)

/-- The run lemma of the random eviction: with the total equal to the sum of the sizes and fuel
for every entry, the loop erases distinct entries `E`, as many as it counts, and ends with the
total within the limit. -/
theorem Consistent.evictLoop :
    ∀ (fuel : Nat) (s : COrphanTxns) (nEvicted : Nat), Consistent getTotalSize s →
      s.mOrphanTxns.length ≤ fuel →
        ∃ (s' : COrphanTxns) (E : List COrphanTxnEntry),
          evictLoop getTotalSize nMaxOrphanTxnsSize randHash fuel s
            (s.mOrphanTxns.map (·.size)).sum nEvicted = .ok (s', nEvicted + E.length) ∧
          Consistent getTotalSize s' ∧ E.Nodup ∧ (∀ e ∈ E, e ∈ s.mOrphanTxns) ∧
          (∀ x, x ∈ s'.mOrphanTxns ↔ x ∈ s.mOrphanTxns ∧ x ∉ E) ∧
          (s'.mOrphanTxns.map (·.size)).sum ≤ nMaxOrphanTxnsSize := by
  intro fuel
  induction fuel with
  | zero =>
    intro s nEvicted h hlen
    have hnil : s.mOrphanTxns = [] := List.eq_nil_of_length_eq_zero (by omega)
    exact ⟨s, [], rfl, h, List.nodup_nil, fun _ h => absurd h List.not_mem_nil,
      fun x => by simp, by simp [hnil]⟩
  | succ fuel ih =>
    intro s nEvicted h hlen
    unfold COrphanTxns.evictLoop
    split_ifs with hover
    · have hne : s.mOrphanTxns ≠ [] := fun hnil => by simp [hnil] at hover
      obtain ⟨it, hpick⟩ := Option.ne_none_iff_exists'.mp
        (pickByLowerBound_ne_none hne (randHash nEvicted))
      have hit := mem_of_pickByLowerBound hpick
      rw [hpick]
      dsimp only
      have hsum := List.sum_map_erase (·.size) hit
      have htotal : (if getTotalSize it.pTxInputData.tx ≥ (s.mOrphanTxns.map (·.size)).sum then 0
          else (s.mOrphanTxns.map (·.size)).sum - getTotalSize it.pTxInputData.tx) =
          ((s.eraseTxnNL it.txid).1.mOrphanTxns.map (·.size)).sum := by
        rw [eraseTxnNL_of_mem h hit, ← h.size it hit]
        split_ifs <;> omega
      have hlen' : (s.eraseTxnNL it.txid).1.mOrphanTxns.length ≤ fuel := by
        rw [eraseTxnNL_of_mem h hit, List.length_erase_of_mem hit]
        omega
      obtain ⟨s', E, hrun, hc, hnd, hsub, hmem, hle⟩ := ih _ (nEvicted + 1) (h.eraseTxnNL _) hlen'
      have hgone : ∀ x ∈ (s.eraseTxnNL it.txid).1.mOrphanTxns, x ≠ it := fun x hx hxit =>
        h.nodup_entries.not_mem_erase (hxit ▸ (eraseTxnNL_of_mem h hit ▸ hx))
      refine ⟨s', it :: E, by rw [htotal, hrun]; simp [Nat.add_assoc, Nat.add_comm 1], hc,
        List.nodup_cons.mpr ⟨fun hitE => hgone it (hsub it hitE) rfl, hnd⟩, ?_, fun x => ?_, hle⟩
      · rintro e (_ | ⟨_, he⟩)
        · exact hit
        · exact ((h.mem_eraseTxnNL _ e).mp (hsub e he)).1
      · rw [hmem, h.mem_eraseTxnNL, List.mem_cons, not_or]
        constructor
        · rintro ⟨⟨hx, hid⟩, hxE⟩
          exact ⟨hx, fun hxit => hid (hxit ▸ rfl), hxE⟩
        · rintro ⟨hx, hxit, hxE⟩
          exact ⟨⟨hx, fun hid => hxit (h.eq_of_txid hx hit hid)⟩, hxE⟩
    · exact ⟨s, [], rfl, h, List.nodup_nil, fun _ h => absurd h List.not_mem_nil,
        fun x => by simp, by omega⟩

theorem Consistent.setNextSweep (h : Consistent getTotalSize s) (t : Int) :
    Consistent getTotalSize { s with mNextSweep := t } :=
  ⟨h.nodup, h.byPrev, h.nonempty, h.set_nodup, h.size⟩

theorem Consistent.sweep_spec (h : Consistent getTotalSize s) (nNow : Int) :
    Consistent getTotalSize (s.sweep nNow).pool ∧
      (∀ x, x ∈ (s.sweep nNow).pool.mOrphanTxns ↔ x ∈ s.mOrphanTxns ∧ ¬ Expired s nNow x) ∧
      (s.sweep nNow).nOrphanTxnsSize = ((s.sweep nNow).pool.mOrphanTxns.map (·.size)).sum := by
  obtain ⟨hc, -, hmem, htotal⟩ :=
    @Consistent.sweep getTotalSize s nNow h (nNow + ORPHAN_TX_EXPIRE_TIME - ORPHAN_TX_EXPIRE_INTERVAL)
  unfold COrphanTxns.sweep
  split
  · exact ⟨hc.setNextSweep _, hmem, htotal⟩
  · exact ⟨hc, hmem, htotal⟩

/-- `limitTxnsSize` without skipping the eviction: it erases the expired entries if a sweep is
due and then distinct other entries, as many as it returns, and leaves the pool within the
limit. -/
theorem Consistent.limitTxnsSize (h : Consistent getTotalSize s) (nNow : Int) :
    ∃ (s' : COrphanTxns) (E : List COrphanTxnEntry),
      s.limitTxnsSize getTotalSize nMaxOrphanTxnsSize false nNow randHash = .ok (s', E.length) ∧
      Consistent getTotalSize s' ∧ E.Nodup ∧ (∀ e ∈ E, e ∈ s.mOrphanTxns ∧ ¬ Expired s nNow e) ∧
      (∀ x, x ∈ s'.mOrphanTxns ↔ x ∈ s.mOrphanTxns ∧ ¬ Expired s nNow x ∧ x ∉ E) ∧
      (s'.mOrphanTxns.map (·.size)).sum ≤ nMaxOrphanTxnsSize := by
  obtain ⟨hc, hmem, htotal⟩ := h.sweep_spec nNow
  obtain ⟨s', E, hrun, hc', hnd, hsub, hmem', hle⟩ :=
    hc.evictLoop nMaxOrphanTxnsSize randHash _ _ 0 (Nat.le_refl _)
  rw [Nat.zero_add, ← htotal] at hrun
  refine ⟨s', E, hrun, hc', hnd, fun e he => (hmem e).mp (hsub e he), fun x => ?_, hle⟩
  rw [hmem', hmem, and_assoc]

theorem Consistent.limitTxnsSize_ok (h : Consistent getTotalSize s) (fSkipRndEviction : Bool)
    (nNow : Int) :
    ∃ s' n, s.limitTxnsSize getTotalSize nMaxOrphanTxnsSize fSkipRndEviction nNow randHash =
      .ok (s', n) ∧ Consistent getTotalSize s' := by
  cases fSkipRndEviction with
  | false =>
    obtain ⟨s', E, hrun, hc, -⟩ := h.limitTxnsSize nMaxOrphanTxnsSize randHash nNow
    exact ⟨s', E.length, hrun, hc⟩
  | true =>
    obtain ⟨hc, -⟩ := h.sweep_spec nNow
    exact ⟨_, 0, rfl, hc⟩

end Limit

/-! ### Runs -/

/-- The operations that change the maps of the pool. -/
inductive OrphanOp
  | addTxn (pTxInputData : Option CTxInputData) (nNow : Int)
  | eraseTxn (hash : uint256)
  | eraseTxnsFromPeer (peer : NodeId)
  | eraseTxns
  | limitTxnsSize (nMaxOrphanTxnsSize : Nat) (fSkipRndEviction : Bool) (nNow : Int)
      (randHash : Nat → uint256)

variable (getTotalSize) in
/-- One operation; only the undefined dereference of `limitTxnsSize` fails. -/
def applyOp (s : COrphanTxns) : OrphanOp → Except String COrphanTxns
  | .addTxn pTxInputData nNow => .ok (s.addTxn getTotalSize pTxInputData nNow)
  | .eraseTxn hash => .ok (s.eraseTxnNL hash).1
  | .eraseTxnsFromPeer peer => .ok (s.eraseTxnsFromPeer peer)
  | .eraseTxns => .ok s.eraseTxns
  | .limitTxnsSize nMaxOrphanTxnsSize fSkipRndEviction nNow randHash =>
    match s.limitTxnsSize getTotalSize nMaxOrphanTxnsSize fSkipRndEviction nNow randHash with
    | .ok r => .ok r.1
    | .error e => .error e

variable (getTotalSize) in
def runOps (s : COrphanTxns) : List OrphanOp → Except String COrphanTxns
  | [] => .ok s
  | op :: ops =>
    match applyOp getTotalSize s op with
    | .ok s => runOps s ops
    | .error e => .error e

variable {s : COrphanTxns}

theorem Consistent.applyOp (h : Consistent getTotalSize s) (op : OrphanOp) :
    ∃ s', applyOp getTotalSize s op = .ok s' ∧ Consistent getTotalSize s' := by
  cases op with
  | addTxn pTxInputData nNow => exact ⟨_, rfl, h.addTxn pTxInputData nNow⟩
  | eraseTxn hash => exact ⟨_, rfl, h.eraseTxnNL hash⟩
  | eraseTxnsFromPeer peer => exact ⟨_, rfl, h.eraseTxnsFromPeer peer⟩
  | eraseTxns => exact ⟨_, rfl, Consistent.eraseTxns s⟩
  | limitTxnsSize nMaxOrphanTxnsSize fSkipRndEviction nNow randHash =>
    obtain ⟨s', n, hrun, hc⟩ := h.limitTxnsSize_ok nMaxOrphanTxnsSize randHash fSkipRndEviction nNow
    exact ⟨s', by simp only [COrphanTxns.applyOp, hrun], hc⟩

/-- The run lemma: no run fails, and every run keeps the index. -/
theorem consistent_runOps :
    ∀ (ops : List OrphanOp) (s : COrphanTxns), Consistent getTotalSize s →
      ∃ s', runOps getTotalSize s ops = .ok s' ∧ Consistent getTotalSize s' := by
  intro ops
  induction ops with
  | nil => exact fun s h => ⟨s, rfl, h⟩
  | cons op ops ih =>
    intro s h
    obtain ⟨s₁, h₁, hc₁⟩ := h.applyOp op
    obtain ⟨s', hrun, hc'⟩ := ih s₁ hc₁
    exact ⟨s', by simp only [runOps, h₁, hrun], hc'⟩

theorem Consistent.checkTxnExists_iff (h : Consistent getTotalSize s) (o : COutPoint) :
    s.checkTxnExists o = true ↔ ∃ e ∈ s.mOrphanTxns, o ∈ e.prevouts := by
  unfold checkTxnExists
  constructor
  · intro hsome
    obtain ⟨set, hset⟩ := Option.isSome_iff_exists.mp hsome
    obtain ⟨x, hx⟩ := List.exists_mem_of_ne_nil set fun hnil => h.nonempty o (hnil ▸ hset)
    obtain ⟨e, he, -, heo⟩ := (h.byPrev o x).mp (by rw [hset]; exact hx)
    exact ⟨e, he, heo⟩
  · rintro ⟨e, he, heo⟩
    have hmem := (h.byPrev o e.txid).mpr ⟨e, he, rfl, heo⟩
    cases hset : s.mOrphanTxnsByPrev o with
    | none => rw [hset] at hmem; exact absurd hmem List.not_mem_nil
    | some set => rfl

theorem Consistent.mem_getTxnsHash (h : Consistent getTotalSize s) (o : COutPoint) (x : uint256) :
    x ∈ s.getTxnsHash o ↔ ∃ e ∈ s.mOrphanTxns, e.txid = x ∧ o ∈ e.prevouts := by
  rw [← h.byPrev]
  unfold getTxnsHash
  cases hset : s.mOrphanTxnsByPrev o with
  | none => simp
  | some set =>
    simp only [List.mem_filterMap, Option.map_eq_some_iff, Option.getD_some]
    constructor
    · rintro ⟨mi, hmi, e, hfind, rfl⟩
      obtain ⟨-, rfl⟩ := findNL_eq_some hfind
      exact hmi
    · intro hx
      obtain ⟨e, he, rfl, -⟩ := (h.byPrev o x).mp (by rw [hset]; exact hx)
      exact ⟨e.txid, hx, e, findNL_of_mem h.nodup he, rfl⟩

end COrphanTxns

/-- Every run of `addTxn`, `eraseTxn`, `eraseTxnsFromPeer`, `eraseTxns` and `limitTxnsSize` from a
new pool succeeds and leaves `mOrphanTxnsByPrev` the index of the stored orphans by spent outpoint,
with no empty set; from there `limitTxnsSize` without skipping the eviction succeeds, erases only
the expired entries of a due sweep and distinct entries it evicts, as many as it returns, and
leaves the sizes of the remaining entries within the limit. -/
theorem orphan_index_and_size_limit (getTotalSize : CTransaction → Nat)
    (maxCollectedOutpoints maxExtraTxnsForCompactBlock maxTxSizePolicy : Nat)
    (ops : List COrphanTxns.OrphanOp) :
    ∃ s, COrphanTxns.runOps getTotalSize
        (COrphanTxns.new maxCollectedOutpoints maxExtraTxnsForCompactBlock maxTxSizePolicy) ops =
        .ok s ∧
      (∀ o h, h ∈ (s.mOrphanTxnsByPrev o).getD [] ↔
        ∃ e ∈ s.mOrphanTxns, e.txid = h ∧ o ∈ e.prevouts) ∧
      (∀ o, s.mOrphanTxnsByPrev o ≠ some []) ∧
      (∀ o, s.checkTxnExists o = true ↔ ∃ e ∈ s.mOrphanTxns, o ∈ e.prevouts) ∧
      (∀ o h, h ∈ s.getTxnsHash o ↔ ∃ e ∈ s.mOrphanTxns, e.txid = h ∧ o ∈ e.prevouts) ∧
      ∀ (nMaxOrphanTxnsSize : Nat) (nNow : Int) (randHash : Nat → uint256),
        ∃ (s' : COrphanTxns) (E : List COrphanTxnEntry),
          s.limitTxnsSize getTotalSize nMaxOrphanTxnsSize false nNow randHash = .ok (s', E.length) ∧
          E.Nodup ∧ (∀ e ∈ E, e ∈ s.mOrphanTxns ∧ ¬ s.Expired nNow e) ∧
          (∀ x, x ∈ s'.mOrphanTxns ↔ x ∈ s.mOrphanTxns ∧ ¬ s.Expired nNow x ∧ x ∉ E) ∧
          (s'.mOrphanTxns.map (·.size)).sum ≤ nMaxOrphanTxnsSize := by
  obtain ⟨s, hrun, h⟩ := COrphanTxns.consistent_runOps ops _
    (COrphanTxns.consistent_new maxCollectedOutpoints maxExtraTxnsForCompactBlock maxTxSizePolicy)
  refine ⟨s, hrun, h.byPrev, h.nonempty, h.checkTxnExists_iff, h.mem_getTxnsHash,
    fun nMaxOrphanTxnsSize nNow randHash => ?_⟩
  obtain ⟨s', E, hlimit, -, hnd, hsub, hmem, hle⟩ := h.limitTxnsSize nMaxOrphanTxnsSize randHash nNow
  exact ⟨s', E, hlimit, hnd, hsub, hmem, hle⟩

end TbcNode.Mempool
