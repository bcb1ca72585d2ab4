import TbcNode.Mempool.Pool

/-! # Trimming the pool to a size (`CTxMemPool::TrimToSize`)

Each round removes the entry first in descendant-score order with its descendants and keeps
`TrimInv`, so the loop ends within the limit or empty (`trimLoop_spec`). The memory the pool uses
is a parameter.
-/

namespace TbcNode.Mempool

open TbcNode.Primitives TbcNode.Logic

def MEMPOOL_FULL_FEE_INCREMENT : CFeeRate := ⟨1000⟩

/-- `CompareTxMemPoolEntryByDescendantScore::UseDescendantScore`; the `double` products are
computed exactly. -/
def useDescendantScore (a : CTxMemPoolEntry) : Bool :=
  a.nTxSize * a.nModFeesWithDescendants > a.nSizeWithDescendants * a.nModifiedFee

/-- `CompareTxMemPoolEntryByDescendantScore`: `a` before `b` when its score, the larger of its
own feerate and that with its descendants, is lower, and on a tie when it is not older. -/
def compareByDescendantScore (a b : CTxMemPoolEntry) : Bool :=
  let aModFee := if useDescendantScore a then a.nModFeesWithDescendants else a.nModifiedFee
  let aSize := if useDescendantScore a then a.nSizeWithDescendants else (a.nTxSize : Int)
  let bModFee := if useDescendantScore b then b.nModFeesWithDescendants else b.nModifiedFee
  let bSize := if useDescendantScore b then b.nSizeWithDescendants else (b.nTxSize : Int)
  let f1 := aModFee * bSize
  let f2 := aSize * bModFee
  if f1 = f2 then a.nTime ≥ b.nTime else f1 < f2

/-- `mapTx.get<descendant_score>().begin()`: an entry no other is ordered before. -/
def descendantScoreBegin : List CTxMemPoolEntry → Option CTxMemPoolEntry
  | [] => none
  | e :: es => some (es.foldl (fun best e => if compareByDescendantScore e best then e else best) e)

theorem mem_of_descendantScoreBegin {l : List CTxMemPoolEntry} {it : CTxMemPoolEntry}
    (h : descendantScoreBegin l = some it) : it ∈ l := by
  cases l with
  | nil => cases h
  | cons e es =>
    have key : ∀ (es : List CTxMemPoolEntry) (best : CTxMemPoolEntry),
        es.foldl (fun best e => if compareByDescendantScore e best then e else best) best ∈
          best :: es := by
      intro es
      induction es with
      | nil => exact fun best => List.mem_singleton_self best
      | cons e es ih =>
        intro best
        rw [List.foldl_cons]
        split
        · exact List.mem_cons_of_mem best (ih e)
        · rcases List.mem_cons.mp (ih best) with h | h
          · rw [h]
            exact List.mem_cons_self
          · exact List.mem_cons_of_mem best (List.mem_cons_of_mem e h)
    obtain rfl := Option.some.inj h
    exact key es e

/-- The state of `TrimToSize` between rounds: the pool, the locals `maxFeeRateRemoved` and
`vRemovedTxIds`, and the contents of `*pvNoSpendsRemaining` (`none` for a null pointer). -/
structure TrimState where
  pool : CTxMemPool
  maxFeeRateRemoved : CFeeRate
  vRemovedTxIds : List uint256
  pvNoSpendsRemaining : Option (List COutPoint)

/-- The outpoints spent by `txn` whose transaction is not in the pool and that no pool
transaction spends. -/
def noSpendsRemaining (pool : CTxMemPool) (txn : List CTransaction) : List COutPoint :=
  (txn.flatMap (·.vin)).filterMap fun txin =>
    if pool.existsNL txin.prevout.txid then none
    else if pool.mapNextTx.any (·.1 == txin.prevout) then none
    else some txin.prevout

/-- One round of the loop of `TrimToSize`, on the entry `it` it took. The transactions and their ids
are collected only when `pvNoSpendsRemaining` is given. -/
def trimRound (st : TrimState) (it : CTxMemPoolEntry) : TrimState :=
  let removed := (CFeeRate.ofFee it.nModFeesWithDescendants it.nSizeWithDescendants).add
    MEMPOOL_FULL_FEE_INCREMENT
  let pool := st.pool.trackPackageRemovedNL removed
  let stage := pool.calculateDescendantsNL it.tx.getId []
  let txn := if st.pvNoSpendsRemaining.isSome then
      stage.filterMap fun iter => (pool.lookup iter).map (·.tx)
    else []
  let trimmed := pool.removeStagedNL stage false
  { pool := trimmed
    maxFeeRateRemoved := st.maxFeeRateRemoved.max removed
    vRemovedTxIds := st.vRemovedTxIds ++ txn.map (·.getId)
    pvNoSpendsRemaining := st.pvNoSpendsRemaining.map (· ++ noSpendsRemaining trimmed txn) }

/-- The loop of `TrimToSize`, with fuel for its rounds. -/
def trimLoop (dynamicMemoryUsage : CTxMemPool → Nat) (sizelimit : Nat) :
    Nat → TrimState → TrimState
  | 0, st => st
  | fuel + 1, st =>
    match descendantScoreBegin st.pool.mapTx with
    | none => st
    | some it =>
      if dynamicMemoryUsage st.pool > sizelimit then
        trimLoop dynamicMemoryUsage sizelimit fuel (trimRound st it)
      else st

/-- `TrimToSize`: every round removes an entry, so as many rounds as entries suffice. -/
def trimToSize (dynamicMemoryUsage : CTxMemPool → Nat) (pool : CTxMemPool) (sizelimit : Nat)
    (pvNoSpendsRemaining : Option (List COutPoint)) : TrimState :=
  trimLoop dynamicMemoryUsage sizelimit pool.mapTx.length ⟨pool, ⟨0⟩, [], pvNoSpendsRemaining⟩

/-- What holds of a state reached from `pool₀` with `pvNoSpendsRemaining = pv`: the links stay
consistent, only transactions of `pool₀` remain, and with each its in-pool ancestors; the rolling
fee is the larger of its start and `maxFeeRateRemoved`, the highest package feerate removed; and
the ids collected are those removed, if `pv` is given, and none otherwise. -/
structure TrimInv (pool₀ : CTxMemPool) (pv : Option (List COutPoint)) (st : TrimState) : Prop where
  consistent : st.pool.LinksConsistent
  subset : ∀ tx ∈ st.pool.txs, tx ∈ pool₀.txs
  closed : ∀ y x, Relation.TransGen (CTxMemPool.Spends pool₀) y x → x ∈ st.pool.txs → y ∈ st.pool.txs
  max_nonneg : 0 ≤ st.maxFeeRateRemoved.nSatoshisPerK
  rolling : st.pool.rollingMinimumFeeRate =
    max pool₀.rollingMinimumFeeRate st.maxFeeRateRemoved.nSatoshisPerK
  pv_isSome : st.pvNoSpendsRemaining.isSome = pv.isSome
  removed : ∀ txid, txid ∈ st.vRemovedTxIds ↔
    pv.isSome = true ∧ pool₀.existsNL txid = true ∧ st.pool.existsNL txid = false

section Round

variable {pool₀ : CTxMemPool} {pv : Option (List COutPoint)}

theorem trimInv_init (hpool : pool₀.LinksConsistent) (hfee : 0 ≤ pool₀.rollingMinimumFeeRate) :
    TrimInv pool₀ pv ⟨pool₀, ⟨0⟩, [], pv⟩ where
  consistent := hpool
  subset _ h := h
  closed _ _ h _ := CTxMemPool.mem_txs_of_transGen_spends h
  max_nonneg := le_refl 0
  rolling := (max_eq_left hfee).symm
  pv_isSome := rfl
  removed txid := by
    simp only [List.not_mem_nil, false_iff]
    rintro ⟨-, h, h'⟩
    rw [h] at h'
    cases h'

theorem transGen_spends_of_closed {pool : CTxMemPool}
    (hclosed : ∀ y x, Relation.TransGen (CTxMemPool.Spends pool₀) y x → x ∈ pool.txs → y ∈ pool.txs)
    {y x : CTransaction} (h : Relation.TransGen (CTxMemPool.Spends pool₀) y x) (hx : x ∈ pool.txs) :
    Relation.TransGen (CTxMemPool.Spends pool) y x := by
  induction h with
  | single hyx => exact .single ⟨hclosed _ _ (.single hyx) hx, hx, hyx.2.2⟩
  | tail _ hbx ih =>
    have hb := hclosed _ _ (.single hbx) hx
    exact .tail (ih hb) ⟨hb, hx, hbx.2.2⟩

theorem mem_map_filterMap_lookup {pool : CTxMemPool} {stage : List uint256}
    (hstage : ∀ y ∈ stage, pool.existsNL y = true) (txid : uint256) :
    txid ∈ (stage.filterMap fun iter => (pool.lookup iter).map (·.tx)).map (·.getId) ↔
      txid ∈ stage := by
  simp only [List.mem_map, List.mem_filterMap, Option.map_eq_some_iff]
  constructor
  · rintro ⟨_, ⟨iter, hiter, entry, hentry, rfl⟩, rfl⟩
    rw [(CTxMemPool.lookup_eq_some hentry).2]
    exact hiter
  · intro htxid
    cases hentry : pool.lookup txid with
    | none =>
      obtain ⟨tx, htx, hid⟩ := CTxMemPool.existsNL_iff.mp (hstage txid htxid)
      obtain ⟨e, he, rfl⟩ := List.mem_map.mp htx
      exact absurd hid (CTxMemPool.lookup_eq_none hentry e he)
    | some entry =>
      exact ⟨entry.tx, ⟨txid, htxid, entry, hentry, rfl⟩, (CTxMemPool.lookup_eq_some hentry).2⟩

/-- One round keeps the invariant: the stage is the descendant set of the entry taken, which
holds every descendant in the pool of each of its members. -/
theorem TrimInv.round {st : TrimState} (h : TrimInv pool₀ pv st) {it : CTxMemPoolEntry}
    (hit : it ∈ st.pool.mapTx) : TrimInv pool₀ pv (trimRound st it) := by
  set removed := (CFeeRate.ofFee it.nModFeesWithDescendants it.nSizeWithDescendants).add
    MEMPOOL_FULL_FEE_INCREMENT
  set pool := st.pool.trackPackageRemovedNL removed with hpool_def
  set stage := pool.calculateDescendantsNL it.tx.getId []
  have hpool : pool.LinksConsistent ∧ pool.txs = st.pool.txs ∧
      (∀ q, pool.existsNL q = st.pool.existsNL q) ∧
      pool.rollingMinimumFeeRate = max st.pool.rollingMinimumFeeRate removed.nSatoshisPerK := by
    rw [hpool_def, CTxMemPool.trackPackageRemovedNL_eq]
    exact ⟨⟨h.consistent.parents, h.consistent.children⟩, rfl, fun _ => rfl, rfl⟩
  obtain ⟨hcons, htxs, hexists, hrolling⟩ := hpool
  have hitx : pool.existsNL it.tx.getId = true :=
    CTxMemPool.existsNL_iff.mpr ⟨it.tx, htxs ▸ List.mem_map_of_mem hit, rfl⟩
  have hstage : ∀ y ∈ stage, pool.existsNL y = true := fun y hy =>
    CTxMemPool.existsNL_of_mem_calculateDescendantsNL hcons hitx hy
  have hmem : ∀ tx, tx ∈ (pool.removeStagedNL stage false).txs ↔
      tx ∈ st.pool.txs ∧ tx.getId ∉ stage := fun tx => by
    rw [CTxMemPool.mem_removeStagedNL_txs, htxs]
  have hexists' : ∀ q, (pool.removeStagedNL stage false).existsNL q = true ↔
      st.pool.existsNL q = true ∧ q ∉ stage := fun q => by
    rw [CTxMemPool.existsNL_removeStagedNL, hexists]
  refine ⟨hcons.removeStagedNL stage false, fun tx htx => h.subset tx ((hmem tx).mp htx).1,
    fun y x hyx hx => ?_, ?_, ?_, ?_, fun txid => ?_⟩
  · obtain ⟨hx, hxs⟩ := (hmem x).mp hx
    refine (hmem y).mpr ⟨h.closed y x hyx hx, fun hys => hxs ?_⟩
    have hspends : CTxMemPool.Spends pool = CTxMemPool.Spends st.pool := by
      funext a b
      simp only [CTxMemPool.Spends, htxs]
    have hchain : Relation.TransGen (CTxMemPool.Spends pool) y x :=
      hspends ▸ transGen_spends_of_closed h.closed hyx hx
    have hreach := hchain.lift CTransaction.getId fun a b hab => hcons.succ_of_spends hab
    exact (CTxMemPool.mem_calculateDescendantsNL hcons hitx x.getId).mpr
      (((CTxMemPool.mem_calculateDescendantsNL hcons hitx y.getId).mp hys).trans
        hreach.to_reflTransGen)
  · show 0 ≤ (st.maxFeeRateRemoved.max removed).nSatoshisPerK
    rw [CFeeRate.max_nSatoshisPerK]
    exact le_max_of_le_left h.max_nonneg
  · show (pool.removeStagedNL stage false).rollingMinimumFeeRate =
      max pool₀.rollingMinimumFeeRate (st.maxFeeRateRemoved.max removed).nSatoshisPerK
    rw [CTxMemPool.removeStagedNL_rollingMinimumFeeRate, hrolling, h.rolling,
      CFeeRate.max_nSatoshisPerK, max_assoc]
  · show (st.pvNoSpendsRemaining.map _).isSome = pv.isSome
    rw [Option.isSome_map, h.pv_isSome]
  · show txid ∈ st.vRemovedTxIds ++ (if st.pvNoSpendsRemaining.isSome then
        stage.filterMap fun iter => (pool.lookup iter).map (·.tx) else []).map (·.getId) ↔
      pv.isSome = true ∧ pool₀.existsNL txid = true ∧
        (pool.removeStagedNL stage false).existsNL txid = false
    rw [List.mem_append, h.removed, h.pv_isSome]
    simp only [Bool.eq_false_iff, Ne, hexists']
    cases hsome : pv.isSome with
    | false => simp
    | true =>
      rw [if_pos rfl, mem_map_filterMap_lookup hstage]
      constructor
      · rintro (⟨-, h₀, hgone⟩ | hs)
        · exact ⟨rfl, h₀, fun h' => hgone h'.1⟩
        · have hin := hexists txid ▸ hstage txid hs
          obtain ⟨tx, htx, rfl⟩ := CTxMemPool.existsNL_iff.mp hin
          exact ⟨rfl, CTxMemPool.existsNL_iff.mpr ⟨tx, h.subset tx htx, rfl⟩, fun h' => h'.2 hs⟩
      · rintro ⟨-, h₀, hgone⟩
        by_cases hs : txid ∈ stage
        · exact .inr hs
        · exact .inl ⟨rfl, h₀, fun h' => hgone ⟨h', hs⟩⟩

theorem trimRound_length_lt {st : TrimState} (hcons : st.pool.LinksConsistent)
    {it : CTxMemPoolEntry} (hit : it ∈ st.pool.mapTx) :
    (trimRound st it).pool.mapTx.length < st.pool.mapTx.length := by
  set removed := (CFeeRate.ofFee it.nModFeesWithDescendants it.nSizeWithDescendants).add
    MEMPOOL_FULL_FEE_INCREMENT
  set pool := st.pool.trackPackageRemovedNL removed with hpool_def
  have hpool : pool.LinksConsistent ∧ pool.txs = st.pool.txs := by
    rw [hpool_def, CTxMemPool.trackPackageRemovedNL_eq]
    exact ⟨⟨hcons.parents, hcons.children⟩, rfl⟩
  have hitx : pool.existsNL it.tx.getId = true :=
    CTxMemPool.existsNL_iff.mpr ⟨it.tx, hpool.2 ▸ List.mem_map_of_mem hit, rfl⟩
  have hself : it.tx.getId ∈ pool.calculateDescendantsNL it.tx.getId [] :=
    (CTxMemPool.mem_calculateDescendantsNL hpool.1 hitx _).mpr .refl
  have hlen : ∀ p : CTxMemPool, p.mapTx.length = p.txs.length := fun p => by
    simp [CTxMemPool.txs]
  show (pool.removeStagedNL (pool.calculateDescendantsNL it.tx.getId []) false).mapTx.length <
    st.pool.mapTx.length
  rw [hlen, hlen, CTxMemPool.removeStagedNL_txs, hpool.2, List.length_filter_lt_length_iff_exists]
  exact ⟨it.tx, List.mem_map_of_mem hit, by simpa using hself⟩

end Round

/-- The run lemma: from any state of the invariant with fuel for every entry, the loop keeps the
invariant and ends with the pool within the limit or empty. -/
theorem trimLoop_spec (dynamicMemoryUsage : CTxMemPool → Nat) (sizelimit : Nat)
    {pool₀ : CTxMemPool} {pv : Option (List COutPoint)} :
    ∀ (fuel : Nat) (st : TrimState), TrimInv pool₀ pv st → st.pool.mapTx.length ≤ fuel →
      TrimInv pool₀ pv (trimLoop dynamicMemoryUsage sizelimit fuel st) ∧
        (dynamicMemoryUsage (trimLoop dynamicMemoryUsage sizelimit fuel st).pool ≤ sizelimit ∨
          (trimLoop dynamicMemoryUsage sizelimit fuel st).pool.mapTx = []) := by
  intro fuel
  induction fuel with
  | zero =>
    intro st h hlen
    exact ⟨h, .inr (List.eq_nil_of_length_eq_zero (Nat.le_zero.mp hlen))⟩
  | succ fuel ih =>
    intro st h hlen
    unfold trimLoop
    cases hbegin : descendantScoreBegin st.pool.mapTx with
    | none =>
      refine ⟨h, .inr ?_⟩
      cases hmap : st.pool.mapTx with
      | nil => rfl
      | cons e es => rw [hmap] at hbegin; cases hbegin
    | some it =>
      have hit := mem_of_descendantScoreBegin hbegin
      dsimp only
      split
      · exact ih _ (h.round hit) (by have := trimRound_length_lt h.consistent hit; omega)
      · exact ⟨h, .inl (by omega)⟩

/-- `TrimToSize` on a pool whose links are consistent and whose rolling fee is not negative ends
with the pool within the limit or empty, removes only transactions together with all their
in-pool descendants, leaves the rolling fee at the larger of its start and the highest package
feerate removed, and returns the ids of the removed transactions if `pvNoSpendsRemaining` is
given and none otherwise. -/
theorem trim_to_size_removes_closures (dynamicMemoryUsage : CTxMemPool → Nat) (pool : CTxMemPool)
    (hpool : pool.LinksConsistent) (hfee : 0 ≤ pool.rollingMinimumFeeRate) (sizelimit : Nat)
    (pvNoSpendsRemaining : Option (List COutPoint)) :
    TrimInv pool pvNoSpendsRemaining
        (trimToSize dynamicMemoryUsage pool sizelimit pvNoSpendsRemaining) ∧
      (dynamicMemoryUsage (trimToSize dynamicMemoryUsage pool sizelimit pvNoSpendsRemaining).pool ≤
          sizelimit ∨
        (trimToSize dynamicMemoryUsage pool sizelimit pvNoSpendsRemaining).pool.mapTx = []) :=
  trimLoop_spec dynamicMemoryUsage sizelimit _ _ (trimInv_init hpool hfee) (le_refl _)

def sampleTrimPool : CTxMemPool :=
  ⟨[⟨⟨1, [], [], 0, Vector.replicate 32 7⟩, 200, 500, 0, 1, 1, 200, 500, 1, 200, 500, 1⟩],
    fun _ => ⟨[], []⟩, [], 0, false⟩

theorem sampleTrimPool_linksConsistent : sampleTrimPool.LinksConsistent where
  parents tx htx q := by
    simp only [sampleTrimPool, CTxMemPool.txs, List.map_cons, List.map_nil,
      List.mem_singleton] at htx
    subst htx
    simp [sampleTrimPool, CTxMemPool.getMemPoolParentsNL, spendsFrom]
  children tx htx q := by
    simp only [sampleTrimPool, CTxMemPool.txs, List.map_cons, List.map_nil,
      List.mem_singleton] at htx
    subst htx
    simp [sampleTrimPool, CTxMemPool.getMemPoolChildrenNL, CTxMemPool.txs, spendsFrom]

theorem trim_to_size_sample :
    sampleTrimPool.LinksConsistent ∧ 0 ≤ sampleTrimPool.rollingMinimumFeeRate ∧
      TrimInv sampleTrimPool (some []) (trimToSize (·.mapTx.length) sampleTrimPool 0 (some [])) ∧
      ((trimToSize (·.mapTx.length) sampleTrimPool 0 (some [])).pool.mapTx.length ≤ 0 ∨
        (trimToSize (·.mapTx.length) sampleTrimPool 0 (some [])).pool.mapTx = []) :=
  ⟨sampleTrimPool_linksConsistent, le_refl 0,
    trim_to_size_removes_closures (·.mapTx.length) sampleTrimPool sampleTrimPool_linksConsistent
      (le_refl 0) 0 (some [])⟩

/-- With a null `pvNoSpendsRemaining`, trimming the one-transaction pool to zero removes its
transaction and returns no id. -/
theorem trim_to_size_unreported :
    (trimToSize (·.mapTx.length) sampleTrimPool 0 none).vRemovedTxIds = [] ∧
      sampleTrimPool.existsNL (Vector.replicate 32 7) = true ∧
      (trimToSize (·.mapTx.length) sampleTrimPool 0 none).pool.existsNL
        (Vector.replicate 32 7) = false := by
  decide

end TbcNode.Mempool
