import TbcNode.Logic.Worklist
import TbcNode.Primitives.Transaction

/-! # The memory pool and its staged removal (`txmempool.h`, `txmempool.cpp`)

Entries are named by transaction id, as the source's iterators name them. `removeStagedNL` keeps
`LinksConsistent`, the links being the spending relation in the pool, and under it
`CalculateDescendantsNL` returns exactly the in-pool descendants (`mem_calculateDescendantsNL`).
-/

namespace TbcNode.Mempool

open TbcNode.Primitives TbcNode.Logic

/-- `CFeeRate`: satoshis per 1000 bytes. -/
structure CFeeRate where
  nSatoshisPerK : Amount
  deriving DecidableEq, Repr

namespace CFeeRate

/-- `CFeeRate(nFeePaid, nBytes)`; the division truncates toward zero, as in C++. -/
def ofFee (nFeePaid : Amount) (nBytes : Int) : CFeeRate :=
  if nBytes > 0 then ⟨(1000 * nFeePaid).tdiv nBytes⟩ else ⟨0⟩

/-- `GetFee`: a nonzero rate charges at least one satoshi of its sign. -/
def getFee (rate : CFeeRate) (nBytes : Nat) : Amount :=
  let nFee := ((nBytes : Int) * rate.nSatoshisPerK).tdiv 1000
  if nFee = 0 ∧ nBytes ≠ 0 then
    if rate.nSatoshisPerK > 0 then 1 else if rate.nSatoshisPerK < 0 then -1 else nFee
  else nFee

def getFeePerK (rate : CFeeRate) : Amount := rate.getFee 1000

def add (a b : CFeeRate) : CFeeRate := ⟨a.nSatoshisPerK + b.nSatoshisPerK⟩

def max (a b : CFeeRate) : CFeeRate := if a.nSatoshisPerK < b.nSatoshisPerK then b else a

theorem getFeePerK_eq (rate : CFeeRate) : rate.getFeePerK = rate.nSatoshisPerK := by
  have h : ((1000 : Nat) * rate.nSatoshisPerK).tdiv 1000 = rate.nSatoshisPerK :=
    Int.mul_tdiv_cancel_left _ (by decide)
  unfold getFeePerK getFee
  dsimp only
  rw [h]
  split_ifs with h0 hpos hneg
  · exact absurd h0.1 (ne_of_gt hpos)
  · exact absurd h0.1 (ne_of_lt hneg)
  · rfl
  · rfl

theorem max_nSatoshisPerK (a b : CFeeRate) :
    (a.max b).nSatoshisPerK = Max.max a.nSatoshisPerK b.nSatoshisPerK := by
  unfold CFeeRate.max
  split_ifs with h
  · exact (max_eq_right h.le).symm
  · exact (max_eq_left (not_lt.mp h)).symm

end CFeeRate

/-- `CTxMemPoolEntry`, by the fields the removal code reads and writes. -/
structure CTxMemPoolEntry where
  tx : CTransaction
  nTxSize : Nat
  nModifiedFee : Amount
  nTime : Int
  sigOpCount : Int
  nCountWithDescendants : Int
  nSizeWithDescendants : Int
  nModFeesWithDescendants : Amount
  nCountWithAncestors : Int
  nSizeWithAncestors : Int
  nModFeesWithAncestors : Amount
  nSigOpCountWithAncestors : Int
  deriving DecidableEq, Repr

namespace CTxMemPoolEntry

def updateDescendantState (e : CTxMemPoolEntry) (modifySize : Int) (modifyFee : Amount)
    (modifyCount : Int) : CTxMemPoolEntry :=
  { e with
    nSizeWithDescendants := e.nSizeWithDescendants + modifySize
    nModFeesWithDescendants := e.nModFeesWithDescendants + modifyFee
    nCountWithDescendants := e.nCountWithDescendants + modifyCount }

def updateAncestorState (e : CTxMemPoolEntry) (modifySize : Int) (modifyFee : Amount)
    (modifyCount modifySigOps : Int) : CTxMemPoolEntry :=
  { e with
    nSizeWithAncestors := e.nSizeWithAncestors + modifySize
    nModFeesWithAncestors := e.nModFeesWithAncestors + modifyFee
    nCountWithAncestors := e.nCountWithAncestors + modifyCount
    nSigOpCountWithAncestors := e.nSigOpCountWithAncestors + modifySigOps }

end CTxMemPoolEntry

/-- `TxLinks`: the in-pool parents and children of an entry. -/
structure TxLinks where
  parents : List uint256
  children : List uint256
  deriving DecidableEq, Repr

/-- `CTxMemPool`, by the state the removal code reads and writes; `mapNextTx` maps each spent
outpoint to the id of the transaction spending it. `rollingMinimumFeeRate` is a `double` in the
source. -/
structure CTxMemPool where
  mapTx : List CTxMemPoolEntry
  mapLinks : uint256 → TxLinks
  mapNextTx : List (COutPoint × uint256)
  rollingMinimumFeeRate : Int
  blockSinceLastRollingFeeBump : Bool

/-- `tx` spends an output of the transaction with id `txid`. -/
def spendsFrom (tx : CTransaction) (txid : uint256) : Bool :=
  tx.vin.any fun txin => txin.prevout.txid == txid

namespace CTxMemPool

section Model

variable (pool : CTxMemPool)

def txs : List CTransaction := pool.mapTx.map (·.tx)

def lookup (txid : uint256) : Option CTxMemPoolEntry :=
  pool.mapTx.find? fun e => e.tx.getId == txid

def existsNL (txid : uint256) : Bool := pool.mapTx.any fun e => e.tx.getId == txid

def getMemPoolParentsNL (entry : uint256) : List uint256 := (pool.mapLinks entry).parents

def getMemPoolChildrenNL (entry : uint256) : List uint256 := (pool.mapLinks entry).children

def modifyEntry (txid : uint256) (f : CTxMemPoolEntry → CTxMemPoolEntry) : CTxMemPool :=
  { pool with mapTx := pool.mapTx.map fun e => if e.tx.getId = txid then f e else e }

/-- `updateChildNL`: add `child` to, or erase it from, the children of `entry`. -/
def updateChildNL (entry child : uint256) (add : Bool) : CTxMemPool :=
  let links := pool.mapLinks entry
  { pool with
    mapLinks := Function.update pool.mapLinks entry
      { links with
        children := if add then links.children.insert child else links.children.filter (· != child) } }

/-- `updateParentNL`: add `parent` to, or erase it from, the parents of `entry`. -/
def updateParentNL (entry parent : uint256) (add : Bool) : CTxMemPool :=
  let links := pool.mapLinks entry
  { pool with
    mapLinks := Function.update pool.mapLinks entry
      { links with
        parents := if add then links.parents.insert parent else links.parents.filter (· != parent) } }

/-- `CalculateDescendantsNL`: the entries reached from `entryit` through children links, added to
`setDescendants`. -/
def calculateDescendantsNL (entryit : uint256) (setDescendants : List uint256) : List uint256 :=
  worklist pool.getMemPoolChildrenNL pool.mapTx.length
    (if entryit ∈ setDescendants then [] else [entryit]) setDescendants

/-- `CalculateMemPoolAncestorsNL` as `updateForRemoveFromMempoolNL` calls it: parents are taken
from `mapLinks` (`fSearchForParents = false`), and every limit is `nNoLimit`, the largest
`uint64_t`, which no count or size can exceed, so the walk never fails. -/
def calculateMemPoolAncestorsNL (entry : uint256) : List uint256 :=
  worklist pool.getMemPoolParentsNL pool.mapTx.length (pool.getMemPoolParentsNL entry) []

/-- `updateAncestorsOfNL`: `it` is added to or erased from the children of its parents, and its
size, fee and count are added to or taken from the descendant state of `setAncestors`. `it` names an
entry of `mapTx`, whose size and fee are read through the iterator. -/
def updateAncestorsOfNL (add : Bool) (it : uint256) (setAncestors : List uint256) : CTxMemPool :=
  let linked := (pool.getMemPoolParentsNL it).foldl
    (fun pool piter => pool.updateChildNL piter it add) pool
  match pool.lookup it with
  | none => linked
  | some entry =>
    let updateCount : Int := if add then 1 else -1
    setAncestors.foldl (fun pool ancestorIt => pool.modifyEntry ancestorIt fun e =>
      e.updateDescendantState (updateCount * entry.nTxSize) (updateCount * entry.nModifiedFee)
        updateCount) linked

/-- `updateChildrenForRemovalNL`: the children of `it` lose it as a parent. -/
def updateChildrenForRemovalNL (it : uint256) : CTxMemPool :=
  (pool.getMemPoolChildrenNL it).foldl (fun pool updateIt => pool.updateParentNL updateIt it false)
    pool

/-- The `updateDescendants` pass of `updateForRemoveFromMempoolNL`: the in-pool descendants of
`removeIt` lose it from their ancestor state. -/
def updateDescendantsForRemoval (removeIt : uint256) : CTxMemPool :=
  match pool.lookup removeIt with
  | none => pool
  | some entry =>
    ((pool.calculateDescendantsNL removeIt []).filter (· != removeIt)).foldl
      (fun pool dit => pool.modifyEntry dit fun e =>
        e.updateAncestorState (-entry.nTxSize) (-entry.nModifiedFee) (-1) (-entry.sigOpCount))
      pool

/-- `updateForRemoveFromMempoolNL`: ancestor state (when `updateDescendants`), then descendant
state and children links of all the entries, and only after that their parents links. -/
def updateForRemoveFromMempoolNL (entriesToRemove : List uint256) (updateDescendants : Bool) :
    CTxMemPool :=
  let updated := if updateDescendants then
      entriesToRemove.foldl (fun pool removeIt => pool.updateDescendantsForRemoval removeIt) pool
    else pool
  let unlinked := entriesToRemove.foldl (fun pool removeIt =>
    pool.updateAncestorsOfNL false removeIt (pool.calculateMemPoolAncestorsNL removeIt)) updated
  entriesToRemove.foldl (fun pool removeIt => pool.updateChildrenForRemovalNL removeIt) unlinked

/-- `removeUncheckedNL`: the entry's spent outpoints, its links and the entry are erased. -/
def removeUncheckedNL (it : uint256) : CTxMemPool :=
  match pool.lookup it with
  | none => pool
  | some entry =>
    { pool with
      mapNextTx := pool.mapNextTx.filter fun spent =>
        !entry.tx.vin.any fun txin => txin.prevout == spent.1
      mapLinks := Function.update pool.mapLinks it ⟨[], []⟩
      mapTx := pool.mapTx.filter fun e => e.tx.getId != it }

def removeStagedNL (stage : List uint256) (updateDescendants : Bool) : CTxMemPool :=
  stage.foldl (fun pool it => pool.removeUncheckedNL it)
    (pool.updateForRemoveFromMempoolNL stage updateDescendants)

def trackPackageRemovedNL (rate : CFeeRate) : CTxMemPool :=
  if rate.getFeePerK > pool.rollingMinimumFeeRate then
    { pool with rollingMinimumFeeRate := rate.getFeePerK, blockSinceLastRollingFeeBump := false }
  else pool

end Model

/-- The links are the spending relation between the pool's transactions: the parents of an entry
are the pool transactions it spends from and its children those spending it. -/
structure LinksConsistent (pool : CTxMemPool) : Prop where
  parents : ∀ tx ∈ pool.txs, ∀ q,
    q ∈ pool.getMemPoolParentsNL tx.getId ↔ pool.existsNL q = true ∧ spendsFrom tx q = true
  children : ∀ tx ∈ pool.txs, ∀ q,
    q ∈ pool.getMemPoolChildrenNL tx.getId ↔ ∃ c ∈ pool.txs, c.getId = q ∧ spendsFrom c tx.getId = true

/-- `child` spends an output of `parent`, both in the pool. -/
def Spends (pool : CTxMemPool) (parent child : CTransaction) : Prop :=
  parent ∈ pool.txs ∧ child ∈ pool.txs ∧ spendsFrom child parent.getId = true

section Lemmas

variable {pool : CTxMemPool}

theorem existsNL_iff {txid : uint256} : pool.existsNL txid = true ↔ ∃ tx ∈ pool.txs, tx.getId = txid := by
  simp [existsNL, txs]

theorem lookup_eq_some {txid : uint256} {entry : CTxMemPoolEntry} (h : pool.lookup txid = some entry) :
    entry ∈ pool.mapTx ∧ entry.tx.getId = txid :=
  ⟨List.mem_of_find?_eq_some h, by simpa using List.find?_some h⟩

theorem lookup_eq_none {txid : uint256} (h : pool.lookup txid = none) :
    ∀ e ∈ pool.mapTx, e.tx.getId ≠ txid := by
  simpa [lookup] using h

theorem existsNL_of_lookup {txid : uint256} {entry : CTxMemPoolEntry}
    (h : pool.lookup txid = some entry) : pool.existsNL txid = true := by
  obtain ⟨hmem, hid⟩ := lookup_eq_some h
  exact existsNL_iff.mpr ⟨entry.tx, List.mem_map_of_mem hmem, hid⟩

theorem foldl_eq_of_forall {β γ δ : Type*} (g : β → δ) (f : β → γ → β) (h : ∀ b a, g (f b a) = g b) :
    ∀ (l : List γ) (b : β), g (l.foldl f b) = g b
  | [], _ => rfl
  | a :: l, b => (foldl_eq_of_forall g f h l (f b a)).trans (h b a)

/-! ### What each operation leaves unchanged -/

@[simp] theorem modifyEntry_txs (txid : uint256) {f : CTxMemPoolEntry → CTxMemPoolEntry}
    (hf : ∀ e, (f e).tx = e.tx) : (pool.modifyEntry txid f).txs = pool.txs := by
  unfold modifyEntry txs
  rw [List.map_map]
  apply List.map_congr_left
  intro e _
  by_cases h : e.tx.getId = txid <;> simp [h, hf]

@[simp] theorem modifyEntry_mapLinks (txid : uint256) (f : CTxMemPoolEntry → CTxMemPoolEntry) :
    (pool.modifyEntry txid f).mapLinks = pool.mapLinks := rfl

@[simp] theorem modifyEntry_length (txid : uint256) (f : CTxMemPoolEntry → CTxMemPoolEntry) :
    (pool.modifyEntry txid f).mapTx.length = pool.mapTx.length := by
  simp [modifyEntry]

theorem foldl_modifyEntry_txs {f : uint256 → CTxMemPoolEntry → CTxMemPoolEntry}
    (hf : ∀ a e, (f a e).tx = e.tx) (l : List uint256) (pool : CTxMemPool) :
    (l.foldl (fun pool a => pool.modifyEntry a (f a)) pool).txs = pool.txs :=
  foldl_eq_of_forall txs (fun pool a => pool.modifyEntry a (f a))
    (fun _ a => modifyEntry_txs a (hf a)) l pool

theorem foldl_modifyEntry_mapLinks (f : uint256 → CTxMemPoolEntry → CTxMemPoolEntry)
    (l : List uint256) (pool : CTxMemPool) :
    (l.foldl (fun pool a => pool.modifyEntry a (f a)) pool).mapLinks = pool.mapLinks :=
  foldl_eq_of_forall mapLinks (fun pool a => pool.modifyEntry a (f a)) (fun _ _ => rfl) l pool

@[simp] theorem updateChildNL_mapTx (entry child : uint256) (add : Bool) :
    (pool.updateChildNL entry child add).mapTx = pool.mapTx := rfl

@[simp] theorem updateParentNL_mapTx (entry parent : uint256) (add : Bool) :
    (pool.updateParentNL entry parent add).mapTx = pool.mapTx := rfl

@[simp] theorem updateChildNL_parents (entry child : uint256) (add : Bool) (t : uint256) :
    (pool.updateChildNL entry child add).getMemPoolParentsNL t = pool.getMemPoolParentsNL t := by
  unfold updateChildNL getMemPoolParentsNL
  by_cases h : t = entry
  · subst h; simp
  · simp [Function.update_of_ne h]

@[simp] theorem updateParentNL_children (entry parent : uint256) (add : Bool) (t : uint256) :
    (pool.updateParentNL entry parent add).getMemPoolChildrenNL t = pool.getMemPoolChildrenNL t := by
  unfold updateParentNL getMemPoolChildrenNL
  by_cases h : t = entry
  · subst h; simp
  · simp [Function.update_of_ne h]

theorem mem_children_updateChildNL {entry child t c : uint256} :
    c ∈ (pool.updateChildNL entry child false).getMemPoolChildrenNL t ↔
      c ∈ pool.getMemPoolChildrenNL t ∧ ¬(t = entry ∧ c = child) := by
  unfold updateChildNL getMemPoolChildrenNL
  by_cases h : t = entry
  · subst h; simp
  · simp [h]

theorem mem_parents_updateParentNL {entry parent t p : uint256} :
    p ∈ (pool.updateParentNL entry parent false).getMemPoolParentsNL t ↔
      p ∈ pool.getMemPoolParentsNL t ∧ ¬(t = entry ∧ p = parent) := by
  unfold updateParentNL getMemPoolParentsNL
  by_cases h : t = entry
  · subst h; simp
  · simp [h]

/-! ### The three passes of `updateForRemoveFromMempoolNL` -/

theorem mem_children_foldl_updateChildNL (it t c : uint256) :
    ∀ (parents : List uint256) (pool : CTxMemPool),
      c ∈ (parents.foldl (fun pool piter => pool.updateChildNL piter it false) pool).getMemPoolChildrenNL t ↔
        c ∈ pool.getMemPoolChildrenNL t ∧ ¬(t ∈ parents ∧ c = it)
  | [], pool => by simp
  | p :: ps, pool => by
    rw [List.foldl_cons, mem_children_foldl_updateChildNL it t c ps, mem_children_updateChildNL,
      List.mem_cons]
    tauto

theorem updateAncestorsOfNL_txs (it : uint256) (setAncestors : List uint256) :
    (pool.updateAncestorsOfNL false it setAncestors).txs = pool.txs := by
  have hlinked : ∀ (l : List uint256) (pool : CTxMemPool),
      (l.foldl (fun pool piter => pool.updateChildNL piter it false) pool).txs = pool.txs :=
    foldl_eq_of_forall txs (fun pool piter => pool.updateChildNL piter it false) fun _ _ => rfl
  unfold updateAncestorsOfNL
  split
  · exact hlinked _ _
  · dsimp only
    refine Eq.trans ?_ (hlinked (pool.getMemPoolParentsNL it) pool)
    apply foldl_modifyEntry_txs
    intro _ _
    rfl

theorem updateAncestorsOfNL_length (it : uint256) (setAncestors : List uint256) :
    (pool.updateAncestorsOfNL false it setAncestors).mapTx.length = pool.mapTx.length := by
  have h := congrArg List.length (@updateAncestorsOfNL_txs pool it setAncestors)
  simpa [txs] using h

theorem updateAncestorsOfNL_links (it : uint256) (setAncestors : List uint256) :
    (∀ t, (pool.updateAncestorsOfNL false it setAncestors).getMemPoolParentsNL t =
      pool.getMemPoolParentsNL t) ∧
    ∀ t c, c ∈ (pool.updateAncestorsOfNL false it setAncestors).getMemPoolChildrenNL t ↔
      c ∈ pool.getMemPoolChildrenNL t ∧ ¬(t ∈ pool.getMemPoolParentsNL it ∧ c = it) := by
  have hparents : ∀ (l : List uint256) (pool : CTxMemPool) t,
      (l.foldl (fun pool piter => pool.updateChildNL piter it false) pool).getMemPoolParentsNL t =
        pool.getMemPoolParentsNL t := fun l pool t =>
    foldl_eq_of_forall (fun pool : CTxMemPool => pool.getMemPoolParentsNL t)
      (fun pool piter => pool.updateChildNL piter it false) (fun _ _ => by simp) l pool
  have hlinks : (pool.updateAncestorsOfNL false it setAncestors).mapLinks =
      ((pool.getMemPoolParentsNL it).foldl (fun pool piter => pool.updateChildNL piter it false)
        pool).mapLinks := by
    unfold updateAncestorsOfNL
    split
    · rfl
    · exact foldl_modifyEntry_mapLinks _ _ _
  refine ⟨fun t => ?_, fun t c => ?_⟩
  · simp only [getMemPoolParentsNL] at hparents ⊢
    rw [hlinks, hparents]
  · rw [← mem_children_foldl_updateChildNL]
    simp only [getMemPoolChildrenNL, hlinks]

theorem updateDescendantsForRemoval_txs (removeIt : uint256) :
    (pool.updateDescendantsForRemoval removeIt).txs = pool.txs := by
  unfold updateDescendantsForRemoval
  split
  · rfl
  · apply foldl_modifyEntry_txs
    intro _ _
    rfl

theorem updateDescendantsForRemoval_mapLinks (removeIt : uint256) :
    (pool.updateDescendantsForRemoval removeIt).mapLinks = pool.mapLinks := by
  unfold updateDescendantsForRemoval
  split
  · rfl
  · exact foldl_modifyEntry_mapLinks _ _ _

theorem foldl_updateAncestorsOfNL_links (stage : List uint256) :
    ∀ pool : CTxMemPool,
      let unlinked := stage.foldl (fun pool removeIt =>
        pool.updateAncestorsOfNL false removeIt (pool.calculateMemPoolAncestorsNL removeIt)) pool
      unlinked.txs = pool.txs ∧
      (∀ t, unlinked.getMemPoolParentsNL t = pool.getMemPoolParentsNL t) ∧
      ∀ t c, c ∈ unlinked.getMemPoolChildrenNL t ↔
        c ∈ pool.getMemPoolChildrenNL t ∧ ¬(c ∈ stage ∧ t ∈ pool.getMemPoolParentsNL c) := by
  induction stage with
  | nil => intro pool; simp
  | cons r rs ih =>
    intro pool
    obtain ⟨htxs, hparents, hchildren⟩ := ih (pool.updateAncestorsOfNL false r
      (pool.calculateMemPoolAncestorsNL r))
    obtain ⟨hparents₁, hchildren₁⟩ := @updateAncestorsOfNL_links pool r
      (pool.calculateMemPoolAncestorsNL r)
    refine ⟨?_, fun t => ?_, fun t c => ?_⟩
    · rw [List.foldl_cons, htxs, updateAncestorsOfNL_txs]
    · rw [List.foldl_cons, hparents, hparents₁]
    · rw [List.foldl_cons, hchildren, hchildren₁, hparents₁, List.mem_cons]
      constructor
      · rintro ⟨⟨hc, hnot₁⟩, hnot⟩
        refine ⟨hc, ?_⟩
        rintro ⟨rfl | hc', ht⟩
        · exact hnot₁ ⟨ht, rfl⟩
        · exact hnot ⟨hc', ht⟩
      · rintro ⟨hc, hnot⟩
        refine ⟨⟨hc, ?_⟩, ?_⟩
        · rintro ⟨ht, rfl⟩
          exact hnot ⟨.inl rfl, ht⟩
        · rintro ⟨hc', ht⟩
          exact hnot ⟨.inr hc', ht⟩

theorem mem_parents_updateChildrenForRemovalNL (it t p : uint256) :
    p ∈ (pool.updateChildrenForRemovalNL it).getMemPoolParentsNL t ↔
      p ∈ pool.getMemPoolParentsNL t ∧ ¬(p = it ∧ t ∈ pool.getMemPoolChildrenNL it) := by
  unfold updateChildrenForRemovalNL
  generalize hcs : pool.getMemPoolChildrenNL it = cs
  have key : ∀ (cs : List uint256) (pool : CTxMemPool),
      p ∈ (cs.foldl (fun pool updateIt => pool.updateParentNL updateIt it false)
        pool).getMemPoolParentsNL t ↔ p ∈ pool.getMemPoolParentsNL t ∧ ¬(p = it ∧ t ∈ cs) := by
    intro cs
    induction cs with
    | nil => simp
    | cons c cs ih =>
      intro pool
      rw [List.foldl_cons, ih, mem_parents_updateParentNL, List.mem_cons]
      tauto
  exact key cs pool

theorem updateChildrenForRemovalNL_children (it t : uint256) :
    (pool.updateChildrenForRemovalNL it).getMemPoolChildrenNL t = pool.getMemPoolChildrenNL t :=
  foldl_eq_of_forall (fun pool : CTxMemPool => pool.getMemPoolChildrenNL t)
    (fun pool updateIt => pool.updateParentNL updateIt it false) (fun _ _ => by simp) _ _

theorem updateChildrenForRemovalNL_txs (it : uint256) :
    (pool.updateChildrenForRemovalNL it).txs = pool.txs :=
  foldl_eq_of_forall txs (fun pool updateIt => pool.updateParentNL updateIt it false)
    (fun _ _ => rfl) _ _

theorem foldl_updateChildrenForRemovalNL_links (stage : List uint256) :
    ∀ pool : CTxMemPool,
      let severed := stage.foldl (fun pool removeIt => pool.updateChildrenForRemovalNL removeIt) pool
      severed.txs = pool.txs ∧
      (∀ t, severed.getMemPoolChildrenNL t = pool.getMemPoolChildrenNL t) ∧
      ∀ t p, p ∈ severed.getMemPoolParentsNL t ↔
        p ∈ pool.getMemPoolParentsNL t ∧ ¬(p ∈ stage ∧ t ∈ pool.getMemPoolChildrenNL p) := by
  induction stage with
  | nil => intro pool; simp
  | cons r rs ih =>
    intro pool
    obtain ⟨htxs, hchildren, hparents⟩ := ih (pool.updateChildrenForRemovalNL r)
    refine ⟨?_, fun t => ?_, fun t p => ?_⟩
    · rw [List.foldl_cons, htxs, updateChildrenForRemovalNL_txs]
    · rw [List.foldl_cons, hchildren, updateChildrenForRemovalNL_children]
    · simp only [List.foldl_cons, hparents, mem_parents_updateChildrenForRemovalNL,
        updateChildrenForRemovalNL_children, List.mem_cons]
      constructor
      · rintro ⟨⟨hp, hnot₁⟩, hnot⟩
        refine ⟨hp, ?_⟩
        rintro ⟨rfl | hp', ht⟩
        · exact hnot₁ ⟨rfl, ht⟩
        · exact hnot ⟨hp', ht⟩
      · rintro ⟨hp, hnot⟩
        refine ⟨⟨hp, ?_⟩, ?_⟩
        · rintro ⟨rfl, ht⟩
          exact hnot ⟨.inl rfl, ht⟩
        · rintro ⟨hp', ht⟩
          exact hnot ⟨.inr hp', ht⟩

/-! ### Erasing the entries -/

theorem removeUncheckedNL_txs (it : uint256) :
    (pool.removeUncheckedNL it).txs = pool.txs.filter fun tx => tx.getId != it := by
  unfold removeUncheckedNL
  split
  · next hnone =>
    refine (List.filter_eq_self.mpr ?_).symm
    intro tx htx
    obtain ⟨e, he, rfl⟩ := List.mem_map.mp htx
    simpa using lookup_eq_none hnone e he
  · simp only [txs, List.filter_map]
    rfl

theorem removeUncheckedNL_mapLinks_of_ne {it t : uint256} (h : t ≠ it) :
    (pool.removeUncheckedNL it).mapLinks t = pool.mapLinks t := by
  unfold removeUncheckedNL
  split
  · rfl
  · exact Function.update_of_ne h _ _

theorem foldl_removeUncheckedNL_txs (stage : List uint256) :
    ∀ pool : CTxMemPool, (stage.foldl (fun pool it => pool.removeUncheckedNL it) pool).txs =
      pool.txs.filter fun tx => tx.getId ∉ stage := by
  induction stage with
  | nil => intro pool; simp
  | cons r rs ih =>
    intro pool
    rw [List.foldl_cons, ih, removeUncheckedNL_txs, List.filter_filter]
    apply List.filter_congr
    intro tx _
    by_cases h : tx.getId = r <;> simp [h]

theorem foldl_removeUncheckedNL_mapLinks (stage : List uint256) {t : uint256} (ht : t ∉ stage) :
    ∀ pool : CTxMemPool, (stage.foldl (fun pool it => pool.removeUncheckedNL it) pool).mapLinks t =
      pool.mapLinks t := by
  induction stage with
  | nil => intro pool; rfl
  | cons r rs ih =>
    intro pool
    rw [List.mem_cons, not_or] at ht
    rw [List.foldl_cons, ih ht.2, removeUncheckedNL_mapLinks_of_ne ht.1]

/-! ### `removeStagedNL` -/

theorem removeStagedNL_txs (stage : List uint256) (updateDescendants : Bool) :
    (pool.removeStagedNL stage updateDescendants).txs =
      pool.txs.filter fun tx => tx.getId ∉ stage := by
  have hupdated : (if updateDescendants then
      stage.foldl (fun pool removeIt => pool.updateDescendantsForRemoval removeIt) pool
      else pool).txs = pool.txs := by
    split
    · exact foldl_eq_of_forall txs (fun pool removeIt => pool.updateDescendantsForRemoval removeIt)
        (fun _ _ => updateDescendantsForRemoval_txs _) _ _
    · rfl
  unfold removeStagedNL updateForRemoveFromMempoolNL
  rw [foldl_removeUncheckedNL_txs, (foldl_updateChildrenForRemovalNL_links stage _).1,
    (foldl_updateAncestorsOfNL_links stage _).1, hupdated]

theorem removeStagedNL_links (stage : List uint256) (updateDescendants : Bool) {t : uint256}
    (ht : t ∉ stage) :
    (∀ c, c ∈ (pool.removeStagedNL stage updateDescendants).getMemPoolChildrenNL t ↔
      c ∈ pool.getMemPoolChildrenNL t ∧ ¬(c ∈ stage ∧ t ∈ pool.getMemPoolParentsNL c)) ∧
    ∀ p, p ∈ (pool.removeStagedNL stage updateDescendants).getMemPoolParentsNL t ↔
      p ∈ pool.getMemPoolParentsNL t ∧ ¬(p ∈ stage ∧ t ∈ pool.getMemPoolChildrenNL p) := by
  set updated := if updateDescendants then
      stage.foldl (fun pool removeIt => pool.updateDescendantsForRemoval removeIt) pool
    else pool with hupdated_def
  have hupdated : updated.mapLinks = pool.mapLinks := by
    rw [hupdated_def]
    split
    · exact foldl_eq_of_forall mapLinks
        (fun pool removeIt => pool.updateDescendantsForRemoval removeIt)
        (fun _ _ => updateDescendantsForRemoval_mapLinks _) _ _
    · rfl
  have hupdatedP : ∀ s, updated.getMemPoolParentsNL s = pool.getMemPoolParentsNL s := fun s => by
    unfold getMemPoolParentsNL; rw [hupdated]
  have hupdatedC : ∀ s, updated.getMemPoolChildrenNL s = pool.getMemPoolChildrenNL s := fun s => by
    unfold getMemPoolChildrenNL; rw [hupdated]
  set unlinked := stage.foldl (fun pool removeIt =>
    pool.updateAncestorsOfNL false removeIt (pool.calculateMemPoolAncestorsNL removeIt)) updated
  obtain ⟨-, hparentsA, hchildrenA⟩ := foldl_updateAncestorsOfNL_links stage updated
  obtain ⟨-, hchildrenB, hparentsB⟩ := foldl_updateChildrenForRemovalNL_links stage unlinked
  have hfinal : (pool.removeStagedNL stage updateDescendants).mapLinks t =
      (stage.foldl (fun pool removeIt => pool.updateChildrenForRemovalNL removeIt)
        unlinked).mapLinks t :=
    foldl_removeUncheckedNL_mapLinks stage ht _
  constructor
  · intro c
    have hC : (pool.removeStagedNL stage updateDescendants).getMemPoolChildrenNL t =
        (stage.foldl (fun pool removeIt => pool.updateChildrenForRemovalNL removeIt)
          unlinked).getMemPoolChildrenNL t := by
      unfold getMemPoolChildrenNL; rw [hfinal]
    rw [hC, hchildrenB, hchildrenA, hupdatedC, hupdatedP]
  · intro p
    have hP : (pool.removeStagedNL stage updateDescendants).getMemPoolParentsNL t =
        (stage.foldl (fun pool removeIt => pool.updateChildrenForRemovalNL removeIt)
          unlinked).getMemPoolParentsNL t := by
      unfold getMemPoolParentsNL; rw [hfinal]
    rw [hP, hparentsB, hparentsA, hchildrenA, hupdatedC, hupdatedP]
    simp only [ht, false_and, not_false_eq_true, and_true]


theorem removeStagedNL_rollingMinimumFeeRate (stage : List uint256) (updateDescendants : Bool) :
    (pool.removeStagedNL stage updateDescendants).rollingMinimumFeeRate =
      pool.rollingMinimumFeeRate := by
  have hlinked : ∀ it (l : List uint256) (pool : CTxMemPool),
      (l.foldl (fun pool piter => pool.updateChildNL piter it false) pool).rollingMinimumFeeRate =
        pool.rollingMinimumFeeRate := fun it =>
    foldl_eq_of_forall rollingMinimumFeeRate (fun pool piter => pool.updateChildNL piter it false)
      fun _ _ => rfl
  have hmodify : ∀ (f : uint256 → CTxMemPoolEntry → CTxMemPoolEntry) (l : List uint256)
      (pool : CTxMemPool), (l.foldl (fun pool a => pool.modifyEntry a (f a)) pool).rollingMinimumFeeRate =
        pool.rollingMinimumFeeRate := fun f =>
    foldl_eq_of_forall rollingMinimumFeeRate (fun pool a => pool.modifyEntry a (f a)) fun _ _ => rfl
  have hancestors : ∀ (pool : CTxMemPool) (removeIt : uint256),
      (pool.updateAncestorsOfNL false removeIt
        (pool.calculateMemPoolAncestorsNL removeIt)).rollingMinimumFeeRate =
        pool.rollingMinimumFeeRate := by
    intro pool removeIt
    unfold updateAncestorsOfNL
    split
    · exact hlinked _ _ _
    · dsimp only
      rw [← hlinked removeIt (pool.getMemPoolParentsNL removeIt) pool]
      apply hmodify
  have hdescendants : ∀ (pool : CTxMemPool) (removeIt : uint256),
      (pool.updateDescendantsForRemoval removeIt).rollingMinimumFeeRate =
        pool.rollingMinimumFeeRate := by
    intro pool removeIt
    unfold updateDescendantsForRemoval
    split
    · rfl
    · apply hmodify
  have hchildren : ∀ (pool : CTxMemPool) (removeIt : uint256),
      (pool.updateChildrenForRemovalNL removeIt).rollingMinimumFeeRate =
        pool.rollingMinimumFeeRate := fun pool removeIt =>
    foldl_eq_of_forall rollingMinimumFeeRate
      (fun pool updateIt => pool.updateParentNL updateIt removeIt false) (fun _ _ => rfl) _ _
  have hremove : ∀ (pool : CTxMemPool) (it : uint256),
      (pool.removeUncheckedNL it).rollingMinimumFeeRate = pool.rollingMinimumFeeRate := by
    intro pool it
    unfold removeUncheckedNL
    split <;> rfl
  unfold removeStagedNL updateForRemoveFromMempoolNL
  rw [foldl_eq_of_forall rollingMinimumFeeRate _ hremove,
    foldl_eq_of_forall rollingMinimumFeeRate _ hchildren,
    foldl_eq_of_forall rollingMinimumFeeRate _ hancestors]
  split
  · exact foldl_eq_of_forall rollingMinimumFeeRate _ hdescendants _ _
  · rfl

/-! ### Consistency of the links -/

theorem mem_removeStagedNL_txs {stage : List uint256} {updateDescendants : Bool}
    {tx : CTransaction} :
    tx ∈ (pool.removeStagedNL stage updateDescendants).txs ↔ tx ∈ pool.txs ∧ tx.getId ∉ stage := by
  rw [removeStagedNL_txs, List.mem_filter, decide_eq_true_iff]

theorem existsNL_removeStagedNL {stage : List uint256} {updateDescendants : Bool}
    {txid : uint256} :
    (pool.removeStagedNL stage updateDescendants).existsNL txid = true ↔
      pool.existsNL txid = true ∧ txid ∉ stage := by
  simp only [existsNL_iff, mem_removeStagedNL_txs]
  constructor
  · rintro ⟨tx, ⟨htx, hstage⟩, rfl⟩
    exact ⟨⟨tx, htx, rfl⟩, hstage⟩
  · rintro ⟨⟨tx, htx, rfl⟩, hstage⟩
    exact ⟨tx, ⟨htx, hstage⟩, rfl⟩

theorem mem_txs_of_transGen_spends {y x : CTransaction} (h : Relation.TransGen (Spends pool) y x) :
    y ∈ pool.txs := by
  induction h with
  | single hyx => exact hyx.1
  | tail _ _ ih => exact ih

theorem LinksConsistent.succ_of_spends (hP : pool.LinksConsistent) {parent child : CTransaction}
    (h : Spends pool parent child) : Succ pool.getMemPoolChildrenNL parent.getId child.getId :=
  (hP.children parent h.1 child.getId).mpr ⟨child, h.2.1, rfl, h.2.2⟩

/-- Removing any set of entries keeps the links consistent: the parents pass erases exactly the
removed children, and the children pass exactly the removed parents. -/
theorem LinksConsistent.removeStagedNL (hP : pool.LinksConsistent) (stage : List uint256)
    (updateDescendants : Bool) : (pool.removeStagedNL stage updateDescendants).LinksConsistent where
  parents tx htx q := by
    obtain ⟨htx, hstage⟩ := mem_removeStagedNL_txs.mp htx
    rw [(removeStagedNL_links stage updateDescendants hstage).2, hP.parents tx htx,
      existsNL_removeStagedNL]
    constructor
    · rintro ⟨⟨hq, hspends⟩, hnot⟩
      refine ⟨⟨hq, fun hqs => hnot ⟨hqs, ?_⟩⟩, hspends⟩
      obtain ⟨txq, htxq, rfl⟩ := existsNL_iff.mp hq
      exact (hP.children txq htxq tx.getId).mpr ⟨tx, htx, rfl, hspends⟩
    · rintro ⟨⟨hq, hqs⟩, hspends⟩
      exact ⟨⟨hq, hspends⟩, fun h => hqs h.1⟩
  children tx htx c := by
    obtain ⟨htx, hstage⟩ := mem_removeStagedNL_txs.mp htx
    rw [(removeStagedNL_links stage updateDescendants hstage).1, hP.children tx htx]
    constructor
    · rintro ⟨⟨d, hd, rfl, hspends⟩, hnot⟩
      refine ⟨d, mem_removeStagedNL_txs.mpr ⟨hd, fun hds => hnot ⟨hds, ?_⟩⟩, rfl, hspends⟩
      exact (hP.parents d hd tx.getId).mpr ⟨existsNL_iff.mpr ⟨tx, htx, rfl⟩, hspends⟩
    · rintro ⟨d, hd, rfl, hspends⟩
      obtain ⟨hd, hds⟩ := mem_removeStagedNL_txs.mp hd
      exact ⟨⟨d, hd, rfl, hspends⟩, fun h => hds h.1⟩

/-- Under consistent links, `CalculateDescendantsNL` from a pool entry, with nothing found yet,
returns exactly what its children links reach. -/
theorem mem_calculateDescendantsNL (hP : pool.LinksConsistent) {it : uint256}
    (hit : pool.existsNL it = true) (y : uint256) :
    y ∈ pool.calculateDescendantsNL it [] ↔
      Relation.ReflTransGen (Succ pool.getMemPoolChildrenNL) it y := by
  have hU : ∀ x ∈ (pool.txs.map CTransaction.getId).toFinset, ∀ y ∈ pool.getMemPoolChildrenNL x,
      y ∈ (pool.txs.map CTransaction.getId).toFinset := by
    intro x hx y hy
    obtain ⟨tx, htx, rfl⟩ := List.mem_map.mp (List.mem_toFinset.mp hx)
    obtain ⟨c, hc, rfl, -⟩ := (hP.children tx htx y).mp hy
    exact List.mem_toFinset.mpr (List.mem_map_of_mem hc)
  have hinit : ∀ s ∈ [it], s ∈ (pool.txs.map CTransaction.getId).toFinset := by
    intro s hs
    obtain ⟨tx, htx, rfl⟩ := existsNL_iff.mp hit
    rw [List.mem_singleton.mp hs]
    exact List.mem_toFinset.mpr (List.mem_map_of_mem htx)
  have hfuel : (pool.txs.map CTransaction.getId).toFinset.card ≤ pool.mapTx.length :=
    (List.toFinset_card_le _).trans (by simp [txs])
  unfold calculateDescendantsNL
  rw [if_neg List.not_mem_nil, mem_worklist_iff hU hinit hfuel]
  simp

theorem existsNL_of_mem_calculateDescendantsNL (hP : pool.LinksConsistent) {it y : uint256}
    (hit : pool.existsNL it = true) (hy : y ∈ pool.calculateDescendantsNL it []) :
    pool.existsNL y = true := by
  have hsucc : ∀ x, pool.existsNL x = true → ∀ y ∈ pool.getMemPoolChildrenNL x,
      pool.existsNL y = true := by
    intro x hx y hy
    obtain ⟨tx, htx, rfl⟩ := existsNL_iff.mp hx
    obtain ⟨c, hc, rfl, -⟩ := (hP.children tx htx y).mp hy
    exact existsNL_iff.mpr ⟨c, hc, rfl⟩
  have hreach := (mem_calculateDescendantsNL hP hit y).mp hy
  clear hy
  induction hreach with
  | refl => exact hit
  | tail _ hbc ih => exact hsucc _ ih _ hbc

theorem trackPackageRemovedNL_eq (rate : CFeeRate) :
    pool.trackPackageRemovedNL rate =
      { pool with
        rollingMinimumFeeRate := Max.max pool.rollingMinimumFeeRate rate.nSatoshisPerK
        blockSinceLastRollingFeeBump := if rate.nSatoshisPerK > pool.rollingMinimumFeeRate then false
          else pool.blockSinceLastRollingFeeBump } := by
  unfold trackPackageRemovedNL
  rw [CFeeRate.getFeePerK_eq]
  split_ifs with h
  · rw [max_eq_right h.le]
  · rw [max_eq_left (not_lt.mp h)]

end Lemmas

end CTxMemPool

end TbcNode.Mempool
