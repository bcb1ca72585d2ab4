import TbcNode.Logic.AssocList
import TbcNode.Logic.Sequence
import TbcNode.Net.BlockEncodings

/-! # Reconstructing a block from a compact block (`blockencodings.cpp`)

`InitData` lays out the slots of a block and fills what it can from the pools, and `FillBlock`
puts the missing transactions into the empty slots. `index_offset` and the positions of the short
id map are `uint32_t`; `GetShortID` and the bucket check are parameters.
-/

namespace TbcNode.Net

open TbcNode.Logic TbcNode.Primitives

/-! ### Blocks and their compact form -/

/-- `ReadStatus`. -/
inductive ReadStatus
  | READ_STATUS_OK
  | READ_STATUS_INVALID
  | READ_STATUS_FAILED
  | READ_STATUS_CHECKBLOCK_FAILED
  deriving DecidableEq, Repr

def CBlockHeader.isNull (header : CBlockHeader) : Bool := header.nBits == 0

/-- The header `CBlockHeader::SetNull` leaves. -/
def CBlockHeader.null : CBlockHeader := ⟨0, Vector.replicate 32 0, Vector.replicate 32 0, 0, 0, 0⟩

/-- `CBlock`: the header and the transactions. -/
structure CBlock where
  header : CBlockHeader
  vtx : List CTransaction
  deriving DecidableEq, Repr

/-- `MIN_TRANSACTION_SIZE`: the serialised size of an empty transaction. -/
def MIN_TRANSACTION_SIZE : Nat := 10

example : (serializeTransaction ⟨0, [], [], 0⟩).map List.length = .ok MIN_TRANSACTION_SIZE := rfl

def CBlockHeaderAndShortTxIDs.blockTxCount {Tx : Type} (c : CBlockHeaderAndShortTxIDs Tx) : Nat :=
  c.shorttxids.length + c.prefilledtxn.length

variable (getShortID : CBlockHeader → UInt64 → uint256 → UInt64)

/-- `CBlockHeaderAndShortTxIDs(const CBlock &)` with the nonce it draws: the coinbase prefilled at
offset 0 and the short ids of the others. A block without transactions asks for a vector of
`size_t(-1)` short ids. -/
def CBlockHeaderAndShortTxIDs.ofBlock (nonce : UInt64) (block : CBlock) :
    Except String (CBlockHeaderAndShortTxIDs CTransaction) :=
  match block.vtx with
  | [] => .error "cannot create std::vector larger than max_size()"
  | coinbase :: rest =>
    .ok ⟨nonce, rest.map fun tx => getShortID block.header nonce tx.hash, [⟨0, coinbase⟩],
      block.header⟩

/-- `PartiallyDownloadedBlock`: the slots and the header; the counters feed log lines only. -/
structure PartiallyDownloadedBlock where
  txnsAvailable : List (Option CTransaction)
  header : CBlockHeader

/-! ### `InitData` -/

/-- The loop over the prefilled transactions: each offset after the last position, which must fit
32 bits and leave room for the short ids, and the transaction written at the position. The outer
error is an index out of range, the inner one the status returned. -/
def prefilledLoop (nShort : Nat) :
    Nat → Int → List (Option CTransaction) → List (PrefilledTransaction CTransaction) →
      Except String (Except ReadStatus (List (Option CTransaction)))
  | _, _, txnsAvailable, [] => .ok (.ok txnsAvailable)
  | i, lastprefilledindex, txnsAvailable, prefilledtxn :: rest =>
    if prefilledtxn.tx.isNull then .ok (.error .READ_STATUS_INVALID)
    else if lastprefilledindex + prefilledtxn.index.toNat + 1 > 0xFFFFFFFF then
      .ok (.error .READ_STATUS_INVALID)
    else if (lastprefilledindex + prefilledtxn.index.toNat + 1).toNat > nShort + i then
      .ok (.error .READ_STATUS_INVALID)
    else if (lastprefilledindex + prefilledtxn.index.toNat + 1).toNat < txnsAvailable.length then
      prefilledLoop nShort (i + 1) (lastprefilledindex + prefilledtxn.index.toNat + 1)
        (txnsAvailable.set (lastprefilledindex + prefilledtxn.index.toNat + 1).toNat
          (some prefilledtxn.tx)) rest
    else .error "txns_available: index out of range"

/-- The rounds of `while (txns_available[i + index_offset]) index_offset++;`, at most `fuel` more:
the `uint32_t` `index_offset` wraps to 0 after `2 ^ 32 - 1`. -/
def scanLoop (txnsAvailable : List (Option CTransaction)) (i : Nat) :
    Nat → Nat → Except String Nat
  | 0, _ => .error "index_offset is back where it started: the loop does not end"
  | fuel + 1, indexOffset =>
    if h : i + indexOffset < txnsAvailable.length then
      match txnsAvailable[i + indexOffset] with
      | some _ => scanLoop txnsAvailable i fuel ((indexOffset + 1) % 2 ^ 32)
      | none => .ok indexOffset
    else .error "txns_available: index out of range"

/-- The scan for the next empty slot: after `2 ^ 32` filled ones `index_offset` is back where it
started. -/
def scanAvailable (txnsAvailable : List (Option CTransaction)) (i indexOffset : Nat) :
    Except String Nat :=
  scanLoop txnsAvailable i (2 ^ 32) indexOffset

/-- The map from short ids to positions, `std::unordered_map<uint64_t, uint32_t>`: its positions
are below `2 ^ 32`. -/
abbrev ShortIdMap := AList (fun _ : UInt64 => Nat)

variable (overfull : ShortIdMap → UInt64 → Bool)

/-- The loop over the short ids: the next free slot, recorded under the short id as a `uint32_t`,
and the bucket check of the map. -/
def shortIdLoop (txnsAvailable : List (Option CTransaction)) :
    Nat → Nat → ShortIdMap → List UInt64 → Except String (Except ReadStatus ShortIdMap)
  | _, _, shorttxids, [] => .ok (.ok shorttxids)
  | i, indexOffset, shorttxids, shortid :: rest => do
    let indexOffset ← scanAvailable txnsAvailable i indexOffset
    if overfull (shorttxids.insert shortid ((i + indexOffset) % 2 ^ 32)) shortid then
      pure (.error .READ_STATUS_FAILED)
    else
      shortIdLoop txnsAvailable (i + 1) indexOffset
        (shorttxids.insert shortid ((i + indexOffset) % 2 ^ 32)) rest

/-- What the two passes over the pools change. -/
structure FillState where
  txnsAvailable : List (Option CTransaction)
  haveTxn : List Bool
  mempoolCount : Nat

/-- One transaction of `vTxHashes`: the first whose short id is a slot's fills it, a second one
empties it again. -/
def mempoolStep (shortId : uint256 → UInt64) (shorttxids : ShortIdMap) (st : FillState)
    (txHash : uint256) (tx : CTransaction) : Except String FillState :=
  match shorttxids.lookup (shortId txHash) with
  | none => .ok st
  | some pos =>
    if h : pos < st.haveTxn.length ∧ pos < st.txnsAvailable.length then
      if !st.haveTxn[pos] then
        .ok { txnsAvailable := st.txnsAvailable.set pos (some tx),
              haveTxn := st.haveTxn.set pos true, mempoolCount := st.mempoolCount + 1 }
      else if st.txnsAvailable[pos].isSome then
        .ok { st with txnsAvailable := st.txnsAvailable.set pos none,
                      mempoolCount := st.mempoolCount - 1 }
      else .ok st
    else .error "have_txn: index out of range"

/-- One transaction of `extra_txn`, as one of the mempool, except that a second transaction empties
a slot only when its hash differs from the one there. -/
def extraStep (shortId : uint256 → UInt64) (shorttxids : ShortIdMap) (st : FillState)
    (txHash : uint256) (tx : CTransaction) : Except String FillState :=
  match shorttxids.lookup (shortId txHash) with
  | none => .ok st
  | some pos =>
    if h : pos < st.haveTxn.length ∧ pos < st.txnsAvailable.length then
      if !st.haveTxn[pos] then
        .ok { txnsAvailable := st.txnsAvailable.set pos (some tx),
              haveTxn := st.haveTxn.set pos true, mempoolCount := st.mempoolCount + 1 }
      else
        match st.txnsAvailable[pos] with
        | some other =>
          if other.hash != tx.hash then
            .ok { st with txnsAvailable := st.txnsAvailable.set pos none,
                          mempoolCount := st.mempoolCount - 1 }
          else .ok st
        | none => .ok st
    else .error "have_txn: index out of range"

/-- The loop of both passes: one step for each pair, stopping once `mempool_count` reaches the
number of short ids. -/
def fillPass (step : FillState → uint256 → CTransaction → Except String FillState)
    (nShortIds : Nat) : FillState → List (uint256 × CTransaction) → Except String FillState
  | st, [] => .ok st
  | st, (txHash, tx) :: rest => do
    let st ← step st txHash tx
    if st.mempoolCount = nShortIds then pure st else fillPass step nShortIds st rest

/-- `PartiallyDownloadedBlock::InitData` on a new object, with `GetMaxBlockSize()`, the mempool's
`vTxHashes` and `extra_txn`. -/
def initData (maxBlockSize : Nat) (cmpctblock : CBlockHeaderAndShortTxIDs CTransaction)
    (vTxHashes extraTxns : List (uint256 × CTransaction)) :
    Except String (Except ReadStatus PartiallyDownloadedBlock) :=
  if cmpctblock.header.isNull || (cmpctblock.shorttxids.isEmpty && cmpctblock.prefilledtxn.isEmpty)
  then .ok (.error .READ_STATUS_INVALID)
  else if cmpctblock.blockTxCount > maxBlockSize / MIN_TRANSACTION_SIZE then
    .ok (.error .READ_STATUS_INVALID)
  else
    match prefilledLoop cmpctblock.shorttxids.length 0 (-1)
        (List.replicate cmpctblock.blockTxCount none) cmpctblock.prefilledtxn with
    | .error e => .error e
    | .ok (.error status) => .ok (.error status)
    | .ok (.ok txnsAvailable) =>
      match shortIdLoop overfull txnsAvailable 0 0 ∅ cmpctblock.shorttxids with
      | .error e => .error e
      | .ok (.error status) => .ok (.error status)
      | .ok (.ok shorttxids) =>
        if shorttxids.keys.length ≠ cmpctblock.shorttxids.length then
          .ok (.error .READ_STATUS_FAILED)
        else do
          let shortId := getShortID cmpctblock.header cmpctblock.nonce
          let st ← fillPass (mempoolStep shortId shorttxids) shorttxids.keys.length
            ⟨txnsAvailable, List.replicate txnsAvailable.length false, 0⟩ vTxHashes
          let st ← fillPass (extraStep shortId shorttxids) shorttxids.keys.length st extraTxns
          pure (.ok ⟨st.txnsAvailable, cmpctblock.header⟩)

/-! ### `FillBlock` -/

/-- The loop of `FillBlock`: a filled slot is moved into the block, and an empty one takes the next
missing transaction, which must be there. It returns the transactions and the missing ones left
over, or the position where none was left. -/
def fillLoop : List (Option CTransaction) → List CTransaction →
    Except Nat (List CTransaction × List CTransaction)
  | [], vtxMissing => .ok ([], vtxMissing)
  | none :: _, [] => .error 0
  | none :: rest, tx :: vtxMissing =>
    match fillLoop rest vtxMissing with
    | .ok r => .ok (tx :: r.1, r.2)
    | .error k => .error (k + 1)
  | some tx :: rest, vtxMissing =>
    match fillLoop rest vtxMissing with
    | .ok r => .ok (tx :: r.1, r.2)
    | .error k => .error (k + 1)

/-- `PartiallyDownloadedBlock::FillBlock`, with `CheckBlock` and `CorruptionPossible` of the
validation state it fills: the status, the block when it is complete, and the object left. The
slots moved before a missing transaction ran out are empty; after the loop the object is cleared so
that it cannot be filled again. -/
def fillBlock (checkBlock corruptionPossible : CBlock → Int → Bool)
    (pdb : PartiallyDownloadedBlock) (vtxMissing : List CTransaction) (blockHeight : Int) :
    Except String (ReadStatus × Option CBlock × PartiallyDownloadedBlock) :=
  if pdb.header.isNull then .error "assertion !header.IsNull() failed"
  else
    match fillLoop pdb.txnsAvailable vtxMissing with
    | .error k =>
      .ok (.READ_STATUS_INVALID, none,
        ⟨List.replicate k none ++ pdb.txnsAvailable.drop k, pdb.header⟩)
    | .ok (vtx, left) =>
      if !left.isEmpty then .ok (.READ_STATUS_INVALID, some ⟨pdb.header, vtx⟩, ⟨[], .null⟩)
      else if !checkBlock ⟨pdb.header, vtx⟩ blockHeight then
        if corruptionPossible ⟨pdb.header, vtx⟩ blockHeight then
          .ok (.READ_STATUS_FAILED, some ⟨pdb.header, vtx⟩, ⟨[], .null⟩)
        else .ok (.READ_STATUS_CHECKBLOCK_FAILED, some ⟨pdb.header, vtx⟩, ⟨[], .null⟩)
      else .ok (.READ_STATUS_OK, some ⟨pdb.header, vtx⟩, ⟨[], .null⟩)

/-! ### The prefilled transactions -/

/-- The positions the differential offsets decode to: each is one past the last plus its offset. -/
def prefilledPositions {Tx : Type} : Int → List (PrefilledTransaction Tx) → List Int
  | _, [] => []
  | last, p :: rest => (last + p.index.toNat + 1) :: prefilledPositions (last + p.index.toNat + 1) rest

theorem isChain_prefilledPositions {Tx : Type} (last : Int) (l : List (PrefilledTransaction Tx)) :
    (last :: prefilledPositions last l).IsChain (· < ·) := by
  induction l generalizing last with
  | nil => exact List.isChain_singleton _
  | cons p rest ih =>
    rw [prefilledPositions, List.isChain_cons_cons]
    exact ⟨by omega, ih _⟩

theorem prefilledLoop_ne_error {nShort i : Nat} {last : Int} {txns : List (Option CTransaction)}
    {l : List (PrefilledTransaction CTransaction)} (hlen : txns.length = nShort + i + l.length) :
    ∃ r, prefilledLoop nShort i last txns l = .ok r := by
  induction l generalizing i last txns with
  | nil => exact ⟨_, rfl⟩
  | cons p rest ih =>
    simp only [List.length_cons] at hlen
    unfold prefilledLoop
    split_ifs with hnull hmax hroom hin
    · exact ⟨_, rfl⟩
    · exact ⟨_, rfl⟩
    · exact ⟨_, rfl⟩
    · exact ih (by rw [List.length_set]; omega)
    · omega

theorem prefilledLoop_eq_ok {nShort i : Nat} {last : Int} {txns txns' : List (Option CTransaction)}
    {l : List (PrefilledTransaction CTransaction)} (hlast : -1 ≤ last)
    (hempty : ∀ q < txns.length, last < q → txns[q]? = some none)
    (h : prefilledLoop nShort i last txns l = .ok (.ok txns')) :
    txns'.length = txns.length ∧ txns'.countP Option.isNone + l.length = txns.countP Option.isNone ∧
      (∀ q ∈ prefilledPositions last l, 0 ≤ q ∧ q < txns.length) ∧
      ∀ q : Nat, (q : Int) ≤ last → txns'[q]? = txns[q]? := by
  induction l generalizing i last txns with
  | nil =>
    cases h
    exact ⟨rfl, rfl, by simp [prefilledPositions], fun _ _ => rfl⟩
  | cons p rest ih =>
    unfold prefilledLoop at h
    split_ifs at h with hnull hmax hroom hin
    · cases h
    · cases h
    · cases h
    · have hpos : 0 ≤ last + p.index.toNat + 1 := by omega
      have hslot : txns[(last + p.index.toNat + 1).toNat]? = some none :=
        hempty _ hin (by omega)
      have hslot' : txns[(last + p.index.toNat + 1).toNat] = none := by
        rw [List.getElem?_eq_getElem hin] at hslot
        exact Option.some.inj hslot
      obtain ⟨hlen, hcount, hpositions, hframe⟩ := ih (by omega) (fun q hq hlt => by
        rw [List.length_set] at hq
        rw [List.getElem?_set_ne (by omega)]
        exact hempty q hq (by omega)) h
      refine ⟨by rw [hlen, List.length_set], ?_, ?_, fun q hq => ?_⟩
      · rw [List.length_cons, ← Nat.add_assoc, hcount, List.countP_set hin, hslot']
        simp only [Option.isNone_none, Option.isNone_some, if_true, Bool.false_eq_true, if_false]
        have : 0 < txns.countP Option.isNone :=
          List.countP_pos_iff.mpr ⟨none, List.mem_of_getElem? hslot, rfl⟩
        omega
      · intro q hq
        rw [prefilledPositions, List.mem_cons] at hq
        rcases hq with rfl | hq
        · exact ⟨hpos, by omega⟩
        · have := hpositions q hq
          rw [List.length_set] at this
          exact this
      · rw [hframe q (by omega), List.getElem?_set_ne (by omega)]

theorem prefilledLoop_free_iff {nShort i : Nat} {last : Int} {txns txns' : List (Option CTransaction)}
    {l : List (PrefilledTransaction CTransaction)} (hlast : -1 ≤ last)
    (h : prefilledLoop nShort i last txns l = .ok (.ok txns')) (q : Nat) :
    txns'[q]? = some none ↔ txns[q]? = some none ∧ (q : Int) ∉ prefilledPositions last l := by
  induction l generalizing i last txns with
  | nil =>
    cases h
    simp [prefilledPositions]
  | cons p rest ih =>
    unfold prefilledLoop at h
    split_ifs at h with hnull hmax hroom hin
    · cases h
    · cases h
    · cases h
    · rw [ih (by omega) h, prefilledPositions, List.mem_cons, not_or]
      by_cases hq : (q : Int) = last + p.index.toNat + 1
      · have hslot : (last + p.index.toNat + 1).toNat = q := by omega
        rw [← hslot, List.getElem?_set_self hin]
        simp [hslot, hq]
      · rw [List.getElem?_set_ne (by omega)]
        simp [hq]

/-! ### The short ids -/

theorem scanLoop_eq_ok {txns : List (Option CTransaction)} {i : Nat}
    (hroom : i < countNone txns txns.length)
    (hfilled : txns.length - countNone txns txns.length < 2 ^ 32) :
    ∀ fuel indexOffset, countNone txns (i + indexOffset) = i →
      txns.length - countNone txns txns.length < indexOffset + fuel →
      ∃ off', scanLoop txns i fuel indexOffset = .ok off' ∧ indexOffset ≤ off' ∧
        txns[i + off']? = some none ∧
        ∀ q, i + indexOffset ≤ q → q < i + off' → txns[q]? ≠ some none := by
  intro fuel
  induction fuel with
  | zero =>
    intro indexOffset hcount hfuel
    have := (lt_length_of_countNone hroom hcount).2
    omega
  | succ fuel ih =>
    intro indexOffset hcount hfuel
    obtain ⟨hin, -⟩ := lt_length_of_countNone hroom hcount
    rw [scanLoop, dif_pos hin]
    split
    · next t hslot =>
      have hne : txns[i + indexOffset]? ≠ some none := by
        rw [List.getElem?_eq_getElem hin, hslot]
        simp
      have hcount' : countNone txns (i + (indexOffset + 1)) = i := by
        rw [← Nat.add_assoc, countNone_succ_of_ne hne, hcount]
      have hpassed := (lt_length_of_countNone hroom hcount').2
      rw [Nat.mod_eq_of_lt (by omega)]
      obtain ⟨off', h, hle, hfree, hfill⟩ := ih (indexOffset + 1) hcount' (by omega)
      refine ⟨off', h, by omega, hfree, fun q h₁ h₂ => ?_⟩
      rcases Nat.eq_or_lt_of_le h₁ with rfl | h₁
      · exact hne
      · exact hfill q (by omega) h₂
    · next hslot =>
      refine ⟨indexOffset, rfl, Nat.le_refl _, by rw [List.getElem?_eq_getElem hin, hslot],
        fun q h₁ h₂ => ?_⟩
      omega

theorem shortIdLoop_spec {txns : List (Option CTransaction)} {i indexOffset : Nat}
    {m : ShortIdMap} {l : List UInt64} (hcount : countNone txns (i + indexOffset) = i)
    (hroom : i + l.length ≤ countNone txns txns.length)
    (hfilled : l = [] ∨ txns.length - countNone txns txns.length < 2 ^ 32) :
    ∃ qs : List Nat, qs.length = l.length ∧
      (∀ j (hj : j < qs.length), IsNthFree txns (i + j) qs[j]) ∧
      ((∃ m' k, overfull m' k = true) ∧
          shortIdLoop overfull txns i indexOffset m l = .ok (.error .READ_STATUS_FAILED) ∨
        shortIdLoop overfull txns i indexOffset m l =
          .ok (.ok (insertAll m (l.zip (qs.map (· % 2 ^ 32)))))) := by
  induction l generalizing i indexOffset m with
  | nil => exact ⟨[], rfl, fun j hj => absurd hj (Nat.not_lt_zero j), .inr rfl⟩
  | cons shortid rest ih =>
    have h32 := hfilled.resolve_left (List.cons_ne_nil _ _)
    simp only [List.length_cons] at hroom
    obtain ⟨off', hscan, hle, hfree, hfill⟩ :=
      scanLoop_eq_ok (by omega) h32 (2 ^ 32) indexOffset hcount (by omega)
    have hnth : countNone txns (i + off') = i := by
      rw [countNone_eq_of_filled (by omega) hfill, hcount]
    obtain ⟨qs, hlen, hqs, hrest⟩ := ih (m := m.insert shortid ((i + off') % 2 ^ 32))
      (by rw [Nat.add_right_comm, countNone_succ_of_none hfree, hnth] :
        countNone txns (i + 1 + off') = i + 1) (by omega) (.inr h32)
    refine ⟨(i + off') :: qs, by simp [hlen], fun j hj => ?_, ?_⟩
    · cases j with
      | zero => exact ⟨hfree, hnth⟩
      | succ j =>
        rw [show i + (j + 1) = i + 1 + j by omega]
        exact hqs j (by simpa using hj)
    · simp only [shortIdLoop, scanAvailable, hscan, bind, Except.bind]
      split_ifs with hover
      · exact .inl ⟨⟨_, _, hover⟩, rfl⟩
      · exact hrest.imp (fun h => ⟨h.1, h.2⟩) id

/-! ### The passes over the pools -/

section Pools

variable {shortId : uint256 → UInt64} {shorttxids : ShortIdMap}
  {pool : List (uint256 × CTransaction)} {txns0 : List (Option CTransaction)} {st : FillState}

variable (shortId shorttxids pool txns0) in
/-- What the passes over the pools keep, against the slots `txns0` the short ids were laid out on:
the sizes, the prefilled slots, and that every other filled slot holds a transaction of the pools
whose short id finds that slot. -/
structure FillInv (st : FillState) : Prop where
  length_txns : st.txnsAvailable.length = txns0.length
  length_have : st.haveTxn.length = txns0.length
  prefilled : ∀ (q : Nat) t, txns0[q]? = some (some t) → st.txnsAvailable[q]? = some (some t)
  filled : ∀ (q : Nat) t, st.txnsAvailable[q]? = some (some t) →
    txns0[q]? = some (some t) ∨ ∃ h, (h, t) ∈ pool ∧ shorttxids.lookup (shortId h) = some q

theorem fillInv_init : FillInv shortId shorttxids pool txns0
    ⟨txns0, List.replicate txns0.length false, 0⟩ :=
  ⟨rfl, List.length_replicate, fun _ _ h => h, fun _ _ h => .inl h⟩

theorem FillInv.set_some (hinv : FillInv shortId shorttxids pool txns0 st) {pos : Nat}
    {txHash : uint256} {tx : CTransaction} (hpos : txns0[pos]? = some none)
    (hlookup : shorttxids.lookup (shortId txHash) = some pos) (hmem : (txHash, tx) ∈ pool)
    (c : Nat) : FillInv shortId shorttxids pool txns0
      ⟨st.txnsAvailable.set pos (some tx), st.haveTxn.set pos true, c⟩ := by
  refine ⟨by simp [hinv.length_txns], by simp [hinv.length_have], fun q t hq => ?_, fun q t hq => ?_⟩
  · have hne : pos ≠ q := fun h => by rw [h, hq] at hpos; simp at hpos
    rw [List.getElem?_set_ne hne]
    exact hinv.prefilled q t hq
  · by_cases hqp : pos = q
    · subst hqp
      have hlt : pos < st.txnsAvailable.length := by
        rw [hinv.length_txns]
        exact (List.getElem?_eq_some_iff.mp hpos).1
      rw [List.getElem?_set_self hlt] at hq
      obtain rfl : tx = t := by simpa using hq
      exact .inr ⟨txHash, hmem, hlookup⟩
    · rw [List.getElem?_set_ne hqp] at hq
      exact hinv.filled q t hq

theorem FillInv.set_none (hinv : FillInv shortId shorttxids pool txns0 st) {pos : Nat}
    (hpos : txns0[pos]? = some none) (c : Nat) :
    FillInv shortId shorttxids pool txns0 ⟨st.txnsAvailable.set pos none, st.haveTxn, c⟩ := by
  refine ⟨by simp [hinv.length_txns], hinv.length_have, fun q t hq => ?_, fun q t hq => ?_⟩
  · have hne : pos ≠ q := fun h => by rw [h, hq] at hpos; simp at hpos
    rw [List.getElem?_set_ne hne]
    exact hinv.prefilled q t hq
  · by_cases hqp : pos = q
    · subst hqp
      simp [List.getElem?_set] at hq
    · rw [List.getElem?_set_ne hqp] at hq
      exact hinv.filled q t hq

/-- The short ids find empty slots of the layout. -/
def LayoutFree (shorttxids : ShortIdMap) (txns0 : List (Option CTransaction)) : Prop :=
  ∀ k q, shorttxids.lookup k = some q → txns0[q]? = some none

/-- The short ids find slots inside the layout. -/
def LayoutInRange (shorttxids : ShortIdMap) (n : Nat) : Prop :=
  ∀ k q, shorttxids.lookup k = some q → q < n

theorem mempoolStep_ok (hrange : LayoutInRange shorttxids txns0.length)
    (hst : st.txnsAvailable.length = txns0.length ∧ st.haveTxn.length = txns0.length)
    (txHash : uint256) (tx : CTransaction) :
    ∃ st', mempoolStep shortId shorttxids st txHash tx = .ok st' ∧
      st'.txnsAvailable.length = txns0.length ∧ st'.haveTxn.length = txns0.length := by
  unfold mempoolStep
  cases hlookup : shorttxids.lookup (shortId txHash) with
  | none => exact ⟨st, rfl, hst⟩
  | some pos =>
    have hlt := hrange _ _ hlookup
    dsimp only
    rw [dif_pos ⟨by omega, by omega⟩]
    split_ifs
    · exact ⟨_, rfl, by simp [hst.1], by simp [hst.2]⟩
    · exact ⟨_, rfl, by simp [hst.1], hst.2⟩
    · exact ⟨st, rfl, hst⟩

theorem extraStep_ok (hrange : LayoutInRange shorttxids txns0.length)
    (hst : st.txnsAvailable.length = txns0.length ∧ st.haveTxn.length = txns0.length)
    (txHash : uint256) (tx : CTransaction) :
    ∃ st', extraStep shortId shorttxids st txHash tx = .ok st' ∧
      st'.txnsAvailable.length = txns0.length ∧ st'.haveTxn.length = txns0.length := by
  unfold extraStep
  cases hlookup : shorttxids.lookup (shortId txHash) with
  | none => exact ⟨st, rfl, hst⟩
  | some pos =>
    have hlt := hrange _ _ hlookup
    dsimp only
    rw [dif_pos ⟨by omega, by omega⟩]
    split
    · exact ⟨_, rfl, by simp [hst.1], by simp [hst.2]⟩
    · split
      · split
        · exact ⟨_, rfl, by simp [hst.1], hst.2⟩
        · exact ⟨st, rfl, hst⟩
      · exact ⟨st, rfl, hst⟩

theorem FillInv.mempoolStep_spec (hinv : FillInv shortId shorttxids pool txns0 st)
    (hfree : LayoutFree shorttxids txns0) {txHash : uint256} {tx : CTransaction}
    (hmem : (txHash, tx) ∈ pool) :
    ∃ st', mempoolStep shortId shorttxids st txHash tx = .ok st' ∧
      FillInv shortId shorttxids pool txns0 st' := by
  unfold mempoolStep
  cases hlookup : shorttxids.lookup (shortId txHash) with
  | none => exact ⟨st, rfl, hinv⟩
  | some pos =>
    have hpos := hfree _ _ hlookup
    have hlt : pos < txns0.length := (List.getElem?_eq_some_iff.mp hpos).1
    dsimp only
    rw [dif_pos ⟨by rw [hinv.length_have]; exact hlt, by rw [hinv.length_txns]; exact hlt⟩]
    split_ifs
    · exact ⟨_, rfl, hinv.set_some hpos hlookup hmem _⟩
    · exact ⟨_, rfl, hinv.set_none hpos _⟩
    · exact ⟨st, rfl, hinv⟩

theorem FillInv.extraStep_spec (hinv : FillInv shortId shorttxids pool txns0 st)
    (hfree : LayoutFree shorttxids txns0) {txHash : uint256} {tx : CTransaction}
    (hmem : (txHash, tx) ∈ pool) :
    ∃ st', extraStep shortId shorttxids st txHash tx = .ok st' ∧
      FillInv shortId shorttxids pool txns0 st' := by
  unfold extraStep
  cases hlookup : shorttxids.lookup (shortId txHash) with
  | none => exact ⟨st, rfl, hinv⟩
  | some pos =>
    have hpos := hfree _ _ hlookup
    have hlt : pos < txns0.length := (List.getElem?_eq_some_iff.mp hpos).1
    dsimp only
    rw [dif_pos ⟨by rw [hinv.length_have]; exact hlt, by rw [hinv.length_txns]; exact hlt⟩]
    split
    · exact ⟨_, rfl, hinv.set_some hpos hlookup hmem _⟩
    · split
      · split
        · exact ⟨_, rfl, hinv.set_none hpos _⟩
        · exact ⟨st, rfl, hinv⟩
      · exact ⟨st, rfl, hinv⟩

end Pools

theorem fillPass_spec (step : FillState → uint256 → CTransaction → Except String FillState)
    (nShortIds : Nat) {I : FillState → Prop} {l : List (uint256 × CTransaction)}
    (hstep : ∀ st txHash tx, (txHash, tx) ∈ l → I st → ∃ st', step st txHash tx = .ok st' ∧ I st')
    {st : FillState} (hst : I st) : ∃ st', fillPass step nShortIds st l = .ok st' ∧ I st' := by
  induction l generalizing st with
  | nil => exact ⟨st, rfl, hst⟩
  | cons p rest ih =>
    obtain ⟨txHash, tx⟩ := p
    obtain ⟨st₁, hstep₁, hst₁⟩ := hstep st txHash tx List.mem_cons_self hst
    simp only [fillPass, hstep₁, bind, Except.bind]
    split_ifs
    · exact ⟨st₁, rfl, hst₁⟩
    · exact ih (fun st h t hmem => hstep st h t (List.mem_cons_of_mem _ hmem)) hst₁

theorem fillPasses_spec (shortId : uint256 → UInt64) {shorttxids : ShortIdMap}
    {txns0 : List (Option CTransaction)} (hfree : LayoutFree shorttxids txns0)
    (vTxHashes extraTxns : List (uint256 × CTransaction)) (nShortIds : Nat) :
    ∃ st₁ st₂, fillPass (mempoolStep shortId shorttxids) nShortIds
        ⟨txns0, List.replicate txns0.length false, 0⟩ vTxHashes = .ok st₁ ∧
      fillPass (extraStep shortId shorttxids) nShortIds st₁ extraTxns = .ok st₂ ∧
      FillInv shortId shorttxids (vTxHashes ++ extraTxns) txns0 st₂ := by
  obtain ⟨st₁, h₁, hinv₁⟩ := fillPass_spec (mempoolStep shortId shorttxids) nShortIds
    (l := vTxHashes) (I := FillInv shortId shorttxids (vTxHashes ++ extraTxns) txns0)
    (fun _ _ _ hmem hinv => hinv.mempoolStep_spec hfree (List.mem_append_left _ hmem)) fillInv_init
  obtain ⟨st₂, h₂, hinv₂⟩ := fillPass_spec (extraStep shortId shorttxids) nShortIds
    (l := extraTxns) (I := FillInv shortId shorttxids (vTxHashes ++ extraTxns) txns0)
    (fun _ _ _ hmem hinv => hinv.extraStep_spec hfree (List.mem_append_right _ hmem)) hinv₁
  exact ⟨st₁, st₂, h₁, h₂, hinv₂⟩

theorem fillPasses_ok (shortId : uint256 → UInt64) {shorttxids : ShortIdMap}
    {txns0 : List (Option CTransaction)} (hrange : LayoutInRange shorttxids txns0.length)
    (vTxHashes extraTxns : List (uint256 × CTransaction)) (nShortIds : Nat) :
    ∃ st₁ st₂, fillPass (mempoolStep shortId shorttxids) nShortIds
        ⟨txns0, List.replicate txns0.length false, 0⟩ vTxHashes = .ok st₁ ∧
      fillPass (extraStep shortId shorttxids) nShortIds st₁ extraTxns = .ok st₂ := by
  obtain ⟨st₁, h₁, hinv₁⟩ := fillPass_spec (mempoolStep shortId shorttxids) nShortIds
    (l := vTxHashes)
    (I := fun st => st.txnsAvailable.length = txns0.length ∧ st.haveTxn.length = txns0.length)
    (fun _ _ _ _ hst => mempoolStep_ok hrange hst _ _)
    (show (⟨txns0, List.replicate txns0.length false, 0⟩ : FillState).txnsAvailable.length =
        txns0.length ∧ (⟨txns0, List.replicate txns0.length false, 0⟩ : FillState).haveTxn.length =
        txns0.length from ⟨rfl, List.length_replicate⟩)
  obtain ⟨st₂, h₂, -⟩ := fillPass_spec (extraStep shortId shorttxids) nShortIds
    (l := extraTxns)
    (I := fun st => st.txnsAvailable.length = txns0.length ∧ st.haveTxn.length = txns0.length)
    (fun _ _ _ _ hst => extraStep_ok hrange hst _ _) hinv₁
  exact ⟨st₁, st₂, h₁, h₂⟩

/-! ### What `InitData` gives -/

theorem layoutInRange_of_insertAll {txns0 : List (Option CTransaction)} {l : List UInt64}
    {qs : List Nat} (hqs : ∀ j (hj : j < qs.length), IsNthFree txns0 j qs[j]) :
    LayoutInRange (insertAll ∅ (l.zip (qs.map (· % 2 ^ 32)))) txns0.length := by
  intro k q hk
  rcases mem_of_lookup_insertAll hk with hmem | hmem
  · obtain ⟨q', hq', rfl⟩ := List.mem_map.mp (List.of_mem_zip hmem).2
    obtain ⟨j, hj, rfl⟩ := List.getElem_of_mem hq'
    exact lt_of_le_of_lt (Nat.mod_le _ _) (List.getElem?_eq_some_iff.mp (hqs j hj).1).1
  · cases hmem

theorem shortIdLoop_eq_insertAll {txns0 : List (Option CTransaction)} {l : List UInt64}
    {m : ShortIdMap} (hroom : l.length ≤ countNone txns0 txns0.length)
    (hlen : txns0.length ≤ 2 ^ 32) (h : shortIdLoop overfull txns0 0 0 ∅ l = .ok (.ok m)) :
    ∃ qs : List Nat, qs.length = l.length ∧ (∀ j (hj : j < qs.length), IsNthFree txns0 j qs[j]) ∧
      m = insertAll ∅ (l.zip qs) := by
  have hfilled : l = [] ∨ txns0.length - countNone txns0 txns0.length < 2 ^ 32 := by
    rcases l with _ | ⟨k, l⟩
    · exact .inl rfl
    · simp only [List.length_cons] at hroom
      exact .inr (by omega)
  obtain ⟨qs, hqlen, hqs, hloop⟩ := shortIdLoop_spec overfull (m := ∅)
    (by rfl : countNone txns0 (0 + 0) = 0) (by rwa [Nat.zero_add]) hfilled
  have hqs' : ∀ j (hj : j < qs.length), IsNthFree txns0 j qs[j] := fun j hj => by
    simpa using hqs j hj
  have hmod : qs.map (· % 2 ^ 32) = qs := by
    conv_rhs => rw [← List.map_id qs]
    refine List.map_congr_left fun q hq => ?_
    obtain ⟨j, hj, rfl⟩ := List.getElem_of_mem hq
    exact Nat.mod_eq_of_lt (by
      have := (List.getElem?_eq_some_iff.mp (hqs' j hj).1).1
      omega)
  rcases hloop with ⟨-, hloop⟩ | hloop
  · rw [hloop] at h
    cases h
  · rw [hloop, hmod] at h
    cases h
    exact ⟨qs, hqlen, hqs', rfl⟩


theorem layoutFree_of_shortIdLoop {txns0 : List (Option CTransaction)} {l : List UInt64}
    {m : ShortIdMap} (hroom : l.length ≤ countNone txns0 txns0.length)
    (hlen : txns0.length ≤ 2 ^ 32) (h : shortIdLoop overfull txns0 0 0 ∅ l = .ok (.ok m)) :
    LayoutFree m txns0 := by
  obtain ⟨qs, -, hqs, rfl⟩ := shortIdLoop_eq_insertAll overfull hroom hlen h
  intro k q hk
  rcases mem_of_lookup_insertAll hk with hmem | hmem
  · obtain ⟨j, hj, hjq⟩ := List.getElem_of_mem (List.of_mem_zip hmem).2
    rw [← hjq]
    exact (hqs j hj).1
  · cases hmem

theorem prefilledLoop_layout {c : CBlockHeaderAndShortTxIDs CTransaction}
    {txns0 : List (Option CTransaction)}
    (h : prefilledLoop c.shorttxids.length 0 (-1) (List.replicate c.blockTxCount none)
      c.prefilledtxn = .ok (.ok txns0)) :
    txns0.length = c.blockTxCount ∧ countNone txns0 txns0.length = c.shorttxids.length ∧
      (∀ q ∈ prefilledPositions (-1) c.prefilledtxn, 0 ≤ q ∧ q < c.blockTxCount) ∧
      ∀ q : Nat, txns0[q]? = some none ↔
        q < c.blockTxCount ∧ (q : Int) ∉ prefilledPositions (-1) c.prefilledtxn := by
  have hempty : ∀ q < (List.replicate c.blockTxCount (none : Option CTransaction)).length,
      (-1 : Int) < q → (List.replicate c.blockTxCount (none : Option CTransaction))[q]? = some none :=
    fun q hq _ => by
    rw [List.length_replicate] at hq
    simp [hq]
  obtain ⟨hlen, hcount, hpositions, -⟩ := prefilledLoop_eq_ok (by omega) hempty h
  rw [List.length_replicate] at hlen hpositions
  refine ⟨hlen, ?_, hpositions, fun q => ?_⟩
  · rw [countNone_length]
    simp only [List.countP_replicate, Option.isNone_none, if_true,
      CBlockHeaderAndShortTxIDs.blockTxCount] at hcount
    omega
  · rw [prefilledLoop_free_iff (by omega) h q]
    simp [List.getElem?_replicate]

theorem mem_of_shortIdLoop {txns0 : List (Option CTransaction)} {l : List UInt64}
    {m : ShortIdMap} (hroom : l.length ≤ countNone txns0 txns0.length)
    (hlen : txns0.length ≤ 2 ^ 32) (h : shortIdLoop overfull txns0 0 0 ∅ l = .ok (.ok m))
    {k : UInt64} (hk : k ∈ m) : k ∈ l := by
  obtain ⟨qs, hqlen, -, rfl⟩ := shortIdLoop_eq_insertAll overfull hroom hlen h
  rcases mem_insertAll.mp hk with hk | hk
  · exact absurd hk (AList.notMem_empty k)
  · rwa [List.map_fst_zip (by omega)] at hk

theorem shortIdLoop_lookup {txns0 : List (Option CTransaction)} {l : List UInt64}
    {m : ShortIdMap} (hroom : l.length ≤ countNone txns0 txns0.length)
    (hlen : txns0.length ≤ 2 ^ 32) (h : shortIdLoop overfull txns0 0 0 ∅ l = .ok (.ok m))
    (hkeys : m.keys.length = l.length) (j : Nat) (hj : j < l.length) :
    ∃ q, m.lookup l[j] = some q ∧ IsNthFree txns0 j q := by
  obtain ⟨qs, hqlen, hqs, rfl⟩ := shortIdLoop_eq_insertAll overfull hroom hlen h
  have hjq : j < qs.length := by omega
  have hnodup : ((l.zip qs).map Prod.fst).Nodup :=
    nodup_of_length_keys_insertAll (by rw [hkeys, List.length_zip, hqlen, Nat.min_self])
  have hmem : (l[j], qs[j]) ∈ l.zip qs :=
    List.mem_iff_getElem.mpr ⟨j, by rw [List.length_zip]; omega, List.getElem_zip⟩
  exact ⟨qs[j], lookup_insertAll_of_nodup hnodup hmem, hqs j hjq⟩

theorem initData_ok (maxBlockSize : Nat) (cmpctblock : CBlockHeaderAndShortTxIDs CTransaction)
    (vTxHashes extraTxns : List (uint256 × CTransaction))
    (hpre : cmpctblock.prefilledtxn.length < 2 ^ 32) :
    ∃ r, initData getShortID overfull maxBlockSize cmpctblock vTxHashes extraTxns = .ok r := by
  unfold initData
  split_ifs with hnull hsize
  · exact ⟨_, rfl⟩
  · exact ⟨_, rfl⟩
  obtain ⟨r, hr⟩ : ∃ r, prefilledLoop cmpctblock.shorttxids.length 0 (-1)
      (List.replicate cmpctblock.blockTxCount none) cmpctblock.prefilledtxn = .ok r :=
    prefilledLoop_ne_error (by simp [CBlockHeaderAndShortTxIDs.blockTxCount])
  rcases r with status | txns0
  · rw [hr]
    exact ⟨_, rfl⟩
  obtain ⟨hlen, hcount, -, -⟩ := prefilledLoop_layout hr
  obtain ⟨qs, -, hqs, hloop⟩ := shortIdLoop_spec overfull (l := cmpctblock.shorttxids) (m := ∅)
    (by rfl : countNone txns0 (0 + 0) = 0) (by rw [hcount, Nat.zero_add])
    (.inr (by rw [hcount, hlen]; simp only [CBlockHeaderAndShortTxIDs.blockTxCount]; omega))
  rw [hr]
  dsimp only
  rcases hloop with ⟨-, hloop⟩ | hloop
  · rw [hloop]
    exact ⟨_, rfl⟩
  rw [hloop]
  dsimp only
  split_ifs with hkeys
  · exact ⟨_, rfl⟩
  obtain ⟨st₁, st₂, h₁, h₂⟩ := fillPasses_ok (getShortID cmpctblock.header cmpctblock.nonce)
    (layoutInRange_of_insertAll (l := cmpctblock.shorttxids) fun j hj => by simpa using hqs j hj)
    vTxHashes extraTxns
    (insertAll ∅ (cmpctblock.shorttxids.zip (qs.map (· % 2 ^ 32)))).keys.length
  simp only [h₁, h₂, bind, Except.bind, pure, Except.pure]
  exact ⟨_, rfl⟩

theorem initData_eq_ok {maxBlockSize : Nat} {cmpctblock : CBlockHeaderAndShortTxIDs CTransaction}
    {vTxHashes extraTxns : List (uint256 × CTransaction)} {pdb : PartiallyDownloadedBlock}
    (hlen : cmpctblock.blockTxCount ≤ 2 ^ 32)
    (h : initData getShortID overfull maxBlockSize cmpctblock vTxHashes extraTxns = .ok (.ok pdb)) :
    cmpctblock.header.isNull = false ∧ pdb.header = cmpctblock.header ∧
      ∃ txns0 m, prefilledLoop cmpctblock.shorttxids.length 0 (-1)
          (List.replicate cmpctblock.blockTxCount none) cmpctblock.prefilledtxn = .ok (.ok txns0) ∧
        shortIdLoop overfull txns0 0 0 ∅ cmpctblock.shorttxids = .ok (.ok m) ∧
        m.keys.length = cmpctblock.shorttxids.length ∧
        ∃ st, FillInv (getShortID cmpctblock.header cmpctblock.nonce) m (vTxHashes ++ extraTxns)
          txns0 st ∧ pdb.txnsAvailable = st.txnsAvailable := by
  unfold initData at h
  split_ifs at h with hnull hsize
  · cases h
  · cases h
  split at h
  · cases h
  · cases h
  rename_i txns0 hpre
  split at h
  · cases h
  · cases h
  rename_i m hloop
  dsimp only at h
  split_ifs at h with hkeys
  · cases h
  obtain ⟨hlen₀, hcount, -, -⟩ := prefilledLoop_layout hpre
  obtain ⟨st₁, st₂, h₁, h₂, hinv⟩ := fillPasses_spec (getShortID cmpctblock.header
    cmpctblock.nonce) (layoutFree_of_shortIdLoop overfull hcount.ge (hlen₀ ▸ hlen) hloop)
    vTxHashes extraTxns m.keys.length
  simp only [h₁, h₂, bind, Except.bind, pure, Except.pure, Except.ok.injEq] at h
  subst h
  simp only [Bool.or_eq_true, not_or, Bool.not_eq_true] at hnull
  exact ⟨hnull.1, rfl, txns0, m, hpre, hloop, not_not.mp hkeys, st₂, hinv, rfl⟩

theorem initData_sound {maxBlockSize : Nat} {cmpctblock : CBlockHeaderAndShortTxIDs CTransaction}
    {vTxHashes extraTxns : List (uint256 × CTransaction)} {pdb : PartiallyDownloadedBlock}
    (hblock : cmpctblock.blockTxCount ≤ 2 ^ 32)
    (h : initData getShortID overfull maxBlockSize cmpctblock vTxHashes extraTxns = .ok (.ok pdb)) :
    ((-1) :: prefilledPositions (-1) cmpctblock.prefilledtxn).IsChain (· < ·) ∧
      (∀ q ∈ prefilledPositions (-1) cmpctblock.prefilledtxn, 0 ≤ q ∧ q < cmpctblock.blockTxCount) ∧
      ∃ txns0 m, prefilledLoop cmpctblock.shorttxids.length 0 (-1)
          (List.replicate cmpctblock.blockTxCount none) cmpctblock.prefilledtxn = .ok (.ok txns0) ∧
        shortIdLoop overfull txns0 0 0 ∅ cmpctblock.shorttxids = .ok (.ok m) ∧
        (∀ j (hj : j < cmpctblock.shorttxids.length), ∃ q : Nat,
          m.lookup cmpctblock.shorttxids[j] = some q ∧ q < cmpctblock.blockTxCount ∧
          (q : Int) ∉ prefilledPositions (-1) cmpctblock.prefilledtxn ∧
          (List.range q).countP
            (fun q' : Nat => decide ((q' : Int) ∉ prefilledPositions (-1) cmpctblock.prefilledtxn)) =
            j) ∧
        ∀ (q : Nat) t, pdb.txnsAvailable[q]? = some (some t) →
          (q : Int) ∈ prefilledPositions (-1) cmpctblock.prefilledtxn ∨
          ∃ j, ∃ (hj : j < cmpctblock.shorttxids.length), ∃ txHash, (txHash, t) ∈ vTxHashes ++ extraTxns ∧
            getShortID cmpctblock.header cmpctblock.nonce txHash = cmpctblock.shorttxids[j] ∧
            m.lookup cmpctblock.shorttxids[j] = some q := by
  obtain ⟨-, -, txns0, m, hpre, hloop, hkeys, st, hinv, hpdb⟩ :=
    initData_eq_ok getShortID overfull hblock h
  obtain ⟨hlen, hcount₀, hpositions, hfree⟩ := prefilledLoop_layout hpre
  refine ⟨isChain_prefilledPositions _ _, hpositions, txns0, m, hpre, hloop, fun j hj => ?_,
    fun q t hq => ?_⟩
  · obtain ⟨q, hlookup, hfreeq, hcount⟩ :=
      shortIdLoop_lookup overfull hcount₀.ge (hlen ▸ hblock) hloop hkeys j hj
    obtain ⟨hlt, hoff⟩ := (hfree q).mp hfreeq
    refine ⟨q, hlookup, hlt, hoff, ?_⟩
    rw [← hcount]
    refine (countNone_eq_countP_range fun q' hq' => ?_).symm
    rw [hfree q', decide_eq_true_iff]
    exact ⟨fun h => ⟨by omega, h⟩, And.right⟩
  · rw [hpdb] at hq
    rcases hinv.filled q t hq with hslot | ⟨txHash, hmem, hlookup⟩
    · left
      have hlt : q < cmpctblock.blockTxCount := hlen ▸ (List.getElem?_eq_some_iff.mp hslot).1
      refine Decidable.byContradiction fun hoff => ?_
      have := (hfree q).mpr ⟨hlt, hoff⟩
      rw [hslot] at this
      cases this
    · right
      have hk := mem_of_shortIdLoop overfull hcount₀.ge (hlen ▸ hblock) hloop
        (AList.lookup_isSome.mp (by rw [hlookup]; rfl))
      obtain ⟨j, hj, hjk⟩ := List.getElem_of_mem hk
      exact ⟨j, hj, txHash, hmem, hjk.symm, by rw [hjk]; exact hlookup⟩

/-! ### `FillBlock` on the block the compact one was made from -/

theorem fillLoop_of_agree {vtx : List CTransaction} {txns : List (Option CTransaction)}
    (hlen : txns.length = vtx.length)
    (hagree : ∀ (q : Nat) t, txns[q]? = some (some t) → vtx[q]? = some t) :
    fillLoop txns ((vtx.zip txns).filterMap fun p => if p.2.isNone then some p.1 else none) =
      .ok (vtx, []) := by
  induction vtx generalizing txns with
  | nil =>
    rw [List.length_eq_zero_iff.mp hlen]
    rfl
  | cons tx vtx ih =>
    cases txns with
    | nil => cases hlen
    | cons slot txns =>
      have hrest := ih (by simpa using hlen) fun q t hq => by
        simpa using hagree (q + 1) t (by simpa using hq)
      cases slot with
      | none =>
        simp only [List.zip_cons_cons, List.filterMap_cons, Option.isNone_none, if_true, fillLoop,
          hrest]
      | some t =>
        obtain rfl : tx = t := by simpa using hagree 0 t rfl
        simp only [List.zip_cons_cons, List.filterMap_cons, Option.isNone_some, Bool.false_eq_true,
          if_false, fillLoop, hrest]

theorem fillBlock_of_agree (checkBlock corruptionPossible : CBlock → Int → Bool)
    {pdb : PartiallyDownloadedBlock} (hnull : pdb.header.isNull = false) {vtx : List CTransaction}
    (hlen : pdb.txnsAvailable.length = vtx.length)
    (hagree : ∀ (q : Nat) t, pdb.txnsAvailable[q]? = some (some t) → vtx[q]? = some t)
    (blockHeight : Int) :
    fillBlock checkBlock corruptionPossible pdb
        ((vtx.zip pdb.txnsAvailable).filterMap fun p => if p.2.isNone then some p.1 else none)
        blockHeight =
      .ok (if checkBlock ⟨pdb.header, vtx⟩ blockHeight then .READ_STATUS_OK
        else if corruptionPossible ⟨pdb.header, vtx⟩ blockHeight then .READ_STATUS_FAILED
        else .READ_STATUS_CHECKBLOCK_FAILED, some ⟨pdb.header, vtx⟩, ⟨[], .null⟩) := by
  unfold fillBlock
  rw [if_neg (by simp [hnull]), fillLoop_of_agree hlen hagree]
  simp only [List.isEmpty_nil, Bool.not_true, Bool.false_eq_true, if_false]
  cases checkBlock ⟨pdb.header, vtx⟩ blockHeight <;>
    cases corruptionPossible ⟨pdb.header, vtx⟩ blockHeight <;> rfl

theorem ofBlock_eq_ok {nonce : UInt64} {block : CBlock}
    {cmpctblock : CBlockHeaderAndShortTxIDs CTransaction}
    (h : CBlockHeaderAndShortTxIDs.ofBlock getShortID nonce block = .ok cmpctblock) :
    ∃ coinbase rest, block.vtx = coinbase :: rest ∧
      cmpctblock = ⟨nonce, rest.map fun tx => getShortID block.header nonce tx.hash,
        [⟨0, coinbase⟩], block.header⟩ := by
  unfold CBlockHeaderAndShortTxIDs.ofBlock at h
  split at h
  · cases h
  · rename_i coinbase rest hvtx
    cases h
    exact ⟨coinbase, rest, hvtx, rfl⟩

theorem prefilledLoop_ofBlock {coinbase : CTransaction} {n : Nat}
    {txns0 : List (Option CTransaction)}
    (h : prefilledLoop n 0 (-1) (List.replicate (n + 1) none) [⟨0, coinbase⟩] = .ok (.ok txns0)) :
    txns0 = some coinbase :: List.replicate n none := by
  unfold prefilledLoop at h
  split_ifs at h with hnull hmax hroom hin
  · cases h
  · cases h
  · cases h
  · cases h
    rfl

theorem fillBlock_reconstructs (checkBlock corruptionPossible : CBlock → Int → Bool)
    {maxBlockSize : Nat} {nonce : UInt64} {block : CBlock}
    {cmpctblock : CBlockHeaderAndShortTxIDs CTransaction}
    {vTxHashes extraTxns : List (uint256 × CTransaction)} {pdb : PartiallyDownloadedBlock}
    (blockHeight : Int) (hc : CBlockHeaderAndShortTxIDs.ofBlock getShortID nonce block = .ok cmpctblock)
    (hpool : ∀ txHash t, (txHash, t) ∈ vTxHashes ++ extraTxns → ∀ q (hq : q < block.vtx.length),
      0 < q → getShortID block.header nonce txHash = getShortID block.header nonce block.vtx[q].hash →
        t = block.vtx[q])
    (hblock : block.vtx.length ≤ 2 ^ 32)
    (h : initData getShortID overfull maxBlockSize cmpctblock vTxHashes extraTxns = .ok (.ok pdb)) :
    fillBlock checkBlock corruptionPossible pdb
        ((block.vtx.zip pdb.txnsAvailable).filterMap fun p => if p.2.isNone then some p.1 else none)
        blockHeight =
      .ok (if checkBlock block blockHeight then .READ_STATUS_OK
        else if corruptionPossible block blockHeight then .READ_STATUS_FAILED
        else .READ_STATUS_CHECKBLOCK_FAILED, some block, ⟨[], .null⟩) := by
  obtain ⟨header, vtx⟩ := block
  obtain ⟨coinbase, rest, rfl, rfl⟩ := ofBlock_eq_ok getShortID hc
  have hcount : (⟨nonce, rest.map fun tx => getShortID header nonce tx.hash, [⟨0, coinbase⟩],
      header⟩ : CBlockHeaderAndShortTxIDs CTransaction).blockTxCount ≤ 2 ^ 32 := by
    simpa [CBlockHeaderAndShortTxIDs.blockTxCount] using hblock
  obtain ⟨hnull, hheader, txns0, m, hpre, hloop, hkeys, st, hinv, hpdb⟩ :=
    initData_eq_ok getShortID overfull hcount h
  obtain ⟨hlen₀, hcount₀, -, -⟩ := prefilledLoop_layout hpre
  have hroom := hcount₀.ge
  have hlen := hlen₀ ▸ hcount
  have htxns0 : txns0 = some coinbase :: List.replicate rest.length none :=
    prefilledLoop_ofBlock (by simpa [CBlockHeaderAndShortTxIDs.blockTxCount] using hpre)
  subst htxns0
  have hagree : ∀ (q : Nat) t, pdb.txnsAvailable[q]? = some (some t) →
      (coinbase :: rest)[q]? = some t := by
    intro q t hq
    rw [hpdb] at hq
    rcases hinv.filled q t hq with hslot | ⟨txHash, hmem, hlookup⟩
    · cases q with
      | zero => simpa using hslot
      | succ q => simp [List.getElem?_replicate] at hslot
    · have hk := mem_of_shortIdLoop overfull hroom hlen hloop
        (AList.lookup_isSome.mp (by rw [hlookup]; rfl))
      obtain ⟨j, hj, hjk⟩ := List.getElem_of_mem hk
      have hjr : j < rest.length := by simpa using hj
      obtain ⟨q', hlookup', hnth⟩ := shortIdLoop_lookup overfull hroom hlen hloop hkeys j hj
      have hq' : q' = j + 1 := hnth.unique (isNthFree_append_replicate (by simp : ∀ x ∈ [some coinbase], x.isSome) hjr)
      have hq : q = q' := by
        rw [hjk, hlookup] at hlookup'
        exact Option.some.inj hlookup'
      subst hq hq'
      have hid : getShortID header nonce txHash = getShortID header nonce rest[j].hash := by
        rw [← hjk, List.getElem_map]
      rw [hpool txHash t hmem (j + 1) (by simpa using hjr) (Nat.succ_pos j) (by simpa using hid)]
      simp
  have hlength : pdb.txnsAvailable.length = (coinbase :: rest).length := by
    rw [hpdb, hinv.length_txns]
    simp
  rw [fillBlock_of_agree checkBlock corruptionPossible (hheader ▸ hnull) hlength hagree, hheader]

theorem compact_block_reconstruction :
    (∀ maxBlockSize (cmpctblock : CBlockHeaderAndShortTxIDs CTransaction) vTxHashes extraTxns,
      cmpctblock.prefilledtxn.length < 2 ^ 32 →
      ∃ r, initData getShortID overfull maxBlockSize cmpctblock vTxHashes extraTxns = .ok r) ∧
    (∀ maxBlockSize (cmpctblock : CBlockHeaderAndShortTxIDs CTransaction) vTxHashes extraTxns pdb,
      cmpctblock.blockTxCount ≤ 2 ^ 32 →
      initData getShortID overfull maxBlockSize cmpctblock vTxHashes extraTxns = .ok (.ok pdb) →
      ((-1) :: prefilledPositions (-1) cmpctblock.prefilledtxn).IsChain (· < ·) ∧
      (∀ q ∈ prefilledPositions (-1) cmpctblock.prefilledtxn, 0 ≤ q ∧ q < cmpctblock.blockTxCount) ∧
      ∃ txns0 m, prefilledLoop cmpctblock.shorttxids.length 0 (-1)
          (List.replicate cmpctblock.blockTxCount none) cmpctblock.prefilledtxn = .ok (.ok txns0) ∧
        shortIdLoop overfull txns0 0 0 ∅ cmpctblock.shorttxids = .ok (.ok m) ∧
        (∀ j (hj : j < cmpctblock.shorttxids.length), ∃ q : Nat,
          m.lookup cmpctblock.shorttxids[j] = some q ∧ q < cmpctblock.blockTxCount ∧
          (q : Int) ∉ prefilledPositions (-1) cmpctblock.prefilledtxn ∧
          (List.range q).countP
            (fun q' : Nat => decide ((q' : Int) ∉ prefilledPositions (-1) cmpctblock.prefilledtxn)) =
            j) ∧
        ∀ (q : Nat) t, pdb.txnsAvailable[q]? = some (some t) →
          (q : Int) ∈ prefilledPositions (-1) cmpctblock.prefilledtxn ∨
          ∃ j, ∃ (hj : j < cmpctblock.shorttxids.length), ∃ txHash, (txHash, t) ∈ vTxHashes ++ extraTxns ∧
            getShortID cmpctblock.header cmpctblock.nonce txHash = cmpctblock.shorttxids[j] ∧
            m.lookup cmpctblock.shorttxids[j] = some q) ∧
    (∀ (checkBlock corruptionPossible : CBlock → Int → Bool) maxBlockSize nonce (block : CBlock)
      cmpctblock vTxHashes extraTxns pdb (blockHeight : Int),
      CBlockHeaderAndShortTxIDs.ofBlock getShortID nonce block = .ok cmpctblock →
      (∀ txHash t, (txHash, t) ∈ vTxHashes ++ extraTxns → ∀ q (hq : q < block.vtx.length),
        0 < q → getShortID block.header nonce txHash = getShortID block.header nonce block.vtx[q].hash →
          t = block.vtx[q]) →
      block.vtx.length ≤ 2 ^ 32 →
      initData getShortID overfull maxBlockSize cmpctblock vTxHashes extraTxns = .ok (.ok pdb) →
      fillBlock checkBlock corruptionPossible pdb
          ((block.vtx.zip pdb.txnsAvailable).filterMap fun p => if p.2.isNone then some p.1 else none)
          blockHeight =
        .ok (if checkBlock block blockHeight then .READ_STATUS_OK
          else if corruptionPossible block blockHeight then .READ_STATUS_FAILED
          else .READ_STATUS_CHECKBLOCK_FAILED, some block, ⟨[], .null⟩)) :=
  ⟨fun _ _ _ _ hpre => initData_ok getShortID overfull _ _ _ _ hpre,
    fun _ _ _ _ _ hblock h => initData_sound getShortID overfull hblock h,
    fun checkBlock corruptionPossible _ _ _ _ _ _ _ blockHeight hc hpool hblock h =>
      fillBlock_reconstructs getShortID overfull checkBlock corruptionPossible blockHeight hc hpool
        hblock h⟩

/-! ### More than `2 ^ 32` slots -/

def sampleTx : CTransaction := ⟨1, [], [⟨0, []⟩], 0, Vector.replicate 32 0⟩

def sampleHeader : CBlockHeader := ⟨0, Vector.replicate 32 0, Vector.replicate 32 0, 0, 1, 0⟩

/-- A compact block with two prefilled transactions, at slots 0 and 1, and the `n + 1` short ids
`0, ..., n`. -/
def twoPrefilledBlock (n : Nat) : CBlockHeaderAndShortTxIDs CTransaction :=
  ⟨0, (List.range (n + 1)).map UInt64.ofNat, [⟨0, sampleTx⟩, ⟨0, sampleTx⟩], sampleHeader⟩

theorem blockTxCount_twoPrefilledBlock (n : Nat) : (twoPrefilledBlock n).blockTxCount = n + 3 := by
  simp [twoPrefilledBlock, CBlockHeaderAndShortTxIDs.blockTxCount]

theorem prefilledLoop_twoPrefilledBlock (n : Nat) :
    prefilledLoop (twoPrefilledBlock n).shorttxids.length 0 (-1)
        (List.replicate (twoPrefilledBlock n).blockTxCount none) (twoPrefilledBlock n).prefilledtxn =
      .ok (.ok (some sampleTx :: some sampleTx :: List.replicate (n + 1) none)) := by
  rw [blockTxCount_twoPrefilledBlock, show n + 3 = n + 1 + 1 + 1 by omega, List.replicate_succ,
    List.replicate_succ]
  simp [prefilledLoop, twoPrefilledBlock, sampleTx, CTransaction.isNull]

theorem nodup_shorttxids_twoPrefilledBlock {n : Nat} (hn : n < 2 ^ 64) :
    (twoPrefilledBlock n).shorttxids.Nodup := by
  refine List.Nodup.map_on (fun a ha b hb hab => ?_) List.nodup_range
  rw [List.mem_range] at ha hb
  have := congrArg UInt64.toNat hab
  rw [UInt64.toNat_ofNat', UInt64.toNat_ofNat', Nat.mod_eq_of_lt (by omega),
    Nat.mod_eq_of_lt (by omega)] at this
  exact this

theorem initData_twoPrefilledBlock {n : Nat} (hn : n < 2 ^ 64) (hover : ∀ m k, overfull m k = false)
    (maxBlockSize : Nat) (hmax : n + 3 ≤ maxBlockSize / MIN_TRANSACTION_SIZE) :
    (∃ pdb, initData getShortID overfull maxBlockSize (twoPrefilledBlock n) [] [] = .ok (.ok pdb)) ∧
      ∃ m, shortIdLoop overfull (some sampleTx :: some sampleTx :: List.replicate (n + 1) none) 0 0 ∅
          (twoPrefilledBlock n).shorttxids = .ok (.ok m) ∧
        ∀ j ≤ n, m.lookup (UInt64.ofNat j) = some ((j + 2) % 2 ^ 32) := by
  set txns0 := some sampleTx :: some sampleTx :: List.replicate (n + 1) none with htxns0
  have hlen : txns0.length = n + 3 := by simp [txns0]
  have hcount : countNone txns0 txns0.length = n + 1 := by
    simp [txns0, countNone, List.countP_replicate]
  have hids : (twoPrefilledBlock n).shorttxids.length = n + 1 := by simp [twoPrefilledBlock]
  obtain ⟨qs, hqlen, hqs, hloop⟩ := shortIdLoop_spec overfull (l := (twoPrefilledBlock n).shorttxids)
    (m := ∅) (by rfl : countNone txns0 (0 + 0) = 0) (by rw [hcount, hids, Nat.zero_add])
    (.inr (by rw [hcount, hlen]; omega))
  have hloop' := hloop.resolve_left (by
    rintro ⟨⟨m', k, h⟩, -⟩
    rw [hover] at h
    cases h)
  have hqj : ∀ j (hj : j < qs.length), qs[j] = j + 2 := by
    intro j hj
    have hfree := isNthFree_append_replicate
      (by simp : ∀ x ∈ [some sampleTx, some sampleTx], x.isSome) (by omega : j < n + 1)
    exact (hqs j hj).unique (by simpa using hfree)
  have hnodup : (((twoPrefilledBlock n).shorttxids.zip (qs.map (· % 2 ^ 32))).map Prod.fst).Nodup := by
    rw [List.map_fst_zip (by simp; omega)]
    exact nodup_shorttxids_twoPrefilledBlock hn
  refine ⟨?_, _, hloop', fun j hj => ?_⟩
  · unfold initData
    rw [if_neg (by simp [twoPrefilledBlock, sampleHeader, CBlockHeader.isNull]),
      if_neg (by rw [blockTxCount_twoPrefilledBlock]; omega), prefilledLoop_twoPrefilledBlock]
    dsimp only
    rw [hloop']
    dsimp only
    rw [if_neg (by rw [length_keys_insertAll, hnodup.dedup, List.length_map, List.length_zip,
      List.length_map, hqlen, Nat.min_self]; exact not_not.mpr rfl)]
    exact ⟨_, rfl⟩
  · have hjq : j < qs.length := by omega
    have hmem : (UInt64.ofNat j, qs[j] % 2 ^ 32) ∈
        (twoPrefilledBlock n).shorttxids.zip (qs.map (· % 2 ^ 32)) :=
      List.mem_iff_getElem.mpr ⟨j, by simp; omega, by simp [twoPrefilledBlock, List.getElem_zip]⟩
    rw [lookup_insertAll_of_nodup hnodup hmem, hqj j hjq]

/-- With `2 ^ 32 - 1` short ids after two prefilled transactions, `InitData` succeeds on a block of
`2 ^ 32 + 1` slots, and the last short id, whose slot is `2 ^ 32`, is recorded at slot 0, the first
prefilled transaction's. -/
theorem initData_wraps_short_id_slot :
    (twoPrefilledBlock (2 ^ 32 - 2)).blockTxCount = 2 ^ 32 + 1 ∧
    (∃ pdb, initData (fun _ _ _ => 0) (fun _ _ => false) (10 * (2 ^ 32 + 1))
      (twoPrefilledBlock (2 ^ 32 - 2)) [] [] = .ok (.ok pdb)) ∧
    ∃ txns0 m, prefilledLoop (twoPrefilledBlock (2 ^ 32 - 2)).shorttxids.length 0 (-1)
        (List.replicate (twoPrefilledBlock (2 ^ 32 - 2)).blockTxCount none)
        (twoPrefilledBlock (2 ^ 32 - 2)).prefilledtxn = .ok (.ok txns0) ∧
      shortIdLoop (fun _ _ => false) txns0 0 0 ∅ (twoPrefilledBlock (2 ^ 32 - 2)).shorttxids =
        .ok (.ok m) ∧
      (twoPrefilledBlock (2 ^ 32 - 2)).shorttxids[2 ^ 32 - 2]? = some (UInt64.ofNat (2 ^ 32 - 2)) ∧
      m.lookup (UInt64.ofNat (2 ^ 32 - 2)) = some 0 ∧
      (0 : Int) ∈ prefilledPositions (-1) (twoPrefilledBlock (2 ^ 32 - 2)).prefilledtxn := by
  obtain ⟨hinit, m, hloop, hlookup⟩ := initData_twoPrefilledBlock (fun _ _ _ => 0) (fun _ _ => false)
    (n := 2 ^ 32 - 2) (by norm_num) (fun _ _ => rfl) (10 * (2 ^ 32 + 1))
    (by norm_num [MIN_TRANSACTION_SIZE])
  refine ⟨by rw [blockTxCount_twoPrefilledBlock]; norm_num, hinit, _, m,
    prefilledLoop_twoPrefilledBlock _, hloop, by simp [twoPrefilledBlock], ?_,
    by simp [twoPrefilledBlock, prefilledPositions]⟩
  rw [hlookup _ (Nat.le_refl _)]
  norm_num

end TbcNode.Net
