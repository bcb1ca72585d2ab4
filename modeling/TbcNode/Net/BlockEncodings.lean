import TbcNode.Primitives.Serialize

/-! # The messages of compact block relay (`blockencodings.h`)

A `getblocktxn` request sends positions as differences added back in `uint32_t`, so the reader
accepts exactly the lists ascending up to a wrap at `0xFFFFFFFF`
(`format_blockTransactionsRequest`). A `cmpctblock` carries a header, a nonce and 6-byte short ids.
-/

namespace TbcNode.Net

open TbcNode.Logic TbcNode.Primitives

/-! ### Reading 1000 elements at a time -/

/-- The reading loop of `BlockTransactionsRequest` and `CBlockHeaderAndShortTxIDs`: while the
vector holds fewer than `nSize` elements it grows by at most 1000, and the new elements are read one
after another; `nMid` is its size and `v` holds what was read. -/
def readInChunks {α : Type} (dec : Reader α) (nSize nMid : Nat) (v : List α) :
    Reader (List α) :=
  if nMid < nSize then do
    let xs ← readN dec (min (1000 + nMid) nSize - nMid)
    readInChunks dec nSize (min (1000 + nMid) nSize) (v ++ xs)
  else pure v
termination_by nSize - nMid
decreasing_by omega

theorem reads_readInChunks {α : Type} {dec : Reader α} {nSize nMid : Nat} {v xs : List α}
    {parts : List (List UInt8)} (h : List.Forall₂ (fun x b => Reads dec b x) xs parts)
    (hlen : xs.length = nSize - nMid) :
    Reads (readInChunks dec nSize nMid v) parts.flatten (v ++ xs) := by
  fun_induction readInChunks dec nSize nMid v generalizing xs parts with
  | case1 nMid v hi ih =>
    have hstep : min (1000 + nMid) nSize - nMid ≤ xs.length := by omega
    have hfirst := Reads.readN (List.forall₂_take (min (1000 + nMid) nSize - nMid) h)
    rw [List.length_take_of_le hstep] at hfirst
    have hrest := ih (xs.take (min (1000 + nMid) nSize - nMid))
      (List.forall₂_drop (min (1000 + nMid) nSize - nMid) h)
      (by simp only [List.length_drop]; omega)
    refine (Reads.bind hfirst hrest).of_eq ?_ ?_
    · rw [← List.flatten_append, List.take_append_drop]
    · rw [List.append_assoc, List.take_append_drop]
  | case2 nMid v hi =>
    have hnil : xs = [] := List.eq_nil_of_length_eq_zero (by omega)
    subst hnil
    cases h
    exact (Reads.pure' v).of_eq rfl (List.append_nil v).symm

theorem consumes_readInChunks {α : Type} {dec : Reader α} {R : List UInt8 → α → Prop}
    (hdec : Consumes dec R) (nSize nMid : Nat) (v : List α) :
    Consumes (readInChunks dec nSize nMid v) fun b w =>
      ∃ xs parts, List.Forall₂ (fun x b => R b x) xs parts ∧ b = parts.flatten ∧
        xs.length = nSize - nMid ∧ w = v ++ xs := by
  fun_induction readInChunks dec nSize nMid v with
  | case1 nMid v hi ih =>
    refine ((hdec.readN _).bind ih).mono ?_
    rintro b w ⟨ys, b₁, b₂, ⟨parts, hparts, rfl, hys⟩, ⟨zs, parts', hzs, rfl, hlen, rfl⟩, rfl⟩
    refine ⟨ys ++ zs, parts ++ parts', List.rel_append hparts hzs, by simp, ?_, by simp⟩
    simp only [List.length_append]
    omega
  | case2 nMid v hi =>
    refine (Consumes.pure' v).mono ?_
    rintro b w ⟨rfl, rfl⟩
    exact ⟨[], [], List.Forall₂.nil, rfl, by simp; omega, (List.append_nil _).symm⟩

/-! ### `BlockTransactionsRequest` -/

/-- `BlockTransactionsRequest`. -/
structure BlockTransactionsRequest where
  blockhash : uint256
  indices : List UInt32
  deriving DecidableEq, Repr

/-- The difference the writer emits for `indices[i]`,
`indices[i] - (i == 0 ? 0 : (indices[i - 1] + 1))`, in `uint32_t`. -/
def indexDelta (indices : List UInt32) (i : Nat) : UInt32 :=
  indices.getD i 0 - (if i = 0 then 0 else indices.getD (i - 1) 0 + 1)

/-- The writer of `BlockTransactionsRequest::SerializationOp`. -/
def serializeBlockTransactionsRequest (req : BlockTransactionsRequest) :
    Except String (List UInt8) := do
  let size ← writeCompactSize req.indices.length
  let deltas ← (List.range req.indices.length).mapM fun i =>
    writeCompactSize (indexDelta req.indices i).toNat
  pure (req.blockhash.toList ++ size ++ deltas.flatten)

/-- A `uint32_t` index read as a `CompactSize`, with the failure thrown when it does not fit. -/
def readCompactIndex (overflowed : String) : Reader UInt32 := do
  let n ← readCompactSize
  if n > 0xFFFFFFFF then throw overflowed else pure (UInt32.ofNat n)

/-- One difference of `BlockTransactionsRequest`. -/
def readIndex : Reader UInt32 := readCompactIndex "index overflowed 32 bits"

/-- The second loop of the reader: each difference plus the running `offset`, which must fit 32
bits, and then `offset = index + 1`, in `uint32_t`. -/
def addOffsets : UInt32 → List UInt32 → Except String (List UInt32)
  | _, [] => .ok []
  | offset, index :: rest =>
    if index.toNat + offset.toNat > 0xFFFFFFFF then .error "indices overflowed 32 bits"
    else do
      let rest ← addOffsets (index + offset + 1) rest
      pure ((index + offset) :: rest)

/-- The reader of `BlockTransactionsRequest::SerializationOp`, into a new request. -/
def unserializeBlockTransactionsRequest : Reader BlockTransactionsRequest := do
  let blockhash ← read 32
  let indicesSize ← readCompactSize
  let deltas ← readInChunks readIndex indicesSize 0 []
  let indices ← Logic.ofExcept (addOffsets 0 deltas)
  pure ⟨blockhash, indices⟩

/-- The lists of positions the format carries: each is below the next, or is `0xFFFFFFFF`, after
which the offset wraps to `0`. -/
def AscendingUpToWrap (indices : List UInt32) : Prop :=
  indices.IsChain fun a b => a = 0xFFFFFFFF ∨ a < b

/-! ### The differences -/

/-- The differences from `offset`, the position after the previous one. -/
def deltas : UInt32 → List UInt32 → List UInt32
  | _, [] => []
  | offset, index :: rest => (index - offset) :: deltas (index + 1) rest

@[simp] theorem length_deltas (offset : UInt32) (L : List UInt32) :
    (deltas offset L).length = L.length := by
  induction L generalizing offset with
  | nil => rfl
  | cons a rest ih => simp [deltas, ih]

theorem getD_deltas (offset : UInt32) (L : List UInt32) {i : Nat} (hi : i < L.length) :
    (deltas offset L).getD i 0 = L.getD i 0 - (if i = 0 then offset else L.getD (i - 1) 0 + 1) := by
  induction L generalizing offset i with
  | nil => simp at hi
  | cons a rest ih =>
    cases i with
    | zero => simp [deltas]
    | succ i =>
      have hi' : i < rest.length := by simpa using hi
      rw [deltas, List.getD_cons_succ, ih (a + 1) hi', List.getD_cons_succ,
        if_neg (Nat.succ_ne_zero i), Nat.add_sub_cancel]
      cases i with
      | zero => simp
      | succ i => simp

theorem map_indexDelta (L : List UInt32) :
    (List.range L.length).map (indexDelta L) = deltas 0 L := by
  apply List.ext_getElem (by simp)
  intro i h₁ h₂
  have hi : i < L.length := by simpa using h₁
  rw [List.getElem_map, List.getElem_range, ← List.getD_eq_getElem _ 0, getD_deltas 0 L hi]
  rfl

theorem addOffsets_deltas (offset : UInt32) (L : List UInt32) (hL : AscendingUpToWrap L)
    (hhead : ∀ a ∈ L.head?, offset.toNat ≤ a.toNat) :
    addOffsets offset (deltas offset L) = .ok L := by
  induction L generalizing offset with
  | nil => rfl
  | cons a rest ih =>
    have ha : offset.toNat ≤ a.toNat := hhead a rfl
    have hsub : (a - offset).toNat = a.toNat - offset.toNat := UInt32.toNat_sub_of_le _ _ ha
    have hback : a - offset + offset = a := UInt32.sub_add_cancel a offset
    have hfits : ¬ (a - offset).toNat + offset.toNat > 0xFFFFFFFF := by
      have := a.toNat_lt
      omega
    have hrest : addOffsets (a + 1) (deltas (a + 1) rest) = .ok rest := by
      apply ih (a + 1) hL.tail
      intro b hb
      have hab : a = 0xFFFFFFFF ∨ a < b := by
        cases rest with
        | nil => simp at hb
        | cons b' rest =>
          obtain rfl : b' = b := by simpa using hb
          exact (List.isChain_cons_cons.mp hL).1
      rcases hab with rfl | hab
      · simp
      · rw [UInt32.lt_iff_toNat_lt] at hab
        have := b.toNat_lt
        rw [UInt32.toNat_add, UInt32.toNat_one, Nat.mod_eq_of_lt (by omega)]
        omega
    simp only [deltas, addOffsets, if_neg hfits, hback, hrest]
    rfl

theorem addOffsets_eq_ok {offset : UInt32} {ds L : List UInt32} (h : addOffsets offset ds = .ok L) :
    deltas offset L = ds ∧ AscendingUpToWrap L ∧ ∀ a ∈ L.head?, offset.toNat ≤ a.toNat := by
  induction ds generalizing offset L with
  | nil =>
    cases h
    exact ⟨rfl, List.isChain_nil, by simp⟩
  | cons d ds ih =>
    simp only [addOffsets] at h
    split_ifs at h with hover
    obtain ⟨L', hL', rfl⟩ := bind_pure_eq_ok_iff.mp h
    obtain ⟨hds, hchain, hhead⟩ := ih hL'
    have hsum : (d + offset).toNat = d.toNat + offset.toNat := by
      rw [UInt32.toNat_add, Nat.mod_eq_of_lt (by omega)]
    refine ⟨by rw [deltas, UInt32.add_sub_cancel, hds], ?_, by simp [hsum]⟩
    cases L' with
    | nil => exact List.isChain_singleton _
    | cons b rest =>
      refine List.isChain_cons_cons.mpr ⟨?_, hchain⟩
      by_cases hmax : d + offset = 0xFFFFFFFF
      · exact .inl hmax
      · right
        have hnext := hhead b rfl
        have hne : (d + offset).toNat ≠ 0xFFFFFFFF := fun h => hmax (UInt32.toNat_inj.mp h)
        rw [UInt32.toNat_add (d + offset), UInt32.toNat_one, Nat.mod_eq_of_lt (by omega)] at hnext
        rw [UInt32.lt_iff_toNat_lt]
        omega

/-! ### The format of the request -/

theorem reads_readCompactIndex (overflowed : String) {d : UInt32} {b : List UInt8}
    (h : writeCompactSize d.toNat = .ok b) : Reads (readCompactIndex overflowed) b d := by
  have hfits : ¬ d.toNat > 0xFFFFFFFF := by
    have := d.toNat_lt
    omega
  refine (Reads.bind (reads_readCompactSize h) ?_).of_eq (List.append_nil b) rfl
  rw [if_neg hfits, UInt32.ofNat_toNat]
  exact Reads.pure' d

theorem consumes_readCompactIndex (overflowed : String) :
    Consumes (readCompactIndex overflowed) fun b d => writeCompactSize d.toNat = .ok b := by
  refine (consumes_readCompactSize.bind fun n => Consumes.ite (R := fun b d => b = [] ∧
      d = UInt32.ofNat n ∧ n ≤ 0xFFFFFFFF) (fun _ => Consumes.throw' _ _)
    fun hfits => (Consumes.pure' _).mono fun b d ⟨hb, hd⟩ => ⟨hb, hd, by omega⟩).mono ?_
  rintro b d ⟨n, b₁, b₂, hn, ⟨rfl, rfl, hfits⟩, rfl⟩
  have hd : (UInt32.ofNat n).toNat = n := by
    simp
    omega
  rw [hd, List.append_nil]
  exact hn

theorem serializeBlockTransactionsRequest_eq_ok {req : BlockTransactionsRequest} {b : List UInt8} :
    serializeBlockTransactionsRequest req = .ok b ↔ ∃ size parts,
      writeCompactSize req.indices.length = .ok size ∧
      List.Forall₂ (fun d b => writeCompactSize d.toNat = .ok b) (deltas 0 req.indices) parts ∧
      b = req.blockhash.toList ++ size ++ parts.flatten := by
  unfold serializeBlockTransactionsRequest
  rw [bind_eq_ok_iff, ← map_indexDelta]
  constructor
  · rintro ⟨size, hsize, hrest⟩
    obtain ⟨parts, hparts, rfl⟩ := bind_pure_eq_ok_iff.mp hrest
    exact ⟨size, parts, hsize, List.forall₂_map_left_iff.mpr (mapM_eq_ok_iff.mp hparts), rfl⟩
  · rintro ⟨size, parts, hsize, hparts, rfl⟩
    exact ⟨size, hsize, bind_pure_eq_ok_iff.mpr
      ⟨parts, mapM_eq_ok_iff.mpr (List.forall₂_map_left_iff.mp hparts), rfl⟩⟩

/-- The writer and the reader of `BlockTransactionsRequest` are one format for the lists of
`AscendingUpToWrap`: every such request is read back from what the writer writes, and whatever the
reader accepts is what the writer writes of such a request. -/
theorem format_blockTransactionsRequest :
    Format (fun req : BlockTransactionsRequest => AscendingUpToWrap req.indices)
      serializeBlockTransactionsRequest unserializeBlockTransactionsRequest where
  reads := by
    intro req b hasc hser
    obtain ⟨size, parts, hsize, hparts, rfl⟩ := serializeBlockTransactionsRequest_eq_ok.mp hser
    have hdeltas : Reads (readInChunks readIndex req.indices.length 0 []) parts.flatten
        (deltas 0 req.indices) :=
      (reads_readInChunks (v := []) (hparts.imp fun _ _ => reads_readCompactIndex _) (by simp)).of_eq rfl
        (List.nil_append _)
    have hindices := Reads.ofExcept (β := UInt8) (addOffsets_deltas 0 _ hasc (by simp))
    refine (Reads.bind (reads_read req.blockhash) (Reads.bind (reads_readCompactSize hsize)
      (Reads.bind hdeltas (Reads.bind hindices
        (Reads.pure' (⟨req.blockhash, req.indices⟩ : BlockTransactionsRequest)))))).of_eq (by simp) rfl
  consumes := by
    refine ((consumes_read 32).bind fun blockhash => consumes_readCompactSize.bind fun n =>
      (consumes_readInChunks (consumes_readCompactIndex _) n 0 []).bind fun ds =>
      (Consumes.ofExcept (addOffsets 0 ds)).bind fun indices => Consumes.pure' _).mono ?_
    rintro b req ⟨blockhash, b₁, b₂, rfl, ⟨n, b₃, b₄, hn, ⟨ds, b₅, b₆,
      ⟨ds', parts, hparts, rfl, hlen, rfl⟩, ⟨indices, b₇, b₈, ⟨rfl, hadd⟩, ⟨rfl, rfl⟩, rfl⟩, rfl⟩,
      rfl⟩, rfl⟩
    obtain ⟨hds, hasc, -⟩ := addOffsets_eq_ok hadd
    subst hds
    refine ⟨hasc, serializeBlockTransactionsRequest_eq_ok.mpr ⟨b₃, parts, ?_, hparts, by simp⟩⟩
    rw [← length_deltas 0 indices, hlen, Nat.sub_zero]
    exact hn

/-! ### Strictly increasing requests -/

theorem ascendingUpToWrap_of_isChain {L : List UInt32} (h : L.IsChain (· < ·)) :
    AscendingUpToWrap L :=
  h.imp fun _ _ hab => .inr hab

theorem toNat_indexDelta {L : List UInt32} (h : L.IsChain (· < ·)) {i : Nat} (hi : i < L.length) :
    (indexDelta L i).toNat =
      (L.getD i 0).toNat - (if i = 0 then 0 else (L.getD (i - 1) 0).toNat + 1) := by
  unfold indexDelta
  cases i with
  | zero => simp
  | succ j =>
    have hlt : (L.getD j 0).toNat < (L.getD (j + 1) 0).toNat := by
      rw [List.getD_eq_getElem _ _ (by omega), List.getD_eq_getElem _ _ hi,
        ← UInt32.lt_iff_toNat_lt]
      exact h.getElem j hi
    have hsucc : (L.getD j 0 + 1).toNat = (L.getD j 0).toNat + 1 := by
      have := (L.getD (j + 1) 0).toNat_lt
      rw [UInt32.toNat_add, UInt32.toNat_one, Nat.mod_eq_of_lt (by omega)]
    rw [if_neg (Nat.succ_ne_zero j), if_neg (Nat.succ_ne_zero j), Nat.add_sub_cancel,
      UInt32.toNat_sub_of_le _ _ (by rw [UInt32.le_iff_toNat_le, hsucc]; omega), hsucc]

theorem serializeBlockTransactionsRequest_of_le {req : BlockTransactionsRequest}
    (h : req.indices.length ≤ MAX_SIZE) : ∃ b, serializeBlockTransactionsRequest req = .ok b := by
  obtain ⟨size, hsize⟩ := writeCompactSize_of_le h
  have hdeltas : ∀ d ∈ deltas 0 req.indices, ∃ b, writeCompactSize d.toNat = .ok b :=
    fun d _ => writeCompactSize_of_le (by
      have := d.toNat_lt
      simp only [MAX_SIZE]
      omega)
  obtain ⟨parts, hparts⟩ := exists_mapM_eq_ok hdeltas
  exact ⟨_, serializeBlockTransactionsRequest_eq_ok.mpr
    ⟨size, parts, hsize, mapM_eq_ok_iff.mp hparts, rfl⟩⟩

/-! ### `CBlockHeaderAndShortTxIDs` -/

/-- `CBlockHeader`. -/
structure CBlockHeader where
  nVersion : Int32
  hashPrevBlock : uint256
  hashMerkleRoot : uint256
  nTime : UInt32
  nBits : UInt32
  nNonce : UInt32
  deriving DecidableEq, Repr

/-- `CBlockHeader::SerializationOp`, writing. -/
def serializeBlockHeader (header : CBlockHeader) : List UInt8 :=
  serWritedata32 header.nVersion.toUInt32.toNat ++ header.hashPrevBlock.toList ++
    header.hashMerkleRoot.toList ++ serWritedata32 header.nTime.toNat ++
    serWritedata32 header.nBits.toNat ++ serWritedata32 header.nNonce.toNat

/-- `CBlockHeader::SerializationOp`, reading. -/
def unserializeBlockHeader : Reader CBlockHeader := do
  let nVersion ← serReaddata32
  let hashPrevBlock ← read 32
  let hashMerkleRoot ← read 32
  let nTime ← serReaddata32
  let nBits ← serReaddata32
  let nNonce ← serReaddata32
  pure ⟨(UInt32.ofNat nVersion).toInt32, hashPrevBlock, hashMerkleRoot, UInt32.ofNat nTime,
    UInt32.ofNat nBits, UInt32.ofNat nNonce⟩

/-- `PrefilledTransaction`, over the type of its transaction: the fields of a transaction as they
are serialised on the wire, a `CTransaction` with its hash in memory. -/
structure PrefilledTransaction (Tx : Type) where
  index : UInt32
  tx : Tx
  deriving DecidableEq, Repr

/-- `PrefilledTransaction::SerializationOp`, writing. -/
def serializePrefilledTransaction (p : PrefilledTransaction CMutableTransaction) : Except String (List UInt8) := do
  let n ← writeCompactSize p.index.toNat
  let tx ← serializeTransaction p.tx
  pure (n ++ tx)

/-- `PrefilledTransaction::SerializationOp`, reading. -/
def unserializePrefilledTransaction (sizeofCTxIn sizeofCTxOut : Nat) :
    Reader (PrefilledTransaction CMutableTransaction) := do
  let index ← readCompactIndex "index overflowed 32-bits"
  let tx ← unserializeTransaction sizeofCTxIn sizeofCTxOut
  pure ⟨index, tx⟩

/-- `CBlockHeaderAndShortTxIDs`: the fields on the wire, over the type of its transactions. -/
structure CBlockHeaderAndShortTxIDs (Tx : Type) where
  nonce : UInt64
  shorttxids : List UInt64
  prefilledtxn : List (PrefilledTransaction Tx)
  header : CBlockHeader
  deriving DecidableEq, Repr

/-- One short id on the wire: `lsb = shortid & 0xffffffff`, then
`msb = (shortid >> 32) & 0xffff`. -/
def serializeShortTxId (shortid : UInt64) : List UInt8 :=
  let lsb : UInt32 := (shortid &&& 0xffffffff).toUInt32
  let msb : UInt16 := ((shortid >>> 32) &&& 0xffff).toUInt16
  serWritedata32 lsb.toNat ++ serWritedata16 msb.toNat

/-- One short id read: `(uint64_t(msb) << 32) | uint64_t(lsb)`. -/
def readShortTxId : Reader UInt64 := do
  let lsb ← serReaddata32
  let msb ← serReaddata16
  pure ((UInt64.ofNat msb <<< 32) ||| UInt64.ofNat lsb)

/-- `CBlockHeaderAndShortTxIDs::SerializationOp`, writing. -/
def serializeCBlockHeaderAndShortTxIDs (c : CBlockHeaderAndShortTxIDs CMutableTransaction) :
    Except String (List UInt8) := do
  let size ← writeCompactSize c.shorttxids.length
  let prefilledtxn ← serializeVector serializePrefilledTransaction c.prefilledtxn
  pure (serializeBlockHeader c.header ++ serWritedata64 c.nonce.toNat ++ size ++
    c.shorttxids.flatMap serializeShortTxId ++ prefilledtxn)

/-- `CBlockHeaderAndShortTxIDs::SerializationOp`, reading into a new object, with the sizes of
`PrefilledTransaction`, `CTxIn` and `CTxOut` of the build. -/
def unserializeCBlockHeaderAndShortTxIDs (sizeofPrefilledTransaction sizeofCTxIn sizeofCTxOut : Nat) :
    Reader (CBlockHeaderAndShortTxIDs CMutableTransaction) := do
  let header ← unserializeBlockHeader
  let nonce ← serReaddata64
  let shorttxidsSize ← readCompactSize
  let shorttxids ← readInChunks readShortTxId shorttxidsSize 0 []
  let prefilledtxn ← unserializeVector (unserializePrefilledTransaction sizeofCTxIn sizeofCTxOut)
    sizeofPrefilledTransaction
  pure ⟨UInt64.ofNat nonce, shorttxids, prefilledtxn, header⟩

/-! ### The header -/

theorem reads_unserializeBlockHeader (header : CBlockHeader) :
    Reads unserializeBlockHeader (serializeBlockHeader header) header := by
  have h32 : ∀ x : UInt32, Reads serReaddata32 (serWritedata32 x.toNat) x.toNat := fun x =>
    reads_serReaddata (by simpa using x.toNat_lt)
  refine Reads.of_eq (Reads.bind (h32 header.nVersion.toUInt32) (Reads.bind
    (reads_read header.hashPrevBlock) (Reads.bind (reads_read header.hashMerkleRoot) (Reads.bind
      (h32 header.nTime) (Reads.bind (h32 header.nBits) (Reads.bind (h32 header.nNonce)
        (Reads.pure' _))))))) ?_ ?_
  · simp [serializeBlockHeader]
  · simp

theorem consumes_unserializeBlockHeader :
    Consumes unserializeBlockHeader fun b header => b = serializeBlockHeader header := by
  refine ((consumes_serReaddata 4).bind fun nVersion => (consumes_read 32).bind fun hashPrevBlock =>
    (consumes_read 32).bind fun hashMerkleRoot => (consumes_serReaddata 4).bind fun nTime =>
    (consumes_serReaddata 4).bind fun nBits => (consumes_serReaddata 4).bind fun nNonce =>
    Consumes.pure' _).mono ?_
  rintro b header ⟨nVersion, b₁, b₂, ⟨hv, rfl⟩, ⟨hashPrevBlock, b₃, b₄, rfl, ⟨hashMerkleRoot, b₅,
    b₆, rfl, ⟨nTime, b₇, b₈, ⟨ht, rfl⟩, ⟨nBits, b₉, b₁₀, ⟨hb, rfl⟩, ⟨nNonce, b₁₁, b₁₂, ⟨hn, rfl⟩,
    ⟨rfl, rfl⟩, rfl⟩, rfl⟩, rfl⟩, rfl⟩, rfl⟩, rfl⟩
  have hu : ∀ n, n < 256 ^ 4 → (UInt32.ofNat n).toNat = n := fun n h => by simp; omega
  simp [serializeBlockHeader, serWritedata32, hu _ hv, hu _ ht, hu _ hb, hu _ hn]

/-! ### Prefilled transactions -/

theorem serializePrefilledTransaction_eq_ok {p : PrefilledTransaction CMutableTransaction}
    {b : List UInt8} :
    serializePrefilledTransaction p = .ok b ↔ ∃ n tx, writeCompactSize p.index.toNat = .ok n ∧
      serializeTransaction p.tx = .ok tx ∧ b = n ++ tx := by
  unfold serializePrefilledTransaction
  rw [bind_eq_ok_iff]
  constructor
  · rintro ⟨n, hn, hrest⟩
    obtain ⟨tx, htx, rfl⟩ := bind_pure_eq_ok_iff.mp hrest
    exact ⟨n, tx, hn, htx, rfl⟩
  · rintro ⟨n, tx, hn, htx, rfl⟩
    exact ⟨n, hn, bind_pure_eq_ok_iff.mpr ⟨tx, htx, rfl⟩⟩

theorem format_prefilledTransaction (sizeofCTxIn sizeofCTxOut : Nat) :
    Format (fun p : PrefilledTransaction CMutableTransaction =>
        ∀ txout ∈ p.tx.vout, -2 ^ 63 ≤ txout.nValue ∧ txout.nValue < 2 ^ 63)
      serializePrefilledTransaction (unserializePrefilledTransaction sizeofCTxIn sizeofCTxOut) where
  reads := by
    intro p b hP hser
    obtain ⟨n, tx, hn, htx, rfl⟩ := serializePrefilledTransaction_eq_ok.mp hser
    refine Reads.of_eq (Reads.bind (reads_readCompactIndex _ hn) (Reads.bind
      ((format_transaction sizeofCTxIn sizeofCTxOut).reads hP htx) (Reads.pure' _))) (by simp) rfl
  consumes := by
    refine ((consumes_readCompactIndex _).bind fun index =>
      (format_transaction sizeofCTxIn sizeofCTxOut).consumes.bind fun tx => Consumes.pure' _).mono ?_
    rintro b p ⟨index, b₁, b₂, hn, ⟨tx, b₃, b₄, ⟨hP, htx⟩, ⟨rfl, rfl⟩, rfl⟩, rfl⟩
    exact ⟨hP, serializePrefilledTransaction_eq_ok.mpr ⟨b₁, b₃, hn, htx, by simp⟩⟩

/-! ### Short ids -/

theorem toNat_lsb (shortid : UInt64) :
    (shortid &&& 0xffffffff).toUInt32.toNat = shortid.toNat % 2 ^ 32 := by
  rw [UInt64.toNat_toUInt32, UInt64.toNat_and, show (0xffffffff : UInt64).toNat = 2 ^ 32 - 1 from rfl,
    Nat.and_two_pow_sub_one_eq_mod, Nat.mod_mod]

theorem toNat_msb (shortid : UInt64) :
    ((shortid >>> 32) &&& 0xffff).toUInt16.toNat = shortid.toNat / 2 ^ 32 % 2 ^ 16 := by
  rw [UInt64.toNat_toUInt16, UInt64.toNat_and, UInt64.toNat_shiftRight,
    show (0xffff : UInt64).toNat = 2 ^ 16 - 1 from rfl, Nat.and_two_pow_sub_one_eq_mod, Nat.mod_mod,
    show (32 : UInt64).toNat % 64 = 32 from rfl, Nat.shiftRight_eq_div_pow]

theorem toNat_join {lsb msb : Nat} (hl : lsb < 2 ^ 32) (hm : msb < 2 ^ 16) :
    ((UInt64.ofNat msb <<< 32) ||| UInt64.ofNat lsb).toNat = msb * 2 ^ 32 + lsb := by
  rw [UInt64.toNat_or, UInt64.toNat_shiftLeft, UInt64.toNat_ofNat', UInt64.toNat_ofNat',
    show (32 : UInt64).toNat % 64 = 32 from rfl, Nat.mod_eq_of_lt (a := msb) (by omega),
    Nat.mod_eq_of_lt (a := lsb) (by omega), Nat.shiftLeft_eq, Nat.mod_eq_of_lt (by omega),
    ← Nat.shiftLeft_eq, ← Nat.shiftLeft_add_eq_or_of_lt hl, Nat.shiftLeft_eq]

theorem toNat_mask (shortid : UInt64) :
    (shortid &&& 0xffffffffffff).toNat = shortid.toNat % 2 ^ 48 := by
  rw [UInt64.toNat_and]
  exact Nat.and_two_pow_sub_one_eq_mod shortid.toNat 48

theorem serializeShortTxId_mask (shortid : UInt64) :
    serializeShortTxId (shortid &&& 0xffffffffffff) = serializeShortTxId shortid := by
  have hlsb : (shortid &&& 0xffffffffffff &&& 0xffffffff).toUInt32 = (shortid &&& 0xffffffff).toUInt32 :=
    UInt32.toNat_inj.mp (by rw [toNat_lsb, toNat_lsb, toNat_mask]; omega)
  have hmsb : ((shortid &&& 0xffffffffffff) >>> 32 &&& 0xffff).toUInt16 =
      ((shortid >>> 32) &&& 0xffff).toUInt16 :=
    UInt16.toNat_inj.mp (by rw [toNat_msb, toNat_msb, toNat_mask]; omega)
  simp only [serializeShortTxId, hlsb, hmsb]

theorem reads_readShortTxId (shortid : UInt64) :
    Reads readShortTxId (serializeShortTxId shortid) (shortid &&& 0xffffffffffff) := by
  have hlsb := reads_serReaddata (w := 4) (n := (shortid &&& 0xffffffff).toUInt32.toNat)
    (Nat.lt_of_lt_of_eq (UInt32.toNat_lt _) rfl)
  have hmsb := reads_serReaddata (w := 2) (n := ((shortid >>> 32) &&& 0xffff).toUInt16.toNat)
    (Nat.lt_of_lt_of_eq (UInt16.toNat_lt _) rfl)
  refine Reads.of_eq (Reads.bind hlsb (Reads.bind hmsb (Reads.pure' _)))
    (by simp only [serializeShortTxId, serWritedata32, serWritedata16, List.append_nil]) ?_
  apply UInt64.toNat_inj.mp
  rw [toNat_join (UInt32.toNat_lt _) (UInt16.toNat_lt _), toNat_lsb, toNat_msb, toNat_mask]
  omega

theorem consumes_readShortTxId :
    Consumes readShortTxId fun b shortid => shortid.toNat < 2 ^ 48 ∧ b = serializeShortTxId shortid := by
  refine ((consumes_serReaddata 4).bind fun lsb => (consumes_serReaddata 2).bind fun msb =>
    Consumes.pure' _).mono ?_
  rintro b shortid ⟨lsb, b₁, b₂, ⟨hl, rfl⟩, ⟨msb, b₃, b₄, ⟨hm, rfl⟩, ⟨rfl, rfl⟩, rfl⟩, rfl⟩
  have hl' : lsb < 2 ^ 32 := by simpa using hl
  have hm' : msb < 2 ^ 16 := by simpa using hm
  have hjoin := toNat_join hl' hm'
  refine ⟨by omega, ?_⟩
  have hlsb : ((UInt64.ofNat msb <<< 32 ||| UInt64.ofNat lsb) &&& 0xffffffff).toUInt32.toNat = lsb := by
    rw [toNat_lsb, hjoin]
    omega
  have hmsb : (((UInt64.ofNat msb <<< 32 ||| UInt64.ofNat lsb) >>> 32) &&& 0xffff).toUInt16.toNat =
      msb := by
    rw [toNat_msb, hjoin]
    omega
  simp only [serializeShortTxId, hlsb, hmsb, serWritedata32, serWritedata16, List.append_nil]

/-! ### The format of the compact block -/

theorem serializeCBlockHeaderAndShortTxIDs_eq_ok {c : CBlockHeaderAndShortTxIDs CMutableTransaction}
    {b : List UInt8} :
    serializeCBlockHeaderAndShortTxIDs c = .ok b ↔ ∃ size prefilledtxn,
      writeCompactSize c.shorttxids.length = .ok size ∧
      serializeVector serializePrefilledTransaction c.prefilledtxn = .ok prefilledtxn ∧
      b = serializeBlockHeader c.header ++ serWritedata64 c.nonce.toNat ++ size ++
        c.shorttxids.flatMap serializeShortTxId ++ prefilledtxn := by
  unfold serializeCBlockHeaderAndShortTxIDs
  rw [bind_eq_ok_iff]
  constructor
  · rintro ⟨size, hsize, hrest⟩
    obtain ⟨prefilledtxn, hpre, rfl⟩ := bind_pure_eq_ok_iff.mp hrest
    exact ⟨size, prefilledtxn, hsize, hpre, rfl⟩
  · rintro ⟨size, prefilledtxn, hsize, hpre, rfl⟩
    exact ⟨size, hsize, bind_pure_eq_ok_iff.mpr ⟨prefilledtxn, hpre, rfl⟩⟩

/-- The compact block is read back when its short ids have 48 bits and its amounts are in the range
of `int64_t`, and only a compact block as written is accepted. -/
theorem format_cBlockHeaderAndShortTxIDs (sizeofPrefilledTransaction sizeofCTxIn sizeofCTxOut : Nat) :
    Format (fun c : CBlockHeaderAndShortTxIDs CMutableTransaction =>
        (∀ shortid ∈ c.shorttxids, shortid.toNat < 2 ^ 48) ∧
        ∀ p ∈ c.prefilledtxn, ∀ txout ∈ p.tx.vout, -2 ^ 63 ≤ txout.nValue ∧ txout.nValue < 2 ^ 63)
      serializeCBlockHeaderAndShortTxIDs
      (unserializeCBlockHeaderAndShortTxIDs sizeofPrefilledTransaction sizeofCTxIn sizeofCTxOut) where
  reads := by
    intro c b ⟨hshort, hamounts⟩ hser
    obtain ⟨size, prefilledtxn, hsize, hpre, rfl⟩ := serializeCBlockHeaderAndShortTxIDs_eq_ok.mp hser
    have hnonce := reads_serReaddata (w := 8) (n := c.nonce.toNat)
      (Nat.lt_of_lt_of_eq (UInt64.toNat_lt _) rfl)
    have hids : List.Forall₂ (fun x b => Reads readShortTxId b x) c.shorttxids
        (c.shorttxids.map serializeShortTxId) := by
      refine List.forall₂_map_right_iff.mpr (List.forall₂_same.mpr fun shortid hs => ?_)
      have hmask : shortid &&& 0xffffffffffff = shortid :=
        UInt64.toNat_inj.mp (by rw [toNat_mask, Nat.mod_eq_of_lt (hshort shortid hs)])
      simpa only [hmask] using reads_readShortTxId shortid
    have hshortids : Reads (readInChunks readShortTxId c.shorttxids.length 0 [])
        (c.shorttxids.map serializeShortTxId).flatten ([] ++ c.shorttxids) :=
      reads_readInChunks hids (by simp)
    have hprefilled := (format_vector (format_prefilledTransaction sizeofCTxIn sizeofCTxOut)
      sizeofPrefilledTransaction).reads hamounts hpre
    refine Reads.of_eq (Reads.bind (reads_unserializeBlockHeader c.header) (Reads.bind hnonce
      (Reads.bind (reads_readCompactSize hsize) (Reads.bind hshortids (Reads.bind hprefilled
        (Reads.pure' _)))))) (by simp [serWritedata64, List.flatMap_def]) (by simp)
  consumes := by
    refine (consumes_unserializeBlockHeader.bind fun header => (consumes_serReaddata 8).bind
      fun nonce => consumes_readCompactSize.bind fun n =>
      (consumes_readInChunks consumes_readShortTxId n 0 []).bind fun shorttxids =>
      (format_vector (format_prefilledTransaction sizeofCTxIn sizeofCTxOut)
        sizeofPrefilledTransaction).consumes.bind fun prefilledtxn => Consumes.pure' _).mono ?_
    rintro b c ⟨header, b₁, b₂, rfl, ⟨nonce, b₃, b₄, ⟨hnonce, rfl⟩, ⟨n, b₅, b₆, hn, ⟨ids, b₇, b₈,
      ⟨ids', parts, hparts, rfl, hlen, rfl⟩, ⟨prefilledtxn, b₉, b₁₀, ⟨hamounts, hpre⟩, ⟨rfl, rfl⟩,
      rfl⟩, rfl⟩, rfl⟩, rfl⟩, rfl⟩
    obtain ⟨hfit, hbytes⟩ := (List.forall₂_and_left _ _).mp hparts
    have hnonce' : (UInt64.ofNat nonce).toNat = nonce := by
      simp only [UInt64.toNat_ofNat']
      exact Nat.mod_eq_of_lt (by simpa using hnonce)
    have hflat : parts.flatten = ids.flatMap serializeShortTxId := by
      have hmap : ids.map serializeShortTxId = parts := by
        rw [← List.forall₂_eq_eq_eq]
        exact List.forall₂_map_left_iff.mpr (hbytes.imp fun _ _ h => h.symm)
      rw [List.flatMap_def, hmap]
    refine ⟨⟨by simpa using hfit, hamounts⟩, serializeCBlockHeaderAndShortTxIDs_eq_ok.mpr
      ⟨b₅, b₉, ?_, hpre, ?_⟩⟩
    · change writeCompactSize ids.length = _
      rw [hlen, Nat.sub_zero]
      exact hn
    · simp [serWritedata64, hnonce', hflat]

theorem serializeCBlockHeaderAndShortTxIDs_mask (c : CBlockHeaderAndShortTxIDs CMutableTransaction) :
    serializeCBlockHeaderAndShortTxIDs { c with shorttxids := c.shorttxids.map (· &&& 0xffffffffffff) } =
      serializeCBlockHeaderAndShortTxIDs c := by
  have hids : (c.shorttxids.map (· &&& 0xffffffffffff)).flatMap serializeShortTxId =
      c.shorttxids.flatMap serializeShortTxId := by
    rw [List.flatMap_map]
    exact List.flatMap_congr fun shortid _ => serializeShortTxId_mask shortid
  simp only [serializeCBlockHeaderAndShortTxIDs, List.length_map, hids]

/-- Whatever its short ids, a compact block that is written is read back with its short ids masked
to 48 bits. -/
theorem reads_cBlockHeaderAndShortTxIDs (sizeofPrefilledTransaction sizeofCTxIn sizeofCTxOut : Nat)
    {c : CBlockHeaderAndShortTxIDs CMutableTransaction} {b : List UInt8}
    (hamounts : ∀ p ∈ c.prefilledtxn, ∀ txout ∈ p.tx.vout, -2 ^ 63 ≤ txout.nValue ∧ txout.nValue < 2 ^ 63)
    (hser : serializeCBlockHeaderAndShortTxIDs c = .ok b) :
    Reads (unserializeCBlockHeaderAndShortTxIDs sizeofPrefilledTransaction sizeofCTxIn sizeofCTxOut) b
      { c with shorttxids := c.shorttxids.map (· &&& 0xffffffffffff) } := by
  refine (format_cBlockHeaderAndShortTxIDs sizeofPrefilledTransaction sizeofCTxIn sizeofCTxOut).reads
    (x := { c with shorttxids := c.shorttxids.map (· &&& 0xffffffffffff) }) ⟨?_, hamounts⟩
    ((serializeCBlockHeaderAndShortTxIDs_mask c).trans hser)
  intro shortid hs
  obtain ⟨s, -, rfl⟩ := List.mem_map.mp hs
  rw [toNat_mask]
  exact Nat.mod_lt _ (by omega)

/-! ### Both messages -/

/-- The request format carries exactly the lists of `AscendingUpToWrap`: it reads back every one of
them and accepts only their encodings. Every strictly increasing list of at most `MAX_SIZE`
positions is one of them, written with its exact distances. A compact block that is written is read
back, its short ids masked to 48 bits. -/
theorem blocktxn_and_cmpctblock_codecs :
    Format (fun req : BlockTransactionsRequest => AscendingUpToWrap req.indices)
        serializeBlockTransactionsRequest unserializeBlockTransactionsRequest ∧
    (∀ (blockhash : uint256) (L : List UInt32), L.IsChain (· < ·) → L.length ≤ MAX_SIZE →
      ∃ b, serializeBlockTransactionsRequest ⟨blockhash, L⟩ = .ok b ∧
        Reads unserializeBlockTransactionsRequest b ⟨blockhash, L⟩ ∧
        ∀ i < L.length, (indexDelta L i).toNat =
          (L.getD i 0).toNat - (if i = 0 then 0 else (L.getD (i - 1) 0).toNat + 1)) ∧
    ∀ (sizeofPrefilledTransaction sizeofCTxIn sizeofCTxOut : Nat)
      (c : CBlockHeaderAndShortTxIDs CMutableTransaction) (b : List UInt8),
      (∀ p ∈ c.prefilledtxn, ∀ txout ∈ p.tx.vout, -2 ^ 63 ≤ txout.nValue ∧ txout.nValue < 2 ^ 63) →
      serializeCBlockHeaderAndShortTxIDs c = .ok b →
      Reads (unserializeCBlockHeaderAndShortTxIDs sizeofPrefilledTransaction sizeofCTxIn sizeofCTxOut)
        b { c with shorttxids := c.shorttxids.map (· &&& 0xffffffffffff) } := by
  refine ⟨format_blockTransactionsRequest, ?_, fun sp si so c b hamounts hser =>
    reads_cBlockHeaderAndShortTxIDs sp si so hamounts hser⟩
  intro blockhash L hinc hlen
  obtain ⟨b, hser⟩ : ∃ b, serializeBlockTransactionsRequest ⟨blockhash, L⟩ = .ok b :=
    serializeBlockTransactionsRequest_of_le hlen
  exact ⟨b, hser, format_blockTransactionsRequest.reads (ascendingUpToWrap_of_isChain hinc) hser,
    fun i hi => toNat_indexDelta hinc hi⟩

/-- The reader accepts the positions `0xFFFFFFFF, 0`, which do not increase: the offset after
`0xFFFFFFFF` wraps to `0`. And the strictly increasing list of all `2 ^ 32` positions is not
written: its size is above `MAX_SIZE`. -/
theorem blocktxn_indices_wrap_past_max :
    (∃ b, unserializeBlockTransactionsRequest.run b =
        .ok ⟨Vector.replicate 32 0, [0xFFFFFFFF, 0]⟩ [] ∧
      ¬ [(0xFFFFFFFF : UInt32), 0].IsChain (· < ·)) ∧
    ((List.range (2 ^ 32)).map UInt32.ofNat).IsChain (· < ·) ∧
    serializeBlockTransactionsRequest ⟨Vector.replicate 32 0, (List.range (2 ^ 32)).map UInt32.ofNat⟩ =
      .error "WriteCompactSize(): size too large" := by
  refine ⟨?_, ?_, ?_⟩
  · have hasc : AscendingUpToWrap [0xFFFFFFFF, 0] :=
      List.isChain_cons_cons.mpr ⟨.inl rfl, List.isChain_singleton _⟩
    obtain ⟨b, hser⟩ : ∃ b, serializeBlockTransactionsRequest
        ⟨Vector.replicate 32 0, [0xFFFFFFFF, 0]⟩ = .ok b := ⟨_, rfl⟩
    refine ⟨b, by simpa using format_blockTransactionsRequest.reads hasc hser [], ?_⟩
    rw [List.isChain_cons_cons]
    decide
  · apply List.Pairwise.isChain
    rw [List.pairwise_map]
    refine List.pairwise_lt_range.imp_of_mem fun {i j} hi hj hij => ?_
    rw [UInt32.lt_iff_toNat_lt, UInt32.toNat_ofNat', UInt32.toNat_ofNat',
      Nat.mod_eq_of_lt (List.mem_range.mp hi), Nat.mod_eq_of_lt (List.mem_range.mp hj)]
    exact hij
  · have hlen : ((List.range (2 ^ 32)).map UInt32.ofNat).length = 2 ^ 32 := by simp
    simp only [serializeBlockTransactionsRequest, hlen]
    rfl

end TbcNode.Net
