import TbcNode.Coins.UndoRoundTrip
import TbcNode.Consensus.TxCheck

/-! # Undo data on disk (`undo.h`, `UndoWriteToDisk`, `UndoReadFromDisk`, `DisconnectBlock`)

`UndoWriteToDisk` appends an index header, the undo data and a checksum over the parent's hash;
`UndoReadFromDisk` reads from the end of the header. Every block undo the chainstate can record is
read back (`undoReadFromDisk_undoWriteToDisk`), so `DisconnectBlock` takes back a connected block.
-/

namespace TbcNode.Coins

open TbcNode.Primitives

/-- A coin that `CTxOutCompressor` writes and reads back: an amount in the money range and a script
no longer than a transaction. -/
structure Coin.Storable (coin : Coin) : Prop where
  value_nonneg : 0 ≤ coin.out.nValue
  value_le : coin.out.nValue ≤ MAX_MONEY
  script_le : coin.out.scriptPubKey.length ≤ MAX_TX_SIZE_CONSENSUS_AFTER_GENESIS

end TbcNode.Coins

namespace TbcNode.Coins.Cache

open TbcNode.Primitives TbcNode.Logic TbcNode.Net DisconnectResult

/-! ### Coins the chainstate can record -/

/-- `MAX_INPUTS_PER_TX`: as many inputs as a transaction of the largest size can have, each counted
at the size of `CTxIn()`. -/
def MAX_INPUTS_PER_TX : Nat :=
  MAX_TX_SIZE_CONSENSUS_AFTER_GENESIS / (36 + Consensus.scriptSerializeSize [] + 4)

/-- A block undo the reader takes back: coins it can record, no more coins to a transaction than
`MAX_INPUTS_PER_TX`, and no more records than a `CompactSize` counts. -/
structure CBlockUndo.Storable (blockundo : CBlockUndo) : Prop where
  coins : ∀ txundo ∈ blockundo.vtxundo, ∀ coin ∈ txundo.vprevout, coin.Storable
  inputs : ∀ txundo ∈ blockundo.vtxundo, txundo.vprevout.length ≤ MAX_INPUTS_PER_TX
  length : blockundo.vtxundo.length ≤ MAX_SIZE

/-! ### The records -/

section Records

variable (secp : Secp256k1) (sizeofCTxUndo : Nat)

def serializeTxInUndo (coin : Coin) : List UInt8 :=
  writeVarInt (coin.getHeight * 2 + if coin.isCoinBase then 1 else 0).toNat ++
    (if coin.getHeight > 0 then serWritedata8 0 else []) ++
    serializeTxOutCompressor secp coin.out

/-- `TxInUndoDeserializer::Unserialize`: `nVersionDummy` is an `int`, read as a `VARINT` of 31
bits. -/
def unserializeTxInUndo : Reader Coin := do
  let nCode : UInt32 := UInt32.ofNat (← readVarInt 32)
  let nHeight := nCode / 2
  let fCoinBase := nCode &&& 1 != 0
  let _nVersionDummy ← (if nHeight > 0 then readVarInt 31 else pure 0)
  let txout ← unserializeTxOutCompressor secp ⟨-1, []⟩
  pure (Coin.make txout nHeight fCoinBase)

def serializeTxUndo (txundo : CTxUndo) : Except String (List UInt8) := do
  let count ← writeCompactSize txundo.vprevout.length
  pure (count ++ (txundo.vprevout.map (serializeTxInUndo secp)).flatten)

/-- `CTxUndo::Unserialize`: the coins are read into the default coins `resize` makes, which the
reader overwrites whole. -/
def unserializeTxUndo : Reader CTxUndo := do
  let count ← readCompactSize
  if count > MAX_INPUTS_PER_TX then throw "Too many input undo records"
  let vprevout ← readN (unserializeTxInUndo secp) count
  pure ⟨vprevout⟩

/-- `CBlockUndo::SerializationOp` when writing. -/
def serializeBlockUndo (blockundo : CBlockUndo) : Except String (List UInt8) :=
  serializeVector (serializeTxUndo secp) blockundo.vtxundo

/-- `CBlockUndo::SerializationOp` when reading, with `sizeof(CTxUndo)` for the vector's chunks. -/
def unserializeBlockUndo : Reader CBlockUndo :=
  CBlockUndo.mk <$> unserializeVector (unserializeTxUndo secp) sizeofCTxUndo

end Records

/-! ### The undo file -/

section File

variable (hash256 : List UInt8 → uint256) (secp : Secp256k1) (sizeofCTxUndo : Nat)

/-- `WriteIndexHeader`: the magic, then the size as a `uint32_t`, or from `2 ^ 32 - 1` on that
value followed by the size as a `uint64_t`. -/
def writeIndexHeader (messageStart : Vector UInt8 4) (nSize : Nat) : List UInt8 :=
  if nSize ≥ 2 ^ 32 - 1 then
    messageStart.toList ++ serWritedata32 (2 ^ 32 - 1) ++ serWritedata64 nSize
  else messageStart.toList ++ serWritedata32 nSize

/-- What `UndoWriteToDisk` appends to the undo file: the index header, and what follows the position
it records in `pos.nPos`. -/
structure UndoRecord where
  header : List UInt8
  data : List UInt8

/-- `UndoWriteToDisk`: the undo data and its checksum, after the header. -/
def undoWriteToDisk (blockundo : CBlockUndo) (hashBlock : uint256)
    (messageStart : Vector UInt8 4) : Except String UndoRecord := do
  let bytes ← serializeBlockUndo secp blockundo
  pure ⟨writeIndexHeader messageStart bytes.length,
    bytes ++ (hash256 (hashBlock.toList ++ bytes)).toList⟩

/-- `UndoReadFromDisk`, on the bytes of the undo file from the recorded position on. The
`CHashVerifier` hashes the parent's hash and then the bytes the reader takes. -/
def undoReadFromDisk (hashBlock : uint256) (file : List UInt8) : Except String CBlockUndo :=
  match (unserializeBlockUndo secp sizeofCTxUndo).run file with
  | .error e _ => throw ("UndoReadFromDisk: Deserialize or I/O error - " ++ e)
  | .ok blockundo rest =>
    match (read 32).run rest with
    | .error e _ => throw ("UndoReadFromDisk: Deserialize or I/O error - " ++ e)
    | .ok hashChecksum _ =>
      if hashChecksum != hash256 (hashBlock.toList ++ file.take (file.length - rest.length)) then
        throw "UndoReadFromDisk: Checksum mismatch"
      else pure blockundo

variable {σ : Type} (V : CCoinsView σ) (cursor : σ → uint256 → List Coin)

/-- `DisconnectBlock`: `undoFile` is the undo file from the block's undo position on, `none` where
the position is null, and `hashPrev` the hash of the block's parent in the index. -/
def disconnectBlock (genesisActivationHeight : Nat) (block : CBlock)
    (undoFile : Option (List UInt8)) (hashPrev : uint256) (nHeight : Int32) (view : Top σ) :
    Except String (DisconnectResult × Top σ) :=
  match undoFile with
  | none => pure (DISCONNECT_FAILED, view)
  | some file =>
    match undoReadFromDisk hash256 secp sizeofCTxUndo hashPrev file with
    | .error _ => pure (DISCONNECT_FAILED, view)
    | .ok blockUndo => applyBlockUndo V cursor genesisActivationHeight blockUndo block nHeight view

end File

/-! ### The word of a coin -/

theorem isCoinBase_eq (coin : Coin) :
    coin.isCoinBase = decide (coin.nHeightAndIsCoinBase.toNat % 2 = 1) := by
  unfold Coin.isCoinBase
  have h : (coin.nHeightAndIsCoinBase &&& 0x01).toNat = coin.nHeightAndIsCoinBase.toNat % 2 := by
    rw [UInt32.toNat_and, UInt32.toNat_one, Nat.and_one_is_mod]
  rcases Nat.mod_two_eq_zero_or_one coin.nHeightAndIsCoinBase.toNat with h2 | h2
  · have : coin.nHeightAndIsCoinBase &&& 0x01 = 0 := UInt32.toNat_inj.mp (by rw [h, h2]; rfl)
    simp [this, h2]
  · have : coin.nHeightAndIsCoinBase &&& 0x01 ≠ 0 := fun h0 => by
      rw [h0, h2] at h
      exact absurd h (by decide)
    simp [this, h2]

theorem toNat_getHeight (coin : Coin) :
    coin.getHeight.toNat = coin.nHeightAndIsCoinBase.toNat / 2 := by
  unfold Coin.getHeight
  rw [UInt32.toNat_shiftRight]
  simp [Nat.shiftRight_eq_div_pow]

theorem div_two_eq_getHeight (coin : Coin) : coin.nHeightAndIsCoinBase / 2 = coin.getHeight := by
  apply UInt32.toNat_inj.mp
  rw [UInt32.toNat_div, toNat_getHeight]
  rfl

theorem undoCode_eq (coin : Coin) :
    coin.getHeight * 2 + (if coin.isCoinBase then 1 else 0) = coin.nHeightAndIsCoinBase := by
  apply UInt32.toNat_inj.mp
  have hk := coin.nHeightAndIsCoinBase.toNat_lt
  have hh := toNat_getHeight coin
  rw [isCoinBase_eq]
  rcases Nat.mod_two_eq_zero_or_one coin.nHeightAndIsCoinBase.toNat with h2 | h2 <;>
    simp [h2, UInt32.toNat_add, UInt32.toNat_mul, hh] <;> omega

theorem make_undoCode (out : CTxOut) (k : UInt32) :
    Coin.make out (k / 2) (k &&& 1 != 0) = ⟨out, k⟩ := by
  have hk := k.toNat_lt
  unfold Coin.make
  congr 1
  apply UInt32.toNat_inj.mp
  have h : (k &&& 1).toNat = k.toNat % 2 := by
    rw [UInt32.toNat_and, UInt32.toNat_one, Nat.and_one_is_mod]
  rcases Nat.mod_two_eq_zero_or_one k.toNat with h2 | h2
  · have : k &&& 1 = 0 := UInt32.toNat_inj.mp (by rw [h, h2]; rfl)
    simp [this, UInt32.toNat_shiftLeft, UInt32.toNat_div]
    omega
  · have : k &&& 1 ≠ 0 := fun h0 => by
      rw [h0, h2] at h
      exact absurd h (by decide)
    have hor := Nat.two_pow_add_eq_or_of_lt (by norm_num : 1 < 2 ^ 1) (k.toNat / 2)
    simp [this, UInt32.toNat_or, UInt32.toNat_shiftLeft, UInt32.toNat_div]
    rw [Nat.shiftLeft_eq, Nat.mod_eq_of_lt (by omega), Nat.mul_comm, ← hor]
    omega

/-! ### Reading back what is written -/

section Reading

variable (secp : Secp256k1)

theorem serializeTxInUndo_eq (coin : Coin) :
    serializeTxInUndo secp coin = writeVarInt coin.nHeightAndIsCoinBase.toNat ++
      (if coin.getHeight > 0 then serWritedata8 0 else []) ++
        serializeTxOutCompressor secp coin.out := by
  rw [serializeTxInUndo, undoCode_eq]

theorem reads_unserializeTxInUndo {secp : Secp256k1} (hsecp : secp.Spec) {coin : Coin}
    (hc : coin.Storable) :
    Logic.Reads (unserializeTxInUndo secp) (serializeTxInUndo secp coin) coin := by
  have hlen : coin.out.scriptPubKey.length + nSpecialScripts < 2 ^ 32 := by
    have := hc.script_le
    simp only [MAX_TX_SIZE_CONSENSUS_AFTER_GENESIS] at this
    simp only [nSpecialScripts]
    omega
  have hcode := reads_readVarInt (w := 32) (by omega) coin.nHeightAndIsCoinBase.toNat_lt
  have hdummy : Logic.Reads (if coin.getHeight > 0 then readVarInt 31 else pure 0)
      (if coin.getHeight > 0 then serWritedata8 0 else []) 0 := by
    split
    · exact (reads_readVarInt (w := 31) (x := 0) (by omega) (by omega)).of_eq
        (by rw [writeVarInt_of_le (by omega)]; rfl) rfl
    · exact Logic.Reads.pure' 0
  have hout := reads_unserializeTxOutCompressor hsecp hc.value_nonneg hc.value_le hlen ⟨-1, []⟩
  intro rest
  rw [serializeTxInUndo_eq, unserializeTxInUndo, List.append_assoc, List.append_assoc,
    Logic.Reads.run_bind hcode]
  simp only [UInt32.ofNat_toNat, div_two_eq_getHeight]
  rw [Logic.Reads.run_bind hdummy, Logic.Reads.run_bind hout, ← div_two_eq_getHeight,
    make_undoCode]
  rfl

theorem serializeTxUndo_eq_ok {txundo : CTxUndo} {b : List UInt8} :
    serializeTxUndo secp txundo = .ok b ↔
      ∃ count, writeCompactSize txundo.vprevout.length = .ok count ∧
        b = count ++ (txundo.vprevout.map (serializeTxInUndo secp)).flatten := by
  unfold serializeTxUndo
  exact bind_pure_eq_ok_iff.trans (by simp only [eq_comm])

theorem MAX_INPUTS_PER_TX_le : MAX_INPUTS_PER_TX ≤ MAX_SIZE := by decide

theorem reads_unserializeTxUndo {secp : Secp256k1} (hsecp : secp.Spec) {txundo : CTxUndo}
    (hc : ∀ coin ∈ txundo.vprevout, coin.Storable)
    (hn : txundo.vprevout.length ≤ MAX_INPUTS_PER_TX) {b : List UInt8}
    (hb : serializeTxUndo secp txundo = .ok b) :
    Logic.Reads (unserializeTxUndo secp) b txundo := by
  obtain ⟨count, hcount, rfl⟩ := (serializeTxUndo_eq_ok secp).mp hb
  have hcoins : List.Forall₂ (fun coin b => Logic.Reads (unserializeTxInUndo secp) b coin)
      txundo.vprevout (txundo.vprevout.map (serializeTxInUndo secp)) := by
    rw [List.forall₂_map_right_iff]
    exact List.forall₂_same.mpr fun coin hcoin => reads_unserializeTxInUndo hsecp (hc coin hcoin)
  intro rest
  rw [unserializeTxUndo, List.append_assoc, Logic.Reads.run_bind (reads_readCompactSize hcount)]
  simp only [gt_iff_lt, Nat.not_lt.mpr hn, if_false]
  rw [Logic.Reads.run_bind (Logic.Reads.readN hcoins)]
  rfl

theorem serializeTxUndo_of_le {txundo : CTxUndo} (hn : txundo.vprevout.length ≤ MAX_INPUTS_PER_TX) :
    ∃ b, serializeTxUndo secp txundo = .ok b := by
  obtain ⟨count, hcount⟩ := writeCompactSize_of_le (hn.trans MAX_INPUTS_PER_TX_le)
  exact ⟨_, (serializeTxUndo_eq_ok secp).mpr ⟨count, hcount, rfl⟩⟩

theorem serializeBlockUndo_of_storable {blockundo : CBlockUndo} (hs : blockundo.Storable) :
    ∃ b, serializeBlockUndo secp blockundo = .ok b :=
  serializeVector_of_le hs.length fun txundo h => serializeTxUndo_of_le secp (hs.inputs txundo h)

theorem reads_unserializeBlockUndo {secp : Secp256k1} (hsecp : secp.Spec) {blockundo : CBlockUndo}
    (hs : blockundo.Storable) {b : List UInt8} (hb : serializeBlockUndo secp blockundo = .ok b)
    (sizeofCTxUndo : Nat) : Logic.Reads (unserializeBlockUndo secp sizeofCTxUndo) b blockundo :=
  (reads_unserializeVector (fun txundo h _ hb' =>
    reads_unserializeTxUndo hsecp (hs.coins txundo h) (hs.inputs txundo h) hb') hb
    sizeofCTxUndo).map CBlockUndo.mk

variable (hash256 : List UInt8 → uint256) (sizeofCTxUndo : Nat)

theorem undoWriteToDisk_eq_ok {blockundo : CBlockUndo} {bytes : List UInt8}
    (hb : serializeBlockUndo secp blockundo = .ok bytes) (hashBlock : uint256)
    (messageStart : Vector UInt8 4) :
    undoWriteToDisk hash256 secp blockundo hashBlock messageStart =
      .ok ⟨writeIndexHeader messageStart bytes.length,
        bytes ++ (hash256 (hashBlock.toList ++ bytes)).toList⟩ := by
  rw [undoWriteToDisk, hb]
  rfl

theorem undoReadFromDisk_of_undoWriteToDisk {secp : Secp256k1} (hsecp : secp.Spec)
    {blockundo : CBlockUndo} (hs : blockundo.Storable) {hashBlock : uint256}
    {messageStart : Vector UInt8 4} {record : UndoRecord}
    (h : undoWriteToDisk hash256 secp blockundo hashBlock messageStart = .ok record)
    (rest : List UInt8) :
    undoReadFromDisk hash256 secp sizeofCTxUndo hashBlock (record.data ++ rest) = .ok blockundo := by
  obtain ⟨bytes, hb⟩ := serializeBlockUndo_of_storable secp hs
  rw [undoWriteToDisk_eq_ok secp hash256 hb] at h
  cases h
  have hread := reads_unserializeBlockUndo hsecp hs hb sizeofCTxUndo
  have hsum := reads_read (hash256 (hashBlock.toList ++ bytes))
  dsimp only
  rw [undoReadFromDisk, List.append_assoc, hread]
  dsimp only
  rw [hsum]
  have htake : (bytes ++ ((hash256 (hashBlock.toList ++ bytes)).toList ++ rest)).take
      ((bytes ++ ((hash256 (hashBlock.toList ++ bytes)).toList ++ rest)).length -
        ((hash256 (hashBlock.toList ++ bytes)).toList ++ rest).length) = bytes := by
    simp
  simp only [htake, bne_self_eq_false, Bool.false_eq_true, if_false]
  rfl

/-- Every block undo the chainstate can record is written, and read back from its record. -/
theorem undoReadFromDisk_undoWriteToDisk {secp : Secp256k1} (hsecp : secp.Spec)
    {blockundo : CBlockUndo} (hs : blockundo.Storable) (hashBlock : uint256)
    (messageStart : Vector UInt8 4) :
    ∃ record, undoWriteToDisk hash256 secp blockundo hashBlock messageStart = .ok record ∧
      ∀ rest, undoReadFromDisk hash256 secp sizeofCTxUndo hashBlock (record.data ++ rest) =
        .ok blockundo := by
  obtain ⟨bytes, hb⟩ := serializeBlockUndo_of_storable secp hs
  have hw := undoWriteToDisk_eq_ok secp hash256 hb hashBlock messageStart
  exact ⟨_, hw, undoReadFromDisk_of_undoWriteToDisk hash256 sizeofCTxUndo hsecp hs hw⟩

theorem length_writeIndexHeader (messageStart : Vector UInt8 4) (nSize : Nat) :
    (writeIndexHeader messageStart nSize).length = if nSize ≥ 2 ^ 32 - 1 then 16 else 8 := by
  unfold writeIndexHeader
  split <;> simp [serWritedata32, serWritedata64, serWritedata, TbcNode.Encoding.length_writeLE]

/-- The record `UndoWriteToDisk` appends takes the 40 bytes beyond the undo data that `ConnectBlock`
asks `FindUndoPos` for, and 8 more from `2 ^ 32 - 1` bytes of undo data on, where the header holds
the size in 64 bits. -/
theorem length_undoRecord {blockundo : CBlockUndo} {bytes : List UInt8}
    (hb : serializeBlockUndo secp blockundo = .ok bytes) (hashBlock : uint256)
    (messageStart : Vector UInt8 4) {record : UndoRecord}
    (h : undoWriteToDisk hash256 secp blockundo hashBlock messageStart = .ok record) :
    record.header.length + record.data.length =
      bytes.length + if bytes.length ≥ 2 ^ 32 - 1 then 48 else 40 := by
  rw [undoWriteToDisk_eq_ok secp hash256 hb] at h
  cases h
  simp only [length_writeIndexHeader, List.length_append, Vector.length_toList]
  split <;> omega

end Reading

/-! ### The coins of a block's undo data -/

/-- Every coin of the UTXO set is one the chainstate can record. -/
def CoinsStorable (U : COutPoint → Option Coin) : Prop :=
  ∀ outpoint coin, U outpoint = some coin → coin.Storable

/-- What `CheckTransactionCommon` gives of a transaction for its coins and its undo record: outputs
the chainstate can record, whatever height they get, and no more inputs than
`MAX_INPUTS_PER_TX`. -/
structure TxStorable (tx : CTransaction) : Prop where
  outputs : ∀ txout ∈ tx.vout, ∀ nHeightAndIsCoinBase : UInt32,
    (Coin.mk txout nHeightAndIsCoinBase).Storable
  inputs : tx.vin.length ≤ MAX_INPUTS_PER_TX

theorem checkTransactionCommon_size {ssl : Script.Openssl} {tx : CTransaction}
    {nSigOps nSize : Nat} {isGenesisEnabled : Bool}
    (h : Consensus.checkTransactionCommon ssl tx nSigOps nSize isGenesisEnabled = .ok ()) :
    Consensus.getSerializeSize tx ≤ nSize := by
  unfold Consensus.checkTransactionCommon at h
  by_contra hgt
  split_ifs at h <;> simp_all [bind, Except.bind, throw, throwThe, MonadExceptOf.throw]

theorem length_vin_le {tx : CTransaction}
    (h : Consensus.getSerializeSize tx ≤ MAX_TX_SIZE_CONSENSUS_AFTER_GENESIS) :
    tx.vin.length ≤ MAX_INPUTS_PER_TX := by
  have hin : (tx.vin.map fun txin => 36 + Consensus.scriptSerializeSize txin.scriptSig + 4).length •
      (36 + Consensus.scriptSerializeSize [] + 4) ≤
        (tx.vin.map fun txin => 36 + Consensus.scriptSerializeSize txin.scriptSig + 4).sum := by
    refine List.card_nsmul_le_sum _ _ fun n hn => ?_
    obtain ⟨txin, -, rfl⟩ := List.mem_map.mp hn
    simp only [Consensus.scriptSerializeSize, Consensus.getSizeOfCompactSize, List.length_nil]
    split_ifs <;> omega
  unfold MAX_INPUTS_PER_TX
  unfold Consensus.getSerializeSize at h
  rw [List.length_map, smul_eq_mul] at hin
  rw [Nat.le_div_iff_mul_le (by decide)]
  omega

theorem length_scriptPubKey_le {tx : CTransaction} {txout : CTxOut} (h : txout ∈ tx.vout) :
    txout.scriptPubKey.length ≤ Consensus.getSerializeSize tx := by
  have hle := List.le_sum_of_mem (List.mem_map_of_mem
    (f := fun txout : CTxOut => 8 + Consensus.scriptSerializeSize txout.scriptPubKey) h)
  have hscript : txout.scriptPubKey.length ≤ Consensus.scriptSerializeSize txout.scriptPubKey := by
    unfold Consensus.scriptSerializeSize
    omega
  unfold Consensus.getSerializeSize
  omega

theorem TxStorable.of_checkTransactionCommon {ssl : Script.Openssl} {tx : CTransaction}
    {nSigOps nSize : Nat} {isGenesisEnabled : Bool}
    (h : Consensus.checkTransactionCommon ssl tx nSigOps nSize isGenesisEnabled = .ok ())
    (hsize : nSize ≤ MAX_TX_SIZE_CONSENSUS_AFTER_GENESIS) : TxStorable tx := by
  have htx := (checkTransactionCommon_size h).trans hsize
  obtain ⟨hvalues, -⟩ :=
    (Consensus.checkOutputValues_ok_iff tx.vout).mp (Consensus.checkTransactionCommon_outputs h)
  refine ⟨fun txout htxout _ => ?_, length_vin_le htx⟩
  exact ⟨(hvalues txout htxout).1, (hvalues txout htxout).2,
    (length_scriptPubKey_le htxout).trans htx⟩

section Connect

variable {genesisActivationHeight : Nat} {nHeight : UInt32}

theorem CoinsStorable.connectTx {U : COutPoint → Option Coin} (hU : CoinsStorable U)
    {tx : CTransaction} (htx : TxStorable tx) :
    CoinsStorable (Cache.connectTx genesisActivationHeight nHeight U tx) := by
  have hs : CoinsStorable (spendTx U tx) := by
    unfold spendTx
    split
    · exact hU
    · exact writeAll_apply_of_forall (P := fun v => ∀ coin : Coin, v = some coin → coin.Storable)
        (fun o => hU o) (by simp)
  refine writeAll_apply_of_forall (P := fun v => ∀ coin : Coin, v = some coin → coin.Storable)
    (fun o => hs o) fun w hw coin hc => ?_
  obtain ⟨p, hp, rfl⟩ := List.mem_map.mp hw
  obtain rfl := Option.some.inj hc
  obtain ⟨-, ⟨txout, htxout, hcoin⟩, -⟩ := mem_addedCoins hp
  rw [hcoin]
  exact htx.outputs txout htxout _

theorem txUndo_storable {U : COutPoint → Option Coin} (hU : CoinsStorable U) {tx : CTransaction}
    (htx : TxStorable tx) (hfound : inputsFound U tx = true) :
    (∀ coin ∈ (txUndo U tx).vprevout, coin.Storable) ∧
      (txUndo U tx).vprevout.length ≤ MAX_INPUTS_PER_TX := by
  unfold txUndo
  cases hcb : tx.isCoinBase with
  | true => simp
  | false =>
    simp only [inputsFound, hcb, Bool.false_or, List.all_eq_true, Option.isSome_iff_exists] at hfound
    refine ⟨fun coin hcoin => ?_, by simpa using htx.inputs⟩
    simp only [Bool.false_eq_true, if_false, List.mem_map] at hcoin
    obtain ⟨txin, htxin, rfl⟩ := hcoin
    obtain ⟨coin, hc⟩ := hfound txin htxin
    rw [hc]
    exact hU _ coin hc

theorem undoAll_storable :
    ∀ (txs : List CTransaction) {U : COutPoint → Option Coin}, CoinsStorable U →
      (∀ tx ∈ txs, TxStorable tx) →
      allInputsFound genesisActivationHeight nHeight U txs = true →
      ∀ txundo ∈ undoAll genesisActivationHeight nHeight U txs,
        (∀ coin ∈ txundo.vprevout, coin.Storable) ∧ txundo.vprevout.length ≤ MAX_INPUTS_PER_TX
  | [], _, _, _, _, txundo, h => by simp [undoAll] at h
  | tx :: rest, U, hU, htxs, hall, txundo, h => by
    simp only [allInputsFound, Bool.and_eq_true] at hall
    rcases List.mem_cons.mp h with rfl | h
    · exact txUndo_storable hU (htxs tx List.mem_cons_self) hall.1
    · exact undoAll_storable rest (hU.connectTx (htxs tx List.mem_cons_self))
        (fun tx' h' => htxs tx' (List.mem_cons_of_mem _ h')) hall.2 txundo h

end Connect

/-! ### Disconnecting a block from its undo file -/

variable {σ : Type} {V : CCoinsView σ} {I : σ → Prop} {D : σ → COutPoint → Option Coin}

/-- `ConnectBlock`'s coin updates, then `UndoWriteToDisk` of the undo data they wrote, then
`DisconnectBlock` from what the file holds at the recorded position: the block is found clean, the
view stands for the UTXO set before the block, and the best block is the block's parent. Beyond
what `ApplyBlockUndo` needs after the connection, the UTXO set holds coins the chainstate can
record, every transaction passes `CheckTransactionCommon` under a size limit that is at most the
largest, and the block's transactions can be counted by a `CompactSize`. -/
theorem disconnectBlock_connectBlockCoins (hV : V.Spec I D) (cursor : σ → uint256 → List Coin)
    (hash256 : List UInt8 → uint256) {secp : Secp256k1} (hsecp : secp.Spec)
    (sizeofCTxUndo : Nat) {ssl : Script.Openssl} {maxTxSigOps maxTxSize : Nat}
    {isGenesisEnabled : Bool} {genesisActivationHeight : Nat} {t t' : Top σ} (ht : t.Wf I D)
    {block : CBlock} {nHeight : Int32} {blockUndo : CBlockUndo} (hh : 0 < nHeight.toInt)
    (hm : nHeight.toUInt32 ≠ MEMPOOL_HEIGHT) (hU : CoinsOk genesisActivationHeight (t.coins D))
    (hS : CoinsStorable (t.coins D))
    (hcb : ∃ coinbase rest, block.vtx = coinbase :: rest ∧ coinbase.isCoinBase = true ∧
      ∀ tx ∈ rest, tx.isCoinBase = false)
    (hcheck : ∀ tx ∈ block.vtx,
      Consensus.checkTransactionCommon ssl tx maxTxSigOps maxTxSize isGenesisEnabled = .ok ())
    (hsize : maxTxSize ≤ MAX_TX_SIZE_CONSENSUS_AFTER_GENESIS) (hlen : block.vtx.length ≤ MAX_SIZE)
    (hok : ConnectOk genesisActivationHeight nHeight.toUInt32 (t.coins D) block.vtx)
    (hconn : connectBlockCoins V block nHeight genesisActivationHeight t = .ok (t', blockUndo))
    (hashPrev : uint256) (messageStart : Vector UInt8 4) :
    ∃ record, undoWriteToDisk hash256 secp blockUndo hashPrev messageStart = .ok record ∧
      ∀ rest, ∃ t'', disconnectBlock hash256 secp sizeofCTxUndo V cursor genesisActivationHeight
          block (some (record.data ++ rest)) hashPrev nHeight t' = .ok (DISCONNECT_OK, t'') ∧
        t''.Wf I D ∧ t''.coins D = t.coins D ∧ t''.cache.hashBlock = block.header.hashPrevBlock := by
  obtain ⟨hall, rfl, ht', hc'⟩ := connectBlockCoins_eq_ok hV ht hok hconn
  have hrecords := undoAll_storable block.vtx hS
    (fun tx h => TxStorable.of_checkTransactionCommon (hcheck tx h) hsize) hall
  have hs : CBlockUndo.Storable
      ⟨(undoAll genesisActivationHeight nHeight.toUInt32 (t.coins D) block.vtx).tail⟩ :=
    ⟨fun txundo h => (hrecords txundo (List.mem_of_mem_tail h)).1,
      fun txundo h => (hrecords txundo (List.mem_of_mem_tail h)).2,
      by simp only [List.length_tail, length_undoAll]; omega⟩
  obtain ⟨record, hw, hread⟩ :=
    undoReadFromDisk_undoWriteToDisk hash256 sizeofCTxUndo hsecp hs hashPrev messageStart
  refine ⟨record, hw, fun rest => ?_⟩
  obtain ⟨t'', happ, ht'', hc'', hb''⟩ := applyBlockUndo_undoAll hV cursor ht' hh hm hU hcb hok hall hc'
  refine ⟨t'', ?_, ht'', hc'', hb''⟩
  rw [disconnectBlock, hread rest]
  exact happ

theorem sampleTop_coinsStorable : CoinsStorable (sampleTop.coins fun db => db.coins.lookup) := by
  intro outpoint coin h
  obtain ⟨-, rfl⟩ := sampleTop_coins h
  exact ⟨by decide, by decide, by decide⟩

theorem sampleBlock_checkTransactionCommon : ∀ tx ∈ sampleBlock.vtx,
    Consensus.checkTransactionCommon Script.Openssl.reference tx 0
      MAX_TX_SIZE_CONSENSUS_AFTER_GENESIS true = .ok () := by
  intro tx h
  simp only [sampleBlock, List.mem_cons, List.not_mem_nil, or_false] at h
  rcases h with rfl | rfl <;> rfl

/-- The sample block connected, its undo data written with a hash that is constant, and the block
disconnected from the record. -/
theorem disconnectBlock_connectBlockCoins_sample :
    CoinsStorable (sampleTop.coins fun db => db.coins.lookup) ∧
      (∀ tx ∈ sampleBlock.vtx, Consensus.checkTransactionCommon Script.Openssl.reference tx 0
        MAX_TX_SIZE_CONSENSUS_AFTER_GENESIS true = .ok ()) ∧
      connectBlockCoins CCoinsViewDB.view sampleBlock 2 0 sampleTop = .ok sampleConnected ∧
      ∃ record, undoWriteToDisk (fun _ => Vector.replicate 32 0) Secp256k1.rejectAll
          sampleConnected.2 (Vector.replicate 32 9) (Vector.replicate 4 0xe3) = .ok record ∧
        ∀ rest, ∃ t'', disconnectBlock (fun _ => Vector.replicate 32 0) Secp256k1.rejectAll 24
            CCoinsViewDB.view (fun _ _ => []) 0 sampleBlock (some (record.data ++ rest))
            (Vector.replicate 32 9) 2 sampleConnected.1 = .ok (DISCONNECT_OK, t'') ∧
          t''.Wf CCoinsViewDB.Unspent (fun db => db.coins.lookup) ∧
          t''.coins (fun db => db.coins.lookup) = sampleTop.coins (fun db => db.coins.lookup) ∧
          t''.cache.hashBlock = sampleBlock.header.hashPrevBlock :=
  ⟨sampleTop_coinsStorable, sampleBlock_checkTransactionCommon, sampleBlock_connect,
    disconnectBlock_connectBlockCoins CCoinsViewDB.view_spec (fun _ _ => [])
      (fun _ => Vector.replicate 32 0) Secp256k1.rejectAll_spec 24 sampleTop_wf (by decide)
      (by decide) sampleTop_coinsOk sampleTop_coinsStorable ⟨_, _, rfl, by decide, by decide⟩
      sampleBlock_checkTransactionCommon (le_refl _) (by decide) sampleBlock_connectOk
      sampleBlock_connect (Vector.replicate 32 9) (Vector.replicate 4 0xe3)⟩

end TbcNode.Coins.Cache
