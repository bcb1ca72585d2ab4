import TbcNode.Primitives.Transaction
import TbcNode.Encoding.Integers
import TbcNode.Logic.Codec

/-! # The wire format of transactions (`serialize.h`, `primitives/transaction.h`)

A writer returns its bytes or the `ios_base::failure` of a size above `MAX_SIZE`; a reader is a
program on the rest of a `CDataStream`. `UnserializeTransaction` reads back every transaction
`SerializeTransaction` writes, and accepts nothing else.
-/

namespace TbcNode.Primitives

open TbcNode.Logic TbcNode.Encoding TbcNode.Script

/-- A `CDataStream` being read: the bytes that remain. -/
abbrev Reader := EStateM String (List UInt8)

/-- `CDataStream::read`: the next `nSize` bytes, or `end of data` when fewer remain. -/
def read (nSize : Nat) : Reader (Vector UInt8 nSize) := fun s =>
  if h : nSize ≤ s.length then .ok ⟨(s.take nSize).toArray, by simp [h]⟩ (s.drop nSize)
  else .error "CDataStream::read(): end of data" s

/-- `CDataStream::ignore`: the next `nSize` bytes are skipped, or `end of data` when fewer remain. -/
def ignore (nSize : Int) : Reader Unit := fun s =>
  if nSize < 0 then .error "CDataStream::ignore(): nSize negative" s
  else if nSize.toNat ≤ s.length then .ok () (s.drop nSize.toNat)
  else .error "CDataStream::ignore(): end of data" s

/-! ### Integers -/

/-- `ser_writedata8` ... `ser_writedata64`: the low `w` bytes, least significant first. -/
def serWritedata (w n : Nat) : List UInt8 := writeLE w n

def serWritedata8 (n : Nat) : List UInt8 := serWritedata 1 n

def serWritedata16 (n : Nat) : List UInt8 := serWritedata 2 n

def serWritedata32 (n : Nat) : List UInt8 := serWritedata 4 n

def serWritedata64 (n : Nat) : List UInt8 := serWritedata 8 n

/-- `ser_readdata8` ... `ser_readdata64`: an unsigned little-endian integer of `w` bytes. -/
def serReaddata (w : Nat) : Reader Nat := (fun b => readLE b.toList) <$> read w

def serReaddata8 : Reader Nat := serReaddata 1

def serReaddata16 : Reader Nat := serReaddata 2

def serReaddata32 : Reader Nat := serReaddata 4

def serReaddata64 : Reader Nat := serReaddata 8

/-- The conversion of a `uint64_t` to an `int64_t`, two's complement. -/
def int64OfUInt64 (v : Nat) : Int := if v < 2 ^ 63 then v else v - 2 ^ 64

/-! ### `CompactSize` -/

def MAX_SIZE : Nat := 0xFFFFFFFF

def writeCompactSize (nSize : Nat) : Except String (List UInt8) :=
  if nSize > MAX_SIZE then throw "WriteCompactSize(): size too large"
  else if nSize < 253 then pure (serWritedata8 nSize)
  else if nSize ≤ 0xFFFF then pure (serWritedata8 253 ++ serWritedata16 nSize)
  else if nSize ≤ 0xFFFFFFFF then pure (serWritedata8 254 ++ serWritedata32 nSize)
  else pure (serWritedata8 255 ++ serWritedata64 nSize)

def readCompactSize : Reader Nat := do
  let chSize ← serReaddata8
  let nSizeRet ←
    if chSize < 253 then pure chSize
    else if chSize = 253 then do
      let nSizeRet ← serReaddata16
      if nSizeRet < 253 then throw "non-canonical ReadCompactSize()" else pure nSizeRet
    else if chSize = 254 then do
      let nSizeRet ← serReaddata32
      if nSizeRet < 0x10000 then throw "non-canonical ReadCompactSize()" else pure nSizeRet
    else do
      let nSizeRet ← serReaddata64
      if nSizeRet < 0x100000000 then throw "non-canonical ReadCompactSize()" else pure nSizeRet
  if nSizeRet > MAX_SIZE then throw "ReadCompactSize(): size too large"
  pure nSizeRet

/-! ### Vectors -/

def STARTING_CHUNK_SIZE : Nat := 16000000

def CHUNK_GROWTH_RATE : Nat := 3

/-- `Serialize_impl` of a vector of bytes (a `CScript`): the size, then the bytes. -/
def serializeBytes (v : List UInt8) : Except String (List UInt8) := do
  let size ← writeCompactSize v.length
  pure (size ++ v)

/-- The loop of `Unserialize_impl` for a vector of bytes: blocks of at most `chunkSize` bytes, the
chunk growing threefold, until `nSize` bytes are read; `v` holds the `i` bytes read so far, so the
block that `resize` and `read` put at `&v[i]` is appended. The products stay below `2 ^ 64` for
every `nSize ≤ MAX_SIZE`, which six blocks cover. -/
def unserializeBytesLoop (nSize : Nat) (i chunkSize : Nat) (v : List UInt8) :
    Reader (List UInt8) :=
  if i < nSize then do
    let blk := min (nSize - i) (1 + (chunkSize - 1) / 1)
    let bytes ← read blk
    unserializeBytesLoop nSize (i + blk) (chunkSize * CHUNK_GROWTH_RATE) (v ++ bytes.toList)
  else pure v
termination_by nSize - i
decreasing_by omega

def unserializeBytes : Reader (List UInt8) := do
  let nSize ← readCompactSize
  unserializeBytesLoop nSize 0 STARTING_CHUNK_SIZE []

/-- `Serialize_impl` of a vector of other elements: the size, then each element. -/
def serializeVector {α : Type} (ser : α → Except String (List UInt8)) (v : List α) :
    Except String (List UInt8) := do
  let size ← writeCompactSize v.length
  let items ← v.mapM ser
  pure (size ++ items.flatten)

theorem nMid_step_lt {nMid nSize c : Nat} (h : nMid < nSize) :
    nSize - min (nMid + min nSize (1 + c)) nSize < nSize - nMid := by
  omega

theorem nMid_lt_step {nMid nSize c : Nat} (h : nMid < nSize) :
    nMid < min (nMid + min nSize (1 + c)) nSize := by
  omega

/-- The loop of `Unserialize_impl` for a vector of other elements, of `sizeofT` bytes each in
memory: `nMid` grows by a chunk, clamped to `nSize`, and the elements from the old `nMid` to the
new one are read one after another (the inner loop on `i`, which ends each round at `nMid`). -/
def unserializeVectorLoop {α : Type} (dec : Reader α) (sizeofT nSize : Nat) (nMid chunkSize : Nat)
    (v : List α) : Reader (List α) :=
  if nMid < nSize then do
    let nMid' := min (nMid + min nSize (1 + (chunkSize - 1) / sizeofT)) nSize
    let xs ← readN dec (nMid' - nMid)
    unserializeVectorLoop dec sizeofT nSize nMid' (chunkSize * CHUNK_GROWTH_RATE) (v ++ xs)
  else pure v
termination_by nSize - nMid
decreasing_by exact nMid_step_lt ‹_›

/-- `Unserialize_impl` of a vector of other elements. -/
def unserializeVector {α : Type} (dec : Reader α) (sizeofT : Nat) : Reader (List α) := do
  let nSize ← readCompactSize
  unserializeVectorLoop dec sizeofT nSize 0 STARTING_CHUNK_SIZE []

/-! ### Transactions -/

/-- `COutPoint::Serialize`: the 32 bytes of the id, then the index. -/
def serializeOutPoint (o : COutPoint) : List UInt8 := o.txid.toList ++ serWritedata32 o.n.toNat

def unserializeOutPoint : Reader COutPoint := do
  let txid ← read 32
  let n ← serReaddata32
  pure ⟨txid, UInt32.ofNat n⟩

def serializeTxIn (txin : CTxIn) : Except String (List UInt8) := do
  let scriptSig ← serializeBytes txin.scriptSig
  pure (serializeOutPoint txin.prevout ++ scriptSig ++ serWritedata32 txin.nSequence.toNat)

def unserializeTxIn : Reader CTxIn := do
  let prevout ← unserializeOutPoint
  let scriptSig ← unserializeBytes
  let nSequence ← serReaddata32
  pure ⟨prevout, scriptSig, UInt32.ofNat nSequence⟩

/-- `CTxOut::Serialize`: the amount as an `int64_t`, then the script. -/
def serializeTxOut (txout : CTxOut) : Except String (List UInt8) := do
  let scriptPubKey ← serializeBytes txout.scriptPubKey
  pure (serWritedata64 (txout.nValue % 2 ^ 64).toNat ++ scriptPubKey)

def unserializeTxOut : Reader CTxOut := do
  let nValue ← serReaddata64
  let scriptPubKey ← unserializeBytes
  pure ⟨int64OfUInt64 nValue, scriptPubKey⟩

def serializeTransaction (tx : CMutableTransaction) : Except String (List UInt8) := do
  let vin ← serializeVector serializeTxIn tx.vin
  let vout ← serializeVector serializeTxOut tx.vout
  pure (serWritedata32 tx.nVersion.toUInt32.toNat ++ vin ++ vout ++
    serWritedata32 tx.nLockTime.toNat)

/-- `UnserializeTransaction`, with `sizeof(CTxIn)` and `sizeof(CTxOut)` of the build. -/
def unserializeTransaction (sizeofCTxIn sizeofCTxOut : Nat) : Reader CMutableTransaction := do
  let nVersion ← serReaddata32
  let vin ← unserializeVector unserializeTxIn sizeofCTxIn
  let vout ← unserializeVector unserializeTxOut sizeofCTxOut
  let nLockTime ← serReaddata32
  pure ⟨(UInt32.ofNat nVersion).toInt32, vin, vout, UInt32.ofNat nLockTime⟩

/-! ### Reading back what was written -/

theorem reads_read {n : Nat} (v : Vector UInt8 n) : Reads (read n) v.toList v := by
  intro rest
  have hlen : n ≤ (v.toList ++ rest).length := by simp
  have hdrop : (v.toList ++ rest).drop n = rest := List.drop_left' (by simp)
  simp only [read, EStateM.run, dif_pos hlen]
  congr 1
  apply Vector.toArray_inj.mp
  simp [Vector.toList]

theorem consumes_read (n : Nat) : Consumes (read n) fun b v => b = v.toList := by
  intro s v rest h
  simp only [read, EStateM.run] at h
  split at h
  case isTrue hlen =>
    cases h
    exact ⟨s.take n, by simp, (List.take_append_drop n s).symm⟩
  case isFalse => cases h

theorem reads_serReaddata {w n : Nat} (h : n < 256 ^ w) :
    Reads (serReaddata w) (serWritedata w n) n := by
  have hv := (reads_read (⟨(writeLE w n).toArray, by simp⟩ : Vector UInt8 w)).map
    fun b => readLE b.toList
  simpa [serReaddata, serWritedata, readLE_writeLE, Nat.mod_eq_of_lt h] using hv

theorem consumes_serReaddata (w : Nat) :
    Consumes (serReaddata w) fun b n => n < 256 ^ w ∧ b = serWritedata w n := by
  refine ((consumes_read w).map fun b => readLE b.toList).mono ?_
  rintro b n ⟨v, rfl, rfl⟩
  refine ⟨by simpa using readLE_lt v.toList, ?_⟩
  rw [serWritedata, writeLE_readLE (by simp)]

theorem reads_readCompactSize {n : Nat} {b : List UInt8} (h : writeCompactSize n = .ok b) :
    Reads readCompactSize b n := by
  intro rest
  unfold writeCompactSize at h
  split_ifs at h with hmax h1 h2 h3 <;> cases h
  · have h8 := reads_serReaddata (w := 1) (n := n) (by omega) rest
    simp [readCompactSize, serReaddata8, serWritedata8, EStateM.run_bind, h8, h1, hmax]
  · have h8 := reads_serReaddata (w := 1) (n := 253) (by omega) (serWritedata 2 n ++ rest)
    have h16 := reads_serReaddata (w := 2) (n := n) (by omega) rest
    simp [readCompactSize, serReaddata8, serWritedata8, serReaddata16, serWritedata16,
      EStateM.run_bind, h8, h16, h1, hmax]
  · have h8 := reads_serReaddata (w := 1) (n := 254) (by omega) (serWritedata 4 n ++ rest)
    have h32 := reads_serReaddata (w := 4) (n := n) (by omega) rest
    have hlow : ¬ n < 0x10000 := by omega
    simp [readCompactSize, serReaddata8, serWritedata8, serReaddata32, serWritedata32,
      EStateM.run_bind, h8, h32, hlow, hmax]
  · simp only [MAX_SIZE] at hmax
    omega

theorem consumes_readCompactSize :
    Consumes readCompactSize fun b n => writeCompactSize n = .ok b := by
  intro s n rest hrun
  unfold readCompactSize at hrun
  obtain ⟨ch, s₁, h1, h2⟩ := run_bind_eq_ok hrun
  obtain ⟨b₁, ⟨hlt, rfl⟩, rfl⟩ := consumes_serReaddata 1 s ch s₁ h1
  simp only [Nat.pow_one] at hlt
  by_cases hc1 : ch < 253
  · have hm : ¬ MAX_SIZE < ch := by simp only [MAX_SIZE]; omega
    simp [hc1, hm] at h2
    obtain ⟨rfl, rfl⟩ := h2
    refine ⟨serWritedata 1 ch, ?_, rfl⟩
    simp [writeCompactSize, serWritedata8, hc1, hm, pure, Except.pure]
  by_cases hc2 : ch = 253
  · subst hc2
    rw [if_neg hc1, if_pos rfl] at h2
    obtain ⟨v, s₂, h3, h4⟩ := run_bind_eq_ok h2
    obtain ⟨b₂, ⟨hv, rfl⟩, rfl⟩ := consumes_serReaddata 2 s₁ v s₂ h3
    by_cases hv1 : v < 253
    · simp [hv1, EStateM.run_bind] at h4
    have hm : ¬ MAX_SIZE < v := by simp only [MAX_SIZE]; omega
    simp [hv1, hm] at h4
    obtain ⟨rfl, rfl⟩ := h4
    refine ⟨serWritedata 1 253 ++ serWritedata 2 v, ?_, by simp⟩
    have hsmall : v ≤ 0xFFFF := by omega
    simp [writeCompactSize, serWritedata8, serWritedata16, hv1, hm, hsmall, pure, Except.pure]
  by_cases hc3 : ch = 254
  · subst hc3
    rw [if_neg hc1, if_neg hc2, if_pos rfl] at h2
    obtain ⟨v, s₂, h3, h4⟩ := run_bind_eq_ok h2
    obtain ⟨b₂, ⟨hv, rfl⟩, rfl⟩ := consumes_serReaddata 4 s₁ v s₂ h3
    by_cases hv1 : v < 0x10000
    · simp [hv1, EStateM.run_bind] at h4
    have hm : ¬ MAX_SIZE < v := by simp only [MAX_SIZE]; omega
    simp [hv1, hm] at h4
    obtain ⟨rfl, rfl⟩ := h4
    refine ⟨serWritedata 1 254 ++ serWritedata 4 v, ?_, by simp⟩
    have hlarge : ¬ v ≤ 0xFFFF := by omega
    have hsmall : v ≤ 0xFFFFFFFF := by omega
    have hmid : ¬ v < 253 := by omega
    simp [writeCompactSize, serWritedata8, serWritedata32, hm, hlarge, hsmall, hmid, pure,
      Except.pure]
  rw [if_neg hc1, if_neg hc2, if_neg hc3] at h2
  obtain ⟨v, s₂, h3, h4⟩ := run_bind_eq_ok h2
  by_cases hv1 : v < 0x100000000
  · simp [hv1, EStateM.run_bind] at h4
  · have hm : MAX_SIZE < v := by simp only [MAX_SIZE]; omega
    simp [hv1, hm] at h4

theorem writeCompactSize_of_le {n : Nat} (h : n ≤ MAX_SIZE) : ∃ b, writeCompactSize n = .ok b := by
  unfold writeCompactSize
  rw [if_neg (by omega)]
  split_ifs <;> exact ⟨_, rfl⟩

/-! ### Vectors, chunk by chunk -/

theorem reads_unserializeBytesLoop {nSize i chunkSize : Nat} {v b : List UInt8}
    (hb : b.length = nSize - i) :
    Reads (unserializeBytesLoop nSize i chunkSize v) b (v ++ b) := by
  fun_induction unserializeBytesLoop nSize i chunkSize v generalizing b with
  | case1 i chunkSize v hi blk =>
    rename_i ih
    have hblk : blk ≤ nSize - i := Nat.min_le_left _ _
    have htake : (b.take blk).length = blk := List.length_take_of_le (by omega)
    let first : Vector UInt8 blk := ⟨(b.take blk).toArray, by simp [htake]⟩
    have hfirst : first.toList = b.take blk := by simp [first, Vector.toList]
    have hrest := ih first (b := b.drop blk) (by simp only [List.length_drop]; omega)
    refine (Reads.bind (reads_read first) hrest).of_eq ?_ ?_
    · rw [hfirst, List.take_append_drop]
    · rw [hfirst, List.append_assoc, List.take_append_drop]
  | case2 i chunkSize v hi =>
    have hnil : b = [] := List.eq_nil_of_length_eq_zero (by omega)
    subst hnil
    exact (Reads.pure' v).of_eq rfl (List.append_nil v).symm

theorem consumes_unserializeBytesLoop (nSize i chunkSize : Nat) (v : List UInt8) :
    Consumes (unserializeBytesLoop nSize i chunkSize v) fun b w =>
      b.length = nSize - i ∧ w = v ++ b := by
  fun_induction unserializeBytesLoop nSize i chunkSize v with
  | case1 i chunkSize v hi blk =>
    rename_i ih
    have hblk : blk ≤ nSize - i := Nat.min_le_left _ _
    have hpos : 0 < blk := Nat.lt_min.mpr ⟨by omega, by omega⟩
    refine ((consumes_read blk).bind ih).mono ?_
    rintro b w ⟨bytes, b₁, b₂, rfl, ⟨hlen, rfl⟩, rfl⟩
    refine ⟨?_, by rw [List.append_assoc]⟩
    simp only [List.length_append, Vector.length_toList]
    omega
  | case2 i chunkSize v hi =>
    refine (Consumes.pure' v).mono ?_
    rintro b w ⟨rfl, rfl⟩
    exact ⟨by simp; omega, (List.append_nil _).symm⟩

theorem serializeBytes_eq_ok {v b : List UInt8} :
    serializeBytes v = .ok b ↔ ∃ size, writeCompactSize v.length = .ok size ∧ b = size ++ v :=
  bind_pure_eq_ok_iff

theorem serializeBytes_of_le {v : List UInt8} (h : v.length ≤ MAX_SIZE) :
    ∃ b, serializeBytes v = .ok b := by
  obtain ⟨size, hsize⟩ := writeCompactSize_of_le h
  exact ⟨size ++ v, serializeBytes_eq_ok.mpr ⟨size, hsize, rfl⟩⟩

theorem reads_unserializeBytes {v b : List UInt8} (h : serializeBytes v = .ok b) :
    Reads unserializeBytes b v := by
  obtain ⟨size, hsize, rfl⟩ := serializeBytes_eq_ok.mp h
  exact (Reads.bind (reads_readCompactSize hsize)
    (reads_unserializeBytesLoop (v := []) (by simp))).of_eq rfl (List.nil_append v)

theorem consumes_unserializeBytes :
    Consumes unserializeBytes fun b v => serializeBytes v = .ok b := by
  refine (consumes_readCompactSize.bind fun nSize =>
    consumes_unserializeBytesLoop nSize 0 STARTING_CHUNK_SIZE []).mono ?_
  rintro b v ⟨nSize, b₁, b₂, hsize, ⟨hlen, hv⟩, rfl⟩
  rw [List.nil_append] at hv
  subst hv
  exact serializeBytes_eq_ok.mpr ⟨b₁, by rw [hlen, Nat.sub_zero]; exact hsize, rfl⟩

theorem reads_unserializeVectorLoop {α : Type} {dec : Reader α} {sizeofT nSize nMid chunkSize : Nat}
    {v xs : List α} {parts : List (List UInt8)}
    (h : List.Forall₂ (fun x b => Reads dec b x) xs parts) (hlen : xs.length = nSize - nMid) :
    Reads (unserializeVectorLoop dec sizeofT nSize nMid chunkSize v) parts.flatten (v ++ xs) := by
  fun_induction unserializeVectorLoop dec sizeofT nSize nMid chunkSize v generalizing xs parts with
  | case1 nMid chunkSize v hi nMid' =>
    rename_i ih
    have hle : nMid' ≤ nSize := Nat.min_le_right _ _
    have hgt : nMid < nMid' := nMid_lt_step hi
    clear_value nMid'
    have hstep : nMid' - nMid ≤ xs.length := by omega
    have hfirst := Reads.readN (List.forall₂_take (nMid' - nMid) h)
    rw [List.length_take_of_le hstep] at hfirst
    have hrest := ih (xs.take (nMid' - nMid)) (List.forall₂_drop (nMid' - nMid) h)
      (by simp only [List.length_drop]; omega)
    refine (Reads.bind hfirst hrest).of_eq ?_ ?_
    · rw [← List.flatten_append, List.take_append_drop]
    · rw [List.append_assoc, List.take_append_drop]
  | case2 nMid chunkSize v hi =>
    have hnil : xs = [] := List.eq_nil_of_length_eq_zero (by omega)
    subst hnil
    cases h
    exact (Reads.pure' v).of_eq rfl (List.append_nil v).symm

theorem consumes_unserializeVectorLoop {α : Type} {dec : Reader α} {R : List UInt8 → α → Prop}
    (hdec : Consumes dec R) (sizeofT nSize nMid chunkSize : Nat) (v : List α) :
    Consumes (unserializeVectorLoop dec sizeofT nSize nMid chunkSize v) fun b w =>
      ∃ xs parts, List.Forall₂ (fun x b => R b x) xs parts ∧ b = parts.flatten ∧
        xs.length = nSize - nMid ∧ w = v ++ xs := by
  fun_induction unserializeVectorLoop dec sizeofT nSize nMid chunkSize v with
  | case1 nMid chunkSize v hi nMid' =>
    rename_i ih
    have hle : nMid' ≤ nSize := Nat.min_le_right _ _
    have hgt : nMid < nMid' := nMid_lt_step hi
    clear_value nMid'
    refine ((hdec.readN (nMid' - nMid)).bind ih).mono ?_
    rintro b w ⟨ys, b₁, b₂, ⟨parts, hparts, rfl, hys⟩, ⟨zs, parts', hzs, rfl, hlen, rfl⟩, rfl⟩
    refine ⟨ys ++ zs, parts ++ parts', List.rel_append hparts hzs, by simp, ?_, by simp⟩
    simp only [List.length_append]
    omega
  | case2 nMid chunkSize v hi =>
    refine (Consumes.pure' v).mono ?_
    rintro b w ⟨rfl, rfl⟩
    exact ⟨[], [], List.Forall₂.nil, rfl, by simp; omega, (List.append_nil _).symm⟩

theorem serializeVector_eq_ok {α : Type} {ser : α → Except String (List UInt8)} {v : List α}
    {b : List UInt8} :
    serializeVector ser v = .ok b ↔ ∃ size parts, writeCompactSize v.length = .ok size ∧
      List.Forall₂ (fun x b => ser x = .ok b) v parts ∧ b = size ++ parts.flatten := by
  unfold serializeVector
  rw [bind_eq_ok_iff]
  constructor
  · rintro ⟨size, hsize, hitems⟩
    obtain ⟨parts, hparts, rfl⟩ := bind_pure_eq_ok_iff.mp hitems
    exact ⟨size, parts, hsize, mapM_eq_ok_iff.mp hparts, rfl⟩
  · rintro ⟨size, parts, hsize, hparts, rfl⟩
    exact ⟨size, hsize, bind_pure_eq_ok_iff.mpr ⟨parts, mapM_eq_ok_iff.mpr hparts, rfl⟩⟩

theorem serializeVector_of_le {α : Type} {ser : α → Except String (List UInt8)} {v : List α}
    (h : v.length ≤ MAX_SIZE) (hv : ∀ x ∈ v, ∃ b, ser x = .ok b) :
    ∃ b, serializeVector ser v = .ok b := by
  obtain ⟨size, hsize⟩ := writeCompactSize_of_le h
  obtain ⟨parts, hparts⟩ := exists_mapM_eq_ok hv
  exact ⟨size ++ parts.flatten,
    serializeVector_eq_ok.mpr ⟨size, parts, hsize, mapM_eq_ok_iff.mp hparts, rfl⟩⟩

theorem reads_unserializeVector {α : Type} {ser : α → Except String (List UInt8)}
    {dec : Reader α} {v : List α} {b : List UInt8}
    (hreads : ∀ x ∈ v, ∀ b, ser x = .ok b → Reads dec b x) (hser : serializeVector ser v = .ok b)
    (sizeofT : Nat) : Reads (unserializeVector dec sizeofT) b v := by
  obtain ⟨size, parts, hsize, hparts, rfl⟩ := serializeVector_eq_ok.mp hser
  have hread : List.Forall₂ (fun x b => Reads dec b x) v parts :=
    ((List.forall₂_and_left v parts).mpr ⟨hreads, hparts⟩).imp fun x b ⟨hx, hb⟩ => hx b hb
  exact (Reads.bind (reads_readCompactSize hsize)
    (reads_unserializeVectorLoop (v := []) hread (by simp))).of_eq rfl (List.nil_append v)

theorem format_vector {α : Type} {P : α → Prop} {ser : α → Except String (List UInt8)}
    {dec : Reader α} (hf : Format P ser dec) (sizeofT : Nat) :
    Format (fun v => ∀ x ∈ v, P x) (serializeVector ser) (unserializeVector dec sizeofT) where
  reads := by
    intro v b hP hser
    obtain ⟨size, parts, hsize, hparts, rfl⟩ := serializeVector_eq_ok.mp hser
    have hreads : List.Forall₂ (fun x b => Reads dec b x) v parts :=
      ((List.forall₂_and_left v parts).mpr ⟨hP, hparts⟩).imp fun _ _ ⟨hx, hb⟩ => hf.reads hx hb
    exact (Reads.bind (reads_readCompactSize hsize)
      (reads_unserializeVectorLoop (v := []) hreads (by simp))).of_eq rfl (List.nil_append v)
  consumes := by
    refine (consumes_readCompactSize.bind fun nSize =>
      consumes_unserializeVectorLoop hf.consumes sizeofT nSize 0 STARTING_CHUNK_SIZE []).mono ?_
    rintro b v ⟨nSize, b₁, b₂, hsize, ⟨xs, parts, hparts, rfl, hlen, hv⟩, rfl⟩
    rw [List.nil_append] at hv
    subst hv
    obtain ⟨hP, hser⟩ := (List.forall₂_and_left _ _).mp hparts
    refine ⟨hP, serializeVector_eq_ok.mpr ⟨b₁, parts, ?_, hser, rfl⟩⟩
    rw [hlen, Nat.sub_zero]
    exact hsize

/-! ### Records -/

theorem int64OfUInt64_emod {v : Int} (h₁ : -2 ^ 63 ≤ v) (h₂ : v < 2 ^ 63) :
    int64OfUInt64 (v % 2 ^ 64).toNat = v := by
  unfold int64OfUInt64
  split <;> omega

theorem emod_int64OfUInt64 {n : Nat} (h : n < 2 ^ 64) : (int64OfUInt64 n % 2 ^ 64).toNat = n := by
  unfold int64OfUInt64
  split <;> omega

theorem int64OfUInt64_range {n : Nat} (h : n < 2 ^ 64) :
    -2 ^ 63 ≤ int64OfUInt64 n ∧ int64OfUInt64 n < 2 ^ 63 := by
  unfold int64OfUInt64
  split <;> omega

theorem reads_unserializeOutPoint (o : COutPoint) :
    Reads unserializeOutPoint (serializeOutPoint o) o := by
  have hn := reads_serReaddata (w := 4) (n := o.n.toNat) (by simpa using o.n.toNat_lt)
  refine Reads.of_eq (Reads.bind (reads_read o.txid) (Reads.bind hn (Reads.pure' _))) ?_ ?_
  · simp [serializeOutPoint, serWritedata32]
  · simp

theorem consumes_unserializeOutPoint :
    Consumes unserializeOutPoint fun b o => b = serializeOutPoint o := by
  refine ((consumes_read 32).bind fun txid =>
    (consumes_serReaddata 4).bind fun n => Consumes.pure' _).mono ?_
  rintro b o ⟨txid, b₁, b₂, rfl, ⟨n, b₃, b₄, ⟨hn, rfl⟩, ⟨rfl, rfl⟩, rfl⟩, rfl⟩
  have hn' : (UInt32.ofNat n).toNat = n := by simp; omega
  simp [serializeOutPoint, serWritedata32, hn']

theorem serializeTxIn_eq_ok {txin : CTxIn} {b : List UInt8} :
    serializeTxIn txin = .ok b ↔ ∃ script, serializeBytes txin.scriptSig = .ok script ∧
      b = serializeOutPoint txin.prevout ++ script ++ serWritedata32 txin.nSequence.toNat :=
  bind_pure_eq_ok_iff

theorem format_txIn : Format (fun _ => True) serializeTxIn unserializeTxIn where
  reads := by
    intro txin b _ hser
    obtain ⟨script, hscript, rfl⟩ := serializeTxIn_eq_ok.mp hser
    have hseq := reads_serReaddata (w := 4) (n := txin.nSequence.toNat)
      (by simpa using txin.nSequence.toNat_lt)
    refine Reads.of_eq (Reads.bind (reads_unserializeOutPoint txin.prevout) (Reads.bind
      (reads_unserializeBytes hscript) (Reads.bind hseq (Reads.pure' _)))) ?_ ?_
    · simp [serWritedata32]
    · simp
  consumes := by
    refine (consumes_unserializeOutPoint.bind fun prevout => consumes_unserializeBytes.bind
      fun scriptSig => (consumes_serReaddata 4).bind fun n => Consumes.pure' _).mono ?_
    rintro b txin ⟨prevout, b₁, b₂, rfl, ⟨scriptSig, b₃, b₄, hsig, ⟨n, b₅, b₆, ⟨hn, rfl⟩,
      ⟨rfl, rfl⟩, rfl⟩, rfl⟩, rfl⟩
    have hn' : (UInt32.ofNat n).toNat = n := by simp; omega
    refine ⟨trivial, serializeTxIn_eq_ok.mpr ⟨b₃, hsig, ?_⟩⟩
    simp [serWritedata32, hn']

theorem serializeTxOut_eq_ok {txout : CTxOut} {b : List UInt8} :
    serializeTxOut txout = .ok b ↔ ∃ script, serializeBytes txout.scriptPubKey = .ok script ∧
      b = serWritedata64 (txout.nValue % 2 ^ 64).toNat ++ script :=
  bind_pure_eq_ok_iff

theorem format_txOut :
    Format (fun txout : CTxOut => -2 ^ 63 ≤ txout.nValue ∧ txout.nValue < 2 ^ 63) serializeTxOut
      unserializeTxOut where
  reads := by
    intro txout b ⟨h₁, h₂⟩ hser
    obtain ⟨script, hscript, rfl⟩ := serializeTxOut_eq_ok.mp hser
    have hvalue := reads_serReaddata (w := 8) (n := (txout.nValue % 2 ^ 64).toNat) (by omega)
    refine Reads.of_eq (Reads.bind hvalue (Reads.bind (reads_unserializeBytes hscript)
      (Reads.pure' _))) ?_ ?_
    · simp [serWritedata64]
    · rw [int64OfUInt64_emod h₁ h₂]
  consumes := by
    refine ((consumes_serReaddata 8).bind fun n => consumes_unserializeBytes.bind
      fun scriptPubKey => Consumes.pure' _).mono ?_
    rintro b txout ⟨n, b₁, b₂, ⟨hn, rfl⟩, ⟨scriptPubKey, b₃, b₄, hscript, ⟨rfl, rfl⟩, rfl⟩, rfl⟩
    have hn64 : n < 2 ^ 64 := by simpa using hn
    refine ⟨int64OfUInt64_range hn64, serializeTxOut_eq_ok.mpr ⟨b₃, hscript, ?_⟩⟩
    rw [serWritedata64, emod_int64OfUInt64 hn64, List.append_nil]

theorem serializeTransaction_eq_ok {tx : CMutableTransaction} {b : List UInt8} :
    serializeTransaction tx = .ok b ↔ ∃ vin vout,
      serializeVector serializeTxIn tx.vin = .ok vin ∧
      serializeVector serializeTxOut tx.vout = .ok vout ∧
      b = serWritedata32 tx.nVersion.toUInt32.toNat ++ vin ++ vout ++
        serWritedata32 tx.nLockTime.toNat := by
  unfold serializeTransaction
  rw [bind_eq_ok_iff]
  constructor
  · rintro ⟨vin, hvin, hrest⟩
    obtain ⟨vout, hvout, rfl⟩ := bind_pure_eq_ok_iff.mp hrest
    exact ⟨vin, vout, hvin, hvout, rfl⟩
  · rintro ⟨vin, vout, hvin, hvout, rfl⟩
    exact ⟨vin, hvin, bind_pure_eq_ok_iff.mpr ⟨vout, hvout, rfl⟩⟩

theorem format_transaction (sizeofCTxIn sizeofCTxOut : Nat) :
    Format (fun tx : CMutableTransaction =>
        ∀ txout ∈ tx.vout, -2 ^ 63 ≤ txout.nValue ∧ txout.nValue < 2 ^ 63)
      serializeTransaction (unserializeTransaction sizeofCTxIn sizeofCTxOut) where
  reads := by
    intro tx b hP hser
    obtain ⟨vin, vout, hvin, hvout, rfl⟩ := serializeTransaction_eq_ok.mp hser
    have hversion := reads_serReaddata (w := 4) (n := tx.nVersion.toUInt32.toNat)
      (by simpa using tx.nVersion.toUInt32.toNat_lt)
    have hlock := reads_serReaddata (w := 4) (n := tx.nLockTime.toNat)
      (by simpa using tx.nLockTime.toNat_lt)
    have hins := (format_vector format_txIn sizeofCTxIn).reads (fun _ _ => trivial) hvin
    have houts := (format_vector format_txOut sizeofCTxOut).reads hP hvout
    refine Reads.of_eq (Reads.bind hversion (Reads.bind hins (Reads.bind houts (Reads.bind hlock
      (Reads.pure' _))))) ?_ ?_
    · simp [serWritedata32]
    · simp
  consumes := by
    refine ((consumes_serReaddata 4).bind fun nVersion =>
      (format_vector format_txIn sizeofCTxIn).consumes.bind fun vin =>
      (format_vector format_txOut sizeofCTxOut).consumes.bind fun vout =>
      (consumes_serReaddata 4).bind fun nLockTime => Consumes.pure' _).mono ?_
    rintro b tx ⟨nVersion, b₁, b₂, ⟨hv, rfl⟩, ⟨vin, b₃, b₄, ⟨-, hvin⟩, ⟨vout, b₅, b₆, ⟨hP, hvout⟩,
      ⟨nLockTime, b₇, b₈, ⟨hl, rfl⟩, ⟨rfl, rfl⟩, rfl⟩, rfl⟩, rfl⟩, rfl⟩
    have hv' : (UInt32.ofNat nVersion).toInt32.toUInt32.toNat = nVersion := by simp; omega
    have hl' : (UInt32.ofNat nLockTime).toNat = nLockTime := by simp; omega
    refine ⟨hP, serializeTransaction_eq_ok.mpr ⟨b₃, b₅, hvin, hvout, ?_⟩⟩
    simp only [serWritedata32, hv', hl', List.append_nil, List.append_assoc]

theorem serializeTxIn_of_le {txin : CTxIn} (h : txin.scriptSig.length ≤ MAX_SIZE) :
    ∃ b, serializeTxIn txin = .ok b := by
  obtain ⟨script, hscript⟩ := serializeBytes_of_le h
  exact ⟨_, serializeTxIn_eq_ok.mpr ⟨script, hscript, rfl⟩⟩

theorem serializeTxOut_of_le {txout : CTxOut} (h : txout.scriptPubKey.length ≤ MAX_SIZE) :
    ∃ b, serializeTxOut txout = .ok b := by
  obtain ⟨script, hscript⟩ := serializeBytes_of_le h
  exact ⟨_, serializeTxOut_eq_ok.mpr ⟨script, hscript, rfl⟩⟩

theorem serializeTransaction_of_le {tx : CMutableTransaction} (hin : tx.vin.length ≤ MAX_SIZE)
    (hout : tx.vout.length ≤ MAX_SIZE) (hsig : ∀ txin ∈ tx.vin, txin.scriptSig.length ≤ MAX_SIZE)
    (hpk : ∀ txout ∈ tx.vout, txout.scriptPubKey.length ≤ MAX_SIZE) :
    ∃ b, serializeTransaction tx = .ok b := by
  obtain ⟨vin, hvin⟩ := serializeVector_of_le hin fun txin h => serializeTxIn_of_le (hsig txin h)
  obtain ⟨vout, hvout⟩ :=
    serializeVector_of_le hout fun txout h => serializeTxOut_of_le (hpk txout h)
  exact ⟨_, serializeTransaction_eq_ok.mpr ⟨vin, vout, hvin, hvout, rfl⟩⟩

/-- The wire format of transactions. Every transaction whose sizes `WriteCompactSize` accepts is
written, and read back field for field from what is written followed by anything; whatever
`UnserializeTransaction` accepts is what `SerializeTransaction` writes of the transaction it
returns, so two inputs it reads one transaction from start with the same bytes. Amounts are
`int64_t` in the source and integers here, so the round trip takes them in that range. -/
theorem transaction_wire_format (sizeofCTxIn sizeofCTxOut : Nat) :
    (∀ tx : CMutableTransaction, tx.vin.length ≤ MAX_SIZE → tx.vout.length ≤ MAX_SIZE →
      (∀ txin ∈ tx.vin, txin.scriptSig.length ≤ MAX_SIZE) →
      (∀ txout ∈ tx.vout, txout.scriptPubKey.length ≤ MAX_SIZE ∧
        -2 ^ 63 ≤ txout.nValue ∧ txout.nValue < 2 ^ 63) →
      ∃ bytes, serializeTransaction tx = .ok bytes ∧ ∀ rest,
        (unserializeTransaction sizeofCTxIn sizeofCTxOut).run (bytes ++ rest) = .ok tx rest) ∧
    (∀ s tx rest, (unserializeTransaction sizeofCTxIn sizeofCTxOut).run s = .ok tx rest →
      ∃ bytes, serializeTransaction tx = .ok bytes ∧ s = bytes ++ rest) ∧
    (∀ s₁ s₂ tx r₁ r₂, (unserializeTransaction sizeofCTxIn sizeofCTxOut).run s₁ = .ok tx r₁ →
      (unserializeTransaction sizeofCTxIn sizeofCTxOut).run s₂ = .ok tx r₂ →
      ∃ bytes, s₁ = bytes ++ r₁ ∧ s₂ = bytes ++ r₂) := by
  have hf := format_transaction sizeofCTxIn sizeofCTxOut
  refine ⟨?_, ?_, fun s₁ s₂ tx r₁ r₂ => hf.encoding_unique⟩
  · intro tx hin hout hsig hpk
    obtain ⟨bytes, hbytes⟩ :=
      serializeTransaction_of_le hin hout hsig fun txout h => (hpk txout h).1
    exact ⟨bytes, hbytes, hf.reads (fun txout h => (hpk txout h).2) hbytes⟩
  · intro s tx rest hrun
    obtain ⟨bytes, ⟨-, hbytes⟩, rfl⟩ := hf.consumes s tx rest hrun
    exact ⟨bytes, hbytes, rfl⟩

def sampleTransaction : CMutableTransaction :=
  ⟨2, [⟨⟨Vector.replicate 32 0, 0⟩, [0x51], 0xFFFFFFFF⟩], [⟨5000000000, [0x51]⟩], 0⟩

theorem transaction_wire_format_sample :
    sampleTransaction.vin.length ≤ MAX_SIZE ∧ sampleTransaction.vout.length ≤ MAX_SIZE ∧
    (∀ txin ∈ sampleTransaction.vin, txin.scriptSig.length ≤ MAX_SIZE) ∧
    (∀ txout ∈ sampleTransaction.vout, txout.scriptPubKey.length ≤ MAX_SIZE ∧
      -2 ^ 63 ≤ txout.nValue ∧ txout.nValue < 2 ^ 63) ∧
    ∃ bytes, serializeTransaction sampleTransaction = .ok bytes ∧ ∀ rest,
      (unserializeTransaction 40 40).run (bytes ++ rest) = .ok sampleTransaction rest :=
  have hin : sampleTransaction.vin.length ≤ MAX_SIZE := by decide
  have hout : sampleTransaction.vout.length ≤ MAX_SIZE := by decide
  have hsig : ∀ txin ∈ sampleTransaction.vin, txin.scriptSig.length ≤ MAX_SIZE := by decide
  have hpk : ∀ txout ∈ sampleTransaction.vout, txout.scriptPubKey.length ≤ MAX_SIZE ∧
      -2 ^ 63 ≤ txout.nValue ∧ txout.nValue < 2 ^ 63 := by decide
  ⟨hin, hout, hsig, hpk, (transaction_wire_format 40 40).1 sampleTransaction hin hout hsig hpk⟩

end TbcNode.Primitives
