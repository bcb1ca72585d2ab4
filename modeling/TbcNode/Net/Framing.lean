import Mathlib
import TbcNode.Coins.Coin
import TbcNode.Crypto.Sha256
import TbcNode.Encoding.Integers
import TbcNode.Logic.Sequence

/-! # Framing of received messages (`net_message.cpp`, `Stream::ReceiveMsgBytes`)

`ReceiveMsgBytes` cuts chunks into messages as a byte-at-a-time machine does
(`receiveMsgBytes_simulates`), so the messages do not depend on where chunks end, for chunks that
fit an `int` and payloads below `2 ^ 32 - 2 ^ 18`; past that bound `vRecv` is grown too little.
-/

namespace TbcNode.Net

open TbcNode.Crypto TbcNode.Encoding TbcNode.Logic

/-! ### Headers and their limits -/

/-- A command name as the bytes of `pchCommand` before its first zero. -/
def commandBytes (s : String) : List UInt8 := s.toList.map fun c => c.toNat.toUInt8

def NetMsgType.PROTOCONF : List UInt8 := commandBytes "protoconf"
def NetMsgType.TX : List UInt8 := commandBytes "tx"
def NetMsgType.GETBLOCKTXN : List UInt8 := commandBytes "getblocktxn"
def NetMsgType.BLOCK : List UInt8 := commandBytes "block"
def NetMsgType.CMPCTBLOCK : List UInt8 := commandBytes "cmpctblock"
def NetMsgType.BLOCKTXN : List UInt8 := commandBytes "blocktxn"

def LEGACY_MAX_PROTOCOL_PAYLOAD_LENGTH : Nat := 1 * 1024 * 1024

def MAX_PROTOCOL_RECV_PAYLOAD_LENGTH : Nat := 2 * 1024 * 1024

/-- The limits of the configuration that `GetMaxMessageLength` reads: `GetMaxTxSize(true, true)`
and `GetMaxBlockSize()`. -/
structure NetConfig where
  maxTxSize : Nat
  maxBlockSize : Nat
  deriving DecidableEq, Repr

def NetMsgType.isBlockLike (strCommand : List UInt8) : Bool :=
  strCommand == BLOCK || strCommand == CMPCTBLOCK || strCommand == BLOCKTXN

def NetMsgType.getMaxMessageLength (command : List UInt8) (config : NetConfig) : Nat :=
  if command = PROTOCONF then LEGACY_MAX_PROTOCOL_PAYLOAD_LENGTH
  else if command = TX then config.maxTxSize
  else if command = GETBLOCKTXN then config.maxBlockSize / 215 * 6 + 24
  else if !isBlockLike command then MAX_PROTOCOL_RECV_PAYLOAD_LENGTH
  else config.maxBlockSize

/-- `CMessageHeader`: the message start, the command, the payload length and the checksum. -/
structure CMessageHeader where
  pchMessageStart : List UInt8
  pchCommand : List UInt8
  nPayloadLength : UInt32
  pchChecksum : List UInt8
  deriving DecidableEq, Repr

/-- `CMessageHeader(pchMessageStartIn)`, with `nPayloadLength = -1`. -/
def CMessageHeader.init (pchMessageStartIn : List UInt8) : CMessageHeader :=
  ⟨pchMessageStartIn, List.replicate 12 0, 0xFFFFFFFF, List.replicate 4 0⟩

/-- `CMessageHeader::GetCommand`: the command up to its first zero byte. -/
def CMessageHeader.getCommand (h : CMessageHeader) : List UInt8 := h.pchCommand.takeWhile (· ≠ 0)

def CMessageHeader.isOversized (h : CMessageHeader) (config : NetConfig) : Bool :=
  h.nPayloadLength.toNat > NetMsgType.getMaxMessageLength h.getCommand config

/-- `hdrbuf >> hdr`: the four fields from the 24 bytes of the header, the length little-endian.
The buffer always holds 24 bytes, so the read never throws. -/
def CMessageHeader.deserialize (b : List UInt8) : CMessageHeader :=
  ⟨b.take 4, (b.drop 4).take 12, UInt32.ofNat (readLE ((b.drop 16).take 4)), (b.drop 20).take 4⟩

/-! ### Messages -/

/-- `CNetMessage`: the hasher of the payload, the phase, the header buffer, the header and the
data. -/
structure CNetMessage where
  hasher : CSHA256
  in_data : Bool
  hdrbuf : List UInt8
  hdr : CMessageHeader
  nHdrPos : UInt32
  vRecv : List UInt8
  nDataPos : UInt32

/-- `RECV_STATUS`. -/
inductive RECV_STATUS
  | RECV_OK
  | RECV_BAD_LENGTH
  | RECV_FAIL
  deriving DecidableEq, Repr

section

variable (compress : Vector UInt32 8 → List UInt8 → Vector UInt32 8)

namespace CNetMessage

/-- `CNetMessage(pchMessageStartIn, ...)`. The buffer of the hasher is not initialised in the
source; it is zeros here, and what follows holds for any buffer. -/
def init (pchMessageStartIn : List UInt8) : CNetMessage :=
  ⟨⟨sha256Initialize, List.replicate 64 0, 0⟩, false, List.replicate 24 0,
    CMessageHeader.init pchMessageStartIn, 0, [], 0⟩

def complete (m : CNetMessage) : Bool := m.in_data && m.hdr.nPayloadLength == m.nDataPos

/-- `CHash256::Finalize`: the digest of the data is hashed again after `Reset`. -/
def chash256Finalize (h : CSHA256) : List UInt8 :=
  let buf := h.finalize compress
  (CSHA256.write compress ⟨sha256Initialize, h.buf, 0⟩ buf).finalize compress

def getMessageHash (m : CNetMessage) : Except String (List UInt8) :=
  if m.complete then .ok (chash256Finalize compress m.hasher) else .error "assert(complete())"

/-- `CNetMessage::readHeader`: the bytes taken, or `-1` for an oversized header. -/
def readHeader (config : NetConfig) (m : CNetMessage) (pch : List UInt8) (nBytes : UInt32) :
    Int × CNetMessage :=
  let nRemaining : UInt32 := 24 - m.nHdrPos
  let nCopy := min nRemaining nBytes
  let m := { m with
    hdrbuf := memcpy m.hdrbuf m.nHdrPos.toNat (pch.take nCopy.toNat)
    nHdrPos := m.nHdrPos + nCopy }
  if m.nHdrPos < 24 then (nCopy.toNat, m)
  else
    let m := { m with hdr := CMessageHeader.deserialize m.hdrbuf }
    if m.hdr.isOversized config then (-1, m)
    else (nCopy.toNat, { m with in_data := true })

/-- The allocation of `readData` before it copies `nCopy` bytes: `vRecv` grows up to 256 KiB ahead,
but never past the payload length, the bound computed in `unsigned int`. -/
def growRecv (m : CNetMessage) (nCopy : UInt32) : List UInt8 :=
  if m.vRecv.length < (m.nDataPos + nCopy).toNat then
    resize m.vRecv (min m.hdr.nPayloadLength (m.nDataPos + nCopy + 256 * 1024)).toNat 0
  else m.vRecv

/-- `CNetMessage::readData`: the bytes copied, returned as an `int`. -/
def readData (m : CNetMessage) (pch : List UInt8) (nBytes : UInt32) :
    Except String (Int × CNetMessage) :=
  let nRemaining : UInt32 := m.hdr.nPayloadLength - m.nDataPos
  let nCopy := min nRemaining nBytes
  let vRecv := m.growRecv nCopy
  if m.nDataPos.toNat + nCopy.toNat ≤ vRecv.length then
    .ok (nCopy.toInt32.toInt, { m with
      hasher := m.hasher.write compress (pch.take nCopy.toNat)
      vRecv := memcpy vRecv m.nDataPos.toNat (pch.take nCopy.toNat)
      nDataPos := m.nDataPos + nCopy })
  else .error "memcpy past the end of vRecv"

/-- The read of the loop of `ReceiveMsgBytes` ("Absorb network data"): the header while it is not
read, then the payload. -/
def absorb (config : NetConfig) (msg : CNetMessage) (pch : List UInt8) (nBytes : UInt32) :
    Except String (Int × CNetMessage) :=
  if !msg.in_data then .ok (msg.readHeader config pch nBytes) else msg.readData compress pch nBytes

end CNetMessage

def isOversizedMessage (config : NetConfig) (msg : CNetMessage) : Bool :=
  msg.in_data && msg.hdr.isOversized config

/-- The queue without its current message, and the current message: the last one, or a new one
after a complete one. -/
def openMessage (pchMessageStart : List UInt8) (q : List CNetMessage) :
    List CNetMessage × CNetMessage :=
  match q.getLast? with
  | some m => if m.complete then (q, CNetMessage.init pchMessageStart) else (q.dropLast, m)
  | none => ([], CNetMessage.init pchMessageStart)

/-- The loop of `ReceiveMsgBytes` on fuel: the status, the queue and whether a message completed. A
header read reports a bad length at once. -/
def receiveLoop (config : NetConfig) (pchMessageStart : List UInt8) :
    Nat → List CNetMessage → List UInt8 → Bool →
      Except String (RECV_STATUS × List CNetMessage × Bool)
  | 0, _, _, _ => .error "ReceiveMsgBytes consumes no byte"
  | fuel + 1, q, pch, complete =>
    if pch.length > 0 then do
      let cur := openMessage pchMessageStart q
      let msg := cur.2
      let r ← msg.absorb compress config pch (UInt32.ofNat pch.length)
      let q := cur.1 ++ [r.2]
      if !msg.in_data && decide (r.1 < 0) then .ok (.RECV_BAD_LENGTH, q, complete)
      else if r.1 < 0 then .ok (.RECV_FAIL, q, complete)
      else if isOversizedMessage config r.2 then .ok (.RECV_BAD_LENGTH, q, complete)
      else receiveLoop config pchMessageStart fuel q (pch.drop r.1.toNat) (complete || r.2.complete)
    else .ok (.RECV_OK, q, complete)

def receiveMsgBytes (config : NetConfig) (pchMessageStart : List UInt8) (q : List CNetMessage)
    (pch : List UInt8) : Except String (RECV_STATUS × List CNetMessage × Bool) :=
  receiveLoop compress config pchMessageStart (pch.length + 1) q pch false

/-- The chunks of a stream one call after another, up to the first status that disconnects. -/
def receiveChunks (config : NetConfig) (pchMessageStart : List UInt8) :
    List CNetMessage → List (List UInt8) → Except String (RECV_STATUS × List CNetMessage)
  | q, [] => .ok (.RECV_OK, q)
  | q, c :: cs => do
    let r ← receiveMsgBytes compress config pchMessageStart q c
    if r.1 = .RECV_OK then receiveChunks config pchMessageStart r.2.1 cs else .ok (r.1, r.2.1)

end

/-! ### The byte machine -/

/-- A message as the bytes it received: those of its header, those of its payload, and whether it
reads data. -/
structure AbsMsg where
  hb : List UInt8
  payload : List UInt8
  in_data : Bool
  deriving DecidableEq, Repr

namespace AbsMsg

def empty : AbsMsg := ⟨[], [], false⟩

/-- The header of a message once its bytes are all there. -/
def hdr (pchMessageStart : List UInt8) (m : AbsMsg) : CMessageHeader :=
  if m.hb.length = 24 then CMessageHeader.deserialize m.hb else CMessageHeader.init pchMessageStart

/-- A message reading data whose payload has the length its header says. -/
def complete (m : AbsMsg) : Bool :=
  m.in_data && decide ((CMessageHeader.deserialize m.hb).nPayloadLength.toNat = m.payload.length)

end AbsMsg

/-- The queue without its current message, and the current message. -/
def openAbs (q : List AbsMsg) : List AbsMsg × AbsMsg :=
  match q.getLast? with
  | some m => if m.complete then (q, .empty) else (q.dropLast, m)
  | none => ([], .empty)

/-- One byte into the current message; an oversized header stops the machine with the queue. -/
def absorbByte (config : NetConfig) (q : List AbsMsg) (b : UInt8) :
    Except (List AbsMsg) (List AbsMsg) :=
  let cur := openAbs q
  let m := cur.2
  if m.in_data then .ok (cur.1 ++ [{ m with payload := m.payload ++ [b] }])
  else if (m.hb ++ [b]).length < 24 then .ok (cur.1 ++ [{ m with hb := m.hb ++ [b] }])
  else if (CMessageHeader.deserialize (m.hb ++ [b])).isOversized config then
    .error (cur.1 ++ [{ m with hb := m.hb ++ [b] }])
  else .ok (cur.1 ++ [{ m with hb := m.hb ++ [b], in_data := true }])

/-- The bytes one after another, up to an oversized header. -/
def absorbAll (config : NetConfig) : List AbsMsg → List UInt8 → Except (List AbsMsg) (List AbsMsg)
  | q, [] => .ok q
  | q, b :: bs => absorbByte config q b >>= fun q => absorbAll config q bs

section Abstract

variable {config : NetConfig}

theorem absorbAll_append (q : List AbsMsg) (a b : List UInt8) :
    absorbAll config q (a ++ b) = absorbAll config q a >>= fun q => absorbAll config q b := by
  induction a generalizing q with
  | nil => rfl
  | cons x a ih =>
    simp only [List.cons_append, absorbAll]
    cases absorbByte config q x with
    | error e => rfl
    | ok q' => exact ih q'

@[simp] theorem AbsMsg.complete_empty : AbsMsg.empty.complete = false := rfl

theorem openAbs_of_not_complete (done : List AbsMsg) {m : AbsMsg} (hm : m.complete = false) :
    openAbs (done ++ [m]) = (done, m) := by
  simp [openAbs, hm]

theorem openAbs_snd_complete (q : List AbsMsg) : (openAbs q).2.complete = false := by
  unfold openAbs
  split
  · split
    · rfl
    · rename_i hm
      simpa using hm
  · rfl

theorem absorbAll_open (q : List AbsMsg) {bytes : List UInt8} (hne : bytes ≠ []) :
    absorbAll config q bytes =
      absorbAll config ((openAbs q).1 ++ [(openAbs q).2]) bytes := by
  obtain ⟨b, bs, rfl⟩ := List.exists_cons_of_ne_nil hne
  have hopen := openAbs_of_not_complete (openAbs q).1 (openAbs_snd_complete q)
  simp only [absorbAll, absorbByte, hopen]

theorem absorbByte_header (done : List AbsMsg) {m : AbsMsg} (b : UInt8) (hm : m.in_data = false)
    (hshort : (m.hb ++ [b]).length < 24) :
    absorbByte config (done ++ [m]) b = .ok (done ++ [{ m with hb := m.hb ++ [b] }]) := by
  have hnc : m.complete = false := by simp [AbsMsg.complete, hm]
  simp only [absorbByte, openAbs_of_not_complete done hnc, hm, hshort, Bool.false_eq_true,
    if_false, if_true]

theorem absorbByte_data (done : List AbsMsg) {m : AbsMsg} (b : UInt8) (hm : m.in_data = true)
    (hnc : m.complete = false) :
    absorbByte config (done ++ [m]) b = .ok (done ++ [{ m with payload := m.payload ++ [b] }]) := by
  simp only [absorbByte, openAbs_of_not_complete done hnc, hm, if_true]

theorem absorbByte_header_last (done : List AbsMsg) {m : AbsMsg} (b : UInt8)
    (hm : m.in_data = false) (hfull : ¬ (m.hb ++ [b]).length < 24) :
    absorbByte config (done ++ [m]) b =
      if (CMessageHeader.deserialize (m.hb ++ [b])).isOversized config then
        .error (done ++ [{ m with hb := m.hb ++ [b] }])
      else .ok (done ++ [{ m with hb := m.hb ++ [b], in_data := true }]) := by
  have hnc : m.complete = false := by simp [AbsMsg.complete, hm]
  simp only [absorbByte, openAbs_of_not_complete done hnc, hm, hfull, Bool.false_eq_true,
    if_false]

theorem absorbAll_header (done : List AbsMsg) {m : AbsMsg} (hm : m.in_data = false)
    {bytes : List UInt8} (hlen : m.hb.length + bytes.length < 24) :
    absorbAll config (done ++ [m]) bytes = .ok (done ++ [{ m with hb := m.hb ++ bytes }]) := by
  induction bytes generalizing m with
  | nil => simp [absorbAll]
  | cons b bs ih =>
    simp only [List.length_cons] at hlen
    have hstep := @absorbByte_header config done _ b hm
      (by simp only [List.length_append, List.length_singleton]; omega)
    have hrest := @ih { m with hb := m.hb ++ [b] } hm (by simp; omega)
    rw [absorbAll, hstep]
    simp only [bind, Except.bind]
    simpa using hrest

theorem absorbAll_header_last (done : List AbsMsg) {m : AbsMsg} (hm : m.in_data = false)
    {bytes : List UInt8} (hne : bytes ≠ []) (hlen : m.hb.length + bytes.length = 24) :
    absorbAll config (done ++ [m]) bytes =
      if (CMessageHeader.deserialize (m.hb ++ bytes)).isOversized config then
        .error (done ++ [{ m with hb := m.hb ++ bytes }])
      else .ok (done ++ [{ m with hb := m.hb ++ bytes, in_data := true }]) := by
  obtain ⟨init, b, rfl⟩ := (List.eq_nil_or_concat' bytes).resolve_left hne
  have hinit : m.hb.length + init.length < 24 := by simp at hlen; omega
  have hfull : ¬ (m.hb ++ init ++ [b]).length < 24 := by simp at hlen ⊢; omega
  have hlast := @absorbByte_header_last config done { m with hb := m.hb ++ init } b hm hfull
  rw [absorbAll_append, absorbAll_header done hm hinit]
  simp only [bind, Except.bind, absorbAll, hlast, List.append_assoc]
  split_ifs <;> rfl

theorem absorbAll_data (done : List AbsMsg) {m : AbsMsg} (hm : m.in_data = true)
    {bytes : List UInt8}
    (hlen : m.payload.length + bytes.length ≤
      (CMessageHeader.deserialize m.hb).nPayloadLength.toNat) :
    absorbAll config (done ++ [m]) bytes =
      .ok (done ++ [{ m with payload := m.payload ++ bytes }]) := by
  induction bytes generalizing m with
  | nil => simp [absorbAll]
  | cons b bs ih =>
    simp only [List.length_cons] at hlen
    have hnc : m.complete = false := by
      simp only [AbsMsg.complete, hm, Bool.true_and, decide_eq_false_iff_not]
      omega
    have hrest := @ih { m with payload := m.payload ++ [b] } hm (by simp; omega)
    rw [absorbAll, absorbByte_data done b hm hnc]
    simp only [bind, Except.bind]
    simpa using hrest

end Abstract

/-! ### What the loop can go on with -/

/-- A current message the machine can go on with: its header is not full yet, or it was read and
is not oversized. -/
def Live (config : NetConfig) (a : AbsMsg) : Prop :=
  (a.in_data = false → a.hb.length < 24) ∧
    (a.in_data = true → (CMessageHeader.deserialize a.hb).isOversized config = false)

def LiveQueue (config : NetConfig) (q : List AbsMsg) : Prop := ∀ a ∈ q.getLast?, Live config a

/-- A configuration whose limits leave 256 KiB below `2 ^ 32`. -/
def NetConfig.Bounded (config : NetConfig) : Prop :=
  config.maxTxSize + 2 ^ 18 < 2 ^ 32 ∧ config.maxBlockSize + 2 ^ 18 < 2 ^ 32

section Live

variable {config : NetConfig}

theorem live_empty : Live config AbsMsg.empty :=
  ⟨fun _ => by simp [AbsMsg.empty], fun h => nomatch h⟩

theorem liveQueue_concat (done : List AbsMsg) {a : AbsMsg} (h : Live config a) :
    LiveQueue config (done ++ [a]) := by
  intro b hb
  rw [List.getLast?_concat, Option.mem_some_iff] at hb
  exact hb ▸ h

theorem LiveQueue.openAbs {q : List AbsMsg} (h : LiveQueue config q) :
    Live config (openAbs q).2 := by
  unfold TbcNode.Net.openAbs
  split
  · rename_i m hm
    split
    · exact live_empty
    · exact h m hm
  · exact live_empty

theorem NetConfig.Bounded.maxMessageLength (h : config.Bounded) (command : List UInt8) :
    NetMsgType.getMaxMessageLength command config + 2 ^ 18 < 2 ^ 32 := by
  unfold NetMsgType.getMaxMessageLength
  split_ifs
  · decide
  · exact h.1
  · have := h.2
    omega
  · decide
  · exact h.2

theorem payloadLength_bound (h : config.Bounded) {hdr : CMessageHeader}
    (hover : hdr.isOversized config = false) : hdr.nPayloadLength.toNat + 2 ^ 18 < 2 ^ 32 := by
  have hmax := h.maxMessageLength hdr.getCommand
  simp only [CMessageHeader.isOversized, decide_eq_false_iff_not, not_lt] at hover
  omega

end Live

/-! ### How the machine cuts the stream -/

def AbsMsg.bytes (a : AbsMsg) : List UInt8 := a.hb ++ a.payload

/-- A message as the machine builds it: a header of at most 24 bytes, a payload only once the
header is read, and never more payload than the header says. -/
structure AbsMsg.WellFormed (a : AbsMsg) : Prop where
  hb_length : a.hb.length ≤ 24
  header_read : a.in_data = true → a.hb.length = 24
  payload_nil : a.in_data = false → a.payload = []
  payload_le : a.payload.length ≤ (CMessageHeader.deserialize a.hb).nPayloadLength.toNat

/-- A queue that cuts the stream `S` into messages, each of them complete but the last. -/
structure Framed (q : List AbsMsg) (S : List UInt8) : Prop where
  bytes : (q.map AbsMsg.bytes).flatten = S
  complete : ∀ a ∈ q.dropLast, a.complete = true
  wellFormed : ∀ a ∈ q, a.WellFormed

section Framing

variable {config : NetConfig}

theorem framed_nil : Framed [] [] :=
  ⟨rfl, fun _ h => absurd h List.not_mem_nil, fun _ h => absurd h List.not_mem_nil⟩

theorem AbsMsg.wellFormed_empty : AbsMsg.empty.WellFormed :=
  ⟨by simp [AbsMsg.empty], (fun h => nomatch h), fun _ => rfl, Nat.zero_le _⟩

theorem framed_concat {done : List AbsMsg} {m : AbsMsg} {S : List UInt8}
    (hbytes : (done.map AbsMsg.bytes).flatten ++ m.bytes = S)
    (hc : ∀ a ∈ done, a.complete = true) (hwf : ∀ a ∈ done, a.WellFormed) (hm : m.WellFormed) :
    Framed (done ++ [m]) S where
  bytes := by simpa using hbytes
  complete := by
    rw [List.dropLast_concat]
    exact hc
  wellFormed := by
    intro a ha
    rcases List.mem_append.mp ha with ha | ha
    · exact hwf a ha
    · rw [List.mem_singleton] at ha
      exact ha ▸ hm

theorem Framed.openAbs {q : List AbsMsg} {S : List UInt8} (h : Framed q S) :
    ((openAbs q).1.map AbsMsg.bytes).flatten ++ (openAbs q).2.bytes = S ∧
      (∀ a ∈ (openAbs q).1, a.complete = true) ∧ (∀ a ∈ (openAbs q).1, a.WellFormed) ∧
      (openAbs q).2.WellFormed := by
  rcases List.eq_nil_or_concat' q with rfl | ⟨done, m, rfl⟩
  · refine ⟨h.bytes, fun _ h => absurd h List.not_mem_nil, fun _ h => absurd h List.not_mem_nil,
      AbsMsg.wellFormed_empty⟩
  have hdone : ∀ a ∈ done, a.complete = true := by
    have := h.complete
    rwa [List.dropLast_concat] at this
  have hwf : ∀ a ∈ done ++ [m], a.WellFormed := h.wellFormed
  have hbytes := h.bytes
  simp only [List.map_append, List.map_singleton, List.flatten_append, List.flatten_singleton]
    at hbytes
  simp only [TbcNode.Net.openAbs, List.getLast?_concat]
  split
  · rename_i hm
    refine ⟨by simpa [AbsMsg.bytes, AbsMsg.empty] using hbytes, fun a ha => ?_, hwf,
      AbsMsg.wellFormed_empty⟩
    rcases List.mem_append.mp ha with ha | ha
    · exact hdone a ha
    · rw [List.mem_singleton] at ha
      exact ha ▸ hm
  · rw [List.dropLast_concat]
    exact ⟨hbytes, hdone, fun a ha => hwf a (List.mem_append_left _ ha),
      hwf m (List.mem_append_right _ (List.mem_singleton_self m))⟩

theorem absorbByte_extends (q : List AbsMsg) (b : UInt8) (hwf : (openAbs q).2.WellFormed)
    (hlive : Live config (openAbs q).2) :
    ∃ m', m'.bytes = (openAbs q).2.bytes ++ [b] ∧ m'.WellFormed ∧
      ((absorbByte config q b = .ok ((openAbs q).1 ++ [m']) ∧ Live config m') ∨
        absorbByte config q b = .error ((openAbs q).1 ++ [m'])) := by
  have hnc := openAbs_snd_complete q
  obtain ⟨⟨done, m⟩, hcur⟩ : ∃ cur, openAbs q = cur := ⟨_, rfl⟩
  rw [hcur] at hwf hlive hnc ⊢
  dsimp only at hwf hlive hnc ⊢
  simp only [absorbByte, hcur]
  split_ifs with hin hshort hover
  · have hlt : m.payload.length < (CMessageHeader.deserialize m.hb).nPayloadLength.toNat := by
      simp only [AbsMsg.complete, hin, Bool.true_and, decide_eq_false_iff_not] at hnc
      exact Nat.lt_of_le_of_ne hwf.payload_le (Ne.symm hnc)
    refine ⟨{ m with payload := m.payload ++ [b] }, by simp [AbsMsg.bytes],
      ⟨hwf.hb_length, hwf.header_read, (fun h => nomatch hin.symm.trans h), ?_⟩,
      Or.inl ⟨rfl, hlive⟩⟩
    simp only [List.length_append, List.length_singleton]
    omega
  · have hin' : m.in_data = false := by simpa using hin
    refine ⟨{ m with hb := m.hb ++ [b] }, by simp [AbsMsg.bytes, hwf.payload_nil hin'],
      ⟨Nat.le_of_lt hshort, (fun h => nomatch hin'.symm.trans h), hwf.payload_nil,
        by simp [hwf.payload_nil hin']⟩,
      Or.inl ⟨rfl, fun _ => hshort, (fun h => nomatch hin'.symm.trans h)⟩⟩
  · have hin' : m.in_data = false := by simpa using hin
    have h24 : (m.hb ++ [b]).length = 24 := by
      have := hlive.1 hin'
      simp only [List.length_append, List.length_singleton] at hshort ⊢
      omega
    refine ⟨{ m with hb := m.hb ++ [b] }, by simp [AbsMsg.bytes, hwf.payload_nil hin'],
      ⟨Nat.le_of_eq h24, (fun h => nomatch hin'.symm.trans h), hwf.payload_nil,
        by simp [hwf.payload_nil hin']⟩, Or.inr rfl⟩
  · have hin' : m.in_data = false := by simpa using hin
    have h24 : (m.hb ++ [b]).length = 24 := by
      have := hlive.1 hin'
      simp only [List.length_append, List.length_singleton] at hshort ⊢
      omega
    refine ⟨{ m with hb := m.hb ++ [b], in_data := true },
      by simp [AbsMsg.bytes, hwf.payload_nil hin'],
      ⟨Nat.le_of_eq h24, fun _ => h24, (fun h => nomatch h), by simp [hwf.payload_nil hin']⟩,
      Or.inl ⟨rfl, (fun h => nomatch h), fun _ => by simpa using hover⟩⟩

/-- The step of the machine on a queue that cuts a stream. -/
theorem Framed.absorbByte {q : List AbsMsg} {S : List UInt8} (h : Framed q S)
    (hlive : LiveQueue config q) (b : UInt8) :
    (∀ q', absorbByte config q b = .ok q' → Framed q' (S ++ [b]) ∧ LiveQueue config q') ∧
      ∀ q', absorbByte config q b = .error q' → Framed q' (S ++ [b]) := by
  obtain ⟨hbytes, hc, hwf, hm⟩ := h.openAbs
  obtain ⟨m', hm'bytes, hm'wf, hstep⟩ := absorbByte_extends q b hm hlive.openAbs
  have hframed : Framed ((TbcNode.Net.openAbs q).1 ++ [m']) (S ++ [b]) :=
    framed_concat (by rw [hm'bytes, ← List.append_assoc, hbytes]) hc hwf hm'wf
  rcases hstep with ⟨hok, hl⟩ | herr
  · refine ⟨fun q' hq' => ?_, fun q' hq' => (nomatch hok.symm.trans hq')⟩
    obtain rfl := Except.ok.inj (hok.symm.trans hq')
    exact ⟨hframed, liveQueue_concat _ hl⟩
  · refine ⟨(fun q' hq' => nomatch herr.symm.trans hq'), fun q' hq' => ?_⟩
    obtain rfl := Except.error.inj (herr.symm.trans hq')
    exact hframed

/-- The machine cuts the stream it takes into messages, each complete but the last; stopped at an
oversized header, it has cut what it took up to there. -/
theorem absorbAll_framed {q : List AbsMsg} {S : List UInt8} (h : Framed q S)
    (hlive : LiveQueue config q) (bs : List UInt8) :
    (∀ q', absorbAll config q bs = .ok q' → Framed q' (S ++ bs) ∧ LiveQueue config q') ∧
      ∀ q', absorbAll config q bs = .error q' → ∃ c ≤ bs.length, Framed q' (S ++ bs.take c) := by
  induction bs generalizing q S with
  | nil =>
    refine ⟨fun q' hq' => ?_, fun q' hq' => (nomatch hq')⟩
    obtain rfl := Except.ok.inj hq'
    exact ⟨by simpa using h, hlive⟩
  | cons b bs ih =>
    obtain ⟨hok, herr⟩ := h.absorbByte hlive b
    cases hq : absorbByte config q b with
    | ok q1 =>
      obtain ⟨h1, hl1⟩ := hok q1 hq
      obtain ⟨ihok, iherr⟩ := ih h1 hl1
      simp only [absorbAll, hq, bind, Except.bind]
      refine ⟨fun q' hq' => by simpa using ihok q' hq', fun q' hq' => ?_⟩
      obtain ⟨c, hc, hframed⟩ := iherr q' hq'
      exact ⟨c + 1, by simp; omega, by simpa using hframed⟩
    | error q1 =>
      simp only [absorbAll, hq, bind, Except.bind]
      refine ⟨(fun q' hq' => nomatch hq'), fun q' hq' => ?_⟩
      obtain rfl := Except.error.inj hq'
      exact ⟨1, by simp, by simpa using herr q1 hq⟩

end Framing

/-! ### Messages as the bytes they received -/

theorem memcpy_append_replicate (l src : List UInt8) (k : Nat) :
    memcpy (l ++ List.replicate k 0) l.length src = l ++ src ++ List.replicate (k - src.length) 0 := by
  rw [memcpy, List.take_left, List.drop_length_add_append, List.drop_replicate]

theorem resize_append_replicate (l : List UInt8) (k : Nat) {n : Nat} (hn : l.length ≤ n) :
    resize (l ++ List.replicate k 0) n 0 = l ++ List.replicate (n - l.length) 0 := by
  rw [resize, List.take_append, List.take_of_length_le hn, List.take_replicate, List.append_assoc,
    List.length_append, List.length_replicate, ← List.replicate_add]
  congr 2
  omega

section Represent

variable (compress : Vector UInt32 8 → List UInt8 → Vector UInt32 8)

/-- A `CNetMessage` holds what an abstract message received: the header bytes with zeros after
them, the header once it is read, the payload with zeros after it, and a hasher that has been
written the payload. -/
structure MsgRep (pchMessageStart : List UInt8) (m : CNetMessage) (a : AbsMsg) : Prop where
  in_data : m.in_data = a.in_data
  hb_length : a.hb.length ≤ 24
  hdrbuf : m.hdrbuf = a.hb ++ List.replicate (24 - a.hb.length) 0
  nHdrPos : m.nHdrPos.toNat = a.hb.length
  hdr : m.hdr = a.hdr pchMessageStart
  header_read : a.in_data = true → a.hb.length = 24
  payload_nil : a.in_data = false → a.payload = []
  nDataPos : m.nDataPos.toNat = a.payload.length
  payload_le : a.payload.length ≤ (a.hdr pchMessageStart).nPayloadLength.toNat
  vRecv : ∃ k, m.vRecv = a.payload ++ List.replicate k 0
  hasher : CSHA256.Invariant compress a.payload m.hasher

def QueueRep (pchMessageStart : List UInt8) (qc : List CNetMessage) (qa : List AbsMsg) : Prop :=
  List.Forall₂ (MsgRep compress pchMessageStart) qc qa

/-- What a `CNetMessage` received: the bytes of its header and of its payload. -/
def CNetMessage.view (m : CNetMessage) : AbsMsg :=
  ⟨m.hdrbuf.take m.nHdrPos.toNat, m.vRecv.take m.nDataPos.toNat, m.in_data⟩

variable {compress} {pchMessageStart : List UInt8}

theorem msgRep_init (pchMessageStart : List UInt8) :
    MsgRep compress pchMessageStart (CNetMessage.init pchMessageStart) AbsMsg.empty where
  in_data := rfl
  hb_length := by simp [AbsMsg.empty]
  hdrbuf := rfl
  nHdrPos := rfl
  hdr := by simp [AbsMsg.hdr, AbsMsg.empty, CNetMessage.init]
  header_read := fun h => absurd h Bool.false_ne_true
  payload_nil := fun _ => rfl
  nDataPos := rfl
  payload_le := Nat.zero_le _
  vRecv := ⟨0, rfl⟩
  hasher := CSHA256.invariant_init (by simp)

theorem MsgRep.view_eq {m : CNetMessage} {a : AbsMsg} (h : MsgRep compress pchMessageStart m a) :
    m.view = a := by
  obtain ⟨k, hk⟩ := h.vRecv
  rcases a with ⟨hb, payload, in_data⟩
  simp only [CNetMessage.view, h.hdrbuf, h.nHdrPos, hk, h.nDataPos, h.in_data, List.take_left]

theorem MsgRep.hdr_of_in_data {m : CNetMessage} {a : AbsMsg}
    (h : MsgRep compress pchMessageStart m a) (hin : a.in_data = true) :
    m.hdr = CMessageHeader.deserialize a.hb := by
  rw [h.hdr, AbsMsg.hdr, if_pos (h.header_read hin)]

theorem MsgRep.complete_eq {m : CNetMessage} {a : AbsMsg}
    (h : MsgRep compress pchMessageStart m a) : m.complete = a.complete := by
  unfold CNetMessage.complete AbsMsg.complete
  rw [h.in_data]
  cases hin : a.in_data with
  | false => rfl
  | true =>
    rw [h.hdr_of_in_data hin, ← h.nDataPos]
    rw [Bool.true_and, Bool.true_and, Bool.eq_iff_iff, beq_iff_eq, decide_eq_true_iff]
    exact UInt32.toNat_inj.symm

theorem MsgRep.getMessageHash {m : CNetMessage} {a : AbsMsg}
    (h : MsgRep compress pchMessageStart m a) (hc : a.complete = true) :
    m.getMessageHash compress = .ok (sha256 compress (sha256 compress a.payload)) := by
  have hdigest := CSHA256.finalize_spec h.hasher
  have hagain := CSHA256.write_spec (@CSHA256.invariant_init compress _ h.hasher.buf_length)
    (m.hasher.finalize compress)
  rw [List.nil_append] at hagain
  rw [CNetMessage.getMessageHash, if_pos (h.complete_eq.trans hc), CNetMessage.chash256Finalize,
    CSHA256.finalize_spec hagain, hdigest]

theorem forall₂_append_singleton_right {α β : Type} {R : α → β → Prop} {l : List α}
    {l' : List β} {b : β} (h : List.Forall₂ R l (l' ++ [b])) :
    ∃ l₀ a, l = l₀ ++ [a] ∧ List.Forall₂ R l₀ l' ∧ R a b := by
  have htake := List.forall₂_take_append l l' [b] h
  have hdrop := List.forall₂_drop_append l l' [b] h
  rcases hdrop' : l.drop l'.length with _ | ⟨a, rest⟩
  · rw [hdrop'] at hdrop
    cases hdrop
  · rw [hdrop'] at hdrop
    obtain ⟨hab, hrest⟩ := List.forall₂_cons.mp hdrop
    obtain rfl := List.forall₂_nil_right_iff.mp hrest
    exact ⟨l.take l'.length, a, by rw [← hdrop', List.take_append_drop], htake, hab⟩

theorem openMessage_rep {qc : List CNetMessage} {qa : List AbsMsg}
    (h : QueueRep compress pchMessageStart qc qa) :
    QueueRep compress pchMessageStart (openMessage pchMessageStart qc).1 (openAbs qa).1 ∧
      MsgRep compress pchMessageStart (openMessage pchMessageStart qc).2 (openAbs qa).2 := by
  rcases List.eq_nil_or_concat' qa with rfl | ⟨qa', a, rfl⟩
  · obtain rfl := List.forall₂_nil_right_iff.mp h
    exact ⟨List.Forall₂.nil, msgRep_init pchMessageStart⟩
  · obtain ⟨qc', m, rfl, h', hm⟩ := forall₂_append_singleton_right h
    simp only [openMessage, openAbs, List.getLast?_concat, hm.complete_eq]
    split
    · exact ⟨h, msgRep_init pchMessageStart⟩
    · simp only [List.dropLast_concat]
      exact ⟨h', hm⟩

theorem MsgRep.header_step {m : CNetMessage} {a : AbsMsg}
    (h : MsgRep compress pchMessageStart m a) (hin : a.in_data = false) {bytes : List UInt8}
    (hlen : a.hb.length + bytes.length ≤ 24) {hdrbuf : List UInt8} {nHdrPos : UInt32}
    {hdr : CMessageHeader} {in_data : Bool}
    (hbuf : hdrbuf = a.hb ++ bytes ++ List.replicate (24 - (a.hb.length + bytes.length)) 0)
    (hpos : nHdrPos.toNat = a.hb.length + bytes.length)
    (hhdr : hdr = AbsMsg.hdr pchMessageStart { a with hb := a.hb ++ bytes })
    (hdata : in_data = true → a.hb.length + bytes.length = 24) :
    MsgRep compress pchMessageStart { m with hdrbuf, nHdrPos, hdr, in_data }
      { a with hb := a.hb ++ bytes, in_data } := by
  have hnil := h.payload_nil hin
  obtain ⟨k, hk⟩ := h.vRecv
  exact {
    in_data := rfl
    hb_length := by simpa using hlen
    hdrbuf := by simpa using hbuf
    nHdrPos := by simpa using hpos
    hdr := hhdr
    header_read := fun hd => by simpa using hdata hd
    payload_nil := fun _ => hnil
    nDataPos := h.nDataPos
    payload_le := by simp [hnil]
    vRecv := ⟨k, hk⟩
    hasher := h.hasher }

theorem MsgRep.data_step {m : CNetMessage} {a : AbsMsg}
    (h : MsgRep compress pchMessageStart m a) (hin : a.in_data = true) {bytes : List UInt8}
    (hlen : a.payload.length + bytes.length ≤ (a.hdr pchMessageStart).nPayloadLength.toNat)
    {vRecv : List UInt8} {nDataPos : UInt32}
    (hv : ∃ k, vRecv = a.payload ++ bytes ++ List.replicate k 0)
    (hpos : nDataPos.toNat = a.payload.length + bytes.length) :
    MsgRep compress pchMessageStart
      { m with hasher := m.hasher.write compress bytes, vRecv, nDataPos }
      { a with payload := a.payload ++ bytes } := by
  obtain ⟨k, hk⟩ := hv
  exact {
    in_data := h.in_data
    hb_length := h.hb_length
    hdrbuf := h.hdrbuf
    nHdrPos := h.nHdrPos
    hdr := h.hdr
    header_read := h.header_read
    payload_nil := fun hd => nomatch hin.symm.trans hd
    nDataPos := by simpa using hpos
    payload_le := by simpa [AbsMsg.hdr] using hlen
    vRecv := ⟨k, by simpa using hk⟩
    hasher := CSHA256.write_spec h.hasher bytes }

variable (compress) in
/-- One read of the loop against the machine on the bytes it took: either the machine stops on them
at a header and the read returned a negative count, or the machine takes the bytes counted, at
least one, and can go on. -/
def ReadSim (config : NetConfig) (pchMessageStart : List UInt8) (done : List AbsMsg) (a : AbsMsg)
    (pch : List UInt8) (r : Int × CNetMessage) : Prop :=
  ∃ a', MsgRep compress pchMessageStart r.2 a' ∧
    ((r.1 < 0 ∧ a.in_data = false ∧
        ∃ c ≤ pch.length, absorbAll config (done ++ [a]) (pch.take c) = .error (done ++ [a'])) ∨
      (0 < r.1 ∧ r.1 ≤ pch.length ∧
        absorbAll config (done ++ [a]) (pch.take r.1.toNat) = .ok (done ++ [a']) ∧
        Live config a'))

theorem readHeader_sim (config : NetConfig) (done : List AbsMsg) {m : CNetMessage} {a : AbsMsg}
    (h : MsgRep compress pchMessageStart m a) (hin : a.in_data = false)
    (hshort : a.hb.length < 24) {pch : List UInt8} (hne : pch ≠ []) (hlen : pch.length < 2 ^ 32) :
    ReadSim compress config pchMessageStart done a pch
      (m.readHeader config pch (UInt32.ofNat pch.length)) := by
  have hpch : 0 < pch.length := List.length_pos_of_ne_nil hne
  obtain ⟨c, hc⟩ : ∃ c, c = min (24 - a.hb.length) pch.length := ⟨_, rfl⟩
  have hrem : (24 - m.nHdrPos).toNat = 24 - a.hb.length := by
    rw [UInt32.toNat_sub_of_le _ _ (UInt32.le_iff_toNat_le.mpr (by rw [h.nHdrPos]; simp; omega)),
      h.nHdrPos]
    rfl
  have hcopy : (min (24 - m.nHdrPos) (UInt32.ofNat pch.length)).toNat = c := by
    rw [UInt32.toNat_min, hrem, UInt32.toNat_ofNat_of_lt' hlen, hc]
  have hnext : (m.nHdrPos + min (24 - m.nHdrPos) (UInt32.ofNat pch.length)).toNat =
      a.hb.length + c := by
    rw [UInt32.toNat_add, h.nHdrPos, hcopy, Nat.mod_eq_of_lt (by omega)]
  have htake : (pch.take c).length = c := by simp only [List.length_take]; omega
  have hbuf : memcpy m.hdrbuf m.nHdrPos.toNat (pch.take c) =
      a.hb ++ pch.take c ++ List.replicate (24 - (a.hb.length + (pch.take c).length)) 0 := by
    rw [h.hdrbuf, h.nHdrPos, memcpy_append_replicate, htake]
    congr 2
    omega
  have hnot : a.in_data = true → False := fun hd => nomatch hin.symm.trans hd
  unfold CNetMessage.readHeader
  dsimp only
  rw [hcopy, h.in_data]
  by_cases hfull : a.hb.length + c < 24
  · have hlt : m.nHdrPos + min (24 - m.nHdrPos) (UInt32.ofNat pch.length) < 24 := by
      rw [UInt32.lt_iff_toNat_lt, hnext]
      exact hfull
    rw [if_pos hlt]
    have hhdr : m.hdr = AbsMsg.hdr pchMessageStart ⟨a.hb ++ pch.take c, a.payload, a.in_data⟩ := by
      rw [h.hdr]
      simp only [AbsMsg.hdr, List.length_append, htake]
      rw [if_neg (by omega), if_neg (by omega)]
    refine ⟨⟨a.hb ++ pch.take c, a.payload, a.in_data⟩,
      h.header_step hin (by omega) hbuf (by rw [hnext, htake]) hhdr (fun hd => (hnot hd).elim),
      Or.inr ⟨by omega, by omega, ?_,
        ⟨fun _ => by simp only [List.length_append, htake]; omega, fun hd => (hnot hd).elim⟩⟩⟩
    simpa using @absorbAll_header config done _ hin _ (by rw [htake]; exact hfull)
  · have hnlt : ¬ m.nHdrPos + min (24 - m.nHdrPos) (UInt32.ofNat pch.length) < 24 := by
      rw [UInt32.lt_iff_toNat_lt, hnext]
      exact hfull
    have h24 : a.hb.length + (pch.take c).length = 24 := by omega
    have hbuf24 : memcpy m.hdrbuf m.nHdrPos.toNat (pch.take c) = a.hb ++ pch.take c := by
      rw [hbuf, h24, Nat.sub_self, List.replicate_zero, List.append_nil]
    have hhdr : CMessageHeader.deserialize (a.hb ++ pch.take c) =
        AbsMsg.hdr pchMessageStart ⟨a.hb ++ pch.take c, a.payload, a.in_data⟩ := by
      rw [AbsMsg.hdr, if_pos (by simpa using h24)]
    have hne' : pch.take c ≠ [] := by
      intro hnil
      rw [hnil] at htake
      simp at htake
      omega
    have hlast := @absorbAll_header_last config done _ hin _ hne' h24
    rw [if_neg hnlt, hbuf24]
    by_cases hover : (CMessageHeader.deserialize (a.hb ++ pch.take c)).isOversized config = true
    · rw [if_pos hover]
      rw [if_pos hover] at hlast
      exact ⟨⟨a.hb ++ pch.take c, a.payload, a.in_data⟩,
        h.header_step hin (by omega) (by rw [h24]; simp) (by rw [hnext, htake]) hhdr
          (fun hd => (hnot hd).elim),
        Or.inl ⟨by simp, hin, c, by omega, hlast⟩⟩
    · rw [if_neg hover]
      rw [if_neg hover] at hlast
      refine ⟨⟨a.hb ++ pch.take c, a.payload, true⟩,
        h.header_step hin (by omega) (by rw [h24]; simp) (by rw [hnext, htake]) hhdr
          (fun _ => h24),
        Or.inr ⟨by omega, by omega, by simpa using hlast,
          ⟨(fun hd => nomatch (show true = false from hd)), fun _ => by simpa using hover⟩⟩⟩

theorem toInt32_toInt_of_lt {n : UInt32} (h : n.toNat < 2 ^ 31) : n.toInt32.toInt = n.toNat := by
  have hbv : n.toInt32.toInt = n.toBitVec.toInt := rfl
  rw [hbv, BitVec.toInt_eq_toNat_cond, UInt32.toNat_toBitVec, if_pos (by omega)]

theorem MsgRep.growRecv {m : CNetMessage} {a : AbsMsg} (h : MsgRep compress pchMessageStart m a)
    {nCopy : UInt32} {c P : Nat} (hcopy : nCopy.toNat = c) (hP : m.hdr.nPayloadLength.toNat = P)
    (hfit : a.payload.length + c ≤ P) (hbound : P + 2 ^ 18 < 2 ^ 32) :
    ∃ k, m.growRecv nCopy = a.payload ++ List.replicate k 0 ∧ c ≤ k := by
  obtain ⟨k, hk⟩ := h.vRecv
  have hend : (m.nDataPos + nCopy).toNat = a.payload.length + c := by
    rw [UInt32.toNat_add, h.nDataPos, hcopy, Nat.mod_eq_of_lt (by omega)]
  have hahead : (m.nDataPos + nCopy + 256 * 1024).toNat = a.payload.length + c + 2 ^ 18 := by
    rw [UInt32.toNat_add, hend, Nat.mod_eq_of_lt (by simp; omega)]
    rfl
  unfold CNetMessage.growRecv
  rw [hk, hend]
  split_ifs with hgrow
  · rw [UInt32.toNat_min, hP, hahead, resize_append_replicate _ _ (by omega)]
    exact ⟨_, rfl, by omega⟩
  · refine ⟨k, rfl, ?_⟩
    simp only [List.length_append, List.length_replicate] at hgrow
    omega

theorem readData_sim (config : NetConfig) (done : List AbsMsg) {m : CNetMessage} {a : AbsMsg}
    (h : MsgRep compress pchMessageStart m a) (hin : a.in_data = true) (hnc : a.complete = false)
    (hlive : Live config a) (hcfg : config.Bounded) {pch : List UInt8} (hne : pch ≠ [])
    (hlen : pch.length < 2 ^ 31) :
    ∃ r, m.readData compress pch (UInt32.ofNat pch.length) = .ok r ∧
      ReadSim compress config pchMessageStart done a pch r := by
  have hpch : 0 < pch.length := List.length_pos_of_ne_nil hne
  have hhdr := h.hdr_of_in_data hin
  obtain ⟨P, hP⟩ : ∃ P, P = (CMessageHeader.deserialize a.hb).nPayloadLength.toNat := ⟨_, rfl⟩
  have hle : a.payload.length ≤ P := by
    have := h.payload_le
    rw [AbsMsg.hdr, if_pos (h.header_read hin)] at this
    omega
  have hlt : a.payload.length < P := by
    simp only [AbsMsg.complete, hin, Bool.true_and, decide_eq_false_iff_not] at hnc
    omega
  have hbound : P + 2 ^ 18 < 2 ^ 32 := hP ▸ payloadLength_bound hcfg (hlive.2 hin)
  obtain ⟨c, hc⟩ : ∃ c, c = min (P - a.payload.length) pch.length := ⟨_, rfl⟩
  have hrem : (m.hdr.nPayloadLength - m.nDataPos).toNat = P - a.payload.length := by
    rw [UInt32.toNat_sub_of_le _ _ (UInt32.le_iff_toNat_le.mpr (by rw [h.nDataPos, hhdr]; omega)),
      h.nDataPos, hhdr, hP]
  have hcopy : (min (m.hdr.nPayloadLength - m.nDataPos) (UInt32.ofNat pch.length)).toNat = c := by
    rw [UInt32.toNat_min, hrem, UInt32.toNat_ofNat_of_lt' (Nat.lt_trans hlen (by decide)), hc]
  have hend : (m.nDataPos + min (m.hdr.nPayloadLength - m.nDataPos)
      (UInt32.ofNat pch.length)).toNat = a.payload.length + c := by
    rw [UInt32.toNat_add, h.nDataPos, hcopy, Nat.mod_eq_of_lt (by omega)]
  have htake : (pch.take c).length = c := by simp only [List.length_take]; omega
  obtain ⟨k, hgrow, hk⟩ := h.growRecv hcopy (by rw [hhdr, hP]) (by omega) hbound
  have hint := toInt32_toInt_of_lt (n := min (m.hdr.nPayloadLength - m.nDataPos)
    (UInt32.ofNat pch.length)) (by omega)
  have hroom : m.nDataPos.toNat + c ≤ (a.payload ++ List.replicate k 0).length := by
    simp only [List.length_append, List.length_replicate, h.nDataPos]
    omega
  unfold CNetMessage.readData
  dsimp only
  rw [hgrow, hint, hcopy, if_pos hroom]
  refine ⟨_, rfl, ⟨a.hb, a.payload ++ pch.take c, a.in_data⟩,
    h.data_step hin (by rw [AbsMsg.hdr, if_pos (h.header_read hin), htake]; omega) ?_
      (by rw [hend, htake]),
    Or.inr ⟨by omega, by omega, ?_, ⟨(fun hd => nomatch hin.symm.trans hd), hlive.2⟩⟩⟩
  · rw [h.nDataPos, memcpy_append_replicate]
    exact ⟨_, rfl⟩
  · simpa using @absorbAll_data config done _ hin _ (by rw [htake, ← hP]; omega)

theorem read_sim (config : NetConfig) (done : List AbsMsg) {m : CNetMessage} {a : AbsMsg}
    (h : MsgRep compress pchMessageStart m a) (hnc : a.complete = false) (hlive : Live config a)
    (hcfg : config.Bounded) {pch : List UInt8} (hne : pch ≠ []) (hlen : pch.length < 2 ^ 31) :
    ∃ r, m.absorb compress config pch (UInt32.ofNat pch.length) = .ok r ∧
      ReadSim compress config pchMessageStart done a pch r := by
  rw [CNetMessage.absorb, h.in_data]
  cases hin : a.in_data with
  | false =>
    exact ⟨_, rfl,
      readHeader_sim config done h hin (hlive.1 hin) hne (Nat.lt_trans hlen (by decide))⟩
  | true =>
    simp only [Bool.not_true, Bool.false_eq_true, ↓reduceIte]
    exact readData_sim config done h hin hnc hlive hcfg hne hlen

theorem MsgRep.not_oversized {config : NetConfig} {m : CNetMessage} {a : AbsMsg}
    (h : MsgRep compress pchMessageStart m a) (hlive : Live config a) :
    isOversizedMessage config m = false := by
  unfold isOversizedMessage
  rw [h.in_data]
  cases hin : a.in_data with
  | false => rfl
  | true =>
    rw [Bool.true_and, h.hdr_of_in_data hin]
    exact hlive.2 hin

variable (compress) in
/-- What a receive returns against where the byte machine ends: `RECV_OK` with the queue it ends
with, which it can go on from, or `RECV_BAD_LENGTH` with the queue it stops with at an oversized
header. -/
def RecvSim (config : NetConfig) (pchMessageStart : List UInt8)
    (machine : Except (List AbsMsg) (List AbsMsg))
    (res : Except String (RECV_STATUS × List CNetMessage)) : Prop :=
  match machine with
  | .ok qa => ∃ qc, res = .ok (.RECV_OK, qc) ∧ QueueRep compress pchMessageStart qc qa ∧
      LiveQueue config qa
  | .error qa => ∃ qc, res = .ok (.RECV_BAD_LENGTH, qc) ∧ QueueRep compress pchMessageStart qc qa

theorem receiveLoop_simulates (config : NetConfig) (hcfg : config.Bounded) (fuel : Nat)
    {qc : List CNetMessage} {qa : List AbsMsg} (h : QueueRep compress pchMessageStart qc qa)
    (hlive : LiveQueue config qa) (pch : List UInt8) (hfuel : pch.length < fuel)
    (hlen : pch.length < 2 ^ 31) (complete : Bool) :
    RecvSim compress config pchMessageStart (absorbAll config qa pch)
      ((receiveLoop compress config pchMessageStart fuel qc pch complete).map
        fun r => (r.1, r.2.1)) := by
  induction fuel generalizing qc qa pch complete with
  | zero => exact absurd hfuel (Nat.not_lt_zero _)
  | succ fuel ih =>
    by_cases hpch : pch = []
    · subst hpch
      exact ⟨qc, rfl, h, hlive⟩
    obtain ⟨hq, hm⟩ := openMessage_rep h
    obtain ⟨r, hr, a', hrep, hsim⟩ := read_sim config (openAbs qa).1 hm (openAbs_snd_complete qa)
      hlive.openAbs hcfg hpch hlen
    have hqueue : QueueRep compress pchMessageStart ((openMessage pchMessageStart qc).1 ++ [r.2])
        ((openAbs qa).1 ++ [a']) := List.rel_append hq (List.Forall₂.cons hrep List.Forall₂.nil)
    rw [absorbAll_open qa hpch, receiveLoop, if_pos (List.length_pos_of_ne_nil hpch)]
    dsimp only
    rw [hr]
    simp only [bind, Except.bind]
    rcases hsim with ⟨hneg, hin, c, hc, habs⟩ | ⟨hpos, hle, habs, hlive'⟩
    · have hstop : absorbAll config ((openAbs qa).1 ++ [(openAbs qa).2]) pch =
          .error ((openAbs qa).1 ++ [a']) := by
        rw [← List.take_append_drop c pch, absorbAll_append, habs]
        rfl
      rw [hstop, hm.in_data, hin, if_pos (by simp [hneg])]
      exact ⟨_, rfl, hqueue⟩
    · have hrest : absorbAll config ((openAbs qa).1 ++ [(openAbs qa).2]) pch =
          absorbAll config ((openAbs qa).1 ++ [a']) (pch.drop r.1.toNat) := by
        conv_lhs => rw [← List.take_append_drop r.1.toNat pch]
        rw [absorbAll_append, habs]
        rfl
      have hnneg : ¬ r.1 < 0 := by omega
      rw [hrest, if_neg (by simp [hnneg]), if_neg hnneg, hrep.not_oversized hlive',
        if_neg Bool.false_ne_true]
      have hdrop : (pch.drop r.1.toNat).length < pch.length := by
        rw [List.length_drop]
        have := List.length_pos_of_ne_nil hpch
        omega
      exact ih hqueue (liveQueue_concat _ hlive') _ (by omega) (by omega) _

/-- `ReceiveMsgBytes` on a chunk that fits an `int` runs the byte machine over it. -/
theorem receiveMsgBytes_simulates (config : NetConfig) (hcfg : config.Bounded)
    {qc : List CNetMessage} {qa : List AbsMsg} (h : QueueRep compress pchMessageStart qc qa)
    (hlive : LiveQueue config qa) (pch : List UInt8) (hlen : pch.length < 2 ^ 31) :
    RecvSim compress config pchMessageStart (absorbAll config qa pch)
      ((receiveMsgBytes compress config pchMessageStart qc pch).map fun r => (r.1, r.2.1)) :=
  receiveLoop_simulates config hcfg _ h hlive pch (Nat.lt_succ_self _) hlen false

theorem exists_of_map_eq_ok {ε α β : Type} {f : α → β} {x : Except ε α} {b : β}
    (h : x.map f = .ok b) : ∃ a, x = .ok a ∧ f a = b := by
  cases x with
  | error e => cases h
  | ok a => exact ⟨a, rfl, Except.ok.inj h⟩

theorem receiveChunks_simulates (config : NetConfig) (hcfg : config.Bounded)
    (chunks : List (List UInt8)) (hchunks : ∀ c ∈ chunks, c.length < 2 ^ 31)
    {qc : List CNetMessage} {qa : List AbsMsg} (h : QueueRep compress pchMessageStart qc qa)
    (hlive : LiveQueue config qa) :
    RecvSim compress config pchMessageStart (absorbAll config qa chunks.flatten)
      (receiveChunks compress config pchMessageStart qc chunks) := by
  induction chunks generalizing qc qa with
  | nil => exact ⟨qc, rfl, h, hlive⟩
  | cons c cs ih =>
    have hstep := receiveMsgBytes_simulates config hcfg h hlive c
      (hchunks c List.mem_cons_self)
    rw [List.flatten_cons, absorbAll_append]
    cases habs : absorbAll config qa c with
    | ok qa1 =>
      rw [habs] at hstep
      obtain ⟨qc1, hres, hrep1, hlive1⟩ := hstep
      obtain ⟨r, hr, hr1⟩ := exists_of_map_eq_ok hres
      simp only [Prod.mk.injEq] at hr1
      rw [receiveChunks, hr]
      simp only [bind, Except.bind, hr1.1, ↓reduceIte, hr1.2]
      exact ih (fun c' hc' => hchunks c' (List.mem_cons_of_mem c hc')) hrep1 hlive1
    | error qa1 =>
      rw [habs] at hstep
      obtain ⟨qc1, hres, hrep1⟩ := hstep
      obtain ⟨r, hr, hr1⟩ := exists_of_map_eq_ok hres
      simp only [Prod.mk.injEq] at hr1
      rw [receiveChunks, hr]
      simp only [bind, Except.bind, hr1.1, reduceCtorEq, ↓reduceIte, hr1.2]
      exact ⟨qc1, rfl, hrep1⟩

variable (compress) in
/-- What the code that reads the queue sees of a message: its phase, its header buffer, header and
positions, the payload it received and its hash; not how far `vRecv` grew past the payload, nor the
words of the hasher. -/
def CNetMessage.shown (m : CNetMessage) :
    Bool × List UInt8 × CMessageHeader × UInt32 × UInt32 × List UInt8 × Except String (List UInt8) :=
  (m.in_data, m.hdrbuf, m.hdr, m.nHdrPos, m.nDataPos, m.vRecv.take m.nDataPos.toNat,
    m.getMessageHash compress)

theorem MsgRep.getMessageHash_of_not_complete {m : CNetMessage} {a : AbsMsg}
    (h : MsgRep compress pchMessageStart m a) (hc : a.complete = false) :
    m.getMessageHash compress = .error "assert(complete())" := by
  rw [CNetMessage.getMessageHash, if_neg (by rw [h.complete_eq, hc]; exact Bool.false_ne_true)]

theorem MsgRep.received {m : CNetMessage} {a : AbsMsg} (h : MsgRep compress pchMessageStart m a) :
    m.vRecv.take m.nDataPos.toNat = a.payload := by
  obtain ⟨k, hk⟩ := h.vRecv
  rw [hk, h.nDataPos, List.take_left]

theorem MsgRep.shown_eq {m m' : CNetMessage} {a : AbsMsg}
    (h : MsgRep compress pchMessageStart m a) (h' : MsgRep compress pchMessageStart m' a) :
    m.shown compress = m'.shown compress := by
  have hhash : m.getMessageHash compress = m'.getMessageHash compress := by
    cases hc : a.complete with
    | false => rw [h.getMessageHash_of_not_complete hc, h'.getMessageHash_of_not_complete hc]
    | true => rw [h.getMessageHash hc, h'.getMessageHash hc]
  have hhdr : m.nHdrPos = m'.nHdrPos := UInt32.toNat_inj.mp (h.nHdrPos.trans h'.nHdrPos.symm)
  have hdata : m.nDataPos = m'.nDataPos := UInt32.toNat_inj.mp (h.nDataPos.trans h'.nDataPos.symm)
  unfold CNetMessage.shown
  rw [h.received, h'.received, h.in_data, h'.in_data, h.hdrbuf, h'.hdrbuf, h.hdr, h'.hdr, hhdr,
    hdata, hhash]

theorem QueueRep.shown_eq {qc qc' : List CNetMessage} {qa : List AbsMsg}
    (h : QueueRep compress pchMessageStart qc qa) (h' : QueueRep compress pchMessageStart qc' qa) :
    qc.map (CNetMessage.shown compress) = qc'.map (CNetMessage.shown compress) := by
  unfold QueueRep at h h'
  induction h generalizing qc' with
  | nil =>
    obtain rfl := List.forall₂_nil_right_iff.mp h'
    rfl
  | cons hm _ ih =>
    cases h' with
    | cons hm' hrest' => rw [List.map_cons, List.map_cons, hm.shown_eq hm', ih hrest']

theorem QueueRep.map_view {qc : List CNetMessage} {qa : List AbsMsg}
    (h : QueueRep compress pchMessageStart qc qa) : qc.map CNetMessage.view = qa := by
  unfold QueueRep at h
  induction h with
  | nil => rfl
  | cons hm _ ih => rw [List.map_cons, hm.view_eq, ih]

theorem QueueRep.msgRep_view {qc : List CNetMessage} {qa : List AbsMsg}
    (h : QueueRep compress pchMessageStart qc qa) :
    ∀ m ∈ qc, MsgRep compress pchMessageStart m m.view := by
  unfold QueueRep at h
  induction h with
  | nil => exact fun _ hm => absurd hm List.not_mem_nil
  | cons hm _ ih =>
    intro m' hm'
    rcases List.mem_cons.mp hm' with rfl | hm'
    · exact hm.view_eq ▸ hm
    · exact ih m' hm'

theorem liveQueue_nil {config : NetConfig} : LiveQueue config [] := by
  simp [LiveQueue]

/-- Framing does not depend on where the chunks of a stream end: from an empty queue, two chunkings
of one stream into chunks that fit an `int` give the same status, and queues that look the same
message by message, the trailing message included. -/
theorem receiveChunks_chunking (config : NetConfig) (hcfg : config.Bounded)
    {cs₁ cs₂ : List (List UInt8)} (hflat : cs₁.flatten = cs₂.flatten)
    (h₁ : ∀ c ∈ cs₁, c.length < 2 ^ 31) (h₂ : ∀ c ∈ cs₂, c.length < 2 ^ 31) :
    ∃ st qc₁ qc₂, receiveChunks compress config pchMessageStart [] cs₁ = .ok (st, qc₁) ∧
      receiveChunks compress config pchMessageStart [] cs₂ = .ok (st, qc₂) ∧
      qc₁.map (CNetMessage.shown compress) = qc₂.map (CNetMessage.shown compress) := by
  have hs₁ : RecvSim compress config pchMessageStart (absorbAll config [] cs₁.flatten)
      (receiveChunks compress config pchMessageStart [] cs₁) :=
    receiveChunks_simulates config hcfg cs₁ h₁ List.Forall₂.nil liveQueue_nil
  have hs₂ : RecvSim compress config pchMessageStart (absorbAll config [] cs₂.flatten)
      (receiveChunks compress config pchMessageStart [] cs₂) :=
    receiveChunks_simulates config hcfg cs₂ h₂ List.Forall₂.nil liveQueue_nil
  rw [hflat] at hs₁
  cases habs : absorbAll config [] cs₂.flatten with
  | ok qa =>
    rw [habs] at hs₁ hs₂
    obtain ⟨qc₁, e₁, r₁, -⟩ := hs₁
    obtain ⟨qc₂, e₂, r₂, -⟩ := hs₂
    exact ⟨_, qc₁, qc₂, e₁, e₂, r₁.shown_eq r₂⟩
  | error qa =>
    rw [habs] at hs₁ hs₂
    obtain ⟨qc₁, e₁, r₁⟩ := hs₁
    obtain ⟨qc₂, e₂, r₂⟩ := hs₂
    exact ⟨_, qc₁, qc₂, e₁, e₂, r₁.shown_eq r₂⟩

variable (compress) in
/-- A complete message as the stream said it: its 24 header bytes read as its header, as many
payload bytes as the header says, and SHA-256 of SHA-256 of them as its hash. -/
structure CNetMessage.Received (m : CNetMessage) : Prop where
  complete : m.complete = true
  nHdrPos : m.nHdrPos.toNat = 24
  hdr : m.hdr = CMessageHeader.deserialize m.hdrbuf
  payload_length : (m.vRecv.take m.nDataPos.toNat).length = m.hdr.nPayloadLength.toNat
  hash : m.getMessageHash compress =
    .ok (sha256 compress (sha256 compress (m.vRecv.take m.nDataPos.toNat)))

theorem MsgRep.received_of_complete {m : CNetMessage} {a : AbsMsg}
    (h : MsgRep compress pchMessageStart m a) (hc : a.complete = true) :
    m.Received compress := by
  have hin : a.in_data = true := by
    simp only [AbsMsg.complete, Bool.and_eq_true] at hc
    exact hc.1
  have hlen : (CMessageHeader.deserialize a.hb).nPayloadLength.toNat = a.payload.length := by
    simpa [AbsMsg.complete, hin] using hc
  have h24 := h.header_read hin
  have hbuf : m.hdrbuf = a.hb := by
    rw [h.hdrbuf, h24, Nat.sub_self, List.replicate_zero, List.append_nil]
  refine ⟨h.complete_eq.trans hc, h.nHdrPos.trans h24, ?_, ?_, ?_⟩
  · rw [h.hdr_of_in_data hin, hbuf]
  · rw [h.received, h.hdr_of_in_data hin, hlen]
  · rw [h.received]
    exact h.getMessageHash hc

theorem QueueRep.framed {qc : List CNetMessage} {qa : List AbsMsg} {S : List UInt8}
    (h : QueueRep compress pchMessageStart qc qa) (hf : Framed qa S) :
    (qc.map fun m => m.view.bytes).flatten = S ∧ ∀ m ∈ qc.dropLast, m.Received compress := by
  have hview := h.map_view
  refine ⟨?_, fun m hm => ?_⟩
  · rw [← hf.bytes, ← hview, List.map_map]
    rfl
  · have hmem : m.view ∈ qa.dropLast := by
      rw [← hview, ← List.map_dropLast]
      exact List.mem_map_of_mem hm
    exact (h.msgRep_view m (List.dropLast_subset _ hm)).received_of_complete
      (hf.complete _ hmem)

/-- From an empty queue, the chunks of a stream, each fitting an `int`, are cut into messages as the
stream says: the bytes the messages received are the stream up to where the run stops, all of it
when it reports `RECV_OK`, and every message but the last is complete as the stream said it. A run
never reports `RECV_FAIL`. -/
theorem receiveChunks_frames (config : NetConfig) (hcfg : config.Bounded)
    (cs : List (List UInt8)) (hcs : ∀ c ∈ cs, c.length < 2 ^ 31) :
    ∃ st qc, receiveChunks compress config pchMessageStart [] cs = .ok (st, qc) ∧
      st ≠ .RECV_FAIL ∧ (qc.map fun m => m.view.bytes).flatten <+: cs.flatten ∧
      (st = .RECV_OK → (qc.map fun m => m.view.bytes).flatten = cs.flatten) ∧
      ∀ m ∈ qc.dropLast, m.Received compress := by
  have hs : RecvSim compress config pchMessageStart (absorbAll config [] cs.flatten)
      (receiveChunks compress config pchMessageStart [] cs) :=
    receiveChunks_simulates config hcfg cs hcs List.Forall₂.nil liveQueue_nil
  have hfr := @absorbAll_framed config [] [] framed_nil liveQueue_nil cs.flatten
  cases habs : absorbAll config [] cs.flatten with
  | ok qa =>
    rw [habs] at hs
    obtain ⟨qc, e, r, -⟩ := hs
    obtain ⟨hbytes, hrecv⟩ := r.framed (hfr.1 qa habs).1
    rw [List.nil_append] at hbytes
    exact ⟨_, qc, e, nofun, hbytes ▸ List.prefix_refl _, fun _ => hbytes, hrecv⟩
  | error qa =>
    rw [habs] at hs
    obtain ⟨qc, e, r⟩ := hs
    obtain ⟨c, -, hframed⟩ := hfr.2 qa habs
    obtain ⟨hbytes, hrecv⟩ := r.framed hframed
    rw [List.nil_append] at hbytes
    exact ⟨_, qc, e, nofun, hbytes ▸ List.take_prefix c _, nofun, hrecv⟩

end Represent

/-! ### One iteration of the loop, and the growth bound of `vRecv` -/

section Iteration

variable {compress : Vector UInt32 8 → List UInt8 → Vector UInt32 8} {config : NetConfig}
  {pchMessageStart : List UInt8}

theorem openMessage_of_not_complete (done : List CNetMessage) {m : CNetMessage}
    (hm : m.complete = false) : openMessage pchMessageStart (done ++ [m]) = (done, m) := by
  simp [openMessage, hm]

theorem CNetMessage.absorb_of_in_data {m : CNetMessage} (h : m.in_data = true) (pch : List UInt8)
    (nBytes : UInt32) :
    m.absorb compress config pch nBytes = m.readData compress pch nBytes := by
  rw [CNetMessage.absorb, h, Bool.not_true, if_neg Bool.false_ne_true]

theorem receiveLoop_nil (fuel : Nat) (q : List CNetMessage) (complete : Bool) :
    receiveLoop compress config pchMessageStart (fuel + 1) q [] complete =
      .ok (.RECV_OK, q, complete) := by
  rw [receiveLoop]
  rfl

theorem receiveLoop_of_absorb_error (fuel : Nat) {q done : List CNetMessage} {msg : CNetMessage}
    (ho : openMessage pchMessageStart q = (done, msg)) {pch : List UInt8} (hne : pch ≠ [])
    {e : String} (h : msg.absorb compress config pch (UInt32.ofNat pch.length) = .error e)
    (complete : Bool) :
    receiveLoop compress config pchMessageStart (fuel + 1) q pch complete = .error e := by
  rw [receiveLoop, if_pos (List.length_pos_of_ne_nil hne)]
  dsimp only
  rw [ho, h]
  rfl

theorem receiveLoop_of_absorb_all (fuel : Nat) {q done : List CNetMessage} {msg : CNetMessage}
    (ho : openMessage pchMessageStart q = (done, msg)) {pch : List UInt8} (hne : pch ≠ [])
    {m : CNetMessage} (h : msg.absorb compress config pch (UInt32.ofNat pch.length) =
      .ok (pch.length, m))
    (hover : isOversizedMessage config m = false) (complete : Bool) :
    receiveLoop compress config pchMessageStart (fuel + 2) q pch complete =
      .ok (.RECV_OK, done ++ [m], complete || m.complete) := by
  have hpos : ¬ ((pch.length : Int) < 0) := by omega
  rw [receiveLoop, if_pos (List.length_pos_of_ne_nil hne)]
  dsimp only
  rw [ho, h]
  simp only [bind, Except.bind, hpos, decide_false, Bool.and_false, Bool.false_eq_true,
    ↓reduceIte, hover, Int.toNat_natCast, List.drop_length]
  exact receiveLoop_nil fuel _ _

theorem receiveChunks_cons_of_ok {q q' : List CNetMessage} {c : List UInt8}
    {cs : List (List UInt8)} {complete : Bool}
    (h : receiveMsgBytes compress config pchMessageStart q c = .ok (.RECV_OK, q', complete)) :
    receiveChunks compress config pchMessageStart q (c :: cs) =
      receiveChunks compress config pchMessageStart q' cs := by
  rw [receiveChunks, h]
  rfl

theorem receiveChunks_cons_of_error {q : List CNetMessage} {c : List UInt8}
    {cs : List (List UInt8)} {e : String}
    (h : receiveMsgBytes compress config pchMessageStart q c = .error e) :
    receiveChunks compress config pchMessageStart q (c :: cs) = .error e := by
  rw [receiveChunks, h]
  rfl

theorem toNat_256KiB : ((256 * 1024 : UInt32)).toNat = 2 ^ 18 := rfl

theorem readData_of_no_wrap {m : CNetMessage} {pch : List UInt8} {nBytes nCopy : UInt32}
    (hcopy : min (m.hdr.nPayloadLength - m.nDataPos) nBytes = nCopy)
    (hpos : m.nDataPos ≤ m.hdr.nPayloadLength)
    (hnowrap : m.nDataPos.toNat + nCopy.toNat + 2 ^ 18 < 2 ^ 32) :
    m.readData compress pch nBytes = .ok (nCopy.toInt32.toInt, { m with
      hasher := m.hasher.write compress (pch.take nCopy.toNat)
      vRecv := memcpy (m.growRecv nCopy) m.nDataPos.toNat (pch.take nCopy.toNat)
      nDataPos := m.nDataPos + nCopy }) := by
  have hle : m.nDataPos.toNat + nCopy.toNat ≤ m.hdr.nPayloadLength.toNat := by
    have hrem := UInt32.toNat_sub_of_le _ _ hpos
    have hmin : nCopy.toNat ≤ (m.hdr.nPayloadLength - m.nDataPos).toNat := by
      rw [← hcopy, UInt32.toNat_min]
      exact Nat.min_le_left _ _
    rw [UInt32.le_iff_toNat_le] at hpos
    omega
  have hsum : (m.nDataPos + nCopy).toNat = m.nDataPos.toNat + nCopy.toNat := by
    rw [UInt32.toNat_add, Nat.mod_eq_of_lt (by omega)]
  have hahead : (m.nDataPos + nCopy + 256 * 1024).toNat =
      m.nDataPos.toNat + nCopy.toNat + 2 ^ 18 := by
    rw [UInt32.toNat_add, hsum, toNat_256KiB, Nat.mod_eq_of_lt hnowrap]
  have hgrow : m.nDataPos.toNat + nCopy.toNat ≤ (m.growRecv nCopy).length := by
    unfold CNetMessage.growRecv
    rw [hsum]
    split_ifs with hshort
    · rw [length_resize, UInt32.toNat_min, hahead]
      omega
    · exact Nat.le_of_not_lt hshort
  unfold CNetMessage.readData
  dsimp only
  rw [hcopy, if_pos hgrow]

/-- The growth bound wraps: once the copy ends within 256 KiB of `2 ^ 32` and `vRecv` is short of
it, `vRecv` is resized below the end of the copy, past which `memcpy` then writes. -/
theorem readData_of_wrap {m : CNetMessage} {pch : List UInt8} {nBytes nCopy : UInt32}
    (hcopy : min (m.hdr.nPayloadLength - m.nDataPos) nBytes = nCopy)
    (hshort : m.vRecv.length < m.nDataPos.toNat + nCopy.toNat)
    (hend : m.nDataPos.toNat + nCopy.toNat < 2 ^ 32)
    (hwrap : 2 ^ 32 ≤ m.nDataPos.toNat + nCopy.toNat + 2 ^ 18) :
    m.readData compress pch nBytes = .error "memcpy past the end of vRecv" := by
  have hsum : (m.nDataPos + nCopy).toNat = m.nDataPos.toNat + nCopy.toNat := by
    rw [UInt32.toNat_add, Nat.mod_eq_of_lt hend]
  have hahead : (m.nDataPos + nCopy + 256 * 1024).toNat =
      m.nDataPos.toNat + nCopy.toNat + 2 ^ 18 - 2 ^ 32 := by
    rw [UInt32.toNat_add, hsum, toNat_256KiB]
    omega
  have hgrow : (m.growRecv nCopy).length < m.nDataPos.toNat + nCopy.toNat := by
    unfold CNetMessage.growRecv
    rw [hsum, if_pos hshort, length_resize, UInt32.toNat_min, hahead]
    omega
  unfold CNetMessage.readData
  dsimp only
  rw [hcopy, if_neg (Nat.not_le.mpr hgrow)]

end Iteration

/-! ### A block of `0xFFFFFFFF` bytes -/

/-- `MAIN_DEFAULT_MAX_BLOCK_SIZE` (`policy.h`): blocks have no size limit by default. -/
def MAIN_DEFAULT_MAX_BLOCK_SIZE : Nat := TbcNode.Script.Interpreter.INT64_MAX

/-- The limits of a main network node that keeps the default `-excessiveblocksize`. -/
def NetConfig.mainDefault : NetConfig :=
  ⟨TbcNode.Coins.MAX_TX_SIZE_CONSENSUS_AFTER_GENESIS, MAIN_DEFAULT_MAX_BLOCK_SIZE⟩

def mainNetMagic : List UInt8 := [0xe3, 0xe1, 0xf3, 0xe8]

/-- The header of a block of `0xFFFFFFFF` bytes; framing does not read the checksum. -/
def blockHeaderMax : List UInt8 :=
  mainNetMagic ++ NetMsgType.BLOCK ++ List.replicate 7 0 ++ [0xff, 0xff, 0xff, 0xff] ++
    List.replicate 4 0

/-- With the default limits a block may say it has `0xFFFFFFFF` bytes. Sent as its header, `2 ^ 31 - 1`
bytes and `2 ^ 31 - 2 ^ 18 + 1` bytes, each chunk fitting an `int`, the payload then ends the third
copy at `2 ^ 32 - 2 ^ 18`: the bound `nDataPos + nCopy + 256 * 1024` wraps to 0, `vRecv` is resized to
nothing, and `memcpy` writes past its end. -/
theorem block_payload_overflow (compress : Vector UInt32 8 → List UInt8 → Vector UInt32 8) :
    receiveChunks compress NetConfig.mainDefault mainNetMagic []
      [blockHeaderMax, List.replicate (2 ^ 31 - 1) 0, List.replicate (2 ^ 31 - 2 ^ 18 + 1) 0] =
      .error "memcpy past the end of vRecv" := by
  obtain ⟨m1, hm1⟩ : ∃ m1, (CNetMessage.readHeader NetConfig.mainDefault
      (CNetMessage.init mainNetMagic) blockHeaderMax 24).2 = m1 := ⟨_, rfl⟩
  have h1 : receiveMsgBytes compress NetConfig.mainDefault mainNetMagic [] blockHeaderMax =
      .ok (.RECV_OK, [m1], false) := by
    rw [← hm1]
    rfl
  have hin1 : m1.in_data = true := by rw [← hm1]; rfl
  have hp1 : m1.hdr.nPayloadLength = 0xFFFFFFFF := by rw [← hm1]; rfl
  have hd1 : m1.nDataPos = 0 := by rw [← hm1]; rfl
  have hv1 : m1.vRecv = [] := by rw [← hm1]; rfl
  have hover1 : m1.hdr.isOversized NetConfig.mainDefault = false := by rw [← hm1]; rfl
  have hc1 : m1.complete = false := by
    rw [CNetMessage.complete, hin1, hp1, hd1]
    rfl
  have hz1 : (List.replicate (2 ^ 31 - 1) (0 : UInt8)).length = 0x7FFFFFFF := List.length_replicate
  have hcopy1 : min (m1.hdr.nPayloadLength - m1.nDataPos) (UInt32.ofNat 0x7FFFFFFF) =
      0x7FFFFFFF := by
    rw [hp1, hd1]
    decide
  obtain ⟨m2, hm2⟩ : ∃ m2, { m1 with
      hasher := m1.hasher.write compress
        ((List.replicate (2 ^ 31 - 1) 0).take (0x7FFFFFFF : UInt32).toNat)
      vRecv := memcpy (m1.growRecv 0x7FFFFFFF) m1.nDataPos.toNat
        ((List.replicate (2 ^ 31 - 1) 0).take (0x7FFFFFFF : UInt32).toNat)
      nDataPos := m1.nDataPos + 0x7FFFFFFF } = m2 := ⟨_, rfl⟩
  have hread1 : m1.absorb compress NetConfig.mainDefault (List.replicate (2 ^ 31 - 1) 0)
      (UInt32.ofNat (List.replicate (2 ^ 31 - 1) (0 : UInt8)).length) =
      .ok ((List.replicate (2 ^ 31 - 1) (0 : UInt8)).length, m2) := by
    rw [CNetMessage.absorb_of_in_data hin1, hz1,
      readData_of_no_wrap hcopy1 (by rw [hp1, hd1]; decide) (by rw [hd1]; decide), hm2]
    rfl
  have hin2 : m2.in_data = true := by rw [← hm2]; exact hin1
  have hdr2 : m2.hdr = m1.hdr := by rw [← hm2]
  have hd2 : m2.nDataPos = 0x7FFFFFFF := by rw [← hm2, hd1]; rfl
  have hc2 : m2.complete = false := by
    rw [CNetMessage.complete, hin2, hdr2, hp1, hd2]
    rfl
  have hne1 : List.replicate (2 ^ 31 - 1) (0 : UInt8) ≠ [] := by
    rw [Ne, List.replicate_eq_nil_iff]
    decide
  have h2 : receiveMsgBytes compress NetConfig.mainDefault mainNetMagic [m1]
      (List.replicate (2 ^ 31 - 1) 0) = .ok (.RECV_OK, [m2], false) := by
    rw [receiveMsgBytes, hz1]
    refine (receiveLoop_of_absorb_all 0x7FFFFFFE (openMessage_of_not_complete [] hc1) hne1 hread1
      (by rw [isOversizedMessage, hin2, hdr2, hover1]; rfl) false).trans ?_
    rw [hc2]
    rfl
  have hz2 : (List.replicate (2 ^ 31 - 2 ^ 18 + 1) (0 : UInt8)).length = 2147221505 :=
    List.length_replicate
  have hcopy2 : min (m2.hdr.nPayloadLength - m2.nDataPos) (UInt32.ofNat 2147221505) =
      2147221505 := by
    rw [hdr2, hp1, hd2]
    decide
  have hgrow1 : (m1.growRecv 0x7FFFFFFF).length = 2147745791 := by
    rw [CNetMessage.growRecv, hv1, hd1, hp1, if_pos (by decide), length_resize]
    decide
  have hlen2 : m2.vRecv.length = 2147745791 := by
    rw [← hm2]
    show (memcpy _ _ _).length = _
    rw [CSHA256.length_memcpy (by rw [hgrow1, hd1, List.length_take, List.length_replicate]; decide),
      hgrow1]
  have hread2 : m2.absorb compress NetConfig.mainDefault (List.replicate (2 ^ 31 - 2 ^ 18 + 1) 0)
      (UInt32.ofNat (List.replicate (2 ^ 31 - 2 ^ 18 + 1) (0 : UInt8)).length) =
      .error "memcpy past the end of vRecv" := by
    rw [CNetMessage.absorb_of_in_data hin2, hz2, readData_of_wrap hcopy2
      (by rw [hlen2, hd2]; decide) (by rw [hd2]; decide) (by rw [hd2]; decide)]
  have hne2 : List.replicate (2 ^ 31 - 2 ^ 18 + 1) (0 : UInt8) ≠ [] := by
    rw [Ne, List.replicate_eq_nil_iff]
    decide
  have h3 : receiveMsgBytes compress NetConfig.mainDefault mainNetMagic [m2]
      (List.replicate (2 ^ 31 - 2 ^ 18 + 1) 0) = .error "memcpy past the end of vRecv" := by
    rw [receiveMsgBytes, hz2]
    exact receiveLoop_of_absorb_error 2147221505 (openMessage_of_not_complete [] hc2) hne2 hread2
      false
  rw [receiveChunks_cons_of_ok h1, receiveChunks_cons_of_ok h2, receiveChunks_cons_of_error h3]

end TbcNode.Net
