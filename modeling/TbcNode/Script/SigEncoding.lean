import TbcNode.Script.Opcodes

/-! # Encoding checks of the interpreter (`interpreter.cpp`, `sighashtype.h`)

`CastToBool`, `CheckMinimalPush`, the public-key checks, `IsValidSignatureEncoding` and the hash
type. `IsValidSignatureEncoding` reads through `l[i]?`, `none` exactly where the source reads past
the end of the signature.
-/

namespace TbcNode.Script

/-- `CastToBool`: some byte is non-zero, other than a sign bit alone in the last byte. -/
def castToBool : List UInt8 → Bool
  | [] => false
  | [b] => b != 0 && b != 0x80
  | b :: bs => b != 0 || castToBool bs

/-- `CheckMinimalPush`: `data` is pushed with the shortest opcode that pushes it. -/
def checkMinimalPush (data : List UInt8) (opcode : UInt8) : Bool :=
  match data with
  | [] => opcode == OP_0
  | [b] =>
    if 1 ≤ b ∧ b ≤ 16 then opcode == OP_1 + (b - 1)
    else if b = 0x81 then opcode == OP_1NEGATE
    else opcode.toNat == 1
  | _ =>
    if data.length ≤ 75 then opcode.toNat == data.length
    else if data.length ≤ 255 then opcode == OP_PUSHDATA1
    else if data.length ≤ 65535 then opcode == OP_PUSHDATA2
    else true

def isCompressedOrUncompressedPubKey (vchPubKey : List UInt8) : Bool :=
  match vchPubKey with
  | [] => false
  | b :: _ =>
    if vchPubKey.length < 33 then false
    else if b = 0x04 then vchPubKey.length == 65
    else if b = 0x02 ∨ b = 0x03 then vchPubKey.length == 33
    else false

def isCompressedPubKey (vchPubKey : List UInt8) : Bool :=
  match vchPubKey with
  | [] => false
  | b :: _ => vchPubKey.length == 33 && (b == 0x02 || b == 0x03)

/-- `IsValidSignatureEncoding`, reading each byte with a checked index: `some` of the source's
answer, or `none` if the source reads past the end of `sig`. The checks come in the source's
order, each `&&` of the source a nested test so that a byte is read only when the source reads
it. -/
def isValidSignatureEncoding (sig : List UInt8) : Option Bool := do
  if sig.length < 9 then return false
  if sig.length > 73 then return false
  if (← sig[0]?) ≠ 0x30 then return false
  if (← sig[1]?).toNat ≠ sig.length - 3 then return false
  let lenR := (← sig[3]?).toNat
  if 5 + lenR ≥ sig.length then return false
  let lenS := (← sig[5 + lenR]?).toNat
  if lenR + lenS + 7 ≠ sig.length then return false
  if (← sig[2]?) ≠ 0x02 then return false
  if lenR = 0 then return false
  if (← sig[4]?) &&& 0x80 ≠ 0 then return false
  if lenR > 1 then
    if (← sig[4]?) = 0x00 then
      if (← sig[5]?) &&& 0x80 = 0 then return false
  if (← sig[lenR + 4]?) ≠ 0x02 then return false
  if lenS = 0 then return false
  if (← sig[lenR + 6]?) &&& 0x80 ≠ 0 then return false
  if lenS > 1 then
    if (← sig[lenR + 6]?) = 0x00 then
      if (← sig[lenR + 7]?) &&& 0x80 = 0 then return false
  return true

/-! ## Hash types -/

/-- `SigHashType`: the raw 32-bit hash type. -/
structure SigHashType where
  sigHash : UInt32
  deriving DecidableEq, Repr

def SIGHASH_FORKID : UInt32 := 0x40
def SIGHASH_ANYONECANPAY : UInt32 := 0x80

namespace SigHashType

/-- `isDefined`: the base type, with the fork-id and anyone-can-pay bits cleared and narrowed to
the `uint8_t` of `BaseSigHashType`, is `ALL`, `NONE` or `SINGLE`. -/
def isDefined (t : SigHashType) : Bool :=
  let baseType := (t.sigHash &&& ~~~(SIGHASH_FORKID ||| SIGHASH_ANYONECANPAY)).toUInt8
  1 ≤ baseType && baseType ≤ 3

def hasForkId (t : SigHashType) : Bool := t.sigHash &&& SIGHASH_FORKID != 0

end SigHashType

/-- `GetHashType`: the last byte of the signature, `0` for an empty one. -/
def getHashType (vchSig : List UInt8) : SigHashType :=
  match vchSig.getLast? with
  | none => ⟨0⟩
  | some b => ⟨b.toUInt32⟩

end TbcNode.Script
