import Mathlib.Algebra.Group.Nat.Defs
import TbcNode.Script.Opcodes

/-! # Transactions (`primitives/transaction.h`)

The fields of `COutPoint`, `CTxIn`, `CTxOut` and `CTransaction` that the model reads. A `uint256`
is its 32 bytes, and a transaction carries the hash its constructor computes as a field.
-/

namespace TbcNode.Primitives

open TbcNode.Script

/-- `uint256`: 32 bytes. -/
abbrev uint256 := Vector UInt8 32

def uint256.isNull (h : uint256) : Bool := h.toList.all (· == 0)

/-- `Amount`, in satoshis. -/
abbrev Amount := Int

def COIN : Amount := 100000000

def MAX_MONEY : Amount := 21000000 * COIN

def moneyRange (nValue : Amount) : Bool := 0 ≤ nValue && nValue ≤ MAX_MONEY

theorem moneyRange_iff (nValue : Amount) : moneyRange nValue = true ↔ 0 ≤ nValue ∧ nValue ≤ MAX_MONEY := by
  simp [moneyRange]

/-- `COutPoint`: a transaction id and an output index. -/
structure COutPoint where
  txid : uint256
  n : UInt32
  deriving DecidableEq, Repr

/-- `COutPoint::IsNull`: the null id and the index `uint32_t(-1)`. -/
def COutPoint.isNull (o : COutPoint) : Bool := o.txid.isNull && o.n == 0xffffffff

/-- `CTxIn`. -/
structure CTxIn where
  prevout : COutPoint
  scriptSig : CScript
  nSequence : UInt32
  deriving DecidableEq, Repr

def SEQUENCE_LOCKTIME_DISABLE_FLAG : Nat := 2 ^ 31

/-- `CTxIn::SEQUENCE_LOCKTIME_TYPE_FLAG`: the lock counts 512-second units, not blocks. -/
def SEQUENCE_LOCKTIME_TYPE_FLAG : Nat := 2 ^ 22

def SEQUENCE_LOCKTIME_MASK : Nat := 0x0000ffff

def SEQUENCE_LOCKTIME_GRANULARITY : Nat := 9

/-- `CTxOut`. -/
structure CTxOut where
  nValue : Amount
  scriptPubKey : CScript
  deriving DecidableEq, Repr

/-- `CTxOut::IsNull`: the amount `-1` that `SetNull` puts. -/
def CTxOut.isNull (txout : CTxOut) : Bool := txout.nValue == -1

/-- `CTransaction`, with the hash its constructor computes. -/
structure CTransaction where
  nVersion : Int32
  vin : List CTxIn
  vout : List CTxOut
  nLockTime : UInt32
  hash : uint256
  deriving DecidableEq, Repr

namespace CTransaction

def getId (tx : CTransaction) : uint256 := tx.hash

/-- `IsCoinBase`: one input, spending the null outpoint. -/
def isCoinBase (tx : CTransaction) : Bool :=
  match tx.vin with
  | [txin] => txin.prevout.isNull
  | _ => false

/-- The loop of `GetValueOut` from a partial sum: each output is added, and then the output and
the new sum must both be in range, or `runtime_error` is thrown. -/
def valueOutFrom : Amount → List CTxOut → Except String Amount
  | nValueOut, [] => .ok nValueOut
  | nValueOut, txout :: rest =>
    let nValueOut := nValueOut + txout.nValue
    if !moneyRange txout.nValue || !moneyRange nValueOut then
      .error "GetValueOut: value out of range"
    else valueOutFrom nValueOut rest

def getValueOut (tx : CTransaction) : Except String Amount := valueOutFrom 0 tx.vout

def isNull (tx : CTransaction) : Bool := tx.vin.isEmpty && tx.vout.isEmpty

end CTransaction

/-- `CMutableTransaction`: the fields of a transaction without the hash of `CTransaction`, as
`SerializeTransaction` writes them and `UnserializeTransaction` reads them. -/
structure CMutableTransaction where
  nVersion : Int32
  vin : List CTxIn
  vout : List CTxOut
  nLockTime : UInt32
  deriving DecidableEq, Repr

end TbcNode.Primitives
