import TbcNode.Coins.Coin

/-! # The coins a cache can see (`coins.h`, `coins.cpp`)

A lookup answers from the cache's map or, through `FetchCoin`, from the view below. `AccessCoin`
gives the spent `coinEmpty` where none is found, so `HaveCoin` says the coin `AccessCoin` returns
is unspent (`haveCoin_iff`).
-/

namespace TbcNode.Coins

open TbcNode.Primitives

def Coin.getHeight (coin : Coin) : UInt32 := coin.nHeightAndIsCoinBase >>> 1

def Coin.isCoinBase (coin : Coin) : Bool := coin.nHeightAndIsCoinBase &&& 0x01 != 0

/-- `coinEmpty`: a default `Coin`, whose output `CTxOut()` is null. -/
def coinEmpty : Coin := ⟨⟨-1, []⟩, 0⟩

/-- `CCoinsViewCache`, by the coin `FetchCoin` finds for each outpoint in the cache or the views
below it. -/
structure CCoinsViewCache where
  fetchCoin : COutPoint → Option Coin

namespace CCoinsViewCache

def accessCoin (view : CCoinsViewCache) (outpoint : COutPoint) : Coin :=
  (view.fetchCoin outpoint).getD coinEmpty

/-- `HaveCoin`: a coin is found and is not spent. -/
def haveCoin (view : CCoinsViewCache) (outpoint : COutPoint) : Bool :=
  match view.fetchCoin outpoint with
  | some coin => !coin.isSpent
  | none => false

/-- `HaveInputs`: every input of a transaction other than a coinbase spends a coin the view has. -/
def haveInputs (view : CCoinsViewCache) (tx : CTransaction) : Bool :=
  if tx.isCoinBase then true else tx.vin.all fun input => view.haveCoin input.prevout

theorem haveCoin_iff (view : CCoinsViewCache) (outpoint : COutPoint) :
    view.haveCoin outpoint = true ↔ (view.accessCoin outpoint).isSpent = false := by
  unfold haveCoin accessCoin
  cases view.fetchCoin outpoint with
  | some coin => simp
  | none => simp [coinEmpty, Coin.isSpent, CTxOut.isNull]

theorem haveInputs_iff (view : CCoinsViewCache) {tx : CTransaction} (h : tx.isCoinBase = false) :
    view.haveInputs tx = true ↔ ∀ txin ∈ tx.vin, (view.accessCoin txin.prevout).isSpent = false := by
  simp [haveInputs, h, haveCoin_iff]

theorem haveInputs_of_forall (view : CCoinsViewCache) {tx : CTransaction}
    (h : ∀ txin ∈ tx.vin, (view.accessCoin txin.prevout).isSpent = false) :
    view.haveInputs tx = true := by
  unfold haveInputs
  split
  · rfl
  · exact List.all_eq_true.mpr fun txin htxin => (haveCoin_iff view _).mpr (h txin htxin)

end CCoinsViewCache

end TbcNode.Coins
