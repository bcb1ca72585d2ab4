import TbcNode.Coins.Cache
import TbcNode.Net.PartialBlock

/-! # Connecting and disconnecting a block's coins (`validation.cpp`, `coins.cpp`, `undo.h`)

`ConnectBlock` spends each transaction's inputs into its undo record and adds its outputs;
`ApplyBlockUndo` takes the block back, the last transaction first, counting it unclean where a
coin is missing or in the way. Only the coin updates of `ConnectBlock` are modelled.
-/

namespace TbcNode.Coins

open TbcNode.Primitives

/-- `Coin(CTxOut, uint32_t, bool)`: the height and the coinbase flag share one word. -/
def Coin.make (outIn : CTxOut) (nHeightIn : UInt32) (isCoinbase : Bool) : Coin :=
  ⟨outIn, (nHeightIn <<< 1) ||| if isCoinbase then 1 else 0⟩

end TbcNode.Coins

namespace TbcNode.Coins.Cache

open TbcNode.Primitives TbcNode.Script TbcNode.Net

/-- `DisconnectResult`. -/
inductive DisconnectResult where
  | DISCONNECT_OK
  | DISCONNECT_UNCLEAN
  | DISCONNECT_FAILED
  deriving DecidableEq, Repr

open DisconnectResult

/-- `CTxUndo`: the coins the inputs of a transaction spent. -/
structure CTxUndo where
  vprevout : List Coin
  deriving DecidableEq, Repr

/-- `CBlockUndo`: the undo records of all transactions of a block but the coinbase. -/
structure CBlockUndo where
  vtxundo : List CTxUndo
  deriving DecidableEq, Repr

def MEMPOOL_HEIGHT : UInt32 := 0x7FFFFFFF

def MAX_VIEW_ITERATIONS : Nat := 100

/-- `IsGenesisEnabled(config, nHeight)`: the height converted to `uint64_t` against the activation
height; the mempool height is refused with a `runtime_error`. -/
def isGenesisEnabled (genesisActivationHeight : Nat) (nHeight : Int32) : Except String Bool :=
  if nHeight.toUInt32 == MEMPOOL_HEIGHT then
    throw ("A coin with height == MEMPOOL_HEIGHT was passed to IsGenesisEnabled() overload that " ++
      "does not handle this case. Use the overload that takes Coin as parameter")
  else pure (decide ((nHeight.toInt % 2 ^ 64).toNat ≥ genesisActivationHeight))

/-- The `CCoinsViewCache &` that the validation code is given: the top cache of a stack, the caches
below it and the base. -/
structure Top (σ : Type) where
  cache : CCoinsViewCache
  below : List CCoinsViewCache
  base : σ

namespace Top

variable {σ : Type} (V : CCoinsView σ)

def accessCoin (view : Top σ) (outpoint : COutPoint) : Coin × Top σ :=
  match Cache.accessCoin V view.base view.cache view.below outpoint with
  | (coin, cache, below) => (coin, ⟨cache, below, view.base⟩)

def haveCoin (view : Top σ) (outpoint : COutPoint) : Bool × Top σ :=
  match Cache.haveCoin V view.base view.cache view.below outpoint with
  | (found, cache, below) => (found, ⟨cache, below, view.base⟩)

/-- `SpendCoin` of the top cache, with the coin it moves out. -/
def spendCoin (view : Top σ) (outpoint : COutPoint) : Bool × Option Coin × Top σ :=
  match Cache.spendCoin V view.base view.cache view.below outpoint with
  | (found, moveout, cache, below) => (found, moveout, ⟨cache, below, view.base⟩)

def addCoin (view : Top σ) (outpoint : COutPoint) (coin : Coin) (possible_overwrite : Bool)
    (genesisActivationHeight : Nat) : Except String (Top σ) := do
  let cache ← view.cache.addCoin outpoint coin possible_overwrite genesisActivationHeight
  pure { view with cache }

def setBestBlock (view : Top σ) (hashBlock : uint256) : Top σ :=
  { view with cache := view.cache.setBestBlock hashBlock }

/-- The loop of `HaveInputs`: it stops at the first input whose coin it does not have. -/
def haveInputsFrom : List CTxIn → Top σ → Bool × Top σ
  | [], view => (true, view)
  | input :: rest, view =>
    match view.haveCoin V input.prevout with
    | (true, view) => haveInputsFrom rest view
    | (false, view) => (false, view)

/-- `HaveInputs`: a coinbase has no inputs to find. -/
def haveInputs (view : Top σ) (tx : CTransaction) : Bool × Top σ :=
  if tx.isCoinBase then (true, view) else haveInputsFrom V tx.vin view

end Top

section Connect

variable {σ : Type} (V : CCoinsView σ)

/-- The loop of `AddCoins` from output `i`: each output is added as a coin at `nHeight`, with
`possible_overwrite` the `HaveCoin` of its outpoint under `check`, and otherwise whether the
transaction is a coinbase. The index is converted to the `uint32_t` of `COutPoint`. -/
def addCoinsFrom (txid : uint256) (fCoinbase : Bool) (nHeight : UInt32)
    (genesisActivationHeight : Nat) (check : Bool) :
    Nat → List CTxOut → Top σ → Except String (Top σ)
  | _, [], cache => pure cache
  | i, txout :: rest, cache => do
    let outpoint : COutPoint := ⟨txid, UInt32.ofNat i⟩
    let (overwrite, cache) := if check then cache.haveCoin V outpoint else (fCoinbase, cache)
    let cache ← cache.addCoin outpoint (Coin.make txout nHeight fCoinbase) overwrite
      genesisActivationHeight
    addCoinsFrom txid fCoinbase nHeight genesisActivationHeight check (i + 1) rest cache

/-- `AddCoins`; the height, an `int`, is converted to the `uint32_t` of `Coin`. -/
def addCoins (cache : Top σ) (tx : CTransaction) (nHeight : Int32) (genesisActivationHeight : Nat)
    (check : Bool) : Except String (Top σ) :=
  addCoinsFrom V tx.getId tx.isCoinBase nHeight.toUInt32 genesisActivationHeight check 0 tx.vout
    cache

/-- The loop of `UpdateCoins` over the inputs: each coin spent is moved into a new last element of
`vprevout`, which stays the empty coin when `SpendCoin` finds no entry, and then the assert fails. -/
def spendInputs : List CTxIn → Top σ → List Coin → Except String (Top σ × List Coin)
  | [], inputs, vprevout => pure (inputs, vprevout)
  | txin :: rest, inputs, vprevout =>
    match inputs.spendCoin V txin.prevout with
    | (is_spent, moveout, inputs) =>
      if is_spent then spendInputs rest inputs (vprevout ++ [moveout.getD coinEmpty])
      else throw "assertion failed: is_spent"

/-- `UpdateCoins`: the inputs are spent into `txundo` unless the transaction is a coinbase, and the
outputs are added by `AddCoins` without `check`. -/
def updateCoins (tx : CTransaction) (inputs : Top σ) (txundo : CTxUndo) (nHeight : Int32)
    (genesisActivationHeight : Nat) : Except String (Top σ × CTxUndo) := do
  let (inputs, vprevout) ←
    (if !tx.isCoinBase then spendInputs V tx.vin inputs txundo.vprevout
    else pure (inputs, txundo.vprevout))
  let inputs ← addCoins V inputs tx nHeight genesisActivationHeight false
  pure (inputs, ⟨vprevout⟩)

/-- The updates of the UTXO set in the loop of `ConnectBlock` over `block.vtx`, from the
transaction at index `i`: `HaveInputs` of each transaction but a coinbase, rejected as
`bad-txns-inputs-missingorspent` when it fails, and `UpdateCoins` into a new last element of
`blockundo.vtxundo`, or into `undoDummy` for the first transaction. -/
def connectTxs (nHeight : Int32) (genesisActivationHeight : Nat) :
    Nat → List CTransaction → Top σ → List CTxUndo → Except String (Top σ × List CTxUndo)
  | _, [], view, vtxundo => pure (view, vtxundo)
  | i, tx :: rest, view, vtxundo =>
    match (if !tx.isCoinBase then view.haveInputs V tx else (true, view)) with
    | (false, _) => throw "bad-txns-inputs-missingorspent"
    | (true, view) => do
      let (view, txundo) ← updateCoins V tx view ⟨[]⟩ nHeight genesisActivationHeight
      connectTxs nHeight genesisActivationHeight (i + 1) rest view
        (if i > 0 then vtxundo ++ [txundo] else vtxundo)

/-- What `ConnectBlock` does to the coins of the view: its loop over `block.vtx` and the block's
undo data it writes. The checks of the loop that only read the view (the sequence locks, the
sigops, `CheckInputs`) are not modelled. -/
def connectBlockCoins (block : CBlock) (nHeight : Int32) (genesisActivationHeight : Nat)
    (view : Top σ) : Except String (Top σ × CBlockUndo) := do
  let (view, vtxundo) ← connectTxs V nHeight genesisActivationHeight 0 block.vtx view []
  pure (view, ⟨vtxundo⟩)

end Connect

section Disconnect

variable {σ : Type} (V : CCoinsView σ) (cursor : σ → uint256 → List Coin)

/-- The first loop of `AccessByTxid`, from index `n` with `k` lookups left: the first unspent coin
of the outpoints `(txid, n)`; after it, the first unspent coin that the database cursor reads for
`txid`, `cursorCoins`, or the empty coin. -/
def accessByTxidFrom (txid : uint256) (cursorCoins : List Coin) :
    Nat → Nat → Top σ → Coin × Top σ
  | _, 0, view => ((cursorCoins.find? fun coin => !coin.isSpent).getD coinEmpty, view)
  | n, k + 1, view =>
    match view.accessCoin V ⟨txid, UInt32.ofNat n⟩ with
    | (alternate, view) =>
      if !alternate.isSpent then (alternate, view)
      else accessByTxidFrom txid cursorCoins (n + 1) k view

/-- `AccessByTxid`. The cursor of a cache is the one of its base. -/
def accessByTxid (view : Top σ) (txid : uint256) : Coin × Top σ :=
  accessByTxidFrom V txid (cursor view.base txid) 0 MAX_VIEW_ITERATIONS view

/-- `UndoCoinSpend`: the coin is put back by `AddCoin`, as a possible overwrite when `HaveCoin`
finds one already there, which makes the result unclean. An undo coin of height 0, of legacy undo
data, takes the height and the coinbase flag of another coin of its transaction. -/
def undoCoinSpend (undo : Coin) (view : Top σ) (out : COutPoint) (genesisActivationHeight : Nat) :
    Except String (DisconnectResult × Top σ) :=
  match view.haveCoin V out with
  | (overwriting, view) =>
    let fClean := !overwriting
    let restore (undo : Coin) (view : Top σ) : Except String (DisconnectResult × Top σ) := do
      let view ← view.addCoin out undo (!fClean) genesisActivationHeight
      pure (if fClean then DISCONNECT_OK else DISCONNECT_UNCLEAN, view)
    if undo.getHeight == 0 then
      match accessByTxid V cursor view out.txid with
      | (alternate, view) =>
        if alternate.isSpent then pure (DISCONNECT_FAILED, view)
        else restore (Coin.make undo.out alternate.getHeight alternate.isCoinBase) view
    else restore undo view

/-- The loop of `ApplyBlockUndo` over the outputs of a transaction, from output `o`: each one that
is not unspendable at the block's height is spent, and the result is unclean unless it is found
with the output's `CTxOut`. -/
def spendOutputs (genesisActivationHeight : Nat) (nHeight : Int32) (txid : uint256) :
    Nat → List CTxOut → Top σ → Bool → Except String (Bool × Top σ)
  | _, [], view, fClean => pure (fClean, view)
  | o, txout :: rest, view, fClean => do
    let genesis ← isGenesisEnabled genesisActivationHeight nHeight
    if isUnspendable txout.scriptPubKey genesis then
      spendOutputs genesisActivationHeight nHeight txid (o + 1) rest view fClean
    else
      match view.spendCoin V ⟨txid, UInt32.ofNat o⟩ with
      | (is_spent, moveout, view) =>
        spendOutputs genesisActivationHeight nHeight txid (o + 1) rest view
          (fClean && is_spent && txout == (moveout.getD coinEmpty).out)

/-- The loop of `ApplyBlockUndo` over the inputs of a transaction, the last first, each with its
coin of the undo record: `UndoCoinSpend` puts it back; a failure ends the disconnection (`none`). -/
def restoreInputs (genesisActivationHeight : Nat) :
    List (CTxIn × Coin) → Top σ → Bool → Except String (Option Bool × Top σ)
  | [], view, fClean => pure (some fClean, view)
  | (txin, undo) :: rest, view, fClean => do
    let (res, view) ← undoCoinSpend V cursor undo view txin.prevout genesisActivationHeight
    if res == DISCONNECT_FAILED then pure (none, view)
    else restoreInputs genesisActivationHeight rest view (fClean && res != DISCONNECT_UNCLEAN)

/-- The body of the loop of `ApplyBlockUndo` for one transaction and its undo record (none for the
first transaction): the outputs are spent, then the inputs are put back, once the record is found
to have a coin for each of them. -/
def disconnectTx (genesisActivationHeight : Nat) (nHeight : Int32) (tx : CTransaction)
    (txundo : Option CTxUndo) (view : Top σ) (fClean : Bool) :
    Except String (Option Bool × Top σ) := do
  let (fClean, view) ← spendOutputs V genesisActivationHeight nHeight tx.getId 0 tx.vout view fClean
  match txundo with
  | none => pure (some fClean, view)
  | some txundo =>
    if txundo.vprevout.length != tx.vin.length then pure (none, view)
    else
      restoreInputs V cursor genesisActivationHeight (tx.vin.zip txundo.vprevout).reverse view
        fClean

/-- The loop of `ApplyBlockUndo` over the transactions, the last first. -/
def disconnectTxs (genesisActivationHeight : Nat) (nHeight : Int32) :
    List (CTransaction × Option CTxUndo) → Top σ → Bool → Except String (Option Bool × Top σ)
  | [], view, fClean => pure (some fClean, view)
  | (tx, txundo) :: rest, view, fClean => do
    let (r, view) ← disconnectTx V cursor genesisActivationHeight nHeight tx txundo view fClean
    match r with
    | none => pure (none, view)
    | some fClean => disconnectTxs genesisActivationHeight nHeight rest view fClean

/-- `ApplyBlockUndo` at the height `pindex->nHeight`; the shutdown token is never cancelled. The
transaction at index `i` takes the undo record `vtxundo[i - 1]`, and the coinbase none. -/
def applyBlockUndo (genesisActivationHeight : Nat) (blockUndo : CBlockUndo) (block : CBlock)
    (nHeight : Int32) (view : Top σ) : Except String (DisconnectResult × Top σ) :=
  if blockUndo.vtxundo.length + 1 != block.vtx.length then pure (DISCONNECT_FAILED, view)
  else do
    let (r, view) ← disconnectTxs V cursor genesisActivationHeight nHeight
      (block.vtx.zip (none :: blockUndo.vtxundo.map some)).reverse view true
    match r with
    | none => pure (DISCONNECT_FAILED, view)
    | some fClean =>
      pure (if fClean then DISCONNECT_OK else DISCONNECT_UNCLEAN,
        view.setBestBlock block.header.hashPrevBlock)

end Disconnect

end TbcNode.Coins.Cache
