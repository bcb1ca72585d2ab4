import TbcNode.Coins.View
import TbcNode.Logic.KeyedFold

/-! # The coins cache and the coins database (`coins.h`, `coins.cpp`, `txdb.cpp`)

A `CCoinsViewCache` keeps entries with `DIRTY` and `FRESH` flags over a view below it, another cache
or `CCoinsViewDB`; `Flush` writes them down through `BatchWrite`. The maps are `AList`s, and
`Stack.run` applies the calls of the simulation test in `coins_tests.cpp` to a stack of caches.
-/

namespace TbcNode.Coins.Cache

open TbcNode.Primitives TbcNode.Script TbcNode.Script.Interpreter TbcNode.Logic

def DIRTY : UInt8 := 1

def FRESH : UInt8 := 2

/-- `CCoinsCacheEntry`. -/
structure CCoinsCacheEntry where
  coin : Coin
  flags : UInt8
  deriving DecidableEq, Repr

namespace CCoinsCacheEntry

def isDirty (entry : CCoinsCacheEntry) : Bool := entry.flags &&& DIRTY != 0

def isFresh (entry : CCoinsCacheEntry) : Bool := entry.flags &&& FRESH != 0

end CCoinsCacheEntry

/-- `CCoinsMap`. -/
abbrev CCoinsMap := AList (fun _ : COutPoint => CCoinsCacheEntry)

/-- `CScript::IsUnspendable`: after Genesis only `OP_FALSE OP_RETURN` is detected; before it also
a script that starts with `OP_RETURN` or is longer than `MAX_SCRIPT_SIZE_BEFORE_GENESIS`. -/
def isUnspendable (script : CScript) (isGenesisEnabled : Bool) : Bool :=
  if isGenesisEnabled then script.take 2 == [OP_FALSE, OP_RETURN]
  else
    script.head? == some OP_RETURN || script.take 2 == [OP_FALSE, OP_RETURN] ||
      decide (script.length > MAX_SCRIPT_SIZE_BEFORE_GENESIS)

/-- `CCoinsView`, as much of it as a cache calls on the view below: `GetCoin`, which finds a coin
or nothing, and `BatchWrite` of a cache's entries with the block they are up to date with. A
`BatchWrite` that throws, or that returns `false`, after which the view is undefined and the node
aborts, is an error. -/
structure CCoinsView (σ : Type) where
  getCoin : σ → COutPoint → Option Coin
  batchWrite : σ → CCoinsMap → uint256 → Except String σ

/-- `CCoinsViewCache`, without its `base`, which is what stands below it in a stack. -/
structure CCoinsViewCache where
  hashBlock : uint256
  cacheCoins : CCoinsMap

namespace CCoinsViewCache

/-- The constructor: a null block hash and no entries. -/
def new : CCoinsViewCache := ⟨Vector.replicate 32 0, ∅⟩

section Calls

variable {β : Type}

/-- `FetchCoinNL`: the entry of `outpoint`, or else what `base->GetCoin` finds, `fromBelow`
together with the view below afterwards, which the cache then keeps, marked `FRESH` when it is
spent. On a hit the view below is not read and stays `below`. -/
def fetchCoinNL (cache : CCoinsViewCache) (outpoint : COutPoint) (below : β)
    (fromBelow : Option Coin × β) : Option CCoinsCacheEntry × CCoinsViewCache × β :=
  match cache.cacheCoins.lookup outpoint with
  | some entry => (some entry, cache, below)
  | none =>
    match fromBelow with
    | (none, below') => (none, cache, below')
    | (some coin, below') =>
      let entry : CCoinsCacheEntry := ⟨coin, if coin.isSpent then FRESH else 0⟩
      (some entry, { cache with cacheCoins := cache.cacheCoins.insert outpoint entry }, below')

def haveCoinInCache (cache : CCoinsViewCache) (outpoint : COutPoint) : Bool :=
  (cache.cacheCoins.lookup outpoint).isSome

/-- `AddCoin`. The default entry `emplace` makes holds the empty coin and no flags. -/
def addCoin (cache : CCoinsViewCache) (outpoint : COutPoint) (coin : Coin)
    (possible_overwrite : Bool) (genesisActivationHeight : Nat) : Except String CCoinsViewCache :=
  if coin.isSpent then .error "assertion failed: !coin.IsSpent()"
  else if isUnspendable coin.out.scriptPubKey (coin.getHeight.toNat ≥ genesisActivationHeight) then
    .ok cache
  else
    let entry := (cache.cacheCoins.lookup outpoint).getD ⟨coinEmpty, 0⟩
    if !possible_overwrite && !entry.coin.isSpent then
      .error "Adding new coin that replaces non-pruned entry"
    else
      let fresh := !possible_overwrite && !entry.isDirty
      let flags := entry.flags ||| (DIRTY ||| if fresh then FRESH else 0)
      .ok { cache with cacheCoins := cache.cacheCoins.insert outpoint ⟨coin, flags⟩ }

/-- `SpendCoin`, given the result of `FetchCoinNL`: whether an entry was found, the coin moved out
through `moveout`, and the cache. A fresh entry is erased; any other is cleared, which leaves the
empty coin, and marked dirty. -/
def spendEntry (cache : CCoinsViewCache) (outpoint : COutPoint) :
    Option CCoinsCacheEntry → Bool × Option Coin × CCoinsViewCache
  | none => (false, none, cache)
  | some entry =>
    if entry.isFresh then (true, some entry.coin, { cache with cacheCoins := cache.cacheCoins.erase outpoint })
    else
      let cleared : CCoinsCacheEntry := ⟨coinEmpty, entry.flags ||| DIRTY⟩
      (true, some entry.coin, { cache with cacheCoins := cache.cacheCoins.insert outpoint cleared })

/-- One entry of the loop of `BatchWrite`, on the map of the parent cache. Entries that are not
dirty are ignored, and so is a fresh spent one the parent has no entry for. -/
def writeEntry (cacheCoins : CCoinsMap) (p : Σ _ : COutPoint, CCoinsCacheEntry) :
    Except String CCoinsMap :=
  let child := p.2
  if !child.isDirty then .ok cacheCoins
  else
    match cacheCoins.lookup p.1 with
    | none =>
      if child.isFresh && child.coin.isSpent then .ok cacheCoins
      else
        let flags := DIRTY ||| if child.isFresh then FRESH else 0
        .ok (cacheCoins.insert p.1 ⟨child.coin, flags⟩)
    | some us =>
      if child.isFresh && !us.coin.isSpent then
        .error "FRESH flag misapplied to cache entry for base transaction with spendable outputs"
      else if us.isFresh && child.coin.isSpent then .ok (cacheCoins.erase p.1)
      else .ok (cacheCoins.insert p.1 ⟨child.coin, us.flags ||| DIRTY⟩)

/-- `BatchWrite` into a cache. It also empties `mapCoins`, which its one caller, `Flush`, clears
in any case. -/
def batchWrite (cache : CCoinsViewCache) (mapCoins : CCoinsMap) (hashBlockIn : uint256) :
    Except String CCoinsViewCache := do
  let cacheCoins ← mapCoins.entries.foldlM writeEntry cache.cacheCoins
  pure { hashBlock := hashBlockIn, cacheCoins }

/-- `UncacheNL`: an entry with no flags is dropped. -/
def uncache (cache : CCoinsViewCache) (outpoint : COutPoint) : CCoinsViewCache :=
  match cache.cacheCoins.lookup outpoint with
  | some entry =>
    if entry.flags == 0 then { cache with cacheCoins := cache.cacheCoins.erase outpoint } else cache
  | none => cache

def setBestBlock (cache : CCoinsViewCache) (hashBlockIn : uint256) : CCoinsViewCache :=
  { cache with hashBlock := hashBlockIn }

end Calls

end CCoinsViewCache

/-! ### A stack of caches -/

section Stack

variable {σ : Type} (V : CCoinsView σ)

/-- `GetCoin` of the top of `caches` over `base`: of a cache, its `FetchCoinNL`, which reads
through the caches below it on a miss; with no cache, of the base. -/
def getCoin (base : σ) (outpoint : COutPoint) :
    List CCoinsViewCache → Option Coin × List CCoinsViewCache
  | [] => (V.getCoin base outpoint, [])
  | cache :: below =>
    match cache.fetchCoinNL outpoint below (getCoin base outpoint below) with
    | (entry, cache', below') => (entry.map (·.coin), cache' :: below')

/-- `FetchCoinNL` of `cache` over `below` and `base`. -/
def fetchCoin (base : σ) (cache : CCoinsViewCache) (below : List CCoinsViewCache)
    (outpoint : COutPoint) : Option CCoinsCacheEntry × CCoinsViewCache × List CCoinsViewCache :=
  cache.fetchCoinNL outpoint below (getCoin V base outpoint below)

/-- `AccessCoin`: the coin found, or the static `coinEmpty`. -/
def accessCoin (base : σ) (cache : CCoinsViewCache) (below : List CCoinsViewCache)
    (outpoint : COutPoint) : Coin × CCoinsViewCache × List CCoinsViewCache :=
  match fetchCoin V base cache below outpoint with
  | (entry, cache', below') => ((entry.map (·.coin)).getD coinEmpty, cache', below')

/-- `HaveCoin`: a coin is found and it is not spent. -/
def haveCoin (base : σ) (cache : CCoinsViewCache) (below : List CCoinsViewCache)
    (outpoint : COutPoint) : Bool × CCoinsViewCache × List CCoinsViewCache :=
  match fetchCoin V base cache below outpoint with
  | (entry, cache', below') =>
    (match entry with
      | some entry => !entry.coin.isSpent
      | none => false, cache', below')

def spendCoin (base : σ) (cache : CCoinsViewCache) (below : List CCoinsViewCache)
    (outpoint : COutPoint) : Bool × Option Coin × CCoinsViewCache × List CCoinsViewCache :=
  match fetchCoin V base cache below outpoint with
  | (entry, cache', below') =>
    match cache'.spendEntry outpoint entry with
    | (found, moveout, cache'') => (found, moveout, cache'', below')

/-- `base->BatchWrite` for the view below a cache: the next cache, or the base. -/
def batchWriteBelow (base : σ) (mapCoins : CCoinsMap) (hashBlock : uint256) :
    List CCoinsViewCache → Except String (List CCoinsViewCache × σ)
  | [] => do
    let base' ← V.batchWrite base mapCoins hashBlock
    pure ([], base')
  | cache :: below => do
    let cache' ← cache.batchWrite mapCoins hashBlock
    pure (cache' :: below, base)

/-- `Flush`: the entries are written into the view below, and the cache is left empty. -/
def flush (base : σ) (cache : CCoinsViewCache) (below : List CCoinsViewCache) :
    Except String (CCoinsViewCache × List CCoinsViewCache × σ) := do
  let (below', base') ← batchWriteBelow V base cache.cacheCoins cache.hashBlock below
  pure ({ cache with cacheCoins := ∅ }, below', base')

/-- A stack of caches, the top first, each backed by the next and the last by `base`. -/
structure Stack (σ : Type) where
  caches : List CCoinsViewCache
  base : σ

/-- The calls of the simulation test: on the top cache, `AccessCoin`, `HaveCoin`, `AddCoin`,
`SpendCoin` and `SetBestBlock`; `Uncache` and `Flush` of the cache at a depth; a new cache pushed
on top; the top cache flushed and popped. -/
inductive Op where
  | accessCoin (outpoint : COutPoint)
  | haveCoin (outpoint : COutPoint)
  | addCoin (outpoint : COutPoint) (coin : Coin) (possible_overwrite : Bool)
      (genesisActivationHeight : Nat)
  | spendCoin (outpoint : COutPoint)
  | setBestBlock (hashBlock : uint256)
  | uncache (depth : Nat) (outpoint : COutPoint)
  | flush (depth : Nat)
  | push
  | pop

/-- `Flush` of the cache at depth `depth`; the caches above it are not touched. -/
def flushAt (base : σ) : Nat → List CCoinsViewCache → Except String (List CCoinsViewCache × σ)
  | _, [] => .error "no cache at this depth"
  | 0, cache :: below => do
    let (cache', below', base') ← flush V base cache below
    pure (cache' :: below', base')
  | depth + 1, cache :: below => do
    let (below', base') ← flushAt base depth below
    pure (cache :: below', base')

namespace Stack

/-- One call. A call on a cache the stack does not have is an error of the model: the test never
makes one. Read results are dropped: what they read is what the caches keep. -/
def step (s : Stack σ) : Op → Except String (Stack σ)
  | .push => .ok ⟨CCoinsViewCache.new :: s.caches, s.base⟩
  | .uncache depth outpoint =>
    if depth < s.caches.length then .ok ⟨s.caches.modify depth (·.uncache outpoint), s.base⟩
    else .error "no cache at this depth"
  | .flush depth => do
    let (caches, base) ← flushAt V s.base depth s.caches
    pure ⟨caches, base⟩
  | op =>
    match s.caches, op with
    | cache :: below, .accessCoin outpoint =>
      match accessCoin V s.base cache below outpoint with
      | (_, cache', below') => .ok ⟨cache' :: below', s.base⟩
    | cache :: below, .haveCoin outpoint =>
      match haveCoin V s.base cache below outpoint with
      | (_, cache', below') => .ok ⟨cache' :: below', s.base⟩
    | cache :: below, .addCoin outpoint coin possible_overwrite genesisActivationHeight => do
      let cache' ← cache.addCoin outpoint coin possible_overwrite genesisActivationHeight
      pure ⟨cache' :: below, s.base⟩
    | cache :: below, .spendCoin outpoint =>
      match spendCoin V s.base cache below outpoint with
      | (_, _, cache', below') => .ok ⟨cache' :: below', s.base⟩
    | cache :: below, .setBestBlock hashBlock => .ok ⟨cache.setBestBlock hashBlock :: below, s.base⟩
    | cache :: below, .pop => do
      let (_, below', base') ← flush V s.base cache below
      pure ⟨below', base'⟩
    | _, _ => .error "no cache at this depth"

/-- The calls one after another, up to the first error. -/
def run : List Op → Stack σ → Except String (Stack σ)
  | [], s => .ok s
  | op :: ops, s => do
    let s' ← s.step V op
    run ops s'

end Stack

end Stack

/-! ### The coins database -/

/-- `CCoinsViewDB`, by the records of its database: the coins (`DB_COIN`), the best block
(`DB_BEST_BLOCK`) and the head blocks of a flush under way (`DB_HEAD_BLOCKS`). -/
structure CCoinsViewDB where
  coins : AList (fun _ : COutPoint => Coin)
  bestBlock : Option uint256
  headBlocks : Option (List uint256)

namespace CCoinsViewDB

def getCoin (db : CCoinsViewDB) (outpoint : COutPoint) : Option Coin := db.coins.lookup outpoint

/-- `GetBestBlock`: the null hash when there is no record. -/
def getBestBlock (db : CCoinsViewDB) : uint256 := db.bestBlock.getD (Vector.replicate 32 0)

def getHeadBlocks (db : CCoinsViewDB) : List uint256 := db.headBlocks.getD []

/-- One entry of the loop of `BatchWrite`: a dirty entry is erased when spent and written when
not. -/
def writeCoin (coins : AList (fun _ : COutPoint => Coin)) (p : Σ _ : COutPoint, CCoinsCacheEntry) :
    AList (fun _ : COutPoint => Coin) :=
  if p.2.isDirty then
    if p.2.coin.isSpent then coins.erase p.1 else coins.insert p.1 p.2.coin
  else coins

/-- `BatchWrite`, with its asserts, as the records stand once its last batch is written: the coins
written, the head blocks erased and the best block `hashBlock`. The partial batches of
`-dbbatchsize` leave the same records in the end; what a crash between them leaves is not
modelled, and `WriteBatch` is taken to succeed. -/
def batchWrite (db : CCoinsViewDB) (mapCoins : CCoinsMap) (hashBlock : uint256) :
    Except String CCoinsViewDB :=
  if hashBlock.isNull then .error "assertion failed: !hashBlock.IsNull()"
  else if db.getBestBlock.isNull && db.getHeadBlocks.length == 2 &&
      db.getHeadBlocks.head? != some hashBlock then
    .error "assertion failed: old_heads[0] == hashBlock"
  else
    .ok { coins := mapCoins.entries.foldl writeCoin db.coins, bestBlock := some hashBlock,
          headBlocks := none }

def view : CCoinsView CCoinsViewDB := ⟨getCoin, batchWrite⟩

end CCoinsViewDB

end TbcNode.Coins.Cache
