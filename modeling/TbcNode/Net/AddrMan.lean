import Mathlib
import TbcNode.Util.FixedPoint

/-! # The address manager (`addrman.h`, `addrman.cpp`)

`CAddrMan` keeps a new and a tried table of buckets, `mapInfo`, `mapAddr` and `vRandom`. The keyed
bucket hashes are parameters and every random draw is an argument of its call; an `assert`, a
`mapInfo[id]` without an entry and the overflow of `nIdCount++` are errors.
-/

namespace TbcNode.Net

open TbcNode.Util

/-! ### Constants -/

def ADDRMAN_TRIED_BUCKET_COUNT_LOG2 : Nat := 8

def ADDRMAN_NEW_BUCKET_COUNT_LOG2 : Nat := 10

def ADDRMAN_BUCKET_SIZE_LOG2 : Nat := 6

def ADDRMAN_NEW_BUCKETS_PER_ADDRESS : Int := 8

def ADDRMAN_HORIZON_DAYS : Int := 7

def ADDRMAN_RETRIES : Int := 3

def ADDRMAN_MAX_FAILURES : Int := 10

def ADDRMAN_MIN_FAIL_DAYS : Int := 2

def ADDRMAN_GETADDR_MAX_PCT : Nat := 23

def ADDRMAN_GETADDR_MAX : Nat := 2500

def ADDRMAN_TRIED_BUCKET_COUNT : Nat := 1 <<< ADDRMAN_TRIED_BUCKET_COUNT_LOG2

def ADDRMAN_NEW_BUCKET_COUNT : Nat := 1 <<< ADDRMAN_NEW_BUCKET_COUNT_LOG2

def ADDRMAN_BUCKET_SIZE : Nat := 1 <<< ADDRMAN_BUCKET_SIZE_LOG2

instance instNeZeroTriedBucketCount : NeZero ADDRMAN_TRIED_BUCKET_COUNT := ⟨by decide⟩

instance instNeZeroNewBucketCount : NeZero ADDRMAN_NEW_BUCKET_COUNT := ⟨by decide⟩

instance instNeZeroBucketSize : NeZero ADDRMAN_BUCKET_SIZE := ⟨by decide⟩

def INT_MAX : Int := 2 ^ 31 - 1

/-- `(unsigned int)x` of an `int` or a `size_t`: `x` modulo `2 ^ 32`. -/
def toUnsigned (x : Int) : Nat := (x % 2 ^ 32).toNat

def nIdCountOverflow : String := "undefined behaviour: nIdCount++ overflows int"

/-! ### Addresses and entries -/

/-- `CService`: a network address `CNetAddr` and a port. -/
structure CService (σ : Type) where
  ip : σ
  port : UInt16
  deriving DecidableEq

/-- `CAddress`: a service with its service flags and the time it was last seen. -/
structure CAddress (σ : Type) extends CService σ where
  nServices : UInt64
  nTime : UInt32
  deriving DecidableEq

/-- `CAddrInfo`: an address with what the manager keeps of it. -/
structure CAddrInfo (σ : Type) extends CAddress σ where
  nLastTry : Int
  nLastCountAttempt : Int
  source : σ
  nLastSuccess : Int
  nAttempts : Int
  nRefCount : Int
  fInTried : Bool
  nRandomPos : Int
  deriving DecidableEq

variable {σ : Type}

/-- `CAddrInfo(addrIn, addrSource)`, with the fields `Init()` sets. -/
def CAddrInfo.ofAddress (addrIn : CAddress σ) (addrSource : σ) : CAddrInfo σ :=
  { toCAddress := addrIn, nLastTry := 0, nLastCountAttempt := 0, source := addrSource,
    nLastSuccess := 0, nAttempts := 0, nRefCount := 0, fInTried := false, nRandomPos := -1 }

def CAddrInfo.isTerrible (info : CAddrInfo σ) (nNow : Int) : Bool :=
  if info.nLastTry ≠ 0 ∧ info.nLastTry ≥ nNow - 60 then false
  else if (info.nTime.toNat : Int) > nNow + 10 * 60 then true
  else if info.nTime = 0 ∨ nNow - info.nTime.toNat > ADDRMAN_HORIZON_DAYS * 24 * 60 * 60 then true
  else if info.nLastSuccess = 0 ∧ info.nAttempts ≥ ADDRMAN_RETRIES then true
  else if nNow - info.nLastSuccess > ADDRMAN_MIN_FAIL_DAYS * 24 * 60 * 60 ∧
      info.nAttempts ≥ ADDRMAN_MAX_FAILURES then true
  else false

def CAddrInfo.getChance (info : CAddrInfo σ) (nNow : Int) : Float :=
  let nSinceLastTry := max (nNow - info.nLastTry) 0
  let fChance : Float := if nSinceLastTry < 60 * 10 then 1.0 * 0.01 else 1.0
  fChance * Float.pow 0.66 (Float.ofInt (min info.nAttempts 8))

/-- The keyed hashes of a `CAddrMan`'s `nKey`: `GetTriedBucket`, `GetNewBucket` (of an address
and a source) and `GetBucketPosition`, each into its range. -/
structure BucketHashes (σ : Type) where
  getTriedBucket : CService σ → Fin ADDRMAN_TRIED_BUCKET_COUNT
  getNewBucket : CService σ → σ → Fin ADDRMAN_NEW_BUCKET_COUNT
  getBucketPosition : CService σ → Bool → Nat → Fin ADDRMAN_BUCKET_SIZE

/-! ### The manager -/

/-- `CAddrMan`. -/
structure CAddrMan (σ : Type) where
  nKey : Nat
  nIdCount : Int
  mapInfo : Int → Option (CAddrInfo σ)
  mapAddr : σ → Option Int
  vRandom : List Int
  nTried : Int
  vvTried : Fin ADDRMAN_TRIED_BUCKET_COUNT × Fin ADDRMAN_BUCKET_SIZE → Int
  nNew : Int
  vvNew : Fin ADDRMAN_NEW_BUCKET_COUNT × Fin ADDRMAN_BUCKET_SIZE → Int
  nLastGood : Int

/-- `CAddrMan()`, which runs `Clear()`; `nKey` is the value `GetRandHash()` gave. -/
def CAddrMan.empty (nKey : Nat) : CAddrMan σ where
  nKey := nKey
  nIdCount := 0
  mapInfo := fun _ => none
  mapAddr := fun _ => none
  vRandom := []
  nTried := 0
  vvTried := fun _ => -1
  nNew := 0
  vvNew := fun _ => -1
  nLastGood := 1

namespace CAddrMan

variable [DecidableEq σ] (H : BucketHashes σ)

/-- A write through a reference to the entry of `nId`, as `mapInfo[nId].field = …` on an entry
that exists. -/
def modifyInfo (s : CAddrMan σ) (nId : Int) (f : CAddrInfo σ → CAddrInfo σ) : CAddrMan σ :=
  { s with mapInfo := Function.update s.mapInfo nId ((s.mapInfo nId).map f) }

/-- `Find(addr, &nId)`: the id and the entry of a network address. -/
def find (s : CAddrMan σ) (addr : σ) : Option (Int × CAddrInfo σ) :=
  (s.mapAddr addr).bind fun nId => (s.mapInfo nId).map fun info => (nId, info)

def create (s : CAddrMan σ) (addr : CAddress σ) (addrSource : σ) :
    Except String (Int × CAddrMan σ) :=
  if s.nIdCount = INT_MAX then .error nIdCountOverflow
  else
    let nId := s.nIdCount
    let info := { CAddrInfo.ofAddress addr addrSource with nRandomPos := toInt32 s.vRandom.length }
    .ok (nId, { s with
      nIdCount := nId + 1
      mapInfo := Function.update s.mapInfo nId (some info)
      mapAddr := Function.update s.mapAddr addr.ip (some nId)
      vRandom := s.vRandom ++ [nId] })

def swapRandom (s : CAddrMan σ) (nRndPos1 nRndPos2 : Nat) : Except String (CAddrMan σ) :=
  if nRndPos1 = nRndPos2 then .ok s
  else if h : nRndPos1 < s.vRandom.length ∧ nRndPos2 < s.vRandom.length then
    let nId1 := s.vRandom.get ⟨nRndPos1, h.1⟩
    let nId2 := s.vRandom.get ⟨nRndPos2, h.2⟩
    if (s.mapInfo nId1).isNone then .error "assert(mapInfo.count(nId1) == 1)"
    else if (s.mapInfo nId2).isNone then .error "assert(mapInfo.count(nId2) == 1)"
    else
      let s' := (s.modifyInfo nId1 fun info => { info with nRandomPos := toInt32 nRndPos2 })
        |>.modifyInfo nId2 fun info => { info with nRandomPos := toInt32 nRndPos1 }
      .ok { s' with vRandom := (s.vRandom.set nRndPos1 nId2).set nRndPos2 nId1 }
  else .error "assert(nRndPos1 < vRandom.size() && nRndPos2 < vRandom.size())"

def delete (s : CAddrMan σ) (nId : Int) : Except String (CAddrMan σ) :=
  match s.mapInfo nId with
  | none => .error "assert(mapInfo.count(nId) != 0)"
  | some info =>
    if info.fInTried then .error "assert(!info.fInTried)"
    else if info.nRefCount ≠ 0 then .error "assert(info.nRefCount == 0)"
    else
      (s.swapRandom (toUnsigned info.nRandomPos) (toUnsigned (s.vRandom.length - 1))).bind
        fun s =>
          if s.vRandom = [] then .error "undefined behaviour: vRandom.pop_back() on an empty vector"
          else .ok { s with
            vRandom := s.vRandom.dropLast
            mapAddr := Function.update s.mapAddr info.ip none
            mapInfo := Function.update s.mapInfo nId none
            nNew := s.nNew - 1 }

/-- `ClearNew(nUBucket, nUBucketPos)`: if there is an entry in the slot, delete it.
`mapInfo[nIdDelete]` of an id without an entry makes a default one, of `nRefCount` 0. -/
def clearNew (s : CAddrMan σ) (nUBucket : Fin ADDRMAN_NEW_BUCKET_COUNT)
    (nUBucketPos : Fin ADDRMAN_BUCKET_SIZE) : Except String (CAddrMan σ) :=
  let nIdDelete := s.vvNew (nUBucket, nUBucketPos)
  if nIdDelete = -1 then .ok s
  else
    match s.mapInfo nIdDelete with
    | none => .error "assert(infoDelete.nRefCount > 0)"
    | some infoDelete =>
      if infoDelete.nRefCount ≤ 0 then .error "assert(infoDelete.nRefCount > 0)"
      else
        let s' := { (s.modifyInfo nIdDelete fun info => { info with nRefCount := info.nRefCount - 1 })
          with vvNew := Function.update s.vvNew (nUBucket, nUBucketPos) (-1) }
        if infoDelete.nRefCount - 1 = 0 then s'.delete nIdDelete else .ok s'

/-- The loop of `MakeTried` that removes the entry `nId`, of service `svc`, from every new bucket
of the list. -/
def removeFromNew (svc : CService σ) (nId : Int) (s : CAddrMan σ) :
    List (Fin ADDRMAN_NEW_BUCKET_COUNT) → CAddrMan σ
  | [] => s
  | bucket :: buckets =>
    let pos := H.getBucketPosition svc true bucket
    let s' := if s.vvNew (bucket, pos) = nId then
        { (s.modifyInfo nId fun info => { info with nRefCount := info.nRefCount - 1 })
          with vvNew := Function.update s.vvNew (bucket, pos) (-1) }
      else s
    removeFromNew svc nId s' buckets

/-- The branch of `MakeTried` that moves the entry in the tried slot `slot` back to the new
table, deleting whatever is in its new slot. -/
def evictTried (s : CAddrMan σ)
    (slot : Fin ADDRMAN_TRIED_BUCKET_COUNT × Fin ADDRMAN_BUCKET_SIZE) :
    Except String (CAddrMan σ) :=
  let nIdEvict := s.vvTried slot
  match s.mapInfo nIdEvict with
  | none => .error "assert(mapInfo.count(nIdEvict) == 1)"
  | some infoOld =>
    let s₁ := { (s.modifyInfo nIdEvict fun info => { info with fInTried := false })
      with
        vvTried := Function.update s.vvTried slot (-1)
        nTried := s.nTried - 1 }
    let nUBucket := H.getNewBucket infoOld.toCService infoOld.source
    let nUBucketPos := H.getBucketPosition infoOld.toCService true nUBucket
    (s₁.clearNew nUBucket nUBucketPos).bind fun s₂ =>
      if s₂.vvNew (nUBucket, nUBucketPos) ≠ -1 then
        .error "assert(vvNew[nUBucket][nUBucketPos] == -1)"
      else
        .ok { (s₂.modifyInfo nIdEvict fun info => { info with nRefCount := 1 })
          with
            vvNew := Function.update s₂.vvNew (nUBucket, nUBucketPos) nIdEvict
            nNew := s₂.nNew + 1 }

/-- `MakeTried(info, nId)`, where `svc` is the service of the entry `info` of `nId`. -/
def makeTried (s : CAddrMan σ) (svc : CService σ) (nId : Int) : Except String (CAddrMan σ) :=
  let s₁ := removeFromNew H svc nId s (List.finRange ADDRMAN_NEW_BUCKET_COUNT)
  let s₁ := { s₁ with nNew := s₁.nNew - 1 }
  if (s₁.mapInfo nId).any (·.nRefCount ≠ 0) then .error "assert(info.nRefCount == 0)"
  else
    let nKBucket := H.getTriedBucket svc
    let nKBucketPos := H.getBucketPosition svc false nKBucket
    let made := if s₁.vvTried (nKBucket, nKBucketPos) ≠ -1 then
      s₁.evictTried H (nKBucket, nKBucketPos) else .ok s₁
    made.bind fun s₂ =>
      if s₂.vvTried (nKBucket, nKBucketPos) ≠ -1 then
        .error "assert(vvTried[nKBucket][nKBucketPos] == -1)"
      else
        .ok { (s₂.modifyInfo nId fun info => { info with fInTried := true })
          with
            vvTried := Function.update s₂.vvTried (nKBucket, nKBucketPos) nId
            nTried := s₂.nTried + 1 }

/-- `Good_(addr, nTime)`, where `nRnd` is the draw of `RandomInt(ADDRMAN_NEW_BUCKET_COUNT)`. -/
def good_ (s : CAddrMan σ) (addr : CService σ) (nTime : Int) (nRnd : Nat) :
    Except String (CAddrMan σ) :=
  let s := { s with nLastGood := nTime }
  match s.find addr.ip with
  | none => .ok s
  | some (nId, info) =>
    if info.toCService ≠ addr then .ok s
    else
      let s := s.modifyInfo nId fun info =>
        { info with nLastSuccess := nTime, nLastTry := nTime, nAttempts := 0 }
      if info.fInTried then .ok s
      else
        let nRnd := nRnd % ADDRMAN_NEW_BUCKET_COUNT
        let found := (List.range ADDRMAN_NEW_BUCKET_COUNT).find? fun n =>
          let nB := Fin.ofNat ADDRMAN_NEW_BUCKET_COUNT (n + nRnd)
          s.vvNew (nB, H.getBucketPosition info.toCService true nB) = nId
        let nUBucket : Int := found.elim (-1) fun n => ((n + nRnd) % ADDRMAN_NEW_BUCKET_COUNT : Nat)
        if nUBucket = -1 then .ok s
        else s.makeTried H info.toCService nId

/-- The end of `Add_`: the entry `nId`, of service `svc`, takes the slot that `source` gives it in
the new table when the slot is free or its occupant may be overwritten; an entry created by this
call (`fNew`) that finds no slot is deleted again. -/
def addToNew (nNow : Int) (s : CAddrMan σ) (source : σ) (nId : Int) (svc : CService σ)
    (fNew : Bool) : Except String (Bool × CAddrMan σ) :=
  let nUBucket := H.getNewBucket svc source
  let nUBucketPos := H.getBucketPosition svc true nUBucket
  let nRefCount := ((s.mapInfo nId).map (·.nRefCount)).getD 0
  if s.vvNew (nUBucket, nUBucketPos) = nId then .ok (fNew, s)
  else
    let insert : Except String Bool :=
      if s.vvNew (nUBucket, nUBucketPos) = -1 then .ok true
      else
        match s.mapInfo (s.vvNew (nUBucket, nUBucketPos)) with
        | none => .error "mapInfo[vvNew[nUBucket][nUBucketPos]] of an id without an entry"
        | some infoExisting =>
          .ok (infoExisting.isTerrible nNow || (decide (infoExisting.nRefCount > 1) &&
            decide (nRefCount = 0)))
    insert.bind fun fInsert =>
      if fInsert then
        (s.clearNew nUBucket nUBucketPos).bind fun s' =>
          .ok (fNew, { (s'.modifyInfo nId fun info => { info with nRefCount := info.nRefCount + 1 })
            with vvNew := Function.update s'.vvNew (nUBucket, nUBucketPos) nId })
      else if nRefCount = 0 then (s.delete nId).map fun s' => (fNew, s')
      else .ok (fNew, s)

/-- `Add_(addr, source, nTimePenalty)`, where `nAdjustedTime` is what `GetAdjustedTime()` reads
and `nRnd` the draw of `RandomInt(nFactor)`. -/
def add_ (isRoutable : σ → Bool) (s : CAddrMan σ) (addr : CAddress σ) (source : σ)
    (nTimePenalty nAdjustedTime : Int) (nRnd : Nat) : Except String (Bool × CAddrMan σ) :=
  if !isRoutable addr.ip then .ok (false, s)
  else
    let nTimePenalty := if addr.ip = source then 0 else nTimePenalty
    match s.find addr.ip with
    | some (nId, pinfo) =>
      let fCurrentlyOnline := nAdjustedTime - addr.nTime.toNat < 24 * 60 * 60
      let nUpdateInterval : Int := if fCurrentlyOnline then 60 * 60 else 24 * 60 * 60
      let nTime := if addr.nTime ≠ 0 ∧ (pinfo.nTime = 0 ∨
          (pinfo.nTime.toNat : Int) < addr.nTime.toNat - nUpdateInterval - nTimePenalty) then
          UInt32.ofInt (max 0 (addr.nTime.toNat - nTimePenalty))
        else pinfo.nTime
      let nServices := pinfo.nServices ||| addr.nServices
      let s := s.modifyInfo nId fun info => { info with nTime := nTime, nServices := nServices }
      if addr.nTime = 0 ∨ (nTime ≠ 0 ∧ addr.nTime ≤ nTime) then .ok (false, s)
      else if pinfo.fInTried then .ok (false, s)
      else if pinfo.nRefCount = ADDRMAN_NEW_BUCKETS_PER_ADDRESS then .ok (false, s)
      else
        let nFactor : Nat := 2 ^ pinfo.nRefCount.toNat
        if nFactor > 1 ∧ nRnd % nFactor ≠ 0 then .ok (false, s)
        else addToNew H nAdjustedTime s source nId pinfo.toCService false
    | none =>
      (s.create addr source).bind fun created =>
        let nId := created.1
        let s := created.2.modifyInfo nId fun info =>
          { info with nTime := UInt32.ofInt (max 0 ((info.nTime.toNat : Int) - nTimePenalty)) }
        let s := { s with nNew := s.nNew + 1 }
        addToNew H nAdjustedTime s source nId addr.toCService true

/-- The common start of `Attempt_`, `Connected_` and `SetServices_`: find the entry of exactly
the service `addr`, including the port, and update it, or bail out. -/
def updateService (s : CAddrMan σ) (addr : CService σ) (f : CAddrInfo σ → CAddrInfo σ) :
    CAddrMan σ :=
  match s.find addr.ip with
  | none => s
  | some (nId, info) => if info.toCService ≠ addr then s else s.modifyInfo nId f

def attempt_ (s : CAddrMan σ) (addr : CService σ) (fCountFailure : Bool) (nTime : Int) :
    CAddrMan σ :=
  s.updateService addr fun info =>
    if fCountFailure ∧ info.nLastCountAttempt < s.nLastGood then
      { info with nLastTry := nTime, nLastCountAttempt := nTime, nAttempts := info.nAttempts + 1 }
    else { info with nLastTry := nTime }

def connected_ (s : CAddrMan σ) (addr : CService σ) (nTime : Int) : CAddrMan σ :=
  s.updateService addr fun info =>
    let nUpdateInterval : Int := 20 * 60
    if nTime - info.nTime.toNat > nUpdateInterval then { info with nTime := UInt32.ofInt nTime }
    else info

def setServices_ (s : CAddrMan σ) (addr : CService σ) (nServices : UInt64) : CAddrMan σ :=
  s.updateService addr fun info => { info with nServices := nServices }

end CAddrMan

/-! ### Selection -/

/-- What `Select_` returns: `CAddrInfo()` when there is nothing to choose, the chosen entry, or
`pending` when the draws given run out before its loop ends. -/
inductive Selection (σ : Type) where
  | empty
  | chosen (info : CAddrInfo σ)
  | pending

variable [DecidableEq σ]

/-- The inner loop of `Select_`: from a slot of `tbl`, step by the offsets `randbits` draws
until the slot is occupied. -/
def seekSlot {nb : Nat} [NeZero nb] (tbl : Fin nb × Fin ADDRMAN_BUCKET_SIZE → Int)
    (bucketLog2 : Nat) :
    List Nat → Fin nb → Fin ADDRMAN_BUCKET_SIZE → Option (Fin nb × Fin ADDRMAN_BUCKET_SIZE × List Nat)
  | d₁ :: d₂ :: ds, b, p =>
    if tbl (b, p) ≠ -1 then some (b, p, d₁ :: d₂ :: ds)
    else
      seekSlot tbl bucketLog2 ds (Fin.ofNat nb (b + d₁ % 2 ^ bucketLog2))
        (Fin.ofNat ADDRMAN_BUCKET_SIZE (p + d₂ % 2 ^ ADDRMAN_BUCKET_SIZE_LOG2))
  | ds, b, p => if tbl (b, p) ≠ -1 then some (b, p, ds) else none

theorem length_seekSlot {nb : Nat} [NeZero nb] {tbl : Fin nb × Fin ADDRMAN_BUCKET_SIZE → Int}
    {bucketLog2 : Nat} {ds ds' : List Nat} {b b' : Fin nb} {p p' : Fin ADDRMAN_BUCKET_SIZE}
    (h : seekSlot tbl bucketLog2 ds b p = some (b', p', ds')) : ds'.length ≤ ds.length := by
  induction ds, b, p using seekSlot.induct tbl bucketLog2 with
  | case1 d₁ d₂ ds b p hb =>
    rw [seekSlot, if_pos hb] at h
    cases h
    exact le_refl _
  | case2 d₁ d₂ ds b p hb ih =>
    rw [seekSlot, if_neg hb] at h
    have := ih h
    simp only [List.length_cons]
    omega
  | case3 ds b p hds hb =>
    unfold seekSlot at h
    split at h
    · exact absurd rfl (hds _ _ _)
    · rw [if_pos hb] at h
      cases h
      exact le_refl _
  | case4 ds b p hds hb =>
    unfold seekSlot at h
    split at h
    · exact absurd rfl (hds _ _ _)
    · rw [if_neg hb] at h
      cases h

/-- The outer loop of `Select_` over the table `tbl`: pick a slot, find an occupied one, and
take its entry with the chance `fChanceFactor * GetChance()`, or raise the factor and go on. -/
def selectLoop {nb : Nat} [NeZero nb] (tbl : Fin nb × Fin ADDRMAN_BUCKET_SIZE → Int)
    (bucketLog2 : Nat) (mapInfo : Int → Option (CAddrInfo σ)) (nNow : Int)
    (fChanceFactor : Float) (ds : List Nat) : Except String (Selection σ) :=
  match ds with
  | d₁ :: d₂ :: ds =>
    match h : seekSlot tbl bucketLog2 ds (Fin.ofNat nb d₁) (Fin.ofNat ADDRMAN_BUCKET_SIZE d₂) with
    | none => .ok .pending
    | some (b, p, ds') =>
      match mapInfo (tbl (b, p)) with
      | none => .error "assert(mapInfo.count(nId) == 1)"
      | some info =>
        match ds' with
        | [] => .ok .pending
        | r :: ds'' =>
          if (r % 2 ^ 30 : Nat).toFloat < fChanceFactor * info.getChance nNow * (2 ^ 30 : Nat).toFloat
          then .ok (.chosen info)
          else selectLoop tbl bucketLog2 mapInfo nNow (fChanceFactor * 1.2) ds''
  | _ => .ok .pending
termination_by ds.length
decreasing_by
  have := length_seekSlot h
  simp only [List.length_cons] at this ⊢
  omega

namespace CAddrMan

/-- `Select_(newOnly)`, with `nNow` what `GetAdjustedTime()` reads in `GetChance` and `ds` the
draws of `RandomInt` and `randbits`, in the order the code makes them. `RandomInt(2)`, the choice
between the tables, is drawn only when both have entries. -/
def select_ (s : CAddrMan σ) (newOnly : Bool) (nNow : Int) (ds : List Nat) :
    Except String (Selection σ) :=
  let tried := selectLoop s.vvTried ADDRMAN_TRIED_BUCKET_COUNT_LOG2 s.mapInfo nNow 1.0
  let new := selectLoop s.vvNew ADDRMAN_NEW_BUCKET_COUNT_LOG2 s.mapInfo nNow 1.0
  if s.vRandom.length = 0 then .ok .empty
  else if newOnly ∧ s.nNew = 0 then .ok .empty
  else if !newOnly ∧ s.nTried > 0 ∧ s.nNew = 0 then tried ds
  else if !newOnly ∧ s.nTried > 0 then
    match ds with
    | [] => .ok .pending
    | d :: ds => if d % 2 = 0 then tried ds else new ds
  else new ds

/-- `GetAddr_(vAddr)`, where `nNow` is what `GetAdjustedTime()` reads in `IsTerrible` and `ds` the
draws of `RandomInt(vRandom.size() - n)`; the loop runs from position `n` with `vAddr` gathered. -/
def getAddrLoop (s : CAddrMan σ) (nNow : Int) (nNodes : Nat) (n : Nat) (vAddr : List (CAddress σ)) :
    List Nat → Except String (List (CAddress σ) × CAddrMan σ)
  | [] => .ok (vAddr, s)
  | d :: ds =>
    if s.vRandom.length ≤ n ∨ nNodes ≤ vAddr.length then .ok (vAddr, s)
    else
      let nRndPos := d % (s.vRandom.length - n) + n
      (s.swapRandom n nRndPos).bind fun s' =>
        match s'.vRandom[n]?.bind s'.mapInfo with
        | none => .error "assert(mapInfo.count(vRandom[n]) == 1)"
        | some ai =>
          let vAddr := if !ai.isTerrible nNow then vAddr ++ [ai.toCAddress] else vAddr
          s'.getAddrLoop nNow nNodes (n + 1) vAddr ds

/-- `GetAddr_(vAddr)`: at most `ADDRMAN_GETADDR_MAX_PCT` percent of the entries, and at most
`ADDRMAN_GETADDR_MAX`, gathered at random and skipping those of low quality. -/
def getAddr_ (s : CAddrMan σ) (nNow : Int) (ds : List Nat) :
    Except String (List (CAddress σ) × CAddrMan σ) :=
  let nNodes := ADDRMAN_GETADDR_MAX_PCT * s.vRandom.length / 100
  let nNodes := if nNodes > ADDRMAN_GETADDR_MAX then ADDRMAN_GETADDR_MAX else nNodes
  s.getAddrLoop nNow nNodes 0 [] ds

/-! ### Runs -/

variable (H : BucketHashes σ)

/-- A call of the manager's interface. -/
inductive Op (σ : Type) where
  | add (addr : CAddress σ) (source : σ) (nTimePenalty nAdjustedTime : Int) (nRnd : Nat)
  | good (addr : CService σ) (nTime : Int) (nRnd : Nat)
  | attempt (addr : CService σ) (fCountFailure : Bool) (nTime : Int)
  | connected (addr : CService σ) (nTime : Int)
  | setServices (addr : CService σ) (nServices : UInt64)
  | select (newOnly : Bool) (nNow : Int) (draws : List Nat)

variable (isRoutable : σ → Bool)

/-- One call, through the unlocked function it runs (`Add_`, `Good_`, …). -/
def step (s : CAddrMan σ) : Op σ → Except String (CAddrMan σ)
  | .add addr source nTimePenalty nAdjustedTime nRnd =>
    (s.add_ H isRoutable addr source nTimePenalty nAdjustedTime nRnd).map Prod.snd
  | .good addr nTime nRnd => s.good_ H addr nTime nRnd
  | .attempt addr fCountFailure nTime => .ok (s.attempt_ addr fCountFailure nTime)
  | .connected addr nTime => .ok (s.connected_ addr nTime)
  | .setServices addr nServices => .ok (s.setServices_ addr nServices)
  | .select newOnly nNow draws => (s.select_ newOnly nNow draws).map fun _ => s

/-- A sequence of calls, stopped by the first error. -/
def run (s : CAddrMan σ) : List (Op σ) → Except String (CAddrMan σ)
  | [] => .ok s
  | op :: ops => (s.step H isRoutable op).bind fun s' => s'.run ops

end CAddrMan

end TbcNode.Net
