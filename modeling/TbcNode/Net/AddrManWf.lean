import Mathlib
import TbcNode.Net.AddrMan
import TbcNode.Logic.Occupancy
import TbcNode.Logic.Positions

/-! # The tables of the address manager stay well formed

`CAddrMan.Wf` holds between any two statements of the primitives: `vRandom`, `mapAddr`, the
reference counts and the slots of both tables agree with `mapInfo`. Each primitive has one lemma
that runs it from a well-formed state and says how the state after it differs.
-/

namespace TbcNode.Net

open TbcNode.Logic TbcNode.Util

variable {σ : Type} (H : BucketHashes σ)

/-- The slot of the tried table an entry of service `svc` belongs in. -/
def triedSlot (svc : CService σ) : Fin ADDRMAN_TRIED_BUCKET_COUNT × Fin ADDRMAN_BUCKET_SIZE :=
  (H.getTriedBucket svc, H.getBucketPosition svc false (H.getTriedBucket svc))

/-- What `Check_` asks of one entry by itself. -/
structure EntryOk (n : Int) (info : CAddrInfo σ) : Prop where
  id_nonneg : 0 ≤ n
  randomPos_nonneg : 0 ≤ info.nRandomPos
  refCount_le : info.nRefCount ≤ ADDRMAN_NEW_BUCKETS_PER_ADDRESS
  lastTry_nonneg : 0 ≤ info.nLastTry
  lastSuccess_nonneg : 0 ≤ info.nLastSuccess
  lastSuccess_pos : info.fInTried = true → 0 < info.nLastSuccess

theorem EntryOk.congr {n : Int} {info info' : CAddrInfo σ} (h : EntryOk n info)
    (hp : info'.nRandomPos = info.nRandomPos) (hr : info'.nRefCount = info.nRefCount)
    (ht : info'.fInTried = info.fInTried) (hs : info'.nLastSuccess = info.nLastSuccess)
    (hl : 0 ≤ info'.nLastTry) : EntryOk n info' :=
  ⟨h.id_nonneg, hp ▸ h.randomPos_nonneg, hr ▸ h.refCount_le, hl, hs ▸ h.lastSuccess_nonneg,
    fun h' => hs ▸ h.lastSuccess_pos (ht ▸ h')⟩

/-- Where an entry belongs in the tables: its service, and whether it is tried. -/
def CAddrInfo.place (info : CAddrInfo σ) : CService σ × Bool := (info.toCService, info.fInTried)

/-- An entry without its position in `vRandom`. -/
def CAddrInfo.unplaced (info : CAddrInfo σ) : CAddrInfo σ := { info with nRandomPos := -1 }

theorem CAddrInfo.congr_unplaced {i j : CAddrInfo σ} (h : i.unplaced = j.unplaced) {β : Type*}
    (f : CAddrInfo σ → β) (hf : ∀ k, f k.unplaced = f k) : f i = f j := by
  rw [← hf i, h, hf j]

namespace CAddrMan

/-- The position in `vRandom` each entry records. -/
def randomPos (s : CAddrMan σ) (n : Int) : Option Nat :=
  (s.mapInfo n).map fun info => info.nRandomPos.toNat

/-- The tables of the manager are well formed. -/
structure Wf (s : CAddrMan σ) : Prop where
  /-- `vRandom` lists the ids of `mapInfo`, each at the position its entry records. -/
  indexes : Indexes s.vRandom s.randomPos
  entry : ∀ n info, s.mapInfo n = some info → EntryOk n info
  id_lt : ∀ n info, s.mapInfo n = some info → n < s.nIdCount
  nIdCount_nonneg : 0 ≤ s.nIdCount
  nIdCount_le : s.nIdCount ≤ INT_MAX
  mapAddr_info : ∀ n info, s.mapInfo n = some info → s.mapAddr info.ip = some n
  info_mapAddr : ∀ a n, s.mapAddr a = some n → ∃ info, s.mapInfo n = some info ∧ info.ip = a
  /-- `nRefCount` counts the new-table slots holding the entry. -/
  refCount_eq : ∀ n info, s.mapInfo n = some info → info.nRefCount = occupancy s.vvNew n
  /-- An occupied new slot holds an entry outside the tried table, at its own position. -/
  new_slot : ∀ x, s.vvNew x ≠ -1 → ∃ info, s.mapInfo (s.vvNew x) = some info ∧
    info.fInTried = false ∧ H.getBucketPosition info.toCService true x.1 = x.2
  /-- An occupied tried slot holds a tried entry, in the slot it belongs in. -/
  tried_slot : ∀ x, s.vvTried x ≠ -1 → ∃ info, s.mapInfo (s.vvTried x) = some info ∧
    info.fInTried = true ∧ triedSlot H info.toCService = x
  slot_tried : ∀ n info, s.mapInfo n = some info → info.fInTried = true →
    s.vvTried (triedSlot H info.toCService) = n

/-- What the manager holds, without the order of `vRandom` and the positions its entries
record. -/
def content (s : CAddrMan σ) : CAddrMan σ :=
  { s with mapInfo := fun n => (s.mapInfo n).map CAddrInfo.unplaced, vRandom := [] }

/-- Two states with entries of the same ids, which belong in the same places of the tables. -/
def SamePlaces (s s' : CAddrMan σ) : Prop :=
  ∀ n, (s'.mapInfo n).map CAddrInfo.place = (s.mapInfo n).map CAddrInfo.place

/-- `s'` has the entries of `s` but for `o`, up to their positions in `vRandom`, and the same
tried table, ids, key and counter of tried entries. -/
structure Frame (s s' : CAddrMan σ) (o : Int) : Prop where
  mapInfo_ne : ∀ n, n ≠ o →
    (s'.mapInfo n).map CAddrInfo.unplaced = (s.mapInfo n).map CAddrInfo.unplaced
  vvTried_eq : s'.vvTried = s.vvTried
  nTried_eq : s'.nTried = s.nTried
  nIdCount_eq : s'.nIdCount = s.nIdCount
  nKey_eq : s'.nKey = s.nKey
  nLastGood_eq : s'.nLastGood = s.nLastGood

/-- Whether `n` is an entry of the tried table. -/
def isTried (s : CAddrMan σ) (n : Int) : Bool := (s.mapInfo n).any (·.fInTried)

/-- Whether `n` is an entry of the new table. -/
def isNew (s : CAddrMan σ) (n : Int) : Bool := (s.mapInfo n).any (!·.fInTried)

def triedCount (s : CAddrMan σ) : Nat := s.vRandom.countP s.isTried

def newCount (s : CAddrMan σ) : Nat := s.vRandom.countP s.isNew

/-- How far `nNew` and `nTried` are ahead of the entries they count. -/
def gaps (s : CAddrMan σ) : Int × Int := (s.nNew - s.newCount, s.nTried - s.triedCount)

/-- What `Check_` asks of an entry beyond `Wf`: outside the tried table, it stands in some new
slot. -/
def Placed (s : CAddrMan σ) (n : Int) : Prop :=
  ∀ info, s.mapInfo n = some info → info.fInTried = false → 0 < info.nRefCount

/-! ### Field lemmas -/

section Fields

variable (s : CAddrMan σ) (nId : Int) (f : CAddrInfo σ → CAddrInfo σ)

@[simp] theorem modifyInfo_mapInfo [DecidableEq σ] (m : Int) :
    (s.modifyInfo nId f).mapInfo m = if m = nId then (s.mapInfo nId).map f else s.mapInfo m := by
  simp only [modifyInfo, Function.update_apply]

@[simp] theorem modifyInfo_mapAddr : (s.modifyInfo nId f).mapAddr = s.mapAddr := rfl

@[simp] theorem modifyInfo_vRandom : (s.modifyInfo nId f).vRandom = s.vRandom := rfl

@[simp] theorem modifyInfo_vvNew : (s.modifyInfo nId f).vvNew = s.vvNew := rfl

@[simp] theorem modifyInfo_vvTried : (s.modifyInfo nId f).vvTried = s.vvTried := rfl

@[simp] theorem modifyInfo_nIdCount : (s.modifyInfo nId f).nIdCount = s.nIdCount := rfl

@[simp] theorem modifyInfo_nTried : (s.modifyInfo nId f).nTried = s.nTried := rfl

@[simp] theorem modifyInfo_nNew : (s.modifyInfo nId f).nNew = s.nNew := rfl

@[simp] theorem modifyInfo_nKey : (s.modifyInfo nId f).nKey = s.nKey := rfl

@[simp] theorem modifyInfo_nLastGood : (s.modifyInfo nId f).nLastGood = s.nLastGood := rfl

@[simp] theorem content_mapInfo (m : Int) :
    s.content.mapInfo m = (s.mapInfo m).map CAddrInfo.unplaced := rfl

@[simp] theorem content_mapAddr : s.content.mapAddr = s.mapAddr := rfl

@[simp] theorem content_vvNew : s.content.vvNew = s.vvNew := rfl

@[simp] theorem content_vvTried : s.content.vvTried = s.vvTried := rfl

@[simp] theorem content_nIdCount : s.content.nIdCount = s.nIdCount := rfl

@[simp] theorem content_nTried : s.content.nTried = s.nTried := rfl

@[simp] theorem content_nNew : s.content.nNew = s.nNew := rfl

@[simp] theorem content_nKey : s.content.nKey = s.nKey := rfl

@[simp] theorem content_nLastGood : s.content.nLastGood = s.nLastGood := rfl

variable [DecidableEq σ]

theorem modifyInfo_mapInfo_eq_some {m : Int} {info' : CAddrInfo σ} :
    (s.modifyInfo nId f).mapInfo m = some info' ↔
      (m = nId ∧ ∃ info, s.mapInfo nId = some info ∧ f info = info') ∨
        (m ≠ nId ∧ s.mapInfo m = some info') := by
  rw [modifyInfo_mapInfo]
  by_cases hm : m = nId
  · simp [hm]
  · simp [hm]

end Fields

theorem find_eq_some {s : CAddrMan σ} {a : σ} {n : Int} {info : CAddrInfo σ}
    (h : s.find a = some (n, info)) : s.mapAddr a = some n ∧ s.mapInfo n = some info := by
  simp only [find, Option.bind_eq_some_iff, Option.map_eq_some_iff, Prod.mk.injEq] at h
  obtain ⟨n', hn', info', hi', rfl, rfl⟩ := h
  exact ⟨hn', hi'⟩

theorem Frame.refl (s : CAddrMan σ) (o : Int) : Frame s s o :=
  ⟨fun _ _ => rfl, rfl, rfl, rfl, rfl, rfl⟩

theorem Frame.trans {s₁ s₂ s₃ : CAddrMan σ} {o : Int} (h₁ : Frame s₁ s₂ o) (h₂ : Frame s₂ s₃ o) :
    Frame s₁ s₃ o :=
  ⟨fun n hn => (h₂.mapInfo_ne n hn).trans (h₁.mapInfo_ne n hn),
    h₂.vvTried_eq.trans h₁.vvTried_eq, h₂.nTried_eq.trans h₁.nTried_eq,
    h₂.nIdCount_eq.trans h₁.nIdCount_eq, h₂.nKey_eq.trans h₁.nKey_eq,
    h₂.nLastGood_eq.trans h₁.nLastGood_eq⟩

theorem exists_of_map_unplaced {o o' : Option (CAddrInfo σ)}
    (h : o'.map CAddrInfo.unplaced = o.map CAddrInfo.unplaced) {info : CAddrInfo σ}
    (hi : o = some info) : ∃ info', o' = some info' ∧ info'.unplaced = info.unplaced := by
  subst hi
  rw [Option.map_some] at h
  exact Option.map_eq_some_iff.mp h

theorem placed_congr {s s' : CAddrMan σ} {n : Int}
    (h : (s'.mapInfo n).map CAddrInfo.unplaced = (s.mapInfo n).map CAddrInfo.unplaced) :
    s'.Placed n ↔ s.Placed n := by
  constructor
  · intro hp info hi hnt
    obtain ⟨info', hi', hu⟩ := exists_of_map_unplaced h hi
    have := hp info' hi' ((CAddrInfo.congr_unplaced hu CAddrInfo.fInTried fun _ => rfl).trans hnt)
    rwa [CAddrInfo.congr_unplaced hu CAddrInfo.nRefCount fun _ => rfl] at this
  · intro hp info' hi' hnt
    obtain ⟨info, hi, hu⟩ := exists_of_map_unplaced h.symm hi'
    have := hp info hi ((CAddrInfo.congr_unplaced hu CAddrInfo.fInTried fun _ => rfl).trans hnt)
    rwa [CAddrInfo.congr_unplaced hu CAddrInfo.nRefCount fun _ => rfl] at this

theorem Frame.placed {s s' : CAddrMan σ} {o n : Int} (hf : Frame s s' o) (hn : n ≠ o)
    (h : s.Placed n) : s'.Placed n :=
  (placed_congr (hf.mapInfo_ne n hn)).mpr h

theorem isTried_congr {s s' : CAddrMan σ} {n : Int}
    (h : (s'.mapInfo n).map (·.fInTried) = (s.mapInfo n).map (·.fInTried)) :
    s'.isTried n = s.isTried n := by
  cases hs : s.mapInfo n <;> cases hs' : s'.mapInfo n <;> simp_all [isTried]

theorem isNew_congr {s s' : CAddrMan σ} {n : Int}
    (h : (s'.mapInfo n).map (·.fInTried) = (s.mapInfo n).map (·.fInTried)) :
    s'.isNew n = s.isNew n := by
  cases hs : s.mapInfo n <;> cases hs' : s'.mapInfo n <;> simp_all [isNew]

theorem flags_of_map_unplaced {o o' : Option (CAddrInfo σ)}
    (h : o'.map CAddrInfo.unplaced = o.map CAddrInfo.unplaced) :
    o'.map (·.fInTried) = o.map (·.fInTried) := by
  have := congrArg (Option.map CAddrInfo.fInTried) h
  simpa [Option.map_map, Function.comp_def, CAddrInfo.unplaced] using this

theorem counts_of_flags {s s' : CAddrMan σ} (hv : s'.vRandom = s.vRandom)
    (hf : ∀ n, (s'.mapInfo n).map (·.fInTried) = (s.mapInfo n).map (·.fInTried)) :
    s'.newCount = s.newCount ∧ s'.triedCount = s.triedCount := by
  refine ⟨?_, ?_⟩
  · rw [newCount, newCount, hv]
    exact List.countP_congr fun n _ => by rw [isNew_congr (hf n)]
  · rw [triedCount, triedCount, hv]
    exact List.countP_congr fun n _ => by rw [isTried_congr (hf n)]

/-! ### Consequences of `Wf` -/

namespace Wf

variable {H} {s : CAddrMan σ} (hw : s.Wf H)
include hw

theorem mem_vRandom {n : Int} : n ∈ s.vRandom ↔ (s.mapInfo n).isSome := by
  rw [hw.indexes.mem_iff, randomPos, Option.isSome_map]

theorem nodup : s.vRandom.Nodup := hw.indexes.nodup

theorem ne_neg_one {n : Int} {info : CAddrInfo σ} (h : s.mapInfo n = some info) : n ≠ -1 := by
  have := (hw.entry n info h).id_nonneg
  omega

theorem getElem?_randomPos {n : Int} {info : CAddrInfo σ} (h : s.mapInfo n = some info) :
    s.vRandom[info.nRandomPos.toNat]? = some n :=
  hw.indexes.getElem?_eq (by simp [randomPos, h])

theorem randomPos_lt {n : Int} {info : CAddrInfo σ} (h : s.mapInfo n = some info) :
    info.nRandomPos.toNat < s.vRandom.length :=
  hw.indexes.lt_length (a := n) (by simp [randomPos, h])

theorem mapAddr_eq_none {a : σ} (h : s.find a = none) : s.mapAddr a = none := by
  cases hm : s.mapAddr a with
  | none => rfl
  | some n =>
    obtain ⟨info, hi, -⟩ := hw.info_mapAddr a n hm
    simp [find, hm, hi] at h

theorem occupancy_of_tried {n : Int} {info : CAddrInfo σ} (h : s.mapInfo n = some info)
    (ht : info.fInTried = true) : occupancy s.vvNew n = 0 := by
  rw [occupancy_eq_zero]
  intro x hx
  obtain ⟨info', hi', hnt, -⟩ := hw.new_slot x (by rw [hx]; exact hw.ne_neg_one h)
  rw [hx, h] at hi'
  cases hi'
  rw [ht] at hnt
  exact Bool.noConfusion hnt

theorem new_slot_of_eq {x : Fin ADDRMAN_NEW_BUCKET_COUNT × Fin ADDRMAN_BUCKET_SIZE} {n : Int}
    {info : CAddrInfo σ} (h : s.mapInfo n = some info) (hx : s.vvNew x = n) :
    info.fInTried = false ∧ H.getBucketPosition info.toCService true x.1 = x.2 := by
  obtain ⟨info', hi', hnt, hpos⟩ := hw.new_slot x (by rw [hx]; exact hw.ne_neg_one h)
  rw [hx, h] at hi'
  cases hi'
  exact ⟨hnt, hpos⟩

theorem occupancy_of_none {n : Int} (h : s.mapInfo n = none) (hn : n ≠ -1) :
    occupancy s.vvNew n = 0 := by
  rw [occupancy_eq_zero]
  intro x hx
  obtain ⟨info, hi, -⟩ := hw.new_slot x (by rw [hx]; exact hn)
  rw [hx, h] at hi
  cases hi

theorem mapInfo_nIdCount : s.mapInfo s.nIdCount = none := by
  cases h : s.mapInfo s.nIdCount with
  | none => rfl
  | some info => exact absurd (hw.id_lt _ info h) (lt_irrefl _)

theorem length_vRandom_le : (s.vRandom.length : Int) ≤ s.nIdCount := by
  have hsub : s.vRandom.toFinset ⊆ Finset.Ico 0 s.nIdCount := by
    intro n hn
    rw [List.mem_toFinset, hw.mem_vRandom, Option.isSome_iff_exists] at hn
    obtain ⟨info, hi⟩ := hn
    rw [Finset.mem_Ico]
    exact ⟨(hw.entry n info hi).id_nonneg, hw.id_lt n info hi⟩
  have hcard := Finset.card_le_card hsub
  rw [List.toFinset_card_of_nodup hw.nodup, Int.card_Ico, sub_zero] at hcard
  have := hw.nIdCount_nonneg
  omega

theorem length_vRandom_lt : s.vRandom.length < 2 ^ 31 := by
  have h₁ := hw.length_vRandom_le
  have h₂ := hw.nIdCount_le
  simp only [INT_MAX] at h₂
  omega

end Wf

/-! ### Writes to an entry that keep its place -/

section Primitives

variable [DecidableEq σ] {H} {s : CAddrMan σ}

theorem modifyInfo_mapInfo_of_some {n m : Int} {f : CAddrInfo σ → CAddrInfo σ}
    {info : CAddrInfo σ} (h : s.mapInfo m = some info) :
    (s.modifyInfo n f).mapInfo m = some (if m = n then f info else info) := by
  by_cases hm : m = n
  · subst hm
    simp [h]
  · simp [hm, h]

/-- `f` keeps what the tables know of an entry: its service, whether it is tried, its reference
count and its position in `vRandom`. -/
def KeepsPlace (f : CAddrInfo σ → CAddrInfo σ) : Prop :=
  ∀ info, (f info).toCService = info.toCService ∧ (f info).fInTried = info.fInTried ∧
    (f info).nRefCount = info.nRefCount ∧ (f info).nRandomPos = info.nRandomPos

omit [DecidableEq σ] in
theorem Wf.of_samePlaces (hw : s.Wf H) {s' : CAddrMan σ} (hs : SamePlaces s s')
    (hA : s'.mapAddr = s.mapAddr) (hT : s'.vvTried = s.vvTried) (hI : s'.nIdCount = s.nIdCount)
    (hidx : Indexes s'.vRandom s'.randomPos)
    (hok : ∀ n info, s'.mapInfo n = some info → EntryOk n info)
    (hrc : ∀ n info, s'.mapInfo n = some info → info.nRefCount = occupancy s'.vvNew n)
    (hnew : ∀ x, s'.vvNew x ≠ -1 → ∃ info, s.mapInfo (s'.vvNew x) = some info ∧
      info.fInTried = false ∧ H.getBucketPosition info.toCService true x.1 = x.2) :
    s'.Wf H := by
  have hback : ∀ m info', s'.mapInfo m = some info' →
      ∃ info, s.mapInfo m = some info ∧ info'.place = info.place := by
    intro m info' h
    have := hs m
    rw [h, Option.map_some] at this
    obtain ⟨info, hi, he⟩ := Option.map_eq_some_iff.mp this.symm
    exact ⟨info, hi, he.symm⟩
  have hfwd : ∀ m info, s.mapInfo m = some info →
      ∃ info', s'.mapInfo m = some info' ∧ info'.place = info.place := by
    intro m info h
    have := hs m
    rw [h, Option.map_some] at this
    obtain ⟨info', hi', he⟩ := Option.map_eq_some_iff.mp this
    exact ⟨info', hi', he⟩
  have hsvc : ∀ {i j : CAddrInfo σ}, i.place = j.place → i.toCService = j.toCService :=
    fun h => congrArg Prod.fst h
  have htr : ∀ {i j : CAddrInfo σ}, i.place = j.place → i.fInTried = j.fInTried :=
    fun h => congrArg Prod.snd h
  constructor
  · exact hidx
  · exact hok
  · intro m info' h
    obtain ⟨info, hi, -⟩ := hback m info' h
    rw [hI]
    exact hw.id_lt m info hi
  · rw [hI]
    exact hw.nIdCount_nonneg
  · rw [hI]
    exact hw.nIdCount_le
  · intro m info' h
    obtain ⟨info, hi, he⟩ := hback m info' h
    rw [hA, show info'.ip = info.ip from congrArg CService.ip (hsvc he)]
    exact hw.mapAddr_info m info hi
  · intro a m ha
    rw [hA] at ha
    obtain ⟨info, hi, hip⟩ := hw.info_mapAddr a m ha
    obtain ⟨info', hi', he⟩ := hfwd m info hi
    exact ⟨info', hi', (congrArg CService.ip (hsvc he)).trans hip⟩
  · exact hrc
  · intro x hx
    obtain ⟨info, hi, hnt, hbp⟩ := hnew x hx
    obtain ⟨info', hi', he⟩ := hfwd _ info hi
    exact ⟨info', hi', (htr he).trans hnt, (hsvc he) ▸ hbp⟩
  · intro x hx
    rw [hT] at hx ⊢
    obtain ⟨info, hi, ht, hsl⟩ := hw.tried_slot x hx
    obtain ⟨info', hi', he⟩ := hfwd _ info hi
    exact ⟨info', hi', (htr he).trans ht, (hsvc he) ▸ hsl⟩
  · intro m info' h ht
    obtain ⟨info, hi, he⟩ := hback m info' h
    rw [hT, hsvc he]
    exact hw.slot_tried m info hi ((htr he) ▸ ht)

theorem randomPos_modifyInfo {n : Int} {f : CAddrInfo σ → CAddrInfo σ}
    (hf : ∀ info, (f info).nRandomPos = info.nRandomPos) :
    (s.modifyInfo n f).randomPos = s.randomPos := by
  funext m
  by_cases hm : m = n
  · subst hm
    cases hi : s.mapInfo m with
    | none => simp [randomPos, hi]
    | some info => simp [randomPos, hi, hf info]
  · simp [randomPos, hm]

theorem samePlaces_modifyInfo {n : Int} {f : CAddrInfo σ → CAddrInfo σ}
    (hf : ∀ info, (f info).place = info.place) : SamePlaces s (s.modifyInfo n f) := by
  intro m
  by_cases hm : m = n
  · subst hm
    cases hi : s.mapInfo m with
    | none => simp [hi]
    | some info => simp [hi, hf info]
  · simp [hm]

theorem modifyInfo_flags {n : Int} {f : CAddrInfo σ → CAddrInfo σ}
    (hf : ∀ info, (f info).fInTried = info.fInTried) (m : Int) :
    ((s.modifyInfo n f).mapInfo m).map (·.fInTried) = (s.mapInfo m).map (·.fInTried) := by
  by_cases hm : m = n
  · subst hm
    cases h : s.mapInfo m <;> simp [h, hf]
  · simp [hm]

theorem modifyInfo_mapInfo_ne {n m : Int} {f : CAddrInfo σ → CAddrInfo σ} (hm : m ≠ n) :
    (s.modifyInfo n f).mapInfo m = s.mapInfo m := by
  simp [hm]

omit [DecidableEq σ] in
theorem Wf.withNNew (hw : s.Wf H) (k : Int) : ({ s with nNew := k } : CAddrMan σ).Wf H :=
  ⟨hw.indexes, hw.entry, hw.id_lt, hw.nIdCount_nonneg, hw.nIdCount_le, hw.mapAddr_info,
    hw.info_mapAddr, hw.refCount_eq, hw.new_slot, hw.tried_slot, hw.slot_tried⟩

omit [DecidableEq σ] in
theorem Wf.withNLastGood (hw : s.Wf H) (k : Int) :
    ({ s with nLastGood := k } : CAddrMan σ).Wf H :=
  ⟨hw.indexes, hw.entry, hw.id_lt, hw.nIdCount_nonneg, hw.nIdCount_le, hw.mapAddr_info,
    hw.info_mapAddr, hw.refCount_eq, hw.new_slot, hw.tried_slot, hw.slot_tried⟩

theorem Wf.modifyInfo (hw : s.Wf H) {n : Int} {f : CAddrInfo σ → CAddrInfo σ}
    (hf : KeepsPlace f) (hok : ∀ info, s.mapInfo n = some info → EntryOk n (f info)) :
    (s.modifyInfo n f).Wf H := by
  refine hw.of_samePlaces (samePlaces_modifyInfo fun info => ?_) rfl rfl rfl
    (by rw [randomPos_modifyInfo fun info => (hf info).2.2.2]; exact hw.indexes) ?_ ?_
    (fun x hx => hw.new_slot x hx)
  · obtain ⟨h₁, h₂, -⟩ := hf info
    simp [CAddrInfo.place, h₁, h₂]
  · intro m info' h
    rcases (modifyInfo_mapInfo_eq_some s n f).mp h with ⟨rfl, info, hi, rfl⟩ | ⟨-, hi⟩
    · exact hok info hi
    · exact hw.entry m info' hi
  · intro m info' h
    rcases (modifyInfo_mapInfo_eq_some s n f).mp h with ⟨rfl, info, hi, rfl⟩ | ⟨-, hi⟩
    · rw [(hf info).2.2.1]
      exact hw.refCount_eq _ info hi
    · exact hw.refCount_eq m info' hi

theorem create_eq_ok {addr : CAddress σ} {addrSource : σ} {nId : Int} {s' : CAddrMan σ}
    (h : s.create addr addrSource = .ok (nId, s')) :
    s.nIdCount ≠ INT_MAX ∧ nId = s.nIdCount ∧ s' = { s with
      nIdCount := s.nIdCount + 1
      mapInfo := Function.update s.mapInfo s.nIdCount
        (some { CAddrInfo.ofAddress addr addrSource with nRandomPos := toInt32 s.vRandom.length })
      mapAddr := Function.update s.mapAddr addr.ip (some s.nIdCount)
      vRandom := s.vRandom ++ [s.nIdCount] } := by
  unfold create at h
  split_ifs at h with hmax
  cases h
  exact ⟨hmax, rfl, rfl⟩

theorem Wf.create (hw : s.Wf H) {addr : CAddress σ} {addrSource : σ}
    (hnone : s.mapAddr addr.ip = none) (hmax : s.nIdCount ≠ INT_MAX) :
    ({ s with
      nIdCount := s.nIdCount + 1
      mapInfo := Function.update s.mapInfo s.nIdCount
        (some { CAddrInfo.ofAddress addr addrSource with nRandomPos := toInt32 s.vRandom.length })
      mapAddr := Function.update s.mapAddr addr.ip (some s.nIdCount)
      vRandom := s.vRandom ++ [s.nIdCount] } : CAddrMan σ).Wf H := by
  set N := s.nIdCount with hN
  have hfresh : s.mapInfo N = none := hw.mapInfo_nIdCount
  have hlen : toInt32 s.vRandom.length = s.vRandom.length := toInt32_of_lt hw.length_vRandom_lt
  have hN₀ := hw.nIdCount_nonneg
  have hne : ∀ m info, s.mapInfo m = some info → m ≠ N := by
    rintro m info h rfl
    rw [hfresh] at h
    cases h
  constructor
  all_goals dsimp only
  · refine hw.indexes.append (by simp [randomPos, hfresh]) fun x => ?_
    by_cases hx : x = N
    · subst hx
      simp [randomPos, hlen]
    · simp [randomPos, hx]
  · intro m info h
    by_cases hm : m = N
    · subst hm
      simp only [Function.update_self, Option.some.injEq] at h
      subst h
      exact ⟨hN₀, by simp [hlen], by simp [CAddrInfo.ofAddress, ADDRMAN_NEW_BUCKETS_PER_ADDRESS],
        le_refl _, le_refl _, fun h => Bool.noConfusion h⟩
    · rw [Function.update_of_ne hm] at h
      exact hw.entry m info h
  · intro m info h
    by_cases hm : m = N
    · simp [hm]
    · rw [Function.update_of_ne hm] at h
      have := hw.id_lt m info h
      omega
  · omega
  · simp only [INT_MAX] at hmax ⊢
    have := hw.nIdCount_le
    simp only [INT_MAX] at this
    omega
  · intro m info h
    by_cases hm : m = N
    · subst hm
      simp only [Function.update_self, Option.some.injEq] at h
      subst h
      simp [CAddrInfo.ofAddress]
    · rw [Function.update_of_ne hm] at h
      have hip : info.ip ≠ addr.ip := by
        intro e
        rw [← e, hw.mapAddr_info m info h] at hnone
        cases hnone
      simp only [Function.update_of_ne hip]
      exact hw.mapAddr_info m info h
  · intro a m ha
    by_cases hip : a = addr.ip
    · subst hip
      simp only [Function.update_self, Option.some.injEq] at ha
      subst ha
      simp [CAddrInfo.ofAddress]
    · rw [Function.update_of_ne hip] at ha
      obtain ⟨info, hi, hia⟩ := hw.info_mapAddr a m ha
      exact ⟨info, by rw [Function.update_of_ne (hne m info hi)]; exact hi, hia⟩
  · intro m info h
    by_cases hm : m = N
    · subst hm
      simp only [Function.update_self, Option.some.injEq] at h
      subst h
      simp only [CAddrInfo.ofAddress]
      rw [hw.occupancy_of_none hfresh (by omega)]
      rfl
    · rw [Function.update_of_ne hm] at h
      exact hw.refCount_eq m info h
  · intro x hx
    obtain ⟨info, hi, hnt, hbp⟩ := hw.new_slot x hx
    exact ⟨info, by rw [Function.update_of_ne (hne _ info hi)]; exact hi, hnt, hbp⟩
  · intro x hx
    obtain ⟨info, hi, ht, hsl⟩ := hw.tried_slot x hx
    exact ⟨info, by rw [Function.update_of_ne (hne _ info hi)]; exact hi, ht, hsl⟩
  · intro m info h ht
    by_cases hm : m = N
    · subst hm
      simp only [Function.update_self, Option.some.injEq] at h
      subst h
      exact absurd ht (by simp [CAddrInfo.ofAddress])
    · rw [Function.update_of_ne hm] at h
      exact hw.slot_tried m info h ht

theorem toUnsigned_of_lt {x : Int} (h₀ : 0 ≤ x) (h : x < 2 ^ 32) : toUnsigned x = x.toNat := by
  rw [toUnsigned, Int.emod_eq_of_lt h₀ h]

omit [DecidableEq σ] in
theorem content_eq_of_mapInfo {s' : CAddrMan σ}
    (h : ∀ n, (s'.mapInfo n).map CAddrInfo.unplaced = (s.mapInfo n).map CAddrInfo.unplaced)
    (hK : s'.nKey = s.nKey) (hI : s'.nIdCount = s.nIdCount) (hA : s'.mapAddr = s.mapAddr)
    (hT : s'.nTried = s.nTried) (hvT : s'.vvTried = s.vvTried) (hN : s'.nNew = s.nNew)
    (hvN : s'.vvNew = s.vvNew) (hG : s'.nLastGood = s.nLastGood) : s'.content = s.content := by
  simp only [content, CAddrMan.mk.injEq]
  exact ⟨hK, hI, funext h, hA, trivial, hT, hvT, hN, hvN, hG⟩

theorem Wf.swapRandom (hw : s.Wf H) {i j : Nat} (hi : i < s.vRandom.length)
    (hj : j < s.vRandom.length) :
    ∃ s', s.swapRandom i j = .ok s' ∧ s'.Wf H ∧ s'.content = s.content ∧
      s'.vRandom.length = s.vRandom.length ∧ s'.vRandom[j]? = s.vRandom[i]? := by
  by_cases hij : i = j
  · subst hij
    exact ⟨s, by simp [CAddrMan.swapRandom], hw, rfl, rfl, rfl⟩
  obtain ⟨a, ha⟩ : ∃ a, s.vRandom[i]? = some a := ⟨_, List.getElem?_eq_getElem hi⟩
  obtain ⟨b, hb⟩ : ∃ b, s.vRandom[j]? = some b := ⟨_, List.getElem?_eq_getElem hj⟩
  have hga : s.vRandom.get ⟨i, hi⟩ = a := by
    rw [List.get_eq_getElem]
    exact Option.some.inj ((List.getElem?_eq_getElem hi).symm.trans ha)
  have hgb : s.vRandom.get ⟨j, hj⟩ = b := by
    rw [List.get_eq_getElem]
    exact Option.some.inj ((List.getElem?_eq_getElem hj).symm.trans hb)
  obtain ⟨infoA, hiA⟩ := Option.isSome_iff_exists.mp
    (hw.mem_vRandom.mp (List.mem_of_getElem? ha))
  obtain ⟨infoB, hiB⟩ := Option.isSome_iff_exists.mp
    (hw.mem_vRandom.mp (List.mem_of_getElem? hb))
  have hlen := hw.length_vRandom_lt
  have hti : toInt32 i = i := toInt32_of_lt (by omega)
  have htj : toInt32 j = j := toInt32_of_lt (by omega)
  set s' : CAddrMan σ := { ((s.modifyInfo a fun info => { info with nRandomPos := toInt32 j })
      |>.modifyInfo b fun info => { info with nRandomPos := toInt32 i }) with
    vRandom := (s.vRandom.set i b).set j a } with hs'
  have hrun : s.swapRandom i j = .ok s' := by
    simp only [CAddrMan.swapRandom, if_neg hij, dif_pos (And.intro hi hj), hga, hgb, hiA, hiB,
      Option.isNone_some, Bool.false_eq_true, if_false, hs']
  have hmap : ∀ n, s'.mapInfo n = if n = b then (s.mapInfo n).map
      (fun info => { info with nRandomPos := (i : Int) })
      else if n = a then (s.mapInfo n).map (fun info => { info with nRandomPos := (j : Int) })
      else s.mapInfo n := by
    intro n
    simp only [hs', modifyInfo_mapInfo, hti, htj]
    by_cases hnb : n = b
    · subst hnb
      by_cases hna : n = a
      · subst hna
        simp [Option.map_map, Function.comp_def]
      · simp [hna]
    · by_cases hna : n = a
      · subst hna
        simp [hnb]
      · simp [hna, hnb]
  refine ⟨s', hrun, ?_, ?_, by simp [hs'], ?_⟩
  · refine hw.of_samePlaces (fun n => ?_) rfl rfl rfl ?_ ?_ ?_ (fun x hx => hw.new_slot x hx)
    · rw [hmap]
      split_ifs <;> cases s.mapInfo n <;> simp [CAddrInfo.place]
    · refine hw.indexes.swap ha hb fun x => ?_
      simp only [randomPos, hmap]
      split_ifs with hxb hxa
      · subst hxb
        simp [hiB]
      · subst hxa
        simp [hiA]
      · rfl
    · intro n info h
      rw [hmap] at h
      have hok : ∀ (k : Nat) info', s.mapInfo n = some info' →
          EntryOk n { info' with nRandomPos := (k : Int) } := by
        intro k info' h'
        have := hw.entry n info' h'
        exact ⟨this.id_nonneg, by simp, this.refCount_le, this.lastTry_nonneg,
          this.lastSuccess_nonneg, this.lastSuccess_pos⟩
      split_ifs at h
      · obtain ⟨info', h', rfl⟩ := Option.map_eq_some_iff.mp h
        exact hok i info' h'
      · obtain ⟨info', h', rfl⟩ := Option.map_eq_some_iff.mp h
        exact hok j info' h'
      · exact hw.entry n info h
    · intro n info h
      rw [hmap] at h
      split_ifs at h
      · obtain ⟨info', h', rfl⟩ := Option.map_eq_some_iff.mp h
        exact hw.refCount_eq n info' h'
      · obtain ⟨info', h', rfl⟩ := Option.map_eq_some_iff.mp h
        exact hw.refCount_eq n info' h'
      · exact hw.refCount_eq n info h
  · refine content_eq_of_mapInfo (fun n => ?_) rfl rfl rfl rfl rfl rfl rfl rfl
    rw [hmap]
    split_ifs <;> cases s.mapInfo n <;> rfl
  · rw [getElem?_set_set hi hj, if_pos rfl, ha]

theorem Wf.eraseLast (hw : s.Wf H) {m : Int} {info : CAddrInfo σ} (hm : s.mapInfo m = some info)
    (hnt : info.fInTried = false) (hr : info.nRefCount = 0)
    (hlast : s.vRandom[s.vRandom.length - 1]? = some m) :
    ({ s with
      vRandom := s.vRandom.dropLast
      mapAddr := Function.update s.mapAddr info.ip none
      mapInfo := Function.update s.mapInfo m none
      nNew := s.nNew - 1 } : CAddrMan σ).Wf H := by
  have hocc : occupancy s.vvNew m = 0 := by
    have := hw.refCount_eq m info hm
    omega
  have hother : ∀ n info', s.mapInfo n = some info' → n ≠ m → info'.ip ≠ info.ip := by
    intro n info' h hne hip
    have h₁ := hw.mapAddr_info n info' h
    rw [hip, hw.mapAddr_info m info hm] at h₁
    exact hne (Option.some.inj h₁).symm
  have hback : ∀ n info', Function.update s.mapInfo m none n = some info' →
      n ≠ m ∧ s.mapInfo n = some info' := by
    intro n info' h
    by_cases hn : n = m
    · subst hn
      simp at h
    · rw [Function.update_of_ne hn] at h
      exact ⟨hn, h⟩
  constructor
  all_goals dsimp only
  · refine hw.indexes.dropLast ((hw.indexes _ _).mp hlast) fun x => ?_
    by_cases hx : x = m
    · subst hx
      simp [randomPos]
    · simp [randomPos, hx]
  · intro n info' h
    exact hw.entry n info' (hback n info' h).2
  · intro n info' h
    exact hw.id_lt n info' (hback n info' h).2
  · exact hw.nIdCount_nonneg
  · exact hw.nIdCount_le
  · intro n info' h
    obtain ⟨hn, h⟩ := hback n info' h
    rw [Function.update_of_ne (hother n info' h hn)]
    exact hw.mapAddr_info n info' h
  · intro a n ha
    by_cases hip : a = info.ip
    · subst hip
      simp at ha
    · rw [Function.update_of_ne hip] at ha
      obtain ⟨info', hi, hia⟩ := hw.info_mapAddr a n ha
      have hn : n ≠ m := by
        rintro rfl
        rw [hm] at hi
        cases hi
        exact hip hia.symm
      exact ⟨info', by rw [Function.update_of_ne hn]; exact hi, hia⟩
  · intro n info' h
    exact hw.refCount_eq n info' (hback n info' h).2
  · intro x hx
    obtain ⟨info', hi, hnt', hbp⟩ := hw.new_slot x hx
    have hn : s.vvNew x ≠ m := fun e => (occupancy_eq_zero.mp hocc) x e
    exact ⟨info', by rw [Function.update_of_ne hn]; exact hi, hnt', hbp⟩
  · intro x hx
    obtain ⟨info', hi, ht, hsl⟩ := hw.tried_slot x hx
    have hn : s.vvTried x ≠ m := by
      intro e
      rw [e, hm] at hi
      cases hi
      rw [hnt] at ht
      cases ht
    exact ⟨info', by rw [Function.update_of_ne hn]; exact hi, ht, hsl⟩
  · intro n info' h ht
    exact hw.slot_tried n info' (hback n info' h).2 ht

theorem Wf.delete (hw : s.Wf H) {m : Int} {info : CAddrInfo σ} (hm : s.mapInfo m = some info)
    (hnt : info.fInTried = false) (hr : info.nRefCount = 0) :
    ∃ s', s.delete m = .ok s' ∧ s'.Wf H ∧ Frame s s' m ∧ s'.mapInfo m = none ∧
      s'.vvNew = s.vvNew ∧ s'.nNew = s.nNew - 1 := by
  have hp := hw.randomPos_lt hm
  have hp₀ := (hw.entry m info hm).randomPos_nonneg
  have hlen := hw.length_vRandom_lt
  obtain ⟨s₁, hrun, hw₁, hc₁, hl₁, hg₁⟩ := hw.swapRandom hp (show s.vRandom.length - 1 < _ by omega)
  have hu₁ : toUnsigned info.nRandomPos = info.nRandomPos.toNat := toUnsigned_of_lt hp₀ (by omega)
  have hu₂ : toUnsigned ((s.vRandom.length : Int) - 1) = s.vRandom.length - 1 := by
    rw [toUnsigned_of_lt (by omega) (by omega)]
    omega
  have hlast : s₁.vRandom[s₁.vRandom.length - 1]? = some m := by
    rw [hl₁, hg₁, hw.getElem?_randomPos hm]
  have hmap₁ : ∀ n, (s₁.mapInfo n).map CAddrInfo.unplaced = (s.mapInfo n).map CAddrInfo.unplaced :=
    fun n => by simpa using congrArg (fun t => t.mapInfo n) hc₁
  obtain ⟨info₁, hm₁, hu⟩ := exists_of_map_unplaced (hmap₁ m) hm
  have hnt₁ : info₁.fInTried = false := (CAddrInfo.congr_unplaced hu _ fun _ => rfl).trans hnt
  have hr₁ : info₁.nRefCount = 0 := (CAddrInfo.congr_unplaced hu _ fun _ => rfl).trans hr
  have hip₁ : info₁.ip = info.ip := CAddrInfo.congr_unplaced hu (fun i => i.ip) fun _ => rfl
  have hne : s₁.vRandom ≠ [] := by
    intro h
    rw [h] at hl₁
    simp at hl₁
    omega
  refine ⟨_, ?_, hw₁.eraseLast hm₁ hnt₁ hr₁ hlast, ⟨fun n hn => ?_, ?_, ?_, ?_, ?_, ?_⟩, ?_, ?_, ?_⟩
  · simp only [CAddrMan.delete, hm, hnt, hr, Bool.false_eq_true, if_false, ne_eq,
      not_true_eq_false, hu₁, hu₂, hrun, Except.bind, if_neg hne, hip₁]
  · simp only [Function.update_of_ne hn]
    exact hmap₁ n
  · simpa using congrArg CAddrMan.vvTried hc₁
  · simpa using congrArg CAddrMan.nTried hc₁
  · simpa using congrArg CAddrMan.nIdCount hc₁
  · simpa using congrArg CAddrMan.nKey hc₁
  · simpa using congrArg CAddrMan.nLastGood hc₁
  · simp
  · simpa using congrArg CAddrMan.vvNew hc₁
  · simpa using congrArg CAddrMan.nNew hc₁

omit [DecidableEq σ] in
theorem modifyInfo_congr {n : Int} {f g : CAddrInfo σ → CAddrInfo σ}
    (h : ∀ info, s.mapInfo n = some info → f info = g info) : s.modifyInfo n f = s.modifyInfo n g := by
  cases hi : s.mapInfo n with
  | none => simp [modifyInfo, hi]
  | some info => simp [modifyInfo, hi, h info hi]

theorem Wf.unlinkNew (hw : s.Wf H) {x : Fin ADDRMAN_NEW_BUCKET_COUNT × Fin ADDRMAN_BUCKET_SIZE}
    {n : Int} (hx : s.vvNew x = n) (hn : n ≠ -1) :
    ({ s.modifyInfo n (fun info => { info with nRefCount := info.nRefCount - 1 }) with
      vvNew := Function.update s.vvNew x (-1) } : CAddrMan σ).Wf H := by
  have hpos := randomPos_modifyInfo (s := s) (n := n)
    (f := fun info => { info with nRefCount := info.nRefCount - 1 }) fun _ => rfl
  refine hw.of_samePlaces (samePlaces_modifyInfo fun _ => rfl) rfl rfl rfl
    (by show Indexes s.vRandom (s.modifyInfo n _).randomPos; rw [hpos]; exact hw.indexes) ?_ ?_ ?_
  · intro m info' h
    rcases (modifyInfo_mapInfo_eq_some s n _).mp h with ⟨rfl, info, hi, rfl⟩ | ⟨-, hi⟩
    · have := hw.entry _ info hi
      exact ⟨this.id_nonneg, this.randomPos_nonneg, by simp only; linarith [this.refCount_le],
        this.lastTry_nonneg, this.lastSuccess_nonneg, this.lastSuccess_pos⟩
    · exact hw.entry m info' hi
  · intro m info' h
    rcases (modifyInfo_mapInfo_eq_some s n _).mp h with ⟨rfl, info, hi, rfl⟩ | ⟨hm, hi⟩
    · have h₁ := occupancy_update_of_eq (v := -1) hx (Ne.symm hn)
      have h₂ := hw.refCount_eq _ info hi
      simp only
      omega
    · have := occupancy_update_of_ne (t := s.vvNew) (i := x) (v := -1) (a := m)
        (by rw [hx]; exact Ne.symm hm) (Ne.symm (hw.ne_neg_one hi))
      rw [hw.refCount_eq m info' hi]
      exact congrArg _ this.symm
  · intro y hy
    have hyx : y ≠ x := by
      rintro rfl
      simp at hy
    simp only [Function.update_of_ne hyx] at hy ⊢
    exact hw.new_slot y hy

theorem Wf.linkNew (hw : s.Wf H) {x : Fin ADDRMAN_NEW_BUCKET_COUNT × Fin ADDRMAN_BUCKET_SIZE}
    {n : Int} {info : CAddrInfo σ} (hi : s.mapInfo n = some info) (hx : s.vvNew x = -1)
    (hnt : info.fInTried = false) (hbp : H.getBucketPosition info.toCService true x.1 = x.2)
    (hlt : info.nRefCount < ADDRMAN_NEW_BUCKETS_PER_ADDRESS) :
    ({ s.modifyInfo n (fun info => { info with nRefCount := info.nRefCount + 1 }) with
      vvNew := Function.update s.vvNew x n } : CAddrMan σ).Wf H := by
  have hn := hw.ne_neg_one hi
  have hpos := randomPos_modifyInfo (s := s) (n := n)
    (f := fun info => { info with nRefCount := info.nRefCount + 1 }) fun _ => rfl
  refine hw.of_samePlaces (samePlaces_modifyInfo fun _ => rfl) rfl rfl rfl
    (by show Indexes s.vRandom (s.modifyInfo n _).randomPos; rw [hpos]; exact hw.indexes) ?_ ?_ ?_
  · intro m info' h
    rcases (modifyInfo_mapInfo_eq_some s n _).mp h with ⟨rfl, info₀, hi₀, rfl⟩ | ⟨-, hi'⟩
    · rw [hi] at hi₀
      cases hi₀
      have := hw.entry _ info hi
      exact ⟨this.id_nonneg, this.randomPos_nonneg, by simp only; omega,
        this.lastTry_nonneg, this.lastSuccess_nonneg, this.lastSuccess_pos⟩
    · exact hw.entry m info' hi'
  · intro m info' h
    rcases (modifyInfo_mapInfo_eq_some s n _).mp h with ⟨rfl, info₀, hi₀, rfl⟩ | ⟨hm, hi'⟩
    · have h₁ := occupancy_update_self (t := s.vvNew) (i := x) (a := m) (by rw [hx]; exact Ne.symm hn)
      have h₂ := hw.refCount_eq _ info₀ hi₀
      simp only
      omega
    · have := occupancy_update_of_ne (t := s.vvNew) (i := x) (v := n) (a := m)
        (by rw [hx]; exact Ne.symm (hw.ne_neg_one hi')) (Ne.symm hm)
      rw [hw.refCount_eq m info' hi']
      exact congrArg _ this.symm
  · intro y hy
    by_cases hyx : y = x
    · subst hyx
      simp only [Function.update_self]
      exact ⟨info, hi, hnt, hbp⟩
    · simp only [Function.update_of_ne hyx] at hy ⊢
      exact hw.new_slot y hy

theorem Wf.untry (hw : s.Wf H) {slot : Fin ADDRMAN_TRIED_BUCKET_COUNT × Fin ADDRMAN_BUCKET_SIZE}
    (hs : s.vvTried slot ≠ -1) :
    ({ s.modifyInfo (s.vvTried slot) (fun info => { info with fInTried := false }) with
      vvTried := Function.update s.vvTried slot (-1)
      nTried := s.nTried - 1 } : CAddrMan σ).Wf H := by
  set e := s.vvTried slot with he
  obtain ⟨info, hi, ht, hsl⟩ := hw.tried_slot slot hs
  have hocc := hw.occupancy_of_tried hi ht
  have hother : ∀ y, y ≠ slot → s.vvTried y ≠ e := by
    intro y hy hye
    obtain ⟨info', hi', -, hsl'⟩ := hw.tried_slot y (by rw [hye]; exact hs)
    rw [hye, hi] at hi'
    cases hi'
    exact hy (hsl'.symm.trans hsl)
  have hpos := randomPos_modifyInfo (s := s) (n := e)
    (f := fun info => { info with fInTried := false }) fun _ => rfl
  constructor
  all_goals dsimp only
  · show Indexes s.vRandom (s.modifyInfo e _).randomPos
    rw [hpos]
    exact hw.indexes
  · intro m info' h
    rcases (modifyInfo_mapInfo_eq_some s e _).mp h with ⟨rfl, info₀, hi₀, rfl⟩ | ⟨-, hi'⟩
    · have := hw.entry _ info₀ hi₀
      exact ⟨this.id_nonneg, this.randomPos_nonneg, this.refCount_le, this.lastTry_nonneg,
        this.lastSuccess_nonneg, fun h => Bool.noConfusion h⟩
    · exact hw.entry m info' hi'
  · intro m info' h
    rcases (modifyInfo_mapInfo_eq_some s e _).mp h with ⟨rfl, info₀, hi₀, rfl⟩ | ⟨-, hi'⟩
    · exact hw.id_lt _ info₀ hi₀
    · exact hw.id_lt m info' hi'
  · exact hw.nIdCount_nonneg
  · exact hw.nIdCount_le
  · intro m info' h
    rcases (modifyInfo_mapInfo_eq_some s e _).mp h with ⟨rfl, info₀, hi₀, rfl⟩ | ⟨-, hi'⟩
    · exact hw.mapAddr_info _ info₀ hi₀
    · exact hw.mapAddr_info m info' hi'
  · intro a m ha
    obtain ⟨info', hi', hia⟩ := hw.info_mapAddr a m ha
    rw [modifyInfo_mapInfo_of_some hi']
    split_ifs <;> exact ⟨_, rfl, hia⟩
  · intro m info' h
    rcases (modifyInfo_mapInfo_eq_some s e _).mp h with ⟨rfl, info₀, hi₀, rfl⟩ | ⟨-, hi'⟩
    · exact hw.refCount_eq _ info₀ hi₀
    · exact hw.refCount_eq m info' hi'
  · intro x hx
    simp only [modifyInfo_vvNew] at hx ⊢
    obtain ⟨info', hi', hnt', hbp⟩ := hw.new_slot x hx
    have hxe : s.vvNew x ≠ e := fun h => (occupancy_eq_zero.mp hocc) x h
    exact ⟨info', by rw [modifyInfo_mapInfo_ne hxe]; exact hi', hnt', hbp⟩
  · intro y hy
    have hys : y ≠ slot := by
      rintro rfl
      simp at hy
    rw [Function.update_of_ne hys] at hy ⊢
    obtain ⟨info', hi', ht', hsl'⟩ := hw.tried_slot y hy
    exact ⟨info', by rw [modifyInfo_mapInfo_ne (hother y hys)]; exact hi', ht', hsl'⟩
  · intro m info' h ht'
    rcases (modifyInfo_mapInfo_eq_some s e _).mp h with ⟨rfl, info₀, hi₀, rfl⟩ | ⟨hm, hi'⟩
    · exact absurd ht' (by simp)
    · have h₁ := hw.slot_tried m info' hi' ht'
      have hne : triedSlot H info'.toCService ≠ slot := by
        intro hs'
        rw [hs', ← he] at h₁
        exact hm h₁.symm
      rw [Function.update_of_ne hne]
      exact h₁

theorem Wf.enterTried (hw : s.Wf H) {n : Int} {info : CAddrInfo σ} (hi : s.mapInfo n = some info)
    (hnt : info.fInTried = false) (hr : info.nRefCount = 0)
    (hsl : s.vvTried (triedSlot H info.toCService) = -1) (hls : 0 < info.nLastSuccess) :
    ({ s.modifyInfo n (fun info => { info with fInTried := true }) with
      vvTried := Function.update s.vvTried (triedSlot H info.toCService) n
      nTried := s.nTried + 1 } : CAddrMan σ).Wf H := by
  have hn := hw.ne_neg_one hi
  have hocc : occupancy s.vvNew n = 0 := by
    have := hw.refCount_eq n info hi
    omega
  have hpos := randomPos_modifyInfo (s := s) (n := n)
    (f := fun info => { info with fInTried := true }) fun _ => rfl
  constructor
  all_goals dsimp only
  · show Indexes s.vRandom (s.modifyInfo n _).randomPos
    rw [hpos]
    exact hw.indexes
  · intro m info' h
    rcases (modifyInfo_mapInfo_eq_some s n _).mp h with ⟨rfl, info₀, hi₀, rfl⟩ | ⟨-, hi'⟩
    · rw [hi] at hi₀
      cases hi₀
      have := hw.entry _ info hi
      exact ⟨this.id_nonneg, this.randomPos_nonneg, this.refCount_le, this.lastTry_nonneg,
        this.lastSuccess_nonneg, fun _ => hls⟩
    · exact hw.entry m info' hi'
  · intro m info' h
    rcases (modifyInfo_mapInfo_eq_some s n _).mp h with ⟨rfl, info₀, hi₀, rfl⟩ | ⟨-, hi'⟩
    · exact hw.id_lt _ info₀ hi₀
    · exact hw.id_lt m info' hi'
  · exact hw.nIdCount_nonneg
  · exact hw.nIdCount_le
  · intro m info' h
    rcases (modifyInfo_mapInfo_eq_some s n _).mp h with ⟨rfl, info₀, hi₀, rfl⟩ | ⟨-, hi'⟩
    · exact hw.mapAddr_info _ info₀ hi₀
    · exact hw.mapAddr_info m info' hi'
  · intro a m ha
    obtain ⟨info', hi', hia⟩ := hw.info_mapAddr a m ha
    rw [modifyInfo_mapInfo_of_some hi']
    split_ifs <;> exact ⟨_, rfl, hia⟩
  · intro m info' h
    rcases (modifyInfo_mapInfo_eq_some s n _).mp h with ⟨rfl, info₀, hi₀, rfl⟩ | ⟨-, hi'⟩
    · exact hw.refCount_eq _ info₀ hi₀
    · exact hw.refCount_eq m info' hi'
  · intro x hx
    simp only [modifyInfo_vvNew] at hx ⊢
    obtain ⟨info', hi', hnt', hbp⟩ := hw.new_slot x hx
    have hxn : s.vvNew x ≠ n := fun h => (occupancy_eq_zero.mp hocc) x h
    exact ⟨info', by rw [modifyInfo_mapInfo_ne hxn]; exact hi', hnt', hbp⟩
  · intro y hy
    by_cases hys : y = triedSlot H info.toCService
    · subst hys
      simp only [Function.update_self]
      refine ⟨{ info with fInTried := true }, ?_, rfl, rfl⟩
      rw [modifyInfo_mapInfo_of_some hi, if_pos rfl]
    · rw [Function.update_of_ne hys] at hy ⊢
      obtain ⟨info', hi', ht', hsl'⟩ := hw.tried_slot y hy
      have hyn : s.vvTried y ≠ n := by
        intro h
        rw [h, hi] at hi'
        cases hi'
        rw [hnt] at ht'
        cases ht'
      exact ⟨info', by rw [modifyInfo_mapInfo_ne hyn]; exact hi', ht', hsl'⟩
  · intro m info' h ht'
    rcases (modifyInfo_mapInfo_eq_some s n _).mp h with ⟨rfl, info₀, hi₀, rfl⟩ | ⟨hm, hi'⟩
    · rw [hi] at hi₀
      cases hi₀
      simp
    · have h₁ := hw.slot_tried m info' hi' ht'
      have hne : triedSlot H info'.toCService ≠ triedSlot H info.toCService := by
        intro hs'
        rw [hs', hsl] at h₁
        exact hw.ne_neg_one hi' h₁.symm
      rw [Function.update_of_ne hne]
      exact h₁

end Primitives

/-! ### Counting entries -/

section Counting

variable {H} {s s' : CAddrMan σ}

theorem Wf.countP_erase (hw : s.Wf H) (hw' : s'.Wf H) {m : Int}
    (hdom : ∀ n, (s'.mapInfo n).isSome ↔ (s.mapInfo n).isSome ∧ n ≠ m)
    (hm : (s.mapInfo m).isSome) {q r : Int → Bool}
    (h : ∀ n, n ≠ m → (s.mapInfo n).isSome → r n = q n) :
    s'.vRandom.countP r + (if q m = true then 1 else 0) = s.vRandom.countP q := by
  have hmem : ∀ n, n ∈ s'.vRandom ↔ n ∈ s.vRandom ∧ n ≠ m := by
    intro n
    rw [hw'.mem_vRandom, hw.mem_vRandom, hdom]
  have hcongr : s'.vRandom.countP r = s'.vRandom.countP q :=
    List.countP_congr fun n hn => by
      obtain ⟨hn₁, hn₂⟩ := (hmem n).mp hn
      rw [h n hn₂ (hw.mem_vRandom.mp hn₁)]
  have := countP_of_mem_iff_erase hw.nodup hw'.nodup hmem q
  simp only [hw.mem_vRandom.mpr hm, true_and] at this
  rw [hcongr]
  exact this

theorem Wf.counts_of_erase (hw : s.Wf H) (hw' : s'.Wf H) {m : Int} {info : CAddrInfo σ}
    (hm : s.mapInfo m = some info) (hnt : info.fInTried = false) (hm' : s'.mapInfo m = none)
    (hf : ∀ n, n ≠ m →
      (s'.mapInfo n).map CAddrInfo.unplaced = (s.mapInfo n).map CAddrInfo.unplaced) :
    s'.newCount + 1 = s.newCount ∧ s'.triedCount = s.triedCount := by
  have hdom : ∀ n, (s'.mapInfo n).isSome ↔ (s.mapInfo n).isSome ∧ n ≠ m := by
    intro n
    by_cases hn : n = m
    · subst hn
      simp [hm']
    · have := congrArg Option.isSome (hf n hn)
      simp only [Option.isSome_map] at this
      simp [this, hn]
  have hlive : (s.mapInfo m).isSome := by simp [hm]
  have hN := hw.countP_erase hw' hdom hlive (q := s.isNew) (r := s'.isNew)
    fun n hn _ => isNew_congr (flags_of_map_unplaced (hf n hn))
  have hT := hw.countP_erase hw' hdom hlive (q := s.isTried) (r := s'.isTried)
    fun n hn _ => isTried_congr (flags_of_map_unplaced (hf n hn))
  simp only [isNew, isTried, hm, Option.any_some, hnt, Bool.not_false, if_true,
    Bool.false_eq_true, if_false, add_zero] at hN hT
  exact ⟨hN, hT⟩

theorem Wf.counts_modifyInfo [DecidableEq σ] (hw : s.Wf H) {n : Int} {info : CAddrInfo σ}
    (hi : s.mapInfo n = some info) (f : CAddrInfo σ → CAddrInfo σ) :
    (s.modifyInfo n f).newCount + (!info.fInTried).toNat =
        s.newCount + (!(f info).fInTried).toNat ∧
      (s.modifyInfo n f).triedCount + info.fInTried.toNat =
        s.triedCount + (f info).fInTried.toNat := by
  have hmem : n ∈ s.vRandom := hw.mem_vRandom.mpr (by simp [hi])
  have hN := TbcNode.Logic.countP_update hw.nodup hmem (p := s.isNew)
    (q := (s.modifyInfo n f).isNew) fun m _ hm => isNew_congr (by rw [modifyInfo_mapInfo_ne hm])
  have hT := TbcNode.Logic.countP_update hw.nodup hmem (p := s.isTried)
    (q := (s.modifyInfo n f).isTried) fun m _ hm => isTried_congr (by rw [modifyInfo_mapInfo_ne hm])
  simp only [isNew, isTried, modifyInfo_mapInfo, if_true, hi, Option.map_some,
    Option.any_some] at hN hT
  rw [newCount, newCount, triedCount, triedCount]
  cases h₁ : info.fInTried <;> cases h₂ : (f info).fInTried <;>
    simp only [h₁, h₂, Bool.not_false, Bool.not_true, Bool.toNat_true, Bool.toNat_false,
      if_true, Bool.false_eq_true, if_false, add_zero, modifyInfo_vRandom] at hN hT ⊢ <;> omega

end Counting

end CAddrMan

end TbcNode.Net
