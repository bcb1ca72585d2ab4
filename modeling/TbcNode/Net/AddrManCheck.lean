import Mathlib
import TbcNode.Net.AddrManOps

/-! # What `Check_` tests holds over every run

`Consistent` gives the conditions under which `Check_` returns 0 (`CheckOk`), and every call of the
interface keeps it without failing an assert. So every run from an empty manager with times not
negative passes `Check_`, or stops at the overflow of `nIdCount` (`Consistent.run`).
-/

namespace TbcNode.Net

open TbcNode.Logic TbcNode.Util

variable {σ : Type} (H : BucketHashes σ)

namespace CAddrMan

/-- The conditions under which `Check_` returns 0, one field for each code it returns
otherwise. -/
structure CheckOk (s : CAddrMan σ) : Prop where
  /-- -7 -/
  size_eq : (s.vRandom.length : Int) = s.nTried + s.nNew
  /-- -1 -/
  tried_lastSuccess : ∀ n info, s.mapInfo n = some info → info.fInTried = true →
    info.nLastSuccess ≠ 0
  /-- -2 -/
  tried_refCount : ∀ n info, s.mapInfo n = some info → info.fInTried = true → info.nRefCount = 0
  /-- -3 and -4 -/
  new_refCount : ∀ n info, s.mapInfo n = some info → info.fInTried = false →
    0 < info.nRefCount ∧ info.nRefCount ≤ ADDRMAN_NEW_BUCKETS_PER_ADDRESS
  /-- -5 -/
  mapAddr_eq : ∀ n info, s.mapInfo n = some info → s.mapAddr info.ip = some n
  /-- -14 -/
  randomPos_eq : ∀ n info, s.mapInfo n = some info → 0 ≤ info.nRandomPos ∧
    info.nRandomPos < s.vRandom.length ∧ s.vRandom[info.nRandomPos.toNat]? = some n
  /-- -6 and -8 -/
  times_nonneg : ∀ n info, s.mapInfo n = some info → 0 ≤ info.nLastTry ∧ 0 ≤ info.nLastSuccess
  /-- -9 -/
  nTried_eq : s.nTried = {n | ∃ info, s.mapInfo n = some info ∧ info.fInTried = true}.ncard
  /-- -10 -/
  nNew_eq : s.nNew = {n | ∃ info, s.mapInfo n = some info ∧ info.fInTried = false}.ncard
  /-- -11, -17 and -18 -/
  tried_slot : ∀ x, s.vvTried x ≠ -1 → ∃ info, s.mapInfo (s.vvTried x) = some info ∧
    info.fInTried = true ∧ H.getTriedBucket info.toCService = x.1 ∧
      H.getBucketPosition info.toCService false x.1 = x.2
  /-- -11 for a second slot of one entry, and -13 -/
  tried_once : ∀ n info, s.mapInfo n = some info → info.fInTried = true →
    occupancy s.vvTried n = 1
  /-- -12 and -19 -/
  new_slot : ∀ x, s.vvNew x ≠ -1 → ∃ info, s.mapInfo (s.vvNew x) = some info ∧
    info.fInTried = false ∧ H.getBucketPosition info.toCService true x.1 = x.2
  /-- -12 for a slot more than the count, and -15 -/
  new_count : ∀ n info, s.mapInfo n = some info → info.fInTried = false →
    (occupancy s.vvNew n : Int) = info.nRefCount
  /-- -16 -/
  nKey_ne : s.nKey ≠ 0

/-- The invariant of the manager between calls. -/
structure Consistent (s : CAddrMan σ) : Prop where
  wf : s.Wf H
  placed : ∀ n, s.Placed n
  gaps_eq : s.gaps = (0, 0)
  nKey_ne : s.nKey ≠ 0

variable {H}

theorem Wf.count_eq_ncard {s : CAddrMan σ} (hw : s.Wf H) (b : Bool) :
    s.vRandom.countP (fun n => (s.mapInfo n).any (·.fInTried == b)) =
      {n | ∃ info, s.mapInfo n = some info ∧ info.fInTried = b}.ncard := by
  rw [countP_eq_ncard hw.nodup]
  congr 1
  ext n
  simp only [Set.mem_ofPred_eq, hw.mem_vRandom]
  cases h : s.mapInfo n <;> simp

theorem Consistent.checkOk {s : CAddrMan σ} (hc : s.Consistent H) : s.CheckOk H := by
  have hw := hc.wf
  have hN : s.nNew = s.newCount := by
    have := congrArg Prod.fst hc.gaps_eq
    simp only [gaps] at this
    omega
  have hT : s.nTried = s.triedCount := by
    have := congrArg Prod.snd hc.gaps_eq
    simp only [gaps] at this
    omega
  have hnew : s.newCount = s.vRandom.countP fun n => (s.mapInfo n).any (·.fInTried == false) :=
    List.countP_congr fun n _ => by cases h : s.mapInfo n <;> simp [isNew, h]
  have htried : s.triedCount = s.vRandom.countP fun n => (s.mapInfo n).any (·.fInTried == true) :=
    List.countP_congr fun n _ => by cases h : s.mapInfo n <;> simp [isTried, h]
  constructor
  · rw [hN, hT, newCount, triedCount]
    have hsplit := List.length_eq_countP_add_countP s.isTried (l := s.vRandom)
    have hcongr : s.vRandom.countP (fun n => decide ¬s.isTried n = true) = s.newCount :=
      List.countP_congr fun n hn => by
        obtain ⟨info, hi⟩ := Option.isSome_iff_exists.mp (hw.mem_vRandom.mp hn)
        simp [isTried, isNew, hi]
    rw [newCount] at hcongr
    rw [hsplit, hcongr, Nat.cast_add]
  · intro n info hi ht
    exact ne_of_gt ((hw.entry n info hi).lastSuccess_pos ht)
  · intro n info hi ht
    rw [hw.refCount_eq n info hi, hw.occupancy_of_tried hi ht]
    rfl
  · intro n info hi hnt
    exact ⟨hc.placed n info hi hnt, (hw.entry n info hi).refCount_le⟩
  · exact hw.mapAddr_info
  · intro n info hi
    exact ⟨(hw.entry n info hi).randomPos_nonneg,
      by have := hw.randomPos_lt hi; have := (hw.entry n info hi).randomPos_nonneg; omega,
      hw.getElem?_randomPos hi⟩
  · intro n info hi
    exact ⟨(hw.entry n info hi).lastTry_nonneg, (hw.entry n info hi).lastSuccess_nonneg⟩
  · rw [hT, htried, hw.count_eq_ncard true]
  · rw [hN, hnew, hw.count_eq_ncard false]
  · intro x hx
    obtain ⟨info, hi, ht, hsl⟩ := hw.tried_slot x hx
    have h₁ : H.getTriedBucket info.toCService = x.1 := congrArg Prod.fst hsl
    refine ⟨info, hi, ht, h₁, ?_⟩
    rw [← h₁]
    exact congrArg Prod.snd hsl
  · intro n info hi ht
    refine occupancy_eq_one (hw.slot_tried n info hi ht) fun y hy => ?_
    obtain ⟨info', hi', -, hsl⟩ := hw.tried_slot y (by rw [hy]; exact hw.ne_neg_one hi)
    rw [hy, hi] at hi'
    cases hi'
    exact hsl.symm
  · exact hw.new_slot
  · intro n info hi _
    exact (hw.refCount_eq n info hi).symm
  · exact hc.nKey_ne

/-! ### The calls keep the invariant -/

theorem consistent_empty {nKey : Nat} (h : nKey ≠ 0) : (empty nKey : CAddrMan σ).Consistent H where
  wf := {
    indexes := fun i a => by simp [CAddrMan.empty, randomPos]
    entry := fun _ _ h => by cases h
    id_lt := fun _ _ h => by cases h
    nIdCount_nonneg := le_refl 0
    nIdCount_le := by simp [CAddrMan.empty, INT_MAX]
    mapAddr_info := fun _ _ h => by cases h
    info_mapAddr := fun _ _ h => by cases h
    refCount_eq := fun _ _ h => by cases h
    new_slot := fun _ h => absurd rfl h
    tried_slot := fun _ h => absurd rfl h
    slot_tried := fun _ _ h => by cases h }
  placed := fun _ _ h => by cases h
  gaps_eq := rfl
  nKey_ne := h

section Calls

variable [DecidableEq σ] {s : CAddrMan σ}

theorem Consistent.modifyInfo (hc : s.Consistent H) {n : Int} {f : CAddrInfo σ → CAddrInfo σ}
    (hf : KeepsPlace f) (hok : ∀ info, s.mapInfo n = some info → EntryOk n (f info)) :
    (s.modifyInfo n f).Consistent H :=
  ⟨hc.wf.modifyInfo hf hok, fun m => (placed_modifyInfo_of_keepsPlace hf).mpr (hc.placed m),
    (gaps_modifyInfo fun info => (hf info).2.1).trans hc.gaps_eq, hc.nKey_ne⟩

theorem Consistent.updateService (hc : s.Consistent H) (addr : CService σ)
    {f : CAddrInfo σ → CAddrInfo σ} (hf : KeepsPlace f)
    (hok : ∀ n info, EntryOk n info → EntryOk n (f info)) :
    (s.updateService addr f).Consistent H := by
  unfold CAddrMan.updateService
  split
  · exact hc
  · split_ifs
    · exact hc
    · exact hc.modifyInfo hf fun info h => hok _ _ (hc.wf.entry _ _ h)

theorem Consistent.attempt_ (hc : s.Consistent H) (addr : CService σ) (fCountFailure : Bool)
    {nTime : Int} (ht : 0 ≤ nTime) : (s.attempt_ addr fCountFailure nTime).Consistent H :=
  hc.updateService addr (fun info => by split_ifs <;> exact ⟨rfl, rfl, rfl, rfl⟩)
    fun _ info h => by
      split_ifs
      · exact h.congr rfl rfl rfl rfl ht
      · exact h.congr rfl rfl rfl rfl ht

theorem Consistent.connected_ (hc : s.Consistent H) (addr : CService σ) (nTime : Int) :
    (s.connected_ addr nTime).Consistent H :=
  hc.updateService addr (fun info => by dsimp only; split_ifs <;> exact ⟨rfl, rfl, rfl, rfl⟩)
    fun _ info h => by
      dsimp only
      split_ifs
      · exact h.congr rfl rfl rfl rfl h.lastTry_nonneg
      · exact h

theorem Consistent.setServices_ (hc : s.Consistent H) (addr : CService σ) (nServices : UInt64) :
    (s.setServices_ addr nServices).Consistent H :=
  hc.updateService addr (fun _ => ⟨rfl, rfl, rfl, rfl⟩)
    fun _ _ h => h.congr rfl rfl rfl rfl h.lastTry_nonneg

theorem Consistent.good_ (hc : s.Consistent H) (addr : CService σ) {nTime : Int} (ht : 0 < nTime)
    (nRnd : Nat) : ∃ s', s.good_ H addr nTime nRnd = .ok s' ∧ s'.Consistent H := by
  have hc₁ : ({ s with nLastGood := nTime } : CAddrMan σ).Consistent H :=
    ⟨hc.wf.withNLastGood nTime, hc.placed, hc.gaps_eq, hc.nKey_ne⟩
  unfold CAddrMan.good_
  dsimp only
  split
  · exact ⟨_, rfl, hc₁⟩
  · rename_i nId info hfind
    have hi := (find_eq_some hfind).2
    have hc₂ := hc₁.modifyInfo (n := nId)
      (f := fun info => { info with nLastSuccess := nTime, nLastTry := nTime, nAttempts := 0 })
      (fun _ => ⟨rfl, rfl, rfl, rfl⟩) fun info' h =>
        have h' := hc₁.wf.entry _ _ h
        ⟨h'.id_nonneg, h'.randomPos_nonneg, h'.refCount_le, ht.le, ht.le, fun _ => ht⟩
    split_ifs with hsvc htried hnone
    · exact ⟨_, rfl, hc₁⟩
    · exact ⟨_, rfl, hc₂⟩
    · exact ⟨_, rfl, hc₂⟩
    · have hi₂ := modifyInfo_mapInfo_of_some (n := nId)
        (f := fun info => { info with nLastSuccess := nTime, nLastTry := nTime, nAttempts := 0 }) hi
      rw [if_pos rfl] at hi₂
      obtain ⟨s', hrun, hw', hp', hg', hk'⟩ :=
        hc₂.wf.makeTried hc₂.placed hi₂ (by simpa using htried) rfl ht
      exact ⟨s', hrun, hw', hp', hg'.trans hc₂.gaps_eq, hk' ▸ hc₂.nKey_ne⟩

theorem Consistent.addToNew_create (hc : s.Consistent H) {addr : CAddress σ} {source : σ}
    (hnone : s.mapAddr addr.ip = none) {nId : Int} {c : CAddrMan σ}
    (hcr : s.create addr source = .ok (nId, c)) {f : CAddrInfo σ → CAddrInfo σ}
    (hf : KeepsPlace f) (hok : ∀ n info, EntryOk n info → EntryOk n (f info))
    (nAdjustedTime : Int) :
    ∃ s', addToNew H nAdjustedTime { c.modifyInfo nId f with nNew := (c.modifyInfo nId f).nNew + 1 }
      source nId addr.toCService true = .ok (true, s') ∧ s'.Consistent H := by
  obtain ⟨hmax, rfl, rfl⟩ := create_eq_ok hcr
  have hw := hc.wf
  set c : CAddrMan σ := { s with
      nIdCount := s.nIdCount + 1
      mapInfo := Function.update s.mapInfo s.nIdCount
        (some { CAddrInfo.ofAddress addr source with nRandomPos := toInt32 s.vRandom.length })
      mapAddr := Function.update s.mapAddr addr.ip (some s.nIdCount)
      vRandom := s.vRandom ++ [s.nIdCount] } with hc₀
  have hwc : c.Wf H := hw.create hnone hmax
  have hic : c.mapInfo s.nIdCount =
      some { CAddrInfo.ofAddress addr source with nRandomPos := toInt32 s.vRandom.length } := by
    simp [hc₀]
  have hne : ∀ n, n ≠ s.nIdCount → c.mapInfo n = s.mapInfo n := fun n hn => by
    simp [hc₀, Function.update_of_ne hn]
  obtain ⟨hN, hT⟩ := hwc.counts_of_erase hw hic rfl hw.mapInfo_nIdCount fun n hn => by rw [hne n hn]
  have hwc₂ := (hwc.modifyInfo (n := s.nIdCount) hf fun info h => hok _ _ (hwc.entry _ _ h)).withNNew
    ((c.modifyInfo s.nIdCount f).nNew + 1)
  have hic₂ := modifyInfo_mapInfo_of_some (n := s.nIdCount) (f := f) hic
  rw [if_pos rfl] at hic₂
  obtain ⟨hsvc, hnt, hr, -⟩ := hf { CAddrInfo.ofAddress addr source with
    nRandomPos := toInt32 s.vRandom.length }
  obtain ⟨s', hrun, hw', hp', hg', hk'⟩ := hwc₂.addToNew
    (fun n hn => (placed_congr (by simp [hn, hne n hn])).mpr (hc.placed n)) hic₂ hnt
    (by rw [hr]; show (0 : Int) < ADDRMAN_NEW_BUCKETS_PER_ADDRESS; decide) hsvc nAdjustedTime
    source true
  refine ⟨s', hrun, hw', hp', hg'.trans ?_, hk' ▸ hc.nKey_ne⟩
  obtain ⟨hN₂, hT₂⟩ : (c.modifyInfo s.nIdCount f).newCount = c.newCount ∧
      (c.modifyInfo s.nIdCount f).triedCount = c.triedCount :=
    counts_of_flags rfl (modifyInfo_flags fun info => (hf info).2.1)
  have hg := hc.gaps_eq
  simp only [gaps, Prod.mk.injEq] at hg ⊢
  show (s.nNew + 1 - ((c.modifyInfo s.nIdCount f).newCount : Int) = 0) ∧
    (s.nTried - ((c.modifyInfo s.nIdCount f).triedCount : Int) = 0)
  rw [hN₂, hT₂]
  omega

theorem Consistent.add_ (hc : s.Consistent H) (isRoutable : σ → Bool) (addr : CAddress σ)
    (source : σ) (nTimePenalty nAdjustedTime : Int) (nRnd : Nat) :
    (∃ r s', s.add_ H isRoutable addr source nTimePenalty nAdjustedTime nRnd = .ok (r, s') ∧
      s'.Consistent H) ∨
    (s.add_ H isRoutable addr source nTimePenalty nAdjustedTime nRnd = .error nIdCountOverflow ∧
      s.nIdCount = INT_MAX) := by
  unfold CAddrMan.add_
  by_cases hroute : (!isRoutable addr.ip) = true
  · rw [if_pos hroute]
    exact .inl ⟨_, _, rfl, hc⟩
  rw [if_neg hroute]
  dsimp only
  split
  · rename_i nId pinfo hfind
    have hi := (find_eq_some hfind).2
    have hc₂ : ∀ (t : UInt32) (sv : UInt64),
        (s.modifyInfo nId fun info => { info with nTime := t, nServices := sv }).Consistent H :=
      fun _ _ => hc.modifyInfo (fun _ => ⟨rfl, rfl, rfl, rfl⟩) fun _ h =>
        (hc.wf.entry _ _ h).congr rfl rfl rfl rfl (hc.wf.entry _ _ h).lastTry_nonneg
    have hadd : ∀ (t : UInt32) (sv : UInt64), pinfo.fInTried = false →
        pinfo.nRefCount ≠ ADDRMAN_NEW_BUCKETS_PER_ADDRESS → ∃ s',
          (s.modifyInfo nId fun info => { info with nTime := t, nServices := sv }).addToNew H
            nAdjustedTime source nId pinfo.toCService false = .ok (false, s') ∧ s'.Consistent H := by
      intro t sv hnt hne
      have hi₂ := modifyInfo_mapInfo_of_some (n := nId)
        (f := fun info => { info with nTime := t, nServices := sv }) hi
      rw [if_pos rfl] at hi₂
      have hle := (hc.wf.entry nId pinfo hi).refCount_le
      obtain ⟨s', hrun, hw', hp', hg', hk'⟩ := (hc₂ t sv).wf.addToNew
        (fun n _ => (hc₂ t sv).placed n) hi₂ hnt (lt_of_le_of_ne hle hne) rfl nAdjustedTime source
        false
      exact ⟨s', hrun, hw', hp', hg'.trans (hc₂ t sv).gaps_eq, hk' ▸ (hc₂ t sv).nKey_ne⟩
    left
    split_ifs <;> first
      | exact ⟨_, _, rfl, hc₂ _ _⟩
      | exact ⟨false, hadd _ _ (by simpa using ‹¬pinfo.fInTried = true›)
          ‹pinfo.nRefCount ≠ ADDRMAN_NEW_BUCKETS_PER_ADDRESS›⟩
  · rename_i hfind
    have hnone := hc.wf.mapAddr_eq_none hfind
    cases hcr : s.create addr source with
    | error e =>
      right
      unfold CAddrMan.create at hcr
      split_ifs at hcr with hmax
      cases hcr
      exact ⟨rfl, hmax⟩
    | ok created =>
      left
      obtain ⟨nId, c⟩ := created
      simp only [Except.bind]
      refine ⟨true, hc.addToNew_create hnone hcr ?_ ?_ nAdjustedTime⟩
      · exact fun _ => ⟨rfl, rfl, rfl, rfl⟩
      · exact fun _ _ h => h.congr rfl rfl rfl rfl h.lastTry_nonneg

end Calls

/-! ### `Select_` -/

theorem seekSlot_ne {nb : Nat} [NeZero nb] {tbl : Fin nb × Fin ADDRMAN_BUCKET_SIZE → Int}
    {bucketLog2 : Nat} {ds ds' : List Nat} {b b' : Fin nb} {p p' : Fin ADDRMAN_BUCKET_SIZE}
    (h : seekSlot tbl bucketLog2 ds b p = some (b', p', ds')) : tbl (b', p') ≠ -1 := by
  induction ds, b, p using seekSlot.induct tbl bucketLog2 with
  | case1 d₁ d₂ ds b p hb =>
    rw [seekSlot, if_pos hb] at h
    cases h
    exact hb
  | case2 d₁ d₂ ds b p hb ih =>
    rw [seekSlot, if_neg hb] at h
    exact ih h
  | case3 ds b p hds hb =>
    unfold seekSlot at h
    split at h
    · exact absurd rfl (hds _ _ _)
    · rw [if_pos hb] at h
      cases h
      exact hb
  | case4 ds b p hds hb =>
    unfold seekSlot at h
    split at h
    · exact absurd rfl (hds _ _ _)
    · rw [if_neg hb] at h
      cases h

theorem selectLoop_chosen {nb : Nat} [NeZero nb] {tbl : Fin nb × Fin ADDRMAN_BUCKET_SIZE → Int}
    {mapInfo : Int → Option (CAddrInfo σ)} (htbl : ∀ x, tbl x ≠ -1 → (mapInfo (tbl x)).isSome)
    (bucketLog2 : Nat) (nNow : Int) (fChanceFactor : Float) (ds : List Nat) :
    ∃ r, selectLoop tbl bucketLog2 mapInfo nNow fChanceFactor ds = .ok r ∧
      ∀ info, r = .chosen info → ∃ x, tbl x ≠ -1 ∧ mapInfo (tbl x) = some info := by
  fun_induction selectLoop tbl bucketLog2 mapInfo nNow fChanceFactor ds with
  | case2 _ _ _ _ _ _ _ h hnone =>
    have := htbl _ (seekSlot_ne h)
    rw [hnone] at this
    cases this
  | case4 _ _ _ _ _ _ info hinfo _ _ h _ _ =>
    exact ⟨_, rfl, fun info' h' => by cases h'; exact ⟨_, seekSlot_ne h, hinfo⟩⟩
  | case5 _ _ _ _ _ _ _ _ _ _ _ _ _ ih => exact ih
  | _ => exact ⟨_, rfl, fun _ h => by cases h⟩

theorem Wf.select_ {s : CAddrMan σ} (hw : s.Wf H) (newOnly : Bool) (nNow : Int) (ds : List Nat) :
    ∃ r, s.select_ newOnly nNow ds = .ok r ∧ ∀ info, r = .chosen info →
      ∃ n, s.mapInfo n = some info ∧ (newOnly = true → info.fInTried = false) := by
  have htbl : ∀ x, s.vvTried x ≠ -1 → (s.mapInfo (s.vvTried x)).isSome := fun x hx => by
    obtain ⟨info, hi, -⟩ := hw.tried_slot x hx
    simp [hi]
  have hntbl : ∀ x, s.vvNew x ≠ -1 → (s.mapInfo (s.vvNew x)).isSome := fun x hx => by
    obtain ⟨info, hi, -⟩ := hw.new_slot x hx
    simp [hi]
  have htried : ∀ ds, ∃ r, selectLoop s.vvTried ADDRMAN_TRIED_BUCKET_COUNT_LOG2 s.mapInfo nNow 1.0
      ds = .ok r ∧ ∀ info, r = .chosen info → ∃ n, s.mapInfo n = some info ∧ info.fInTried = true :=
    fun ds => by
      obtain ⟨r, h, hr⟩ := selectLoop_chosen htbl ADDRMAN_TRIED_BUCKET_COUNT_LOG2 nNow 1.0 ds
      refine ⟨r, h, fun info hinfo => ?_⟩
      obtain ⟨x, hx, hi⟩ := hr info hinfo
      obtain ⟨info', hi', ht, -⟩ := hw.tried_slot x hx
      rw [hi] at hi'
      cases hi'
      exact ⟨_, hi, ht⟩
  have hnew : ∀ ds, ∃ r, selectLoop s.vvNew ADDRMAN_NEW_BUCKET_COUNT_LOG2 s.mapInfo nNow 1.0
      ds = .ok r ∧ ∀ info, r = .chosen info → ∃ n, s.mapInfo n = some info ∧ info.fInTried = false :=
    fun ds => by
      obtain ⟨r, h, hr⟩ := selectLoop_chosen hntbl ADDRMAN_NEW_BUCKET_COUNT_LOG2 nNow 1.0 ds
      refine ⟨r, h, fun info hinfo => ?_⟩
      obtain ⟨x, hx, hi⟩ := hr info hinfo
      obtain ⟨info', hi', hnt, -⟩ := hw.new_slot x hx
      rw [hi] at hi'
      cases hi'
      exact ⟨_, hi, hnt⟩
  unfold CAddrMan.select_
  dsimp only
  split_ifs with h₀ h₁ h₂ h₃
  · exact ⟨_, rfl, fun _ h => by cases h⟩
  · exact ⟨_, rfl, fun _ h => by cases h⟩
  · obtain ⟨r, h, hr⟩ := htried ds
    refine ⟨r, h, fun info hinfo => ?_⟩
    obtain ⟨n, hi, -⟩ := hr info hinfo
    exact ⟨n, hi, fun hn => by simp [hn] at h₂⟩
  · split
    · exact ⟨_, rfl, fun _ h => by cases h⟩
    · split_ifs
      · obtain ⟨r, h, hr⟩ := htried _
        refine ⟨r, h, fun info hinfo => ?_⟩
        obtain ⟨n, hi, -⟩ := hr info hinfo
        exact ⟨n, hi, fun hn => by simp [hn] at h₃⟩
      · obtain ⟨r, h, hr⟩ := hnew _
        refine ⟨r, h, fun info hinfo => ?_⟩
        obtain ⟨n, hi, hnt⟩ := hr info hinfo
        exact ⟨n, hi, fun _ => hnt⟩
  · obtain ⟨r, h, hr⟩ := hnew ds
    refine ⟨r, h, fun info hinfo => ?_⟩
    obtain ⟨n, hi, hnt⟩ := hr info hinfo
    exact ⟨n, hi, fun _ => hnt⟩

/-! ### Runs -/

/-- The times `Check_` wants not negative, as the calls write them: `Good_` writes its time to
`nLastSuccess`, which is positive for a tried entry, and `Attempt_` writes its time to
`nLastTry`. -/
def Op.TimesOk : Op σ → Prop
  | .good _ nTime _ => 0 < nTime
  | .attempt _ _ nTime => 0 ≤ nTime
  | _ => True

section Runs

variable [DecidableEq σ] {s : CAddrMan σ} (isRoutable : σ → Bool)

theorem Consistent.step (hc : s.Consistent H) {op : Op σ} (hop : op.TimesOk) :
    (∃ s', s.step H isRoutable op = .ok s' ∧ s'.Consistent H) ∨
      (s.step H isRoutable op = .error nIdCountOverflow ∧ s.nIdCount = INT_MAX) := by
  cases op with
  | add addr source nTimePenalty nAdjustedTime nRnd =>
    rcases hc.add_ isRoutable addr source nTimePenalty nAdjustedTime nRnd with
      ⟨r, s', h, h'⟩ | ⟨h, hmax⟩
    · exact .inl ⟨s', by simp [CAddrMan.step, h, Except.map], h'⟩
    · exact .inr ⟨by simp [CAddrMan.step, h, Except.map], hmax⟩
  | good addr nTime nRnd => exact .inl (hc.good_ addr hop nRnd)
  | attempt addr fCountFailure nTime => exact .inl ⟨_, rfl, hc.attempt_ addr fCountFailure hop⟩
  | connected addr nTime => exact .inl ⟨_, rfl, hc.connected_ addr nTime⟩
  | setServices addr nServices => exact .inl ⟨_, rfl, hc.setServices_ addr nServices⟩
  | select newOnly nNow draws =>
    obtain ⟨r, h, -⟩ := hc.wf.select_ newOnly nNow draws
    exact .inl ⟨s, by simp [CAddrMan.step, h, Except.map], hc⟩

/-- A run of calls whose times `Check_` accepts keeps the invariant, or stops at the overflow of
`nIdCount`: by induction on the calls, one step at a time. -/
theorem Consistent.run (hc : s.Consistent H) (ops : List (Op σ))
    (hops : ∀ op ∈ ops, op.TimesOk) :
    (∃ s', s.run H isRoutable ops = .ok s' ∧ s'.Consistent H) ∨
      s.run H isRoutable ops = .error nIdCountOverflow := by
  induction ops generalizing s with
  | nil => exact .inl ⟨s, rfl, hc⟩
  | cons op ops ih =>
    rcases hc.step isRoutable (hops op List.mem_cons_self) with ⟨s₁, h₁, hc₁⟩ | ⟨h₁, -⟩
    · rw [CAddrMan.run, h₁]
      exact ih hc₁ fun op hop => hops op (List.mem_cons_of_mem _ hop)
    · rw [CAddrMan.run, h₁]
      exact .inr rfl

end Runs

/-! ### `Check_` after every run -/

/-- Every run of the calls from an empty manager with a non-null key, in which `Good_` and
`Attempt_` write times that `Check_` accepts, ends in a state that passes `Check_`, or stops at the
overflow of `nIdCount`: no assert fails on the way. -/
theorem checkOk_of_run [DecidableEq σ] (isRoutable : σ → Bool) {nKey : Nat} (hkey : nKey ≠ 0)
    (ops : List (Op σ)) (hops : ∀ op ∈ ops, op.TimesOk) :
    (∃ s', (empty nKey).run H isRoutable ops = .ok s' ∧ s'.CheckOk H) ∨
      (empty nKey).run H isRoutable ops = .error nIdCountOverflow := by
  rcases (consistent_empty hkey).run isRoutable ops hops with ⟨s', h, hc⟩ | h
  · exact .inl ⟨s', h, hc.checkOk⟩
  · exact .inr h

/-- Hashes that send every address to the first bucket and the first position. -/
def constantHashes : BucketHashes Nat := ⟨fun _ => 0, fun _ _ => 0, fun _ _ _ => 0⟩

theorem checkOk_of_run_add_good_attempt :
    (1 : Nat) ≠ 0 ∧ (∀ op ∈ [Op.add ⟨⟨5, 0⟩, 0, 1⟩ 7 0 100 0, .good ⟨5, 0⟩ 100 0,
        .attempt ⟨5, 0⟩ true 200], op.TimesOk) ∧
      ((∃ s', (empty 1).run constantHashes (fun _ => true) [Op.add ⟨⟨5, 0⟩, 0, 1⟩ 7 0 100 0,
          .good ⟨5, 0⟩ 100 0, .attempt ⟨5, 0⟩ true 200] = .ok s' ∧ s'.CheckOk constantHashes) ∨
        (empty 1).run constantHashes (fun _ => true) [Op.add ⟨⟨5, 0⟩, 0, 1⟩ 7 0 100 0,
          .good ⟨5, 0⟩ 100 0, .attempt ⟨5, 0⟩ true 200] = .error nIdCountOverflow) :=
  ⟨by decide, by simp [Op.TimesOk],
    checkOk_of_run (fun _ => true) (by decide) _ (by simp [Op.TimesOk])⟩

/-- `Attempt_` of a time before the epoch leaves `nLastTry` negative, which `Check_` rejects with
-6, in a run without any `Good_`. -/
theorem attempt_before_epoch_fails_check :
    ∃ s', (empty 1 : CAddrMan Nat).run constantHashes (fun _ => true)
      [.add ⟨⟨5, 0⟩, 0, 1⟩ 7 0 100 0, .attempt ⟨5, 0⟩ false (-1)] = .ok s' ∧
      ¬ s'.CheckOk constantHashes := by
  have h0 : (((empty 1 : CAddrMan Nat).run constantHashes (fun _ => true)
      [.add ⟨⟨5, 0⟩, 0, 1⟩ 7 0 100 0, .attempt ⟨5, 0⟩ false (-1)]).toOption.bind
      fun t => (t.mapInfo 0).map (·.nLastTry)) = some (-1) := by decide
  cases h : (empty 1 : CAddrMan Nat).run constantHashes (fun _ => true)
      [.add ⟨⟨5, 0⟩, 0, 1⟩ 7 0 100 0, .attempt ⟨5, 0⟩ false (-1)] with
  | error e =>
    rw [h] at h0
    cases h0
  | ok s' =>
    refine ⟨s', rfl, fun hc => ?_⟩
    rw [h] at h0
    simp only [Except.toOption, Option.bind_some, Option.map_eq_some_iff] at h0
    obtain ⟨info, hi, hlt⟩ := h0
    have := (hc.times_nonneg 0 info hi).1
    omega

end CAddrMan

end TbcNode.Net
