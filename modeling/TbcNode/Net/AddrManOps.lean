import Mathlib
import TbcNode.Net.AddrManWf

/-! # The calls that move entries between the tables

`ClearNew`, `MakeTried` with its loop and eviction, and the end of `Add_`, each run from a
well-formed state: the call succeeds, the state after it is well formed, and the gaps between the
counters and the entries are unchanged.
-/

namespace TbcNode.Net

open TbcNode.Logic

variable {σ : Type} [DecidableEq σ] {H : BucketHashes σ}

namespace CAddrMan

variable {s : CAddrMan σ}

/-! ### Writes to one entry -/

theorem frame_modifyInfo (n : Int) (f : CAddrInfo σ → CAddrInfo σ) :
    Frame s (s.modifyInfo n f) n :=
  ⟨fun _ hm => by rw [modifyInfo_mapInfo_ne hm], rfl, rfl, rfl, rfl, rfl⟩

theorem frame_modifyInfo_vvNew (n : Int) (f : CAddrInfo σ → CAddrInfo σ)
    (v : Fin ADDRMAN_NEW_BUCKET_COUNT × Fin ADDRMAN_BUCKET_SIZE → Int) :
    Frame s { s.modifyInfo n f with vvNew := v } n :=
  ⟨fun _ hm => by simp [hm], rfl, rfl, rfl, rfl, rfl⟩

theorem gaps_modifyInfo {n : Int} {f : CAddrInfo σ → CAddrInfo σ}
    (hf : ∀ info, (f info).fInTried = info.fInTried) : (s.modifyInfo n f).gaps = s.gaps := by
  obtain ⟨hN, hT⟩ : (s.modifyInfo n f).newCount = s.newCount ∧
      (s.modifyInfo n f).triedCount = s.triedCount :=
    counts_of_flags rfl (modifyInfo_flags hf)
  simp only [gaps, modifyInfo_nNew, modifyInfo_nTried, hN, hT]

theorem gaps_modifyInfo_vvNew {n : Int} {f : CAddrInfo σ → CAddrInfo σ}
    (hf : ∀ info, (f info).fInTried = info.fInTried)
    (v : Fin ADDRMAN_NEW_BUCKET_COUNT × Fin ADDRMAN_BUCKET_SIZE → Int) :
    ({ s.modifyInfo n f with vvNew := v } : CAddrMan σ).gaps = s.gaps :=
  gaps_modifyInfo (s := s) (n := n) hf

theorem placed_modifyInfo {n m : Int} {f : CAddrInfo σ → CAddrInfo σ} (hm : m ≠ n) :
    (s.modifyInfo n f).Placed m ↔ s.Placed m :=
  placed_congr (by rw [modifyInfo_mapInfo_ne hm])

theorem placed_modifyInfo_of_keepsPlace {n m : Int} {f : CAddrInfo σ → CAddrInfo σ}
    (hf : KeepsPlace f) : (s.modifyInfo n f).Placed m ↔ s.Placed m := by
  by_cases hm : m = n
  · subst hm
    cases hi : s.mapInfo m with
    | none =>
      exact ⟨fun _ info h => by simp [hi] at h, fun _ info h => by simp [hi] at h⟩
    | some info =>
      obtain ⟨-, h₂, h₃, -⟩ := hf info
      constructor
      · intro h info' h' hnt
        rw [hi] at h'
        cases h'
        have := h (f info) (by simp [hi]) (h₂.trans hnt)
        rwa [h₃] at this
      · intro h info' h' hnt
        simp only [modifyInfo_mapInfo, if_true, hi, Option.map_some, Option.some.injEq] at h'
        subst h'
        rw [h₃]
        exact h info hi (h₂.symm.trans hnt)
  · exact placed_modifyInfo hm

omit [DecidableEq σ] in
theorem gaps_of_delete {s' : CAddrMan σ} (hw : s.Wf H) (hw' : s'.Wf H) {m : Int}
    {info : CAddrInfo σ} (hm : s.mapInfo m = some info) (hnt : info.fInTried = false)
    (hf : Frame s s' m) (hnone : s'.mapInfo m = none) (hN : s'.nNew = s.nNew - 1) :
    s'.gaps = s.gaps := by
  obtain ⟨hc₁, hc₂⟩ := hw.counts_of_erase hw' hm hnt hnone hf.mapInfo_ne
  simp only [gaps, hN, hf.nTried_eq, Prod.mk.injEq]
  omega

theorem Wf.unlink (hw : s.Wf H) {x : Fin ADDRMAN_NEW_BUCKET_COUNT × Fin ADDRMAN_BUCKET_SIZE}
    {n : Int} {info : CAddrInfo σ} (hx : s.vvNew x = n) (hi : s.mapInfo n = some info) :
    ({ s.modifyInfo n (fun info => { info with nRefCount := info.nRefCount - 1 }) with
        vvNew := Function.update s.vvNew x (-1) } : CAddrMan σ).Wf H ∧
      Frame s { s.modifyInfo n (fun info => { info with nRefCount := info.nRefCount - 1 }) with
        vvNew := Function.update s.vvNew x (-1) } n ∧
      ({ s.modifyInfo n (fun info => { info with nRefCount := info.nRefCount - 1 }) with
        vvNew := Function.update s.vvNew x (-1) } : CAddrMan σ).gaps = s.gaps ∧
      ({ s.modifyInfo n (fun info => { info with nRefCount := info.nRefCount - 1 }) with
        vvNew := Function.update s.vvNew x (-1) } : CAddrMan σ).mapInfo n =
        some { info with nRefCount := info.nRefCount - 1 } :=
  ⟨hw.unlinkNew hx (hw.ne_neg_one hi), frame_modifyInfo_vvNew n _ _,
    gaps_modifyInfo_vvNew (n := n) (f := fun info => { info with nRefCount := info.nRefCount - 1 })
      (fun _ => rfl) _, by simp [hi]⟩

/-! ### `ClearNew` -/

theorem Wf.clearNew (hw : s.Wf H) (x : Fin ADDRMAN_NEW_BUCKET_COUNT × Fin ADDRMAN_BUCKET_SIZE) :
    ∃ s', s.clearNew x.1 x.2 = .ok s' ∧ s'.Wf H ∧ Frame s s' (s.vvNew x) ∧
      s'.vvNew = Function.update s.vvNew x (-1) ∧ s'.gaps = s.gaps ∧
      ∀ n, s.Placed n → s'.Placed n := by
  by_cases he : s.vvNew x = -1
  · refine ⟨s, by simp [CAddrMan.clearNew, he], hw, Frame.refl s _, ?_, rfl, fun _ h => h⟩
    funext y
    by_cases hy : y = x
    · subst hy
      simp [he]
    · simp [hy]
  obtain ⟨info, hi, hnt, -⟩ := hw.new_slot x he
  have hpos : 0 < info.nRefCount := by
    rw [hw.refCount_eq _ info hi]
    exact_mod_cast occupancy_pos.mpr ⟨x, rfl⟩
  obtain ⟨hwt, hft, hgt, hit⟩ := hw.unlink rfl hi
  by_cases hr : info.nRefCount - 1 = 0
  · obtain ⟨s', hd, hw', hf', hnone, hvv, hN⟩ := hwt.delete hit hnt hr
    refine ⟨s', ?_, hw', hft.trans hf', hvv, (gaps_of_delete hwt hw' hit hnt hf' hnone hN).trans hgt,
      fun n hn => ?_⟩
    · simp only [CAddrMan.clearNew, Prod.mk.eta, he, if_false, hi, not_le.mpr hpos, hr,
        if_true]
      exact hd
    · by_cases hno : n = s.vvNew x
      · intro info' h'
        rw [hno, hnone] at h'
        cases h'
      · exact (hft.trans hf').placed hno hn
  · refine ⟨_, ?_, hwt, hft, rfl, hgt, fun n hn => ?_⟩
    · simp only [CAddrMan.clearNew, Prod.mk.eta, he, if_false, hi, not_le.mpr hpos, hr]
    · by_cases hno : n = s.vvNew x
      · intro info' h' _
        rw [hno] at h'
        have := hit.symm.trans h'
        cases this
        simp only
        omega
      · exact hft.placed hno hn

/-! ### The loop of `MakeTried` -/

section RemoveFromNew

variable {svc : CService σ} {nId : Int}

omit [DecidableEq σ] in
theorem removeFromNew_vvNew_eq (hn : nId ≠ -1) (buckets : List (Fin ADDRMAN_NEW_BUCKET_COUNT)) :
    ∀ (s : CAddrMan σ) y, (removeFromNew H svc nId s buckets).vvNew y = nId → s.vvNew y = nId := by
  induction buckets with
  | nil => exact fun _ _ h => h
  | cons b bs ih =>
    intro s y h
    rw [removeFromNew] at h
    have h' := ih _ y h
    split_ifs at h' with hb
    · have hy : y ≠ (b, H.getBucketPosition svc true b) := by
        rintro rfl
        simp only [Function.update_self] at h'
        exact hn h'.symm
      simpa [Function.update_of_ne hy] using h'
    · exact h'

omit [DecidableEq σ] in
theorem removeFromNew_vvNew_ne (hn : nId ≠ -1) (buckets : List (Fin ADDRMAN_NEW_BUCKET_COUNT)) :
    ∀ (s : CAddrMan σ), ∀ b ∈ buckets,
      (removeFromNew H svc nId s buckets).vvNew (b, H.getBucketPosition svc true b) ≠ nId := by
  induction buckets with
  | nil => simp
  | cons b bs ih =>
    intro s b' hb' h
    rw [removeFromNew] at h
    rcases List.mem_cons.mp hb' with rfl | hb'
    · have h' := removeFromNew_vvNew_eq hn bs _ _ h
      split_ifs at h' with hb
      · simp only [Function.update_self] at h'
        exact hn h'.symm
      · exact hb h'
    · exact ih _ b' hb' h

variable (svc) in
theorem Wf.removeFromNew (buckets : List (Fin ADDRMAN_NEW_BUCKET_COUNT)) :
    ∀ {s : CAddrMan σ} {info : CAddrInfo σ}, s.Wf H → s.mapInfo nId = some info →
      (removeFromNew H svc nId s buckets).Wf H ∧ Frame s (removeFromNew H svc nId s buckets) nId ∧
      (removeFromNew H svc nId s buckets).gaps = s.gaps ∧
      ∃ k : Int, (removeFromNew H svc nId s buckets).mapInfo nId =
        some { info with nRefCount := info.nRefCount - k } := by
  induction buckets with
  | nil =>
    intro s info hw hi
    exact ⟨hw, Frame.refl s nId, rfl, 0, by simp [CAddrMan.removeFromNew, hi]⟩
  | cons b bs ih =>
    intro s info hw hi
    rw [CAddrMan.removeFromNew]
    split_ifs with hb
    · obtain ⟨hwt, hft, hgt, hit⟩ := hw.unlink hb hi
      obtain ⟨hw', hf', hg', k, hk⟩ := ih hwt hit
      refine ⟨hw', hft.trans hf', hg'.trans hgt, k + 1, ?_⟩
      rw [hk]
      congr 2
      simp only
      omega
    · exact ih hw hi

theorem Wf.occupancy_removeFromNew (hw : s.Wf H) {info : CAddrInfo σ}
    (hi : s.mapInfo nId = some info) (hsvc : info.toCService = svc) :
    occupancy (CAddrMan.removeFromNew H svc nId s
      (List.finRange ADDRMAN_NEW_BUCKET_COUNT)).vvNew nId = 0 := by
  obtain ⟨hw', -, -, k, hk⟩ := Wf.removeFromNew svc (List.finRange _) hw hi
  rw [occupancy_eq_zero]
  intro y hy
  obtain ⟨-, hbp⟩ := hw'.new_slot_of_eq hk hy
  have hy' : y = (y.1, H.getBucketPosition svc true y.1) := by
    rw [← hsvc]
    exact Prod.ext rfl hbp.symm
  rw [hy'] at hy
  exact removeFromNew_vvNew_ne (hw.ne_neg_one hi) _ s y.1 (List.mem_finRange _) hy

end RemoveFromNew

/-! ### The eviction of `MakeTried` -/

theorem Wf.evictTried (hw : s.Wf H)
    {slot : Fin ADDRMAN_TRIED_BUCKET_COUNT × Fin ADDRMAN_BUCKET_SIZE} (hs : s.vvTried slot ≠ -1) :
    ∃ s', s.evictTried H slot = .ok s' ∧ s'.Wf H ∧ s'.vvTried slot = -1 ∧ s'.gaps = s.gaps ∧
      s'.nKey = s.nKey ∧ (∀ n, s.Placed n → s'.Placed n) ∧
      ∀ n, n ≠ s.vvTried slot → (s.mapInfo n).isSome → occupancy s.vvNew n = 0 →
        (s'.mapInfo n).map CAddrInfo.unplaced = (s.mapInfo n).map CAddrInfo.unplaced := by
  obtain ⟨infoOld, hi, ht, -⟩ := hw.tried_slot slot hs
  have hocc := hw.occupancy_of_tried hi ht
  set e := s.vvTried slot with he
  set s₁ : CAddrMan σ := { s.modifyInfo e (fun info => { info with fInTried := false }) with
    vvTried := Function.update s.vvTried slot (-1)
    nTried := s.nTried - 1 } with hs₁
  have hw₁ : s₁.Wf H := hw.untry hs
  have hi₁ : s₁.mapInfo e = some { infoOld with fInTried := false } := by simp [hs₁, hi]
  obtain ⟨hN₁, hT₁⟩ := hw.counts_modifyInfo hi fun info => { info with fInTried := false }
  set x := (H.getNewBucket infoOld.toCService infoOld.source,
    H.getBucketPosition infoOld.toCService true (H.getNewBucket infoOld.toCService infoOld.source))
    with hx
  obtain ⟨s₂, hc, hw₂, hf₂, hv₂, hg₂, hp₂⟩ := hw₁.clearNew x
  have hxe : s₁.vvNew x ≠ e := fun h => (occupancy_eq_zero.mp hocc) x h
  obtain ⟨info₂, hi₂, hu₂⟩ := exists_of_map_unplaced (hf₂.mapInfo_ne e (Ne.symm hxe)) hi₁
  have hnt₂ : info₂.fInTried = false := CAddrInfo.congr_unplaced hu₂ _ fun _ => rfl
  have hr₂ : info₂.nRefCount = 0 := by
    rw [CAddrInfo.congr_unplaced hu₂ CAddrInfo.nRefCount fun _ => rfl,
      hw.refCount_eq _ infoOld hi, hocc]
    rfl
  have hsvc₂ : info₂.toCService = infoOld.toCService :=
    CAddrInfo.congr_unplaced hu₂ (fun i => i.toCService) fun _ => rfl
  have hcongr : (s₂.modifyInfo e fun info => { info with nRefCount := 1 }) =
      s₂.modifyInfo e fun info => { info with nRefCount := info.nRefCount + 1 } :=
    modifyInfo_congr fun info h => by
      rw [hi₂] at h
      cases h
      rw [hr₂]
      rfl
  set s₃ : CAddrMan σ := { s₂.modifyInfo e (fun info => { info with nRefCount := 1 }) with
    vvNew := Function.update s₂.vvNew x e
    nNew := s₂.nNew + 1 } with hs₃
  have hw₃ : s₃.Wf H := by
    have := (hw₂.linkNew hi₂ (by rw [hv₂, Function.update_self]) hnt₂ (by rw [hsvc₂])
      (by rw [hr₂]; decide)).withNNew (s₂.nNew + 1)
    rw [hs₃, hcongr]
    exact this
  have hi₃ : s₃.mapInfo e = some { info₂ with nRefCount := 1 } := by simp [hs₃, hi₂]
  obtain ⟨hN₃, hT₃⟩ : s₃.newCount = s₂.newCount ∧ s₃.triedCount = s₂.triedCount :=
    counts_of_flags rfl (modifyInfo_flags fun _ => rfl)
  refine ⟨s₃, ?_, hw₃, ?_, ?_, hf₂.nKey_eq, fun n hn => ?_, fun n hne hsome hn => ?_⟩
  · have hx₂ : s₂.vvNew x = -1 := by rw [hv₂, Function.update_self]
    simp only [hx] at hc
    simp only [CAddrMan.evictTried, ← he, hi, ← hs₁, hc, Except.bind, ← hx, hx₂, ne_eq,
      not_true_eq_false, if_false]
    rfl
  · show s₂.vvTried slot = -1
    rw [hf₂.vvTried_eq]
    simp [hs₁]
  · have hg : s₁.gaps = s.gaps - (1, 0) := by
      simp only [gaps, Prod.mk_sub_mk, Prod.mk.injEq]
      simp only [ht, Bool.not_true, Bool.toNat_false, add_zero, Bool.not_false,
        Bool.toNat_true] at hN₁ hT₁
      constructor
      · show s.nNew - ((s.modifyInfo e _).newCount : Int) = _
        omega
      · show s.nTried - 1 - ((s.modifyInfo e _).triedCount : Int) = _
        omega
    have hg₃ : s₃.gaps = s₂.gaps + (1, 0) := by
      simp only [gaps, Prod.mk_add_mk, Prod.mk.injEq, hN₃, hT₃]
      exact ⟨by simp only [hs₃]; omega, by simp only [hs₃, add_zero]; rfl⟩
    rw [hg₃, hg₂, hg]
    simp
  · by_cases hne : n = e
    · intro info' h' _
      rw [hne, hi₃] at h'
      cases h'
      simp
    · have h₁ : s₁.Placed n := (placed_congr (by simp [hs₁, hne])).mpr hn
      exact (placed_congr (by simp [hs₃, hne])).mpr (hp₂ n h₁)
  · have hno : n ≠ s₁.vvNew x := by
      intro h
      by_cases hm : n = -1
      · obtain ⟨info, hinfo⟩ := Option.isSome_iff_exists.mp hsome
        exact hw.ne_neg_one hinfo hm
      · exact (occupancy_eq_zero.mp hn) x h.symm
    have h₃ : s₃.mapInfo n = s₂.mapInfo n := by simp [hs₃, hne]
    rw [h₃, hf₂.mapInfo_ne n hno]
    simp [hs₁, hne]

/-! ### `MakeTried` -/

theorem Wf.makeTried (hw : s.Wf H) (hp : ∀ n, s.Placed n) {svc : CService σ} {nId : Int}
    {info : CAddrInfo σ} (hi : s.mapInfo nId = some info) (hnt : info.fInTried = false)
    (hsvc : info.toCService = svc) (hls : 0 < info.nLastSuccess) :
    ∃ s', s.makeTried H svc nId = .ok s' ∧ s'.Wf H ∧ (∀ n, s'.Placed n) ∧ s'.gaps = s.gaps ∧
      s'.nKey = s.nKey := by
  obtain ⟨hwL, hfL, hgL, k, hkL⟩ :=
    Wf.removeFromNew svc (List.finRange ADDRMAN_NEW_BUCKET_COUNT) hw hi
  have hoccL := hw.occupancy_removeFromNew hi hsvc
  obtain ⟨L, hL⟩ : ∃ L, CAddrMan.removeFromNew H svc nId s
      (List.finRange ADDRMAN_NEW_BUCKET_COUNT) = L := ⟨_, rfl⟩
  rw [hL] at hwL hfL hgL hkL hoccL
  have hk : info.nRefCount - k = 0 := by
    have := hwL.refCount_eq nId _ hkL
    rw [hoccL] at this
    exact this
  set s₁ : CAddrMan σ := { L with nNew := L.nNew - 1 } with hs₁
  have hw₁ : s₁.Wf H := hwL.withNNew _
  have hi₁ : s₁.mapInfo nId = some { info with nRefCount := info.nRefCount - k } := hkL
  have hp₁ : ∀ n, n ≠ nId → s₁.Placed n := fun n hn => hfL.placed hn (hp n)
  have hg₁ : s₁.gaps = (s.gaps.1 - 1, s.gaps.2) := by
    rw [← hgL]
    exact Prod.ext (show L.nNew - 1 - (L.newCount : Int) = L.nNew - L.newCount - 1 by omega) rfl
  obtain ⟨s₂, hm₂, hw₂, hv₂, hg₂, hK₂, hp₂, info₂, hi₂, hu₂⟩ :
      ∃ s₂, (if s₁.vvTried (triedSlot H svc) ≠ -1 then s₁.evictTried H (triedSlot H svc)
          else .ok s₁) = .ok s₂ ∧ s₂.Wf H ∧ s₂.vvTried (triedSlot H svc) = -1 ∧
        s₂.gaps = s₁.gaps ∧ s₂.nKey = s₁.nKey ∧
        (∀ n, n ≠ nId → s₂.Placed n) ∧ ∃ info₂, s₂.mapInfo nId = some info₂ ∧
          info₂.unplaced = { info with nRefCount := info.nRefCount - k }.unplaced := by
    by_cases hsl : s₁.vvTried (triedSlot H svc) = -1
    · exact ⟨s₁, by simp [hsl], hw₁, hsl, rfl, rfl, hp₁, _, hi₁, rfl⟩
    · obtain ⟨s₂, he, hw₂, hv₂, hg₂, hK₂, hp₂, hkeep⟩ := hw₁.evictTried hsl
      have hne : nId ≠ s₁.vvTried (triedSlot H svc) := by
        intro h
        obtain ⟨info', hi', ht', -⟩ := hw₁.tried_slot _ hsl
        rw [← h, hi₁] at hi'
        cases hi'
        rw [hnt] at ht'
        cases ht'
      refine ⟨s₂, by simp [hsl, he], hw₂, hv₂, hg₂, hK₂, fun n hn => hp₂ n (hp₁ n hn), ?_⟩
      exact exists_of_map_unplaced (hkeep nId hne (by simp [hi₁]) hoccL) hi₁
  have hnt₂ : info₂.fInTried = false :=
    (CAddrInfo.congr_unplaced hu₂ CAddrInfo.fInTried fun _ => rfl).trans hnt
  have hr₂ : info₂.nRefCount = 0 :=
    (CAddrInfo.congr_unplaced hu₂ CAddrInfo.nRefCount fun _ => rfl).trans hk
  have hsvc₂ : info₂.toCService = svc :=
    (CAddrInfo.congr_unplaced hu₂ (fun i => i.toCService) fun _ => rfl).trans hsvc
  have hls₂ : 0 < info₂.nLastSuccess := by
    rw [CAddrInfo.congr_unplaced hu₂ (fun i => i.nLastSuccess) fun _ => rfl]
    exact hls
  have hw₃ := hw₂.enterTried hi₂ hnt₂ hr₂ (by rw [hsvc₂]; exact hv₂) hls₂
  rw [hsvc₂] at hw₃
  obtain ⟨hN₃, hT₃⟩ := hw₂.counts_modifyInfo hi₂ fun info => { info with fInTried := true }
  simp only [hnt₂, Bool.not_false, Bool.toNat_true, Bool.not_true, Bool.toNat_false,
    add_zero] at hN₃ hT₃
  refine ⟨_, ?_, hw₃, fun n => ?_, ?_, hK₂.trans hfL.nKey_eq⟩
  · have hvt : s₁.vvTried = L.vvTried := rfl
    simp only [triedSlot, ne_eq, hvt] at hm₂ hv₂
    simp only [CAddrMan.makeTried, hL, ← hs₁, hkL, Option.any_some, hk, ne_eq, not_true_eq_false,
      decide_false, Bool.false_eq_true, if_false, hm₂, Except.bind, hv₂]
    rfl
  · by_cases hn : n = nId
    · intro info' h' hnt'
      rw [hn] at h'
      simp [hi₂] at h'
      rw [← h'] at hnt'
      cases hnt'
    · exact (placed_modifyInfo hn).mpr (hp₂ n hn)
  · have h₃ : s₂.nNew - ((s₂.modifyInfo nId fun info => { info with fInTried := true }).newCount :
        Int) = s₂.gaps.1 + 1 := by
      simp only [gaps]
      omega
    have h₃' : s₂.nTried + 1 - ((s₂.modifyInfo nId fun info => { info with fInTried := true }).triedCount :
        Int) = s₂.gaps.2 := by
      simp only [gaps]
      omega
    refine Prod.ext (h₃.trans ?_) (h₃'.trans ?_)
    · rw [hg₂, hg₁]
      simp
    · rw [hg₂, hg₁]

/-! ### The end of `Add_` -/

/-- The end of `Add_` succeeds on a well-formed state in which every entry but `nId` stands in some
slot, for a new entry `nId` whose count may still grow. The entry takes its slot, or stays where
it is, or, standing nowhere, is deleted; afterwards every entry stands in some slot, and the gaps
are unchanged. -/
theorem Wf.addToNew (hw : s.Wf H) {nId : Int} {info : CAddrInfo σ}
    (hp : ∀ n, n ≠ nId → s.Placed n) (hi : s.mapInfo nId = some info) (hnt : info.fInTried = false)
    (hlt : info.nRefCount < ADDRMAN_NEW_BUCKETS_PER_ADDRESS) {svc : CService σ}
    (hsvc : info.toCService = svc) (nNow : Int) (source : σ) (fNew : Bool) :
    ∃ s', s.addToNew H nNow source nId svc fNew = .ok (fNew, s') ∧ s'.Wf H ∧
      (∀ n, s'.Placed n) ∧ s'.gaps = s.gaps ∧ s'.nKey = s.nKey := by
  obtain ⟨x, hx⟩ : ∃ x : Fin ADDRMAN_NEW_BUCKET_COUNT × Fin ADDRMAN_BUCKET_SIZE,
      (H.getNewBucket svc source, H.getBucketPosition svc true (H.getNewBucket svc source)) = x :=
    ⟨_, rfl⟩
  have hrc : ((s.mapInfo nId).map (·.nRefCount)).getD 0 = info.nRefCount := by simp [hi]
  have hocc := hw.refCount_eq nId info hi
  have hkeep : 0 < info.nRefCount → ∀ n, s.Placed n := by
    intro hpos n
    by_cases hn : n = nId
    · intro info' h' _
      rw [hn, hi] at h'
      cases h'
      exact hpos
    · exact hp n hn
  by_cases hself : s.vvNew x = nId
  · refine ⟨s, by simp [CAddrMan.addToNew, hx, hself], hw, hkeep ?_, rfl, rfl⟩
    rw [hocc]
    exact_mod_cast occupancy_pos.mpr ⟨x, hself⟩
  have hinsert : ∃ s', ((s.clearNew x.1 x.2).bind fun s' =>
      (.ok (fNew, { (s'.modifyInfo nId fun info => { info with nRefCount := info.nRefCount + 1 })
        with vvNew := Function.update s'.vvNew x nId }) : Except String (Bool × CAddrMan σ))) =
        .ok (fNew, s') ∧ s'.Wf H ∧ (∀ n, s'.Placed n) ∧ s'.gaps = s.gaps ∧ s'.nKey = s.nKey := by
    obtain ⟨s₁, hc, hw₁, hf₁, hv₁, hg₁, hp₁⟩ := hw.clearNew x
    obtain ⟨info₁, hi₁, hu₁⟩ := exists_of_map_unplaced (hf₁.mapInfo_ne nId (Ne.symm hself)) hi
    have hnt₁ : info₁.fInTried = false :=
      (CAddrInfo.congr_unplaced hu₁ CAddrInfo.fInTried fun _ => rfl).trans hnt
    have hr₁ : info₁.nRefCount = info.nRefCount :=
      CAddrInfo.congr_unplaced hu₁ CAddrInfo.nRefCount fun _ => rfl
    have hsvc₁ : info₁.toCService = svc :=
      (CAddrInfo.congr_unplaced hu₁ (fun i => i.toCService) fun _ => rfl).trans hsvc
    have hbp : H.getBucketPosition info₁.toCService true x.1 = x.2 := by
      rw [hsvc₁, ← hx]
    have hw₂ := hw₁.linkNew hi₁ (by rw [hv₁, Function.update_self]) hnt₁ hbp (hr₁ ▸ hlt)
    refine ⟨_, by rw [hc]; rfl, hw₂, fun n => ?_,
      (gaps_modifyInfo_vvNew (n := nId) (f := fun info => { info with nRefCount := info.nRefCount + 1 })
        (fun _ => rfl) _).trans hg₁, hf₁.nKey_eq⟩
    by_cases hn : n = nId
    · intro info' h' _
      rw [hn] at h'
      simp only [modifyInfo_mapInfo, if_true, hi₁, Option.map_some, Option.some.injEq] at h'
      rw [← h']
      have := hw.entry nId info hi
      have h₀ : 0 ≤ info.nRefCount := by rw [hocc]; exact Int.natCast_nonneg _
      simp only
      omega
    · exact (placed_congr (by simp [hn])).mpr (hp₁ n (hp n hn))
  have hdelete : info.nRefCount = 0 → ∃ s', ((s.delete nId).map fun s' => (fNew, s')) =
      .ok (fNew, s') ∧ s'.Wf H ∧ (∀ n, s'.Placed n) ∧ s'.gaps = s.gaps ∧ s'.nKey = s.nKey := by
    intro hr
    obtain ⟨s₁, hd, hw₁, hf₁, hnone, -, hN⟩ := hw.delete hi hnt hr
    refine ⟨s₁, by rw [hd]; rfl, hw₁, fun n => ?_, gaps_of_delete hw hw₁ hi hnt hf₁ hnone hN,
      hf₁.nKey_eq⟩
    by_cases hn : n = nId
    · intro info' h'
      rw [hn, hnone] at h'
      cases h'
    · exact hf₁.placed hn (hp n hn)
  have hrest : ∀ fInsert : Bool, ∃ s', (if fInsert then (s.clearNew x.1 x.2).bind fun s' =>
      (.ok (fNew, { (s'.modifyInfo nId fun info => { info with nRefCount := info.nRefCount + 1 })
        with vvNew := Function.update s'.vvNew x nId }) : Except String (Bool × CAddrMan σ))
      else if info.nRefCount = 0 then (s.delete nId).map fun s' => (fNew, s')
      else .ok (fNew, s)) = .ok (fNew, s') ∧ s'.Wf H ∧ (∀ n, s'.Placed n) ∧ s'.gaps = s.gaps ∧
        s'.nKey = s.nKey := by
    intro fInsert
    cases fInsert
    · by_cases hr : info.nRefCount = 0
      · simpa only [Bool.false_eq_true, if_false, hr, if_true] using hdelete hr
      · refine ⟨s, by simp [hr], hw, hkeep ?_, rfl, rfl⟩
        have : 0 ≤ info.nRefCount := by rw [hocc]; exact Int.natCast_nonneg _
        omega
    · simpa only [if_true] using hinsert
  have hn₁ : (-1 : Int) ≠ nId := Ne.symm (hw.ne_neg_one hi)
  subst hx
  by_cases hempty : s.vvNew (H.getNewBucket svc source,
      H.getBucketPosition svc true (H.getNewBucket svc source)) = -1
  · simpa [CAddrMan.addToNew, hself, hempty, hrc, hn₁, Except.bind] using hrest true
  · obtain ⟨infoE, hiE, -⟩ := hw.new_slot _ hempty
    simpa [CAddrMan.addToNew, hself, hempty, hrc, hiE, Except.bind] using
      hrest (infoE.isTerrible nNow || (decide (infoE.nRefCount > 1) && decide (info.nRefCount = 0)))

end CAddrMan

end TbcNode.Net
