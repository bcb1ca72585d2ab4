import TbcNode.Chain.BlockIndex
import TbcNode.Logic.Sequence

/-! # The active chain (`CChain`)

`SetTip` writes the new tip's ancestors from the top down until it meets one already in place,
which suffices because the array held the old tip's ancestors (`CChain.Consistent`). Under that
invariant `operator[]`, `Contains` and `FindFork` are ancestry questions on the block tree.
-/

namespace TbcNode.Chain

open TbcNode.Logic

/-- `CChain`. -/
structure CChain (α : Type*) where
  vChain : List (Option α)
  mChainTip : Option α
  deriving DecidableEq, Repr

variable {α : Type*} [DecidableEq α]

namespace CChain

/-- A `CChain` as it is constructed: no blocks and no tip. -/
def empty : CChain α := ⟨[], none⟩

def get (c : CChain α) (nHeight : Int) : Option α :=
  if nHeight < 0 ∨ nHeight ≥ c.vChain.length then none else c.vChain.getD nHeight.toNat none

def height (index : α → CBlockIndex α) (c : CChain α) : Int :=
  match c.mChainTip with
  | some tip => (index tip).nHeight
  | none => -1

def contains (index : α → CBlockIndex α) (c : CChain α) (pindex : α) : Bool :=
  decide (c.get (index pindex).nHeight = some pindex)

end CChain

/-- The loop of `CChain::SetTip`: from `pindex` down, each block is written at its height until
one is already in place. -/
def setTipWalk (T : BlockTree α) (vChain : List (Option α)) : Option α → List (Option α)
  | none => vChain
  | some pindex =>
    if vChain.getD (T.index pindex).nHeight none ≠ some pindex then
      setTipWalk T (vChain.set (T.index pindex).nHeight (some pindex)) (T.index pindex).pprev
    else vChain
termination_by o => o.elim 0 fun p => (T.index p).nHeight + 1
decreasing_by exact T.forest.parent_elim_lt pindex

def setTip (T : BlockTree α) (c : CChain α) : Option α → CChain α
  | none => ⟨[], none⟩
  | some pindex =>
    ⟨setTipWalk T (resize c.vChain ((T.index pindex).nHeight + 1) none) (some pindex),
      some pindex⟩

def findFork (T : BlockTree α) (c : CChain α) : Option α → Except String (Option α)
  | none => pure none
  | some pindex => do
    let pindex ← if ((T.index pindex).nHeight : Int) > c.height T.index then
        getAncestor T.index pindex (c.height T.index)
      else pure (some pindex)
    pure (T.forest.walkUntil (c.contains T.index) pindex)

/-- The loop of `LastCommonAncestor`: both blocks step to their `pprev` until they meet or one of
them is `nullptr`. -/
def lastCommonAncestorWalk (T : BlockTree α) : Option α → Option α → Option α × Option α
  | some pa, some pb =>
    if pa ≠ pb then lastCommonAncestorWalk T (T.index pa).pprev (T.index pb).pprev
    else (some pa, some pb)
  | pa, pb => (pa, pb)
termination_by pa _ => pa.elim 0 fun p => (T.index p).nHeight + 1
decreasing_by exact T.forest.parent_elim_lt pa

/-- `LastCommonAncestor(pa, pb)`, of two blocks; a failed `assert(pa == pb)` is the error. -/
def lastCommonAncestor (T : BlockTree α) (pa pb : α) : Except String (Option α) := do
  let (pa, pb) ←
    if (T.index pa).nHeight > (T.index pb).nHeight then do
      let pa ← getAncestor T.index pa (T.index pb).nHeight
      pure (pa, some pb)
    else if (T.index pb).nHeight > (T.index pa).nHeight then do
      let pb ← getAncestor T.index pb (T.index pa).nHeight
      pure (some pa, pb)
    else pure (some pa, some pb)
  let (pa, pb) := lastCommonAncestorWalk T pa pb
  if pa = pb then pure pa else throw "assert(pa == pb)"

/-- The array holds the ancestors of the tip, one at each height up to the tip's, and nothing
when there is no tip. -/
structure CChain.Consistent (T : BlockTree α) (c : CChain α) : Prop where
  length_vChain : c.vChain.length = c.mChainTip.elim 0 fun t => (T.index t).nHeight + 1
  getD_vChain : ∀ h, c.vChain.getD h none = c.mChainTip.bind fun t => T.forest.ancestorAt t h

variable {T : BlockTree α}

/-! ### `SetTip` -/

theorem setTipWalk_getD {t : α} {ot : Option α} {v : List (Option α)} {o : Option α}
    (hlen : v.length = (T.index t).nHeight + 1)
    (ho : ∀ w, o = some w → T.forest.ancestorAt t (T.index w).nHeight = some w)
    (habove : ∀ h, o.elim 0 (fun w => (T.index w).nHeight + 1) ≤ h → h ≤ (T.index t).nHeight →
      v.getD h none = T.forest.ancestorAt t h)
    (hbelow : ∀ h, h < o.elim 0 (fun w => (T.index w).nHeight + 1) →
      v.getD h none = ot.bind fun x => T.forest.ancestorAt x h) :
    (setTipWalk T v o).length = (T.index t).nHeight + 1 ∧
      ∀ h, h ≤ (T.index t).nHeight → (setTipWalk T v o).getD h none = T.forest.ancestorAt t h := by
  fun_induction setTipWalk T v o with
  | case1 v =>
    exact ⟨hlen, fun h hh => habove h (Nat.zero_le h) hh⟩
  | case2 v w hne ih =>
    have hw := GradedForest.ancestorAt_eq_some_iff.mp (ho w rfl)
    have hwt : (T.index w).nHeight ≤ (T.index t).nHeight :=
      GradedForest.level_le_of_isAncestor hw.1
    have hlo := T.forest.parent_elim_eq w
    simp only [BlockTree.forest_parent, BlockTree.forest_level] at hlo
    refine ih (by rw [List.length_set, hlen]) (fun q hq => ?_) (fun h hlow hh => ?_)
      (fun h hh => ?_)
    · exact GradedForest.ancestorAt_eq_some_iff.mpr
        ⟨GradedForest.isAncestor_trans (GradedForest.isAncestor_of_parent (F := T.forest) hq) hw.1,
          rfl⟩
    · rw [hlo] at hlow
      rw [getD_set]
      by_cases hh' : (T.index w).nHeight = h
      · rw [if_pos ⟨hh', by omega⟩, ← hh']
        exact (ho w rfl).symm
      · rw [if_neg fun h' => hh' h'.1]
        exact habove h (by simp only [Option.elim]; omega) hh
    · rw [hlo] at hh
      rw [getD_set, if_neg (by omega)]
      exact hbelow h (by simp only [Option.elim]; omega)
  | case3 v w hin =>
    refine ⟨hlen, fun h hh => ?_⟩
    have hvw : v.getD (T.index w).nHeight none = some w := by simpa using hin
    rcases Nat.lt_trichotomy h (T.index w).nHeight with hlt | heq | hgt
    · have hold := hbelow (T.index w).nHeight (by simp only [Option.elim]; omega)
      rw [hvw] at hold
      cases ot with
      | none => cases hold
      | some x =>
        rw [hbelow h (by simp only [Option.elim]; omega)]
        have hxw : T.forest.ancestorAt x (T.index w).nHeight =
            T.forest.ancestorAt t (T.index w).nHeight := by
          rw [ho w rfl]
          exact hold.symm
        have hx := GradedForest.level_le_of_isAncestor
          (GradedForest.ancestorAt_eq_some_iff.mp hold.symm).1
        exact GradedForest.ancestorAt_eq_of_le (Nat.le_of_lt hlt) hxw hx
    · rw [heq, hvw]
      exact (ho w rfl).symm
    · exact habove h (by simp only [Option.elim]; omega) hh

theorem CChain.Consistent.setTip {c : CChain α} (hc : c.Consistent T) (o : Option α) :
    (Chain.setTip T c o).Consistent T := by
  cases o with
  | none => exact ⟨rfl, fun _ => rfl⟩
  | some p =>
    obtain ⟨hlen, hget⟩ := setTipWalk_getD (t := p)
      (v := resize c.vChain ((T.index p).nHeight + 1) none) (o := some p)
      (length_resize _ _ _) (fun w hw => by cases hw; exact T.forest.ancestorAt_level _)
      (fun h hlow hh => by simp only [Option.elim] at hlow; omega)
      (fun h hh => by
        simp only [Option.elim] at hh
        rw [getD_resize, if_pos hh]
        exact hc.getD_vChain h)
    refine ⟨hlen, fun h => ?_⟩
    change _ = T.forest.ancestorAt p h
    by_cases hh : h ≤ (T.index p).nHeight
    · exact hget h hh
    · rw [List.getD_eq_getElem?_getD, List.getElem?_eq_none (by simp only [Chain.setTip]; omega),
        GradedForest.ancestorAt_eq_none_iff.mpr (by simp only [BlockTree.forest_level]; omega)]
      rfl

omit [DecidableEq α] in
theorem CChain.consistent_empty : (CChain.empty : CChain α).Consistent T :=
  ⟨rfl, fun _ => rfl⟩

theorem CChain.Consistent.foldl_setTip {c : CChain α} (hc : c.Consistent T)
    (tips : List (Option α)) : (tips.foldl (Chain.setTip T) c).Consistent T := by
  induction tips generalizing c with
  | nil => exact hc
  | cons o tips ih => exact ih (hc.setTip o)

@[simp] theorem mChainTip_setTip (c : CChain α) (o : Option α) : (setTip T c o).mChainTip = o := by
  cases o <;> rfl

theorem mChainTip_foldl_setTip (c : CChain α) (tips : List (Option α)) :
    (tips.foldl (setTip T) c).mChainTip = tips.getLast?.getD c.mChainTip := by
  induction tips using List.reverseRecOn with
  | nil => rfl
  | append_singleton tips o _ =>
    rw [List.foldl_append, List.foldl_cons, List.foldl_nil, mChainTip_setTip, List.getLast?_concat,
      Option.getD_some]

/-! ### Reading a consistent chain -/

namespace CChain.Consistent

variable {c : CChain α} (hc : c.Consistent T)
include hc

omit [DecidableEq α] in
theorem get_eq {t : α} (ht : c.mChainTip = some t) (h : Int) :
    c.get h = if h < 0 then none else T.forest.ancestorAt t h.toNat := by
  have hlen := hc.length_vChain
  rw [ht] at hlen
  simp only [Option.elim] at hlen
  unfold CChain.get
  by_cases hneg : h < 0
  · rw [if_pos (.inl hneg), if_pos hneg]
  · rw [if_neg hneg]
    by_cases hhigh : h ≥ c.vChain.length
    · rw [if_pos (.inr hhigh),
        GradedForest.ancestorAt_eq_none_iff.mpr (by simp only [BlockTree.forest_level]; omega)]
    · rw [if_neg (by omega), hc.getD_vChain, ht, Option.bind_some]

omit [DecidableEq α] in
theorem get_of_none (ht : c.mChainTip = none) (h : Int) : c.get h = none := by
  have hlen := hc.length_vChain
  rw [ht] at hlen
  unfold CChain.get
  simp only [Option.elim] at hlen
  rw [if_pos (by omega)]

theorem contains_iff (p : α) :
    c.contains T.index p = true ↔ ∃ t, c.mChainTip = some t ∧ T.forest.IsAncestor p t := by
  unfold CChain.contains
  rw [decide_eq_true_iff]
  cases ht : c.mChainTip with
  | none => simp [hc.get_of_none ht]
  | some t =>
    rw [hc.get_eq ht ((T.index p).nHeight), if_neg (by omega), Int.toNat_natCast,
      GradedForest.ancestorAt_eq_some_iff]
    simp

theorem findFork_eq (hs : T.SkipsBuilt) {t : α} (ht : c.mChainTip = some t) (p : α) :
    ∃ r, findFork T c (some p) = .ok r ∧ T.forest.LastCommon t p r := by
  have hstop : ∀ q, c.contains T.index q = true ↔ T.forest.IsAncestor q t := fun q => by
    rw [hc.contains_iff q, ht]
    simp
  have hheight : c.height T.index = (T.index t).nHeight := by
    unfold CChain.height
    rw [ht]
  simp only [findFork, hheight]
  by_cases hhigh : ((T.index p).nHeight : Int) > (T.index t).nHeight
  · obtain ⟨q, hq⟩ := GradedForest.ancestorAt_of_le (F := T.forest) (p := p)
      (h := (T.index t).nHeight) (by simp only [BlockTree.forest_level]; omega)
    rw [if_pos hhigh, BlockTree.getAncestor_eq hs, if_neg (by omega), Int.toNat_natCast, hq]
    refine ⟨_, rfl, ?_⟩
    rw [GradedForest.lastCommon_comm, GradedForest.lastCommon_ancestorAt hq,
      GradedForest.lastCommon_comm]
    exact GradedForest.lastCommon_walkUntil hstop q
  · rw [if_neg hhigh]
    exact ⟨_, rfl, GradedForest.lastCommon_walkUntil hstop p⟩

end CChain.Consistent

/-! ### `LastCommonAncestor` -/

theorem lastCommonAncestorWalk_none_left (pb : Option α) :
    lastCommonAncestorWalk T none pb = (none, pb) := by
  rw [lastCommonAncestorWalk]
  intro _ _ h
  cases h

theorem lastCommonAncestorWalk_some (pa pb : α) :
    lastCommonAncestorWalk T (some pa) (some pb) =
      if pa ≠ pb then lastCommonAncestorWalk T (T.index pa).pprev (T.index pb).pprev
      else (some pa, some pb) := by
  rw [lastCommonAncestorWalk]

theorem lastCommonAncestorWalk_eq {a b : α} (hlevel : (T.index a).nHeight = (T.index b).nHeight) :
    ∃ r, lastCommonAncestorWalk T (some a) (some b) = (r, r) ∧ T.forest.LastCommon a b r := by
  induction hn : (T.index a).nHeight generalizing a b with
  | zero =>
    rw [lastCommonAncestorWalk_some]
    by_cases hab : a = b
    · subst hab
      exact ⟨some a, by simp, GradedForest.lastCommon_of_isAncestor (GradedForest.isAncestor_refl a)⟩
    · have ha : (T.index a).pprev = none := by
        cases hq : (T.index a).pprev with
        | none => rfl
        | some q => have := T.nHeight_pprev hq; omega
      have hb : (T.index b).pprev = none := by
        cases hq : (T.index b).pprev with
        | none => rfl
        | some q => have := T.nHeight_pprev hq; omega
      rw [if_pos hab, ha, hb, lastCommonAncestorWalk_none_left]
      exact ⟨none, rfl, GradedForest.lastCommon_roots hlevel hab ha⟩
  | succ n ih =>
    rw [lastCommonAncestorWalk_some]
    by_cases hab : a = b
    · subst hab
      exact ⟨some a, by simp, GradedForest.lastCommon_of_isAncestor (GradedForest.isAncestor_refl a)⟩
    · obtain ⟨a', ha⟩ := GradedForest.parent_of_level_pos (F := T.forest) (p := a)
        (by simp only [BlockTree.forest_level]; omega)
      obtain ⟨b', hb⟩ := GradedForest.parent_of_level_pos (F := T.forest) (p := b)
        (by simp only [BlockTree.forest_level]; omega)
      have ha' := T.nHeight_pprev ha
      have hb' := T.nHeight_pprev hb
      simp only [BlockTree.forest_parent] at ha hb
      rw [if_pos hab, ha, hb, GradedForest.lastCommon_parents hlevel hab ha hb]
      exact ih (by omega) (by omega)

theorem lastCommonAncestor_eq (hs : T.SkipsBuilt) (a b : α) :
    ∃ r, lastCommonAncestor T a b = .ok r ∧ T.forest.LastCommon a b r := by
  unfold lastCommonAncestor
  by_cases hab : (T.index a).nHeight > (T.index b).nHeight
  · obtain ⟨a', ha'⟩ := GradedForest.ancestorAt_of_le (F := T.forest) (p := a)
      (h := (T.index b).nHeight) (by simp only [BlockTree.forest_level]; omega)
    have hlevel := (GradedForest.ancestorAt_eq_some_iff.mp ha').2
    obtain ⟨r, hr, hlast⟩ := lastCommonAncestorWalk_eq (T := T) (a := a') (b := b) hlevel
    rw [if_pos hab, BlockTree.getAncestor_eq hs, if_neg (by omega), Int.toNat_natCast, ha']
    refine ⟨r, ?_, by rw [GradedForest.lastCommon_ancestorAt ha']; exact hlast⟩
    simp only [bind, Except.bind, pure, Except.pure, hr]
    rfl
  · rw [if_neg hab]
    by_cases hba : (T.index b).nHeight > (T.index a).nHeight
    · obtain ⟨b', hb'⟩ := GradedForest.ancestorAt_of_le (F := T.forest) (p := b)
        (h := (T.index a).nHeight) (by simp only [BlockTree.forest_level]; omega)
      have hlevel := (GradedForest.ancestorAt_eq_some_iff.mp hb').2
      obtain ⟨r, hr, hlast⟩ := lastCommonAncestorWalk_eq (T := T) (a := a) (b := b') hlevel.symm
      rw [if_pos hba, BlockTree.getAncestor_eq hs, if_neg (by omega), Int.toNat_natCast, hb']
      refine ⟨r, ?_, ?_⟩
      · simp only [bind, Except.bind, pure, Except.pure, hr]
        rfl
      · rw [GradedForest.lastCommon_comm, GradedForest.lastCommon_ancestorAt hb',
          GradedForest.lastCommon_comm]
        exact hlast
    · rw [if_neg hba]
      obtain ⟨r, hr, hlast⟩ := lastCommonAncestorWalk_eq (T := T) (a := a) (b := b) (by omega)
      refine ⟨r, ?_, hlast⟩
      simp only [bind, Except.bind, pure, Except.pure, hr]
      rfl

/-- **The active chain index.** After any sequence of `SetTip` calls on a new `CChain`, with
blocks of one tree whose skip pointers `BuildSkip` set, the tip is the last block passed; the array
is empty when the tip is null and otherwise has `tip.nHeight + 1` entries, `operator[](h)` being
`tip->GetAncestor(h)` for every `h`; `Contains(p)` holds exactly when `p` is an ancestor of the
tip; and `FindFork(p)` is `LastCommonAncestor(Tip(), p)` for every block `p`. -/
theorem active_chain_index (hs : T.SkipsBuilt) (tips : List (Option α)) :
    let c := tips.foldl (setTip T) CChain.empty
    c.mChainTip = tips.getLast?.getD none ∧
    (c.mChainTip = none → c.vChain = []) ∧
    (∀ t, c.mChainTip = some t → c.vChain.length = (T.index t).nHeight + 1 ∧
      ∀ h : Int, getAncestor T.index t h = .ok (c.get h)) ∧
    (∀ p, c.contains T.index p = true ↔ ∃ t, c.mChainTip = some t ∧ T.forest.IsAncestor p t) ∧
    (∀ t p, c.mChainTip = some t → findFork T c (some p) = lastCommonAncestor T t p) := by
  intro c
  have hc : c.Consistent T := CChain.consistent_empty.foldl_setTip tips
  refine ⟨mChainTip_foldl_setTip _ tips, fun ht => ?_, fun t ht => ⟨?_, fun h => ?_⟩, hc.contains_iff,
    fun t p ht => ?_⟩
  · have hlen := hc.length_vChain
    rw [ht] at hlen
    exact List.eq_nil_of_length_eq_zero hlen
  · have hlen := hc.length_vChain
    rw [ht] at hlen
    exact hlen
  · rw [BlockTree.getAncestor_eq hs, hc.get_eq ht]
  · obtain ⟨r, hr, hlast⟩ := hc.findFork_eq hs ht p
    obtain ⟨r', hr', hlast'⟩ := lastCommonAncestor_eq hs t p
    rw [hr, hr', GradedForest.lastCommon_unique hlast hlast']

theorem active_chain_index_sample :
    sampleTree.SkipsBuilt ∧
    let c := [some 2, some 1, none, some 0, some 2].foldl (setTip sampleTree) CChain.empty
    c.mChainTip = [some 2, some 1, none, some 0, some 2].getLast?.getD none ∧
    (c.mChainTip = none → c.vChain = []) ∧
    (∀ t, c.mChainTip = some t → c.vChain.length = (sampleTree.index t).nHeight + 1 ∧
      ∀ h : Int, getAncestor sampleTree.index t h = .ok (c.get h)) ∧
    (∀ p, c.contains sampleTree.index p = true ↔
      ∃ t, c.mChainTip = some t ∧ sampleTree.forest.IsAncestor p t) ∧
    (∀ t p, c.mChainTip = some t → findFork sampleTree c (some p) =
      lastCommonAncestor sampleTree t p) :=
  ⟨sampleTree_skipsBuilt, active_chain_index sampleTree_skipsBuilt _⟩

end TbcNode.Chain
