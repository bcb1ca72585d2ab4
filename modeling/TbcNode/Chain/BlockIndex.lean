import Mathlib
import TbcNode.Logic.Forest

/-! # Block indices and the skip list (`chain.h`, `chain.cpp`)

Blocks are values of a pointer type with a heap of `CBlockIndex` records, `nullptr` is `none`.
In a `BlockTree` whose skip pointers are those `BuildSkip` sets, `GetAncestor` finds the one
ancestor at the height asked for (`getAncestor_eq`).
-/

namespace TbcNode.Chain

open TbcNode.Logic

/-- Results of lookups on small trees are compared by `decide`. -/
instance instDecidableEqExcept {ε β : Type*} [DecidableEq ε] [DecidableEq β] :
    DecidableEq (Except ε β)
  | .ok a, .ok b => decidable_of_iff (a = b) (by simp)
  | .error e, .error f => decidable_of_iff (e = f) (by simp)
  | .ok _, .error _ => isFalse (by simp)
  | .error _, .ok _ => isFalse (by simp)

/-- The fields of a `CBlockIndex` that the chain code reads. The heights, `int`s in the source, are
at least 0 in every tree of blocks. -/
structure CBlockIndex (α : Type*) where
  pprev : Option α
  pskip : Option α
  nHeight : Nat
  nTime : UInt32
  nBits : UInt32
  nChainWork : Nat
  deriving DecidableEq, Repr

def invertLowestOne (n : Nat) : Nat := n &&& (n - 1)

def getSkipHeight (height : Nat) : Nat :=
  if height < 2 then 0
  else if height &&& 1 ≠ 0 then invertLowestOne (invertLowestOne (height - 1)) + 1
  else invertLowestOne height

theorem invertLowestOne_le (n : Nat) : invertLowestOne n ≤ n - 1 := Nat.and_le_right

theorem getSkipHeight_lt {height : Nat} (h : 0 < height) : getSkipHeight height < height := by
  unfold getSkipHeight
  split
  · omega
  split
  · have h1 := invertLowestOne_le (height - 1)
    have h2 := invertLowestOne_le (invertLowestOne (height - 1))
    omega
  · have := invertLowestOne_le height
    omega

section Walk

variable {α : Type*}

/-- The test in the loop of `GetAncestor`: the block `pskip` points to, if it is set and
`pprev->pskip` isn't better than `pskip->pprev`. The source compares `int`s, so its
`heightSkipPrev < heightSkip - 2` is `heightSkipPrev + 2 < heightSkip` here. -/
def skipTarget (pindexWalk : CBlockIndex α) (height heightWalk : Nat) : Option α :=
  let heightSkip := getSkipHeight heightWalk
  let heightSkipPrev := getSkipHeight (heightWalk - 1)
  if heightSkip = height ∨
      (heightSkip > height ∧ ¬(heightSkipPrev + 2 < heightSkip ∧ heightSkipPrev ≥ height)) then
    pindexWalk.pskip
  else none

/-- The loop of `CBlockIndex::GetAncestor`, from `pindexWalk` at `heightWalk` down to `height`;
a failed `assert(pindexWalk->pprev)` is the error. -/
def getAncestorWalk (index : α → CBlockIndex α) (height : Nat) (pindexWalk : α)
    (heightWalk : Nat) : Except String α :=
  if height < heightWalk then
    match skipTarget (index pindexWalk) height heightWalk with
    | some pskip => getAncestorWalk index height pskip (getSkipHeight heightWalk)
    | none =>
      match (index pindexWalk).pprev with
      | some pprev => getAncestorWalk index height pprev (heightWalk - 1)
      | none => throw "assert(pindexWalk->pprev)"
  else pure pindexWalk
termination_by heightWalk
decreasing_by
  · exact getSkipHeight_lt (by omega)
  · omega

/-- `CBlockIndex::GetAncestor(height)` of the block `p`. -/
def getAncestor (index : α → CBlockIndex α) (p : α) (height : Int) : Except String (Option α) :=
  if height > (index p).nHeight ∨ height < 0 then pure none
  else some <$> getAncestorWalk index height.toNat p (index p).nHeight

/-- `CBlockIndex::BuildSkip`: the `pskip` it leaves in the block `p`. -/
def buildSkip (index : α → CBlockIndex α) (p : α) : Except String (Option α) :=
  match (index p).pprev with
  | some pprev => getAncestor index pprev (getSkipHeight (index p).nHeight)
  | none => pure (index p).pskip

theorem skipTarget_eq_some {pindexWalk : CBlockIndex α} {height heightWalk : Nat} {s : α}
    (h : skipTarget pindexWalk height heightWalk = some s) :
    pindexWalk.pskip = some s ∧ height ≤ getSkipHeight heightWalk := by
  unfold skipTarget at h
  dsimp only at h
  split at h
  case isTrue hc => exact ⟨h, by omega⟩
  case isFalse => cases h

end Walk

section MedianTime

variable {α : Type*}

def nMedianTimeSpan : Nat := 11

/-- The loop of `GetMedianTimePast`: `GetBlockTime` of a block and of the blocks below it, at most
`i` of them. -/
def blockTimesFrom (index : α → CBlockIndex α) : Nat → Option α → List Int
  | 0, _ => []
  | _ + 1, none => []
  | i + 1, some p => ((index p).nTime.toNat : Int) :: blockTimesFrom index i (index p).pprev

/-- `CBlockIndex::GetMedianTimePast`. `nth_element` leaves at position `size / 2` the time a sort
would put there. -/
def getMedianTimePast (index : α → CBlockIndex α) (p : α) : Int :=
  let blockTimes := blockTimesFrom index nMedianTimeSpan (some p)
  (blockTimes.mergeSort fun a b => decide (a ≤ b)).getD (blockTimes.length / 2) 0

theorem mem_blockTimesFrom {index : α → CBlockIndex α} :
    ∀ {i : Nat} {p : Option α} {t : Int}, t ∈ blockTimesFrom index i p → 0 ≤ t ∧ t < 2 ^ 32
  | 0, _, _, h => by simp [blockTimesFrom] at h
  | _ + 1, none, _, h => by simp [blockTimesFrom] at h
  | i + 1, some p, t, h => by
    rw [blockTimesFrom, List.mem_cons] at h
    rcases h with rfl | h
    · have := (index p).nTime.toNat_lt
      omega
    · exact mem_blockTimesFrom h

theorem getMedianTimePast_bounds (index : α → CBlockIndex α) (p : α) :
    0 ≤ getMedianTimePast index p ∧ getMedianTimePast index p < 2 ^ 32 := by
  have hmem : ∀ t ∈ blockTimesFrom index nMedianTimeSpan (some p), 0 ≤ t ∧ t < 2 ^ 32 :=
    fun _ ht => mem_blockTimesFrom ht
  unfold getMedianTimePast
  generalize blockTimesFrom index nMedianTimeSpan (some p) = l at hmem ⊢
  rw [List.getD_eq_getElem?_getD]
  cases h : (l.mergeSort fun a b => decide (a ≤ b))[l.length / 2]? with
  | none => simp
  | some t => exact hmem t (List.mem_mergeSort.mp (List.mem_of_getElem? h))

end MedianTime

/-- A heap of block indices in which `pprev` goes down one height and a block without one is at
height 0. -/
structure BlockTree (α : Type*) where
  index : α → CBlockIndex α
  nHeight_pprev : ∀ {p q}, (index p).pprev = some q → (index q).nHeight + 1 = (index p).nHeight
  nHeight_genesis : ∀ {p}, (index p).pprev = none → (index p).nHeight = 0

namespace BlockTree

variable {α : Type*} (T : BlockTree α)

def forest : GradedForest α where
  parent p := (T.index p).pprev
  level p := (T.index p).nHeight
  level_parent := T.nHeight_pprev
  level_root := T.nHeight_genesis

@[simp] theorem forest_parent (p : α) : T.forest.parent p = (T.index p).pprev := rfl

@[simp] theorem forest_level (p : α) : T.forest.level p = (T.index p).nHeight := rfl

/-- Every block's `pskip` is the one `BuildSkip` sets. -/
def SkipsBuilt : Prop := ∀ p, buildSkip T.index p = .ok (T.index p).pskip

variable {T}

theorem getAncestorWalk_eq {height heightWalk : Nat} {w r : α}
    (hskip : ∀ w', T.forest.IsAncestor w' w → ∀ q, (T.index w').pprev = some q →
      (T.index w').pskip = T.forest.ancestorAt q (getSkipHeight (T.index w').nHeight))
    (hw : (T.index w).nHeight = heightWalk) (hh : height ≤ heightWalk)
    (hr : T.forest.ancestorAt w height = some r) :
    getAncestorWalk T.index height w heightWalk = .ok r := by
  fun_induction getAncestorWalk T.index height w heightWalk with
  | case1 w heightWalk hlt s hs ih =>
    subst hw
    obtain ⟨hps, hle⟩ := skipTarget_eq_some hs
    obtain ⟨q, hq⟩ := GradedForest.parent_of_level_pos (F := T.forest) (p := w)
      (by simp only [forest_level]; omega)
    have hsq := hskip w (GradedForest.isAncestor_refl w) q hq
    rw [hps] at hsq
    obtain ⟨hsq, hlevel⟩ := GradedForest.ancestorAt_eq_some_iff.mp hsq.symm
    have hsw := GradedForest.isAncestor_trans hsq (GradedForest.isAncestor_of_parent hq)
    refine ih (fun w' hw' => hskip w' (GradedForest.isAncestor_trans hw' hsw)) hlevel hle ?_
    · rw [← GradedForest.ancestorAt_of_isAncestor hsw (by simp only [forest_level] at hlevel ⊢; omega)]
      exact hr
  | case2 w heightWalk hlt hs q hq ih =>
    have hlevel := T.nHeight_pprev hq
    have hqw := GradedForest.isAncestor_of_parent (F := T.forest) hq
    refine ih (fun w' hw' => hskip w' (GradedForest.isAncestor_trans hw' hqw)) (by omega)
      (by omega) ?_
    rw [← GradedForest.ancestorAt_of_isAncestor hqw (by simp only [forest_level]; omega)]
    exact hr
  | case3 w heightWalk hlt hs hq =>
    have := T.nHeight_genesis hq
    omega
  | case4 w heightWalk hlt =>
    have hlevel : height = T.forest.level w := by simp only [forest_level]; omega
    rw [hlevel, GradedForest.ancestorAt_level] at hr
    cases hr
    rfl

/-- **`GetAncestor` in a tree with built skip pointers.** `GetAncestor(height)` returns the
ancestor at `height` (none above the block's own height) and never fails its `assert`. -/
theorem getAncestor_eq (hs : T.SkipsBuilt) (p : α) (height : Int) :
    getAncestor T.index p height =
      .ok (if height < 0 then none else T.forest.ancestorAt p height.toNat) := by
  induction hn : (T.index p).nHeight using Nat.strongRecOn generalizing p height with
  | _ n ih =>
    unfold getAncestor
    split
    case isTrue hout =>
      split
      · rfl
      · rw [GradedForest.ancestorAt_eq_none_iff.mpr (by simp only [forest_level]; omega)]
        rfl
    case isFalse hin =>
      rw [if_neg (by omega)]
      obtain ⟨r, hr⟩ := GradedForest.ancestorAt_of_le (F := T.forest) (p := p)
        (h := height.toNat) (by simp only [forest_level]; omega)
      rw [hr, getAncestorWalk_eq ?_ rfl (by omega) hr]
      · rfl
      intro w' hw' q hq
      have hbuild := hs w'
      have hlevel := T.nHeight_pprev hq
      have hle := GradedForest.level_le_of_isAncestor hw'
      simp only [forest_level] at hle
      rw [buildSkip, hq] at hbuild
      dsimp only at hbuild
      rw [ih (T.index q).nHeight (by omega) q _ rfl, if_neg (by omega), Int.toNat_natCast] at hbuild
      exact (Except.ok.inj hbuild).symm

/-- **The skip list finds every ancestor.** In a tree of blocks whose skip pointers are the ones
`BuildSkip` sets, `GetAncestor(height)` returns, for every height from 0 to the block's own, the
one ancestor of the block at that height, and `nullptr` for every other height, without failing
its `assert` on a `nullptr` `pprev`; and `GetSkipHeight` goes strictly down from every height
above 0, so that the walk ends. -/
theorem skip_list_ancestor_lookup (hs : T.SkipsBuilt) :
    (∀ p (height : Int), 0 ≤ height → height ≤ (T.index p).nHeight →
      ∃ q, getAncestor T.index p height = .ok (some q) ∧ T.forest.IsAncestor q p ∧
        ((T.index q).nHeight : Int) = height ∧
        ∀ q', T.forest.IsAncestor q' p → ((T.index q').nHeight : Int) = height → q' = q) ∧
    (∀ p (height : Int), height < 0 ∨ (T.index p).nHeight < height →
      getAncestor T.index p height = .ok none) ∧
    (∀ height, 1 ≤ height → getSkipHeight height < height) := by
  refine ⟨fun p height h0 hle => ?_, fun p height hout => ?_, fun _ h => getSkipHeight_lt h⟩
  · obtain ⟨q, hq⟩ := GradedForest.ancestorAt_of_le (F := T.forest) (p := p) (h := height.toNat)
      (by simp only [forest_level]; omega)
    obtain ⟨hqp, hlevel⟩ := GradedForest.ancestorAt_eq_some_iff.mp hq
    simp only [forest_level] at hlevel
    refine ⟨q, ?_, hqp, by omega, fun q' hq' hlevel' => ?_⟩
    · rw [getAncestor_eq hs, if_neg (by omega), hq]
    · exact GradedForest.isAncestor_unique hq' hqp (by simp only [forest_level]; omega)
  · rw [getAncestor_eq hs]
    rcases hout with hneg | hhigh
    · rw [if_pos hneg]
    · rw [if_neg (by omega), GradedForest.ancestorAt_eq_none_iff.mpr (by simp only [forest_level]; omega)]

end BlockTree

def sampleIndex (p : Fin 3) : CBlockIndex (Fin 3) :=
  ⟨if p = 0 then none else some (p - 1), if p = 0 then none else some 0, p.val, 0, 0, 0⟩

def sampleTree : BlockTree (Fin 3) := ⟨sampleIndex, by decide, by decide⟩

theorem sampleTree_skipsBuilt : sampleTree.SkipsBuilt := by
  unfold BlockTree.SkipsBuilt
  intro p
  match p with
  | ⟨0, _⟩ => decide_cbv
  | ⟨1, _⟩ => decide_cbv
  | ⟨2, _⟩ => decide_cbv
  | ⟨n + 3, h⟩ => omega

theorem skip_list_ancestor_lookup_sample :
    sampleTree.SkipsBuilt ∧
    (∀ p (height : Int), 0 ≤ height → height ≤ (sampleTree.index p).nHeight →
      ∃ q, getAncestor sampleTree.index p height = .ok (some q) ∧
        sampleTree.forest.IsAncestor q p ∧ ((sampleTree.index q).nHeight : Int) = height ∧
        ∀ q', sampleTree.forest.IsAncestor q' p →
          ((sampleTree.index q').nHeight : Int) = height → q' = q) ∧
    (∀ p (height : Int), height < 0 ∨ (sampleTree.index p).nHeight < height →
      getAncestor sampleTree.index p height = .ok none) ∧
    (∀ height, 1 ≤ height → getSkipHeight height < height) :=
  ⟨sampleTree_skipsBuilt, BlockTree.skip_list_ancestor_lookup sampleTree_skipsBuilt⟩

end TbcNode.Chain
