import TbcNode.Chain.BlockIndex
import TbcNode.Primitives.Transaction

/-! # Relative lock times (BIP 68, `validation.cpp`)

`CalculateSequenceLocks` turns each enabled relative lock into the last height or time the
transaction is invalid, and `EvaluateSequenceLocks` compares those with the block. The `- 1`s cancel
against the strict comparisons; `SequenceLockDefined` excludes the `int` overflows of the source.
-/

namespace TbcNode.Consensus

open TbcNode.Logic TbcNode.Primitives TbcNode.Chain

/-- `LOCKTIME_VERIFY_SEQUENCE` (`consensus.h`). -/
def LOCKTIME_VERIFY_SEQUENCE : Int32 := 1

/-- The error for an `int` result outside `int`. -/
def intOverflow : String := "undefined behaviour: int overflow"

/-- The error for the `nullptr` that `GetAncestor` returns above the block. -/
def nullAncestor : String := "undefined behaviour: GetAncestor returned nullptr"

def intResult (x : Int) : Except String Int :=
  if -2 ^ 31 ≤ x ∧ x < 2 ^ 31 then pure x else throw intOverflow

theorem intResult_of_le {x : Int} (h₁ : -2 ^ 31 ≤ x) (h₂ : x < 2 ^ 31) : intResult x = .ok x :=
  if_pos ⟨h₁, h₂⟩

section Model

variable {α : Type} (index : α → CBlockIndex α) (block : α)

/-- `fEnforceBIP68`: the version, read as `uint32_t`, is at least 2, and the flag is set. -/
def fEnforceBIP68 (tx : CTransaction) (flags : Int32) : Bool :=
  decide (tx.nVersion.toUInt32 ≥ 2) && flags &&& LOCKTIME_VERIFY_SEQUENCE != 0

/-- One round of the loop of `CalculateSequenceLocks`: from an input, its entry of `prevHeights`
and the bounds so far, the new bounds and the entry the round leaves. -/
def sequenceLockStep (txin : CTxIn) (nCoinHeight : Int32) (nMinHeight nMinTime : Int) :
    Except String (Int × Int × Int32) :=
  if txin.nSequence.toNat &&& SEQUENCE_LOCKTIME_DISABLE_FLAG ≠ 0 then
    pure (nMinHeight, nMinTime, 0)
  else if txin.nSequence.toNat &&& SEQUENCE_LOCKTIME_TYPE_FLAG ≠ 0 then do
    let nCoinHeightPrev ← intResult (nCoinHeight.toInt - 1)
    match ← getAncestor index block (max nCoinHeightPrev 0) with
    | none => throw nullAncestor
    | some ancestor =>
      let nCoinTime := getMedianTimePast index ancestor
      pure (nMinHeight,
        max nMinTime (nCoinTime +
          ((txin.nSequence.toNat &&& SEQUENCE_LOCKTIME_MASK) <<< SEQUENCE_LOCKTIME_GRANULARITY : Nat)
            - 1),
        nCoinHeight)
  else do
    let nLockHeight ← intResult (nCoinHeight.toInt + (txin.nSequence.toNat &&& SEQUENCE_LOCKTIME_MASK : Nat))
    let nLockHeight ← intResult (nLockHeight - 1)
    pure (max nMinHeight nLockHeight, nMinTime, nCoinHeight)

/-- The loop of `CalculateSequenceLocks` over the inputs and their entries of `prevHeights`. -/
def sequenceLocksLoop :
    List CTxIn → List Int32 → Int → Int → Except String (Int × Int × List Int32)
  | txin :: vin, nCoinHeight :: prevHeights, nMinHeight, nMinTime => do
    let (nMinHeight, nMinTime, nCoinHeight) ←
      sequenceLockStep index block txin nCoinHeight nMinHeight nMinTime
    let (nMinHeight, nMinTime, prevHeights) ←
      sequenceLocksLoop vin prevHeights nMinHeight nMinTime
    pure (nMinHeight, nMinTime, nCoinHeight :: prevHeights)
  | _, _, nMinHeight, nMinTime => pure (nMinHeight, nMinTime, [])

/-- `CalculateSequenceLocks`: the height and time bounds, and `prevHeights` as it leaves it. -/
def calculateSequenceLocks (tx : CTransaction) (flags : Int32) (prevHeights : List Int32) :
    Except String ((Int × Int) × List Int32) := do
  if prevHeights.length ≠ tx.vin.length then throw "assert(prevHeights->size() == tx.vin.size())"
  if !fEnforceBIP68 tx flags then return ((-1, -1), prevHeights)
  let (nMinHeight, nMinTime, prevHeights) ← sequenceLocksLoop index block tx.vin prevHeights (-1) (-1)
  pure ((nMinHeight, nMinTime), prevHeights)

def evaluateSequenceLocks (lockPair : Int × Int) : Except String Bool :=
  match (index block).pprev with
  | none => throw "assert(block.pprev)"
  | some pprev =>
    let nBlockTime := getMedianTimePast index pprev
    if lockPair.1 ≥ (index block).nHeight ∨ lockPair.2 ≥ nBlockTime then pure false else pure true

/-- `SequenceLocks`, with `prevHeights` as it leaves it. -/
def sequenceLocks (tx : CTransaction) (flags : Int32) (prevHeights : List Int32) :
    Except String (Bool × List Int32) := do
  let (lockPair, prevHeights) ← calculateSequenceLocks index block tx flags prevHeights
  let fOk ← evaluateSequenceLocks index block lockPair
  pure (fOk, prevHeights)

end Model

/-- The entry of `prevHeights` the round of an input leaves: 0 for an input whose lock is
disabled. -/
def keptHeight (txin : CTxIn) (nCoinHeight : Int32) : Int32 :=
  if txin.nSequence.toNat &&& SEQUENCE_LOCKTIME_DISABLE_FLAG ≠ 0 then 0 else nCoinHeight

section Spec

variable {α : Type} (T : BlockTree α) (block : α)

/-- The round of an input has defined behaviour: for a time lock, the height less one is an `int`
at most the block's height, so that `GetAncestor` finds a block; for a height lock, the height
plus the lock and that less one are `int`s. -/
def SequenceLockDefined (txin : CTxIn) (nCoinHeight : Int32) : Prop :=
  txin.nSequence.toNat &&& SEQUENCE_LOCKTIME_DISABLE_FLAG = 0 →
    (txin.nSequence.toNat &&& SEQUENCE_LOCKTIME_TYPE_FLAG ≠ 0 →
      -2 ^ 31 < nCoinHeight.toInt ∧ nCoinHeight.toInt - 1 ≤ (T.index block).nHeight) ∧
    (txin.nSequence.toNat &&& SEQUENCE_LOCKTIME_TYPE_FLAG = 0 →
      -2 ^ 31 < nCoinHeight.toInt + (txin.nSequence.toNat &&& SEQUENCE_LOCKTIME_MASK : Nat) ∧
        nCoinHeight.toInt + (txin.nSequence.toNat &&& SEQUENCE_LOCKTIME_MASK : Nat) < 2 ^ 31)

/-- The input has no height lock, or its last invalid height is below `H`. -/
def HeightLockBelow (txin : CTxIn) (nCoinHeight : Int32) (H : Int) : Prop :=
  txin.nSequence.toNat &&& SEQUENCE_LOCKTIME_DISABLE_FLAG = 0 →
    txin.nSequence.toNat &&& SEQUENCE_LOCKTIME_TYPE_FLAG = 0 →
      nCoinHeight.toInt + (txin.nSequence.toNat &&& SEQUENCE_LOCKTIME_MASK : Nat) - 1 < H

/-- The input has no time lock, or its last invalid time is below `t`: the median time past of
the block's ancestor at the coin's height less one, plus the lock's 512-second units, less one. -/
def TimeLockBelow (txin : CTxIn) (nCoinHeight : Int32) (t : Int) : Prop :=
  txin.nSequence.toNat &&& SEQUENCE_LOCKTIME_DISABLE_FLAG = 0 →
    txin.nSequence.toNat &&& SEQUENCE_LOCKTIME_TYPE_FLAG ≠ 0 →
      ∀ ancestor, T.forest.ancestorAt block (max (nCoinHeight.toInt - 1) 0).toNat = some ancestor →
        getMedianTimePast T.index ancestor +
          ((txin.nSequence.toNat &&& SEQUENCE_LOCKTIME_MASK) <<< SEQUENCE_LOCKTIME_GRANULARITY : Nat)
            - 1 < t

variable {T}

theorem sequenceLockStep_spec (hs : T.SkipsBuilt) {txin : CTxIn} {nCoinHeight : Int32}
    (hdef : SequenceLockDefined T block txin nCoinHeight) (nMinHeight nMinTime : Int) :
    ∃ nMinHeight' nMinTime', sequenceLockStep T.index block txin nCoinHeight nMinHeight nMinTime =
        .ok (nMinHeight', nMinTime', keptHeight txin nCoinHeight) ∧
      (∀ H, nMinHeight' < H ↔ nMinHeight < H ∧ HeightLockBelow txin nCoinHeight H) ∧
      (∀ t, nMinTime' < t ↔ nMinTime < t ∧ TimeLockBelow T block txin nCoinHeight t) := by
  have hlt := Int32.toInt_lt nCoinHeight
  have hle := Int32.le_toInt nCoinHeight
  by_cases hdis : txin.nSequence.toNat &&& SEQUENCE_LOCKTIME_DISABLE_FLAG = 0
  case neg =>
    refine ⟨nMinHeight, nMinTime, ?_, fun H => ?_, fun t => ?_⟩
    · rw [sequenceLockStep, if_pos hdis, keptHeight, if_pos hdis]
      rfl
    · exact ⟨fun h => ⟨h, fun h' => absurd h' hdis⟩, And.left⟩
    · exact ⟨fun h => ⟨h, fun h' => absurd h' hdis⟩, And.left⟩
  case pos =>
  obtain ⟨htime, hheight⟩ := hdef hdis
  have hkept : keptHeight txin nCoinHeight = nCoinHeight := if_neg (not_not.mpr hdis)
  rw [hkept]
  by_cases htype : txin.nSequence.toNat &&& SEQUENCE_LOCKTIME_TYPE_FLAG = 0
  case pos =>
    obtain ⟨h₁, h₂⟩ := hheight htype
    refine ⟨max nMinHeight (nCoinHeight.toInt +
      (txin.nSequence.toNat &&& SEQUENCE_LOCKTIME_MASK : Nat) - 1), nMinTime, ?_, fun H => ?_, fun t => ?_⟩
    · rw [sequenceLockStep, if_neg (not_not.mpr hdis), if_neg (not_not.mpr htype),
        intResult_of_le (by omega) h₂]
      simp only [bind, Except.bind]
      rw [intResult_of_le (by omega) (by omega)]
      rfl
    · rw [Int.max_lt]
      exact and_congr_right fun _ => ⟨fun h _ _ => h, fun h => h hdis htype⟩
    · exact ⟨fun h => ⟨h, fun _ h' => absurd htype h'⟩, And.left⟩
  case neg =>
    obtain ⟨h₁, h₂⟩ := htime htype
    obtain ⟨ancestor, hanc⟩ := GradedForest.ancestorAt_of_le (F := T.forest) (p := block)
      (h := (max (nCoinHeight.toInt - 1) 0).toNat) (by simp only [BlockTree.forest_level]; omega)
    refine ⟨nMinHeight, max nMinTime (getMedianTimePast T.index ancestor +
      ((txin.nSequence.toNat &&& SEQUENCE_LOCKTIME_MASK) <<< SEQUENCE_LOCKTIME_GRANULARITY : Nat) - 1),
      ?_, fun H => ?_, fun t => ?_⟩
    · rw [sequenceLockStep, if_neg (not_not.mpr hdis), if_pos htype, intResult_of_le (by omega) (by omega)]
      simp only [bind, Except.bind]
      rw [BlockTree.getAncestor_eq hs, if_neg (by omega), hanc]
      rfl
    · exact ⟨fun h => ⟨h, fun _ h' => absurd h' htype⟩, And.left⟩
    · rw [Int.max_lt]
      refine and_congr_right fun _ => ⟨fun h _ _ a ha => ?_, fun h => h hdis htype ancestor hanc⟩
      rw [hanc] at ha
      cases ha
      exact h

theorem sequenceLocksLoop_spec (hs : T.SkipsBuilt) (vin : List CTxIn) :
    ∀ (prevHeights : List Int32), vin.length = prevHeights.length →
      (∀ p ∈ vin.zip prevHeights, SequenceLockDefined T block p.1 p.2) →
      ∀ nMinHeight nMinTime : Int, ∃ nMinHeight' nMinTime',
        sequenceLocksLoop T.index block vin prevHeights nMinHeight nMinTime =
          .ok (nMinHeight', nMinTime', List.zipWith keptHeight vin prevHeights) ∧
        (∀ H, nMinHeight' < H ↔
          nMinHeight < H ∧ ∀ p ∈ vin.zip prevHeights, HeightLockBelow p.1 p.2 H) ∧
        (∀ t, nMinTime' < t ↔
          nMinTime < t ∧ ∀ p ∈ vin.zip prevHeights, TimeLockBelow T block p.1 p.2 t) := by
  induction vin with
  | nil =>
    intro prevHeights hlen _ nMinHeight nMinTime
    cases prevHeights with
    | nil => exact ⟨nMinHeight, nMinTime, rfl, fun H => by simp, fun t => by simp⟩
    | cons _ _ => simp at hlen
  | cons txin vin ih =>
    intro prevHeights hlen hdef nMinHeight nMinTime
    cases prevHeights with
    | nil => simp at hlen
    | cons nCoinHeight prevHeights =>
      obtain ⟨nMinHeight₁, nMinTime₁, hstep, hH₁, ht₁⟩ :=
        sequenceLockStep_spec block hs (hdef (txin, nCoinHeight) List.mem_cons_self) nMinHeight nMinTime
      obtain ⟨nMinHeight₂, nMinTime₂, hloop, hH₂, ht₂⟩ :=
        ih prevHeights (by simpa using hlen) (fun p hp => hdef p (List.mem_cons_of_mem _ hp))
          nMinHeight₁ nMinTime₁
      refine ⟨nMinHeight₂, nMinTime₂, ?_, fun H => ?_, fun t => ?_⟩
      · rw [sequenceLocksLoop, hstep]
        simp only [bind, Except.bind]
        rw [hloop]
        rfl
      · rw [hH₂, hH₁, List.zip_cons_cons, List.forall_mem_cons, and_assoc]
      · rw [ht₂, ht₁, List.zip_cons_cons, List.forall_mem_cons, and_assoc]

end Spec

theorem evaluateSequenceLocks_eq {α : Type} (index : α → CBlockIndex α) {block prev : α}
    (hprev : (index block).pprev = some prev) (lockPair : Int × Int) :
    evaluateSequenceLocks index block lockPair =
      .ok (decide (lockPair.1 < (index block).nHeight ∧
        lockPair.2 < getMedianTimePast index prev)) := by
  unfold evaluateSequenceLocks
  rw [hprev]
  dsimp only
  by_cases h : lockPair.1 ≥ ((index block).nHeight : Int) ∨ lockPair.2 ≥ getMedianTimePast index prev
  · rw [if_pos h, decide_eq_false (by omega)]
    rfl
  · rw [if_neg h, decide_eq_true (by omega)]
    rfl

/-- **BIP 68.** For a block with a parent in a tree whose skip pointers are built, and heights,
one per input, for which no lock's round has undefined behaviour: `SequenceLocks` holds exactly
when, with the lock enforced (version at least 2 as `uint32_t`, `LOCKTIME_VERIFY_SEQUENCE` set),
every input whose disable flag is clear has its lock met, a time lock when the median time past
of the ancestor at the coin's height less one plus the lock's 512-second units is at most the
parent's median time past, a height lock when the coin's height plus the lock is at most the
block's height; and `prevHeights` leaves it with the entries of disabled inputs set to 0 when the
lock is enforced, and as it was when it is not. -/
theorem bip68_sequence_locks {α : Type} {T : BlockTree α} (hs : T.SkipsBuilt) {block prev : α}
    (hprev : (T.index block).pprev = some prev) (tx : CTransaction) (flags : Int32)
    (prevHeights : List Int32) (hlen : prevHeights.length = tx.vin.length)
    (hdef : fEnforceBIP68 tx flags = true →
      ∀ p ∈ tx.vin.zip prevHeights, SequenceLockDefined T block p.1 p.2) :
    ∃ fOk, sequenceLocks T.index block tx flags prevHeights =
        .ok (fOk, if fEnforceBIP68 tx flags then List.zipWith keptHeight tx.vin prevHeights
          else prevHeights) ∧
      (fOk = true ↔ (fEnforceBIP68 tx flags = true → ∀ p ∈ tx.vin.zip prevHeights,
        p.1.nSequence.toNat &&& SEQUENCE_LOCKTIME_DISABLE_FLAG = 0 →
          (p.1.nSequence.toNat &&& SEQUENCE_LOCKTIME_TYPE_FLAG ≠ 0 →
            ∀ ancestor, T.forest.ancestorAt block (max (p.2.toInt - 1) 0).toNat = some ancestor →
              getMedianTimePast T.index ancestor + ((p.1.nSequence.toNat &&& SEQUENCE_LOCKTIME_MASK) <<<
                SEQUENCE_LOCKTIME_GRANULARITY : Nat) ≤ getMedianTimePast T.index prev) ∧
          (p.1.nSequence.toNat &&& SEQUENCE_LOCKTIME_TYPE_FLAG = 0 →
            p.2.toInt + (p.1.nSequence.toNat &&& SEQUENCE_LOCKTIME_MASK : Nat) ≤
              (T.index block).nHeight))) := by
  have hmtp := getMedianTimePast_bounds T.index prev
  have hsize : ¬ prevHeights.length ≠ tx.vin.length := not_not.mpr hlen
  cases henf : fEnforceBIP68 tx flags with
  | false =>
    refine ⟨true, ?_, ⟨fun _ h => absurd h Bool.false_ne_true, fun _ => rfl⟩⟩
    unfold sequenceLocks calculateSequenceLocks
    rw [if_neg hsize, henf]
    simp only [Bool.not_false, if_true, pure, Except.pure, bind, Except.bind]
    rw [evaluateSequenceLocks_eq T.index hprev, decide_eq_true (by omega)]
    rfl
  | true =>
    obtain ⟨nMinHeight, nMinTime, hloop, hH, ht⟩ :=
      sequenceLocksLoop_spec block hs tx.vin prevHeights hlen.symm (hdef henf) (-1) (-1)
    refine ⟨decide (nMinHeight < (T.index block).nHeight ∧ nMinTime < getMedianTimePast T.index prev),
      ?_, ?_⟩
    · unfold sequenceLocks calculateSequenceLocks
      rw [if_neg hsize, henf]
      simp only [Bool.not_true, Bool.false_eq_true, if_false, bind, Except.bind]
      rw [hloop]
      simp only [pure, Except.pure]
      rw [evaluateSequenceLocks_eq T.index hprev]
      rfl
    · rw [decide_eq_true_iff, hH, ht]
      constructor
      · rintro ⟨⟨-, hheights⟩, -, htimes⟩ - p hp hdis
        refine ⟨fun htype ancestor hanc => ?_, fun htype => ?_⟩
        · have := htimes p hp hdis htype ancestor hanc
          omega
        · have := hheights p hp hdis htype
          omega
      · intro h
        refine ⟨⟨by omega, fun p hp hdis htype => ?_⟩, by omega, fun p hp hdis htype ancestor hanc => ?_⟩
        · have := (h rfl p hp hdis).2 htype
          omega
        · have := (h rfl p hp hdis).1 htype ancestor hanc
          omega

def sampleLockedSpend : CTransaction :=
  ⟨2, [⟨⟨Vector.replicate 32 1, 0⟩, [], 1⟩], [⟨1, []⟩], 0, Vector.replicate 32 0⟩

/-- The input of `sampleLockedSpend`, from a coin at height 1, may go into block 2. -/
theorem bip68_sequence_locks_sample :
    sampleTree.SkipsBuilt ∧ (sampleTree.index 2).pprev = some 1 ∧
      [(1 : Int32)].length = sampleLockedSpend.vin.length ∧
      (fEnforceBIP68 sampleLockedSpend 1 = true →
        ∀ p ∈ sampleLockedSpend.vin.zip [(1 : Int32)], SequenceLockDefined sampleTree (2 : Fin 3) p.1 p.2) ∧
      ∃ fOk, sequenceLocks sampleTree.index 2 sampleLockedSpend 1 [(1 : Int32)] =
          .ok (fOk, if fEnforceBIP68 sampleLockedSpend 1 then
            List.zipWith keptHeight sampleLockedSpend.vin [(1 : Int32)] else [(1 : Int32)]) ∧
        (fOk = true ↔ (fEnforceBIP68 sampleLockedSpend 1 = true →
          ∀ p ∈ sampleLockedSpend.vin.zip [(1 : Int32)],
            p.1.nSequence.toNat &&& SEQUENCE_LOCKTIME_DISABLE_FLAG = 0 →
              (p.1.nSequence.toNat &&& SEQUENCE_LOCKTIME_TYPE_FLAG ≠ 0 →
                ∀ ancestor, sampleTree.forest.ancestorAt 2 (max (p.2.toInt - 1) 0).toNat =
                    some ancestor →
                  getMedianTimePast sampleTree.index ancestor +
                    ((p.1.nSequence.toNat &&& SEQUENCE_LOCKTIME_MASK) <<<
                      SEQUENCE_LOCKTIME_GRANULARITY : Nat) ≤ getMedianTimePast sampleTree.index 1) ∧
              (p.1.nSequence.toNat &&& SEQUENCE_LOCKTIME_TYPE_FLAG = 0 →
                p.2.toInt + (p.1.nSequence.toNat &&& SEQUENCE_LOCKTIME_MASK : Nat) ≤
                  (sampleTree.index 2).nHeight))) :=
  ⟨sampleTree_skipsBuilt, rfl, rfl, by unfold SequenceLockDefined; decide,
    bip68_sequence_locks sampleTree_skipsBuilt rfl sampleLockedSpend 1 [1] rfl
      (by unfold SequenceLockDefined; decide)⟩

/-- Where the statement needs its restrictions, in the three blocks of `sampleTree`: a version 1
transaction leaves the height 5 of its disabled input in `prevHeights`; a time lock on a coin at
height 10 makes `GetAncestor(9)` return `nullptr` for block 2; and a height lock of one block on a
coin at height `2 ^ 31 - 1` overflows `int`. -/
theorem bip68_sequence_locks_limits :
    calculateSequenceLocks sampleTree.index 2
        ⟨1, [⟨⟨Vector.replicate 32 1, 0⟩, [], 0x80000000⟩], [⟨1, []⟩], 0, Vector.replicate 32 0⟩ 1 [5] =
      .ok ((-1, -1), [5]) ∧
    sequenceLocks sampleTree.index 2
        ⟨2, [⟨⟨Vector.replicate 32 1, 0⟩, [], 0x00400000⟩], [⟨1, []⟩], 0, Vector.replicate 32 0⟩ 1 [10] =
      .error nullAncestor ∧
    sequenceLocks sampleTree.index 2
        ⟨2, [⟨⟨Vector.replicate 32 1, 0⟩, [], 1⟩], [⟨1, []⟩], 0, Vector.replicate 32 0⟩ 1
        [2147483647] =
      .error intOverflow := by
  decide

end TbcNode.Consensus
