import Mathlib.Data.Nat.Bitwise
import TbcNode.Logic.MerkleTree
import TbcNode.Primitives.Transaction

/-! # Merkle roots and branches (`consensus/merkle.cpp`)

`MerkleComputation` computes, in constant space, the root of a list of leaves, the `mutated` flag
of CVE-2012-2459 and the branch of a position; the hash of two nodes is a parameter `hashPair`.
Its `uint32_t` shift `1 << level` is undefined from `level = 32` on, where the model throws.
-/

namespace TbcNode.Consensus

open TbcNode.Logic TbcNode.Primitives

/-- The undefined shift of a `uint32_t` by 32 or more. -/
def shiftOutOfRange : String := "undefined behaviour: ((uint32_t)1) << level with level >= 32"

/-- `uint256()`: the default constructor zeroes the bytes. -/
def nullHash : uint256 := Vector.replicate 32 0

/-- The variables of one climb: the level, the climbing node `h`, whether it is on the path of the
position (`matchh`), the flag and the branch so far. -/
structure Climb where
  level : Nat
  h : uint256
  matchh : Bool
  mutated : Bool
  branch : List uint256

/-- The branch part of a round of a climb, where `pbranch` is set: the left neighbour is pushed
when the climbing node is on the path, and the climbing node when the stored node is. -/
def branchStep (pbranch matchh : Bool) (matchlevel : Int) (level : Nat) (left h : uint256)
    (branch : List uint256) : List uint256 × Bool :=
  if pbranch then
    if matchh then (branch ++ [left], true)
    else if matchlevel = level then (branch ++ [h], true)
    else (branch, false)
  else (branch, matchh)

theorem branchStep_match (matchlevel : Int) (level : Nat) (left h : uint256)
    (branch : List uint256) :
    branchStep true true matchlevel level left h branch = (branch ++ [left], true) := rfl

theorem branchStep_stored {matchlevel : Int} {level : Nat} (hm : matchlevel = level)
    (left h : uint256) (branch : List uint256) :
    branchStep true false matchlevel level left h branch = (branch ++ [h], true) := by
  simp only [branchStep, if_pos hm, if_true, Bool.false_eq_true, if_false]

theorem branchStep_other {matchlevel : Int} {level : Nat} (hm : matchlevel ≠ level)
    (left h : uint256) (branch : List uint256) :
    branchStep true false matchlevel level left h branch = (branch, false) := by
  simp only [branchStep, if_neg hm, if_true, Bool.false_eq_true, if_false]

section Climbing

variable (hashPair : uint256 → uint256 → uint256) (pbranch track : Bool) (count : Nat)
  (inner : Nat → uint256) (matchlevel : Int)

/-- One round of a climb: the branch step, `mutated |= (inner[level] == h)` where the flag is
tracked (the first loop), and the hash of the stored node with the climbing one. -/
def climbStep (c : Climb) : Climb :=
  let step := branchStep pbranch c.matchh matchlevel c.level (inner c.level) c.h c.branch
  { level := c.level + 1, h := hashPair (inner c.level) c.h, matchh := step.2,
    mutated := c.mutated || (track && inner c.level == c.h), branch := step.1 }

/-- `while (!(count & (((uint32_t)1) << level))) { ...; level++; }`, the climb of the first loop
(`track`) and of the sweep. -/
def propagate (c : Climb) : Except String Climb :=
  if c.level < 32 then
    if count &&& 2 ^ c.level = 0 then
      propagate (climbStep hashPair pbranch track inner matchlevel c)
    else pure c
  else throw shiftOutOfRange
termination_by 32 - c.level
decreasing_by
  show 32 - (c.level + 1) < 32 - c.level
  omega

@[simp] theorem climbStep_level (c : Climb) :
    (climbStep hashPair pbranch track inner matchlevel c).level = c.level + 1 := rfl

@[simp] theorem climbStep_h (c : Climb) :
    (climbStep hashPair pbranch track inner matchlevel c).h = hashPair (inner c.level) c.h := rfl

@[simp] theorem climbStep_mutated (c : Climb) :
    (climbStep hashPair pbranch track inner matchlevel c).mutated =
      (c.mutated || (track && inner c.level == c.h)) := rfl

theorem climbStep_matchh (c : Climb) :
    (climbStep hashPair pbranch track inner matchlevel c).matchh =
      (branchStep pbranch c.matchh matchlevel c.level (inner c.level) c.h c.branch).2 := rfl

theorem climbStep_branch (c : Climb) :
    (climbStep hashPair pbranch track inner matchlevel c).branch =
      (branchStep pbranch c.matchh matchlevel c.level (inner c.level) c.h c.branch).1 := rfl

theorem propagate_of_clear {c : Climb} (hl : c.level < 32) (hb : count &&& 2 ^ c.level = 0) :
    propagate hashPair pbranch track count inner matchlevel c =
      propagate hashPair pbranch track count inner matchlevel
        (climbStep hashPair pbranch track inner matchlevel c) := by
  rw [propagate, if_pos hl, if_pos hb]

theorem propagate_of_set {c : Climb} (hl : c.level < 32) (hb : count &&& 2 ^ c.level ≠ 0) :
    propagate hashPair pbranch track count inner matchlevel c = .ok c := by
  rw [propagate, if_pos hl, if_neg hb]
  rfl

theorem propagate_of_ge {c : Climb} (hl : 32 ≤ c.level) :
    propagate hashPair pbranch track count inner matchlevel c = .error shiftOutOfRange := by
  rw [propagate, if_neg (by omega)]
  rfl

theorem propagate_level {c c' : Climb}
    (h : propagate hashPair pbranch track count inner matchlevel c = .ok c') :
    c.level ≤ c'.level ∧ c'.level < 32 := by
  induction c using propagate.induct hashPair pbranch track count inner matchlevel with
  | case1 c hl hb ih =>
    rw [propagate_of_clear hashPair pbranch track count inner matchlevel hl hb] at h
    have := ih h
    simp only [climbStep_level] at this
    omega
  | case2 c hl hb =>
    rw [propagate_of_set hashPair pbranch track count inner matchlevel hl hb] at h
    cases h
    exact ⟨Nat.le_refl _, hl⟩
  | case3 c hl =>
    rw [propagate_of_ge hashPair pbranch track count inner matchlevel (by omega)] at h
    cases h

end Climbing

/-- The state between two leaves of the first loop. -/
structure MerkleState where
  count : Nat
  inner : Nat → uint256
  matchlevel : Int
  mutated : Bool
  branch : List uint256

section Loops

variable (hashPair : uint256 → uint256 → uint256) (pbranch : Bool)

/-- The end of a leaf's round: the incremented count, `inner[level] = h` at the level where the
climb stopped, and that level as `matchlevel` where the node is on the path. -/
def storeClimb (s : MerkleState) (c : Climb) : MerkleState :=
  { count := (s.count + 1) % 2 ^ 32, inner := Function.update s.inner c.level c.h,
    matchlevel := if c.matchh then c.level else s.matchlevel, mutated := c.mutated,
    branch := c.branch }

/-- The first loop: each leaf climbs while the bit of its level in the incremented count is clear,
and is stored at the level where it stops. -/
def processLeaves (branchpos : Nat) : List uint256 → MerkleState → Except String MerkleState
  | [], s => pure s
  | h :: rest, s => do
    let c ← propagate hashPair pbranch true ((s.count + 1) % 2 ^ 32) s.inner s.matchlevel
      ⟨0, h, s.count == branchpos, s.mutated, s.branch⟩
    processLeaves branchpos rest (storeClimb s c)

/-- `while (!(count & (((uint32_t)1) << level))) level++;`, the level the sweep starts from. -/
def lowestSetLevel (count level : Nat) : Except String Nat :=
  if level < 32 then
    if count &&& 2 ^ level = 0 then lowestSetLevel count (level + 1) else pure level
  else throw shiftOutOfRange
termination_by 32 - level

/-- The start of a round of the sweep: the climbing node, pushed to the branch where it is on the
path, is paired with itself one level up. -/
def dupClimb (c : Climb) : Climb :=
  { c with level := c.level + 1, h := hashPair c.h c.h,
           branch := if pbranch && c.matchh then c.branch ++ [c.h] else c.branch }

@[simp] theorem dupClimb_level (c : Climb) : (dupClimb hashPair pbranch c).level = c.level + 1 :=
  rfl

@[simp] theorem dupClimb_h (c : Climb) : (dupClimb hashPair pbranch c).h = hashPair c.h c.h := rfl

@[simp] theorem dupClimb_matchh (c : Climb) : (dupClimb hashPair pbranch c).matchh = c.matchh := rfl

theorem dupClimb_branch (c : Climb) :
    (dupClimb hashPair pbranch c).branch =
      if pbranch && c.matchh then c.branch ++ [c.h] else c.branch := rfl

/-- The final sweep: while the count is not a single block, the climbing node is paired with
itself, the count rounded up to the next multiple of the block, and the node climbs again. -/
def sweep (inner : Nat → uint256) (matchlevel : Int) (count : Nat) (c : Climb) :
    Except String Climb :=
  if c.level < 32 then
    if count ≠ 2 ^ c.level then
      match hp : propagate hashPair pbranch false ((count + 2 ^ c.level) % 2 ^ 32) inner
          matchlevel (dupClimb hashPair pbranch c) with
      | .ok c' => sweep inner matchlevel ((count + 2 ^ c.level) % 2 ^ 32) c'
      | .error e => throw e
    else pure c
  else throw shiftOutOfRange
termination_by 32 - c.level
decreasing_by
  have := propagate_level hashPair pbranch false _ inner matchlevel hp
  simp only [dupClimb] at this
  omega

/-- `MerkleComputation`: the root, the flag and the branch of `branchpos` (with `pbranch`). -/
def merkleComputation (leaves : List uint256) (branchpos : Nat) :
    Except String (uint256 × Bool × List uint256) :=
  if leaves.length = 0 then pure (nullHash, false, [])
  else do
    let s ← processLeaves hashPair pbranch branchpos leaves ⟨0, fun _ => nullHash, -1, false, []⟩
    let level ← lowestSetLevel s.count 0
    let c ← sweep hashPair pbranch s.inner s.matchlevel s.count
      ⟨level, s.inner level, s.matchlevel == level, s.mutated, s.branch⟩
    pure (c.h, s.mutated, c.branch)

theorem merkleComputation_of_ok {leaves : List uint256} {branchpos L : Nat} {s : MerkleState}
    {c : Climb} (hne : leaves.length ≠ 0)
    (h₁ : processLeaves hashPair pbranch branchpos leaves ⟨0, fun _ => nullHash, -1, false, []⟩ =
      .ok s)
    (h₂ : lowestSetLevel s.count 0 = .ok L)
    (h₃ : sweep hashPair pbranch s.inner s.matchlevel s.count
      ⟨L, s.inner L, s.matchlevel == L, s.mutated, s.branch⟩ = .ok c) :
    merkleComputation hashPair pbranch leaves branchpos = .ok (c.h, s.mutated, c.branch) := by
  simp only [merkleComputation, if_neg hne, h₁, h₂, h₃, bind, Except.bind, pure, Except.pure]

theorem merkleComputation_of_error {leaves : List uint256} {branchpos L : Nat} {s : MerkleState}
    {e : String} (hne : leaves.length ≠ 0)
    (h₁ : processLeaves hashPair pbranch branchpos leaves ⟨0, fun _ => nullHash, -1, false, []⟩ =
      .ok s)
    (h₂ : lowestSetLevel s.count 0 = .ok L)
    (h₃ : sweep hashPair pbranch s.inner s.matchlevel s.count
      ⟨L, s.inner L, s.matchlevel == L, s.mutated, s.branch⟩ = .error e) :
    merkleComputation hashPair pbranch leaves branchpos = .error e := by
  simp only [merkleComputation, if_neg hne, h₁, h₂, h₃, bind, Except.bind]

end Loops

section Api

variable (hashPair : uint256 → uint256 → uint256)

/-- `ComputeMerkleRoot`: the root and the flag, with `branchpos = uint32_t(-1)` and no branch. -/
def computeMerkleRoot (leaves : List uint256) : Except String (uint256 × Bool) := do
  let (root, mutated, _) ← merkleComputation hashPair false leaves (2 ^ 32 - 1)
  pure (root, mutated)

def computeMerkleBranch (leaves : List uint256) (position : Nat) :
    Except String (List uint256) := do
  let (_, _, branch) ← merkleComputation hashPair true leaves position
  pure branch

/-- `ComputeMerkleRootFromBranch`: the leaf climbed along the branch, the low bit of the index
saying on which side the sibling is. -/
def computeMerkleRootFromBranch (hash : uint256) : List uint256 → Nat → uint256
  | [], _ => hash
  | it :: rest, nIndex =>
    computeMerkleRootFromBranch (if nIndex &&& 1 ≠ 0 then hashPair it hash else hashPair hash it)
      rest (nIndex >>> 1)

/-- `BlockMerkleRoot`: the root of the ids of the block's transactions. -/
def blockMerkleRoot (vtx : List CTransaction) : Except String (uint256 × Bool) :=
  computeMerkleRoot hashPair (vtx.map CTransaction.getId)

def blockMerkleBranch (vtx : List CTransaction) (position : Nat) : Except String (List uint256) :=
  computeMerkleBranch hashPair (vtx.map CTransaction.getId) position

end Api

/-! ### Runs of the loops

What each loop of `MerkleComputation` does, said once: the invariant rule and the termination of a
climb, the run of the first loop over the leaves, and the two ways the sweep ends. The tree facts
are proved over these rules (`Consensus.MerkleRoot`), never by unfolding the loops again. -/

theorem and_two_pow_eq_zero_iff (a μ : Nat) : a &&& 2 ^ μ = 0 ↔ a / 2 ^ μ % 2 = 0 := by
  rw [Nat.and_two_pow, Nat.testBit_eq_decide_div_mod_eq]
  have hB := Nat.two_pow_pos μ
  rcases Nat.mod_two_eq_zero_or_one (a / 2 ^ μ) with h | h
  · simp [h]
  · simp only [h, decide_true, Bool.toNat_true, Nat.one_mul]
    omega

section Climbing

variable (hashPair : uint256 → uint256 → uint256) (pbranch track : Bool) (count : Nat)
  (inner : Nat → uint256) (matchlevel : Int)

theorem propagate_inv (I : Climb → Prop)
    (hstep : ∀ c, I c → c.level < 32 → count / 2 ^ c.level % 2 = 0 →
      I (climbStep hashPair pbranch track inner matchlevel c))
    {c c' : Climb} (hc : I c) (h : propagate hashPair pbranch track count inner matchlevel c = .ok c') :
    I c' ∧ count / 2 ^ c'.level % 2 = 1 := by
  induction c using propagate.induct hashPair pbranch track count inner matchlevel with
  | case1 c hl hb ih =>
    rw [propagate_of_clear hashPair pbranch track count inner matchlevel hl hb] at h
    exact ih (hstep c hc hl ((and_two_pow_eq_zero_iff _ _).mp hb)) h
  | case2 c hl hb =>
    have hset := (and_two_pow_eq_zero_iff count c.level).not.mp hb
    rw [propagate_of_set hashPair pbranch track count inner matchlevel hl hb] at h
    cases h
    exact ⟨hc, by omega⟩
  | case3 c hl =>
    rw [propagate_of_ge hashPair pbranch track count inner matchlevel (by omega)] at h
    cases h

theorem propagate_clear {c c' : Climb}
    (h : propagate hashPair pbranch track count inner matchlevel c = .ok c') :
    ∀ μ, c.level ≤ μ → μ < c'.level → count / 2 ^ μ % 2 = 0 := by
  have hrun := propagate_inv hashPair pbranch track count inner matchlevel
    (fun d => ∀ μ, c.level ≤ μ → μ < d.level → count / 2 ^ μ % 2 = 0) ?_
    (fun μ h₁ h₂ => absurd h₂ (by omega)) h
  · exact hrun.1
  · intro d hd _ hb μ h₁ h₂
    rw [climbStep_level] at h₂
    rcases Nat.lt_or_ge μ d.level with hlt | hge
    · exact hd μ h₁ hlt
    · rwa [show μ = d.level by omega]

theorem propagate_ok {c : Climb} (hbit : ∃ μ, c.level ≤ μ ∧ μ < 32 ∧ count / 2 ^ μ % 2 = 1) :
    ∃ c', propagate hashPair pbranch track count inner matchlevel c = .ok c' := by
  induction c using propagate.induct hashPair pbranch track count inner matchlevel with
  | case1 c hl hb ih =>
    rw [propagate_of_clear hashPair pbranch track count inner matchlevel hl hb]
    apply ih
    obtain ⟨μ, h₁, h₂, h₃⟩ := hbit
    have hclear := (and_two_pow_eq_zero_iff count c.level).mp hb
    have hne : μ ≠ c.level := fun he => by rw [he] at h₃; omega
    exact ⟨μ, by rw [climbStep_level]; omega, h₂, h₃⟩
  | case2 c hl hb => exact ⟨c, propagate_of_set hashPair pbranch track count inner matchlevel hl hb⟩
  | case3 c hl =>
    obtain ⟨μ, h₁, h₂, _⟩ := hbit
    omega

theorem propagate_zero (c : Climb) :
    propagate hashPair pbranch track 0 inner matchlevel c = .error shiftOutOfRange := by
  induction c using propagate.induct hashPair pbranch track 0 inner matchlevel with
  | case1 c hl hb ih =>
    rw [propagate_of_clear hashPair pbranch track 0 inner matchlevel hl hb]
    exact ih
  | case2 c hl hb => exact absurd (Nat.zero_and _) hb
  | case3 c hl => exact propagate_of_ge hashPair pbranch track 0 inner matchlevel (by omega)

end Climbing

section Loops

variable (hashPair : uint256 → uint256 → uint256) (pbranch : Bool)

theorem processLeaves_cons_of_ok (branchpos : Nat) {h : uint256} {rest : List uint256}
    {s : MerkleState} {c : Climb}
    (hc : propagate hashPair pbranch true ((s.count + 1) % 2 ^ 32) s.inner s.matchlevel
      ⟨0, h, s.count == branchpos, s.mutated, s.branch⟩ = .ok c) :
    processLeaves hashPair pbranch branchpos (h :: rest) s =
      processLeaves hashPair pbranch branchpos rest (storeClimb s c) := by
  rw [processLeaves, hc]
  rfl

theorem processLeaves_run (leaves : List uint256) (branchpos : Nat)
    (Inv : Nat → MerkleState → Prop)
    (hstep : ∀ k s (hk : k < leaves.length), Inv k s → ∃ c,
      propagate hashPair pbranch true ((s.count + 1) % 2 ^ 32) s.inner s.matchlevel
        ⟨0, leaves[k], s.count == branchpos, s.mutated, s.branch⟩ = .ok c ∧
      Inv (k + 1) (storeClimb s c))
    {k : Nat} {s : MerkleState} (hk : k ≤ leaves.length) (hs : Inv k s) :
    ∃ s', processLeaves hashPair pbranch branchpos (leaves.drop k) s = .ok s' ∧
      Inv leaves.length s' := by
  induction hm : leaves.length - k generalizing k s with
  | zero =>
    obtain rfl : k = leaves.length := by omega
    rw [List.drop_length]
    exact ⟨s, rfl, hs⟩
  | succ m ih =>
    have hlt : k < leaves.length := by omega
    obtain ⟨c, hc, hinv⟩ := hstep k s hlt hs
    rw [List.drop_eq_getElem_cons hlt, processLeaves_cons_of_ok hashPair pbranch branchpos hc]
    exact ih (by omega) hinv (by omega)

theorem lowestSetLevel_spec {count : Nat} :
    ∀ level, (∀ μ < level, count / 2 ^ μ % 2 = 0) →
      (∃ μ, level ≤ μ ∧ μ < 32 ∧ count / 2 ^ μ % 2 = 1) →
      ∃ L, lowestSetLevel count level = .ok L ∧ L < 32 ∧ count / 2 ^ L % 2 = 1 ∧
        ∀ μ < L, count / 2 ^ μ % 2 = 0 := by
  intro level
  induction level using lowestSetLevel.induct count with
  | case1 level hl hb ih =>
    intro hbelow hbit
    have hclear := (and_two_pow_eq_zero_iff count level).mp hb
    rw [lowestSetLevel, if_pos hl, if_pos hb]
    apply ih
    · intro μ hμ
      rcases Nat.lt_or_ge μ level with h | h
      · exact hbelow μ h
      · rwa [show μ = level by omega]
    · obtain ⟨μ, h₁, h₂, h₃⟩ := hbit
      have hne : μ ≠ level := fun he => by rw [he] at h₃; omega
      exact ⟨μ, by omega, h₂, h₃⟩
  | case2 level hl hb =>
    intro hbelow _
    have hset := (and_two_pow_eq_zero_iff count level).not.mp hb
    rw [lowestSetLevel, if_pos hl, if_neg hb]
    exact ⟨level, rfl, hl, by omega, hbelow⟩
  | case3 level hl =>
    intro _ hbit
    obtain ⟨μ, h₁, h₂, _⟩ := hbit
    omega

variable (inner : Nat → uint256) (matchlevel : Int)

theorem sweep_of_ok {count : Nat} {c c' : Climb} (hl : c.level < 32) (hne : count ≠ 2 ^ c.level)
    (hp : propagate hashPair pbranch false ((count + 2 ^ c.level) % 2 ^ 32) inner matchlevel
      (dupClimb hashPair pbranch c) = .ok c') :
    sweep hashPair pbranch inner matchlevel count c =
      sweep hashPair pbranch inner matchlevel ((count + 2 ^ c.level) % 2 ^ 32) c' := by
  rw [sweep, if_pos hl, if_pos hne]
  split
  · rename_i c'' hp'
    rw [hp] at hp'
    cases hp'
    rfl
  · rename_i e hp'
    rw [hp] at hp'
    cases hp'

theorem sweep_of_error {count : Nat} {c : Climb} {e : String} (hl : c.level < 32)
    (hne : count ≠ 2 ^ c.level)
    (hp : propagate hashPair pbranch false ((count + 2 ^ c.level) % 2 ^ 32) inner matchlevel
      (dupClimb hashPair pbranch c) = .error e) :
    sweep hashPair pbranch inner matchlevel count c = .error e := by
  rw [sweep, if_pos hl, if_pos hne]
  split
  · rename_i c'' hp'
    rw [hp] at hp'
    cases hp'
  · rename_i e' hp'
    rw [hp] at hp'
    cases hp'
    rfl

theorem sweep_of_eq {count : Nat} {c : Climb} (hl : c.level < 32) (heq : count = 2 ^ c.level) :
    sweep hashPair pbranch inner matchlevel count c = .ok c := by
  rw [sweep, if_pos hl, if_neg (not_not.mpr heq)]
  rfl

theorem sweep_run (I : Nat → Climb → Prop)
    (hround : ∀ count c, I count c → c.level < 32 → count ≠ 2 ^ c.level → ∃ c',
      propagate hashPair pbranch false ((count + 2 ^ c.level) % 2 ^ 32) inner matchlevel
        (dupClimb hashPair pbranch c) = .ok c' ∧ I ((count + 2 ^ c.level) % 2 ^ 32) c')
    (hlt : ∀ count c, I count c → c.level < 32) :
    ∀ count c, I count c →
      ∃ c', sweep hashPair pbranch inner matchlevel count c = .ok c' ∧ I (2 ^ c'.level) c' := by
  intro count c
  induction count, c using sweep.induct hashPair pbranch inner matchlevel with
  | case1 count c hl hne c' hp ih =>
    intro hI
    obtain ⟨c'', hp', hI'⟩ := hround count c hI hl hne
    rw [hp] at hp'
    cases hp'
    rw [sweep_of_ok hashPair pbranch inner matchlevel hl hne hp]
    exact ih hI'
  | case2 count c hl hne e hp =>
    intro hI
    obtain ⟨c'', hp', _⟩ := hround count c hI hl hne
    rw [hp] at hp'
    cases hp'
  | case3 count c hl heq =>
    intro hI
    have heq' : count = 2 ^ c.level := not_not.mp heq
    exact ⟨c, sweep_of_eq hashPair pbranch inner matchlevel hl heq', heq' ▸ hI⟩
  | case4 count c hl =>
    intro hI
    exact absurd (hlt count c hI) hl

theorem sweep_error (I : Nat → Climb → Prop)
    (hround : ∀ count c, I count c → c.level < 32 → count ≠ 2 ^ c.level →
      propagate hashPair pbranch false ((count + 2 ^ c.level) % 2 ^ 32) inner matchlevel
          (dupClimb hashPair pbranch c) = .error shiftOutOfRange ∨
        ∃ c', propagate hashPair pbranch false ((count + 2 ^ c.level) % 2 ^ 32) inner matchlevel
          (dupClimb hashPair pbranch c) = .ok c' ∧ I ((count + 2 ^ c.level) % 2 ^ 32) c')
    (hne : ∀ count c, I count c → count ≠ 2 ^ c.level)
    (hlt : ∀ count c, I count c → c.level < 32) :
    ∀ count c, I count c →
      sweep hashPair pbranch inner matchlevel count c = .error shiftOutOfRange := by
  intro count c
  induction count, c using sweep.induct hashPair pbranch inner matchlevel with
  | case1 count c hl hne' c' hp ih =>
    intro hI
    rcases hround count c hI hl hne' with herr | ⟨c'', hp', hI'⟩
    · rw [hp] at herr
      cases herr
    · rw [hp] at hp'
      cases hp'
      rw [sweep_of_ok hashPair pbranch inner matchlevel hl hne' hp]
      exact ih hI'
  | case2 count c hl hne' e hp =>
    intro hI
    rcases hround count c hI hl hne' with herr | ⟨c'', hp', _⟩
    · rw [hp] at herr
      cases herr
      exact sweep_of_error hashPair pbranch inner matchlevel hl hne' hp
    · rw [hp] at hp'
      cases hp'
  | case3 count c hl heq =>
    intro hI
    exact absurd (not_not.mp heq) (hne count c hI)
  | case4 count c hl =>
    intro hI
    exact absurd (hlt count c hI) hl

end Loops

theorem computeMerkleRootFromBranch_eq_climbPath (hashPair : uint256 → uint256 → uint256)
    (hash : uint256) (branch : List uint256) (nIndex : Nat) :
    computeMerkleRootFromBranch hashPair hash branch nIndex =
      climbPath hashPair hash branch nIndex := by
  induction branch generalizing hash nIndex with
  | nil => rfl
  | cons it rest ih =>
    have hbit : (nIndex &&& 1 ≠ 0) ↔ nIndex % 2 = 1 := by
      rw [Nat.and_one_is_mod]
      omega
    rw [computeMerkleRootFromBranch, climbPath, ih, Nat.shiftRight_eq_div_pow, Nat.pow_one]
    simp only [hbit]

end TbcNode.Consensus
