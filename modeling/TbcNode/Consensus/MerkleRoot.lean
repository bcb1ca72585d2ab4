import TbcNode.Consensus.Merkle

/-! # The Merkle computation against the tree of levels

The loops of `MerkleComputation` against the reference tree of `Logic.MerkleTree`: the first loop
keeps `Filled`, the path of the position is `Tracked`, and the final sweep keeps `Swept`, so the
root, the `mutated` flag and the branch are those of the tree.
-/

namespace TbcNode.Consensus

open TbcNode.Logic TbcNode.Primitives

theorem two_le_div_of_even {T μ : Nat} (hT : 0 < T) (hdvd : T % 2 ^ μ = 0)
    (he : T / 2 ^ μ % 2 = 0) : 2 ≤ T / 2 ^ μ := by
  have hpos : 0 < T / 2 ^ μ :=
    Nat.div_pos (Nat.le_of_dvd hT (Nat.dvd_of_mod_eq_zero hdvd)) (Nat.two_pow_pos μ)
  generalize T / 2 ^ μ = q at hpos he ⊢
  omega

theorem half_add_one_iff {r q : Nat} (hq : q % 2 = 0) :
    r / 2 + 1 = q / 2 ↔ r + 2 = q ∨ r + 1 = q := by
  omega

section Climbs

variable (hashPair : uint256 → uint256 → uint256) (leaves : List uint256)

/-- A climb at count `T`, from level `lo` on: the count is a multiple of the block, the climbing
node is the last node of its level, and the block is below twice the leaves. -/
structure Rooted (T lo : Nat) (c : Climb) : Prop where
  lo_le : lo ≤ c.level
  dvd : T % 2 ^ c.level = 0
  h_eq : c.h = padRoot hashPair c.level (block c.level (T / 2 ^ c.level - 1) leaves)
  lt : 2 ^ c.level < 2 * leaves.length

/-- The nodes in `inner` that a climb at count `T` from level `lo` pairs with: at each level whose
bit is clear, the left neighbour of the climbing node, which is itself not empty. -/
def LeftNeighbours (T lo : Nat) (inner : Nat → uint256) : Prop :=
  ∀ μ, lo ≤ μ → T % 2 ^ μ = 0 → T / 2 ^ μ % 2 = 0 →
    inner μ = padRoot hashPair μ (block μ (T / 2 ^ μ - 2) leaves) ∧
      (T / 2 ^ μ - 1) * 2 ^ μ < leaves.length

variable {hashPair leaves}

theorem rooted_step {T lo : Nat} {inner : Nat → uint256} (hT : 0 < T)
    (hin : LeftNeighbours hashPair leaves T lo inner) (pbranch track : Bool) (matchlevel : Int)
    {c : Climb} (hc : Rooted hashPair leaves T lo c) (hb : T / 2 ^ c.level % 2 = 0) :
    Rooted hashPair leaves T lo (climbStep hashPair pbranch track inner matchlevel c) := by
  obtain ⟨hlo, hdvd, hh, hlt⟩ := hc
  obtain ⟨hinner, hright⟩ := hin c.level hlo hdvd hb
  have hq := two_le_div_of_even hT hdvd hb
  constructor
  · rw [climbStep_level]
    omega
  · rw [climbStep_level]
    exact mod_two_pow_succ_iff.mpr ⟨hdvd, hb⟩
  · rw [climbStep_level, climbStep_h, hinner, hh, padRoot_pair hashPair hb hq hright,
      div_two_pow_succ]
  · rw [climbStep_level, two_pow_succ_eq]
    have : 2 ^ c.level ≤ (T / 2 ^ c.level - 1) * 2 ^ c.level :=
      Nat.le_mul_of_pos_left _ (by omega)
    omega

theorem propagate_rooted {T lo : Nat} {inner : Nat → uint256} (hT : 0 < T)
    (hin : LeftNeighbours hashPair leaves T lo inner) (pbranch track : Bool) (matchlevel : Int)
    {c c' : Climb} (hc : Rooted hashPair leaves T lo c)
    (h : propagate hashPair pbranch track T inner matchlevel c = .ok c') :
    Rooted hashPair leaves T lo c' ∧ T / 2 ^ c'.level % 2 = 1 :=
  propagate_inv hashPair pbranch track T inner matchlevel (Rooted hashPair leaves T lo)
    (fun _ hd _ hb => rooted_step hT hin pbranch track matchlevel hd hb) hc h

variable (hashPair leaves)

/-- The flag of a climb of the first loop: `m0` before the leaf, or a level it has passed where the
two nodes it paired were equal. -/
def Flagged (T : Nat) (m0 : Prop) (c : Climb) : Prop :=
  c.mutated = true ↔ m0 ∨ ∃ μ < c.level,
    padRoot hashPair μ (block μ (T / 2 ^ μ - 2) leaves) =
      padRoot hashPair μ (block μ (T / 2 ^ μ - 1) leaves)

variable {hashPair leaves}

theorem flagged_step {T lo : Nat} {inner : Nat → uint256} {m0 : Prop}
    (hin : LeftNeighbours hashPair leaves T lo inner) (pbranch : Bool) (matchlevel : Int)
    {c : Climb} (hr : Rooted hashPair leaves T lo c) (hf : Flagged hashPair leaves T m0 c)
    (hb : T / 2 ^ c.level % 2 = 0) :
    Flagged hashPair leaves T m0 (climbStep hashPair pbranch true inner matchlevel c) := by
  obtain ⟨hlo, hdvd, hh, _⟩ := hr
  have hinner := (hin c.level hlo hdvd hb).1
  unfold Flagged at hf ⊢
  rw [climbStep_mutated, climbStep_level, Bool.or_eq_true, hf, Bool.true_and, beq_iff_eq, hinner,
    hh]
  constructor
  · rintro ((hm | ⟨μ, hμ, he⟩) | he)
    · exact Or.inl hm
    · exact Or.inr ⟨μ, by omega, he⟩
    · exact Or.inr ⟨c.level, by omega, he⟩
  · rintro (hm | ⟨μ, hμ, he⟩)
    · exact Or.inl (Or.inl hm)
    · rcases Nat.lt_or_ge μ c.level with hlt | hge
      · exact Or.inl (Or.inr ⟨μ, hlt, he⟩)
      · obtain rfl : μ = c.level := by omega
        exact Or.inr he

variable (hashPair leaves)

/-- A climb with the branch of position `p`: the climbing node is on the path when `p` is in its
block, the branch then holds the siblings below, and otherwise what it held before (`B0`). -/
structure OnPath (p T : Nat) (B0 : List uint256) (c : Climb) : Prop where
  matchh_iff : c.matchh = true ↔ p / 2 ^ c.level + 1 = T / 2 ^ c.level
  of_match : c.matchh = true →
    c.branch = (List.range c.level).map (pathSibling hashPair leaves p)
  of_not_match : c.matchh = false → c.branch = B0

/-- Where the path of `p` is stored: at a level whose bit of `T` is clear, `matchlevel` names it
exactly when `p` is in the left neighbour of the climbing node, and `B0` then holds the siblings
below. -/
def StoredBranch (p T lo : Nat) (matchlevel : Int) (B0 : List uint256) : Prop :=
  ∀ μ, lo ≤ μ → T % 2 ^ μ = 0 → T / 2 ^ μ % 2 = 0 →
    (matchlevel = μ ↔ p / 2 ^ μ + 2 = T / 2 ^ μ) ∧
      (matchlevel = μ → B0 = (List.range μ).map (pathSibling hashPair leaves p))

variable {hashPair leaves}

theorem onPath_step {p T lo : Nat} {inner : Nat → uint256} {matchlevel : Int}
    {B0 : List uint256} (hin : LeftNeighbours hashPair leaves T lo inner)
    (hst : StoredBranch hashPair leaves p T lo matchlevel B0) (track : Bool) {c : Climb}
    (hr : Rooted hashPair leaves T lo c) (ho : OnPath hashPair leaves p T B0 c)
    (hb : T / 2 ^ c.level % 2 = 0) :
    OnPath hashPair leaves p T B0 (climbStep hashPair true track inner matchlevel c) := by
  obtain ⟨hlo, hdvd, hh, _⟩ := hr
  obtain ⟨hinner, hright⟩ := hin c.level hlo hdvd hb
  obtain ⟨hstored, hbranch⟩ := hst c.level hlo hdvd hb
  have hup : p / 2 ^ (c.level + 1) + 1 = T / 2 ^ (c.level + 1) ↔
      p / 2 ^ c.level + 2 = T / 2 ^ c.level ∨ p / 2 ^ c.level + 1 = T / 2 ^ c.level := by
    rw [div_two_pow_succ, div_two_pow_succ T]
    exact half_add_one_iff hb
  cases hm : c.matchh with
  | true =>
    have hr := ho.matchh_iff.mp hm
    have hodd : p / 2 ^ c.level % 2 = 1 := by
      rw [← hr] at hb
      generalize p / 2 ^ c.level = r at hb ⊢
      omega
    have hsib : pathSibling hashPair leaves p c.level = inner c.level := by
      rw [pathSibling_of_odd hashPair hodd, hinner, ← hr]
      rfl
    constructor
    · rw [climbStep_matchh, climbStep_level, hm, branchStep_match]
      exact iff_of_true rfl (hup.mpr (Or.inr hr))
    · intro _
      rw [climbStep_branch, climbStep_level, hm, branchStep_match, ho.of_match hm, List.range_succ,
        List.map_append, List.map_singleton, hsib]
    · intro h
      rw [climbStep_matchh, hm, branchStep_match] at h
      cases h
  | false =>
    rcases eq_or_ne matchlevel (c.level : Int) with hml | hml
    · have hr := hstored.mp hml
      have heven : p / 2 ^ c.level % 2 = 0 := by
        rw [← hr] at hb
        generalize p / 2 ^ c.level = r at hb ⊢
        omega
      have hidx : p / 2 ^ c.level + 1 = T / 2 ^ c.level - 1 := by
        rw [← hr]
        rfl
      have hsib : pathSibling hashPair leaves p c.level = c.h := by
        rw [pathSibling_of_even_lt hashPair heven (by rw [hidx]; exact hright), hh, hidx]
      constructor
      · rw [climbStep_matchh, climbStep_level, hm, branchStep_stored hml]
        exact iff_of_true rfl (hup.mpr (Or.inl hr))
      · intro _
        rw [climbStep_branch, climbStep_level, hm, branchStep_stored hml, ho.of_not_match hm,
          hbranch hml, List.range_succ, List.map_append, List.map_singleton, hsib]
      · intro h
        rw [climbStep_matchh, hm, branchStep_stored hml] at h
        cases h
    · constructor
      · rw [climbStep_matchh, climbStep_level, hm, branchStep_other hml]
        refine iff_of_false Bool.false_ne_true fun h => ?_
        rcases hup.mp h with h2 | h1
        · exact hml (hstored.mpr h2)
        · rw [← ho.matchh_iff] at h1
          rw [hm] at h1
          cases h1
      · intro h
        rw [climbStep_matchh, hm, branchStep_other hml] at h
        cases h
      · intro _
        rw [climbStep_branch, hm, branchStep_other hml, ho.of_not_match hm]

theorem propagate_onPath {p T lo : Nat} {inner : Nat → uint256} {matchlevel : Int}
    {B0 : List uint256} (hT : 0 < T) (hin : LeftNeighbours hashPair leaves T lo inner)
    (hst : StoredBranch hashPair leaves p T lo matchlevel B0) (track : Bool) {c c' : Climb}
    (hr : Rooted hashPair leaves T lo c) (ho : OnPath hashPair leaves p T B0 c)
    (h : propagate hashPair true track T inner matchlevel c = .ok c') :
    OnPath hashPair leaves p T B0 c' :=
  (propagate_inv hashPair true track T inner matchlevel
    (fun d => Rooted hashPair leaves T lo d ∧ OnPath hashPair leaves p T B0 d)
    (fun _ hd _ hb => ⟨rooted_step hT hin true track matchlevel hd.1 hb,
      onPath_step hin hst track hd.1 hd.2 hb⟩) ⟨hr, ho⟩ h).1.2

end Climbs

theorem pair_end_iff {T L0 μ j : Nat} (hdvd : T % 2 ^ L0 = 0) (hodd : T / 2 ^ L0 % 2 = 1) :
    (2 * j + 2) * 2 ^ μ = T ↔ μ < L0 ∧ T / 2 ^ μ = 2 * j + 2 := by
  constructor
  · intro h
    have hdiv : T / 2 ^ μ = 2 * j + 2 := by
      rw [← h, Nat.mul_div_cancel _ (Nat.two_pow_pos μ)]
    refine ⟨Nat.lt_of_not_le fun hle => ?_, hdiv⟩
    have hμ : T % 2 ^ (μ + 1) = 0 := mod_two_pow_succ_iff.mpr
      ⟨by rw [← h, Nat.mul_mod_left], by rw [hdiv]; omega⟩
    have := (mod_two_pow_succ_iff.mp (mod_two_pow_of_le hμ (by omega : L0 + 1 ≤ μ + 1))).2
    omega
  · rintro ⟨hμ, hdiv⟩
    rw [← hdiv, Nat.div_mul_cancel (Nat.dvd_of_mod_eq_zero (mod_two_pow_of_le hdvd hμ.le))]

theorem div_two_pow_even_of_lt {T μ m : Nat} (h : T % 2 ^ m = 0) (hμ : μ < m) :
    T / 2 ^ μ % 2 = 0 :=
  (mod_two_pow_succ_iff.mp (mod_two_pow_of_le h hμ)).2

section FirstLoop

variable (hashPair : uint256 → uint256 → uint256) (leaves : List uint256)

/-- The state after the first `k` leaves: the count, for each set bit `L` of `k` the node of the
block of `2 ^ L` leaves that `k` ends with, and the flag: two complete sibling blocks among the
first `k` leaves with equal nodes. -/
structure Filled (k : Nat) (s : MerkleState) : Prop where
  count_eq : s.count = k
  inner_eq : ∀ L, k / 2 ^ L % 2 = 1 →
    s.inner L = padRoot hashPair L (block L (k / 2 ^ L - 1) leaves)
  mutated_iff : s.mutated = true ↔ ∃ L j, (2 * j + 2) * 2 ^ L ≤ k ∧
    padRoot hashPair L (block L (2 * j) leaves) = padRoot hashPair L (block L (2 * j + 1) leaves)

/-- Where the path of position `p` is after the first `k` leaves: nowhere before its leaf, and
from then on at the level of the stored block that holds `p`, with the siblings below. -/
structure Tracked (p k : Nat) (s : MerkleState) : Prop where
  before : k ≤ p → s.matchlevel = -1 ∧ s.branch = []
  after : p < k → ∃ L : Nat, s.matchlevel = L ∧ StoredAt k p L ∧
    s.branch = (List.range L).map (pathSibling hashPair leaves p)

def initialState : MerkleState := ⟨0, fun _ => nullHash, -1, false, []⟩

theorem filled_initial : Filled hashPair leaves 0 initialState := by
  constructor
  · rfl
  · intro L h
    rw [Nat.zero_div] at h
    cases h
  · constructor
    · intro h
      cases h
    · rintro ⟨L, j, hle, _⟩
      have : 0 < 2 ^ L := Nat.two_pow_pos _
      have : 2 * 2 ^ L ≤ (2 * j + 2) * 2 ^ L := Nat.mul_le_mul_right _ (by omega)
      omega

theorem tracked_initial (p : Nat) : Tracked hashPair leaves p 0 initialState :=
  ⟨fun _ => ⟨rfl, rfl⟩, fun h => absurd h (Nat.not_lt_zero p)⟩

variable {hashPair leaves}

theorem Tracked.matchlevel_eq_iff {p k : Nat} {s : MerkleState}
    (ht : Tracked hashPair leaves p k s) (μ : Nat) : s.matchlevel = μ ↔ StoredAt k p μ := by
  constructor
  · intro hml
    rcases Nat.lt_or_ge p k with hlt | hge
    · obtain ⟨L, hL, hst, _⟩ := ht.after hlt
      obtain rfl : L = μ := by omega
      exact hst
    · have := (ht.before hge).1
      omega
  · intro hst
    obtain ⟨L, hL, hst', _⟩ := ht.after hst.lt
    rw [hL, hst'.unique hst]

theorem Tracked.branch_of_eq {p k μ : Nat} {s : MerkleState} (ht : Tracked hashPair leaves p k s)
    (hml : s.matchlevel = μ) : s.branch = (List.range μ).map (pathSibling hashPair leaves p) := by
  obtain ⟨L, hL, hst, hb⟩ := ht.after ((ht.matchlevel_eq_iff μ).mp hml).lt
  obtain rfl : L = μ := by omega
  exact hb

theorem Filled.neighbours {k : Nat} {s : MerkleState} (hs : Filled hashPair leaves k s)
    (hk : k < leaves.length) : LeftNeighbours hashPair leaves (k + 1) 0 s.inner := by
  intro μ _ hdvd hb
  have hsucc : (k + 1) / 2 ^ μ = k / 2 ^ μ + 1 := Nat.succ_div_of_dvd (Nat.dvd_of_mod_eq_zero hdvd)
  rw [hsucc] at hb ⊢
  have hodd : k / 2 ^ μ % 2 = 1 := by
    generalize k / 2 ^ μ = a at hb ⊢
    omega
  constructor
  · rw [hs.inner_eq μ hodd]
    rfl
  · rw [Nat.add_sub_cancel]
    exact Nat.lt_of_le_of_lt (Nat.div_mul_le_self k _) hk

theorem rooted_leaf {k : Nat} (hk : k < leaves.length) (m fl : Bool) (b : List uint256) :
    Rooted hashPair leaves (k + 1) 0 ⟨0, leaves[k], m, fl, b⟩ := by
  constructor
  · exact Nat.le_refl 0
  · exact Nat.mod_one _
  · show leaves[k] = padRoot hashPair 0 (block 0 ((k + 1) / 2 ^ 0 - 1) leaves)
    rw [Nat.pow_zero, Nat.div_one, Nat.add_sub_cancel, padRoot_block_zero hashPair hk]
  · show 2 ^ 0 < 2 * leaves.length
    omega

theorem Filled.count_succ {k : Nat} {s : MerkleState} (hs : Filled hashPair leaves k s)
    (hn : k + 1 < 2 ^ 32) : (s.count + 1) % 2 ^ 32 = k + 1 := by
  rw [hs.count_eq]
  exact Nat.mod_eq_of_lt hn

theorem Filled.climb_ok {k : Nat} {s : MerkleState} (hs : Filled hashPair leaves k s)
    (hn : k + 1 < 2 ^ 32) (pbranch : Bool) (h : uint256) (m fl : Bool) (b : List uint256) :
    ∃ c', propagate hashPair pbranch true ((s.count + 1) % 2 ^ 32) s.inner s.matchlevel
      ⟨0, h, m, fl, b⟩ = .ok c' := by
  rw [hs.count_succ hn]
  apply propagate_ok
  obtain ⟨μ, hμ, hbit⟩ := exists_bit_of_pos (Nat.succ_pos k) hn
  exact ⟨μ, Nat.zero_le μ, hμ, hbit⟩

theorem up_of_left {p T μ : Nat} (hb : T / 2 ^ μ % 2 = 0) (h : p / 2 ^ μ + 2 = T / 2 ^ μ) :
    p / 2 ^ (μ + 1) + 1 = T / 2 ^ (μ + 1) := by
  rw [div_two_pow_succ, div_two_pow_succ T]
  exact (half_add_one_iff hb).mpr (Or.inl h)

theorem Filled.store {k : Nat} {s : MerkleState} (hs : Filled hashPair leaves k s)
    (hk : k < leaves.length) (hn : k + 1 < 2 ^ 32) (pbranch m : Bool) {c : Climb}
    (hc : propagate hashPair pbranch true ((s.count + 1) % 2 ^ 32) s.inner s.matchlevel
      ⟨0, leaves[k], m, s.mutated, s.branch⟩ = .ok c) :
    Filled hashPair leaves (k + 1) (storeClimb s c) := by
  rw [hs.count_succ hn] at hc
  have hin := hs.neighbours hk
  have hf0 : Flagged hashPair leaves (k + 1) (s.mutated = true)
      ⟨0, leaves[k], m, s.mutated, s.branch⟩ := by
    unfold Flagged
    simp
  obtain ⟨⟨hroot, hflag⟩, hodd⟩ := propagate_inv hashPair pbranch true (k + 1) s.inner s.matchlevel
    (fun d => Rooted hashPair leaves (k + 1) 0 d ∧
      Flagged hashPair leaves (k + 1) (s.mutated = true) d)
    (fun _ hd _ hb => ⟨rooted_step (Nat.succ_pos k) hin pbranch true s.matchlevel hd.1 hb,
      flagged_step hin pbranch s.matchlevel hd.1 hd.2 hb⟩)
    ⟨rooted_leaf hk m s.mutated s.branch, hf0⟩ hc
  have hclear := propagate_clear hashPair pbranch true (k + 1) s.inner s.matchlevel hc
  constructor
  · exact hs.count_succ hn
  · intro L hL
    show Function.update s.inner c.level c.h L = _
    rcases Nat.lt_trichotomy L c.level with hlt | rfl | hgt
    · have := hclear L (Nat.zero_le L) hlt
      omega
    · rw [Function.update_self]
      exact hroot.h_eq
    · rw [succ_div_above hroot.dvd hodd hgt] at hL ⊢
      rw [Function.update_of_ne (Nat.ne_of_gt hgt)]
      exact hs.inner_eq L hL
  · unfold Flagged at hflag
    show c.mutated = true ↔ _
    rw [hflag, hs.mutated_iff]
    constructor
    · rintro (⟨L, j, hle, he⟩ | ⟨μ, hμ, he⟩)
      · exact ⟨L, j, by omega, he⟩
      · have hb := hclear μ (Nat.zero_le μ) hμ
        have hq := two_le_div_of_even (Nat.succ_pos k) (mod_two_pow_of_le hroot.dvd hμ.le) hb
        have hj : (k + 1) / 2 ^ μ = 2 * ((k + 1) / 2 ^ μ / 2 - 1) + 2 ∧
            2 * ((k + 1) / 2 ^ μ / 2 - 1) = (k + 1) / 2 ^ μ - 2 ∧
            (k + 1) / 2 ^ μ - 2 + 1 = (k + 1) / 2 ^ μ - 1 := by
          generalize (k + 1) / 2 ^ μ = q at hb hq ⊢
          omega
        refine ⟨μ, (k + 1) / 2 ^ μ / 2 - 1,
          ((pair_end_iff hroot.dvd hodd).mpr ⟨hμ, hj.1⟩).le, ?_⟩
        rw [hj.2.1, hj.2.2]
        exact he
    · rintro ⟨L, j, hle, he⟩
      rcases Nat.lt_or_ge k ((2 * j + 2) * 2 ^ L) with hgt | hle'
      · have hend : (2 * j + 2) * 2 ^ L = k + 1 := by omega
        obtain ⟨hL, hdiv⟩ := (pair_end_iff hroot.dvd hodd).mp hend
        refine Or.inr ⟨L, hL, ?_⟩
        rw [hdiv, show 2 * j + 2 - 2 = 2 * j by omega, show 2 * j + 2 - 1 = 2 * j + 1 by omega]
        exact he
      · exact Or.inl ⟨L, j, hle', he⟩

theorem Tracked.store {p k : Nat} {s : MerkleState} (hs : Filled hashPair leaves k s)
    (ht : Tracked hashPair leaves p k s) (hk : k < leaves.length) (hn : k + 1 < 2 ^ 32)
    {c : Climb}
    (hc : propagate hashPair true true ((s.count + 1) % 2 ^ 32) s.inner s.matchlevel
      ⟨0, leaves[k], s.count == p, s.mutated, s.branch⟩ = .ok c) :
    Tracked hashPair leaves p (k + 1) (storeClimb s c) := by
  rw [hs.count_succ hn] at hc
  have hin := hs.neighbours hk
  have hst : StoredBranch hashPair leaves p (k + 1) 0 s.matchlevel s.branch := by
    intro μ _ hdvd hb
    have hsucc : (k + 1) / 2 ^ μ = k / 2 ^ μ + 1 :=
      Nat.succ_div_of_dvd (Nat.dvd_of_mod_eq_zero hdvd)
    refine ⟨?_, ht.branch_of_eq⟩
    rw [ht.matchlevel_eq_iff μ, StoredAt, hsucc]
    rw [hsucc] at hb
    generalize k / 2 ^ μ = a at hb ⊢
    generalize p / 2 ^ μ = r
    omega
  have hr0 : Rooted hashPair leaves (k + 1) 0 ⟨0, leaves[k], s.count == p, s.mutated, s.branch⟩ :=
    rooted_leaf hk _ _ _
  have ho0 : OnPath hashPair leaves p (k + 1) s.branch
      ⟨0, leaves[k], s.count == p, s.mutated, s.branch⟩ := by
    constructor
    · show (s.count == p) = true ↔ p / 2 ^ 0 + 1 = (k + 1) / 2 ^ 0
      rw [beq_iff_eq, hs.count_eq, Nat.pow_zero, Nat.div_one, Nat.div_one]
      omega
    · intro hm
      have hkp : s.count = p := beq_iff_eq.mp hm
      rw [hs.count_eq] at hkp
      exact (ht.before (by omega)).2
    · intro _
      rfl
  have ho := propagate_onPath (Nat.succ_pos k) hin hst true hr0 ho0 hc
  obtain ⟨hroot, hodd⟩ := propagate_rooted (Nat.succ_pos k) hin true true s.matchlevel hr0 hc
  have hclear := propagate_clear hashPair true true (k + 1) s.inner s.matchlevel hc
  constructor
  · intro hle
    have hnot : c.matchh = false := by
      cases hm : c.matchh with
      | false => rfl
      | true =>
        have hlt : p < k + 1 := Nat.lt_of_div_lt_div (Nat.lt_of_succ_le (ho.matchh_iff.mp hm).le)
        omega
    show (if c.matchh = true then (c.level : Int) else s.matchlevel) = -1 ∧ c.branch = []
    rw [hnot, if_neg Bool.false_ne_true, ho.of_not_match hnot]
    exact ht.before (by omega)
  · intro hlt
    show ∃ L : Nat, (if c.matchh = true then (c.level : Int) else s.matchlevel) = L ∧
      StoredAt (k + 1) p L ∧ c.branch = (List.range L).map (pathSibling hashPair leaves p)
    cases hm : c.matchh with
    | true => exact ⟨c.level, rfl, ⟨hodd, ho.matchh_iff.mp hm⟩, ho.of_match hm⟩
    | false =>
      have hpk : p < k := by
        rcases Nat.lt_or_ge p k with h | h
        · exact h
        · obtain rfl : p = k := by omega
          have := ho.matchh_iff.mpr (Nat.succ_div_of_dvd (Nat.dvd_of_mod_eq_zero hroot.dvd)).symm
          rw [hm] at this
          cases this
      obtain ⟨M, hM, hstM, hbM⟩ := ht.after hpk
      refine ⟨M, by rw [if_neg Bool.false_ne_true]; exact hM, ?_, by rw [ho.of_not_match hm, hbM]⟩
      rcases Nat.lt_trichotomy M c.level with hlt' | heq | hgt
      · have hdvd := mod_two_pow_of_le hroot.dvd hlt'.le
        have hsucc : (k + 1) / 2 ^ M = k / 2 ^ M + 1 :=
          Nat.succ_div_of_dvd (Nat.dvd_of_mod_eq_zero hdvd)
        have hleft : p / 2 ^ M + 2 = (k + 1) / 2 ^ M := by
          rw [hsucc, ← hstM.2]
        have hup := last_block_lift hroot.dvd hlt'
          (up_of_left (hclear M (Nat.zero_le M) hlt') hleft)
        rw [← ho.matchh_iff, hm] at hup
        cases hup
      · rw [heq] at hstM
        have hsucc : (k + 1) / 2 ^ c.level = k / 2 ^ c.level + 1 :=
          Nat.succ_div_of_dvd (Nat.dvd_of_mod_eq_zero hroot.dvd)
        have h1 := hstM.1
        rw [hsucc] at hodd
        generalize k / 2 ^ c.level = a at h1 hodd
        omega
      · rw [StoredAt, succ_div_above hroot.dvd hodd hgt]
        exact hstM

variable (hashPair leaves)

theorem processLeaves_filled (hn : leaves.length < 2 ^ 32) (pbranch : Bool) (branchpos : Nat) :
    ∃ s, processLeaves hashPair pbranch branchpos leaves initialState = .ok s ∧
      Filled hashPair leaves leaves.length s := by
  have h := processLeaves_run hashPair pbranch leaves branchpos (Filled hashPair leaves)
    (fun k s hk hs => by
      obtain ⟨c, hc⟩ := hs.climb_ok (by omega) pbranch leaves[k] (s.count == branchpos)
        s.mutated s.branch
      exact ⟨c, hc, hs.store hk (by omega) pbranch _ hc⟩)
    (Nat.zero_le _) (filled_initial hashPair leaves)
  rwa [List.drop_zero] at h

theorem processLeaves_tracked (hn : leaves.length < 2 ^ 32) (p : Nat) :
    ∃ s, processLeaves hashPair true p leaves initialState = .ok s ∧
      Filled hashPair leaves leaves.length s ∧ Tracked hashPair leaves p leaves.length s := by
  have h := processLeaves_run hashPair true leaves p
    (fun k s => Filled hashPair leaves k s ∧ Tracked hashPair leaves p k s)
    (fun k s hk hs => by
      obtain ⟨c, hc⟩ := hs.1.climb_ok (by omega) true leaves[k] (s.count == p) s.mutated s.branch
      exact ⟨c, hc, hs.1.store hk (by omega) true _ hc, Tracked.store hs.1 hs.2 hk (by omega) hc⟩)
    (Nat.zero_le _) ⟨filled_initial hashPair leaves, tracked_initial hashPair leaves p⟩
  rwa [List.drop_zero] at h

end FirstLoop

theorem add_two_pow_le {T ℓ m : Nat} (hT : T % 2 ^ ℓ = 0) (hle : ℓ ≤ m) (hlt : T < 2 ^ m) :
    T + 2 ^ ℓ ≤ 2 ^ m := by
  obtain ⟨x, rfl⟩ := Nat.dvd_of_mod_eq_zero hT
  have hm : 2 ^ m = 2 ^ ℓ * 2 ^ (m - ℓ) := by rw [← Nat.pow_add, Nat.add_sub_cancel' hle]
  rw [hm] at hlt ⊢
  have hx : x < 2 ^ (m - ℓ) := Nat.lt_of_mul_lt_mul_left hlt
  calc 2 ^ ℓ * x + 2 ^ ℓ = 2 ^ ℓ * (x + 1) := by rw [Nat.mul_succ]
    _ ≤ 2 ^ ℓ * 2 ^ (m - ℓ) := Nat.mul_le_mul_left _ hx

section Sweep

variable (hashPair : uint256 → uint256 → uint256) (leaves : List uint256)

/-- The sweep at count `T`: the leaves rounded up to a multiple of the block, an odd number of
blocks, with `h` the last node of its level. -/
structure Swept (T : Nat) (c : Climb) : Prop where
  level_lt : c.level < 32
  count_lt : T < 2 ^ 32
  dvd : T % 2 ^ c.level = 0
  le : leaves.length ≤ T
  lt : T < leaves.length + 2 ^ c.level
  odd : T / 2 ^ c.level % 2 = 1
  h_eq : c.h = padRoot hashPair c.level (block c.level (T / 2 ^ c.level - 1) leaves)
  lt_two : 2 ^ c.level < 2 * leaves.length

variable {hashPair leaves}

theorem swept_start {s : MerkleState} (hs : Filled hashPair leaves leaves.length s)
    (hn : leaves.length < 2 ^ 32) {L : Nat} (hL : L < 32) (hodd : leaves.length / 2 ^ L % 2 = 1)
    (hclear : ∀ μ < L, leaves.length / 2 ^ μ % 2 = 0) (m : Bool) :
    Swept hashPair leaves leaves.length ⟨L, s.inner L, m, s.mutated, s.branch⟩ := by
  have hdvd := mod_two_pow_eq_zero_of_clear hclear
  have hpos : 0 < leaves.length := by
    rcases Nat.eq_zero_or_pos leaves.length with h | h
    · rw [h, Nat.zero_div] at hodd
      cases hodd
    · exact h
  have hle : 2 ^ L ≤ leaves.length := Nat.le_of_dvd hpos (Nat.dvd_of_mod_eq_zero hdvd)
  have hlt : leaves.length < leaves.length + 2 ^ L := by
    have : 0 < 2 ^ L := Nat.two_pow_pos _
    omega
  have hlt2 : 2 ^ L < 2 * leaves.length := by omega
  exact ⟨hL, hn, hdvd, Nat.le_refl _, hlt, hodd, hs.inner_eq L hodd, hlt2⟩

theorem Swept.two_pow_succ_lt {T : Nat} {c : Climb} (hw : Swept hashPair leaves T c)
    (hne : T ≠ 2 ^ c.level) : 2 ^ (c.level + 1) < leaves.length := by
  have hT : T / 2 ^ c.level * 2 ^ c.level = T := Nat.div_mul_cancel (Nat.dvd_of_mod_eq_zero hw.dvd)
  have hq : 3 ≤ T / 2 ^ c.level := by
    have h1 : T / 2 ^ c.level ≠ 1 := fun h => hne (by rw [← hT, h, Nat.one_mul])
    have h2 := hw.odd
    generalize T / 2 ^ c.level = q at h1 h2 ⊢
    omega
  have h3 : 3 * 2 ^ c.level ≤ T := hT ▸ Nat.mul_le_mul_right _ hq
  have := hw.lt
  rw [two_pow_succ_eq]
  omega

theorem Swept.last_above {T μ : Nat} {c : Climb} (hw : Swept hashPair leaves T c)
    (hμ : c.level + 1 ≤ μ) (hdvd : (T + 2 ^ c.level) % 2 ^ μ = 0) :
    leaves.length / 2 ^ μ + 1 = (T + 2 ^ c.level) / 2 ^ μ := by
  have hpow : 2 ^ (c.level + 1) ≤ 2 ^ μ := Nat.pow_le_pow_right (by decide) hμ
  rw [two_pow_succ_eq] at hpow
  rw [div_add_one_eq_iff hdvd]
  have := hw.lt
  have := hw.le
  have : 0 < 2 ^ c.level := Nat.two_pow_pos _
  omega

theorem Swept.neighbours {T : Nat} {c : Climb} {s : MerkleState}
    (hs : Filled hashPair leaves leaves.length s) (hw : Swept hashPair leaves T c) :
    LeftNeighbours hashPair leaves (T + 2 ^ c.level) (c.level + 1) s.inner := by
  intro μ hμ hdvd hb
  have hlast := hw.last_above hμ hdvd
  have hodd : leaves.length / 2 ^ μ % 2 = 1 := by
    rw [← hlast] at hb
    generalize leaves.length / 2 ^ μ = a at hb ⊢
    omega
  constructor
  · rw [hs.inner_eq μ hodd, ← hlast]
    rfl
  · have hpow : 2 ^ (c.level + 1) ≤ 2 ^ μ := Nat.pow_le_pow_right (by decide) hμ
    rw [two_pow_succ_eq] at hpow
    rw [div_sub_one_mul hdvd]
    have := hw.lt
    have := hw.lt_two
    have : 0 < 2 ^ c.level := Nat.two_pow_pos _
    omega

theorem Swept.rooted_dup {T : Nat} {c : Climb} (hw : Swept hashPair leaves T c)
    (hne : T ≠ 2 ^ c.level) (pbranch : Bool) :
    Rooted hashPair leaves (T + 2 ^ c.level) (c.level + 1) (dupClimb hashPair pbranch c) := by
  have hq : (T + 2 ^ c.level) / 2 ^ c.level = T / 2 ^ c.level + 1 :=
    Nat.add_div_right _ (Nat.two_pow_pos _)
  have hT : T / 2 ^ c.level * 2 ^ c.level = T := Nat.div_mul_cancel (Nat.dvd_of_mod_eq_zero hw.dvd)
  constructor
  · rw [dupClimb_level]
  · rw [dupClimb_level, mod_two_pow_succ_iff, hq, Nat.add_mod_right]
    refine ⟨hw.dvd, ?_⟩
    have := hw.odd
    generalize T / 2 ^ c.level = q at this ⊢
    omega
  · rw [dupClimb_level, dupClimb_h, hw.h_eq, padRoot_dup hashPair hw.odd (by rw [hT]; exact hw.le),
      div_two_pow_succ, hq]
  · rw [dupClimb_level]
    have := hw.two_pow_succ_lt hne
    omega

theorem Swept.round {T : Nat} {c c' : Climb} {s : MerkleState}
    (hs : Filled hashPair leaves leaves.length s) (hw : Swept hashPair leaves T c)
    (hne : T ≠ 2 ^ c.level) (h32 : T + 2 ^ c.level < 2 ^ 32) (pbranch : Bool) (matchlevel : Int)
    (hc : propagate hashPair pbranch false (T + 2 ^ c.level) s.inner matchlevel
      (dupClimb hashPair pbranch c) = .ok c') :
    Swept hashPair leaves (T + 2 ^ c.level) c' := by
  have hpos : 0 < T + 2 ^ c.level := Nat.add_pos_right _ (Nat.two_pow_pos _)
  obtain ⟨hroot, hodd⟩ := propagate_rooted hpos (hw.neighbours hs) pbranch false matchlevel
    (hw.rooted_dup hne pbranch) hc
  have hlvl := propagate_level hashPair pbranch false _ s.inner matchlevel hc
  rw [dupClimb_level] at hlvl
  have hpow : 2 ^ (c.level + 1) ≤ 2 ^ c'.level := Nat.pow_le_pow_right (by decide) hlvl.1
  rw [two_pow_succ_eq] at hpow
  have hle : leaves.length ≤ T + 2 ^ c.level := Nat.le_add_right_of_le hw.le
  have hlt : T + 2 ^ c.level < leaves.length + 2 ^ c'.level := by
    have := hw.lt
    omega
  exact ⟨hlvl.2, h32, hroot.dvd, hle, hlt, hodd, hroot.h_eq, hroot.lt⟩

theorem Swept.round_ok {T : Nat} {c : Climb} (hw : Swept hashPair leaves T c)
    (hne : T ≠ 2 ^ c.level) (h32 : T + 2 ^ c.level < 2 ^ 32) (pbranch : Bool)
    (inner : Nat → uint256) (matchlevel : Int) :
    ∃ c', propagate hashPair pbranch false (T + 2 ^ c.level) inner matchlevel
      (dupClimb hashPair pbranch c) = .ok c' := by
  apply propagate_ok
  have hdvd := (hw.rooted_dup hne pbranch).dvd
  rw [dupClimb_level] at hdvd
  obtain ⟨μ, hμ, hbit⟩ := exists_bit_of_pos (by omega) h32
  refine ⟨μ, ?_, hμ, hbit⟩
  rw [dupClimb_level]
  refine Nat.le_of_not_lt fun hlt => ?_
  have := div_two_pow_even_of_lt hdvd hlt
  omega

theorem Swept.round_wrap {T : Nat} {c : Climb} (hw : Swept hashPair leaves T c)
    (h32 : 2 ^ 32 ≤ T + 2 ^ c.level) (pbranch : Bool) (inner : Nat → uint256) (matchlevel : Int) :
    propagate hashPair pbranch false ((T + 2 ^ c.level) % 2 ^ 32) inner matchlevel
      (dupClimb hashPair pbranch c) = .error shiftOutOfRange := by
  have hle := add_two_pow_le hw.dvd (Nat.le_of_lt hw.level_lt) hw.count_lt
  rw [show T + 2 ^ c.level = 2 ^ 32 by omega, Nat.mod_self]
  exact propagate_zero hashPair pbranch false inner matchlevel _

theorem Swept.exit {c : Climb} (hw : Swept hashPair leaves (2 ^ c.level) c) :
    leaves.length ≤ 2 ^ c.level ∧ c.h = padRoot hashPair c.level leaves ∧
      rootByLevels hashPair leaves = some c.h := by
  have hle := hw.le
  have hh : c.h = padRoot hashPair c.level leaves := by
    rw [hw.h_eq, Nat.div_self (Nat.two_pow_pos _), Nat.sub_self, block_zero_of_le hle]
  refine ⟨hle, hh, ?_⟩
  have hlt := hw.lt_two
  rw [hh]
  apply rootByLevels_eq_padRoot hashPair _ hle
  · rcases Nat.eq_zero_or_pos c.level with h0 | hpos
    · exact Or.inl h0
    · right
      have : 2 ^ c.level = 2 * 2 ^ (c.level - 1) := by
        rw [← two_pow_succ_eq, Nat.sub_add_cancel hpos]
      omega
  · have : 0 < 2 ^ c.level := Nat.two_pow_pos _
    omega

theorem Swept.round_lt {T : Nat} {c : Climb} (hw : Swept hashPair leaves T c)
    (hn : leaves.length ≤ 2 ^ 31) (hne : T ≠ 2 ^ c.level) : T + 2 ^ c.level < 2 ^ 32 := by
  have := hw.lt
  have := hw.two_pow_succ_lt hne
  rw [two_pow_succ_eq] at this
  omega

theorem Swept.onPath_dup {p T : Nat} {c : Climb} {B0 : List uint256}
    (hw : Swept hashPair leaves T c) (hp : p < leaves.length)
    (ho : OnPath hashPair leaves p T B0 c) :
    OnPath hashPair leaves p (T + 2 ^ c.level) B0 (dupClimb hashPair true c) := by
  have hq : (T + 2 ^ c.level) / 2 ^ c.level = T / 2 ^ c.level + 1 :=
    Nat.add_div_right _ (Nat.two_pow_pos _)
  have hT : T / 2 ^ c.level * 2 ^ c.level = T := Nat.div_mul_cancel (Nat.dvd_of_mod_eq_zero hw.dvd)
  have hlt : p / 2 ^ c.level < T / 2 ^ c.level :=
    Nat.div_lt_div_of_lt_of_dvd (Nat.dvd_of_mod_eq_zero hw.dvd) (by have := hw.le; omega)
  have hodd := hw.odd
  constructor
  · rw [dupClimb_matchh, dupClimb_level, ho.matchh_iff, div_two_pow_succ,
      div_two_pow_succ (T + 2 ^ c.level), hq]
    generalize p / 2 ^ c.level = r at hlt ⊢
    generalize T / 2 ^ c.level = q at hlt hodd ⊢
    omega
  · intro hm
    rw [dupClimb_matchh] at hm
    have hr := ho.matchh_iff.mp hm
    have heven : p / 2 ^ c.level % 2 = 0 := by
      rw [← hr] at hodd
      generalize p / 2 ^ c.level = r at hodd ⊢
      omega
    have hsib : pathSibling hashPair leaves p c.level = c.h := by
      rw [pathSibling_of_even_ge hashPair heven (by rw [hr, hT]; exact hw.le), hw.h_eq, ← hr]
      rfl
    rw [dupClimb_branch, dupClimb_level, hm, Bool.true_and, if_pos rfl, ho.of_match hm,
      List.range_succ, List.map_append, List.map_singleton, hsib]
  · intro hm
    rw [dupClimb_matchh] at hm
    rw [dupClimb_branch, hm, Bool.true_and, if_neg Bool.false_ne_true, ho.of_not_match hm]

theorem Swept.stored {p T : Nat} {c : Climb} {s : MerkleState} (hw : Swept hashPair leaves T c)
    (ht : Tracked hashPair leaves p leaves.length s) :
    StoredBranch hashPair leaves p (T + 2 ^ c.level) (c.level + 1) s.matchlevel s.branch := by
  intro μ hμ hdvd hb
  have hlast := hw.last_above hμ hdvd
  refine ⟨?_, ht.branch_of_eq⟩
  rw [ht.matchlevel_eq_iff μ, StoredAt, ← hlast]
  rw [← hlast] at hb
  generalize leaves.length / 2 ^ μ = a at hb ⊢
  generalize p / 2 ^ μ = r
  omega

theorem onPath_start {p L : Nat} {s : MerkleState} (ht : Tracked hashPair leaves p leaves.length s)
    (hodd : leaves.length / 2 ^ L % 2 = 1) :
    OnPath hashPair leaves p leaves.length s.branch
      ⟨L, s.inner L, s.matchlevel == L, s.mutated, s.branch⟩ := by
  constructor
  · show (s.matchlevel == L) = true ↔ p / 2 ^ L + 1 = leaves.length / 2 ^ L
    rw [beq_iff_eq, ht.matchlevel_eq_iff L, StoredAt]
    exact and_iff_right hodd
  · intro hm
    exact ht.branch_of_eq (beq_iff_eq.mp hm)
  · intro _
    rfl

variable (hashPair leaves)

theorem sweep_swept {s : MerkleState} (hs : Filled hashPair leaves leaves.length s)
    (hn : leaves.length ≤ 2 ^ 31) (pbranch : Bool) (matchlevel : Int) {T : Nat} {c : Climb}
    (hw : Swept hashPair leaves T c) :
    ∃ c', sweep hashPair pbranch s.inner matchlevel T c = .ok c' ∧
      Swept hashPair leaves (2 ^ c'.level) c' := by
  apply sweep_run hashPair pbranch s.inner matchlevel (Swept hashPair leaves) _
    (fun _ _ hw => hw.level_lt) T c hw
  intro T c hw _ hne
  have h32 := hw.round_lt hn hne
  rw [Nat.mod_eq_of_lt h32]
  obtain ⟨c', hc⟩ := hw.round_ok hne h32 pbranch s.inner matchlevel
  exact ⟨c', hc, hw.round hs hne h32 pbranch matchlevel hc⟩

theorem sweep_shift_out_of_range {s : MerkleState} (hs : Filled hashPair leaves leaves.length s)
    (hn : 2 ^ 31 < leaves.length) (pbranch : Bool) (matchlevel : Int) {T : Nat} {c : Climb}
    (hw : Swept hashPair leaves T c) :
    sweep hashPair pbranch s.inner matchlevel T c = .error shiftOutOfRange := by
  apply sweep_error hashPair pbranch s.inner matchlevel (Swept hashPair leaves) _ _
    (fun _ _ hw => hw.level_lt) T c hw
  · intro T c hw _ hne
    rcases Nat.lt_or_ge (T + 2 ^ c.level) (2 ^ 32) with h32 | h32
    · right
      rw [Nat.mod_eq_of_lt h32]
      obtain ⟨c', hc⟩ := hw.round_ok hne h32 pbranch s.inner matchlevel
      exact ⟨c', hc, hw.round hs hne h32 pbranch matchlevel hc⟩
    · exact Or.inl (hw.round_wrap h32 pbranch s.inner matchlevel)
  · intro T c hw heq
    have hpow : 2 ^ c.level ≤ 2 ^ 31 := Nat.pow_le_pow_right (by decide) (by have := hw.level_lt; omega)
    have := hw.le
    omega

theorem sweep_path {p : Nat} {s : MerkleState} (hs : Filled hashPair leaves leaves.length s)
    (ht : Tracked hashPair leaves p leaves.length s) (hp : p < leaves.length)
    (hn : leaves.length ≤ 2 ^ 31) {T : Nat} {c : Climb} (hw : Swept hashPair leaves T c)
    (ho : OnPath hashPair leaves p T s.branch c) :
    ∃ c', sweep hashPair true s.inner s.matchlevel T c = .ok c' ∧
      Swept hashPair leaves (2 ^ c'.level) c' ∧
      OnPath hashPair leaves p (2 ^ c'.level) s.branch c' := by
  apply sweep_run hashPair true s.inner s.matchlevel
    (fun T c => Swept hashPair leaves T c ∧ OnPath hashPair leaves p T s.branch c) _
    (fun _ _ h => h.1.level_lt) T c ⟨hw, ho⟩
  rintro T c ⟨hw, ho⟩ _ hne
  have h32 := hw.round_lt hn hne
  rw [Nat.mod_eq_of_lt h32]
  obtain ⟨c', hc⟩ := hw.round_ok hne h32 true s.inner s.matchlevel
  have hpos : 0 < T + 2 ^ c.level := Nat.add_pos_right _ (Nat.two_pow_pos _)
  exact ⟨c', hc, hw.round hs hne h32 true s.matchlevel hc,
    propagate_onPath hpos (hw.neighbours hs) (hw.stored ht) false (hw.rooted_dup hne true)
      (hw.onPath_dup hp ho) hc⟩

end Sweep

section Results

variable (hashPair : uint256 → uint256 → uint256) (leaves : List uint256)

theorem lowestSetLevel_start {s : MerkleState} (hs : Filled hashPair leaves leaves.length s)
    (h₁ : 0 < leaves.length) (hn : leaves.length < 2 ^ 32) :
    ∃ L, lowestSetLevel s.count 0 = .ok L ∧ L < 32 ∧ leaves.length / 2 ^ L % 2 = 1 ∧
      ∀ μ < L, leaves.length / 2 ^ μ % 2 = 0 := by
  rw [hs.count_eq]
  apply lowestSetLevel_spec 0 (fun μ h => absurd h (Nat.not_lt_zero μ))
  obtain ⟨μ, hμ, hbit⟩ := exists_bit_of_pos h₁ hn
  exact ⟨μ, Nat.zero_le μ, hμ, hbit⟩

theorem merkleComputation_root (h₁ : 1 ≤ leaves.length) (h₂ : leaves.length ≤ 2 ^ 31)
    (pbranch : Bool) (branchpos : Nat) :
    ∃ root mutated branch,
      merkleComputation hashPair pbranch leaves branchpos = .ok (root, mutated, branch) ∧
      rootByLevels hashPair leaves = some root ∧
      (mutated = true ↔ ∃ L j, (2 * j + 2) * 2 ^ L ≤ leaves.length ∧
        padRoot hashPair L (block L (2 * j) leaves) =
          padRoot hashPair L (block L (2 * j + 1) leaves)) := by
  have hn : leaves.length < 2 ^ 32 := by omega
  obtain ⟨s, hproc, hs⟩ := processLeaves_filled hashPair leaves hn pbranch branchpos
  obtain ⟨L, hlow, hL, hodd, hclear⟩ := lowestSetLevel_start hashPair leaves hs h₁ hn
  have hw := swept_start hs hn hL hodd hclear (s.matchlevel == L)
  obtain ⟨c, hsweep, hexit⟩ := sweep_swept hashPair leaves hs h₂ pbranch s.matchlevel hw
  rw [← hs.count_eq] at hsweep
  exact ⟨c.h, s.mutated, c.branch,
    merkleComputation_of_ok hashPair pbranch (by omega) hproc hlow hsweep,
    hexit.exit.2.2, hs.mutated_iff⟩

theorem merkleComputation_branch (h₂ : leaves.length ≤ 2 ^ 31) {p : Nat}
    (hp : p < leaves.length) :
    ∃ d root mutated,
      merkleComputation hashPair true leaves p =
        .ok (root, mutated, (List.range d).map (pathSibling hashPair leaves p)) ∧
      leaves.length ≤ 2 ^ d ∧ root = padRoot hashPair d leaves ∧
      rootByLevels hashPair leaves = some root := by
  have hn : leaves.length < 2 ^ 32 := by omega
  obtain ⟨s, hproc, hs, ht⟩ := processLeaves_tracked hashPair leaves hn p
  obtain ⟨L, hlow, hL, hodd, hclear⟩ := lowestSetLevel_start hashPair leaves hs (by omega) hn
  obtain ⟨c, hsweep, hexit, ho⟩ := sweep_path hashPair leaves hs ht hp h₂
    (swept_start hs hn hL hodd hclear (s.matchlevel == L)) (onPath_start ht hodd)
  rw [← hs.count_eq] at hsweep
  obtain ⟨hle, hroot, hlevels⟩ := hexit.exit
  have hm : c.matchh = true := by
    rw [ho.matchh_iff, Nat.div_self (Nat.two_pow_pos _), Nat.div_eq_of_lt (by omega)]
  refine ⟨c.level, c.h, s.mutated, ?_, hle, hroot, hlevels⟩
  rw [← ho.of_match hm]
  exact merkleComputation_of_ok hashPair true (by omega) hproc hlow hsweep

theorem merkleComputation_shift_out_of_range (h₁ : 2 ^ 31 < leaves.length)
    (h₂ : leaves.length < 2 ^ 32) (pbranch : Bool) (branchpos : Nat) :
    merkleComputation hashPair pbranch leaves branchpos = .error shiftOutOfRange := by
  obtain ⟨s, hproc, hs⟩ := processLeaves_filled hashPair leaves h₂ pbranch branchpos
  obtain ⟨L, hlow, hL, hodd, hclear⟩ := lowestSetLevel_start hashPair leaves hs (by omega) h₂
  have hsweep := sweep_shift_out_of_range hashPair leaves hs h₁ pbranch s.matchlevel
    (swept_start hs h₂ hL hodd hclear (s.matchlevel == L))
  rw [← hs.count_eq] at hsweep
  exact merkleComputation_of_error hashPair pbranch (by omega) hproc hlow hsweep

theorem iterate_pairUp_pair_iff {L j : Nat} (h : (2 * j + 2) * 2 ^ L ≤ leaves.length) :
    ((pairUp hashPair)^[L] leaves)[2 * j]? = ((pairUp hashPair)^[L] leaves)[2 * j + 1]? ↔
      padRoot hashPair L (block L (2 * j) leaves) =
        padRoot hashPair L (block L (2 * j + 1) leaves) := by
  have hB : 0 < 2 ^ L := Nat.two_pow_pos L
  have h1 : (2 * j + 2) * 2 ^ L = (2 * j + 1) * 2 ^ L + 2 ^ L := Nat.succ_mul _ _
  have h0 : (2 * j + 1) * 2 ^ L = 2 * j * 2 ^ L + 2 ^ L := Nat.succ_mul _ _
  rw [getElem?_iterate_pairUp hashPair leaves L (2 * j) (by omega),
    getElem?_iterate_pairUp hashPair leaves L (2 * j + 1) (by omega), Option.some.injEq]

theorem computeMerkleRoot_nil : computeMerkleRoot hashPair [] = .ok (nullHash, false) := rfl

/-- `ComputeMerkleRoot`, `ComputeMerkleBranch` and `ComputeMerkleRootFromBranch` against the tree
of levels, for up to `2 ^ 31` leaves. -/
theorem merkle_root_and_branches :
    computeMerkleRoot hashPair [] = .ok (nullHash, false) ∧
    ∀ leaves : List uint256, 1 ≤ leaves.length → leaves.length ≤ 2 ^ 31 →
      ∃ root mutated, computeMerkleRoot hashPair leaves = .ok (root, mutated) ∧
        rootByLevels hashPair leaves = some root ∧
        (mutated = true ↔ ∃ level j, (2 * j + 2) * 2 ^ level ≤ leaves.length ∧
          ((pairUp hashPair)^[level] leaves)[2 * j]? =
            ((pairUp hashPair)^[level] leaves)[2 * j + 1]?) ∧
        ∀ p (hp : p < leaves.length), ∃ branch,
          computeMerkleBranch hashPair leaves p = .ok branch ∧
          computeMerkleRootFromBranch hashPair leaves[p] branch p = root := by
  refine ⟨computeMerkleRoot_nil hashPair, fun leaves h₁ h₂ => ?_⟩
  obtain ⟨root, mutated, branch, hmc, hroot, hmut⟩ :=
    merkleComputation_root hashPair leaves h₁ h₂ false (2 ^ 32 - 1)
  refine ⟨root, mutated, ?_, hroot, ?_, fun p hp => ?_⟩
  · rw [computeMerkleRoot, hmc]
    rfl
  · rw [hmut]
    constructor
    · rintro ⟨L, j, hle, he⟩
      exact ⟨L, j, hle, (iterate_pairUp_pair_iff hashPair leaves hle).mpr he⟩
    · rintro ⟨L, j, hle, he⟩
      exact ⟨L, j, hle, (iterate_pairUp_pair_iff hashPair leaves hle).mp he⟩
  · obtain ⟨d, root', mutated', hmb, hle, hpad, hroot'⟩ :=
      merkleComputation_branch hashPair leaves h₂ hp
    refine ⟨(List.range d).map (pathSibling hashPair leaves p), ?_, ?_⟩
    · rw [computeMerkleBranch, hmb]
      rfl
    · have hsame : root = root' := Option.some.inj (hroot.symm.trans hroot')
      rw [computeMerkleRootFromBranch_eq_climbPath, climbPath_path hashPair hp hle, hsame, hpad]

def keepLeft (a _ : uint256) : uint256 := a

def sampleLeaves : List uint256 := [nullHash, nullHash, nullHash]

theorem merkle_root_and_branches_sample :
    1 ≤ sampleLeaves.length ∧ sampleLeaves.length ≤ 2 ^ 31 ∧
    ∃ root mutated, computeMerkleRoot keepLeft sampleLeaves = .ok (root, mutated) ∧
      rootByLevels keepLeft sampleLeaves = some root ∧
      (mutated = true ↔ ∃ level j, (2 * j + 2) * 2 ^ level ≤ sampleLeaves.length ∧
        ((pairUp keepLeft)^[level] sampleLeaves)[2 * j]? =
          ((pairUp keepLeft)^[level] sampleLeaves)[2 * j + 1]?) ∧
      ∀ p (hp : p < sampleLeaves.length), ∃ branch,
        computeMerkleBranch keepLeft sampleLeaves p = .ok branch ∧
        computeMerkleRootFromBranch keepLeft sampleLeaves[p] branch p = root :=
  have h₁ : 1 ≤ sampleLeaves.length := by decide
  have h₂ : sampleLeaves.length ≤ 2 ^ 31 := by decide
  ⟨h₁, h₂, (merkle_root_and_branches keepLeft).2 sampleLeaves h₁ h₂⟩

theorem computeMerkleRoot_wide_undefined (h₁ : 2 ^ 31 < leaves.length)
    (h₂ : leaves.length < 2 ^ 32) :
    computeMerkleRoot hashPair leaves = .error shiftOutOfRange := by
  rw [computeMerkleRoot,
    merkleComputation_shift_out_of_range hashPair leaves h₁ h₂ false (2 ^ 32 - 1)]
  rfl

theorem computeMerkleRoot_undefined_above_two_pow_31 :
    2 ^ 31 < (List.replicate (2 ^ 31 + 1) nullHash).length ∧
    (List.replicate (2 ^ 31 + 1) nullHash).length < 2 ^ 32 ∧
    computeMerkleRoot keepLeft (List.replicate (2 ^ 31 + 1) nullHash) = .error shiftOutOfRange :=
  have h₁ : 2 ^ 31 < (List.replicate (2 ^ 31 + 1) nullHash).length := by
    rw [List.length_replicate]
    omega
  have h₂ : (List.replicate (2 ^ 31 + 1) nullHash).length < 2 ^ 32 := by
    rw [List.length_replicate]
    omega
  ⟨h₁, h₂, computeMerkleRoot_wide_undefined keepLeft _ h₁ h₂⟩

end Results

end TbcNode.Consensus
