import TbcNode.Consensus.MerkleBlock
import TbcNode.Consensus.MerkleRoot

/-! # The matches of a partial Merkle tree

From at most `2 ^ 31` ids, `ExtractMatches` accepts the serialized tree and returns the Merkle root
and the matched ids in order, when siblings have different hashes; whatever tree it accepts, every
pair it returns climbs to the root it returns (`traverseAndExtract_climbs`).
-/

namespace TbcNode.Consensus

open TbcNode.Logic TbcNode.Primitives

/-! ### Widths and the height -/

theorem calcTreeWidth_le (n height : Nat) :
    calcTreeWidth n height ≤ (n + 2 ^ height - 1) / 2 ^ height := by
  rw [calcTreeWidth, Nat.shiftRight_eq_div_pow]
  exact Nat.div_le_div_right (Nat.mod_le _ _)

theorem calcTreeWidth_of_le {n height : Nat} (hn : n + 2 ^ height ≤ 2 ^ 32) :
    calcTreeWidth n height = (n + 2 ^ height - 1) / 2 ^ height := by
  have hB := Nat.two_pow_pos height
  rw [calcTreeWidth, Nat.shiftRight_eq_div_pow, Nat.mod_eq_of_lt (by omega)]

theorem lt_div_two_pow_iff {n height k : Nat} :
    k < (n + 2 ^ height - 1) / 2 ^ height ↔ k * 2 ^ height < n := by
  have hB := Nat.two_pow_pos height
  rw [← Nat.add_one_le_iff, Nat.le_div_iff_mul_le hB, Nat.add_mul, Nat.one_mul]
  omega

theorem mul_lt_of_lt_calcTreeWidth {n height k : Nat} (hk : k < calcTreeWidth n height) :
    k * 2 ^ height < n :=
  lt_div_two_pow_iff.mp (Nat.lt_of_lt_of_le hk (calcTreeWidth_le n height))

theorem lt_calcTreeWidth_iff {n height k : Nat} (hn : n + 2 ^ height ≤ 2 ^ 32) :
    k < calcTreeWidth n height ↔ k * 2 ^ height < n := by
  rw [calcTreeWidth_of_le hn, lt_div_two_pow_iff]

theorem no_wrap_of_succ {n height : Nat} (hn : n + 2 ^ (height + 1) ≤ 2 ^ 32) :
    n + 2 ^ height ≤ 2 ^ 32 := by
  have := Nat.pow_le_pow_right (n := 2) (by decide) (Nat.le_succ height)
  omega

theorem treeHeightFrom_spec (n m : Nat) :
    m ≤ treeHeightFrom n m ∧ ¬1 < calcTreeWidth n (treeHeightFrom n m) ∧
      ∀ k, m ≤ k → k < treeHeightFrom n m → 1 < calcTreeWidth n k := by
  fun_induction treeHeightFrom n m with
  | case1 m hw ih =>
    obtain ⟨hle, hstop, hbelow⟩ := ih
    refine ⟨by omega, hstop, fun k hk hlt => ?_⟩
    rcases Nat.eq_or_lt_of_le hk with rfl | hk'
    · exact hw
    · exact hbelow k hk' hlt
  | case2 m hw =>
    exact ⟨Nat.le_refl m, hw, fun k hk hlt => absurd hlt (Nat.not_lt.mpr hk)⟩

theorem treeHeightFrom_eq {n m H : Nat} (hmH : m ≤ H) (hstop : ¬1 < calcTreeWidth n H)
    (hbelow : ∀ k, m ≤ k → k < H → 1 < calcTreeWidth n k) : treeHeightFrom n m = H := by
  obtain ⟨hle, hstop', hbelow'⟩ := treeHeightFrom_spec n m
  rcases Nat.lt_trichotomy (treeHeightFrom n m) H with hlt | heq | hgt
  · exact absurd (hbelow _ hle hlt) hstop'
  · exact heq
  · exact absurd (hbelow' H hmH hgt) hstop

theorem treeHeight_spec {n : Nat} (h₁ : 1 ≤ n) (h₂ : n ≤ 2 ^ 31) :
    treeHeight n ≤ 31 ∧ n ≤ 2 ^ treeHeight n ∧
      (treeHeight n = 0 ∨ 2 ^ (treeHeight n - 1) < n) := by
  unfold treeHeight
  obtain ⟨-, hstop, hbelow⟩ := treeHeightFrom_spec n 0
  have hH : treeHeightFrom n 0 ≤ 31 := by
    by_contra hgt
    have h31 := hbelow 31 (Nat.zero_le _) (by omega)
    rw [lt_calcTreeWidth_iff (by omega)] at h31
    omega
  have hpow : 2 ^ treeHeightFrom n 0 ≤ 2 ^ 31 := Nat.pow_le_pow_right (by decide) hH
  refine ⟨hH, ?_, ?_⟩
  · rw [lt_calcTreeWidth_iff (by omega)] at hstop
    omega
  · rcases Nat.eq_zero_or_pos (treeHeightFrom n 0) with h0 | hpos
    · exact Or.inl h0
    · right
      have hbelowH := hbelow (treeHeightFrom n 0 - 1) (Nat.zero_le _) (by omega)
      have hpow' : 2 ^ (treeHeightFrom n 0 - 1) ≤ 2 ^ 31 :=
        Nat.pow_le_pow_right (by decide) (by omega)
      rw [lt_calcTreeWidth_iff (by omega)] at hbelowH
      omega

/-! ### Hashes of the nodes -/

section Hashes

variable (hashPair : uint256 → uint256 → uint256)

/-- Below `2 ^ 32` leaves with no width wrapping around, `CalcHash` is the root of the block of
leaves below the node. -/
theorem calcHash_eq_padRoot (l : List uint256) :
    ∀ height pos, l.length + 2 ^ height ≤ 2 ^ 32 → pos * 2 ^ height < l.length →
      calcHash hashPair l.length l height pos = padRoot hashPair height (block height pos l) := by
  intro height
  induction height with
  | zero =>
    intro pos _ hpos
    rw [Nat.pow_zero, Nat.mul_one] at hpos
    rw [calcHash_zero, List.getD_eq_getElem _ _ hpos, padRoot_block_zero hashPair hpos]
  | succ h ih =>
    intro pos hn hpos
    have hn' := no_wrap_of_succ hn
    have hleft : 2 * pos * 2 ^ h < l.length := by rwa [← block_offset]
    rw [calcHash_succ, padRoot_block_succ, Nat.mul_comm pos 2, ih (2 * pos) hn' hleft]
    by_cases hr : (2 * pos + 1) * 2 ^ h < l.length
    · rw [if_pos ((lt_calcTreeWidth_iff hn').mpr hr), if_pos hr, ih (2 * pos + 1) hn' hr]
    · rw [if_neg (mt (lt_calcTreeWidth_iff hn').mp hr), if_neg hr]

end Hashes

/-! ### The leaves below a node -/

theorem leavesBelow_eq (n height pos : Nat) :
    leavesBelow n height pos =
      List.range' (pos * 2 ^ height) (min ((pos + 1) * 2 ^ height) n - pos * 2 ^ height) := by
  rw [leavesBelow, Nat.shiftLeft_eq, Nat.shiftLeft_eq]

theorem leavesBelow_succ (n height pos : Nat) :
    leavesBelow n (height + 1) pos =
      leavesBelow n height (pos * 2) ++ leavesBelow n height (pos * 2 + 1) := by
  simp only [leavesBelow_eq]
  have hB := Nat.two_pow_pos height
  have e₁ : pos * 2 ^ (height + 1) = pos * 2 * 2 ^ height := by
    rw [Nat.pow_succ, Nat.mul_comm (2 ^ height) 2, Nat.mul_assoc]
  have e₂ : (pos + 1) * 2 ^ (height + 1) = (pos * 2 + 1 + 1) * 2 ^ height := by
    rw [Nat.pow_succ, Nat.mul_comm (2 ^ height) 2, ← Nat.mul_assoc, Nat.add_mul, Nat.one_mul]
  have e₃ : (pos * 2 + 1) * 2 ^ height = pos * 2 * 2 ^ height + 2 ^ height := by
    rw [Nat.add_mul, Nat.one_mul]
  have e₄ : (pos * 2 + 1 + 1) * 2 ^ height = pos * 2 * 2 ^ height + 2 ^ height + 2 ^ height := by
    rw [Nat.add_mul, e₃, Nat.one_mul]
  rw [e₁, e₂, e₄, e₃]
  generalize pos * 2 * 2 ^ height = s
  by_cases hs : s + 2 ^ height ≤ n
  · have hleft : min (s + 2 ^ height) n - s = 2 ^ height := by omega
    have happ := @List.range'_append s (2 ^ height)
      (min (s + 2 ^ height + 2 ^ height) n - (s + 2 ^ height)) 1
    rw [Nat.one_mul] at happ
    rw [hleft, happ]
    congr 1
    omega
  · have hnil : min (s + 2 ^ height + 2 ^ height) n - (s + 2 ^ height) = 0 := by omega
    rw [hnil, List.range'_zero, List.append_nil]
    congr 1
    omega

theorem leavesBelow_zero (n pos : Nat) :
    leavesBelow n 0 pos = if pos < n then [pos] else [] := by
  rw [leavesBelow_eq, Nat.pow_zero, Nat.mul_one, Nat.mul_one]
  split
  · rw [show min (pos + 1) n - pos = 1 by omega]
    rfl
  · rw [show min (pos + 1) n - pos = 0 by omega, List.range'_zero]

theorem leavesBelow_eq_nil {n height pos : Nat} (h : n ≤ pos * 2 ^ height) :
    leavesBelow n height pos = [] := by
  rw [leavesBelow_eq, List.range'_eq_nil_iff]
  omega

theorem length_leavesBelow (n height pos : Nat) :
    (leavesBelow n height pos).length = min ((pos + 1) * 2 ^ height) n - pos * 2 ^ height := by
  rw [leavesBelow_eq, List.length_range']

theorem leavesBelow_top {n height : Nat} (h : n ≤ 2 ^ height) :
    leavesBelow n height 0 = List.range n := by
  rw [leavesBelow_eq, Nat.zero_mul, Nat.zero_add, Nat.one_mul, Nat.sub_zero, Nat.min_eq_right h,
    List.range_eq_range']

/-- The matched leaves below the node `pos` at `height`, in increasing order. -/
def matchedBelow (n : Nat) (vMatch : List Bool) (height pos : Nat) : List Nat :=
  (leavesBelow n height pos).filter fun p => vMatch.getD p false

theorem matchedBelow_succ (n : Nat) (vMatch : List Bool) (height pos : Nat) :
    matchedBelow n vMatch (height + 1) pos =
      matchedBelow n vMatch height (pos * 2) ++ matchedBelow n vMatch height (pos * 2 + 1) := by
  rw [matchedBelow, leavesBelow_succ, List.filter_append]
  rfl

theorem matchedBelow_of_not_parent {n : Nat} {vMatch : List Bool} {height pos : Nat}
    (h : parentOfMatch n vMatch height pos = false) : matchedBelow n vMatch height pos = [] := by
  rw [parentOfMatch, List.any_eq_false] at h
  exact List.filter_eq_nil_iff.mpr h

theorem matchedBelow_zero_of_parent {n : Nat} {vMatch : List Bool} {pos : Nat}
    (h : parentOfMatch n vMatch 0 pos = true) : matchedBelow n vMatch 0 pos = [pos] := by
  rw [parentOfMatch, leavesBelow_zero] at h
  rw [matchedBelow, leavesBelow_zero]
  split at h
  · rw [if_pos ‹_›]
    simpa using h
  · simp at h

theorem matchedBelow_eq_nil {n : Nat} {vMatch : List Bool} {height pos : Nat}
    (h : n ≤ pos * 2 ^ height) : matchedBelow n vMatch height pos = [] := by
  rw [matchedBelow, leavesBelow_eq_nil h, List.filter_nil]

/-! ### The walk of the build -/

section Build

variable (hashPair : uint256 → uint256 → uint256) (vTxid : List uint256) (vMatch : List Bool)

theorem prefix_traverseAndBuild (height pos : Nat) (t : CPartialMerkleTree) :
    t.vBits <+: (traverseAndBuild hashPair vTxid vMatch height pos t).vBits ∧
      t.vHash <+: (traverseAndBuild hashPair vTxid vMatch height pos t).vHash := by
  induction height generalizing pos t with
  | zero =>
    rw [traverseAndBuild_stop hashPair vTxid vMatch (Or.inl rfl)]
    exact ⟨List.prefix_append _ _, List.prefix_append _ _⟩
  | succ h ih =>
    cases hf : parentOfMatch t.nTransactions vMatch (h + 1) pos with
    | false =>
      rw [traverseAndBuild_stop hashPair vTxid vMatch (Or.inr hf)]
      exact ⟨List.prefix_append _ _, List.prefix_append _ _⟩
    | true =>
      rw [traverseAndBuild_descend hashPair vTxid vMatch hf]
      have hb₀ : t.vBits <+: t.vBits ++ [true] := List.prefix_append _ _
      obtain ⟨hb₁, hh₁⟩ := ih (pos * 2) { t with vBits := t.vBits ++ [true] }
      dsimp only
      split
      · obtain ⟨hb₂, hh₂⟩ := ih (pos * 2 + 1)
          (traverseAndBuild hashPair vTxid vMatch h (pos * 2) { t with vBits := t.vBits ++ [true] })
        exact ⟨hb₀.trans (hb₁.trans hb₂), hh₁.trans hh₂⟩
      · exact ⟨hb₀.trans hb₁, hh₁⟩

theorem length_traverseAndBuild (height pos : Nat) (t : CPartialMerkleTree)
    (hpos : pos * 2 ^ height < t.nTransactions) :
    (traverseAndBuild hashPair vTxid vMatch height pos t).vHash.length ≤
        t.vHash.length + (leavesBelow t.nTransactions height pos).length ∧
      (traverseAndBuild hashPair vTxid vMatch height pos t).vHash.length + t.vBits.length ≤
        (traverseAndBuild hashPair vTxid vMatch height pos t).vBits.length + t.vHash.length ∧
      (traverseAndBuild hashPair vTxid vMatch height pos t).vBits.length <
        t.vBits.length + 2 ^ (height + 1) := by
  induction height generalizing pos t with
  | zero =>
    rw [traverseAndBuild_stop hashPair vTxid vMatch (Or.inl rfl)]
    have hleaf := length_leavesBelow t.nTransactions 0 pos
    simp only [List.length_append, List.length_singleton, Nat.pow_zero, Nat.mul_one] at hleaf ⊢
    omega
  | succ h ih =>
    have hB := Nat.two_pow_pos h
    have hsplit := congrArg List.length (leavesBelow_succ t.nTransactions h pos)
    rw [List.length_append] at hsplit
    cases hf : parentOfMatch t.nTransactions vMatch (h + 1) pos with
    | false =>
      rw [traverseAndBuild_stop hashPair vTxid vMatch (Or.inr hf)]
      have hleaf := length_leavesBelow t.nTransactions (h + 1) pos
      have hnext : (pos + 1) * 2 ^ (h + 1) = pos * 2 ^ (h + 1) + 2 ^ (h + 1) := Nat.succ_mul _ _
      have hB' := Nat.two_pow_pos (h + 1)
      simp only [List.length_append, List.length_singleton]
      rw [two_pow_succ_eq (h + 1)]
      omega
    | true =>
      rw [traverseAndBuild_descend hashPair vTxid vMatch hf]
      dsimp only
      have hleft : pos * 2 * 2 ^ h < t.nTransactions := by
        rwa [Nat.mul_comm pos 2, ← block_offset]
      obtain ⟨hl₁, hl₂, hl₃⟩ := ih (pos * 2) { t with vBits := t.vBits ++ [true] } hleft
      simp only [List.length_append, List.length_singleton] at hl₁ hl₂ hl₃
      rw [two_pow_succ_eq (h + 1), two_pow_succ_eq h]
      rw [two_pow_succ_eq h] at hl₃
      split
      · rename_i hr
        obtain ⟨hr₁, hr₂, hr₃⟩ := ih (pos * 2 + 1)
          (traverseAndBuild hashPair vTxid vMatch h (pos * 2) { t with vBits := t.vBits ++ [true] })
          (by simpa using mul_lt_of_lt_calcTreeWidth hr)
        simp only [nTransactions_traverseAndBuild, two_pow_succ_eq h] at hr₁ hr₃
        omega
      · omega

theorem getElem?_of_append_prefix {α : Type} {l₁ l₂ : List α} {x : α} (h : l₁ ++ [x] <+: l₂) :
    l₂[l₁.length]? = some x := by
  obtain ⟨r, rfl⟩ := h
  simp

end Build

/-! ### The two walks in lockstep -/

/-- Sibling nodes of the tree over `vTxid` have different hashes, so that `TraverseAndExtract`
finds no two equal children. -/
def SiblingsDistinct (hashPair : uint256 → uint256 → uint256) (vTxid : List uint256) : Prop :=
  ∀ height pos, pos * 2 + 1 < calcTreeWidth vTxid.length height →
    calcHash hashPair vTxid.length vTxid height (pos * 2) ≠
      calcHash hashPair vTxid.length vTxid height (pos * 2 + 1)

section Lockstep

variable {hashPair : uint256 → uint256 → uint256} {vTxid : List uint256} {vMatch : List Bool}

/-- What the extraction of a node leaves, where it reads the walk of the build of that node. -/
def walked (e : Extraction) (t : CPartialMerkleTree) (vTxid : List uint256) (vMatch : List Bool)
    (height pos : Nat) : Extraction :=
  ⟨t.vBits.length, t.vHash.length,
    e.vMatch ++ (matchedBelow vTxid.length vMatch height pos).map (vTxid.getD · nullHash),
    e.vnIndex ++ matchedBelow vTxid.length vMatch height pos, e.fBad⟩

theorem traverseAndExtract_walk_stop {T t : CPartialMerkleTree} {e : Extraction}
    {height pos : Nat} (ht : t.nTransactions = vTxid.length)
    (hstop : height = 0 ∨ parentOfMatch vTxid.length vMatch height pos = false)
    (hbits : (traverseAndBuild hashPair vTxid vMatch height pos t).vBits <+: T.vBits)
    (hhash : (traverseAndBuild hashPair vTxid vMatch height pos t).vHash <+: T.vHash)
    (he₁ : e.nBitsUsed = t.vBits.length) (he₂ : e.nHashUsed = t.vHash.length) :
    traverseAndExtract hashPair T height pos e =
      (calcHash hashPair vTxid.length vTxid height pos,
        walked e (traverseAndBuild hashPair vTxid vMatch height pos t) vTxid vMatch height pos) := by
  rw [← ht] at hstop
  rw [traverseAndBuild_stop hashPair vTxid vMatch hstop] at hbits hhash ⊢
  rw [ht] at hbits hhash ⊢
  have hb := getElem?_of_append_prefix hbits
  have hh := getElem?_of_append_prefix hhash
  rw [← he₁] at hb
  rw [← he₂] at hh
  rw [ht] at hstop
  rw [traverseAndExtract_stop hashPair hb (hstop.imp_right id),
    useStoredHash_of_getElem? (e := { e with nBitsUsed := e.nBitsUsed + 1 }) hh]
  cases hf : parentOfMatch vTxid.length vMatch height pos with
  | false =>
    have hm := matchedBelow_of_not_parent hf
    have hnot : ¬(height = 0 ∧ false = true) := fun h => Bool.false_ne_true h.2
    rw [if_neg hnot]
    simp [walked, hm, he₁, he₂]
  | true =>
    have h0 : height = 0 := by simpa [hf] using hstop
    subst h0
    rw [if_pos ⟨rfl, rfl⟩]
    simp [walked, matchedBelow_zero_of_parent hf, he₁, he₂]

/-- The extraction of a node reads back the walk that the build wrote for it: it returns
`CalcHash` of the node, with the matched leaves below it appended to the output. -/
theorem traverseAndExtract_walk (hd : SiblingsDistinct hashPair vTxid) {T : CPartialMerkleTree}
    (hT : T.nTransactions = vTxid.length) (height : Nat) :
    ∀ pos (t : CPartialMerkleTree) (e : Extraction),
      vTxid.length + 2 ^ height ≤ 2 ^ 32 → t.nTransactions = vTxid.length →
      (traverseAndBuild hashPair vTxid vMatch height pos t).vBits <+: T.vBits →
      (traverseAndBuild hashPair vTxid vMatch height pos t).vHash <+: T.vHash →
      e.nBitsUsed = t.vBits.length → e.nHashUsed = t.vHash.length →
      traverseAndExtract hashPair T height pos e =
        (calcHash hashPair vTxid.length vTxid height pos,
          walked e (traverseAndBuild hashPair vTxid vMatch height pos t) vTxid vMatch height pos) := by
  induction height with
  | zero =>
    intro pos t e _ ht hbits hhash he₁ he₂
    exact traverseAndExtract_walk_stop ht (Or.inl rfl) hbits hhash he₁ he₂
  | succ h ih =>
    intro pos t e hn ht hbits hhash he₁ he₂
    cases hf : parentOfMatch vTxid.length vMatch (h + 1) pos with
    | false => exact traverseAndExtract_walk_stop ht (Or.inr hf) hbits hhash he₁ he₂
    | true =>
      have hn' := no_wrap_of_succ hn
      rw [← ht] at hf
      rw [traverseAndBuild_descend hashPair vTxid vMatch hf] at hbits hhash ⊢
      dsimp only at hbits hhash ⊢
      have hl := prefix_traverseAndBuild hashPair vTxid vMatch h (pos * 2)
        { t with vBits := t.vBits ++ [true] }
      have hr := prefix_traverseAndBuild hashPair vTxid vMatch h (pos * 2 + 1)
        (traverseAndBuild hashPair vTxid vMatch h (pos * 2) { t with vBits := t.vBits ++ [true] })
      have hbits' : (traverseAndBuild hashPair vTxid vMatch h (pos * 2)
          { t with vBits := t.vBits ++ [true] }).vBits <+: T.vBits := by
        split at hbits
        · exact hr.1.trans hbits
        · exact hbits
      have hhash' : (traverseAndBuild hashPair vTxid vMatch h (pos * 2)
          { t with vBits := t.vBits ++ [true] }).vHash <+: T.vHash := by
        split at hhash
        · exact hr.2.trans hhash
        · exact hhash
      have hb : T.vBits[e.nBitsUsed]? = some true := by
        rw [he₁]
        exact getElem?_of_append_prefix (hl.1.trans hbits')
      have hleft := ih (pos * 2) { t with vBits := t.vBits ++ [true] }
        { e with nBitsUsed := e.nBitsUsed + 1 } hn' ht hbits' hhash'
        (by simp [he₁]) he₂
      rw [traverseAndExtract_descend hashPair hb]
      dsimp only
      rw [hleft, hT, calcHash_succ]
      by_cases hw : pos * 2 + 1 < calcTreeWidth vTxid.length h
      · have hw₀ : pos * 2 + 1 < calcTreeWidth t.nTransactions h := by rwa [ht]
        rw [if_pos hw₀] at hbits hhash ⊢
        have htl : (traverseAndBuild hashPair vTxid vMatch h (pos * 2)
            { t with vBits := t.vBits ++ [true] }).nTransactions = vTxid.length := by
          rw [nTransactions_traverseAndBuild]
          exact ht
        rw [if_pos hw, if_pos hw, ih (pos * 2 + 1) _ _ hn' htl hbits hhash rfl rfl,
          if_neg (Ne.symm (hd h pos hw))]
        simp only [walked, matchedBelow_succ, List.map_append, List.append_assoc]
      · have hnil : matchedBelow vTxid.length vMatch h (pos * 2 + 1) = [] :=
          matchedBelow_eq_nil (Nat.le_of_not_lt (mt (lt_calcTreeWidth_iff hn').mpr hw))
        have hw₀ : ¬pos * 2 + 1 < calcTreeWidth t.nTransactions h := by rwa [ht]
        rw [if_neg hw, if_neg hw, if_neg hw₀]
        simp only [walked, matchedBelow_succ, hnil, List.append_nil]

end Lockstep

/-! ### What any accepted tree proves -/

section Climbs

variable (hashPair : uint256 → uint256 → uint256)

/-- A pair below the node `pos` at `height` climbs to `root`: its position is below the node, and a
branch of `height` siblings leads from it to `root`. -/
def Climbs (height pos : Nat) (root x : uint256) (i : Nat) : Prop :=
  i / 2 ^ height = pos ∧
    ∃ branch : List uint256, branch.length = height ∧ climbPath hashPair x branch i = root

/-- The pairs that a call of the extraction pushes: `M` and `I` after what was there before. -/
def Pushes (height pos : Nat) (e : Extraction) (r : uint256 × Extraction) : Prop :=
  ∃ M I, r.2.vMatch = e.vMatch ++ M ∧ r.2.vnIndex = e.vnIndex ++ I ∧
    List.Forall₂ (Climbs hashPair height pos r.1) M I

variable {hashPair}

theorem Climbs.left {height pos i : Nat} {y x : uint256} (h : Climbs hashPair height (pos * 2) y x i)
    (s : uint256) : Climbs hashPair (height + 1) pos (hashPair y s) x i := by
  obtain ⟨hi, branch, hlen, hclimb⟩ := h
  refine ⟨by rw [div_two_pow_succ, hi]; omega, branch ++ [s], by simp [hlen], ?_⟩
  rw [climbPath_append_singleton, hlen, hi, hclimb, if_neg (by omega)]

theorem Climbs.right {height pos i : Nat} {y x : uint256}
    (h : Climbs hashPair height (pos * 2 + 1) y x i) (s : uint256) :
    Climbs hashPair (height + 1) pos (hashPair s y) x i := by
  obtain ⟨hi, branch, hlen, hclimb⟩ := h
  refine ⟨by rw [div_two_pow_succ, hi]; omega, branch ++ [s], by simp [hlen], ?_⟩
  rw [climbPath_append_singleton, hlen, hi, hclimb, if_pos (by omega)]

theorem Pushes.none {height pos : Nat} {e e' : Extraction} (r : uint256)
    (hm : e'.vMatch = e.vMatch) (hi : e'.vnIndex = e.vnIndex) :
    Pushes hashPair height pos e (r, e') :=
  ⟨[], [], by rw [hm, List.append_nil], by rw [hi, List.append_nil], .nil⟩

theorem vMatch_markBad (c : Prop) [Decidable c] (r : Extraction) :
    (if c then { r with fBad := true } else r).vMatch = r.vMatch := by
  split <;> rfl

theorem vnIndex_markBad (c : Prop) [Decidable c] (r : Extraction) :
    (if c then { r with fBad := true } else r).vnIndex = r.vnIndex := by
  split <;> rfl

variable (hashPair)

theorem pushes_useStoredHash (T : CPartialMerkleTree) (height pos : Nat) (f : Bool)
    (e : Extraction) : Pushes hashPair height pos e (useStoredHash T height pos f e) := by
  cases hh : T.vHash[e.nHashUsed]? with
  | none =>
    rw [useStoredHash_overflow (List.getElem?_eq_none_iff.mp hh)]
    exact Pushes.none nullHash rfl rfl
  | some hash =>
    rw [useStoredHash_of_getElem? hh]
    split
    · rename_i hleaf
      obtain ⟨rfl, -⟩ := hleaf
      exact ⟨[hash], [pos], rfl, rfl,
        .cons ⟨by rw [Nat.pow_zero, Nat.div_one], [], rfl, rfl⟩ .nil⟩
    · exact Pushes.none hash rfl rfl

/-- Whatever flags and hashes it reads, every pair that the extraction pushes below a node climbs
to the hash it returns for the node. -/
theorem traverseAndExtract_climbs (T : CPartialMerkleTree) (height : Nat) :
    ∀ pos e, Pushes hashPair height pos e (traverseAndExtract hashPair T height pos e) := by
  induction height with
  | zero =>
    intro pos e
    cases hb : T.vBits[e.nBitsUsed]? with
    | none =>
      rw [traverseAndExtract_overflow hashPair (List.getElem?_eq_none_iff.mp hb)]
      exact Pushes.none nullHash rfl rfl
    | some f =>
      rw [traverseAndExtract_stop hashPair hb (Or.inl rfl)]
      exact pushes_useStoredHash hashPair T 0 pos f _
  | succ h ih =>
    intro pos e
    cases hb : T.vBits[e.nBitsUsed]? with
    | none =>
      rw [traverseAndExtract_overflow hashPair (List.getElem?_eq_none_iff.mp hb)]
      exact Pushes.none nullHash rfl rfl
    | some f =>
      cases f with
      | false =>
        rw [traverseAndExtract_stop hashPair hb (Or.inr rfl)]
        exact pushes_useStoredHash hashPair T (h + 1) pos false _
      | true =>
        rw [traverseAndExtract_descend hashPair hb]
        dsimp only
        obtain ⟨M₁, I₁, hm₁, hi₁, hc₁⟩ := ih (pos * 2) { e with nBitsUsed := e.nBitsUsed + 1 }
        split
        · obtain ⟨M₂, I₂, hm₂, hi₂, hc₂⟩ := ih (pos * 2 + 1)
            (traverseAndExtract hashPair T h (pos * 2) { e with nBitsUsed := e.nBitsUsed + 1 }).2
          refine ⟨M₁ ++ M₂, I₁ ++ I₂, ?_, ?_, List.rel_append (hc₁.imp fun _ _ hc => hc.left _)
            (hc₂.imp fun _ _ hc => hc.right _)⟩
          · rw [vMatch_markBad, hm₂, hm₁, List.append_assoc]
          · rw [vnIndex_markBad, hi₂, hi₁, List.append_assoc]
        · exact ⟨M₁, I₁, hm₁, hi₁, hc₁.imp fun _ _ hc => hc.left _⟩

end Climbs

/-! ### `ExtractMatches` -/

section Extract

variable (hashPair : uint256 → uint256 → uint256)

theorem extractMatches_of_walk {t : CPartialMerkleTree} {vnIndex : List Nat} {r : uint256}
    {e : Extraction} (h₁ : t.nTransactions ≠ 0) (h₂ : t.vHash.length ≤ t.nTransactions)
    (h₃ : t.vHash.length ≤ t.vBits.length)
    (hwalk : traverseAndExtract hashPair t (treeHeight t.nTransactions) 0
      ⟨0, 0, [], vnIndex, t.fBad⟩ = (r, e))
    (hbad : e.fBad = false) (hbits : (e.nBitsUsed + 7) / 8 = (t.vBits.length + 7) / 8)
    (hhash : e.nHashUsed = t.vHash.length) :
    extractMatches hashPair t vnIndex = (some r, e) := by
  simp only [extractMatches, if_neg h₁, if_neg (Nat.not_lt.mpr h₂), if_neg (Nat.not_lt.mpr h₃),
    hwalk, hbad, hbits, hhash, Bool.false_eq_true, if_false, ne_eq, not_true_eq_false]

theorem traverseAndExtract_of_extractMatches {t : CPartialMerkleTree} {vnIndex : List Nat}
    {root : uint256} {e : Extraction} (h : extractMatches hashPair t vnIndex = (some root, e)) :
    traverseAndExtract hashPair t (treeHeight t.nTransactions) 0 ⟨0, 0, [], vnIndex, t.fBad⟩ =
      (root, e) := by
  unfold extractMatches at h
  dsimp only at h
  split_ifs at h <;> cases h
  rfl

theorem extractMatches_climbs {t : CPartialMerkleTree} {root : uint256} {e : Extraction}
    (h : extractMatches hashPair t [] = (some root, e)) :
    List.Forall₂ (fun hash i => i < 2 ^ treeHeight t.nTransactions ∧
        ∃ branch : List uint256, branch.length = treeHeight t.nTransactions ∧
          computeMerkleRootFromBranch hashPair hash branch i = root) e.vMatch e.vnIndex := by
  obtain ⟨M, I, hm, hi, hc⟩ := traverseAndExtract_climbs hashPair t (treeHeight t.nTransactions) 0
    ⟨0, 0, [], [], t.fBad⟩
  rw [traverseAndExtract_of_extractMatches hashPair h] at hm hi hc
  rw [hm, hi]
  refine hc.imp fun hash i ⟨hdiv, branch, hlen, hclimb⟩ => ⟨?_, branch, hlen, ?_⟩
  · exact (Nat.div_eq_zero_iff.mp hdiv).resolve_left (Nat.two_pow_pos _).ne'
  · rw [computeMerkleRootFromBranch_eq_climbPath]
    exact hclimb

end Extract

/-! ### Packing the flags into bytes -/

theorem testBit_one (j : Nat) : Nat.testBit 1 j = decide (j = 0) := by
  simpa only [Nat.pow_zero, eq_comm] using Nat.testBit_two_pow (n := 0) (m := j)

theorem testBit_or_shift (a : UInt8) (c : Bool) {s : Nat} (k : Nat) (hs : s < 8) :
    (a ||| c.toUInt8 <<< s.toUInt8).toNat.testBit k =
      (a.toNat.testBit k || (c && decide (k = s))) := by
  have hs' : s.toUInt8.toNat = s := by simp; omega
  have hc : c.toUInt8.toNat = c.toNat := by cases c <;> rfl
  have hlt : c.toNat <<< s < 2 ^ 8 := by
    rw [Nat.shiftLeft_eq]
    have h₁ : c.toNat ≤ 1 := Bool.toNat_le c
    have h₂ : 2 ^ s ≤ 2 ^ 7 := Nat.pow_le_pow_right (by decide) (by omega)
    calc c.toNat * 2 ^ s ≤ 1 * 2 ^ 7 := Nat.mul_le_mul h₁ h₂
      _ < 2 ^ 8 := by decide
  rw [UInt8.toNat_or, UInt8.toNat_shiftLeft, hs', hc, Nat.mod_eq_of_lt hs, Nat.mod_eq_of_lt hlt,
    Nat.testBit_or, Nat.testBit_shiftLeft]
  cases c with
  | false => simp
  | true =>
    rw [Bool.toNat_true, testBit_one, Bool.true_and]
    congr 1
    by_cases hks : k = s
    · simp [hks]
    · simp only [hks, decide_false, Bool.and_eq_false_iff, decide_eq_false_iff_not]
      omega

theorem and_shift_ne_zero (b : UInt8) {s : Nat} (hs : s < 8) :
    ((b &&& (1 : UInt8) <<< s.toUInt8) != 0) = b.toNat.testBit s := by
  have hs' : s.toUInt8.toNat = s := by simp; omega
  have hpow : (1 : UInt8) <<< s.toUInt8 = UInt8.ofNat (2 ^ s) := by
    apply UInt8.toNat_inj.mp
    rw [UInt8.toNat_shiftLeft, hs', Nat.mod_eq_of_lt hs, UInt8.toNat_ofNat',
      show (1 : UInt8).toNat = 1 from rfl, Nat.one_shiftLeft]
  have hand : (b &&& (1 : UInt8) <<< s.toUInt8).toNat = (b.toNat.testBit s).toNat * 2 ^ s := by
    rw [UInt8.toNat_and, hpow, UInt8.toNat_ofNat', Nat.mod_eq_of_lt (by
      have : 2 ^ s ≤ 2 ^ 7 := Nat.pow_le_pow_right (by decide) (by omega)
      omega), Nat.and_two_pow]
  cases htb : b.toNat.testBit s with
  | false =>
    rw [htb, Bool.toNat_false, Nat.zero_mul] at hand
    have : b &&& (1 : UInt8) <<< s.toUInt8 = 0 := UInt8.toNat_inj.mp hand
    simp [this]
  | true =>
    rw [htb, Bool.toNat_true, Nat.one_mul] at hand
    have hne : b &&& (1 : UInt8) <<< s.toUInt8 ≠ 0 := by
      intro h0
      rw [h0] at hand
      have := Nat.two_pow_pos s
      simp at hand
      omega
    simp [hne]

theorem length_foldl_packStep (vBits : List Bool) (ps : List Nat) (acc : List UInt8) :
    (ps.foldl (packStep vBits) acc).length = acc.length := by
  induction ps generalizing acc with
  | nil => rfl
  | cons p ps ih => rw [List.foldl_cons, ih, packStep, List.length_modify]

theorem testBit_foldl_packStep (vBits : List Bool) (m : Nat) (hm : m ≤ vBits.length) (j k : Nat)
    (hk : k < 8) :
    (((List.range m).foldl (packStep vBits)
        (List.replicate ((vBits.length + 7) / 8) 0)).getD j 0).toNat.testBit k =
      (decide (8 * j + k < m) && vBits.getD (8 * j + k) false) := by
  induction m with
  | zero =>
    rw [List.range_zero, List.foldl_nil, List.getD_eq_getElem?_getD, List.getElem?_replicate]
    split <;> simp
  | succ m ih =>
    have hlen := length_foldl_packStep vBits (List.range m) (List.replicate ((vBits.length + 7) / 8) 0)
    rw [List.length_replicate] at hlen
    rw [List.range_succ, List.foldl_append, List.foldl_cons, List.foldl_nil, packStep,
      List.getD_eq_getElem?_getD, List.getElem?_modify]
    have ih' := ih (by omega)
    rw [List.getD_eq_getElem?_getD] at ih'
    cases hj : ((List.range m).foldl (packStep vBits)
        (List.replicate ((vBits.length + 7) / 8) 0))[j]? with
    | none =>
      have hge := List.getElem?_eq_none_iff.mp hj
      rw [hlen] at hge
      have hout : ¬8 * j + k < m + 1 := by omega
      simp [hout]
    | some a =>
      rw [hj, Option.getD_some] at ih'
      rw [Option.map_eq_map, Option.map_some, Option.getD_some]
      by_cases hjm : m / 8 = j
      · rw [if_pos hjm, testBit_or_shift a _ k (Nat.mod_lt m (by decide)), ih']
        by_cases hks : k = m % 8
        · have hm' : 8 * j + k = m := by omega
          rw [hm']
          simp [hks]
        · have hlt : decide (8 * j + k < m + 1) = decide (8 * j + k < m) := by
            rw [decide_eq_decide]
            omega
          rw [hlt, decide_eq_false hks, Bool.and_false, Bool.or_false]
      · have hlt : decide (8 * j + k < m + 1) = decide (8 * j + k < m) := by
          rw [decide_eq_decide]
          omega
        rw [if_neg hjm, ih', hlt]

theorem length_packBits (vBits : List Bool) : (packBits vBits).length = (vBits.length + 7) / 8 := by
  rw [packBits, length_foldl_packStep, List.length_replicate]

theorem testBit_getD_packBits (vBits : List Bool) (j : Nat) {k : Nat} (hk : k < 8) :
    ((packBits vBits).getD j 0).toNat.testBit k = vBits.getD (8 * j + k) false := by
  rw [packBits, testBit_foldl_packStep vBits vBits.length (Nat.le_refl _) j k hk]
  by_cases h : 8 * j + k < vBits.length
  · rw [decide_eq_true h, Bool.true_and]
  · rw [decide_eq_false h, Bool.false_and, List.getD_eq_default _ _ (Nat.le_of_not_lt h)]

theorem unpackBits_packBits (vBits : List Bool) :
    unpackBits (packBits vBits) =
      vBits ++ List.replicate ((vBits.length + 7) / 8 * 8 - vBits.length) false := by
  apply List.ext_getElem
  · simp only [unpackBits, List.length_map, List.length_range, length_packBits, List.length_append,
      List.length_replicate]
    omega
  · intro p h₁ h₂
    have hp : p % 8 < 8 := Nat.mod_lt p (by decide)
    simp only [unpackBits, List.getElem_map, List.getElem_range]
    rw [and_shift_ne_zero _ hp, testBit_getD_packBits _ _ hp, Nat.div_add_mod, List.getElem_append]
    split
    · rw [List.getD_eq_getElem]
    · rw [List.getElem_replicate, List.getD_eq_default _ _ (by omega)]

/-! ### Serialization -/

theorem format_uint256 :
    Format (fun _ => True) (fun h : uint256 => (pure h.toList : Except String (List UInt8)))
      (read 32) where
  reads := by
    intro h b _ hser
    cases hser
    exact reads_read h
  consumes := (consumes_read 32).mono fun _ _ hb => ⟨trivial, by rw [hb]; rfl⟩

theorem serializePartialMerkleTree_eq_ok {t : CPartialMerkleTree} {b : List UInt8} :
    serializePartialMerkleTree t = .ok b ↔ ∃ vHash vBytes,
      serializeVector (fun h : uint256 => pure h.toList) t.vHash = .ok vHash ∧
      serializeBytes (packBits t.vBits) = .ok vBytes ∧
      b = serWritedata32 t.nTransactions ++ vHash ++ vBytes := by
  unfold serializePartialMerkleTree
  rw [bind_eq_ok_iff]
  constructor
  · rintro ⟨vHash, hvHash, hrest⟩
    obtain ⟨vBytes, hvBytes, rfl⟩ := bind_pure_eq_ok_iff.mp hrest
    exact ⟨vHash, vBytes, hvHash, hvBytes, rfl⟩
  · rintro ⟨vHash, vBytes, hvHash, hvBytes, rfl⟩
    exact ⟨vHash, hvHash, bind_pure_eq_ok_iff.mpr ⟨vBytes, hvBytes, rfl⟩⟩

theorem serializePartialMerkleTree_of_le {t : CPartialMerkleTree}
    (hHash : t.vHash.length ≤ MAX_SIZE) (hBits : (t.vBits.length + 7) / 8 ≤ MAX_SIZE) :
    ∃ b, serializePartialMerkleTree t = .ok b := by
  obtain ⟨vHash, hvHash⟩ : ∃ b, serializeVector (fun h : uint256 => pure h.toList) t.vHash = .ok b :=
    serializeVector_of_le hHash fun h _ => ⟨h.toList, rfl⟩
  obtain ⟨vBytes, hvBytes⟩ := serializeBytes_of_le (v := packBits t.vBits)
    (by rw [length_packBits]; exact hBits)
  exact ⟨_, serializePartialMerkleTree_eq_ok.mpr ⟨vHash, vBytes, hvHash, hvBytes, rfl⟩⟩

theorem reads_unserializePartialMerkleTree {t : CPartialMerkleTree} {b : List UInt8}
    (hn : t.nTransactions < 2 ^ 32) (hser : serializePartialMerkleTree t = .ok b) :
    Reads unserializePartialMerkleTree b
      ⟨t.nTransactions, unpackBits (packBits t.vBits), t.vHash, false⟩ := by
  obtain ⟨vHash, vBytes, hvHash, hvBytes, rfl⟩ := serializePartialMerkleTree_eq_ok.mp hser
  have hcount := reads_serReaddata (w := 4) (n := t.nTransactions) (by simpa using hn)
  have hhashes := (format_vector format_uint256 32).reads (fun _ _ => trivial) hvHash
  refine Reads.of_eq (Reads.bind hcount (Reads.bind hhashes (Reads.bind
    (reads_unserializeBytes hvBytes) (Reads.pure' _)))) ?_ rfl
  simp [serWritedata32]

/-! ### The round trip -/

section RoundTrip

variable (hashPair : uint256 → uint256 → uint256) (vTxid : List uint256) (vMatch : List Bool)

theorem partialMerkleTree_eq (hn : vTxid.length < 2 ^ 32) :
    partialMerkleTree hashPair vTxid vMatch =
      traverseAndBuild hashPair vTxid vMatch (treeHeight vTxid.length) 0
        ⟨vTxid.length, [], [], false⟩ := by
  rw [partialMerkleTree]
  dsimp only
  rw [Nat.mod_eq_of_lt hn]

theorem length_partialMerkleTree (h₁ : 1 ≤ vTxid.length) (h₂ : vTxid.length ≤ 2 ^ 31) :
    (partialMerkleTree hashPair vTxid vMatch).vHash.length ≤ vTxid.length ∧
      (partialMerkleTree hashPair vTxid vMatch).vHash.length ≤
        (partialMerkleTree hashPair vTxid vMatch).vBits.length ∧
      (partialMerkleTree hashPair vTxid vMatch).vBits.length < 2 ^ 32 := by
  obtain ⟨hH, hle, -⟩ := treeHeight_spec h₁ h₂
  have hpow : 2 ^ (treeHeight vTxid.length + 1) ≤ 2 ^ 32 :=
    Nat.pow_le_pow_right (by decide) (by omega)
  rw [partialMerkleTree_eq hashPair vTxid vMatch (by omega)]
  obtain ⟨hHash, hFlags, hBits⟩ := length_traverseAndBuild hashPair vTxid vMatch
    (treeHeight vTxid.length) 0 ⟨vTxid.length, [], [], false⟩
    (show 0 * 2 ^ _ < vTxid.length by rw [Nat.zero_mul]; omega)
  dsimp only at hHash hFlags hBits
  rw [leavesBelow_top hle, List.length_range] at hHash
  simp only [List.length_nil, Nat.zero_add, Nat.add_zero] at hHash hFlags hBits
  exact ⟨hHash, hFlags, by omega⟩

theorem extractMatches_partialMerkleTree (hd : SiblingsDistinct hashPair vTxid)
    (h₁ : 1 ≤ vTxid.length) (h₂ : vTxid.length ≤ 2 ^ 31) :
    ∃ e, extractMatches hashPair
        ⟨vTxid.length, unpackBits (packBits (partialMerkleTree hashPair vTxid vMatch).vBits),
          (partialMerkleTree hashPair vTxid vMatch).vHash, false⟩ [] =
        (some (padRoot hashPair (treeHeight vTxid.length) vTxid), e) ∧
      e.vnIndex = (List.range vTxid.length).filter (fun i => vMatch.getD i false) ∧
      e.vMatch = e.vnIndex.map (vTxid.getD · nullHash) := by
  obtain ⟨hH, hle, -⟩ := treeHeight_spec h₁ h₂
  have hpow : 2 ^ treeHeight vTxid.length ≤ 2 ^ 31 := Nat.pow_le_pow_right (by decide) hH
  have hn : vTxid.length + 2 ^ treeHeight vTxid.length ≤ 2 ^ 32 := by omega
  obtain ⟨hHash, hFlags, -⟩ := length_partialMerkleTree hashPair vTxid vMatch h₁ h₂
  rw [partialMerkleTree_eq hashPair vTxid vMatch (by omega)] at hHash hFlags ⊢
  rw [unpackBits_packBits]
  set built := traverseAndBuild hashPair vTxid vMatch (treeHeight vTxid.length) 0
    ⟨vTxid.length, [], [], false⟩ with hbuilt
  have hwalk := @traverseAndExtract_walk hashPair vTxid vMatch hd
    ⟨vTxid.length, built.vBits ++
      List.replicate ((built.vBits.length + 7) / 8 * 8 - built.vBits.length) false,
      built.vHash, false⟩ rfl (treeHeight vTxid.length) 0
    ⟨vTxid.length, [], [], false⟩ ⟨0, 0, [], [], false⟩ hn rfl (List.prefix_append _ _)
    (List.prefix_refl _) rfl rfl
  rw [calcHash_eq_padRoot hashPair vTxid _ 0 hn (show 0 * 2 ^ _ < vTxid.length by
    rw [Nat.zero_mul]; omega), block_zero_of_le hle, ← hbuilt] at hwalk
  refine ⟨_, extractMatches_of_walk hashPair (show vTxid.length ≠ 0 by omega) hHash ?_ hwalk rfl
    ?_ rfl, ?_, ?_⟩
  · simp only [List.length_append, List.length_replicate]
    omega
  · simp only [walked, List.length_append, List.length_replicate]
    omega
  · simp only [walked, List.nil_append, matchedBelow, leavesBelow_top hle]
  · simp only [walked, List.nil_append]

theorem computeMerkleRoot_eq_padRoot (h₁ : 1 ≤ vTxid.length) (h₂ : vTxid.length ≤ 2 ^ 31) :
    ∃ mutated, computeMerkleRoot hashPair vTxid =
      .ok (padRoot hashPair (treeHeight vTxid.length) vTxid, mutated) := by
  obtain ⟨-, hle, hlow⟩ := treeHeight_spec h₁ h₂
  obtain ⟨root, mutated, branch, hmc, hroot, -⟩ :=
    merkleComputation_root hashPair vTxid h₁ h₂ false (2 ^ 32 - 1)
  rw [rootByLevels_eq_padRoot hashPair h₁ hle hlow, Option.some_inj] at hroot
  refine ⟨mutated, ?_⟩
  rw [computeMerkleRoot, hmc, hroot]
  rfl

end RoundTrip

/-- A partial tree built from `1 ≤ n ≤ 2 ^ 31` ids whose sibling nodes have different hashes is
written, read back and accepted by `ExtractMatches` with the root that `ComputeMerkleRoot` gives
and exactly the matched ids, in increasing order of position; and whatever tree `ExtractMatches`
accepts, each id it returns climbs to the root it returns along a branch of the tree's height. -/
theorem partial_merkle_tree_round_trip (hashPair : uint256 → uint256 → uint256) :
    (∀ (vTxid : List uint256) (vMatch : List Bool), 1 ≤ vTxid.length →
      vTxid.length ≤ 2 ^ 31 → SiblingsDistinct hashPair vTxid →
      ∃ bytes, serializePartialMerkleTree (partialMerkleTree hashPair vTxid vMatch) = .ok bytes ∧
        ∀ rest, ∃ t, unserializePartialMerkleTree.run (bytes ++ rest) = .ok t rest ∧
          ∃ root mutated e, computeMerkleRoot hashPair vTxid = .ok (root, mutated) ∧
            extractMatches hashPair t [] = (some root, e) ∧
            e.vnIndex = (List.range vTxid.length).filter (fun i => vMatch.getD i false) ∧
            e.vMatch = e.vnIndex.map (vTxid.getD · nullHash)) ∧
    ∀ (t : CPartialMerkleTree) (root : uint256) (e : Extraction),
      extractMatches hashPair t [] = (some root, e) →
      List.Forall₂ (fun hash i => i < 2 ^ treeHeight t.nTransactions ∧
          ∃ branch : List uint256, branch.length = treeHeight t.nTransactions ∧
            computeMerkleRootFromBranch hashPair hash branch i = root) e.vMatch e.vnIndex := by
  constructor
  · intro vTxid vMatch h₁ h₂ hd
    obtain ⟨hHash, -, hBits⟩ := length_partialMerkleTree hashPair vTxid vMatch h₁ h₂
    have hmax : 2 ^ 31 ≤ MAX_SIZE := by decide
    obtain ⟨bytes, hser⟩ := serializePartialMerkleTree_of_le (t := partialMerkleTree hashPair vTxid vMatch)
      (by omega) (by omega)
    have hn : (partialMerkleTree hashPair vTxid vMatch).nTransactions = vTxid.length := by
      rw [partialMerkleTree_eq hashPair vTxid vMatch (by omega), nTransactions_traverseAndBuild]
    refine ⟨bytes, hser, fun rest => ⟨_, reads_unserializePartialMerkleTree
      (by omega) hser rest, ?_⟩⟩
    obtain ⟨e, hext, hidx, hval⟩ := extractMatches_partialMerkleTree hashPair vTxid vMatch hd h₁ h₂
    obtain ⟨mutated, hroot⟩ := computeMerkleRoot_eq_padRoot hashPair vTxid h₁ h₂
    rw [hn]
    exact ⟨_, mutated, e, hroot, hext, hidx, hval⟩
  · intro t root e h
    exact extractMatches_climbs hashPair h

/-! ### Above `2 ^ 31` ids

With `2 ^ 31 + 1` ids the width of level 31 wraps around to zero, so `treeHeight` stops at 31
and the last leaf lies outside the tree that is walked. -/

section Wide

open TbcNode.Encoding

/-- The id of the node at `height < 64` and `pos`: `pos * 64 + height`, little-endian. -/
def nodeId (height pos : Nat) : uint256 :=
  ⟨(writeLE 32 (pos * 64 + height)).toArray, by simp⟩

/-- A hash that gives the id of the parent of its first node. -/
def parentId (a _ : uint256) : uint256 :=
  nodeId (readLE a.toList % 64 + 1) (readLE a.toList / 64 / 2)

def wideTxids : List uint256 := (List.range (2 ^ 31 + 1)).map (nodeId 0)

def lastMatched : List Bool := List.replicate (2 ^ 31) false ++ [true]

theorem readLE_nodeId {height pos : Nat} (h : pos * 64 + height < 256 ^ 32) :
    readLE (nodeId height pos).toList = pos * 64 + height := by
  simp only [nodeId, Vector.toList_mk, readLE_writeLE]
  exact Nat.mod_eq_of_lt h

theorem length_wideTxids : wideTxids.length = 2 ^ 31 + 1 := by
  simp [wideTxids]

theorem calcHash_parentId (height : Nat) :
    ∀ pos, height < 63 → pos * 2 ^ height < 2 ^ 31 + 1 →
      calcHash parentId (2 ^ 31 + 1) wideTxids height pos = nodeId height pos := by
  have hbig : 2 ^ 31 * 128 + 64 < 256 ^ 32 := by decide
  induction height with
  | zero =>
    intro pos _ hpos
    rw [Nat.pow_zero, Nat.mul_one] at hpos
    rw [calcHash_zero, wideTxids, List.getD_eq_getElem?_getD, List.getElem?_map,
      List.getElem?_range hpos]
    rfl
  | succ h ih =>
    intro pos hh hpos
    have hchild : pos * 2 * 2 ^ h < 2 ^ 31 + 1 := by
      rwa [Nat.mul_assoc, ← Nat.pow_succ']
    have hp : pos ≤ 2 ^ 31 := by
      have := Nat.one_le_two_pow (n := h + 1)
      exact Nat.le_of_lt_succ (Nat.lt_of_le_of_lt (Nat.le_mul_of_pos_right pos this) hpos)
    rw [calcHash_succ, ih (pos * 2) (by omega) hchild, parentId, readLE_nodeId (by omega)]
    congr 1 <;> omega

theorem nodeId_inj {h₁ p₁ h₂ p₂ : Nat} (hh₁ : h₁ < 64) (hh₂ : h₂ < 64) (hp₁ : p₁ ≤ 2 ^ 31)
    (hp₂ : p₂ ≤ 2 ^ 31) (h : nodeId h₁ p₁ = nodeId h₂ p₂) : h₁ = h₂ ∧ p₁ = p₂ := by
  have hbig : 2 ^ 31 * 64 + 64 < 256 ^ 32 := by decide
  have hval := congrArg (fun x : uint256 => readLE x.toList) h
  simp only [readLE_nodeId (show p₁ * 64 + h₁ < 256 ^ 32 by omega),
    readLE_nodeId (show p₂ * 64 + h₂ < 256 ^ 32 by omega)] at hval
  omega

theorem treeHeight_wide : treeHeight (2 ^ 31 + 1) = 31 := by
  have hbelow : ∀ k < 31, 1 < calcTreeWidth (2 ^ 31 + 1) k := by decide
  exact treeHeightFrom_eq (Nat.zero_le _) (by decide) fun k _ hk => hbelow k hk

theorem getD_lastMatched (i : Nat) : lastMatched.getD i false = decide (i = 2 ^ 31) := by
  have hlen : (List.replicate (2 ^ 31) false).length = 2 ^ 31 := List.length_replicate
  rw [lastMatched, List.getD_eq_getElem?_getD]
  rcases Nat.lt_trichotomy i (2 ^ 31) with hi | rfl | hi
  · rw [List.getElem?_append_left (by rw [hlen]; exact hi), List.getElem?_replicate_of_lt hi,
      Option.getD_some, decide_eq_false (Nat.ne_of_lt hi)]
  · rw [List.getElem?_append_right (Nat.le_of_eq hlen), hlen, Nat.sub_self, decide_eq_true rfl]
    rfl
  · rw [List.getElem?_append_right (by rw [hlen]; exact Nat.le_of_lt hi), hlen,
      decide_eq_false (Nat.ne_of_gt hi),
      List.getElem?_eq_none (by rw [List.length_singleton]; omega)]
    rfl

theorem parentOfMatch_lastMatched : parentOfMatch (2 ^ 31 + 1) lastMatched 31 0 = false := by
  rw [parentOfMatch, leavesBelow_eq, List.any_eq_false]
  intro p hp
  rw [List.mem_range'_1] at hp
  rw [getD_lastMatched, decide_eq_true_eq]
  omega

theorem partialMerkleTree_wide :
    partialMerkleTree parentId wideTxids lastMatched =
      ⟨2 ^ 31 + 1, [false], [nodeId 31 0], false⟩ := by
  rw [partialMerkleTree_eq parentId wideTxids lastMatched (by rw [length_wideTxids]; decide),
    length_wideTxids, treeHeight_wide,
    traverseAndBuild_stop parentId wideTxids lastMatched (t := ⟨2 ^ 31 + 1, [], [], false⟩)
      (Or.inr parentOfMatch_lastMatched)]
  dsimp only
  rw [parentOfMatch_lastMatched, calcHash_parentId 31 0 (by decide) (by decide)]
  rfl

theorem filter_lastMatched :
    (List.range (2 ^ 31 + 1)).filter (fun i => lastMatched.getD i false) = [2 ^ 31] := by
  rw [List.range_succ, List.filter_append, List.filter_eq_nil_iff.mpr, List.nil_append,
    List.filter_singleton, getD_lastMatched, decide_eq_true rfl]
  · rfl
  · intro i hi
    rw [getD_lastMatched, decide_eq_true_eq]
    exact Nat.ne_of_lt (List.mem_range.mp hi)

/-- Above `2 ^ 31` ids the last one is lost: over `2 ^ 31 + 1` ids whose nodes have pairwise
different hashes, with only the last id matched, the tree that is built, written and read back is
accepted by `ExtractMatches` with no match at all. -/
theorem partialMerkleTree_drops_last_leaf :
    wideTxids.length = 2 ^ 31 + 1 ∧ lastMatched.length = wideTxids.length ∧
    (∀ h₁ p₁ h₂ p₂, h₁ ≤ 32 → h₂ ≤ 32 → p₁ * 2 ^ h₁ < wideTxids.length →
      p₂ * 2 ^ h₂ < wideTxids.length →
      calcHash parentId wideTxids.length wideTxids h₁ p₁ =
        calcHash parentId wideTxids.length wideTxids h₂ p₂ → h₁ = h₂ ∧ p₁ = p₂) ∧
    ∃ bytes, serializePartialMerkleTree (partialMerkleTree parentId wideTxids lastMatched) =
        .ok bytes ∧
      ∃ t, unserializePartialMerkleTree.run bytes = .ok t [] ∧
        ∃ root e, extractMatches parentId t [] = (some root, e) ∧ e.vnIndex = [] ∧
          (List.range wideTxids.length).filter (fun i => lastMatched.getD i false) =
            [2 ^ 31] := by
  rw [length_wideTxids]
  refine ⟨rfl, by rw [lastMatched, List.length_append, List.length_replicate,
    List.length_singleton], ?_, ?_⟩
  · intro h₁ p₁ h₂ p₂ hh₁ hh₂ hp₁ hp₂ heq
    have hle : ∀ {h p : Nat}, p * 2 ^ h < 2 ^ 31 + 1 → p ≤ 2 ^ 31 := fun hp =>
      Nat.le_of_lt_succ (Nat.lt_of_le_of_lt (Nat.le_mul_of_pos_right _ Nat.one_le_two_pow) hp)
    rw [calcHash_parentId h₁ p₁ (by omega) hp₁, calcHash_parentId h₂ p₂ (by omega) hp₂] at heq
    exact nodeId_inj (by omega) (by omega) (hle hp₁) (hle hp₂) heq
  · rw [partialMerkleTree_wide]
    obtain ⟨bytes, hser⟩ := serializePartialMerkleTree_of_le
      (t := ⟨2 ^ 31 + 1, [false], [nodeId 31 0], false⟩) (by decide) (by decide)
    have hread := reads_unserializePartialMerkleTree (by decide) hser []
    rw [List.append_nil] at hread
    refine ⟨bytes, hser, _, hread, nodeId 31 0, ⟨1, 1, [], [], false⟩, ?_, rfl, filter_lastMatched⟩
    have hbits : unpackBits (packBits [false]) = List.replicate 8 false := by decide
    dsimp only
    rw [hbits]
    refine extractMatches_of_walk parentId (by decide) (by decide) (by decide) ?_ rfl
      (by decide) rfl
    dsimp only
    rw [treeHeight_wide, traverseAndExtract_stop parentId (f := false) rfl (Or.inr rfl),
      useStoredHash_of_getElem? rfl]
    rfl

end Wide

end TbcNode.Consensus
