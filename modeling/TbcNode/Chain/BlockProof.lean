import TbcNode.Chain.BlockIndex
import TbcNode.Arith.Compact

/-! # The work of a block (`GetBlockProof`)

`GetBlockProof` computes `2 ^ 256 / (target + 1)` as `~target / (target + 1) + 1`. A target that
decodes without overflow is below `2 ^ 256 - 1`, so the division never wraps.
-/

namespace TbcNode.Chain

open TbcNode.Arith TbcNode.Arith.BaseUint

/-- `GetBlockProof`; the division by `bnTarget + 1` throws when it is zero. -/
def getBlockProof {α : Type*} (block : CBlockIndex α) : Except String ArithUint256 :=
  let bnTarget := (setCompact block.nBits).1
  let fNegative := (setCompact block.nBits).2.1
  let fOverflow := (setCompact block.nBits).2.2
  if fNegative || fOverflow || equalTo bnTarget 0 then .ok (ofUInt64 0)
  else (fun q => add q (ofUInt64 1)) <$>
    BaseUint.div (complement bnTarget) (add bnTarget (ofUInt64 1))

theorem div_add_one_eq {M T : Nat} (hT : T + 1 ≤ M) : (M - 1 - T) / (T + 1) + 1 = M / (T + 1) := by
  rw [← Nat.add_div_right _ (by omega), show M - 1 - T + (T + 1) = M by omega]

/-- `GetBlockProof` returns `2 ^ 256 / (target + 1)` for a target that decodes to a nonzero
number with neither flag, with no step wrapping around `2 ^ 256`, and `0` for every other
`nBits`. -/
theorem get_block_proof_exact {α : Type*} (block : CBlockIndex α) (T : ArithUint256)
    (fNegative fOverflow : Bool) (h : setCompact block.nBits = (T, fNegative, fOverflow)) :
    ∃ proof, getBlockProof block = .ok proof ∧
      (fNegative = false → fOverflow = false → T.value ≠ 0 →
        T.value + 1 < 2 ^ 256 ∧ (2 ^ 256 - 1 - T.value) / (T.value + 1) + 1 < 2 ^ 256 ∧
          proof.value = 2 ^ 256 / (T.value + 1)) ∧
      (fNegative = true ∨ fOverflow = true ∨ T.value = 0 → proof.value = 0) := by
  have hw : (2 : Nat) ≤ 256 / 32 := by decide
  have hwidth : 32 * (256 / 32) = 256 := rfl
  have hflags := setCompact_flags block.nBits
  have hvalue := setCompact_value block.nBits
  rw [h] at hflags hvalue
  unfold getBlockProof
  rw [h]
  dsimp only
  by_cases hzero : fNegative = true ∨ fOverflow = true ∨ T.value = 0
  · have hcond : (fNegative || fOverflow || equalTo T 0) = true := by
      rcases hzero with hn | ho | hz
      · rw [hn, Bool.true_or, Bool.true_or]
      · rw [ho, Bool.or_true, Bool.true_or]
      · rw [(equalTo_iff T 0 hw).mpr (by rw [hz]; rfl), Bool.or_true]
    rw [if_pos hcond]
    refine ⟨_, rfl, fun hn ho hz => ?_, fun _ => by rw [value_ofUInt64 _ hw]; rfl⟩
    rcases hzero with h' | h' | h' <;> simp_all
  · have hn : fNegative = false := by simpa using fun h' => hzero (Or.inl h')
    have ho : fOverflow = false := by simpa using fun h' => hzero (Or.inr (Or.inl h'))
    have hz : T.value ≠ 0 := fun h' => hzero (Or.inr (Or.inr h'))
    have hcond : (fNegative || fOverflow || equalTo T 0) = false := by
      rw [hn, ho, Bool.false_or, Bool.false_or, Bool.eq_false_iff]
      exact fun h' => hz ((equalTo_iff T 0 hw).mp h')
    have hlt : T.value + 1 < 2 ^ 256 := by
      rw [hvalue]
      exact compactTarget_add_one_lt (by rw [Prod.mk.injEq] at hflags; rw [← hflags.2, ho])
    have hone : (ofUInt64 1 : ArithUint256).value = 1 := value_ofUInt64 _ hw
    have hdivisor : (add T (ofUInt64 1)).value = T.value + 1 := by
      rw [value_add, hone, hwidth, Nat.mod_eq_of_lt hlt]
    obtain ⟨q, hq, hqv⟩ := div_eq_ok (complement T) (add T (ofUInt64 1)) (by omega)
    rw [hdivisor, value_complement, hwidth] at hqv
    have hquot : q.value + 1 < 2 ^ 256 := by
      rw [hqv]
      calc (2 ^ 256 - 1 - T.value) / (T.value + 1) + 1 ≤ (2 ^ 256 - 1 - T.value) / 1 + 1 :=
            Nat.add_le_add_right (Nat.div_le_div_left (by omega) (by omega)) 1
        _ < 2 ^ 256 := by omega
    rw [if_neg (by rw [hcond]; exact Bool.false_ne_true), hq]
    refine ⟨_, rfl, fun _ _ _ => ⟨hlt, by rwa [← hqv], ?_⟩, fun h' => absurd h' hzero⟩
    rw [value_add, hone, hwidth, Nat.mod_eq_of_lt hquot, hqv, div_add_one_eq hlt.le]

/-- The proof-of-work limit `0x1d00ffff` decodes with neither flag set. -/
theorem get_block_proof_pow_limit :
    setCompact 0x1d00ffff = ((setCompact 0x1d00ffff).1, false, false) ∧
      ∃ proof, getBlockProof (⟨none, none, 0, 0, 0x1d00ffff, 0⟩ : CBlockIndex Nat) = .ok proof ∧
        (false = false → false = false → (setCompact 0x1d00ffff).1.value ≠ 0 →
          (setCompact 0x1d00ffff).1.value + 1 < 2 ^ 256 ∧
            (2 ^ 256 - 1 - (setCompact 0x1d00ffff).1.value) /
              ((setCompact 0x1d00ffff).1.value + 1) + 1 < 2 ^ 256 ∧
            proof.value = 2 ^ 256 / ((setCompact 0x1d00ffff).1.value + 1)) ∧
        (false = true ∨ false = true ∨ (setCompact 0x1d00ffff).1.value = 0 → proof.value = 0) :=
  ⟨by decide, get_block_proof_exact ⟨none, none, 0, 0, 0x1d00ffff, 0⟩ _ false false (by decide)⟩

end TbcNode.Chain
