import Mathlib

/-! # Occupancy of slot tables

The `occupancy` of a value is the number of slots of a table holding it; writing a slot moves one
unit from the old value to the new (`occupancy_update`), which a reference count beside the table
follows.
-/

namespace TbcNode.Logic

variable {ι α : Type*} [Fintype ι] [DecidableEq α]

def occupancy (t : ι → α) (a : α) : Nat := (Finset.univ.filter fun i => t i = a).card

theorem occupancy_eq_sum (t : ι → α) (a : α) :
    occupancy t a = ∑ i, if t i = a then 1 else 0 :=
  Finset.card_filter _ _

theorem occupancy_eq_zero {t : ι → α} {a : α} : occupancy t a = 0 ↔ ∀ i, t i ≠ a := by
  simp [occupancy, Finset.filter_eq_empty_iff]

theorem occupancy_pos {t : ι → α} {a : α} : 0 < occupancy t a ↔ ∃ i, t i = a := by
  simp [occupancy, Finset.card_pos, Finset.filter_nonempty_iff]

theorem occupancy_eq_one {t : ι → α} {a : α} {i : ι} (hi : t i = a) (h : ∀ j, t j = a → j = i) :
    occupancy t a = 1 := by
  rw [occupancy, Finset.card_eq_one]
  refine ⟨i, Finset.ext fun j => ?_⟩
  simp only [Finset.mem_filter, Finset.mem_univ, true_and, Finset.mem_singleton]
  exact ⟨h j, fun hj => hj ▸ hi⟩

section Update

variable [DecidableEq ι]

/-- Writing `v` to slot `i` moves one unit of occupancy from what `i` held to `v`. -/
theorem occupancy_update (t : ι → α) (i : ι) (v a : α) :
    occupancy (Function.update t i v) a + (if t i = a then 1 else 0) =
      occupancy t a + (if v = a then 1 else 0) := by
  have hg : (fun j => if Function.update t i v j = a then 1 else 0) =
      Function.update (fun j => if t j = a then 1 else 0) i (if v = a then 1 else 0) := by
    funext j
    by_cases hj : j = i
    · subst hj
      simp
    · simp [Function.update_of_ne hj]
  rw [occupancy_eq_sum, occupancy_eq_sum, hg, Finset.sum_update_of_mem (Finset.mem_univ i),
    Finset.sdiff_singleton_eq_erase, ← Finset.add_sum_erase _ _ (Finset.mem_univ i)]
  omega

theorem occupancy_update_of_ne {t : ι → α} {i : ι} {v a : α} (hi : t i ≠ a) (hv : v ≠ a) :
    occupancy (Function.update t i v) a = occupancy t a := by
  simpa [hi, hv] using occupancy_update t i v a

theorem occupancy_update_self {t : ι → α} {i : ι} {a : α} (hi : t i ≠ a) :
    occupancy (Function.update t i a) a = occupancy t a + 1 := by
  simpa [hi] using occupancy_update t i a a

theorem occupancy_update_of_eq {t : ι → α} {i : ι} {v a : α} (hi : t i = a) (hv : v ≠ a) :
    occupancy (Function.update t i v) a + 1 = occupancy t a := by
  simpa [hi, hv] using occupancy_update t i v a

end Update

end TbcNode.Logic
