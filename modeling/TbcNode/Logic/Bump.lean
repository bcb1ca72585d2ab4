import Mathlib.Logic.Function.Basic

/-! # Bump allocation

A bump allocator hands out a range at the end of a key's size and grows the size past it. `Bumped`
is the invariant over the ranges handed out, `Bumped.bump` its step and `Bumped.disjoint` what it
gives: the ranges at one key are pairwise disjoint.
-/

namespace TbcNode.Logic

/-- A range of `size` units from `start` at the key `key`. -/
structure Range (κ : Type) where
  key : κ
  start : Nat
  size : Nat
  deriving DecidableEq, Repr

variable {κ : Type}

/-- An earlier range at the key of a later one ends where the later one may start. -/
def Range.Before (a b : Range κ) : Prop := a.key = b.key → a.start + a.size ≤ b.start

/-- The ranges handed out so far, in order, against the sizes now. -/
structure Bumped (sz : κ → Nat) (R : List (Range κ)) : Prop where
  ordered : R.Pairwise Range.Before
  below : ∀ r ∈ R, r.start + r.size ≤ sz r.key

theorem bumped_nil (sz : κ → Nat) : Bumped sz [] where
  ordered := List.Pairwise.nil
  below := fun _ h => absurd h List.not_mem_nil

theorem Bumped.mono {sz sz' : κ → Nat} {R : List (Range κ)} (h : Bumped sz R)
    (hle : ∀ j, sz j ≤ sz' j) : Bumped sz' R where
  ordered := h.ordered
  below := fun r hr => Nat.le_trans (h.below r hr) (hle r.key)

/-- A range handed out at the end of key `k`, with the size of `k` grown past it and no size
shrunk. -/
theorem Bumped.bump {sz sz' : κ → Nat} {R : List (Range κ)} {k : κ} {n : Nat} (h : Bumped sz R)
    (hk : sz k + n ≤ sz' k) (hle : ∀ j, sz j ≤ sz' j) : Bumped sz' (R ++ [⟨k, sz k, n⟩]) where
  ordered := by
    refine List.pairwise_append.mpr ⟨h.ordered, List.pairwise_singleton _ _, ?_⟩
    intro a ha b hb hkey
    rw [List.mem_singleton] at hb
    subst hb
    have hbelow := h.below a ha
    rw [hkey] at hbelow
    exact hbelow
  below := by
    intro r hr
    rcases List.mem_append.mp hr with hr | hr
    · exact (h.mono hle).below r hr
    · rw [List.mem_singleton] at hr
      subst hr
      exact hk

theorem Bumped.bump_update [DecidableEq κ] {sz : κ → Nat} {R : List (Range κ)} (h : Bumped sz R)
    (k : κ) (n : Nat) : Bumped (Function.update sz k (sz k + n)) (R ++ [⟨k, sz k, n⟩]) := by
  refine h.bump (Nat.le_of_eq (Function.update_self k _ sz).symm) fun j => ?_
  by_cases hj : j = k
  · subst hj
    rw [Function.update_self]
    exact Nat.le_add_right _ _
  · exact Nat.le_of_eq (Function.update_of_ne hj _ sz).symm

/-- Of two ranges handed out at one key, the earlier ends before the later starts. -/
theorem Bumped.disjoint {sz : κ → Nat} {R : List (Range κ)} (h : Bumped sz R) {i j : Nat}
    (hij : i < j) (hj : j < R.length) (hkey : R[i].key = R[j].key) :
    R[i].start + R[i].size ≤ R[j].start :=
  List.pairwise_iff_getElem.mp h.ordered i j (Nat.lt_trans hij hj) hj hij hkey

end TbcNode.Logic
