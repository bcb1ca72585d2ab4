import Mathlib.Logic.Basic

/-! # Forests graded by level

A forest given by each node's parent, one level below it. The ancestors of a node form one chain
with one node at each level (`ancestorAt`), two nodes of one tree have a last common ancestor
(`LastCommon`), and `walkUntil` walks up to the first node a test accepts.
-/

namespace TbcNode.Logic

/-- A forest on `α`: each node's parent, if it has one, is one level below it, and the roots are
at level 0. -/
structure GradedForest (α : Type*) where
  parent : α → Option α
  level : α → Nat
  level_parent : ∀ {p q}, parent p = some q → level q + 1 = level p
  level_root : ∀ {p}, parent p = none → level p = 0

namespace GradedForest

variable {α : Type*} (F : GradedForest α)

def up : α → Nat → Option α
  | p, 0 => some p
  | p, k + 1 => (F.parent p).bind fun q => up q k

def IsAncestor (q p : α) : Prop := ∃ k, F.up p k = some q

/-- The ancestor of `p` at level `h`, if `h` is at most the level of `p`. -/
def ancestorAt (p : α) (h : Nat) : Option α :=
  if h ≤ F.level p then F.up p (F.level p - h) else none

/-- What a search for the last common ancestor of `a` and `b` may return: an ancestor of both
above which lies every common ancestor, or nothing when `a` and `b` have no common ancestor. -/
def LastCommon (a b : α) : Option α → Prop
  | some c => F.IsAncestor c a ∧ F.IsAncestor c b ∧
      ∀ d, F.IsAncestor d a → F.IsAncestor d b → F.IsAncestor d c
  | none => ∀ d, F.IsAncestor d a → ¬ F.IsAncestor d b

theorem parent_elim_eq (p : α) : (F.parent p).elim 0 (F.level · + 1) = F.level p := by
  cases hq : F.parent p with
  | none => exact (F.level_root hq).symm
  | some q => exact F.level_parent hq

theorem parent_elim_lt (p : α) : (F.parent p).elim 0 (F.level · + 1) < F.level p + 1 := by
  rw [parent_elim_eq]
  exact Nat.lt_succ_self _

/-- The walk up from `p` to the first node that `stop` accepts; nothing once it passes a root. -/
def walkUntil (stop : α → Bool) : Option α → Option α
  | none => none
  | some p => if stop p then some p else walkUntil stop (F.parent p)
termination_by o => o.elim 0 (F.level · + 1)
decreasing_by exact F.parent_elim_lt p

variable {F}

@[simp] theorem up_zero (p : α) : F.up p 0 = some p := rfl

theorem up_succ (p : α) (k : Nat) : F.up p (k + 1) = (F.parent p).bind fun q => F.up q k := rfl

theorem walkUntil_some (stop : α → Bool) (p : α) :
    F.walkUntil stop (some p) = if stop p then some p else F.walkUntil stop (F.parent p) := by
  rw [walkUntil]

theorem parent_of_level_pos {p : α} (h : 0 < F.level p) : ∃ q, F.parent p = some q := by
  cases hq : F.parent p with
  | none => exact absurd (F.level_root hq) (Nat.pos_iff_ne_zero.mp h)
  | some q => exact ⟨q, rfl⟩

/-! ### Ancestors -/

theorem level_of_up {p q : α} {k : Nat} (h : F.up p k = some q) : F.level q + k = F.level p := by
  induction k generalizing p with
  | zero => cases h; rfl
  | succ k ih =>
    rw [up_succ] at h
    cases hp : F.parent p with
    | none => rw [hp] at h; cases h
    | some r =>
      rw [hp] at h
      have hr := ih h
      have hlevel := F.level_parent hp
      omega

theorem up_of_le {p : α} {k : Nat} (h : k ≤ F.level p) : ∃ q, F.up p k = some q := by
  induction k generalizing p with
  | zero => exact ⟨p, rfl⟩
  | succ k ih =>
    obtain ⟨r, hr⟩ := parent_of_level_pos (F := F) (p := p) (by omega)
    have hlevel := F.level_parent hr
    obtain ⟨q, hq⟩ := ih (p := r) (by omega)
    exact ⟨q, by rw [up_succ, hr]; exact hq⟩

theorem up_add (p : α) (k j : Nat) : F.up p (k + j) = (F.up p k).bind fun q => F.up q j := by
  induction k generalizing p with
  | zero => simp
  | succ k ih =>
    rw [Nat.add_right_comm, up_succ, up_succ]
    cases F.parent p with
    | none => rfl
    | some r => exact ih r

theorem isAncestor_refl (p : α) : F.IsAncestor p p := ⟨0, rfl⟩

theorem isAncestor_trans {a b c : α} (hab : F.IsAncestor a b) (hbc : F.IsAncestor b c) :
    F.IsAncestor a c := by
  obtain ⟨j, hj⟩ := hab
  obtain ⟨k, hk⟩ := hbc
  exact ⟨k + j, by rw [up_add, hk]; exact hj⟩

theorem isAncestor_of_parent {p q : α} (h : F.parent p = some q) : F.IsAncestor q p :=
  ⟨1, by rw [up_succ, h]; rfl⟩

theorem level_le_of_isAncestor {q p : α} (h : F.IsAncestor q p) : F.level q ≤ F.level p := by
  obtain ⟨k, hk⟩ := h
  have := level_of_up hk
  omega

theorem isAncestor_iff {d p : α} :
    F.IsAncestor d p ↔ d = p ∨ ∃ q, F.parent p = some q ∧ F.IsAncestor d q := by
  constructor
  · rintro ⟨k, hk⟩
    cases k with
    | zero => exact .inl (Option.some.inj hk).symm
    | succ k =>
      rw [up_succ] at hk
      cases hp : F.parent p with
      | none => rw [hp] at hk; cases hk
      | some q => rw [hp] at hk; exact .inr ⟨q, rfl, k, hk⟩
  · rintro (rfl | ⟨q, hq, hd⟩)
    · exact isAncestor_refl d
    · exact isAncestor_trans hd (isAncestor_of_parent hq)

theorem isAncestor_unique {p q q' : α} (hq : F.IsAncestor q p) (hq' : F.IsAncestor q' p)
    (hlevel : F.level q = F.level q') : q = q' := by
  obtain ⟨k, hk⟩ := hq
  obtain ⟨k', hk'⟩ := hq'
  have hkk : k = k' := by
    have := level_of_up hk
    have := level_of_up hk'
    omega
  subst hkk
  exact Option.some.inj (hk.symm.trans hk')

theorem isAncestor_of_level_le {p q r : α} (hq : F.IsAncestor q p) (hr : F.IsAncestor r p)
    (hlevel : F.level r ≤ F.level q) : F.IsAncestor r q := by
  obtain ⟨k, hk⟩ := hq
  obtain ⟨j, hj⟩ := hr
  have hq := level_of_up hk
  have hr := level_of_up hj
  obtain ⟨s, hs⟩ := up_of_le (p := q) (k := F.level q - F.level r) (Nat.sub_le _ _)
  have hrs : r = s := by
    refine isAncestor_unique ⟨j, hj⟩ ⟨k + (F.level q - F.level r), ?_⟩ ?_
    · rw [up_add, hk]; exact hs
    · have := level_of_up hs
      omega
  subst hrs
  exact ⟨_, hs⟩

theorem isAncestor_antisymm {a b : α} (hab : F.IsAncestor a b) (hba : F.IsAncestor b a) :
    a = b :=
  isAncestor_unique hab (isAncestor_refl b)
    (Nat.le_antisymm (level_le_of_isAncestor hab) (level_le_of_isAncestor hba))

theorem ancestorAt_eq_some_iff {p q : α} {h : Nat} :
    F.ancestorAt p h = some q ↔ F.IsAncestor q p ∧ F.level q = h := by
  unfold ancestorAt
  constructor
  · intro hq
    split at hq
    case isFalse => cases hq
    have := level_of_up hq
    exact ⟨⟨_, hq⟩, by omega⟩
  · rintro ⟨⟨k, hk⟩, rfl⟩
    have hlevel := level_of_up hk
    rw [if_pos (by omega), show F.level p - F.level q = k by omega]
    exact hk

theorem ancestorAt_eq_none_iff {p : α} {h : Nat} : F.ancestorAt p h = none ↔ F.level p < h := by
  unfold ancestorAt
  split
  · obtain ⟨q, hq⟩ := up_of_le (p := p) (Nat.sub_le (F.level p) h)
    simp only [hq, reduceCtorEq, false_iff]
    omega
  · simp only [true_iff]
    omega

theorem ancestorAt_level (p : α) : F.ancestorAt p (F.level p) = some p :=
  ancestorAt_eq_some_iff.mpr ⟨isAncestor_refl p, rfl⟩

theorem ancestorAt_of_le {p : α} {h : Nat} (hh : h ≤ F.level p) :
    ∃ q, F.ancestorAt p h = some q := by
  cases hq : F.ancestorAt p h with
  | none => exact absurd (ancestorAt_eq_none_iff.mp hq) (Nat.not_lt.mpr hh)
  | some q => exact ⟨q, rfl⟩

theorem ancestorAt_of_isAncestor {p q : α} {h : Nat} (hq : F.IsAncestor q p)
    (hh : h ≤ F.level q) : F.ancestorAt p h = F.ancestorAt q h := by
  obtain ⟨r, hr⟩ := ancestorAt_of_le hh
  obtain ⟨hrq, hlevel⟩ := ancestorAt_eq_some_iff.mp hr
  rw [hr]
  exact ancestorAt_eq_some_iff.mpr ⟨isAncestor_trans hrq hq, hlevel⟩

theorem ancestorAt_eq_of_le {p p' : α} {h k : Nat} (hk : k ≤ h)
    (heq : F.ancestorAt p h = F.ancestorAt p' h) (hh : h ≤ F.level p) :
    F.ancestorAt p k = F.ancestorAt p' k := by
  obtain ⟨q, hq⟩ := ancestorAt_of_le hh
  obtain ⟨hqp, hlevel⟩ := ancestorAt_eq_some_iff.mp hq
  obtain ⟨hqp', -⟩ := ancestorAt_eq_some_iff.mp (heq ▸ hq)
  rw [ancestorAt_of_isAncestor hqp (by omega), ancestorAt_of_isAncestor hqp' (by omega)]

/-! ### Last common ancestors -/

theorem lastCommon_congr {a b a' b' : α}
    (h : ∀ d, F.IsAncestor d a ∧ F.IsAncestor d b ↔ F.IsAncestor d a' ∧ F.IsAncestor d b') :
    F.LastCommon a b = F.LastCommon a' b' := by
  funext r
  cases r with
  | none =>
    simp only [LastCommon, eq_iff_iff]
    exact forall_congr' fun d => by rw [← not_and, ← not_and, h d]
  | some c =>
    simp only [LastCommon, eq_iff_iff]
    constructor
    · rintro ⟨hca, hcb, hall⟩
      obtain ⟨hca', hcb'⟩ := (h c).mp ⟨hca, hcb⟩
      exact ⟨hca', hcb', fun d hda hdb => (h d).mpr ⟨hda, hdb⟩ |> fun ⟨x, y⟩ => hall d x y⟩
    · rintro ⟨hca, hcb, hall⟩
      obtain ⟨hca', hcb'⟩ := (h c).mpr ⟨hca, hcb⟩
      exact ⟨hca', hcb', fun d hda hdb => (h d).mp ⟨hda, hdb⟩ |> fun ⟨x, y⟩ => hall d x y⟩

theorem lastCommon_comm (a b : α) : F.LastCommon a b = F.LastCommon b a :=
  lastCommon_congr fun _ => and_comm

theorem lastCommon_unique {a b : α} {r r' : Option α} (h : F.LastCommon a b r)
    (h' : F.LastCommon a b r') : r = r' := by
  cases r with
  | none =>
    cases r' with
    | none => rfl
    | some c' => exact absurd h'.2.1 (h c' h'.1)
  | some c =>
    cases r' with
    | none => exact absurd h.2.1 (h' c h.1)
    | some c' =>
      exact congrArg some (isAncestor_antisymm (h'.2.2 c h.1 h.2.1) (h.2.2 c' h'.1 h'.2.1))

theorem lastCommon_of_isAncestor {a b : α} (h : F.IsAncestor b a) : F.LastCommon a b (some b) :=
  ⟨h, isAncestor_refl b, fun _ _ hdb => hdb⟩

theorem lastCommon_ancestorAt {a b c : α} (hc : F.ancestorAt a (F.level b) = some c) :
    F.LastCommon a b = F.LastCommon c b := by
  obtain ⟨hca, hlevel⟩ := ancestorAt_eq_some_iff.mp hc
  refine lastCommon_congr fun d => ⟨fun ⟨hda, hdb⟩ => ⟨?_, hdb⟩, fun ⟨hdc, hdb⟩ =>
    ⟨isAncestor_trans hdc hca, hdb⟩⟩
  exact isAncestor_of_level_le hca hda (hlevel ▸ level_le_of_isAncestor hdb)

theorem lastCommon_parents {a b a' b' : α} (hlevel : F.level a = F.level b) (hne : a ≠ b)
    (ha : F.parent a = some a') (hb : F.parent b = some b') :
    F.LastCommon a b = F.LastCommon a' b' := by
  refine lastCommon_congr fun d => ⟨fun ⟨hda, hdb⟩ => ?_, fun ⟨hda, hdb⟩ =>
    ⟨isAncestor_trans hda (isAncestor_of_parent ha), isAncestor_trans hdb (isAncestor_of_parent hb)⟩⟩
  rcases isAncestor_iff.mp hda with rfl | ⟨q, hq, hdq⟩
  · exact absurd (isAncestor_unique hdb (isAncestor_refl b) hlevel) hne
  rcases isAncestor_iff.mp hdb with rfl | ⟨r, hr, hdr⟩
  · exact absurd (isAncestor_unique hda (isAncestor_refl a) hlevel.symm).symm hne
  rw [ha] at hq
  rw [hb] at hr
  cases hq
  cases hr
  exact ⟨hdq, hdr⟩

theorem lastCommon_roots {a b : α} (hlevel : F.level a = F.level b) (hne : a ≠ b)
    (ha : F.parent a = none) : F.LastCommon a b none := by
  intro d hda hdb
  rcases isAncestor_iff.mp hda with rfl | ⟨q, hq, -⟩
  · exact hne (isAncestor_unique hdb (isAncestor_refl b) hlevel)
  · rw [ha] at hq
    cases hq

theorem lastCommon_walkUntil {stop : α → Bool} {t : α}
    (hstop : ∀ q, stop q = true ↔ F.IsAncestor q t) (p : α) :
    F.LastCommon t p (F.walkUntil stop (some p)) := by
  induction hn : F.level p generalizing p with
  | zero =>
    rw [walkUntil_some]
    by_cases hp : stop p
    · rw [if_pos hp]
      exact lastCommon_of_isAncestor ((hstop p).mp hp)
    · rw [if_neg hp]
      have hroot : F.parent p = none := by
        cases hq : F.parent p with
        | none => rfl
        | some q => have := F.level_parent hq; omega
      rw [hroot, walkUntil]
      intro d hdt hdp
      rcases isAncestor_iff.mp hdp with rfl | ⟨q, hq, -⟩
      · exact hp ((hstop d).mpr hdt)
      · rw [hroot] at hq
        cases hq
  | succ n ih =>
    rw [walkUntil_some]
    by_cases hp : stop p
    · rw [if_pos hp]
      exact lastCommon_of_isAncestor ((hstop p).mp hp)
    · rw [if_neg hp]
      obtain ⟨q, hq⟩ := parent_of_level_pos (F := F) (p := p) (by omega)
      have hlevel := F.level_parent hq
      rw [hq]
      have hcommon : F.LastCommon t p = F.LastCommon t q := by
        refine lastCommon_congr fun d => ⟨fun ⟨hdt, hdp⟩ => ⟨hdt, ?_⟩, fun ⟨hdt, hdq⟩ =>
          ⟨hdt, isAncestor_trans hdq (isAncestor_of_parent hq)⟩⟩
        rcases isAncestor_iff.mp hdp with rfl | ⟨r, hr, hdr⟩
        · exact absurd ((hstop d).mpr hdt) hp
        · rw [hq] at hr
          cases hr
          exact hdr
      rw [hcommon]
      exact ih q (by omega)

end GradedForest

end TbcNode.Logic
