import Mathlib.Algebra.BigOperators.Group.List.Basic
import Mathlib.Tactic.Ring

/-! # Sums checked as they are accumulated

`checkedSum pre val post` adds `val x` for each element, checking `pre x` before the addition and
`post x` on the new sum. It accepts exactly when every element passes both checks at its prefix sum
(`checkedSum_eq_ok_iff`).
-/

namespace TbcNode.Logic

variable {α ε : Type*}

section Loop

variable (pre : α → Option ε) (val : α → Int) (post : α → Int → Option ε)

/-- Add `val x` for each `x`, checking `pre x` first and `post x` on the new sum. -/
def checkedSum : Int → List α → Except ε Int
  | s, [] => .ok s
  | s, x :: xs =>
    match pre x with
    | some e => .error e
    | none =>
      match post x (s + val x) with
      | some e => .error e
      | none => checkedSum (s + val x) xs

/-- The additions `checkedSum` performs: the running sum and the value added to it, in order. -/
def checkedAdditions : Int → List α → List (Int × Int)
  | _, [] => []
  | s, x :: xs =>
    match pre x with
    | some _ => []
    | none =>
      (s, val x) :: match post x (s + val x) with
        | some _ => []
        | none => checkedAdditions (s + val x) xs

/-- Every element passes both checks, each at the sum of the values up to and including it. -/
def AllPass (s : Int) (l : List α) : Prop :=
  ∀ k (hk : k < l.length), pre l[k] = none ∧ post l[k] (s + ((l.take (k + 1)).map val).sum) = none

end Loop

section Lemmas

variable {pre : α → Option ε} {val : α → Int} {post : α → Int → Option ε}

theorem allPass_nil (s : Int) : AllPass pre val post s [] := fun _ hk => absurd hk (by simp)

theorem allPass_cons {s : Int} {x : α} {xs : List α} :
    AllPass pre val post s (x :: xs) ↔
      pre x = none ∧ post x (s + val x) = none ∧ AllPass pre val post (s + val x) xs := by
  constructor
  · intro h
    obtain ⟨hpre, hpost⟩ := h 0 (by simp)
    refine ⟨hpre, by simpa using hpost, fun k hk => ?_⟩
    obtain ⟨hpre', hpost'⟩ := h (k + 1) (by simpa using hk)
    refine ⟨by simpa using hpre', ?_⟩
    simpa [List.take_succ_cons, Int.add_assoc] using hpost'
  · rintro ⟨hpre, hpost, h⟩ k hk
    cases k with
    | zero => exact ⟨hpre, by simpa using hpost⟩
    | succ k =>
      obtain ⟨hpre', hpost'⟩ := h k (by simpa using hk)
      refine ⟨by simpa using hpre', ?_⟩
      simpa [List.take_succ_cons, Int.add_assoc] using hpost'

/-- The loop accepts exactly when every element passes, and then returns the whole sum. -/
theorem checkedSum_eq_ok_iff (s t : Int) (l : List α) :
    checkedSum pre val post s l = .ok t ↔
      AllPass pre val post s l ∧ t = s + (l.map val).sum := by
  induction l generalizing s with
  | nil =>
    simp only [checkedSum, Except.ok.injEq, List.map_nil, List.sum_nil, Int.add_zero]
    exact ⟨fun h => ⟨allPass_nil s, h.symm⟩, fun h => h.2.symm⟩
  | cons x xs ih =>
    rw [allPass_cons, List.map_cons, List.sum_cons, ← Int.add_assoc]
    unfold checkedSum
    cases hpre : pre x with
    | some e => simp
    | none =>
      cases hpost : post x (s + val x) with
      | some e => simp
      | none => simp [ih]

theorem exists_checkedSum_eq_ok_iff (s : Int) (l : List α) :
    (∃ t, checkedSum pre val post s l = .ok t) ↔ AllPass pre val post s l := by
  simp only [checkedSum_eq_ok_iff]
  exact ⟨fun ⟨_, h, _⟩ => h, fun h => ⟨_, h, rfl⟩⟩

theorem allPass_iff (s : Int) (l : List α) :
    AllPass pre val post s l ↔ (∀ x ∈ l, pre x = none) ∧
      ∀ k (hk : k < l.length), post l[k] (s + ((l.take (k + 1)).map val).sum) = none := by
  constructor
  · intro h
    refine ⟨fun x hx => ?_, fun k hk => (h k hk).2⟩
    obtain ⟨k, hk, rfl⟩ := List.getElem_of_mem hx
    exact (h k hk).1
  · rintro ⟨hpre, hpost⟩ k hk
    exact ⟨hpre _ (List.getElem_mem hk), hpost k hk⟩

theorem checkedSum_invariant (I : Int → Prop) (hpost : ∀ x t, post x t = none → I t) :
    ∀ (l : List α) (s t : Int), I s → checkedSum pre val post s l = .ok t → I t := by
  intro l
  induction l with
  | nil =>
    intro s t hs h
    obtain rfl : s = t := Except.ok.inj h
    exact hs
  | cons x xs ih =>
    intro s t hs h
    unfold checkedSum at h
    cases hpre : pre x with
    | some e => simp [hpre] at h
    | none =>
      cases hp : post x (s + val x) with
      | some e => simp [hpre, hp] at h
      | none =>
        simp only [hpre, hp] at h
        exact ih (s + val x) t (hpost x _ hp) h

/-- An invariant of the running sum that holds at the start and that every sum passing `post`
has holds of every sum an addition is made to; each added value is one of an element that passed
`pre`. -/
theorem forall_checkedAdditions (I : Int → Prop) (hpost : ∀ x t, post x t = none → I t) :
    ∀ (l : List α) (s : Int), I s → ∀ p ∈ checkedAdditions pre val post s l,
      I p.1 ∧ ∃ x ∈ l, pre x = none ∧ p.2 = val x := by
  intro l
  induction l with
  | nil => simp [checkedAdditions]
  | cons x xs ih =>
    intro s hs p hp
    unfold checkedAdditions at hp
    cases hpre : pre x with
    | some e => simp [hpre] at hp
    | none =>
      simp only [hpre, List.mem_cons] at hp
      rcases hp with rfl | hp
      · exact ⟨hs, x, List.mem_cons_self, hpre, rfl⟩
      · cases hp' : post x (s + val x) with
        | some e => simp [hp'] at hp
        | none =>
          simp only [hp'] at hp
          obtain ⟨hI, y, hy, hpre', hval⟩ := ih (s + val x) (hpost x _ hp') p hp
          exact ⟨hI, y, List.mem_cons_of_mem x hy, hpre', hval⟩

end Lemmas

end TbcNode.Logic
