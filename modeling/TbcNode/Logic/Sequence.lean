import Mathlib.Logic.Basic

/-! # Sequences as a resizable array changes them

`std::vector` operations on the list of elements and reads by `getD` through them: `resize n d`
keeps `n` elements and pads with `d`; `countNone l q` counts the empty slots below `q`.
-/

namespace TbcNode.Logic

variable {β : Type*}

def resize (v : List β) (n : Nat) (d : β) : List β := v.take n ++ List.replicate (n - v.length) d

@[simp] theorem length_resize (v : List β) (n : Nat) (d : β) : (resize v n d).length = n := by
  simp only [resize, List.length_append, List.length_take, List.length_replicate]
  omega

theorem getD_resize (v : List β) (n i : Nat) (d : β) :
    (resize v n d).getD i d = if i < n then v.getD i d else d := by
  simp only [resize, List.getD_eq_getElem?_getD]
  by_cases hv : i < (v.take n).length
  · rw [List.getElem?_append_left hv, List.getElem?_take]
    simp only [List.length_take] at hv
    rw [if_pos (by omega), if_pos (by omega)]
  · rw [List.getElem?_append_right (by omega), List.getElem?_replicate]
    simp only [List.length_take] at hv ⊢
    split
    · rw [if_pos (by omega), List.getElem?_eq_none (by omega)]
      rfl
    · rw [if_neg (by omega)]
      rfl

theorem getD_set (v : List β) (i j : Nat) (a d : β) :
    (v.set i a).getD j d = if i = j ∧ i < v.length then a else v.getD j d := by
  simp only [List.getD_eq_getElem?_getD, List.getElem?_set]
  by_cases hij : i = j
  · by_cases hi : i < v.length
    · rw [if_pos hij, if_pos hi, if_pos ⟨hij, hi⟩]
      rfl
    · rw [if_pos hij, if_neg hi, if_neg (fun h => hi h.2), ← hij, List.getElem?_eq_none (by omega)]
  · rw [if_neg hij, if_neg (fun h => hij h.1)]

theorem take_eq_map_getD (l : List β) (d : β) {n : Nat} (h : n ≤ l.length) :
    l.take n = (List.range n).map (l.getD · d) := by
  apply List.ext_getElem
  · simp [h]
  · intro i h₁ _
    simp only [List.getElem_take, List.getElem_map, List.getElem_range,
      List.getD_eq_getElem?_getD]
    rw [List.getElem?_eq_getElem (by simp at h₁; omega)]
    rfl

/-- A list of length `a + m + b` is its first `a` elements, the `m` after them, and its last `b`
elements. -/
theorem eq_getD_slice_getD (l : List β) (d : β) {a m b : Nat} (h : l.length = a + m + b) :
    l = (List.range a).map (l.getD · d) ++ (l.drop a).take m ++
      (List.range b).map fun i => l.getD (a + m + i) d := by
  have hsuffix : (l.drop (a + m)).take b = (List.range b).map fun i => l.getD (a + m + i) d := by
    rw [take_eq_map_getD _ d (by simp; omega)]
    simp only [List.getD_eq_getElem?_getD, List.getElem?_drop]
  have hdrop : l.drop (a + m) = (l.drop (a + m)).take b :=
    (List.take_of_length_le (by simp; omega)).symm
  have hdd : (l.drop a).drop m = l.drop (a + m) := by
    rw [List.drop_drop]
  rw [← take_eq_map_getD _ d (by omega), ← hsuffix, ← hdrop, List.append_assoc, ← hdd,
    List.take_append_drop, List.take_append_drop]

/-! ### Empty slots -/

/-- The number of empty slots among the first `q`. -/
def countNone (l : List (Option β)) (q : Nat) : Nat := (l.take q).countP Option.isNone

theorem countNone_succ_of_none {l : List (Option β)} {q : Nat} (h : l[q]? = some none) :
    countNone l (q + 1) = countNone l q + 1 := by
  rw [countNone, List.take_add_one, List.countP_append, h]
  rfl

theorem countNone_succ_of_ne {l : List (Option β)} {q : Nat} (h : l[q]? ≠ some none) :
    countNone l (q + 1) = countNone l q := by
  rw [countNone, List.take_add_one, List.countP_append]
  cases hq : l[q]? with
  | none => simp [countNone]
  | some x =>
    cases x with
    | none => exact absurd hq h
    | some y => simp [countNone]

theorem countNone_mono (l : List (Option β)) {a b : Nat} (h : a ≤ b) :
    countNone l a ≤ countNone l b := by
  induction b with
  | zero =>
    obtain rfl := Nat.le_zero.mp h
    exact Nat.le_refl _
  | succ b ih =>
    rcases Nat.lt_or_ge a (b + 1) with hlt | hge
    · by_cases hq : l[b]? = some none
      · rw [countNone_succ_of_none hq]
        have := ih (by omega)
        omega
      · rw [countNone_succ_of_ne hq]
        exact ih (by omega)
    · obtain rfl := Nat.le_antisymm h hge
      exact Nat.le_refl _

theorem countNone_le_add (l : List (Option β)) {a b : Nat} (h : a ≤ b) :
    countNone l b ≤ countNone l a + (b - a) := by
  induction b with
  | zero =>
    obtain rfl := Nat.le_zero.mp h
    simp
  | succ b ih =>
    rcases Nat.lt_or_ge a (b + 1) with hlt | hge
    · have := ih (by omega)
      by_cases hq : l[b]? = some none
      · rw [countNone_succ_of_none hq]
        omega
      · rw [countNone_succ_of_ne hq]
        omega
    · obtain rfl := Nat.le_antisymm h hge
      simp

theorem countNone_of_length_le {l : List (Option β)} {q : Nat} (h : l.length ≤ q) :
    countNone l q = countNone l l.length := by
  rw [countNone, countNone, List.take_of_length_le h, List.take_length]

theorem lt_length_of_countNone {l : List (Option β)} {i q : Nat}
    (hroom : i < countNone l l.length) (hcount : countNone l q = i) :
    q < l.length ∧ q - i ≤ l.length - countNone l l.length := by
  have hq : q < l.length := by
    refine Nat.lt_of_not_le fun hge => ?_
    rw [countNone_of_length_le hge] at hcount
    omega
  have := countNone_le_add l (Nat.le_of_lt hq)
  exact ⟨hq, by omega⟩

theorem exists_none_of_countNone_lt {l : List (Option β)} {a b : Nat}
    (h : countNone l a < countNone l b) : ∃ q, a ≤ q ∧ q < b ∧ l[q]? = some none := by
  induction b with
  | zero => simp [countNone] at h
  | succ b ih =>
    by_cases hq : l[b]? = some none
    · by_cases hab : countNone l a < countNone l b
      · obtain ⟨q, haq, hqb, hfree⟩ := ih hab
        exact ⟨q, haq, by omega, hfree⟩
      · refine ⟨b, ?_, by omega, hq⟩
        rcases Nat.lt_or_ge b a with hlt | hle
        · have := countNone_mono l (show b + 1 ≤ a by omega)
          omega
        · exact hle
    · rw [countNone_succ_of_ne hq] at h
      obtain ⟨q, haq, hqb, hfree⟩ := ih h
      exact ⟨q, haq, by omega, hfree⟩

theorem countNone_lt_of_none {l : List (Option β)} {q q' : Nat} (hq : l[q]? = some none)
    (hlt : q < q') : countNone l q < countNone l q' := by
  have h := countNone_mono l (show q + 1 ≤ q' by omega)
  rw [countNone_succ_of_none hq] at h
  omega

theorem countNone_eq_of_filled {l : List (Option β)} {a b : Nat} (hab : a ≤ b)
    (h : ∀ q, a ≤ q → q < b → l[q]? ≠ some none) : countNone l b = countNone l a := by
  have hle := countNone_mono l hab
  rcases Nat.lt_or_ge (countNone l a) (countNone l b) with hlt | hge
  · obtain ⟨q, haq, hqb, hfree⟩ := exists_none_of_countNone_lt hlt
    exact absurd hfree (h q haq hqb)
  · omega

/-- Slot `q` is empty and `j` empty slots lie below it: it is the `j`-th empty slot. -/
def IsNthFree (l : List (Option β)) (j q : Nat) : Prop := l[q]? = some none ∧ countNone l q = j

theorem IsNthFree.unique {l : List (Option β)} {j q q' : Nat} (h : IsNthFree l j q)
    (h' : IsNthFree l j q') : q = q' := by
  rcases Nat.lt_trichotomy q q' with hlt | heq | hgt
  · have hcount := countNone_lt_of_none h.1 hlt
    rw [h.2, h'.2] at hcount
    exact absurd hcount (Nat.lt_irrefl j)
  · exact heq
  · have hcount := countNone_lt_of_none h'.1 hgt
    rw [h.2, h'.2] at hcount
    exact absurd hcount (Nat.lt_irrefl j)

theorem isNthFree_append_replicate {pre : List (Option β)} (hpre : ∀ x ∈ pre, x.isSome)
    {n j : Nat} (hj : j < n) : IsNthFree (pre ++ List.replicate n none) j (j + pre.length) := by
  have hpre' : pre.countP Option.isNone = 0 :=
    List.countP_eq_zero.mpr fun x hx => by simpa [Option.isSome_iff_ne_none] using hpre x hx
  refine ⟨?_, ?_⟩
  · rw [List.getElem?_append_right (by omega), Nat.add_sub_cancel, List.getElem?_replicate]
    simp [hj]
  · rw [countNone, Nat.add_comm, List.take_length_add_append, List.countP_append, hpre',
      List.take_replicate, List.countP_replicate]
    simp
    omega

theorem countNone_length (l : List (Option β)) :
    countNone l l.length = l.countP Option.isNone := by
  rw [countNone, List.take_length]

theorem countNone_eq_countP_range {l : List (Option β)} {f : Nat → Bool} {q : Nat}
    (hf : ∀ q' < q, f q' = true ↔ l[q']? = some none) :
    countNone l q = (List.range q).countP f := by
  induction q with
  | zero => rfl
  | succ q ih =>
    rw [List.range_succ, List.countP_append, ← ih (fun q' hq' => hf q' (by omega))]
    by_cases hq : l[q]? = some none
    · rw [countNone_succ_of_none hq]
      simp [(hf q (by omega)).mpr hq]
    · have hfq : f q = false := Bool.eq_false_iff.mpr fun h => hq ((hf q (by omega)).mp h)
      rw [countNone_succ_of_ne hq]
      simp [hfq]

end TbcNode.Logic
