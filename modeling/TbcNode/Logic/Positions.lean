import Mathlib

/-! # Vectors whose keys know their positions

`Indexes l pos`: position `i` of `l` holds `a` exactly when `pos a = some i`, as `vRandom` and
`nRandomPos`. Appending, swapping two positions and dropping the last keep it when the positions
move along.
-/

namespace TbcNode.Logic

variable {α : Type*}

theorem getElem?_set_set {l : List α} {i j : Nat} (hi : i < l.length) (hj : j < l.length)
    (a b : α) (k : Nat) :
    ((l.set i b).set j a)[k]? = if k = j then some a else if k = i then some b else l[k]? := by
  rw [List.getElem?_set, List.getElem?_set, List.length_set]
  by_cases hkj : k = j
  · simp [hkj, hj]
  · by_cases hki : k = i
    · subst hki
      simp [hi, hkj, Ne.symm hkj]
    · simp [hkj, hki, Ne.symm hkj, Ne.symm hki]

/-- Position `i` of `l` holds `a` exactly when `a` records position `i`. -/
def Indexes (l : List α) (pos : α → Option Nat) : Prop :=
  ∀ i a, l[i]? = some a ↔ pos a = some i

namespace Indexes

variable {l : List α} {pos pos' : α → Option Nat}

theorem getElem?_eq (h : Indexes l pos) {a : α} {i : Nat} (ha : pos a = some i) :
    l[i]? = some a :=
  (h i a).mpr ha

theorem lt_length (h : Indexes l pos) {a : α} {i : Nat} (ha : pos a = some i) : i < l.length :=
  (List.getElem?_eq_some_iff.mp (h.getElem?_eq ha)).1

theorem mem_iff (h : Indexes l pos) {a : α} : a ∈ l ↔ (pos a).isSome := by
  rw [List.mem_iff_getElem?]
  constructor
  · rintro ⟨i, hi⟩
    simp [(h i a).mp hi]
  · intro ha
    obtain ⟨i, hi⟩ := Option.isSome_iff_exists.mp ha
    exact ⟨i, h.getElem?_eq hi⟩

theorem inj (h : Indexes l pos) {a b : α} {i : Nat} (ha : pos a = some i)
    (hb : pos b = some i) : a = b :=
  Option.some.inj (((h i a).mpr ha).symm.trans ((h i b).mpr hb))

theorem nodup (h : Indexes l pos) : l.Nodup := by
  rw [List.nodup_iff_getElem?_ne_getElem?]
  intro i j hij hj heq
  have ha : l[i]? = some l[i] := List.getElem?_eq_getElem (by omega)
  have hi := (h i _).mp ha
  have hj' := (h j _).mp (heq ▸ ha)
  rw [hi] at hj'
  exact absurd (Option.some.inj hj') (Nat.ne_of_lt hij)

section Update

variable [DecidableEq α]

/-- Appending a key without a position, which records the old length. -/
theorem append (h : Indexes l pos) {a : α} (ha : pos a = none)
    (hpos : ∀ x, pos' x = if x = a then some l.length else pos x) :
    Indexes (l ++ [a]) pos' := by
  intro i x
  rw [hpos, List.getElem?_append]
  by_cases hx : x = a
  · subst hx
    rw [if_pos rfl]
    split_ifs with hi
    · rw [h i x, ha]
      simp only [reduceCtorEq, false_iff, Option.some.injEq]
      omega
    · rcases Nat.lt_or_ge l.length i with hlt | hle
      · rw [List.getElem?_eq_none (by simp only [List.length_singleton]; omega)]
        simp only [reduceCtorEq, false_iff, Option.some.injEq]
        omega
      · have : i = l.length := by omega
        simp [this]
  · rw [if_neg hx]
    split_ifs with hi
    · exact h i x
    · have hnone : pos x ≠ some i := fun hx' => hi (h.lt_length hx')
      simp only [hnone, iff_false]
      intro hs
      have := (List.getElem?_eq_some_iff.mp hs).1
      simp only [List.length_singleton] at this
      have hi' : i = l.length := by omega
      subst hi'
      simp at hs
      exact hx hs.symm

/-- Swapping the keys at positions `i` and `j`, which record each other's old position. -/
theorem swap (h : Indexes l pos) {i j : Nat} {a b : α} (hi : l[i]? = some a)
    (hj : l[j]? = some b)
    (hpos : ∀ x, pos' x = if x = b then some i else if x = a then some j else pos x) :
    Indexes ((l.set i b).set j a) pos' := by
  have hpa := (h i a).mp hi
  have hpb := (h j b).mp hj
  intro k x
  rw [getElem?_set_set (h.lt_length hpa) (h.lt_length hpb), hpos]
  by_cases hxb : x = b
  · subst hxb
    simp only [if_true, Option.some.injEq]
    constructor
    · intro hk
      split_ifs at hk with hkj hki
      · subst hkj
        exact Option.some.inj (hpa.symm.trans (Option.some.inj hk ▸ hpb))
      · exact hki.symm
      · exact absurd (Option.some.inj (((h k x).mp hk).symm.trans hpb)) hkj
    · rintro rfl
      by_cases hij : i = j
      · rw [if_pos hij]
        subst hij
        exact congrArg some (h.inj hpa hpb)
      · rw [if_neg hij, if_pos rfl]
  · rw [if_neg hxb]
    by_cases hxa : x = a
    · subst hxa
      simp only [if_true, Option.some.injEq]
      constructor
      · intro hk
        split_ifs at hk with hkj hki
        · exact hkj.symm
        · exact absurd (Option.some.inj hk).symm hxb
        · exact absurd (Option.some.inj (((h k x).mp hk).symm.trans hpa)) hki
      · rintro rfl
        simp
    · rw [if_neg hxa]
      split_ifs with hkj hki
      · subst hkj
        simp only [Option.some.injEq]
        exact ⟨fun e => absurd e.symm hxa, fun hx => absurd (h.inj hx hpb) hxb⟩
      · subst hki
        simp only [Option.some.injEq]
        exact ⟨fun e => absurd e.symm hxb, fun hx => absurd (h.inj hx hpa) hxa⟩
      · exact h k x

/-- Dropping the last position, whose key loses its position. -/
theorem dropLast (h : Indexes l pos) {a : α} (ha : pos a = some (l.length - 1))
    (hpos : ∀ x, pos' x = if x = a then none else pos x) : Indexes l.dropLast pos' := by
  intro i x
  rw [hpos, List.getElem?_dropLast]
  by_cases hx : x = a
  · subst hx
    simp only [if_true, reduceCtorEq, iff_false]
    split_ifs with hi
    · intro hs
      rw [(h i x).mp hs] at ha
      exact absurd (Option.some.inj ha) (by omega)
    · simp
  · rw [if_neg hx]
    split_ifs with hi
    · exact h i x
    · simp only [false_iff]
      intro hx'
      have hl := h.lt_length hx'
      have hi' : i = l.length - 1 := by omega
      rw [hi'] at hx'
      exact hx (h.inj hx' ha)

end Update

end Indexes

theorem countP_of_mem_iff_erase [DecidableEq α] {l l' : List α} (hl : l.Nodup) (hl' : l'.Nodup)
    {a : α} (hm : ∀ x, x ∈ l' ↔ x ∈ l ∧ x ≠ a) (p : α → Bool) :
    l'.countP p + (if a ∈ l ∧ p a = true then 1 else 0) = l.countP p := by
  have hperm : l'.Perm (l.erase a) := by
    rw [List.perm_ext_iff_of_nodup hl' (hl.erase a)]
    intro x
    rw [hm, hl.mem_erase_iff]
    exact and_comm
  rw [hperm.countP_eq, List.countP_erase]
  have hle : (if a ∈ l ∧ p a = true then 1 else 0) ≤ l.countP p := by
    split_ifs with ha
    · exact List.countP_pos_iff.mpr ⟨a, ha.1, ha.2⟩
    · exact Nat.zero_le _
  omega

theorem countP_update [DecidableEq α] {l : List α} (hl : l.Nodup) {a : α} (ha : a ∈ l)
    {p q : α → Bool} (h : ∀ x ∈ l, x ≠ a → q x = p x) :
    l.countP q + (if p a = true then 1 else 0) = l.countP p + (if q a = true then 1 else 0) := by
  have hp := List.countP_erase p l a
  have hq := List.countP_erase q l a
  have hpq : (l.erase a).countP q = (l.erase a).countP p :=
    List.countP_congr fun x hx => by
      rw [hl.mem_erase_iff] at hx
      rw [h x hx.2 hx.1]
  have hle : ∀ r : α → Bool, (if a ∈ l ∧ r a = true then 1 else 0) ≤ l.countP r := by
    intro r
    split_ifs with har
    · exact List.countP_pos_iff.mpr ⟨a, har.1, har.2⟩
    · exact Nat.zero_le _
  have hp' := hle p
  have hq' := hle q
  simp only [ha, true_and] at hp hq hp' hq'
  omega

theorem countP_eq_ncard {l : List α} (hl : l.Nodup) (p : α → Bool) :
    l.countP p = {x | x ∈ l ∧ p x = true}.ncard := by
  classical
  rw [List.countP_eq_length_filter, ← List.toFinset_card_of_nodup (hl.filter p),
    ← Set.ncard_coe_finset]
  congr 1
  ext x
  simp

end TbcNode.Logic
