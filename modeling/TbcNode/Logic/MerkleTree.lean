import Mathlib.Logic.Function.Iterate
import Mathlib.Data.List.Basic
import Mathlib.Algebra.Group.Nat.Defs

/-! # Merkle trees with the last node of an odd level paired with itself

`pairUp` computes a level from the one below and `rootByLevels` pairs up to the root. `padRoot k l`
describes the same tree by blocks of `2 ^ k` leaves, and a leaf climbed up the path of its
siblings gives the root (`climbPath_path`).
-/

namespace TbcNode.Logic

variable {α : Type*} (H : α → α → α)

/-- One level up: adjacent nodes are paired, and the last node of an odd level with itself. -/
def pairUp : List α → List α
  | a :: b :: rest => H a b :: pairUp rest
  | [a] => [H a a]
  | [] => []

theorem length_pairUp (l : List α) : (pairUp H l).length = (l.length + 1) / 2 := by
  fun_induction pairUp H l with
  | case1 a b rest ih =>
    simp only [List.length_cons, ih]
    omega
  | case2 a => simp
  | case3 => simp

/-- The root of a list of nodes, by levels: pair up until one node remains. -/
def rootByLevels : List α → Option α
  | [] => none
  | [a] => some a
  | a :: b :: rest => rootByLevels (pairUp H (a :: b :: rest))
termination_by l => l.length
decreasing_by
  rw [length_pairUp]
  simp only [List.length_cons]
  omega

/-- The `j`-th block of `2 ^ ℓ` leaves; the last block may be shorter. -/
def block (ℓ j : Nat) (l : List α) : List α := (l.drop (j * 2 ^ ℓ)).take (2 ^ ℓ)

/-- The root of the tree of depth `k` over at most `2 ^ k` leaves: the tree of the first
`2 ^ (k - 1)` leaves and the tree of the others, or twice the first where there are no others. -/
def padRoot [Inhabited α] : Nat → List α → α
  | 0, l => l.headI
  | k + 1, l =>
    if l.length ≤ 2 ^ k then H (padRoot k l) (padRoot k l)
    else H (padRoot k (l.take (2 ^ k))) (padRoot k (l.drop (2 ^ k)))

/-! ### Levels -/

theorem getElem?_pairUp (l : List α) (j : Nat) :
    (pairUp H l)[j]? = l[2 * j]?.map fun a => H a (l[2 * j + 1]?.getD a) := by
  fun_induction pairUp H l generalizing j with
  | case1 a b rest ih =>
    cases j with
    | zero => rfl
    | succ j =>
      rw [List.getElem?_cons_succ, ih, show 2 * (j + 1) = 2 * j + 2 by omega,
        show 2 * j + 2 + 1 = 2 * j + 1 + 2 by omega]
      rfl
  | case2 a =>
    cases j with
    | zero => rfl
    | succ j => simp
  | case3 => simp

theorem length_iterate_pairUp (l : List α) (ℓ : Nat) :
    ((pairUp H)^[ℓ] l).length = (l.length + 2 ^ ℓ - 1) / 2 ^ ℓ := by
  induction ℓ with
  | zero => simp
  | succ ℓ ih =>
    rw [Function.iterate_succ_apply', length_pairUp, ih, Nat.pow_succ]
    have hpos : 0 < 2 ^ ℓ := Nat.two_pow_pos ℓ
    rw [← Nat.add_div_right _ hpos, Nat.div_div_eq_div_mul]
    congr 1
    omega

theorem length_block (ℓ j : Nat) (l : List α) :
    (block ℓ j l).length = min (2 ^ ℓ) (l.length - j * 2 ^ ℓ) := by
  simp [block]

theorem block_offset (ℓ j : Nat) : j * 2 ^ (ℓ + 1) = 2 * j * 2 ^ ℓ := by
  rw [Nat.pow_succ, Nat.mul_comm (2 ^ ℓ) 2, ← Nat.mul_assoc, Nat.mul_comm j 2]

theorem two_pow_succ_eq (ℓ : Nat) : 2 ^ (ℓ + 1) = 2 * 2 ^ ℓ := Nat.pow_succ'

theorem div_two_pow_succ (a ℓ : Nat) : a / 2 ^ (ℓ + 1) = a / 2 ^ ℓ / 2 := by
  rw [Nat.pow_succ, Nat.div_div_eq_div_mul]

theorem div_two_pow_eq_of_le {a b ℓ m : Nat} (h : a / 2 ^ ℓ = b / 2 ^ ℓ) (hle : ℓ ≤ m) :
    a / 2 ^ m = b / 2 ^ m := by
  obtain ⟨k, rfl⟩ := Nat.exists_eq_add_of_le hle
  induction k with
  | zero => exact h
  | succ k ih => rw [← Nat.add_assoc, div_two_pow_succ, div_two_pow_succ b, ih (by omega)]

theorem div_add_one_eq_iff {T p ℓ : Nat} (hT : T % 2 ^ ℓ = 0) :
    p / 2 ^ ℓ + 1 = T / 2 ^ ℓ ↔ T - 2 ^ ℓ ≤ p ∧ p < T := by
  obtain ⟨q, rfl⟩ := Nat.dvd_of_mod_eq_zero hT
  have hB := Nat.two_pow_pos ℓ
  have hsub : 2 ^ ℓ * q - 2 ^ ℓ = (q - 1) * 2 ^ ℓ := by rw [Nat.sub_one_mul, Nat.mul_comm]
  rw [Nat.mul_div_cancel_left q hB, hsub]
  constructor
  · intro h
    have hlo : (q - 1) * 2 ^ ℓ ≤ p := by
      rw [← Nat.eq_sub_of_add_eq h]
      exact Nat.div_mul_le_self p (2 ^ ℓ)
    have hhi := Nat.lt_mul_div_succ p hB
    rw [h] at hhi
    exact ⟨hlo, hhi⟩
  · rintro ⟨hlo, hhi⟩
    have hq : 1 ≤ q := by
      rcases Nat.eq_zero_or_pos q with rfl | hq
      · simp at hhi
      · exact hq
    have hdiv : p / 2 ^ ℓ = q - 1 := by
      apply Nat.div_eq_of_lt_le hlo
      rwa [Nat.sub_add_cancel hq, Nat.mul_comm]
    omega

theorem mod_two_pow_of_le {T ℓ m : Nat} (h : T % 2 ^ m = 0) (hle : ℓ ≤ m) : T % 2 ^ ℓ = 0 :=
  Nat.mod_eq_zero_of_dvd (Nat.dvd_trans (Nat.pow_dvd_pow 2 hle) (Nat.dvd_of_mod_eq_zero h))

theorem last_block_lift {T p ℓ m : Nat} (hm : T % 2 ^ m = 0) (hle : ℓ ≤ m)
    (h : p / 2 ^ ℓ + 1 = T / 2 ^ ℓ) : p / 2 ^ m + 1 = T / 2 ^ m := by
  have hℓ : T % 2 ^ ℓ = 0 := mod_two_pow_of_le hm hle
  have hpow : 2 ^ ℓ ≤ 2 ^ m := Nat.pow_le_pow_right (by decide) hle
  rw [div_add_one_eq_iff hℓ] at h
  rw [div_add_one_eq_iff hm]
  omega

theorem mod_two_pow_succ_iff {T ℓ : Nat} :
    T % 2 ^ (ℓ + 1) = 0 ↔ T % 2 ^ ℓ = 0 ∧ T / 2 ^ ℓ % 2 = 0 := by
  rw [Nat.pow_succ, Nat.mod_mul]
  have hB := Nat.two_pow_pos ℓ
  constructor
  · intro h
    have h2 : 2 ^ ℓ * (T / 2 ^ ℓ % 2) = 0 := by omega
    exact ⟨by omega, (Nat.mul_eq_zero.mp h2).resolve_left (by omega)⟩
  · rintro ⟨h1, h2⟩
    rw [h1, h2, Nat.mul_zero]

theorem mod_two_pow_eq_zero_of_clear {T L : Nat} (h : ∀ μ < L, T / 2 ^ μ % 2 = 0) :
    T % 2 ^ L = 0 := by
  induction L with
  | zero => exact Nat.mod_one T
  | succ L ih =>
    rw [mod_two_pow_succ_iff]
    exact ⟨ih fun μ hμ => h μ (by omega), h L (by omega)⟩

theorem div_sub_one_mul {T ℓ : Nat} (h : T % 2 ^ ℓ = 0) :
    (T / 2 ^ ℓ - 1) * 2 ^ ℓ = T - 2 ^ ℓ := by
  rw [Nat.sub_one_mul, Nat.div_mul_cancel (Nat.dvd_of_mod_eq_zero h)]

theorem exists_bit_of_pos {T w : Nat} (h0 : 0 < T) (hw : T < 2 ^ w) :
    ∃ μ < w, T / 2 ^ μ % 2 = 1 := by
  induction w with
  | zero =>
    rw [Nat.pow_zero] at hw
    omega
  | succ w ih =>
    rcases Nat.mod_two_eq_zero_or_one (T / 2 ^ w) with hb | hb
    · have hlt : T / 2 ^ w < 2 := by
        rw [Nat.div_lt_iff_lt_mul (Nat.two_pow_pos w), Nat.mul_comm, ← Nat.pow_succ]
        exact hw
      have hw' : T < 2 ^ w := by
        have h1 : T / 2 ^ w < 1 := by omega
        rw [Nat.div_lt_iff_lt_mul (Nat.two_pow_pos w), Nat.one_mul] at h1
        exact h1
      obtain ⟨μ, hμ, hbit⟩ := ih hw'
      exact ⟨μ, by omega, hbit⟩
    · exact ⟨w, by omega, hb⟩

theorem succ_div_above {k L ν : Nat} (hL : (k + 1) % 2 ^ L = 0) (hodd : (k + 1) / 2 ^ L % 2 = 1)
    (hν : L < ν) : (k + 1) / 2 ^ ν = k / 2 ^ ν := by
  apply div_two_pow_eq_of_le _ hν
  have hk : (k + 1) / 2 ^ L = k / 2 ^ L + 1 := Nat.succ_div_of_dvd (Nat.dvd_of_mod_eq_zero hL)
  rw [div_two_pow_succ, div_two_pow_succ k, hk]
  rw [hk] at hodd
  generalize k / 2 ^ L = a at hodd ⊢
  omega

/-- Leaf `p` lies in the block of `2 ^ L` leaves that a count `k` with bit `L` set holds at level
`L`: one node per set bit, the one a streaming computation keeps for that bit. -/
def StoredAt (k p L : Nat) : Prop := k / 2 ^ L % 2 = 1 ∧ p / 2 ^ L + 1 = k / 2 ^ L

theorem StoredAt.lt {k p L : Nat} (h : StoredAt k p L) : p < k :=
  Nat.lt_of_div_lt_div (show p / 2 ^ L < k / 2 ^ L by have := h.2; omega)

theorem StoredAt.div_eq_above {k p L m : Nat} (h : StoredAt k p L) (hm : L < m) :
    p / 2 ^ m = k / 2 ^ m := by
  apply div_two_pow_eq_of_le _ hm
  rw [div_two_pow_succ, div_two_pow_succ k]
  obtain ⟨h1, h2⟩ := h
  omega

theorem StoredAt.unique {k p L M : Nat} (h₁ : StoredAt k p L) (h₂ : StoredAt k p M) : L = M := by
  rcases Nat.lt_trichotomy L M with hlt | heq | hgt
  · have h := h₁.div_eq_above hlt
    have := h₂.2
    omega
  · exact heq
  · have h := h₂.div_eq_above hgt
    have := h₁.2
    omega

theorem block_zero_of_le {l : List α} {d : Nat} (h : l.length ≤ 2 ^ d) : block d 0 l = l := by
  rw [block, Nat.zero_mul, List.drop_zero, List.take_of_length_le h]

theorem take_block (ℓ j : Nat) (l : List α) :
    (block (ℓ + 1) j l).take (2 ^ ℓ) = block ℓ (2 * j) l := by
  have hm : min (2 ^ ℓ) (2 ^ (ℓ + 1)) = 2 ^ ℓ := by
    rw [Nat.pow_succ]
    omega
  rw [block, block, List.take_take, hm, block_offset]

theorem drop_block (ℓ j : Nat) (l : List α) :
    (block (ℓ + 1) j l).drop (2 ^ ℓ) = block ℓ (2 * j + 1) l := by
  have hm : 2 ^ (ℓ + 1) - 2 ^ ℓ = 2 ^ ℓ := by
    rw [Nat.pow_succ]
    omega
  rw [block, block, List.drop_take, List.drop_drop, hm, block_offset, Nat.add_mul, Nat.one_mul]

section Nodes

variable [Inhabited α]

theorem padRoot_block_zero {l : List α} {p : Nat} (hp : p < l.length) :
    padRoot H 0 (block 0 p l) = l[p] := by
  simp only [block, Nat.pow_zero, Nat.mul_one, padRoot]
  rw [List.drop_eq_getElem_cons hp]
  rfl

theorem padRoot_block_succ (ℓ j : Nat) (l : List α) :
    padRoot H (ℓ + 1) (block (ℓ + 1) j l) =
      if (2 * j + 1) * 2 ^ ℓ < l.length then
        H (padRoot H ℓ (block ℓ (2 * j) l)) (padRoot H ℓ (block ℓ (2 * j + 1) l))
      else H (padRoot H ℓ (block ℓ (2 * j) l)) (padRoot H ℓ (block ℓ (2 * j) l)) := by
  have hlen := length_block (ℓ + 1) j l
  rw [block_offset, Nat.pow_succ] at hlen
  rw [Nat.add_mul, Nat.one_mul, padRoot]
  have hB := Nat.two_pow_pos ℓ
  generalize 2 * j * 2 ^ ℓ = A at hlen ⊢
  by_cases hr : A + 2 ^ ℓ < l.length
  · rw [if_neg (by omega), if_pos hr, take_block, drop_block]
  · have hshort : (block (ℓ + 1) j l).length ≤ 2 ^ ℓ := by omega
    have hb : block (ℓ + 1) j l = block ℓ (2 * j) l := by
      rw [← take_block, List.take_of_length_le hshort]
    rw [if_pos hshort, if_neg hr, hb]

theorem padRoot_pair {l : List α} {ℓ q : Nat} (hq : q % 2 = 0) (h2 : 2 ≤ q)
    (hlt : (q - 1) * 2 ^ ℓ < l.length) :
    H (padRoot H ℓ (block ℓ (q - 2) l)) (padRoot H ℓ (block ℓ (q - 1) l)) =
      padRoot H (ℓ + 1) (block (ℓ + 1) (q / 2 - 1) l) := by
  rw [padRoot_block_succ, show 2 * (q / 2 - 1) = q - 2 by omega,
    show q - 2 + 1 = q - 1 by omega, if_pos hlt]

theorem padRoot_dup {l : List α} {ℓ q : Nat} (hq : q % 2 = 1) (hge : l.length ≤ q * 2 ^ ℓ) :
    H (padRoot H ℓ (block ℓ (q - 1) l)) (padRoot H ℓ (block ℓ (q - 1) l)) =
      padRoot H (ℓ + 1) (block (ℓ + 1) ((q + 1) / 2 - 1) l) := by
  rw [padRoot_block_succ, show 2 * ((q + 1) / 2 - 1) = q - 1 by omega,
    if_neg (by rw [show q - 1 + 1 = q by omega]; omega)]

/-- Level `ℓ` of the tree is the list of the roots of the blocks of `2 ^ ℓ` leaves. -/
theorem getElem?_iterate_pairUp (l : List α) (ℓ : Nat) :
    ∀ j, j * 2 ^ ℓ < l.length → ((pairUp H)^[ℓ] l)[j]? = some (padRoot H ℓ (block ℓ j l)) := by
  induction ℓ with
  | zero =>
    intro j hj
    simp only [Nat.pow_zero, Nat.mul_one] at hj
    rw [Function.iterate_zero_apply, List.getElem?_eq_getElem hj, padRoot_block_zero H hj]
  | succ ℓ ih =>
    intro j hj
    have h2j : 2 * j * 2 ^ ℓ < l.length := by rwa [← block_offset]
    rw [Function.iterate_succ_apply', getElem?_pairUp, ih (2 * j) h2j, Option.map_some,
      padRoot_block_succ]
    by_cases hr : (2 * j + 1) * 2 ^ ℓ < l.length
    · rw [ih (2 * j + 1) hr, if_pos hr]
      rfl
    · have hnone : ((pairUp H)^[ℓ] l)[2 * j + 1]? = none := by
        apply List.getElem?_eq_none
        rw [length_iterate_pairUp]
        have hpos := Nat.two_pow_pos ℓ
        have : (l.length + 2 ^ ℓ - 1) / 2 ^ ℓ < 2 * j + 2 := by
          rw [Nat.div_lt_iff_lt_mul (Nat.two_pow_pos ℓ),
            show 2 * j + 2 = (2 * j + 1) + 1 by omega, Nat.add_mul, Nat.one_mul]
          omega
        omega
      rw [hnone, if_neg hr]
      rfl

omit [Inhabited α] in
theorem rootByLevels_eq (d : Nat) :
    ∀ l : List α, 1 ≤ l.length → l.length ≤ 2 ^ d → (d = 0 ∨ 2 ^ (d - 1) < l.length) →
      rootByLevels H l = ((pairUp H)^[d] l)[0]? := by
  induction d with
  | zero =>
    intro l h1 h2 _
    rcases l with _ | ⟨a, _ | ⟨b, rest⟩⟩
    · simp at h1
    · rw [rootByLevels]
      rfl
    · simp at h2
  | succ d ih =>
    intro l h1 h2 h3
    have hgt : 2 ^ d < l.length := by simpa using h3
    have hd : 1 ≤ 2 ^ d := Nat.one_le_two_pow
    rcases l with _ | ⟨a, _ | ⟨b, rest⟩⟩
    · simp at h1
    · simp at hgt
    · rw [rootByLevels, Function.iterate_succ_apply]
      have hlen := length_pairUp H (a :: b :: rest)
      simp only [List.length_cons] at hlen h2 hgt
      rw [Nat.pow_succ] at h2
      apply ih
      · omega
      · omega
      · rcases Nat.eq_zero_or_pos d with rfl | hpos
        · exact Or.inl rfl
        · right
          have : 2 ^ d = 2 ^ (d - 1) * 2 := by
            rw [← Nat.pow_succ]
            congr 1
            omega
          omega

theorem rootByLevels_eq_padRoot {d : Nat} {l : List α} (h₁ : 1 ≤ l.length)
    (h₂ : l.length ≤ 2 ^ d) (h₃ : d = 0 ∨ 2 ^ (d - 1) < l.length) :
    rootByLevels H l = some (padRoot H d l) := by
  rw [rootByLevels_eq H d l h₁ h₂ h₃, getElem?_iterate_pairUp H l d 0 (by simp; omega),
    block_zero_of_le h₂]

end Nodes

/-! ### Paths -/

/-- A hash climbed up a path of siblings: at each level the low bit of the index says whether the
sibling is on the left. -/
def climbPath (x : α) : List α → Nat → α
  | [], _ => x
  | s :: path, i => climbPath (if i % 2 = 1 then H s x else H x s) path (i / 2)

theorem climbPath_append_singleton (x s : α) (path : List α) (i : Nat) :
    climbPath H x (path ++ [s]) i =
      if i / 2 ^ path.length % 2 = 1 then H s (climbPath H x path i)
      else H (climbPath H x path i) s := by
  induction path generalizing x i with
  | nil => simp [climbPath]
  | cons t path ih =>
    rw [List.cons_append, climbPath, climbPath, ih, List.length_cons, Nat.pow_succ',
      ← Nat.div_div_eq_div_mul]

/-- The sibling at level `ℓ` of the node above leaf `p`, or the node itself where it has none. -/
def pathSibling [Inhabited α] (l : List α) (p ℓ : Nat) : α :=
  let i := p / 2 ^ ℓ
  padRoot H ℓ (block ℓ (if i % 2 = 1 then i - 1
    else if (i + 1) * 2 ^ ℓ < l.length then i + 1 else i) l)

section Paths

variable [Inhabited α]

theorem pathSibling_of_odd {l : List α} {p ℓ : Nat} (h : p / 2 ^ ℓ % 2 = 1) :
    pathSibling H l p ℓ = padRoot H ℓ (block ℓ (p / 2 ^ ℓ - 1) l) := by
  simp only [pathSibling, if_pos h]

theorem pathSibling_of_even_lt {l : List α} {p ℓ : Nat} (h : p / 2 ^ ℓ % 2 = 0)
    (hlt : (p / 2 ^ ℓ + 1) * 2 ^ ℓ < l.length) :
    pathSibling H l p ℓ = padRoot H ℓ (block ℓ (p / 2 ^ ℓ + 1) l) := by
  simp only [pathSibling, if_neg (by omega : ¬p / 2 ^ ℓ % 2 = 1), if_pos hlt]

theorem pathSibling_of_even_ge {l : List α} {p ℓ : Nat} (h : p / 2 ^ ℓ % 2 = 0)
    (hge : l.length ≤ (p / 2 ^ ℓ + 1) * 2 ^ ℓ) :
    pathSibling H l p ℓ = padRoot H ℓ (block ℓ (p / 2 ^ ℓ) l) := by
  simp only [pathSibling, if_neg (by omega : ¬p / 2 ^ ℓ % 2 = 1),
    if_neg (show ¬(p / 2 ^ ℓ + 1) * 2 ^ ℓ < l.length by omega)]

theorem climb_step {l : List α} {p : Nat} (hp : p < l.length) (ℓ : Nat) :
    (if p / 2 ^ ℓ % 2 = 1 then H (pathSibling H l p ℓ) (padRoot H ℓ (block ℓ (p / 2 ^ ℓ) l))
      else H (padRoot H ℓ (block ℓ (p / 2 ^ ℓ) l)) (pathSibling H l p ℓ)) =
      padRoot H (ℓ + 1) (block (ℓ + 1) (p / 2 ^ (ℓ + 1)) l) := by
  have hdiv : p / 2 ^ (ℓ + 1) = p / 2 ^ ℓ / 2 := by
    rw [Nat.pow_succ, Nat.div_div_eq_div_mul]
  have hle : p / 2 ^ ℓ * 2 ^ ℓ ≤ p := Nat.div_mul_le_self p (2 ^ ℓ)
  rw [hdiv, padRoot_block_succ]
  unfold pathSibling
  dsimp only
  by_cases hodd : p / 2 ^ ℓ % 2 = 1
  · have h2 : 2 * (p / 2 ^ ℓ / 2) = p / 2 ^ ℓ - 1 := by omega
    have h3 : 2 * (p / 2 ^ ℓ / 2) + 1 = p / 2 ^ ℓ := by omega
    rw [if_pos hodd, if_pos hodd, h3, h2, if_pos (by omega)]
  · have h2 : 2 * (p / 2 ^ ℓ / 2) = p / 2 ^ ℓ := by omega
    rw [if_neg hodd, if_neg hodd, h2]
    by_cases hr : (p / 2 ^ ℓ + 1) * 2 ^ ℓ < l.length
    · rw [if_pos hr, if_pos hr]
    · rw [if_neg hr, if_neg hr]

theorem climbPath_range' {l : List α} {p : Nat} (hp : p < l.length) (k : Nat) :
    ∀ ℓ, climbPath H (padRoot H ℓ (block ℓ (p / 2 ^ ℓ) l))
        ((List.range' ℓ k).map (pathSibling H l p)) (p / 2 ^ ℓ) =
      padRoot H (ℓ + k) (block (ℓ + k) (p / 2 ^ (ℓ + k)) l) := by
  induction k with
  | zero => intro ℓ; rfl
  | succ k ih =>
    intro ℓ
    have hdiv : p / 2 ^ ℓ / 2 = p / 2 ^ (ℓ + 1) := by
      rw [Nat.pow_succ, Nat.div_div_eq_div_mul]
    rw [List.range'_succ, List.map_cons, climbPath, climb_step H hp ℓ, hdiv, ih (ℓ + 1),
      Nat.add_right_comm, Nat.add_assoc]

/-- Leaf `p` climbed up the path of its siblings gives the root of the tree. -/
theorem climbPath_path {l : List α} {p d : Nat} (hp : p < l.length) (hd : l.length ≤ 2 ^ d) :
    climbPath H l[p] ((List.range d).map (pathSibling H l p)) p = padRoot H d l := by
  have h := climbPath_range' H hp d 0
  have htop : p / 2 ^ d = 0 := Nat.div_eq_of_lt (by omega)
  simp only [Nat.pow_zero, Nat.div_one, Nat.zero_add, htop, padRoot_block_zero H hp] at h
  rw [List.range_eq_range', h, block_zero_of_le hd]

end Paths

end TbcNode.Logic
