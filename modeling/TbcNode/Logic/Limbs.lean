import Mathlib.Data.Nat.Bitwise
import Mathlib.Data.Nat.Size
import Mathlib.Tactic.Ring
import Mathlib.Tactic.Positivity

/-! # Numbers as little-endian 32-bit limbs

`limbsValue` reads words in radix `2 ^ 32`. A loop with a 64-bit carry computes the radix sum of
its rounds (`carryChain_spec`), and a loop that ORs words into place is read bit by bit
(`bit_foldl_of_or`).
-/

namespace TbcNode.Logic

/-- The radix-`2 ^ 32` sum of the values `v` gives to the entries, least significant first. -/
def radixSum {α : Type*} (v : α → Nat) : List α → Nat
  | [] => 0
  | x :: xs => v x + 2 ^ 32 * radixSum v xs

/-- The number a list of 32-bit words denotes, least significant word first. -/
def limbsValue (l : List UInt32) : Nat := radixSum UInt32.toNat l

def limbsOf : Nat → Nat → List UInt32
  | 0, _ => []
  | w + 1, n => UInt32.ofNat n :: limbsOf w (n / 2 ^ 32)

section RadixSum

variable {α β : Type*}

@[simp] theorem radixSum_nil (v : α → Nat) : radixSum v [] = 0 := rfl

@[simp] theorem radixSum_cons (v : α → Nat) (x : α) (xs : List α) :
    radixSum v (x :: xs) = v x + 2 ^ 32 * radixSum v xs := rfl

theorem radixSum_add (f g : α → Nat) (l : List α) :
    radixSum (fun x => f x + g x) l = radixSum f l + radixSum g l := by
  induction l with
  | nil => rfl
  | cons x l ih =>
    rw [radixSum_cons, radixSum_cons, radixSum_cons, ih]
    ring

theorem radixSum_mul (c : Nat) (f : α → Nat) (l : List α) :
    radixSum (fun x => c * f x) l = c * radixSum f l := by
  induction l with
  | nil => simp
  | cons x l ih =>
    rw [radixSum_cons, radixSum_cons, ih]
    ring

theorem radixSum_zip_fst (f : α → Nat) :
    ∀ (l : List α) (m : List β), radixSum (fun p => f p.1) (l.zip m) = radixSum f (l.take m.length)
  | [], _ => by simp
  | _ :: _, [] => by simp
  | x :: l, y :: m => by
    rw [List.zip_cons_cons, List.length_cons, List.take_succ_cons, radixSum_cons, radixSum_cons,
      radixSum_zip_fst f l m]

theorem radixSum_zip_snd (g : β → Nat) :
    ∀ (l : List α) (m : List β), radixSum (fun p => g p.2) (l.zip m) = radixSum g (m.take l.length)
  | [], _ => by simp
  | _ :: _, [] => by simp
  | x :: l, y :: m => by
    rw [List.zip_cons_cons, List.length_cons, List.take_succ_cons, radixSum_cons, radixSum_cons,
      radixSum_zip_snd g l m]

end RadixSum

/-! ## The value of a list of words -/

@[simp] theorem limbsValue_nil : limbsValue [] = 0 := rfl

@[simp] theorem limbsValue_cons (x : UInt32) (l : List UInt32) :
    limbsValue (x :: l) = x.toNat + 2 ^ 32 * limbsValue l := rfl

theorem limbsValue_lt (l : List UInt32) : limbsValue l < 2 ^ (32 * l.length) := by
  induction l with
  | nil => simp
  | cons x l ih =>
    rw [limbsValue_cons, List.length_cons, Nat.mul_succ, Nat.pow_add]
    calc x.toNat + 2 ^ 32 * limbsValue l < 2 ^ 32 * (limbsValue l + 1) := by
          have := x.toNat_lt
          omega
      _ ≤ 2 ^ 32 * 2 ^ (32 * l.length) := Nat.mul_le_mul_left _ ih
      _ = 2 ^ (32 * l.length) * 2 ^ 32 := Nat.mul_comm _ _

theorem limbsValue_append (l m : List UInt32) :
    limbsValue (l ++ m) = limbsValue l + 2 ^ (32 * l.length) * limbsValue m := by
  induction l with
  | nil => simp
  | cons x l ih =>
    rw [List.cons_append, limbsValue_cons, limbsValue_cons, ih, List.length_cons, Nat.mul_succ,
      Nat.pow_add]
    ring

@[simp] theorem limbsValue_replicate_zero (n : Nat) : limbsValue (List.replicate n 0) = 0 := by
  induction n with
  | zero => rfl
  | succ n ih => simp [List.replicate_succ, ih]

theorem limbsValue_reverse_cons (x : UInt32) (l : List UInt32) :
    limbsValue (x :: l).reverse = limbsValue l.reverse + 2 ^ (32 * l.length) * x.toNat := by
  rw [List.reverse_cons, limbsValue_append, List.length_reverse, limbsValue_cons, limbsValue_nil,
    Nat.mul_zero, Nat.add_zero]

theorem limbsValue_take_add_drop (l : List UInt32) (k : Nat) (hk : k ≤ l.length) :
    limbsValue l = limbsValue (l.take k) + 2 ^ (32 * k) * limbsValue (l.drop k) := by
  conv_lhs => rw [← List.take_append_drop k l]
  rw [limbsValue_append, List.length_take, Nat.min_eq_left hk]

theorem limbsValue_take_mod (l : List UInt32) (k : Nat) (hk : k ≤ l.length) :
    limbsValue (l.take k) = limbsValue l % 2 ^ (32 * k) := by
  have hlt : limbsValue (l.take k) < 2 ^ (32 * k) := by
    simpa [List.length_take, Nat.min_eq_left hk] using limbsValue_lt (l.take k)
  rw [limbsValue_take_add_drop l k hk, Nat.add_mul_mod_self_left, Nat.mod_eq_of_lt hlt]

@[simp] theorem length_limbsOf : ∀ w n, (limbsOf w n).length = w
  | 0, _ => rfl
  | w + 1, n => by rw [limbsOf, List.length_cons, length_limbsOf w]

theorem limbsValue_limbsOf : ∀ w n, limbsValue (limbsOf w n) = n % 2 ^ (32 * w)
  | 0, n => by rw [limbsOf, limbsValue_nil, Nat.mul_zero, Nat.pow_zero, Nat.mod_one]
  | w + 1, n => by
    rw [limbsOf, limbsValue_cons, limbsValue_limbsOf w, UInt32.toNat_ofNat', Nat.mul_succ,
      Nat.pow_add, Nat.mul_comm (2 ^ (32 * w)), Nat.mod_mul]

theorem add_mul_mod_mul {r M Q P : Nat} (hr : r < M) :
    (r + M * Q) % (M * P) = r + M * (Q % P) := by
  have hM : 0 < M := by omega
  rw [Nat.mod_mul, Nat.add_mul_mod_self_left, Nat.mod_eq_of_lt hr,
    Nat.add_mul_div_left _ _ hM, Nat.div_eq_of_lt hr, Nat.zero_add]

theorem limbsValue_map_not (l : List UInt32) :
    limbsValue (l.map (~~~ ·)) = 2 ^ (32 * l.length) - 1 - limbsValue l := by
  induction l with
  | nil => simp
  | cons x l ih =>
    have hx := x.toNat_lt
    have hl := limbsValue_lt l
    rw [List.map_cons, limbsValue_cons, limbsValue_cons, ih, UInt32.toNat_not, List.length_cons,
      Nat.mul_succ, Nat.pow_add]
    have hpos : 0 < 2 ^ (32 * l.length) := by positivity
    generalize 2 ^ (32 * l.length) = P at hl hpos ⊢
    have hsize : UInt32.size = 2 ^ 32 := rfl
    rw [hsize]
    have : 2 ^ 32 * (P - 1 - limbsValue l) = 2 ^ 32 * P - 2 ^ 32 - 2 ^ 32 * limbsValue l := by
      rw [Nat.mul_sub, Nat.mul_sub, Nat.mul_one]
    rw [this, Nat.mul_comm P]
    omega

theorem eq_of_limbsValue_eq : ∀ {l m : List UInt32}, l.length = m.length →
    limbsValue l = limbsValue m → l = m
  | [], [], _, _ => rfl
  | x :: l, y :: m, hlen, h => by
    rw [limbsValue_cons, limbsValue_cons] at h
    have hx := x.toNat_lt
    have hy := y.toNat_lt
    have hxy : x.toNat = y.toNat := by omega
    have hlm : limbsValue l = limbsValue m := by omega
    rw [UInt32.toNat_inj.mp hxy, eq_of_limbsValue_eq (by simpa using hlen) hlm]

/-! ## Bits of the value -/

/-- Bit `j` of the value is bit `j % 32` of word `j / 32`. -/
theorem testBit_limbsValue (l : List UInt32) (j : Nat) :
    (limbsValue l).testBit j = (l.getD (j / 32) 0).toNat.testBit (j % 32) := by
  induction l generalizing j with
  | nil => simp
  | cons x l ih =>
    rw [limbsValue_cons, Nat.add_comm, Nat.testBit_two_pow_mul_add _ x.toNat_lt]
    by_cases hj : j < 32
    · rw [if_pos hj, Nat.div_eq_of_lt hj, Nat.mod_eq_of_lt hj, List.getD_cons_zero]
    · have hdiv : j / 32 = (j - 32) / 32 + 1 := by omega
      have hmod : j % 32 = (j - 32) % 32 := by omega
      rw [if_neg hj, ih, hdiv, hmod, List.getD_cons_succ]

theorem testBit_limbsValue_modify_or (l : List UInt32) (k : Nat) (w : UInt32) (j : Nat) :
    (limbsValue (l.modify k (· ||| w))).testBit j =
      ((limbsValue l).testBit j ||
        (decide (j / 32 = k ∧ k < l.length) && w.toNat.testBit (j % 32))) := by
  rw [testBit_limbsValue, testBit_limbsValue, List.getD_eq_getElem?_getD, List.getElem?_modify,
    List.getD_eq_getElem?_getD]
  by_cases hk : k = j / 32
  · subst hk
    by_cases hl : j / 32 < l.length
    · rw [List.getElem?_eq_getElem hl]
      simp [hl, UInt32.toNat_or, Nat.testBit_or]
    · rw [List.getElem?_eq_none (by omega)]
      simp [hl]
  · simp [hk, Ne.symm hk]

theorem testBit_limbsValue_ite_modify_or (c : Prop) [Decidable c] (l : List UInt32) (k : Nat)
    (w : UInt32) (j : Nat) :
    (limbsValue (if c then l.modify k (· ||| w) else l)).testBit j =
      ((limbsValue l).testBit j ||
        (decide (c ∧ j / 32 = k ∧ k < l.length) && w.toNat.testBit (j % 32))) := by
  by_cases hc : c
  · rw [if_pos hc, testBit_limbsValue_modify_or]
    simp [hc]
  · rw [if_neg hc]
    simp [hc]

@[simp] theorem length_ite_modify {α : Type*} (c : Prop) [Decidable c] (l : List α) (k : Nat)
    (f : α → α) : (if c then l.modify k f else l).length = l.length := by
  split <;> simp

theorem length_foldl_eq {α ι : Type*} {f : List α → ι → List α}
    (hf : ∀ acc i, (f acc i).length = acc.length) :
    ∀ (is : List ι) (init : List α), (is.foldl f init).length = init.length
  | [], _ => rfl
  | i :: is, init => by rw [List.foldl_cons, length_foldl_eq hf is, hf]

theorem testBit_limbsValue_word (l : List UInt32) (i c : Nat) (hc : c < 32) :
    (limbsValue l).testBit (32 * i + c) = (l.getD i 0).toNat.testBit c := by
  have hdiv : (32 * i + c) / 32 = i := by omega
  have hmod : (32 * i + c) % 32 = c := by omega
  rw [testBit_limbsValue, hdiv, hmod]

theorem testBit_word_of_le (x : UInt32) {c : Nat} (hc : 32 ≤ c) : x.toNat.testBit c = false :=
  Nat.testBit_lt_two_pow (lt_of_lt_of_le x.toNat_lt (Nat.pow_le_pow_right (by omega) hc))

theorem testBit_word_shiftLeft (x : UInt32) {s b : Nat} (hs : s < 32) (hb : b < 32) :
    (x <<< UInt32.ofNat s).toNat.testBit b = (decide (s ≤ b) && x.toNat.testBit (b - s)) := by
  have hshift : (UInt32.ofNat s).toNat % 32 = s := by
    rw [UInt32.toNat_ofNat']
    omega
  rw [UInt32.toNat_shiftLeft, hshift, Nat.testBit_mod_two_pow, Nat.testBit_shiftLeft]
  simp [hb]

theorem testBit_word_shiftRight (x : UInt32) {s : Nat} (hs : s < 32) (b : Nat) :
    (x >>> UInt32.ofNat s).toNat.testBit b = x.toNat.testBit (s + b) := by
  have hshift : (UInt32.ofNat s).toNat % 32 = s := by
    rw [UInt32.toNat_ofNat']
    omega
  rw [UInt32.toNat_shiftRight, hshift, Nat.testBit_shiftRight]

/-- A fold whose rounds only set bits: a bit of the result is set when it is set at the start or
some round sets it. -/
theorem bit_foldl_of_or {σ ι : Type*} (step : σ → ι → σ) (bit : σ → Nat → Bool)
    (set : ι → Nat → Bool) (P : σ → Prop) (hP : ∀ s i, P s → P (step s i))
    (hbit : ∀ s i j, P s → bit (step s i) j = (bit s j || set i j)) :
    ∀ (is : List ι) (s : σ), P s → ∀ j,
      bit (is.foldl step s) j = (bit s j || is.any fun i => set i j) := by
  intro is
  induction is with
  | nil => simp
  | cons i is ih =>
    intro s hs j
    rw [List.foldl_cons, ih _ (hP s i hs), hbit s i j hs, List.any_cons, Bool.or_assoc]

/-! ## Carry chains -/

/-- A loop over a list that keeps a 64-bit `carry`: each round computes a 64-bit `n` from the
carry and the entry, stores its low word and carries its high word. -/
def carryChain {α : Type*} (step : UInt64 → α → UInt64) : List α → UInt64 → List UInt32 × UInt64
  | [], carry => ([], carry)
  | x :: xs, carry =>
    let n := step carry x
    let r := carryChain step xs (n >>> 32)
    ((n &&& 0xffffffff).toUInt32 :: r.1, r.2)

section CarryChain

variable {α : Type*} (step : UInt64 → α → UInt64)

@[simp] theorem length_carryChain : ∀ (xs : List α) (c : UInt64),
    (carryChain step xs c).1.length = xs.length
  | [], _ => rfl
  | x :: xs, c => by
    rw [carryChain, List.length_cons, List.length_cons, length_carryChain xs]

theorem toNat_low_word (n : UInt64) : (n &&& 0xffffffff).toUInt32.toNat = n.toNat % 2 ^ 32 := by
  rw [UInt64.toNat_toUInt32, UInt64.toNat_and]
  have hmask : (0xffffffff : UInt64).toNat = 2 ^ 32 - 1 := rfl
  rw [hmask, Nat.and_two_pow_sub_one_eq_mod, Nat.mod_mod]

theorem toNat_high_word (n : UInt64) : (n >>> 32).toNat = n.toNat / 2 ^ 32 := by
  rw [UInt64.toNat_shiftRight, Nat.shiftRight_eq_div_pow]
  rfl

variable (v : α → Nat) (B : Nat)

/-- The carry chain computes the radix sum of the rounds' values plus the carry in, when each
round's 64-bit `n` is the carry plus the round's value and stays below `2 ^ 32 * B` for every
carry below `B` (so no round wraps and the carry stays below `B`). -/
theorem carryChain_spec (hstep : ∀ (c : UInt64) (x : α), c.toNat < B → (step c x).toNat = c.toNat + v x)
    (hbound : ∀ (c : UInt64) (x : α), c.toNat < B → c.toNat + v x < 2 ^ 32 * B) :
    ∀ (xs : List α) (c : UInt64), c.toNat < B →
      limbsValue (carryChain step xs c).1 + 2 ^ (32 * xs.length) * (carryChain step xs c).2.toNat =
        c.toNat + radixSum v xs ∧ (carryChain step xs c).2.toNat < B := by
  intro xs
  induction xs with
  | nil => simp [carryChain]
  | cons x xs ih =>
    intro c hc
    have hn := hstep c x hc
    have hlt := hbound c x hc
    have hcarry : (step c x >>> 32).toNat < B := by
      rw [toNat_high_word, Nat.div_lt_iff_lt_mul (by positivity)]
      omega
    obtain ⟨hsum, hout⟩ := ih _ hcarry
    refine ⟨?_, hout⟩
    rw [carryChain, limbsValue_cons, toNat_low_word, List.length_cons, Nat.mul_succ, Nat.pow_add,
      radixSum_cons]
    rw [toNat_high_word] at hsum
    have hsplit := Nat.mod_add_div (step c x).toNat (2 ^ 32)
    calc (step c x).toNat % 2 ^ 32 + 2 ^ 32 * limbsValue (carryChain step xs (step c x >>> 32)).1 +
          2 ^ (32 * xs.length) * 2 ^ 32 * (carryChain step xs (step c x >>> 32)).2.toNat
        = (step c x).toNat % 2 ^ 32 + 2 ^ 32 * (limbsValue (carryChain step xs (step c x >>> 32)).1 +
            2 ^ (32 * xs.length) * (carryChain step xs (step c x >>> 32)).2.toNat) := by ring
      _ = (step c x).toNat % 2 ^ 32 + 2 ^ 32 * ((step c x).toNat / 2 ^ 32 + radixSum v xs) := by
          rw [hsum]
      _ = c.toNat + (v x + 2 ^ 32 * radixSum v xs) := by omega

theorem limbsValue_carryChain (hstep : ∀ (c : UInt64) (x : α), c.toNat < B → (step c x).toNat = c.toNat + v x)
    (hbound : ∀ (c : UInt64) (x : α), c.toNat < B → c.toNat + v x < 2 ^ 32 * B) (xs : List α) {c : UInt64}
    (hc : c.toNat < B) :
    limbsValue (carryChain step xs c).1 = (c.toNat + radixSum v xs) % 2 ^ (32 * xs.length) := by
  have hlt := limbsValue_lt (carryChain step xs c).1
  rw [length_carryChain] at hlt
  rw [← (carryChain_spec step v B hstep hbound xs c hc).1, Nat.add_mul_mod_self_left,
    Nat.mod_eq_of_lt hlt]

end CarryChain

end TbcNode.Logic
