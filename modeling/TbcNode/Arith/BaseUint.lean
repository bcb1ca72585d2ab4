import TbcNode.Logic.Limbs
import TbcNode.Encoding.Bits

/-! # Unsigned big integers (`arith_uint256.h`, `arith_uint256.cpp`)

`base_uint<BITS>` keeps `WIDTH = BITS / 32` words, least significant first. Each operator is the
loop of the source over the words, and its spec gives its value as arithmetic modulo
`2 ^ (32 * WIDTH)`; the carry chains follow `Logic.carryChain`, and `/=` keeps `DivInvariant`.
-/

namespace TbcNode.Arith

open TbcNode.Logic

/-- `base_uint<BITS>`: the words `pn`, least significant first, `WIDTH = BITS / 32` of them. -/
structure BaseUint (BITS : Nat) where
  pn : List UInt32
  length_pn : pn.length = BITS / 32
  deriving DecidableEq

namespace BaseUint

variable {BITS : Nat}

def value (a : BaseUint BITS) : Nat := limbsValue a.pn

def zero : BaseUint BITS := ⟨List.replicate (BITS / 32) 0, List.length_replicate⟩

/-- `base_uint(uint64_t b)`: the low and the high word of `b`, then zeros. -/
def ofUInt64 (b : UInt64) : BaseUint BITS :=
  ⟨(b.toUInt32 :: (b >>> 32).toUInt32 :: List.replicate (BITS / 32 - 2) 0).take (BITS / 32), by
    simp only [List.length_take, List.length_cons, List.length_replicate]
    omega⟩

def complement (a : BaseUint BITS) : BaseUint BITS :=
  ⟨a.pn.map (~~~ ·), by rw [List.length_map, a.length_pn]⟩

/-- `operator+=`: `n = carry + pn[i] + b.pn[i]`, word by word. -/
def add (a b : BaseUint BITS) : BaseUint BITS :=
  ⟨(carryChain (fun carry (w : UInt32 × UInt32) => carry + w.1.toUInt64 + w.2.toUInt64)
    (a.pn.zip b.pn) 0).1, by rw [length_carryChain, List.length_zip, a.length_pn, b.length_pn,
      Nat.min_self]⟩

/-- The loop of prefix `operator++` from word `i` on: `while (++pn[i] == 0 && i < WIDTH - 1)`. -/
def incrementLoop : List UInt32 → List UInt32
  | [] => []
  | x :: rest => if x + 1 = 0 ∧ rest ≠ [] then (x + 1) :: incrementLoop rest else (x + 1) :: rest

/-- The loop of prefix `operator--`: `while (--pn[i] == (uint32_t)-1 && i < WIDTH - 1)`. -/
def decrementLoop : List UInt32 → List UInt32
  | [] => []
  | x :: rest =>
    if x - 1 = 0xffffffff ∧ rest ≠ [] then (x - 1) :: decrementLoop rest else (x - 1) :: rest

@[simp] theorem length_incrementLoop : ∀ l, (incrementLoop l).length = l.length
  | [] => rfl
  | x :: rest => by
    unfold incrementLoop
    split_ifs <;> simp [length_incrementLoop rest]

@[simp] theorem length_decrementLoop : ∀ l, (decrementLoop l).length = l.length
  | [] => rfl
  | x :: rest => by
    unfold decrementLoop
    split_ifs <;> simp [length_decrementLoop rest]

def increment (a : BaseUint BITS) : BaseUint BITS :=
  ⟨incrementLoop a.pn, by rw [length_incrementLoop, a.length_pn]⟩

def decrement (a : BaseUint BITS) : BaseUint BITS :=
  ⟨decrementLoop a.pn, by rw [length_decrementLoop, a.length_pn]⟩

/-- Unary `operator-`: the complement, then `ret++`. -/
def neg (a : BaseUint BITS) : BaseUint BITS := increment (complement a)

def sub (a b : BaseUint BITS) : BaseUint BITS := add a (neg b)

/-- `operator*=(uint32_t b32)`: `n = carry + (uint64_t)b32 * pn[i]`, word by word. -/
def mulUInt32 (a : BaseUint BITS) (b32 : UInt32) : BaseUint BITS :=
  ⟨(carryChain (fun carry (w : UInt32) => carry + b32.toUInt64 * w.toUInt64) a.pn 0).1, by
    rw [length_carryChain, a.length_pn]⟩

/-- Round `j` of `operator*=(const base_uint &b)`: for `i + j < WIDTH`,
`n = carry + pn[i + j] + (uint64_t)a.pn[j] * b.pn[i]`. -/
def mulRow (pn : List UInt32) (aj : UInt32) (b : List UInt32) (j : Nat) : List UInt32 :=
  pn.take j ++ (carryChain (fun carry (w : UInt32 × UInt32) =>
    carry + w.1.toUInt64 + aj.toUInt64 * w.2.toUInt64) ((pn.drop j).zip b) 0).1

/-- The rounds of `operator*=(const base_uint &b)` over `*this = 0`. -/
def mulLoop (a b : List UInt32) (width : Nat) : List UInt32 :=
  (List.range width).foldl (fun pn j => mulRow pn (a.getD j 0) b j) (List.replicate width 0)

theorem length_mulRow {pn b : List UInt32} (aj : UInt32) (j : Nat)
    (hb : pn.length ≤ b.length + j) : (mulRow pn aj b j).length = pn.length := by
  rw [mulRow, List.length_append, length_carryChain, List.length_zip, List.length_take,
    List.length_drop]
  omega

theorem length_foldl_mulRow (a b : List UInt32) {width : Nat} (hb : b.length = width) :
    ∀ (js : List Nat) (pn : List UInt32), pn.length = width →
      (js.foldl (fun pn j => mulRow pn (a.getD j 0) b j) pn).length = width := by
  intro js
  induction js with
  | nil => simp
  | cons j js ih =>
    intro pn hpn
    rw [List.foldl_cons]
    exact ih _ ((length_mulRow _ _ (by omega)).trans hpn)

theorem length_mulLoop (a b : List UInt32) {width : Nat} (hb : b.length = width) :
    (mulLoop a b width).length = width :=
  length_foldl_mulRow a b hb _ _ List.length_replicate

def mul (a b : BaseUint BITS) : BaseUint BITS :=
  ⟨mulLoop a.pn b.pn (BITS / 32), length_mulLoop _ _ b.length_pn⟩

/-- Round `i` of `operator<<=`, with `k = shift / 32` and `s = shift % 32`: word `i` of the copy
`a` is ORed into word `i + k + 1` (its top `s` bits, when `s ≠ 0`) and into word `i + k` (shifted
up by `s`). -/
def shiftLeftRound (a : List UInt32) (k s : Nat) (pn : List UInt32) (i : Nat) : List UInt32 :=
  let pn := if i + k + 1 < a.length ∧ s ≠ 0 then
    pn.modify (i + k + 1) (· ||| a.getD i 0 >>> UInt32.ofNat (32 - s)) else pn
  if i + k < a.length then pn.modify (i + k) (· ||| a.getD i 0 <<< UInt32.ofNat s) else pn

/-- Round `i` of `operator>>=`: word `i` of the copy `a` is ORed into word `i - k - 1` (its low
`s` bits, moved to the top, when `s ≠ 0`) and into word `i - k` (shifted down by `s`). -/
def shiftRightRound (a : List UInt32) (k s : Nat) (pn : List UInt32) (i : Nat) : List UInt32 :=
  let pn := if k + 1 ≤ i ∧ s ≠ 0 then
    pn.modify (i - k - 1) (· ||| a.getD i 0 <<< UInt32.ofNat (32 - s)) else pn
  if k ≤ i then pn.modify (i - k) (· ||| a.getD i 0 >>> UInt32.ofNat s) else pn

@[simp] theorem length_shiftLeftRound (a pn : List UInt32) (k s i : Nat) :
    (shiftLeftRound a k s pn i).length = pn.length := by
  unfold shiftLeftRound
  simp

@[simp] theorem length_shiftRightRound (a pn : List UInt32) (k s i : Nat) :
    (shiftRightRound a k s pn i).length = pn.length := by
  unfold shiftRightRound
  simp

/-- `operator<<=(unsigned int shift)`: the rounds over `pn` cleared to zero. -/
def shiftLeft (a : BaseUint BITS) (shift : Nat) : BaseUint BITS :=
  ⟨(List.range (BITS / 32)).foldl (shiftLeftRound a.pn (shift / 32) (shift % 32))
    (List.replicate (BITS / 32) 0), by
      rw [length_foldl_eq (fun acc i => length_shiftLeftRound a.pn acc _ _ i),
        List.length_replicate]⟩

def shiftRight (a : BaseUint BITS) (shift : Nat) : BaseUint BITS :=
  ⟨(List.range (BITS / 32)).foldl (shiftRightRound a.pn (shift / 32) (shift % 32))
    (List.replicate (BITS / 32) 0), by
      rw [length_foldl_eq (fun acc i => length_shiftRightRound a.pn acc _ _ i),
        List.length_replicate]⟩

/-- The loop of `CompareTo`, over the words from the most significant: the first pair of words
that differ decides. -/
def compareLoop : List UInt32 → List UInt32 → Int
  | x :: xs, y :: ys => if x < y then -1 else if x > y then 1 else compareLoop xs ys
  | _, _ => 0

def compareTo (a b : BaseUint BITS) : Int := compareLoop a.pn.reverse b.pn.reverse

/-- The inner loop of `bits()`, `for (bits = 31; bits > 0; bits--) if (pn[pos] & 1 << bits)`: the
highest of bits `31` down to `1` set in the word, `0` when none is. -/
def bitsScan (x : UInt32) : Nat → Nat
  | 0 => 0
  | b + 1 => if x &&& (1 <<< UInt32.ofNat (b + 1)) ≠ 0 then b + 1 else bitsScan x b

/-- The outer loop of `bits()`, over the words from the most significant: the first nonzero word,
at position `pos`, gives `32 * pos + bits + 1`. -/
def bitsLoop : List UInt32 → Nat
  | [] => 0
  | x :: xs => if x ≠ 0 then 32 * xs.length + bitsScan x 31 + 1 else bitsLoop xs

/-- `bits()`: the position of the highest bit set plus one, or zero. -/
def bits (a : BaseUint BITS) : Nat := bitsLoop a.pn.reverse

/-- `GetLow64()`: `pn[0] | (uint64_t)pn[1] << 32`. -/
def getLow64 (a : BaseUint BITS) : UInt64 :=
  (a.pn.getD 0 0).toUInt64 ||| (a.pn.getD 1 0).toUInt64 <<< 32

/-- `EqualTo(uint64_t b)`: the words from `2` up are zero, word `1` is `b >> 32` and word `0` is
`b & 0xffffffff`. -/
def equalTo (a : BaseUint BITS) (b : UInt64) : Bool :=
  (a.pn.drop 2).all (· == 0) && (a.pn.getD 1 0).toUInt64 == b >>> 32 &&
    (a.pn.getD 0 0).toUInt64 == (b &&& 0xffffffff)

/-- `pn[shift / 32] |= (1 << (shift & 31))`, the quotient bit of `/=`. -/
def setBit (q : BaseUint BITS) (shift : Nat) : BaseUint BITS :=
  ⟨q.pn.modify (shift / 32) (· ||| 1 <<< UInt32.ofNat (shift % 32)), by
    rw [List.length_modify, q.length_pn]⟩

/-- A round of the loop of `/=`: `if (num >= div) { num -= div; pn[shift / 32] |= ...; }`. -/
def divRound (num div q : BaseUint BITS) (shift : Nat) : BaseUint BITS × BaseUint BITS :=
  if compareTo num div ≥ 0 then (sub num div, setBit q shift) else (num, q)

/-- The loop of `/=`, `while (shift >= 0)`: a round at `shift`, then `div >>= 1; shift--`. -/
def divLoop : Nat → BaseUint BITS → BaseUint BITS → BaseUint BITS → BaseUint BITS
  | 0, num, div, q => (divRound num div q 0).2
  | shift + 1, num, div, q =>
    divLoop shift (divRound num div q (shift + 1)).1 (shiftRight div 1)
      (divRound num div q (shift + 1)).2

/-- `operator/=`: the quotient, or the `uint_error` a zero divisor throws. -/
def div (a b : BaseUint BITS) : Except String (BaseUint BITS) :=
  if bits b = 0 then .error "Division by zero"
  else if bits b > bits a then .ok zero
  else .ok (divLoop (bits a - bits b) a (shiftLeft b (bits a - bits b)) zero)

/-! ## Values -/

theorem value_lt (a : BaseUint BITS) : a.value < 2 ^ (32 * (BITS / 32)) := by
  have := limbsValue_lt a.pn
  rwa [a.length_pn] at this

theorem exists_value_eq {n : Nat} (hn : n < 2 ^ (32 * (BITS / 32))) :
    ∃ a : BaseUint BITS, a.value = n :=
  ⟨⟨limbsOf (BITS / 32) n, length_limbsOf _ _⟩, by
    rw [value, limbsValue_limbsOf, Nat.mod_eq_of_lt hn]⟩

theorem ext_value {a b : BaseUint BITS} (h : a.value = b.value) : a = b := by
  cases a with
  | mk pa ha =>
    cases b with
    | mk pb hb =>
      have : pa = pb := eq_of_limbsValue_eq (ha.trans hb.symm) h
      subst this
      rfl

@[simp] theorem value_zero : (zero : BaseUint BITS).value = 0 := limbsValue_replicate_zero _

theorem value_ofUInt64 (b : UInt64) (hw : 2 ≤ BITS / 32) :
    (ofUInt64 b : BaseUint BITS).value = b.toNat := by
  have hlen : (b.toUInt32 :: (b >>> 32).toUInt32 :: List.replicate (BITS / 32 - 2) 0).length =
      BITS / 32 := by
    simp only [List.length_cons, List.length_replicate]
    omega
  have hb := b.toNat_lt
  rw [ofUInt64, value]
  dsimp only
  rw [List.take_of_length_le hlen.le, limbsValue_cons, limbsValue_cons,
    limbsValue_replicate_zero, UInt64.toNat_toUInt32, UInt64.toNat_toUInt32, toNat_high_word]
  omega

theorem value_complement (a : BaseUint BITS) :
    (complement a).value = 2 ^ (32 * (BITS / 32)) - 1 - a.value := by
  rw [complement, value, value, limbsValue_map_not, a.length_pn]

theorem toNat_add_round (c : UInt64) (w : UInt32 × UInt32) (hc : c.toNat < 2) :
    (c + w.1.toUInt64 + w.2.toUInt64).toNat = c.toNat + (w.1.toNat + w.2.toNat) := by
  have := w.1.toNat_lt
  have := w.2.toNat_lt
  simp only [UInt64.toNat_add, UInt32.toNat_toUInt64]
  omega

theorem value_add (a b : BaseUint BITS) :
    (add a b).value = (a.value + b.value) % 2 ^ (32 * (BITS / 32)) := by
  have hbound : ∀ (c : UInt64) (w : UInt32 × UInt32), c.toNat < 2 →
      c.toNat + (w.1.toNat + w.2.toNat) < 2 ^ 32 * 2 := by
    intro c w hc
    have := w.1.toNat_lt
    have := w.2.toNat_lt
    omega
  have hsum : radixSum (fun w : UInt32 × UInt32 => w.1.toNat + w.2.toNat) (a.pn.zip b.pn) =
      a.value + b.value := by
    rw [radixSum_add, radixSum_zip_fst, radixSum_zip_snd, a.length_pn, ← b.length_pn,
      List.take_length, b.length_pn, ← a.length_pn, List.take_length]
    rfl
  rw [add, value, limbsValue_carryChain _ _ 2 toNat_add_round hbound _ (by decide), hsum,
    List.length_zip, a.length_pn, b.length_pn, Nat.min_self, UInt64.toNat_zero, Nat.zero_add]

theorem limbsValue_incrementLoop : ∀ l : List UInt32,
    limbsValue (incrementLoop l) = (limbsValue l + 1) % 2 ^ (32 * l.length)
  | [] => rfl
  | x :: rest => by
    have hx := x.toNat_lt
    have hrest := limbsValue_lt rest
    have hsucc : (x + 1).toNat = (x.toNat + 1) % 2 ^ 32 := UInt32.toNat_add _ _
    rw [List.length_cons, Nat.mul_succ, Nat.pow_add, Nat.mul_comm (2 ^ (32 * rest.length))]
    unfold incrementLoop
    split_ifs with h
    · obtain ⟨hzero, -⟩ := h
      have hxmax : x.toNat = 2 ^ 32 - 1 := by
        have := congrArg UInt32.toNat hzero
        rw [hsucc] at this
        simp only [UInt32.toNat_zero] at this
        omega
      rw [limbsValue_cons, limbsValue_cons, hzero, limbsValue_incrementLoop rest,
        UInt32.toNat_zero, hxmax]
      have hsplit : 2 ^ 32 - 1 + 2 ^ 32 * limbsValue rest + 1 = 0 + 2 ^ 32 * (limbsValue rest + 1) :=
        by omega
      rw [hsplit, add_mul_mod_mul (by norm_num)]
    · rw [limbsValue_cons, limbsValue_cons, hsucc]
      by_cases hwrap : x + 1 = 0
      · have hnil : rest = [] := by
          by_contra hne
          exact h ⟨hwrap, hne⟩
        subst hnil
        simp
      · have hlt : x.toNat + 1 < 2 ^ 32 := by
          by_contra hge
          apply hwrap
          apply UInt32.toNat_inj.mp
          rw [hsucc, UInt32.toNat_zero]
          omega
        have : x.toNat + 2 ^ 32 * limbsValue rest + 1 = (x.toNat + 1) + 2 ^ 32 * limbsValue rest :=
          by omega
        rw [Nat.mod_eq_of_lt hlt, this, add_mul_mod_mul hlt, Nat.mod_eq_of_lt hrest]

theorem limbsValue_decrementLoop : ∀ l : List UInt32,
    limbsValue (decrementLoop l) = (limbsValue l + 2 ^ (32 * l.length) - 1) % 2 ^ (32 * l.length)
  | [] => rfl
  | x :: rest => by
    have hx := x.toNat_lt
    have hrest := limbsValue_lt rest
    have hpred : (x - 1).toNat = (2 ^ 32 - 1 + x.toNat) % 2 ^ 32 := UInt32.toNat_sub _ _
    rw [List.length_cons, Nat.mul_succ, Nat.pow_add, Nat.mul_comm (2 ^ (32 * rest.length))]
    have hpos : 0 < 2 ^ (32 * rest.length) := by positivity
    unfold decrementLoop
    split_ifs with h
    · obtain ⟨hmax, -⟩ := h
      have hxzero : x.toNat = 0 := by
        have := congrArg UInt32.toNat hmax
        rw [hpred] at this
        have hm : (0xffffffff : UInt32).toNat = 2 ^ 32 - 1 := rfl
        rw [hm] at this
        omega
      rw [limbsValue_cons, limbsValue_cons, hmax, limbsValue_decrementLoop rest, hxzero]
      have hsplit : 0 + 2 ^ 32 * limbsValue rest + 2 ^ 32 * 2 ^ (32 * rest.length) - 1 =
          (2 ^ 32 - 1) + 2 ^ 32 * (limbsValue rest + 2 ^ (32 * rest.length) - 1) := by
        rw [Nat.mul_sub, Nat.mul_add]
        omega
      rw [hsplit, add_mul_mod_mul (by norm_num)]
      rfl
    · rw [limbsValue_cons, limbsValue_cons, hpred]
      by_cases hwrap : x - 1 = 0xffffffff
      · have hnil : rest = [] := by
          by_contra hne
          exact h ⟨hwrap, hne⟩
        subst hnil
        simp only [limbsValue_nil, Nat.mul_zero, Nat.add_zero, List.length_nil, Nat.pow_zero,
          Nat.mul_one]
        omega
      · have hpos' : 0 < x.toNat := by
          by_contra hzero
          apply hwrap
          apply UInt32.toNat_inj.mp
          rw [hpred]
          have hm : (0xffffffff : UInt32).toNat = 2 ^ 32 - 1 := rfl
          rw [hm]
          omega
        have hsplit : x.toNat + 2 ^ 32 * limbsValue rest + 2 ^ 32 * 2 ^ (32 * rest.length) - 1 =
            (x.toNat - 1) + 2 ^ 32 * (limbsValue rest + 2 ^ (32 * rest.length)) := by
          rw [Nat.mul_add]
          omega
        have hlow : (2 ^ 32 - 1 + x.toNat) % 2 ^ 32 = x.toNat - 1 := by omega
        rw [hlow, hsplit, add_mul_mod_mul (by omega), Nat.add_mod_right, Nat.mod_eq_of_lt hrest]

theorem value_increment (a : BaseUint BITS) :
    (increment a).value = (a.value + 1) % 2 ^ (32 * (BITS / 32)) := by
  rw [increment, value, limbsValue_incrementLoop, a.length_pn]
  rfl

theorem value_decrement (a : BaseUint BITS) :
    (decrement a).value = (a.value + 2 ^ (32 * (BITS / 32)) - 1) % 2 ^ (32 * (BITS / 32)) := by
  rw [decrement, value, limbsValue_decrementLoop, a.length_pn]
  rfl

theorem value_neg (a : BaseUint BITS) :
    (neg a).value = (2 ^ (32 * (BITS / 32)) - a.value) % 2 ^ (32 * (BITS / 32)) := by
  have ha := a.value_lt
  rw [neg, value_increment, value_complement]
  congr 1
  omega

theorem value_sub (a b : BaseUint BITS) :
    (sub a b).value = (a.value + 2 ^ (32 * (BITS / 32)) - b.value) % 2 ^ (32 * (BITS / 32)) := by
  have hb := b.value_lt
  rw [sub, value_add, value_neg, Nat.add_mod_mod, Nat.add_sub_assoc hb.le]

theorem toNat_mulUInt32_round (b32 : UInt32) (c : UInt64) (w : UInt32) (hc : c.toNat < 2 ^ 32) :
    (c + b32.toUInt64 * w.toUInt64).toNat = c.toNat + b32.toNat * w.toNat := by
  have hprod : b32.toNat * w.toNat ≤ (2 ^ 32 - 1) * (2 ^ 32 - 1) :=
    Nat.mul_le_mul (by have := b32.toNat_lt; omega) (by have := w.toNat_lt; omega)
  simp only [UInt64.toNat_add, UInt64.toNat_mul, UInt32.toNat_toUInt64]
  rw [Nat.mod_eq_of_lt (by omega : b32.toNat * w.toNat < 2 ^ 64)]
  omega

theorem value_mulUInt32 (a : BaseUint BITS) (b32 : UInt32) :
    (mulUInt32 a b32).value = a.value * b32.toNat % 2 ^ (32 * (BITS / 32)) := by
  have hbound : ∀ (c : UInt64) (w : UInt32), c.toNat < 2 ^ 32 →
      c.toNat + b32.toNat * w.toNat < 2 ^ 32 * 2 ^ 32 := by
    intro c w hc
    have hprod : b32.toNat * w.toNat ≤ (2 ^ 32 - 1) * (2 ^ 32 - 1) :=
      Nat.mul_le_mul (by have := b32.toNat_lt; omega) (by have := w.toNat_lt; omega)
    omega
  rw [mulUInt32, value, limbsValue_carryChain _ _ _ (toNat_mulUInt32_round b32) hbound _
    (by decide), radixSum_mul, a.length_pn, Nat.mul_comm, UInt64.toNat_zero, Nat.zero_add]
  rfl

theorem toNat_mul_round (aj : UInt32) (c : UInt64) (w : UInt32 × UInt32) (hc : c.toNat < 2 ^ 32) :
    (c + w.1.toUInt64 + aj.toUInt64 * w.2.toUInt64).toNat =
      c.toNat + (w.1.toNat + aj.toNat * w.2.toNat) := by
  have hprod : aj.toNat * w.2.toNat ≤ (2 ^ 32 - 1) * (2 ^ 32 - 1) :=
    Nat.mul_le_mul (by have := aj.toNat_lt; omega) (by have := w.2.toNat_lt; omega)
  have := w.1.toNat_lt
  simp only [UInt64.toNat_add, UInt64.toNat_mul, UInt32.toNat_toUInt64]
  rw [Nat.mod_eq_of_lt (by omega : aj.toNat * w.2.toNat < 2 ^ 64)]
  omega

theorem limbsValue_mulRow {pn b : List UInt32} (aj : UInt32) {j : Nat} (hj : j ≤ pn.length)
    (hb : pn.length ≤ b.length + j) :
    limbsValue (mulRow pn aj b j) =
      (limbsValue pn + 2 ^ (32 * j) * (aj.toNat * limbsValue b)) % 2 ^ (32 * pn.length) := by
  have hbound : ∀ (c : UInt64) (w : UInt32 × UInt32), c.toNat < 2 ^ 32 →
      c.toNat + (w.1.toNat + aj.toNat * w.2.toNat) < 2 ^ 32 * 2 ^ 32 := by
    intro c w hc
    have hprod : aj.toNat * w.2.toNat ≤ (2 ^ 32 - 1) * (2 ^ 32 - 1) :=
      Nat.mul_le_mul (by have := aj.toNat_lt; omega) (by have := w.2.toNat_lt; omega)
    have := w.1.toNat_lt
    omega
  have hdrop : (pn.drop j).length = pn.length - j := List.length_drop
  have hzip : ((pn.drop j).zip b).length = pn.length - j := by
    rw [List.length_zip, hdrop]
    omega
  have hsum : radixSum (fun w : UInt32 × UInt32 => w.1.toNat + aj.toNat * w.2.toNat)
      ((pn.drop j).zip b) = limbsValue (pn.drop j) + aj.toNat * (limbsValue b % 2 ^ (32 * (pn.length - j))) := by
    rw [radixSum_add, radixSum_zip_fst, radixSum_mul, radixSum_zip_snd,
      List.take_of_length_le (by omega), hdrop]
    rw [← limbsValue_take_mod b _ (by omega)]
    rfl
  have hsplit := limbsValue_take_add_drop pn j hj
  have htake := limbsValue_lt (pn.take j)
  rw [List.length_take, Nat.min_eq_left hj] at htake
  have hwidth : 2 ^ (32 * pn.length) = 2 ^ (32 * j) * 2 ^ (32 * (pn.length - j)) := by
    rw [← Nat.pow_add]
    congr 1
    omega
  rw [mulRow, limbsValue_append, limbsValue_carryChain _ _ _ (toNat_mul_round aj) hbound _
    (by decide), UInt64.toNat_zero, Nat.zero_add, hsum, hzip, List.length_take,
    Nat.min_eq_left hj, hsplit, hwidth, Nat.add_assoc, ← Nat.mul_add, add_mul_mod_mul htake]
  congr 2
  rw [Nat.add_mod, Nat.mul_mod, Nat.mod_mod, ← Nat.mul_mod, ← Nat.add_mod]

theorem limbsValue_foldl_mulRow (a b : List UInt32) {width : Nat} (ha : a.length = width)
    (hb : b.length = width) : ∀ r, r ≤ width →
      limbsValue ((List.range r).foldl (fun pn j => mulRow pn (a.getD j 0) b j)
        (List.replicate width 0)) = limbsValue (a.take r) * limbsValue b % 2 ^ (32 * width)
  | 0, _ => by simp
  | r + 1, hr => by
    have hlen := length_foldl_mulRow a b hb (List.range r) (List.replicate width 0)
      List.length_replicate
    have hprev := limbsValue_foldl_mulRow a b ha hb r (by omega)
    have htake : limbsValue (a.take (r + 1)) =
        limbsValue (a.take r) + 2 ^ (32 * r) * (a.getD r 0).toNat := by
      rw [List.take_add_one, List.getElem?_eq_getElem (by omega), Option.toList_some,
        limbsValue_append, List.length_take, Nat.min_eq_left (by omega), limbsValue_cons,
        limbsValue_nil, Nat.mul_zero, Nat.add_zero, List.getD_eq_getElem _ _ (by omega)]
    rw [List.range_succ, List.foldl_append, List.foldl_cons, List.foldl_nil,
      limbsValue_mulRow _ (by omega) (by omega), hlen, hprev, Nat.mod_add_mod, htake]
    congr 1
    ring

theorem value_mul (a b : BaseUint BITS) :
    (mul a b).value = a.value * b.value % 2 ^ (32 * (BITS / 32)) := by
  have h := limbsValue_foldl_mulRow a.pn b.pn a.length_pn b.length_pn (BITS / 32) le_rfl
  rw [← a.length_pn, List.take_length, a.length_pn] at h
  exact h

/-! ## Shifts -/

theorem testBit_shiftLeftRound (a pn : List UInt32) (k s i j : Nat) (hpn : pn.length = a.length) :
    (limbsValue (shiftLeftRound a k s pn i)).testBit j =
      ((limbsValue pn).testBit j ||
        ((decide ((i + k + 1 < a.length ∧ s ≠ 0) ∧ j / 32 = i + k + 1 ∧ i + k + 1 < a.length) &&
            (a.getD i 0 >>> UInt32.ofNat (32 - s)).toNat.testBit (j % 32)) ||
          (decide (i + k < a.length ∧ j / 32 = i + k ∧ i + k < a.length) &&
            (a.getD i 0 <<< UInt32.ofNat s).toNat.testBit (j % 32)))) := by
  unfold shiftLeftRound
  dsimp only
  rw [testBit_limbsValue_ite_modify_or, length_ite_modify, testBit_limbsValue_ite_modify_or, hpn,
    Bool.or_assoc]

theorem testBit_shiftRightRound (a pn : List UInt32) (k s i j : Nat) (hpn : pn.length = a.length) :
    (limbsValue (shiftRightRound a k s pn i)).testBit j =
      ((limbsValue pn).testBit j ||
        ((decide ((k + 1 ≤ i ∧ s ≠ 0) ∧ j / 32 = i - k - 1 ∧ i - k - 1 < a.length) &&
            (a.getD i 0 <<< UInt32.ofNat (32 - s)).toNat.testBit (j % 32)) ||
          (decide (k ≤ i ∧ j / 32 = i - k ∧ i - k < a.length) &&
            (a.getD i 0 >>> UInt32.ofNat s).toNat.testBit (j % 32)))) := by
  unfold shiftRightRound
  dsimp only
  rw [testBit_limbsValue_ite_modify_or, length_ite_modify, testBit_limbsValue_ite_modify_or, hpn,
    Bool.or_assoc]

theorem value_shiftLeft (a : BaseUint BITS) (shift : Nat) :
    (shiftLeft a shift).value = a.value * 2 ^ shift % 2 ^ (32 * (BITS / 32)) := by
  apply Nat.eq_of_testBit_eq
  intro j
  have hfold := bit_foldl_of_or (shiftLeftRound a.pn (shift / 32) (shift % 32))
    (fun l j => (limbsValue l).testBit j) _ (fun l => l.length = a.pn.length)
    (fun l i hl => (length_shiftLeftRound _ _ _ _ _).trans hl)
    (fun l i j hl => testBit_shiftLeftRound a.pn l _ _ i j hl) (List.range (BITS / 32))
    (List.replicate (BITS / 32) 0) (by rw [List.length_replicate, a.length_pn]) j
  simp only [limbsValue_replicate_zero, Nat.zero_testBit, Bool.false_or] at hfold
  rw [value, shiftLeft, hfold, Nat.testBit_mod_two_pow, ← Nat.shiftLeft_eq, Nat.testBit_shiftLeft]
  have hs : shift % 32 < 32 := Nat.mod_lt _ (by omega)
  apply Bool.eq_iff_iff.mpr
  simp only [List.any_eq_true, List.mem_range, Bool.or_eq_true, Bool.and_eq_true,
    decide_eq_true_eq, a.length_pn, testBit_word_shiftLeft _ hs (Nat.mod_lt j (by omega : 32 > 0))]
  constructor
  · rintro ⟨i, hi, ⟨⟨⟨hk, hs0⟩, hj, -⟩, hbit⟩ | ⟨⟨hk, hj, -⟩, hle, hbit⟩⟩
    · rw [testBit_word_shiftRight _ (by omega)] at hbit
      have hlow : 32 - shift % 32 + j % 32 < 32 := by
        by_contra hge
        rw [testBit_word_of_le _ (by omega)] at hbit
        exact Bool.false_ne_true hbit
      have hidx : j - shift = 32 * i + (32 - shift % 32 + j % 32) := by omega
      refine ⟨by omega, by omega, ?_⟩
      rw [value, hidx, testBit_limbsValue_word _ _ _ hlow]
      exact hbit
    · have hidx : j - shift = 32 * i + (j % 32 - shift % 32) := by omega
      refine ⟨by omega, by omega, ?_⟩
      rw [value, hidx, testBit_limbsValue_word _ _ _ (by omega)]
      exact hbit
  · rintro ⟨hjN, hle, hbit⟩
    rw [value] at hbit
    by_cases hr : shift % 32 ≤ j % 32
    · have hidx : j - shift = 32 * (j / 32 - shift / 32) + (j % 32 - shift % 32) := by omega
      rw [hidx, testBit_limbsValue_word _ _ _ (by omega)] at hbit
      exact ⟨j / 32 - shift / 32, by omega, Or.inr ⟨⟨by omega, by omega, by omega⟩, hr, hbit⟩⟩
    · have hidx : j - shift = 32 * (j / 32 - shift / 32 - 1) + (32 - shift % 32 + j % 32) := by
        omega
      rw [hidx, testBit_limbsValue_word _ _ _ (by omega)] at hbit
      refine ⟨j / 32 - shift / 32 - 1, by omega,
        Or.inl ⟨⟨⟨by omega, by omega⟩, by omega, by omega⟩, ?_⟩⟩
      rw [testBit_word_shiftRight _ (by omega)]
      exact hbit

theorem value_shiftRight (a : BaseUint BITS) (shift : Nat) :
    (shiftRight a shift).value = a.value / 2 ^ shift := by
  apply Nat.eq_of_testBit_eq
  intro j
  have hfold := bit_foldl_of_or (shiftRightRound a.pn (shift / 32) (shift % 32))
    (fun l j => (limbsValue l).testBit j) _ (fun l => l.length = a.pn.length)
    (fun l i hl => (length_shiftRightRound _ _ _ _ _).trans hl)
    (fun l i j hl => testBit_shiftRightRound a.pn l _ _ i j hl) (List.range (BITS / 32))
    (List.replicate (BITS / 32) 0) (by rw [List.length_replicate, a.length_pn]) j
  simp only [limbsValue_replicate_zero, Nat.zero_testBit, Bool.false_or] at hfold
  rw [value, shiftRight, hfold, Nat.testBit_div_two_pow]
  have hs : shift % 32 < 32 := Nat.mod_lt _ (by omega)
  have hr : j % 32 < 32 := Nat.mod_lt _ (by omega)
  apply Bool.eq_iff_iff.mpr
  simp only [List.any_eq_true, List.mem_range, Bool.or_eq_true, Bool.and_eq_true,
    decide_eq_true_eq, a.length_pn, testBit_word_shiftRight _ hs]
  constructor
  · rintro ⟨i, hi, ⟨⟨⟨hk, hs0⟩, hj, -⟩, hbit⟩ | ⟨⟨hk, hj, -⟩, hbit⟩⟩
    · rw [testBit_word_shiftLeft _ (by omega) hr] at hbit
      simp only [Bool.and_eq_true, decide_eq_true_eq] at hbit
      obtain ⟨hle, hbit⟩ := hbit
      have hidx : j + shift = 32 * i + (j % 32 - (32 - shift % 32)) := by omega
      rw [value, hidx, testBit_limbsValue_word _ _ _ (by omega)]
      exact hbit
    · have hlow : shift % 32 + j % 32 < 32 := by
        by_contra hge
        rw [testBit_word_of_le _ (by omega)] at hbit
        exact Bool.false_ne_true hbit
      have hidx : j + shift = 32 * i + (shift % 32 + j % 32) := by omega
      rw [value, hidx, testBit_limbsValue_word _ _ _ hlow]
      exact hbit
  · intro hbit
    have hlt : j + shift < 32 * (BITS / 32) := by
      by_contra hge
      rw [Nat.testBit_lt_two_pow
        (lt_of_lt_of_le a.value_lt (Nat.pow_le_pow_right (by omega) (by omega)))] at hbit
      exact Bool.false_ne_true hbit
    rw [value] at hbit
    by_cases hwrap : shift % 32 + j % 32 < 32
    · have hidx : j + shift = 32 * (j / 32 + shift / 32) + (shift % 32 + j % 32) := by omega
      rw [hidx, testBit_limbsValue_word _ _ _ hwrap] at hbit
      exact ⟨j / 32 + shift / 32, by omega, Or.inr ⟨⟨by omega, by omega, by omega⟩, hbit⟩⟩
    · have hidx : j + shift = 32 * (j / 32 + shift / 32 + 1) + (shift % 32 + j % 32 - 32) := by
        omega
      rw [hidx, testBit_limbsValue_word _ _ _ (by omega)] at hbit
      refine ⟨j / 32 + shift / 32 + 1, by omega,
        Or.inl ⟨⟨⟨by omega, by omega⟩, by omega, by omega⟩, ?_⟩⟩
      rw [testBit_word_shiftLeft _ (by omega) hr]
      have hbits : j % 32 - (32 - shift % 32) = shift % 32 + j % 32 - 32 := by omega
      simp only [Bool.and_eq_true, decide_eq_true_eq, hbits]
      exact ⟨by omega, hbit⟩

/-! ## Comparison and `bits()` -/

theorem add_mul_lt_add_mul {r s P x y : Nat} (hr : r < P) (hxy : x < y) :
    r + P * x < s + P * y :=
  calc r + P * x < P * (x + 1) := by rw [Nat.mul_succ]; omega
    _ ≤ P * y := Nat.mul_le_mul_left _ hxy
    _ ≤ s + P * y := Nat.le_add_left _ _

theorem compareLoop_eq : ∀ (xs ys : List UInt32), xs.length = ys.length →
    compareLoop xs ys = if limbsValue xs.reverse < limbsValue ys.reverse then -1
      else if limbsValue xs.reverse = limbsValue ys.reverse then 0 else 1
  | [], [], _ => rfl
  | x :: xs, y :: ys, h => by
    have hlen : xs.length = ys.length := by simpa using h
    have hx := limbsValue_lt xs.reverse
    have hy := limbsValue_lt ys.reverse
    rw [List.length_reverse] at hx hy
    rw [compareLoop, limbsValue_reverse_cons, limbsValue_reverse_cons, hlen]
    rw [hlen] at hx
    by_cases hlt : x < y
    · have hlt' : x.toNat < y.toNat := UInt32.lt_iff_toNat_lt.mp hlt
      rw [if_pos hlt, if_pos (add_mul_lt_add_mul hx hlt')]
    · by_cases hgt : x > y
      · have hgt' : y.toNat < x.toNat := UInt32.lt_iff_toNat_lt.mp hgt
        have := add_mul_lt_add_mul (s := limbsValue xs.reverse) hy hgt'
        rw [if_neg hlt, if_pos hgt, if_neg (by omega), if_neg (by omega)]
      · have hxy : x = y := by
          apply UInt32.toNat_inj.mp
          have h₁ : ¬x.toNat < y.toNat := fun h => hlt (UInt32.lt_iff_toNat_lt.mpr h)
          have h₂ : ¬y.toNat < x.toNat := fun h => hgt (UInt32.lt_iff_toNat_lt.mpr h)
          omega
        subst hxy
        rw [if_neg hlt, if_neg hgt, compareLoop_eq xs ys hlen]
        simp only [Nat.add_lt_add_iff_right, Nat.add_right_cancel_iff]

theorem compareTo_eq (a b : BaseUint BITS) :
    compareTo a b = if a.value < b.value then -1 else if a.value = b.value then 0 else 1 := by
  rw [compareTo, compareLoop_eq _ _ (by rw [List.length_reverse, List.length_reverse,
    a.length_pn, b.length_pn]), List.reverse_reverse, List.reverse_reverse]
  rfl

theorem compareTo_nonneg_iff (a b : BaseUint BITS) : 0 ≤ compareTo a b ↔ b.value ≤ a.value := by
  rw [compareTo_eq]
  split_ifs <;> omega

theorem size_eq_succ_of_le_of_lt {n k : Nat} (h₁ : 2 ^ k ≤ n) (h₂ : n < 2 ^ (k + 1)) :
    n.size = k + 1 :=
  le_antisymm (Nat.size_le.mpr h₂) (Nat.lt_size.mpr h₁)

theorem size_add_two_pow_mul {r m x : Nat} (hr : r < 2 ^ m) (hx : 0 < x) :
    (r + 2 ^ m * x).size = m + x.size := by
  have hk : 0 < x.size := Nat.size_pos.mpr hx
  have hlow : 2 ^ (x.size - 1) ≤ x := Nat.lt_size.mp (by omega)
  have hhigh : x < 2 ^ x.size := Nat.lt_size_self x
  have hsplit : m + x.size = (m + (x.size - 1)) + 1 := by omega
  rw [hsplit]
  apply size_eq_succ_of_le_of_lt
  · calc 2 ^ (m + (x.size - 1)) = 2 ^ m * 2 ^ (x.size - 1) := Nat.pow_add _ _ _
      _ ≤ 2 ^ m * x := Nat.mul_le_mul_left _ hlow
      _ ≤ r + 2 ^ m * x := Nat.le_add_left _ _
  · calc r + 2 ^ m * x < 2 ^ m * (x + 1) := by rw [Nat.mul_succ]; omega
      _ ≤ 2 ^ m * 2 ^ x.size := Nat.mul_le_mul_left _ hhigh
      _ = 2 ^ (m + (x.size - 1) + 1) := by rw [← Nat.pow_add, ← hsplit]

theorem toNat_one_shiftLeft {c : Nat} (hc : c < 32) :
    ((1 : UInt32) <<< UInt32.ofNat c).toNat = 2 ^ c := by
  have hshift : (UInt32.ofNat c).toNat % 32 = c := by
    rw [UInt32.toNat_ofNat']
    omega
  rw [UInt32.toNat_shiftLeft, hshift, UInt32.toNat_one, Nat.one_shiftLeft,
    Nat.mod_eq_of_lt (Nat.pow_lt_pow_right (by omega) hc)]

theorem and_one_shiftLeft_ne_zero_iff (x : UInt32) {c : Nat} (hc : c < 32) :
    x &&& (1 <<< UInt32.ofNat c) ≠ 0 ↔ x.toNat.testBit c = true := by
  rw [Ne, ← UInt32.toNat_inj, UInt32.toNat_and, toNat_one_shiftLeft hc, Nat.and_two_pow,
    UInt32.toNat_zero]
  cases x.toNat.testBit c <;> simp

theorem size_eq_bitsScan (x : UInt32) : ∀ b, b < 32 → x.toNat < 2 ^ (b + 1) → 0 < x.toNat →
    x.toNat.size = bitsScan x b + 1
  | 0, _, hlt, hpos => by
    have hone : x.toNat = 1 := by omega
    rw [hone, bitsScan, Nat.size_one]
  | b + 1, hb, hlt, hpos => by
    rw [bitsScan]
    by_cases hbit : x.toNat.testBit (b + 1) = true
    · rw [if_pos ((and_one_shiftLeft_ne_zero_iff x hb).mpr hbit)]
      exact size_eq_succ_of_le_of_lt (Nat.ge_two_pow_of_testBit hbit) hlt
    · rw [if_neg (fun h => hbit ((and_one_shiftLeft_ne_zero_iff x hb).mp h))]
      apply size_eq_bitsScan x b (by omega) _ hpos
      apply Nat.lt_pow_two_of_testBit
      intro i hi
      rcases Nat.eq_or_lt_of_le hi with rfl | hi'
      · simpa using hbit
      · exact Nat.testBit_lt_two_pow (lt_of_lt_of_le hlt (Nat.pow_le_pow_right (by omega) hi'))

theorem bitsLoop_eq : ∀ xs : List UInt32, bitsLoop xs = (limbsValue xs.reverse).size
  | [] => by rw [bitsLoop, List.reverse_nil, limbsValue_nil, Nat.size_zero]
  | x :: xs => by
    rw [bitsLoop, limbsValue_reverse_cons]
    by_cases hx : x = 0
    · subst hx
      rw [if_neg (not_not.mpr rfl), bitsLoop_eq xs, UInt32.toNat_zero, Nat.mul_zero,
        Nat.add_zero]
    · have hpos : 0 < x.toNat := by
        rcases Nat.eq_zero_or_pos x.toNat with h | h
        · exact absurd (UInt32.toNat_inj.mp (h.trans UInt32.toNat_zero.symm)) hx
        · exact h
      have hlow := limbsValue_lt xs.reverse
      rw [List.length_reverse] at hlow
      rw [if_pos hx, size_add_two_pow_mul hlow hpos,
        size_eq_bitsScan x 31 (by omega) x.toNat_lt hpos, Nat.add_assoc]

theorem bits_eq (a : BaseUint BITS) : bits a = a.value.size := by
  rw [bits, bitsLoop_eq, List.reverse_reverse]
  rfl

/-! ## The low 64 bits and `EqualTo` -/

theorem value_eq_low_add (a : BaseUint BITS) (hw : 2 ≤ BITS / 32) :
    ∃ x₀ x₁ rest, a.pn = x₀ :: x₁ :: rest ∧
      a.value = x₀.toNat + 2 ^ 32 * x₁.toNat + 2 ^ 64 * limbsValue rest := by
  match h : a.pn, a.length_pn with
  | x₀ :: x₁ :: rest, _ =>
    refine ⟨x₀, x₁, rest, rfl, ?_⟩
    rw [value, h, limbsValue_cons, limbsValue_cons]
    ring
  | [], hlen => simp at hlen; omega
  | [_], hlen => simp at hlen; omega

theorem toNat_getLow64 (a : BaseUint BITS) (hw : 2 ≤ BITS / 32) :
    (getLow64 a).toNat = a.value % 2 ^ 64 := by
  obtain ⟨x₀, x₁, rest, hpn, hval⟩ := value_eq_low_add a hw
  have h₀ := x₀.toNat_lt
  have h₁ := x₁.toNat_lt
  have hshift : (x₁.toUInt64 <<< 32).toNat = 2 ^ 32 * x₁.toNat := by
    rw [UInt64.toNat_shiftLeft, UInt32.toNat_toUInt64, Nat.shiftLeft_eq]
    have : x₁.toNat * 2 ^ (UInt64.toNat 32 % 64) < 2 ^ 64 := by
      have h32 : UInt64.toNat 32 % 64 = 32 := rfl
      rw [h32]
      omega
    rw [Nat.mod_eq_of_lt this]
    exact Nat.mul_comm _ _
  rw [getLow64, hpn, List.getD_cons_zero, List.getD_cons_succ, List.getD_cons_zero,
    UInt64.toNat_or, UInt32.toNat_toUInt64, hshift, Nat.lor_comm,
    ← Nat.two_pow_add_eq_or_of_lt h₀, hval, Nat.add_comm x₀.toNat, Nat.add_mul_mod_self_left,
    Nat.mod_eq_of_lt (by omega)]

theorem all_eq_zero_iff (l : List UInt32) : l.all (· == 0) = true ↔ limbsValue l = 0 := by
  induction l with
  | nil => simp
  | cons x l ih =>
    rw [List.all_cons, Bool.and_eq_true, ih, limbsValue_cons, beq_iff_eq, ← UInt32.toNat_inj,
      UInt32.toNat_zero]
    omega

theorem equalTo_iff (a : BaseUint BITS) (b : UInt64) (hw : 2 ≤ BITS / 32) :
    equalTo a b = true ↔ a.value = b.toNat := by
  obtain ⟨x₀, x₁, rest, hpn, hval⟩ := value_eq_low_add a hw
  have h₀ := x₀.toNat_lt
  have h₁ := x₁.toNat_lt
  have hb := b.toNat_lt
  have hmask : (b &&& 0xffffffff).toNat = b.toNat % 2 ^ 32 := by
    rw [UInt64.toNat_and]
    exact Nat.and_two_pow_sub_one_eq_mod _ 32
  rw [equalTo, hpn, List.drop_succ_cons, List.drop_succ_cons, List.drop_zero, List.getD_cons_succ,
    List.getD_cons_zero, List.getD_cons_zero, Bool.and_eq_true, Bool.and_eq_true,
    all_eq_zero_iff, beq_iff_eq, beq_iff_eq, ← UInt64.toNat_inj, ← UInt64.toNat_inj,
    UInt32.toNat_toUInt64, UInt32.toNat_toUInt64, hmask, toNat_high_word, hval]
  omega

/-! ## Division -/

theorem value_setBit (q : BaseUint BITS) {shift : Nat} (hs : shift < 32 * (BITS / 32)) :
    (setBit q shift).value = q.value ||| 2 ^ shift := by
  apply Nat.eq_of_testBit_eq
  intro j
  rw [value, setBit, testBit_limbsValue_modify_or, q.length_pn,
    toNat_one_shiftLeft (Nat.mod_lt _ (by omega)), Nat.testBit_two_pow, Nat.testBit_or,
    Nat.testBit_two_pow]
  congr 1
  apply Bool.eq_iff_iff.mpr
  simp only [Bool.and_eq_true, decide_eq_true_eq]
  omega

/-- The state of the loop of `/=` dividing `a` by `b`, before the round at `shift`. -/
structure DivInvariant (a b shift : Nat) (num div q : BaseUint BITS) : Prop where
  div_eq : div.value = b * 2 ^ shift
  num_lt : num.value < b * 2 ^ (shift + 1)
  quot_dvd : 2 ^ (shift + 1) ∣ q.value
  sum_eq : a = q.value * b + num.value

theorem divRound_spec {a b shift : Nat} {num div q : BaseUint BITS} (hb : 0 < b)
    (h : DivInvariant a b shift num div q) :
    (divRound num div q shift).1.value < b * 2 ^ shift ∧
      2 ^ shift ∣ (divRound num div q shift).2.value ∧
      a = (divRound num div q shift).2.value * b + (divRound num div q shift).1.value := by
  have hdvd : 2 ^ shift ∣ q.value := (Nat.pow_dvd_pow 2 (Nat.le_succ shift)).trans h.quot_dvd
  unfold divRound
  by_cases hfit : div.value ≤ num.value
  · rw [if_pos ((compareTo_nonneg_iff num div).mpr hfit)]
    have hnum := num.value_lt
    have hshift : shift < 32 * (BITS / 32) := by
      have : 2 ^ shift < 2 ^ (32 * (BITS / 32)) := by
        calc 2 ^ shift ≤ b * 2 ^ shift := Nat.le_mul_of_pos_left _ hb
          _ = div.value := h.div_eq.symm
          _ < 2 ^ (32 * (BITS / 32)) := div.value_lt
      exact (Nat.pow_lt_pow_iff_right (by omega)).mp this
    obtain ⟨m, hm⟩ := h.quot_dvd
    have hor : q.value ||| 2 ^ shift = q.value + 2 ^ shift := by
      rw [hm, ← Nat.two_pow_add_eq_or_of_lt (Nat.pow_lt_pow_right (by omega) (Nat.lt_succ_self _))]
    have hsub : (sub num div).value = num.value - b * 2 ^ shift := by
      rw [value_sub, ← h.div_eq]
      rw [show num.value + 2 ^ (32 * (BITS / 32)) - div.value =
        (num.value - div.value) + 2 ^ (32 * (BITS / 32)) by omega, Nat.add_mod_right,
        Nat.mod_eq_of_lt (by omega)]
    have hlt := h.num_lt
    rw [Nat.pow_succ, ← Nat.mul_assoc] at hlt
    refine ⟨?_, ?_, ?_⟩
    · rw [hsub]
      rw [Nat.mul_two] at hlt
      omega
    · rw [value_setBit q hshift, hor]
      exact Nat.dvd_add hdvd (dvd_refl _)
    · rw [value_setBit q hshift, hor, hsub, Nat.add_mul, Nat.mul_comm (2 ^ shift) b,
        Nat.add_assoc, Nat.add_sub_cancel' (h.div_eq ▸ hfit)]
      exact h.sum_eq
  · rw [if_neg (fun h' => hfit ((compareTo_nonneg_iff num div).mp h'))]
    dsimp only
    exact ⟨by rw [← h.div_eq]; omega, hdvd, h.sum_eq⟩

theorem divInvariant_succ {a b shift : Nat} {num div q : BaseUint BITS} (hb : 0 < b)
    (h : DivInvariant a b (shift + 1) num div q) :
    DivInvariant a b shift (divRound num div q (shift + 1)).1 (shiftRight div 1)
      (divRound num div q (shift + 1)).2 := by
  obtain ⟨hlt, hdvd, hsum⟩ := divRound_spec hb h
  refine ⟨?_, hlt, hdvd, hsum⟩
  rw [value_shiftRight, h.div_eq, Nat.pow_succ, ← Nat.mul_assoc, Nat.pow_one,
    Nat.mul_div_cancel _ (by omega)]

theorem value_divLoop {a b : Nat} (hb : 0 < b) : ∀ (shift : Nat) (num div q : BaseUint BITS),
    DivInvariant a b shift num div q → (divLoop shift num div q).value = a / b
  | 0, num, div, q, h => by
    obtain ⟨hlt, -, hsum⟩ := divRound_spec hb h
    rw [Nat.pow_zero, Nat.mul_one] at hlt
    rw [divLoop, hsum, Nat.add_comm, Nat.add_mul_div_right _ _ hb, Nat.div_eq_of_lt hlt,
      Nat.zero_add]
  | shift + 1, num, div, q, h => by
    rw [divLoop]
    exact value_divLoop hb shift _ _ _ (divInvariant_succ hb h)

theorem divInvariant_start (a b : BaseUint BITS) (hb : 0 < b.value)
    (hle : b.value.size ≤ a.value.size) :
    DivInvariant a.value b.value (a.value.size - b.value.size) a
      (shiftLeft b (a.value.size - b.value.size)) zero := by
  have hbsize : 0 < b.value.size := Nat.size_pos.mpr hb
  have hblow : 2 ^ (b.value.size - 1) ≤ b.value := Nat.lt_size.mp (by omega)
  have hbhigh : b.value < 2 ^ b.value.size := Nat.lt_size_self _
  have hahigh : a.value < 2 ^ a.value.size := Nat.lt_size_self _
  have hawidth : a.value.size ≤ 32 * (BITS / 32) := Nat.size_le.mpr a.value_lt
  refine ⟨?_, ?_, by rw [value_zero]; exact dvd_zero _, by rw [value_zero, Nat.zero_mul,
    Nat.zero_add]⟩
  · rw [value_shiftLeft, Nat.mod_eq_of_lt]
    calc b.value * 2 ^ (a.value.size - b.value.size)
        < 2 ^ b.value.size * 2 ^ (a.value.size - b.value.size) :=
          Nat.mul_lt_mul_of_pos_right hbhigh (by positivity)
      _ = 2 ^ a.value.size := by rw [← Nat.pow_add]; congr 1; omega
      _ ≤ 2 ^ (32 * (BITS / 32)) := Nat.pow_le_pow_right (by omega) hawidth
  · calc a.value < 2 ^ a.value.size := hahigh
      _ = 2 ^ (b.value.size - 1) * 2 ^ (a.value.size - b.value.size + 1) := by
          rw [← Nat.pow_add]; congr 1; omega
      _ ≤ b.value * 2 ^ (a.value.size - b.value.size + 1) := Nat.mul_le_mul_right _ hblow

theorem div_eq_ok (a b : BaseUint BITS) (hb : b.value ≠ 0) :
    ∃ q, div a b = .ok q ∧ q.value = a.value / b.value := by
  have hpos : 0 < b.value := Nat.pos_of_ne_zero hb
  have hbits : bits b ≠ 0 := by
    rw [bits_eq]
    exact Nat.pos_iff_ne_zero.mp (Nat.size_pos.mpr hpos)
  unfold div
  rw [if_neg hbits]
  by_cases hgt : bits b > bits a
  · rw [if_pos hgt]
    refine ⟨zero, rfl, ?_⟩
    rw [bits_eq, bits_eq] at hgt
    have hlt : a.value < b.value :=
      calc a.value < 2 ^ a.value.size := Nat.lt_size_self _
        _ ≤ 2 ^ (b.value.size - 1) := Nat.pow_le_pow_right (by omega) (by omega)
        _ ≤ b.value := Nat.lt_size.mp (by omega)
    rw [value_zero, Nat.div_eq_of_lt hlt]
  · rw [if_neg hgt]
    rw [bits_eq, bits_eq] at hgt ⊢
    exact ⟨_, rfl, value_divLoop hpos _ _ _ _ (divInvariant_start a b hpos (by omega))⟩

theorem div_of_zero (a b : BaseUint BITS) (hb : b.value = 0) :
    div a b = .error "Division by zero" := by
  rw [div, if_pos (by rw [bits_eq, hb, Nat.size_zero])]

end BaseUint

open BaseUint

/-- `base_uint<256>` computes on the numbers below `2 ^ 256`: each operator is the arithmetic of
the values modulo `2 ^ 256` (a shift by `256` or more gives zero), `CompareTo` and `bits()` read
the value, and `/` is the quotient, or throws on a zero divisor. -/
theorem base_uint_256_arithmetic (a b : BaseUint 256) (c : UInt32) (s : Nat) :
    (add a b).value = (a.value + b.value) % 2 ^ 256 ∧
      ((sub a b).value : Int) = ((a.value : Int) - b.value) % 2 ^ 256 ∧
      ((neg a).value : Int) = (-(a.value : Int)) % 2 ^ 256 ∧
      (complement a).value = 2 ^ 256 - 1 - a.value ∧
      (increment a).value = (a.value + 1) % 2 ^ 256 ∧
      ((decrement a).value : Int) = ((a.value : Int) - 1) % 2 ^ 256 ∧
      (mulUInt32 a c).value = a.value * c.toNat % 2 ^ 256 ∧
      (mul a b).value = a.value * b.value % 2 ^ 256 ∧
      (shiftLeft a s).value = a.value * 2 ^ s % 2 ^ 256 ∧
      (shiftRight a s).value = a.value / 2 ^ s ∧
      (256 ≤ s → (shiftLeft a s).value = 0 ∧ (shiftRight a s).value = 0) ∧
      compareTo a b = (if a.value < b.value then -1 else if a.value = b.value then 0 else 1) ∧
      bits a = a.value.size ∧
      (b.value ≠ 0 → ∃ q, div a b = .ok q ∧ q.value = a.value / b.value) ∧
      (b.value = 0 → div a b = .error "Division by zero") := by
  have hw : 32 * (256 / 32) = 256 := rfl
  have ha := a.value_lt
  have hb := b.value_lt
  have hsub := value_sub a b
  have hneg := value_neg a
  have hdec := value_decrement a
  rw [hw] at ha hb hsub hneg hdec
  refine ⟨value_add a b, by rw [hsub]; omega, by rw [hneg]; omega, value_complement a,
    value_increment a, by rw [hdec]; omega, value_mulUInt32 a c, value_mul a b,
    value_shiftLeft a s, value_shiftRight a s, ?_, compareTo_eq a b, bits_eq a, div_eq_ok a b,
    div_of_zero a b⟩
  intro hs
  have hpow : 2 ^ 256 ≤ 2 ^ s := Nat.pow_le_pow_right (by omega) hs
  refine ⟨?_, ?_⟩
  · rw [value_shiftLeft, hw]
    exact Nat.mod_eq_zero_of_dvd (Dvd.dvd.mul_left (Nat.pow_dvd_pow 2 hs) _)
  · rw [value_shiftRight, Nat.div_eq_of_lt (by omega)]


end TbcNode.Arith
