import Mathlib.Data.Nat.Bitwise
import TbcNode.Primitives.Serialize

/-! # Variable-length integers (`serialize.h`)

`WriteVarInt` writes base-128 digits with one subtracted from all but the last, so each number has
one encoding; `ReadVarInt<I>` refuses what leaves `I`, of width `w`. The two are the writer and the
reader of one format on the numbers of `I`.
-/

namespace TbcNode.Primitives

open TbcNode.Logic

/-- The digits `WriteVarInt` puts in `tmp`, from `tmp[len]` on, least significant first. -/
def varIntDigits (n len : Nat) : List UInt8 :=
  let digit := UInt8.ofNat ((n &&& 0x7F) ||| (if len = 0 then 0x00 else 0x80))
  if n ≤ 0x7F then [digit]
  else digit :: varIntDigits ((n >>> 7) - 1) (len + 1)
termination_by n
decreasing_by
  rw [Nat.shiftRight_eq_div_pow]
  omega

/-- `WriteVarInt`: `tmp[len]` down to `tmp[0]`. -/
def writeVarInt (n : Nat) : List UInt8 := (varIntDigits n 0).reverse

/-- The loop of `GetSizeOfVarInt`: `nRet` digits counted so far. -/
def getSizeOfVarIntLoop (n nRet : Nat) : Nat :=
  let nRet := nRet + 1
  if n ≤ 0x7F then nRet else getSizeOfVarIntLoop ((n >>> 7) - 1) nRet
termination_by n
decreasing_by
  rw [Nat.shiftRight_eq_div_pow]
  omega

def getSizeOfVarInt (n : Nat) : Nat := getSizeOfVarIntLoop n 0

/-- `std::numeric_limits<I>::max() >> 7`, for an unsigned `I` of `w` bits. -/
def varIntOverflow (w : Nat) : Nat := (2 ^ w - 1) >>> 7

/-- The loop of `ReadVarInt<I>` with `k` of its rounds left; `n` is the `uintmax_t` read so far. -/
def readVarIntLoop (w : Nat) : Nat → Nat → Reader Nat
  | 0, _ => throw "Deserialisation Error ReadVarInt"
  | k + 1, n =>
    if n > varIntOverflow w then throw "Deserialisation Error ReadVarInt"
    else do
      let chData ← serReaddata8
      let n := ((n <<< 7) % 2 ^ 64) ||| (chData &&& 0x7F)
      if chData &&& 0x80 = 0 then pure (n % 2 ^ w)
      else readVarIntLoop w k ((n + 1) % 2 ^ 64)

/-- `ReadVarInt<I>`: `maxSize` is the number of seven-bit digits of a `uintmax_t`. -/
def readVarInt (w : Nat) : Reader Nat := readVarIntLoop w ((8 * 8 + 6) / 7) 0

/-! ### Digits -/

theorem lor_0x80 {d : Nat} (h : d < 128) : d ||| 0x80 = d + 128 :=
  Nat.or_two_pow_eq_add_of_lt (n := 7) h

theorem land_0x7F (n : Nat) : n &&& 0x7F = n % 128 :=
  Nat.and_two_pow_sub_one_eq_mod n 7

theorem land_0x80_eq_zero {c : Nat} (h : c < 256) : c &&& 0x80 = 0 ↔ c < 128 := by
  rw [show (0x80 : Nat) = 2 ^ 7 from rfl, Nat.and_two_pow, Nat.testBit_eq_decide_div_mod_eq]
  by_cases hc : c < 128
  · simp [hc]
    omega
  · simp [hc]
    omega

theorem varIntDigits_zero (n : Nat) :
    varIntDigits n 0 = if n ≤ 0x7F then [UInt8.ofNat n]
      else UInt8.ofNat (n % 128) :: varIntDigits (n / 128 - 1) 1 := by
  rw [varIntDigits]
  simp only [if_pos, Nat.or_zero, land_0x7F, Nat.shiftRight_eq_div_pow, Nat.zero_add,
    Nat.reducePow]
  split
  · rw [Nat.mod_eq_of_lt (by omega)]
  · rfl

theorem varIntDigits_succ (n len : Nat) :
    varIntDigits n (len + 1) = if n ≤ 0x7F then [UInt8.ofNat (n % 128 + 128)]
      else UInt8.ofNat (n % 128 + 128) :: varIntDigits (n / 128 - 1) (len + 2) := by
  rw [varIntDigits]
  simp only [Nat.add_one_ne_zero, if_false, land_0x7F, lor_0x80 (Nat.mod_lt n (by omega)),
    Nat.shiftRight_eq_div_pow]

theorem writeVarInt_of_le {n : Nat} (h : n ≤ 0x7F) : writeVarInt n = [UInt8.ofNat n] := by
  rw [writeVarInt, varIntDigits_zero, if_pos h, List.reverse_singleton]

theorem length_varIntDigits_le (k : Nat) :
    ∀ n len, n < 2 ^ (7 * (k + 1)) → (varIntDigits n len).length ≤ k + 1 := by
  induction k with
  | zero =>
    intro n len h
    rw [varIntDigits, if_pos (by omega)]
    simp
  | succ k ih =>
    intro n len h
    rw [varIntDigits]
    split
    · simp
    · have hdiv : n >>> 7 - 1 < 2 ^ (7 * (k + 1)) := by
        rw [Nat.shiftRight_eq_div_pow]
        have e : 2 ^ (7 * (k + 1 + 1)) = 2 ^ (7 * (k + 1)) * 2 ^ 7 := by
          rw [show 7 * (k + 1 + 1) = 7 * (k + 1) + 7 by omega, Nat.pow_add]
        have := Nat.div_lt_of_lt_mul (e ▸ h)
        omega
      simp only [List.length_cons]
      have := ih _ (len + 1) hdiv
      omega

/-! ### Reading the digits back -/

theorem serReaddata8_run (c : UInt8) (rest : List UInt8) :
    serReaddata8.run (c :: rest) = .ok c.toNat rest := by
  have h := reads_serReaddata (w := 1) (n := c.toNat) (by simpa using c.toNat_lt) rest
  simpa [serReaddata8, serWritedata, TbcNode.Encoding.writeLE] using h

theorem readVarIntLoop_run_cons {w n : Nat} (k : Nat) (hn : n ≤ varIntOverflow w) (c : UInt8)
    (rest : List UInt8) :
    (readVarIntLoop w (k + 1) n).run (c :: rest) =
      if c.toNat < 128 then .ok ((((n <<< 7) % 2 ^ 64) ||| c.toNat) % 2 ^ w) rest
      else (readVarIntLoop w k (((((n <<< 7) % 2 ^ 64) ||| (c.toNat % 128)) + 1) % 2 ^ 64)).run
        rest := by
  have hc := c.toNat_lt
  rw [readVarIntLoop, if_neg (by omega), EStateM.run_bind, serReaddata8_run]
  simp only [land_0x7F, land_0x80_eq_zero hc]
  split
  · rename_i hlt
    rw [Nat.mod_eq_of_lt hlt]
    rfl
  · rfl

theorem shift_or_digit {n d : Nat} (hn : n < 2 ^ 57) (hd : d < 128) :
    ((n <<< 7) % 2 ^ 64) ||| d = n * 128 + d := by
  rw [Nat.shiftLeft_eq, Nat.mod_eq_of_lt (by omega), Nat.mul_comm n,
    ← Nat.two_pow_add_eq_or_of_lt hd]

theorem varIntOverflow_lt {w : Nat} (hw : w ≤ 64) : varIntOverflow w < 2 ^ 57 := by
  unfold varIntOverflow
  rw [Nat.shiftRight_eq_div_pow]
  have : 2 ^ w ≤ 2 ^ 64 := Nat.pow_le_pow_right (by omega) hw
  omega

theorem readVarIntLoop_marked {w : Nat} (hw : w ≤ 64) (y len k : Nat)
    (hy : y + 1 ≤ varIntOverflow w) (rest : List UInt8) :
    (readVarIntLoop w ((varIntDigits y (len + 1)).length + k) 0).run
        ((varIntDigits y (len + 1)).reverse ++ rest) =
      (readVarIntLoop w k (y + 1)).run rest := by
  have hov := varIntOverflow_lt hw
  induction y using Nat.strongRecOn generalizing len k rest with
  | ind y ih =>
    rw [varIntDigits_succ]
    split
    · rename_i hsmall
      have hd : (UInt8.ofNat (y % 128 + 128)).toNat = y + 128 := by
        rw [UInt8.toNat_ofNat']
        omega
      have hval : (((0 <<< 7) % 2 ^ 64 ||| (y + 128) % 128) + 1) % 2 ^ 64 = y + 1 := by
        simp only [Nat.zero_shiftLeft, Nat.zero_mod, Nat.zero_or]
        omega
      rw [List.length_singleton, List.reverse_singleton, List.singleton_append, Nat.add_comm,
        readVarIntLoop_run_cons k (Nat.zero_le _), hd, if_neg (by omega), hval]
    · rename_i hlarge
      have hd : (UInt8.ofNat (y % 128 + 128)).toNat = y % 128 + 128 := by
        rw [UInt8.toNat_ofNat']
        omega
      have hup : y / 128 - 1 + 1 = y / 128 := by omega
      have hval : ((((y / 128) <<< 7) % 2 ^ 64 ||| (y % 128 + 128) % 128) + 1) % 2 ^ 64 =
          y + 1 := by
        rw [show (y % 128 + 128) % 128 = y % 128 by omega, shift_or_digit (by omega) (by omega)]
        omega
      have hih : (readVarIntLoop w ((varIntDigits (y / 128 - 1) (len + 2)).length + (k + 1)) 0).run
          ((varIntDigits (y / 128 - 1) (len + 2)).reverse ++ ([UInt8.ofNat (y % 128 + 128)] ++ rest)) =
          (readVarIntLoop w (k + 1) (y / 128)).run ([UInt8.ofNat (y % 128 + 128)] ++ rest) := by
        have := ih (y / 128 - 1) (by omega) (len + 1) (k + 1) (by omega)
          ([UInt8.ofNat (y % 128 + 128)] ++ rest)
        rwa [hup] at this
      rw [List.length_cons, List.reverse_cons, List.append_assoc, Nat.add_right_comm,
        Nat.add_assoc, hih,
        List.singleton_append, readVarIntLoop_run_cons k (by omega), hd, if_neg (by omega),
        hval]

theorem reads_readVarInt {w x : Nat} (hw : w ≤ 64) (hx : x < 2 ^ w) :
    Reads (readVarInt w) (writeVarInt x) x := by
  intro rest
  have hov := varIntOverflow_lt hw
  have hx64 : x < 2 ^ 64 := lt_of_lt_of_le hx (Nat.pow_le_pow_right (by omega) hw)
  have hdiv : x / 128 ≤ varIntOverflow w := by
    unfold varIntOverflow
    rw [Nat.shiftRight_eq_div_pow]
    exact Nat.div_le_div_right (by omega)
  have hlen := length_varIntDigits_le 9 x 0 (by omega)
  unfold writeVarInt readVarInt
  rw [varIntDigits_zero] at hlen ⊢
  split
  · rename_i hsmall
    have hd : (UInt8.ofNat x).toNat = x := by
      rw [UInt8.toNat_ofNat']
      omega
    rw [List.reverse_singleton, List.singleton_append, readVarIntLoop_run_cons 9 (Nat.zero_le _),
      hd, if_pos (by omega), Nat.zero_shiftLeft, Nat.zero_mod, Nat.zero_or,
      Nat.mod_eq_of_lt hx]
  · rename_i hlarge
    rw [if_neg hlarge, List.length_cons] at hlen
    have hd : (UInt8.ofNat (x % 128)).toNat = x % 128 := by
      rw [UInt8.toNat_ofNat']
      omega
    have hk : (8 * 8 + 6) / 7 = (varIntDigits (x / 128 - 1) 1).length + (9 -
        (varIntDigits (x / 128 - 1) 1).length + 1) := by
      omega
    have hup : x / 128 - 1 + 1 = x / 128 := by omega
    have hm := readVarIntLoop_marked hw (x / 128 - 1) 0
      (9 - (varIntDigits (x / 128 - 1) 1).length + 1) (by omega) ([UInt8.ofNat (x % 128)] ++ rest)
    rw [Nat.zero_add, hup] at hm
    rw [List.reverse_cons, List.append_assoc, hk, hm, List.singleton_append, readVarIntLoop_run_cons _ hdiv, hd, if_pos (by omega),
      shift_or_digit (by omega) (by omega), Nat.mod_eq_of_lt (by omega)]
    congr 1
    omega

/-! ### Sizes -/

theorem varIntDigits_succ_eq (n len : Nat) : varIntDigits n (len + 1) = varIntDigits n 1 := by
  induction n using Nat.strongRecOn generalizing len with
  | ind n ih =>
    rw [varIntDigits_succ, varIntDigits_succ n 0]
    split
    · rfl
    · rename_i hlarge
      rw [ih _ (by omega) (len + 1), ih _ (by omega) 1]

theorem getSizeOfVarIntLoop_eq (n nRet len : Nat) :
    getSizeOfVarIntLoop n nRet = nRet + (varIntDigits n len).length := by
  induction n using Nat.strongRecOn generalizing nRet len with
  | ind n ih =>
    rw [getSizeOfVarIntLoop, varIntDigits]
    split
    · simp
    · rename_i hlarge
      have hlt : n >>> 7 - 1 < n := by
        rw [Nat.shiftRight_eq_div_pow]
        omega
      rw [ih _ hlt (nRet + 1) (len + 1), List.length_cons]
      omega

theorem length_writeVarInt (n : Nat) : (writeVarInt n).length = getSizeOfVarInt n := by
  rw [writeVarInt, List.length_reverse, getSizeOfVarInt, getSizeOfVarIntLoop_eq n 0 0,
    Nat.zero_add]

/-! ### What `ReadVarInt` accepts -/

/-- The digits with the high bit that take the loop of `ReadVarInt` from `0` to `n`: none for
`n = 0`, those of `n - 1` written as non-final digits otherwise. -/
def varIntMarked (n : Nat) : List UInt8 :=
  if n = 0 then [] else (varIntDigits (n - 1) 1).reverse

theorem varIntMarked_succ (n : Nat) {d : Nat} (hd : d < 128) :
    varIntMarked (n * 128 + d + 1) = varIntMarked n ++ [UInt8.ofNat (d + 128)] := by
  rw [varIntMarked, if_neg (by omega), Nat.add_sub_cancel]
  rcases Nat.eq_zero_or_pos n with rfl | hn
  · rw [varIntDigits_succ, if_pos (by omega), Nat.zero_mul, Nat.zero_add, Nat.mod_eq_of_lt hd]
    rfl
  · rw [varIntDigits_succ, if_neg (by omega), varIntDigits_succ_eq, varIntMarked, if_neg (by omega),
      show (n * 128 + d) % 128 = d by omega, show (n * 128 + d) / 128 - 1 = n - 1 by omega,
      List.reverse_cons]

theorem writeVarInt_marked (n : Nat) {d : Nat} (hd : d < 128) :
    writeVarInt (n * 128 + d) = varIntMarked n ++ [UInt8.ofNat d] := by
  rcases Nat.eq_zero_or_pos n with rfl | hn
  · rw [Nat.zero_mul, Nat.zero_add, writeVarInt_of_le (by omega)]
    rfl
  · rw [writeVarInt, varIntDigits_zero, if_neg (by omega), varIntMarked, if_neg (by omega),
      show (n * 128 + d) % 128 = d by omega, show (n * 128 + d) / 128 - 1 = n - 1 by omega,
      List.reverse_cons]

theorem readVarIntLoop_run_nil (w k n : Nat) :
    ∃ e, (readVarIntLoop w k n).run [] = .error e [] := by
  cases k with
  | zero => exact ⟨_, rfl⟩
  | succ k =>
    rw [readVarIntLoop]
    split
    · exact ⟨_, rfl⟩
    · exact ⟨_, rfl⟩

theorem lt_of_le_varIntOverflow {w n d : Nat} (hw : 7 ≤ w) (hn : n ≤ varIntOverflow w)
    (hd : d < 128) : n * 128 + d < 2 ^ w := by
  have h128 : 2 ^ w = 2 ^ (w - 7) * 128 := by
    rw [← Nat.pow_sub_mul_pow 2 hw]
  unfold varIntOverflow at hn
  rw [Nat.shiftRight_eq_div_pow, h128] at hn
  have : 0 < 2 ^ (w - 7) := Nat.two_pow_pos _
  rw [h128]
  have hdiv : (2 ^ (w - 7) * 128 - 1) / 2 ^ 7 = 2 ^ (w - 7) - 1 := by omega
  omega

theorem readVarIntLoop_ok {w : Nat} (hw₁ : 7 ≤ w) (hw₂ : w ≤ 64) :
    ∀ k n bytes v rest, k ≤ 10 → 127 * n + 128 ≤ 128 ^ (11 - k) →
      (readVarIntLoop w k n).run bytes = .ok v rest →
      v < 2 ^ w ∧ ∃ q, bytes = q ++ rest ∧ writeVarInt v = varIntMarked n ++ q := by
  have hov := varIntOverflow_lt hw₂
  intro k
  induction k with
  | zero =>
    intro n bytes v rest _ _ h
    cases h
  | succ k ih =>
    intro n bytes v rest hk hinv h
    by_cases hn : n ≤ varIntOverflow w
    · cases bytes with
      | nil =>
        obtain ⟨e, he⟩ := readVarIntLoop_run_nil w (k + 1) n
        rw [he] at h
        cases h
      | cons c bytes =>
        have hc := c.toNat_lt
        rw [readVarIntLoop_run_cons k hn] at h
        split at h
        · rename_i hfin
          cases h
          have hlt := lt_of_le_varIntOverflow hw₁ hn hfin
          rw [shift_or_digit (by omega) hfin, Nat.mod_eq_of_lt hlt]
          refine ⟨hlt, [c], rfl, ?_⟩
          rw [writeVarInt_marked n hfin, UInt8.ofNat_toNat]
        · rename_i hcont
          cases k with
          | zero => cases h
          | succ k =>
            have hpow : 128 ^ (11 - (k + 1)) = 128 * 128 ^ (10 - (k + 1)) := by
              rw [← Nat.pow_succ']
              congr 1
              omega
            have hnine : 128 ^ (10 - (k + 1)) ≤ 128 ^ 9 := Nat.pow_le_pow_right (by omega) (by omega)
            rw [show 11 - (k + 1 + 1) = 10 - (k + 1) by omega] at hinv
            have hval : (((n <<< 7) % 2 ^ 64 ||| c.toNat % 128) + 1) % 2 ^ 64 =
                n * 128 + c.toNat % 128 + 1 := by
              rw [shift_or_digit (by omega) (by omega)]
              omega
            rw [hval] at h
            obtain ⟨hv, q, rfl, hq⟩ := ih _ bytes v rest (by omega) (by rw [hpow]; omega) h
            refine ⟨hv, c :: q, rfl, ?_⟩
            rw [hq, varIntMarked_succ n (by omega), List.append_assoc, List.singleton_append,
              show c.toNat % 128 + 128 = c.toNat by omega, UInt8.ofNat_toNat]
    · rw [readVarIntLoop, if_pos (by omega)] at h
      cases h

theorem consumes_readVarInt {w : Nat} (hw₁ : 7 ≤ w) (hw₂ : w ≤ 64) :
    Consumes (readVarInt w) fun b v => v < 2 ^ w ∧ b = writeVarInt v := by
  intro bytes v rest h
  obtain ⟨hv, q, rfl, hq⟩ := readVarIntLoop_ok hw₁ hw₂ 10 0 bytes v rest le_rfl (by decide) h
  rw [varIntMarked, if_pos rfl, List.nil_append] at hq
  exact ⟨q, ⟨hv, hq.symm⟩, rfl⟩

/-! ### One encoding for each number -/

theorem toNat_ofNat_add_128 {d : Nat} (hd : d < 128) : (UInt8.ofNat (d + 128)).toNat = d + 128 := by
  rw [UInt8.toNat_ofNat']
  omega

theorem high_of_mem_varIntDigits (y : Nat) :
    ∀ len, ∀ c ∈ varIntDigits y (len + 1), 128 ≤ c.toNat := by
  induction y using Nat.strongRecOn with
  | ind y ih =>
    intro len c hc
    rw [varIntDigits_succ] at hc
    split at hc
    · rw [List.mem_singleton.mp hc, toNat_ofNat_add_128 (Nat.mod_lt _ (by omega))]
      omega
    · rcases List.mem_cons.mp hc with rfl | hc
      · rw [toNat_ofNat_add_128 (Nat.mod_lt _ (by omega))]
        omega
      · exact ih _ (by omega) (len + 1) c hc

theorem high_of_mem_varIntMarked {n : Nat} : ∀ c ∈ varIntMarked n, 128 ≤ c.toNat := by
  intro c hc
  unfold varIntMarked at hc
  split at hc
  · cases hc
  · exact high_of_mem_varIntDigits (n - 1) 0 c (List.mem_reverse.mp hc)

theorem writeVarInt_eq_marked (v : Nat) :
    writeVarInt v = varIntMarked (v / 128) ++ [UInt8.ofNat (v % 128)] := by
  rw [← writeVarInt_marked (v / 128) (Nat.mod_lt v (by omega)), Nat.div_add_mod']

theorem marked_append_inj {l₁ l₂ : UInt8} {r₁ r₂ : List UInt8} (h₁ : l₁.toNat < 128)
    (h₂ : l₂.toNat < 128) :
    ∀ m₁ m₂ : List UInt8, (∀ c ∈ m₁, 128 ≤ c.toNat) → (∀ c ∈ m₂, 128 ≤ c.toNat) →
      m₁ ++ l₁ :: r₁ = m₂ ++ l₂ :: r₂ → m₁ = m₂ ∧ l₁ = l₂ ∧ r₁ = r₂ := by
  intro m₁
  induction m₁ with
  | nil =>
    rintro (_ | ⟨c, m₂⟩) _ hm₂ h
    · simpa using h
    · have := hm₂ c (by simp)
      rw [List.nil_append, List.cons_append, List.cons.injEq] at h
      rw [h.1] at h₁
      omega
  | cons c m₁ ih =>
    rintro (_ | ⟨c', m₂⟩) hm₁ hm₂ h
    · have := hm₁ c (by simp)
      rw [List.nil_append, List.cons_append, List.cons.injEq] at h
      rw [← h.1] at h₂
      omega
    · rw [List.cons_append, List.cons_append, List.cons.injEq] at h
      obtain ⟨hm, hl, hr⟩ := ih m₂ (fun d hd => hm₁ d (by simp [hd]))
        (fun d hd => hm₂ d (by simp [hd])) h.2
      exact ⟨by rw [h.1, hm], hl, hr⟩

theorem varIntDigits_ne_nil (n len : Nat) : varIntDigits n len ≠ [] := by
  rw [varIntDigits]
  split <;> simp

theorem varIntDigits_inj : ∀ a b : Nat, varIntDigits a 1 = varIntDigits b 1 → a = b := by
  intro a
  induction a using Nat.strongRecOn with
  | ind a ih =>
    intro b h
    rw [varIntDigits_succ, varIntDigits_succ b] at h
    have hhead : ∀ x y : Nat, UInt8.ofNat (x % 128 + 128) = UInt8.ofNat (y % 128 + 128) →
        x % 128 = y % 128 := by
      intro x y hxy
      have := congrArg UInt8.toNat hxy
      rw [toNat_ofNat_add_128 (Nat.mod_lt _ (by omega)),
        toNat_ofNat_add_128 (Nat.mod_lt _ (by omega))] at this
      omega
    split at h <;> split at h
    · have := hhead a b (List.singleton_inj.mp h)
      omega
    · exact absurd (List.cons.inj h).2.symm (varIntDigits_ne_nil _ _)
    · exact absurd (List.cons.inj h).2 (varIntDigits_ne_nil _ _)
    · have htwo : ∀ n, varIntDigits n (0 + 2) = varIntDigits n 1 := fun n => varIntDigits_succ_eq n 1
      rw [List.cons.injEq, htwo, htwo] at h
      have hlow := hhead a b h.1
      have hhigh := ih (a / 128 - 1) (by omega) (b / 128 - 1) h.2
      omega

theorem writeVarInt_inj {a b : Nat} (h : writeVarInt a = writeVarInt b) : a = b := by
  rw [writeVarInt_eq_marked a, writeVarInt_eq_marked b] at h
  have hl : ∀ v : Nat, (UInt8.ofNat (v % 128)).toNat = v % 128 := by
    intro v
    rw [UInt8.toNat_ofNat']
    omega
  obtain ⟨hm, hd, -⟩ := @marked_append_inj _ _ [] []
    (by rw [hl]; omega) (by rw [hl]; omega) _ _ high_of_mem_varIntMarked high_of_mem_varIntMarked h
  have hlow : a % 128 = b % 128 := by
    have := congrArg UInt8.toNat hd
    rwa [hl, hl] at this
  have hhigh : a / 128 = b / 128 := by
    unfold varIntMarked at hm
    split at hm <;> split at hm
    · omega
    · exact absurd (List.reverse_eq_nil_iff.mp hm.symm) (varIntDigits_ne_nil _ _)
    · exact absurd (List.reverse_eq_nil_iff.mp hm) (varIntDigits_ne_nil _ _)
    · have := varIntDigits_inj _ _ (List.reverse_inj.mp hm)
      omega
  omega

theorem varint_codec {w : Nat} (hw₁ : 7 ≤ w) (hw₂ : w ≤ 64) :
    (∀ n, n < 2 ^ w → ∀ rest, (readVarInt w).run (writeVarInt n ++ rest) = .ok n rest ∧
      (writeVarInt n).length = getSizeOfVarInt n) ∧
    (∀ bytes v rest, (readVarInt w).run bytes = .ok v rest →
      v < 2 ^ w ∧ bytes = writeVarInt v ++ rest) ∧
    (∀ n, 2 ^ w ≤ n → ∀ rest, ∃ e s, (readVarInt w).run (writeVarInt n ++ rest) = .error e s) := by
  have hcons := consumes_readVarInt hw₁ hw₂
  refine ⟨fun n hn rest => ⟨reads_readVarInt hw₂ hn rest, length_writeVarInt n⟩,
    fun bytes v rest h => ?_, fun n hn rest => ?_⟩
  · obtain ⟨b, ⟨hv, rfl⟩, rfl⟩ := hcons bytes v rest h
    exact ⟨hv, rfl⟩
  · cases hr : (readVarInt w).run (writeVarInt n ++ rest) with
    | error e s => exact ⟨e, s, rfl⟩
    | ok v rest' =>
      obtain ⟨b, ⟨hv, rfl⟩, heq⟩ := hcons _ v rest' hr
      have hl : ∀ x : Nat, (UInt8.ofNat (x % 128)).toNat < 128 := by
        intro x
        rw [UInt8.toNat_ofNat']
        omega
      rw [writeVarInt_eq_marked n, writeVarInt_eq_marked v, List.append_assoc, List.append_assoc,
        List.singleton_append, List.singleton_append] at heq
      obtain ⟨hm, hd, -⟩ := marked_append_inj (hl n) (hl v) _ _ high_of_mem_varIntMarked
        high_of_mem_varIntMarked heq
      have hnv : writeVarInt n = writeVarInt v := by
        rw [writeVarInt_eq_marked n, writeVarInt_eq_marked v, hm, hd]
      exact absurd (writeVarInt_inj hnv ▸ hv) (Nat.not_lt.mpr hn)

theorem varint_codec_sixty_four :
    7 ≤ 64 ∧ 64 ≤ 64 ∧
    (∀ n, n < 2 ^ 64 → ∀ rest, (readVarInt 64).run (writeVarInt n ++ rest) = .ok n rest ∧
      (writeVarInt n).length = getSizeOfVarInt n) ∧
    (∀ bytes v rest, (readVarInt 64).run bytes = .ok v rest →
      v < 2 ^ 64 ∧ bytes = writeVarInt v ++ rest) ∧
    (∀ n, 2 ^ 64 ≤ n → ∀ rest, ∃ e s, (readVarInt 64).run (writeVarInt n ++ rest) = .error e s) :=
  ⟨by decide, le_rfl, varint_codec (by decide) le_rfl⟩

end TbcNode.Primitives
