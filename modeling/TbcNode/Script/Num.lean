import TbcNode.Script.Opcodes
import TbcNode.Encoding.Integers

/-! # Script numbers

`CScriptNum` holds an `int64_t` before Genesis and a `bsv::bint` after, encoded by
`int_serialization.h` and by OpenSSL's MPI conversions. A `bint` is its integer and the OpenSSL
calls are an `Openssl` record with `Openssl.Spec`; both encodings are `signMagnitudeLE`.
-/

namespace TbcNode.Script

open TbcNode.Encoding

/-! ## `int_serialization.h` -/

/-- The loop of `bsv::serialize`: the magnitude byte by byte, the sign on the last byte, for at
most `fuel` rounds. -/
def serializeLoop (neg : Bool) : Nat → Nat → List UInt8
  | 0, _ => []
  | fuel + 1, absvalue =>
    if absvalue = 0 then []
    else
      let tmp : UInt8 := UInt8.ofNat (absvalue % 256)
      let absvalue := absvalue / 256
      if absvalue ≠ 0 then tmp :: serializeLoop neg fuel absvalue
      else if tmp &&& 0x80 ≠ 0 then [tmp, if neg then 0x80 else 0]
      else [if neg then tmp ||| 0x80 else tmp]

/-- `bsv::serialize`; every round halves the magnitude by a byte, so `|value|` rounds suffice. -/
def serialize (value : Int) : List UInt8 :=
  if value = 0 then [] else serializeLoop (decide (value < 0)) value.natAbs value.natAbs

/-- `bsv::deserialize<int64_t>` on a range it requires to be non-empty (`assert(f != l)`). The
bytes before the last are ORed in at their positions, which is their little-endian value; past
eight bytes that value is the result, read into the 64 bits of an `int64_t` (from ten bytes on the
source shifts by 64 bits or more, which is undefined, and the model keeps the low 64 bits). -/
def deserialize (s : List UInt8) (h : s ≠ []) : Int :=
  let last := s.getLast h
  let result : Int := readLE s.dropLast
  if s.length > 8 then result.bmod (2 ^ 64)
  else if last &&& 0x80 ≠ 0 then -(result + ((last &&& 0x7f).toNat * 256 ^ (s.length - 1) : Nat))
  else result + (last.toNat * 256 ^ (s.length - 1) : Nat)

def isMinimallyEncoded (span : List UInt8) (nMaxNumSize : Nat) : Bool :=
  if span.length > nMaxNumSize then false
  else
    match span.getLast? with
    | none => true
    | some last =>
      if last &&& 0x7f = 0 then
        match span.dropLast.getLast? with
        | none => false
        | some b => b &&& 0x80 ≠ 0
      else true

theorem isMinimallyEncoded_of_le {span : List UInt8} {n₁ n₂ : Nat} (h₁ : span.length ≤ n₁)
    (h₂ : span.length ≤ n₂) : isMinimallyEncoded span n₁ = isMinimallyEncoded span n₂ := by
  unfold isMinimallyEncoded
  rw [if_neg (by omega), if_neg (by omega)]

/-- The loop of `bsv::MinimallyEncode`, from `i = data.size() - 1` down: it looks for the last
non-zero byte `data[i - 1]` before the sign byte and moves the sign onto it or just after it. -/
def minimallyEncodeLoop (last : UInt8) (data : List UInt8) : Nat → Option (List UInt8)
  | 0 => none
  | i + 1 =>
    let b := data.getD i 0
    if b ≠ 0 then
      if b &&& 0x80 ≠ 0 then some (data.take (i + 1) ++ [last])
      else some (data.take i ++ [b ||| last])
    else minimallyEncodeLoop last data i

/-- `bsv::MinimallyEncode`: whether the data changed, and the data afterwards. -/
def minimallyEncode (data : List UInt8) : Bool × List UInt8 :=
  match data.getLast? with
  | none => (false, data)
  | some last =>
    if last &&& 0x7f ≠ 0 then (false, data)
    else if data.length = 1 then (true, [])
    else if data.getD (data.length - 2) 0 &&& 0x80 ≠ 0 then (false, data)
    else
      match minimallyEncodeLoop last data (data.length - 1) with
      | some d => (true, d)
      | none => (true, [])

/-! ## OpenSSL and `bsv::bint` -/

/-- The OpenSSL calls `bsv::bint` makes on the numbers of the interpreter. -/
structure Openssl where
  BN_bn2mpi : Int → List UInt8
  BN_mpi2bn : List UInt8 → Int
  BN_add : Int → Int → Int
  BN_sub : Int → Int → Int
  BN_mul : Int → Int → Int
  BN_div : Int → Int → Int
  BN_mod : Int → Int → Int

/-- What the code relies on OpenSSL for: the MPI format both ways, and exact arithmetic with
division rounding towards zero. -/
structure Openssl.Spec (ssl : Openssl) : Prop where
  bn2mpi : ∀ a, ssl.BN_bn2mpi a = mpiEncode a
  mpi2bn : ∀ body : List UInt8, body.length < 2 ^ 32 →
    ssl.BN_mpi2bn (be32 body.length ++ body) = mpiValue body
  add : ∀ a b, ssl.BN_add a b = a + b
  sub : ∀ a b, ssl.BN_sub a b = a - b
  mul : ∀ a b, ssl.BN_mul a b = a * b
  div : ∀ a b, b ≠ 0 → ssl.BN_div a b = a.tdiv b
  mod : ∀ a b, b ≠ 0 → ssl.BN_mod a b = a.tmod b

def Openssl.reference : Openssl where
  BN_bn2mpi := mpiEncode
  BN_mpi2bn buf := mpiValue (buf.drop 4)
  BN_add a b := a + b
  BN_sub a b := a - b
  BN_mul a b := a * b
  BN_div a b := a.tdiv b
  BN_mod a b := a.tmod b

theorem Openssl.reference_spec : Openssl.reference.Spec where
  bn2mpi _ := rfl
  mpi2bn body _ := by simp [Openssl.reference, be32]
  add _ _ := rfl
  sub _ _ := rfl
  mul _ _ := rfl
  div _ _ _ := rfl
  mod _ _ _ := rfl

variable (ssl : Openssl)

/-- `bsv::bint::serialize`: the MPI encoding without its length field, reversed. -/
def bintSerialize (n : Int) : List UInt8 := ((ssl.BN_bn2mpi n).drop 4).reverse

/-- `bsv::bint::deserialize`: a length field and the bytes reversed, read by `BN_mpi2bn`. -/
def bintDeserialize (s : List UInt8) : Int := ssl.BN_mpi2bn (be32 s.length ++ s.reverse)

/-! ## `CScriptNum` -/

/-- `CScriptNum`: the `std::variant<int64_t, bsv::bint>` it holds. -/
inductive CScriptNum where
  | int64 (n : Int)
  | bint (n : Int)
  deriving DecidableEq, Repr

namespace CScriptNum

/-- The number held, whichever the alternative. -/
def value : CScriptNum → Int
  | int64 n => n
  | bint n => n

@[simp] theorem value_int64 (n : Int) : (int64 n).value = n := rfl

@[simp] theorem value_bint (n : Int) : (bint n).value = n := rfl

/-- Whether the `bsv::bint` alternative is held. -/
def isBig : CScriptNum → Bool
  | int64 _ => false
  | bint _ => true

def ofSpan (span : List UInt8) (fRequireMinimal : Bool) (nMaxNumSize : Nat) (big_int : Bool) :
    Except Exception CScriptNum :=
  if span.length > nMaxNumSize then .error .scriptnumOverflow
  else if fRequireMinimal && !isMinimallyEncoded span nMaxNumSize then
    .error .scriptnumMinencode
  else if h : span = [] then .ok (if big_int then bint 0 else int64 0)
  else .ok (if big_int then bint (bintDeserialize ssl span) else int64 (deserialize span h))

/-- The arithmetic assignment operators: the `int64_t` operation on two `int64_t`s, OpenSSL's on
two `bint`s. The source asserts that both operands hold the same alternative, which holds in the
interpreter (`ofSpan_isBig`); a mixed pair leaves the left operand as it is. -/
def arith (f g : Int → Int → Int) : CScriptNum → CScriptNum → CScriptNum
  | int64 a, int64 b => int64 (f a b)
  | bint a, bint b => bint (g a b)
  | a, _ => a

def add : CScriptNum → CScriptNum → CScriptNum := arith (· + ·) ssl.BN_add
def sub : CScriptNum → CScriptNum → CScriptNum := arith (· - ·) ssl.BN_sub
def mul : CScriptNum → CScriptNum → CScriptNum := arith (· * ·) ssl.BN_mul
def div : CScriptNum → CScriptNum → CScriptNum := arith Int.tdiv ssl.BN_div
def mod : CScriptNum → CScriptNum → CScriptNum := arith Int.tmod ssl.BN_mod

def neg : CScriptNum → CScriptNum
  | int64 a => int64 (-a)
  | bint a => bint (-a)

@[simp] theorem value_neg (n : CScriptNum) : n.neg.value = -n.value := by
  cases n <;> rfl

@[simp] theorem add_int64 (a b : Int) : (int64 a).add ssl (int64 b) = int64 (a + b) := rfl
@[simp] theorem sub_int64 (a b : Int) : (int64 a).sub ssl (int64 b) = int64 (a - b) := rfl
@[simp] theorem mul_int64 (a b : Int) : (int64 a).mul ssl (int64 b) = int64 (a * b) := rfl
@[simp] theorem div_int64 (a b : Int) : (int64 a).div ssl (int64 b) = int64 (a.tdiv b) := rfl
@[simp] theorem mod_int64 (a b : Int) : (int64 a).mod ssl (int64 b) = int64 (a.tmod b) := rfl
@[simp] theorem neg_int64 (a : Int) : (int64 a).neg = int64 (-a) := rfl

/-- `bn = b` for a `bool` `b`: `operator=(int64_t)` stores an `int64_t`. -/
def ofBool (b : Bool) : CScriptNum := int64 (if b then 1 else 0)

def getvch : CScriptNum → List UInt8
  | int64 a => serialize a
  | bint a => bintSerialize ssl a

/-- `CScriptNum::getint`: the value clamped to the range of `int`. -/
def getint (n : CScriptNum) : Int :=
  if n.value > 2147483647 then 2147483647
  else if n.value < -2147483648 then -2147483648
  else n.value

theorem ofSpan_isBig {span : List UInt8} {fRequireMinimal : Bool} {nMaxNumSize : Nat}
    {big_int : Bool} {n : CScriptNum}
    (h : ofSpan ssl span fRequireMinimal nMaxNumSize big_int = .ok n) : n.isBig = big_int := by
  unfold ofSpan at h
  split_ifs at h <;> cases h <;> cases big_int <;> simp_all [isBig]

theorem ofSpan_int64 {span : List UInt8} {fRequireMinimal : Bool} {nMaxNumSize : Nat}
    {n : CScriptNum} (h : ofSpan ssl span fRequireMinimal nMaxNumSize false = .ok n) :
    span.length ≤ nMaxNumSize ∧
      (span = [] ∧ n = .int64 0 ∨ ∃ hne : span ≠ [], n = .int64 (deserialize span hne)) := by
  unfold ofSpan at h
  simp only [Bool.false_eq_true, if_false] at h
  split_ifs at h with hlen hmin hnil
  · cases h
    exact ⟨by omega, .inl ⟨hnil, rfl⟩⟩
  · cases h
    exact ⟨by omega, .inr ⟨hnil, rfl⟩⟩

end CScriptNum

/-! ## `MinimallyEncode` only shortens -/

theorem length_minimallyEncodeLoop_le (last : UInt8) (data : List UInt8) (j : Nat)
    (hj : j < data.length) (d : List UInt8) (h : minimallyEncodeLoop last data j = some d) :
    d.length ≤ data.length := by
  induction j with
  | zero => simp [minimallyEncodeLoop] at h
  | succ i ih =>
    simp only [minimallyEncodeLoop] at h
    split_ifs at h
    · cases h
      simp
      omega
    · cases h
      simp
      omega
    · exact ih (by omega) h

theorem length_minimallyEncode_le (data : List UInt8) :
    (minimallyEncode data).2.length ≤ data.length := by
  unfold minimallyEncode
  cases hlast : data.getLast? with
  | none => simp
  | some last =>
    have hne : data ≠ [] := by
      rintro rfl
      simp at hlast
    have hpos : 0 < data.length := List.length_pos_of_ne_nil hne
    dsimp only
    split_ifs
    · simp
    · simp
    · simp
    · cases hloop : minimallyEncodeLoop last data (data.length - 1) with
      | none => simp
      | some d => exact length_minimallyEncodeLoop_le last data _ (by omega) d hloop

/-! ## The encodings are the sign-magnitude format -/

theorem serializeLoop_eq (neg : Bool) (fuel n : Nat) (h : n ≤ fuel) :
    serializeLoop neg fuel n = signLast neg (digitsLE n) := by
  induction fuel generalizing n with
  | zero =>
    obtain rfl : n = 0 := by omega
    simp [serializeLoop, signLast]
  | succ fuel ih =>
    rcases Nat.eq_zero_or_pos n with rfl | hn
    · simp [serializeLoop, signLast]
    have hdiv : n / 256 ≤ fuel := by omega
    rw [digitsLE_of_pos hn]
    by_cases hq : n / 256 = 0
    · simp [serializeLoop, hn.ne', hq, signLast]
    · have hne : digitsLE (n / 256) ≠ [] := by simpa [digitsLE_eq_nil_iff] using hq
      obtain ⟨d, ds, hds⟩ := List.exists_cons_of_ne_nil hne
      simp only [serializeLoop, hn.ne', if_false, ne_eq, hq, not_false_eq_true, if_true,
        ih _ hdiv, hds, signLast]

theorem serialize_eq_signMagnitudeLE (v : Int) : serialize v = signMagnitudeLE v := by
  unfold serialize signMagnitudeLE
  split
  · next h => simp [h, signLast]
  · exact serializeLoop_eq _ _ _ (Nat.le_refl _)

theorem length_serialize_le (v : Int) (k : Nat) (h : v.natAbs < 256 ^ k) :
    (serialize v).length ≤ k + 1 := by
  rw [serialize_eq_signMagnitudeLE, signMagnitudeLE]
  have := (length_digitsLE_le_iff _ _).mpr h
  have := length_signLast_le (decide (v < 0)) (digitsLE v.natAbs)
  omega

theorem and_7f_of_and_80 (t : UInt8) (h : t &&& 0x80 = 0) : t &&& 0x7f = t := by
  apply UInt8.eq_of_toBitVec_eq
  have h' := congrArg UInt8.toBitVec h
  simp only [UInt8.toBitVec_and] at h' ⊢
  ext i hi
  have hbit := congrArg (fun x => x.getLsbD i) h'
  simp at hbit
  interval_cases i <;> simp_all

theorem deserialize_eq_signMagnitudeValue (s : List UInt8) (hne : s ≠ []) (h : s.length ≤ 8) :
    deserialize s hne = signMagnitudeValue s := by
  obtain ⟨ts, t, rfl⟩ := (List.eq_nil_or_concat s).resolve_left hne
  have h' : ¬ 8 ≤ ts.length := by simp at h; omega
  simp only [List.concat_eq_append]
  by_cases ht : t &&& 0x80 = 0
  · simp [deserialize, signMagnitudeValue, h', ht, and_7f_of_and_80 t ht, readLE_append,
      Nat.mul_comm]
  · simp [deserialize, signMagnitudeValue, h', ht, readLE_append, Nat.mul_comm]

theorem natAbs_deserialize_lt (s : List UInt8) (hne : s ≠ []) :
    (deserialize s hne).natAbs < 256 ^ s.length := by
  obtain ⟨ts, t, rfl⟩ := (List.eq_nil_or_concat s).resolve_left hne
  have hts := readLE_lt ts
  have ht : t.toNat < 256 := t.toNat_lt
  have hmask : (t &&& 0x7f).toNat < 256 := (t &&& 0x7f).toNat_lt
  have hlast : ∀ x : Nat, x < 256 → readLE ts + x * 256 ^ ts.length < 256 ^ (ts.length + 1) := by
    intro x hx
    have : x * 256 ^ ts.length ≤ 255 * 256 ^ ts.length := Nat.mul_le_mul_right _ (by omega)
    rw [Nat.pow_succ]
    omega
  simp only [List.concat_eq_append, deserialize, List.getLast_concat, List.dropLast_concat,
    List.length_append, List.length_singleton, Nat.add_sub_cancel]
  split_ifs with hlen
  · have h₁ : (readLE ts : Int).bmod (2 ^ 64) < 2 ^ 63 :=
      lt_of_lt_of_le (Int.bmod_lt (by norm_num)) (by norm_num)
    have h₂ : -2 ^ 63 ≤ (readLE ts : Int).bmod (2 ^ 64) :=
      le_trans (by norm_num) (Int.le_bmod (by norm_num))
    have h₉ : 256 ^ 9 ≤ 256 ^ (ts.length + 1) := Nat.pow_le_pow_right (by norm_num) (by omega)
    omega
  · rw [Int.natAbs_neg]
    have := hlast _ hmask
    omega
  · have := hlast _ ht
    omega

section Spec

variable {ssl}

theorem bintSerialize_eq (hs : ssl.Spec) (n : Int) : bintSerialize ssl n = serialize n := by
  rw [bintSerialize, hs.bn2mpi, mpiEncode, serialize_eq_signMagnitudeLE, ← reverse_mpiBody]
  simp [be32]

theorem bintDeserialize_eq (hs : ssl.Spec) (s : List UInt8) (hne : s ≠ []) (h : s.length ≤ 8) :
    bintDeserialize ssl s = deserialize s hne := by
  have hlen : s.reverse.length < 2 ^ 32 := by simp; omega
  rw [bintDeserialize, ← List.length_reverse, hs.mpi2bn _ hlen, mpiValue_reverse,
    deserialize_eq_signMagnitudeValue s hne h]

theorem ofSpan_backends (hs : ssl.Spec) {span : List UInt8} (h : span.length ≤ 4) {n₁ n₂ : Nat}
    (h₁ : 4 ≤ n₁) (h₂ : 4 ≤ n₂) (fRequireMinimal : Bool) :
    (∃ v, CScriptNum.ofSpan ssl span fRequireMinimal n₁ false = .ok (.int64 v) ∧
      CScriptNum.ofSpan ssl span fRequireMinimal n₂ true = .ok (.bint v)) ∨
    ∃ e, CScriptNum.ofSpan ssl span fRequireMinimal n₁ false = .error e ∧
      CScriptNum.ofSpan ssl span fRequireMinimal n₂ true = .error e := by
  have hl₁ : ¬ span.length > n₁ := by omega
  have hl₂ : ¬ span.length > n₂ := by omega
  unfold CScriptNum.ofSpan
  rw [if_neg hl₁, if_neg hl₂,
    isMinimallyEncoded_of_le (by omega : span.length ≤ n₁) (by omega : span.length ≤ n₂)]
  by_cases hm : (fRequireMinimal && !isMinimallyEncoded span n₂) = true
  · exact .inr ⟨_, by rw [if_pos hm], by rw [if_pos hm]⟩
  · left
    rw [if_neg hm, if_neg hm]
    by_cases he : span = []
    · subst he
      exact ⟨0, rfl, rfl⟩
    · rw [dif_neg he, dif_neg he, bintDeserialize_eq hs span he (by omega)]
      exact ⟨_, rfl, rfl⟩

theorem CScriptNum.getvch_eq_serialize (hs : ssl.Spec) (n : CScriptNum) :
    n.getvch ssl = serialize n.value := by
  cases n with
  | int64 v => rfl
  | bint v => exact bintSerialize_eq hs v

end Spec

/-! ## Minimal encodings and the codec -/

theorem isMinimallyEncoded_iff (span : List UInt8) (n : Nat) :
    isMinimallyEncoded span n = true ↔ span.length ≤ n ∧ MinimalSM span := by
  unfold isMinimallyEncoded MinimalSM
  by_cases hn : span.length > n
  · simp only [if_pos hn, Bool.false_eq_true, false_iff, not_and]
    omega
  rw [if_neg hn]
  cases hl : span.getLast? with
  | none => simp [Nat.le_of_not_lt hn]
  | some last =>
    dsimp only
    by_cases h7 : last &&& 0x7f = 0
    · rw [if_pos h7]
      cases hd : span.dropLast.getLast? with
      | none => simp [h7]
      | some b => simp [Nat.le_of_not_lt hn, h7]
    · rw [if_neg h7]
      simp [Nat.le_of_not_lt hn, h7]

theorem serialize_eq_nil_iff (v : Int) : serialize v = [] ↔ v = 0 := by
  refine ⟨fun h => ?_, fun h => by rw [h]; rfl⟩
  have hv := signMagnitudeValue_signMagnitudeLE v
  rw [← serialize_eq_signMagnitudeLE, h] at hv
  exact hv.symm

/-- `bsv::serialize` and `bsv::deserialize<int64_t>` are inverse: every `int64_t` is written in a
minimal encoding of at most nine bytes, empty only for 0, and every other one is read back; every
non-empty minimal encoding of at most eight bytes is read and written back; the value read is that
of the little-endian sign-magnitude format. -/
theorem script_number_codec :
    (∀ v : Int, -2 ^ 63 ≤ v → v < 2 ^ 63 →
      isMinimallyEncoded (serialize v) 9 = true ∧ (serialize v = [] ↔ v = 0) ∧
        ∀ h : serialize v ≠ [], deserialize (serialize v) h = v) ∧
    (∀ (s : List UInt8) (h : s ≠ []), isMinimallyEncoded s 8 = true →
      serialize (deserialize s h) = s) ∧
    (∀ (s : List UInt8) (h : s ≠ []), s.length ≤ 8 → deserialize s h = signMagnitudeValue s) := by
  refine ⟨fun v h₁ h₂ => ?_, fun s hne hmin => ?_, deserialize_eq_signMagnitudeValue⟩
  · have hk : v.natAbs < 128 * 256 ^ 8 := by
      norm_num at h₁ h₂ ⊢
      omega
    refine ⟨?_, serialize_eq_nil_iff v, fun hne => ?_⟩
    · rw [serialize_eq_signMagnitudeLE]
      exact (isMinimallyEncoded_iff _ 9).mpr
        ⟨length_signMagnitudeLE_le hk, minimalSM_signMagnitudeLE v⟩
    by_cases hl : (serialize v).length ≤ 8
    · rw [deserialize_eq_signMagnitudeValue _ hne hl, serialize_eq_signMagnitudeLE,
        signMagnitudeValue_signMagnitudeLE]
    · have hbig : ¬ v.natAbs < 128 * 256 ^ 7 := fun h =>
        hl (serialize_eq_signMagnitudeLE v ▸ length_signMagnitudeLE_le h)
      obtain rfl : v = -2 ^ 63 := by
        norm_num at h₁ h₂ hbig ⊢
        omega
      revert hne
      decide
  · obtain ⟨hlen, hsm⟩ := (isMinimallyEncoded_iff s 8).mp hmin
    rw [deserialize_eq_signMagnitudeValue s hne hlen, serialize_eq_signMagnitudeLE,
      signMagnitudeLE_signMagnitudeValue hsm]

/-- The encoding of 0 is the empty range, which `bsv::deserialize` refuses by its assertion. -/
theorem serialize_zero_empty : serialize 0 = [] := rfl

theorem minimallyEncodeLoop_eq {last : UInt8} (hlast : last = 0 ∨ last = 0x80) (data : List UInt8) :
    ∀ j, j ≤ data.length → minimallyEncodeLoop last data j =
      if readLE (data.take j) = 0 then none
      else some (signLast (decide (last = 0x80)) (digitsLE (readLE (data.take j)))) := by
  intro j
  induction j with
  | zero => simp [minimallyEncodeLoop]
  | succ i ih =>
    intro hj
    have htake : data.take (i + 1) = data.take i ++ [data.getD i 0] := by
      rw [List.take_add_one, List.getElem?_eq_getElem (by omega), List.getD_eq_getElem _ _ (by omega)]
      rfl
    have hlen : (data.take i).length = i := List.length_take_of_le (by omega)
    rw [minimallyEncodeLoop]
    by_cases hb : data.getD i 0 = 0
    · rw [if_neg (not_not.mpr hb), ih (by omega), htake, hb]
      simp [readLE_append]
    · rw [if_pos hb]
      have hnz : ∀ t ∈ (data.take i ++ [data.getD i 0]).getLast?, t ≠ 0 := by
        intro t ht
        rw [List.getLast?_concat, Option.mem_some_iff] at ht
        exact ht ▸ hb
      rw [← htake] at hnz
      rw [if_neg (Nat.pos_iff_ne_zero.mp (readLE_pos (List.ne_nil_of_length_pos (by rw [List.length_take]; omega)) hnz)), digitsLE_readLE hnz,
        htake, signLast_append_single, signLast_singleton]
      generalize data.getD i 0 = b at hb ⊢
      rcases hlast with rfl | rfl
      · by_cases h8 : b &&& 0x80 = 0 <;> simp [h8]
      · by_cases h8 : b &&& 0x80 = 0 <;> simp [h8]

theorem minimallyEncode_eq (data : List UInt8) :
    minimallyEncode data =
      (!isMinimallyEncoded data data.length, signMagnitudeLE (signMagnitudeValue data)) := by
  rcases List.eq_nil_or_concat data with rfl | ⟨ys, last, rfl⟩
  · rfl
  rw [List.concat_eq_append]
  by_cases h7 : last &&& 0x7f = 0
  · have hmod : last.toNat % 128 = 0 := by rw [← toNat_and_7f, h7]; rfl
    rcases List.eq_nil_or_concat ys with rfl | ⟨zs, u, rfl⟩
    · have hnot : isMinimallyEncoded ([] ++ [last]) 1 = false := by
        simp [isMinimallyEncoded, h7]
      have hv : signMagnitudeValue ([] ++ [last]) = 0 := by
        rw [signMagnitudeValue_append, hmod]
        simp
      rw [List.length_append, List.length_nil, List.length_singleton, hnot, hv]
      simp [minimallyEncode, h7, signMagnitudeLE, signLast]
    rw [List.concat_eq_append]
    have hgetD : ((zs ++ [u]) ++ [last]).getD ((zs ++ [u] ++ [last]).length - 2) 0 = u := by
      simp [List.getD_eq_getElem?_getD]
    by_cases hu : u &&& 0x80 = 0
    · have hlast := eq_zero_or_eq_80 h7
      have hsm : ¬ MinimalSM ((zs ++ [u]) ++ [last]) := by
        intro h
        obtain ⟨u', hu', hu80⟩ := h last (by simp) h7
        rw [List.dropLast_concat, List.getLast?_concat, Option.mem_some_iff] at hu'
        exact hu80 (hu' ▸ hu)
      have hnot : isMinimallyEncoded ((zs ++ [u]) ++ [last]) ((zs ++ [u]) ++ [last]).length =
          false := by
        rw [← Bool.not_eq_true, isMinimallyEncoded_iff]
        exact fun h => hsm h.2
      have htake : ((zs ++ [u]) ++ [last]).take (((zs ++ [u]) ++ [last]).length - 1) = zs ++ [u] :=
        List.take_left' (by simp)
      have hloop := minimallyEncodeLoop_eq hlast ((zs ++ [u]) ++ [last])
        (((zs ++ [u]) ++ [last]).length - 1) (by omega)
      rw [htake] at hloop
      rw [hnot, signMagnitudeValue_append, hmod, Nat.mul_zero, Nat.add_zero]
      simp only [minimallyEncode, List.getLast?_concat, h7, ne_eq, not_true_eq_false, if_false,
        hgetD, hu, hloop]
      rw [if_neg (by simp)]
      by_cases hr : readLE (zs ++ [u]) = 0
      · rw [if_pos hr, hr]
        simp [signMagnitudeLE, signLast]
      · rw [if_neg hr]
        have hr' : 0 < readLE (zs ++ [u]) := Nat.pos_of_ne_zero hr
        rcases hlast with rfl | rfl
        · have hnn : ¬ ((readLE (zs ++ [u]) : Int) < 0) := by omega
          simp [signMagnitudeLE, hnn]
        · simp [signMagnitudeLE, hr']
    · have hsm : MinimalSM ((zs ++ [u]) ++ [last]) := by
        intro t ht _
        rw [List.dropLast_concat, List.getLast?_concat]
        exact ⟨u, rfl, hu⟩
      rw [(isMinimallyEncoded_iff _ _).mpr ⟨le_refl _, hsm⟩, signMagnitudeLE_signMagnitudeValue hsm]
      simp [minimallyEncode, h7, hu]
  · have hsm : MinimalSM (ys ++ [last]) := by
      intro t ht h
      rw [List.getLast?_concat, Option.mem_some_iff] at ht
      exact absurd (ht ▸ h) h7
    rw [(isMinimallyEncoded_iff _ _).mpr ⟨le_refl _, hsm⟩, signMagnitudeLE_signMagnitudeValue hsm]
    simp [minimallyEncode, h7]

/-- `bsv::MinimallyEncode` leaves the minimal encoding of the value of its data, no longer than
the data, and the empty vector for a zero; it reports `true` exactly when the data was not
minimal, and otherwise leaves the data as it is. -/
theorem minimally_encode_canonical (x : List UInt8) :
    isMinimallyEncoded (minimallyEncode x).2 x.length = true ∧
    signMagnitudeValue (minimallyEncode x).2 = signMagnitudeValue x ∧
    (signMagnitudeValue x = 0 → (minimallyEncode x).2 = []) ∧
    ((minimallyEncode x).1 = true ↔ isMinimallyEncoded x x.length = false) ∧
    ((minimallyEncode x).1 = false → (minimallyEncode x).2 = x) := by
  have hlen := length_minimallyEncode_le x
  rw [minimallyEncode_eq] at hlen ⊢
  refine ⟨?_, signMagnitudeValue_signMagnitudeLE _, ?_, by simp, ?_⟩
  · exact (isMinimallyEncoded_iff _ _).mpr ⟨hlen, minimalSM_signMagnitudeLE _⟩
  · intro h
    rw [h]
    simp [signMagnitudeLE, signLast]
  · intro h
    have hmin : isMinimallyEncoded x x.length = true := by simpa using h
    exact signMagnitudeLE_signMagnitudeValue ((isMinimallyEncoded_iff x _).mp hmin).2

end TbcNode.Script
