import TbcNode.Logic.Sequence
import TbcNode.Primitives.VarInt
import TbcNode.Script.Interpreter.Machine

/-! # Coins and their record in the chainstate (`coins.h`, `compressor.h`, `compressor.cpp`)

A `Coin` is an output with its height and coinbase flag in one `uint32_t`, recorded as a `VARINT`
and the output through `CTxOutCompressor`. Under `Secp256k1.Spec`, every coin whose amount is in
the money range and whose script fits a transaction is read back from its record.
-/

namespace TbcNode.Coins

open TbcNode.Logic TbcNode.Primitives TbcNode.Script TbcNode.Script.Interpreter

/-- `MAX_TX_SIZE_CONSENSUS_AFTER_GENESIS`, one gigabyte (`consensus.h`). -/
def MAX_TX_SIZE_CONSENSUS_AFTER_GENESIS : Nat := 1000 * 1000 * 1000

/-- `Coin`: the output, and `nHeightAndIsCoinBase`, the height shifted left by one with the
coinbase flag in the low bit. -/
structure Coin where
  out : CTxOut
  nHeightAndIsCoinBase : UInt32
  deriving DecidableEq, Repr

def Coin.isSpent (coin : Coin) : Bool := coin.out.isNull

/-! ### Amounts -/

/-- The loop of `CompressAmount`: the trailing zeros of `n` are taken off, at most nine. -/
def compressAmountLoop (n e : Nat) : Nat × Nat :=
  if n % 10 = 0 ∧ e < 9 then compressAmountLoop (n / 10) (e + 1) else (n, e)
termination_by 9 - e

/-- `CTxOutCompressor::CompressAmount`, in `uint64_t`: an amount `n * 10 ^ e` with the last digit
`d` of `n` non-zero is `1 + 10 * (9 * (n / 10) + d - 1) + e`, and one with nine trailing zeros is
`1 + 10 * (n - 1) + 9`. The `assert` on `d` holds by `compressAmountLoop_digit`. -/
def compressAmount (amt : Amount) : Nat :=
  let n := (amt % 2 ^ 64).toNat
  if n = 0 then 0
  else
    let (n, e) := compressAmountLoop n 0
    if e < 9 then
      let d := n % 10
      let n := n / 10
      (1 + (n * 9 + d - 1) * 10 + e) % 2 ^ 64
    else (1 + (n - 1) * 10 + 9) % 2 ^ 64

/-- `CTxOutCompressor::DecompressAmount`; the loop that multiplies by ten `e` times is in
`uint64_t`, and the result is cast to `int64_t`. -/
def decompressAmount (x : Nat) : Amount :=
  if x = 0 then 0
  else
    let x := x - 1
    let e := x % 10
    let x := x / 10
    let n :=
      if e < 9 then
        let d := x % 9 + 1
        let x := x / 9
        x * 10 + d
      else x + 1
    int64OfUInt64 (n * 10 ^ e % 2 ^ 64)

theorem compressAmountLoop_spec (n e : Nat) (he : e ≤ 9) :
    n * 10 ^ e = (compressAmountLoop n e).1 * 10 ^ (compressAmountLoop n e).2 ∧
      (compressAmountLoop n e).2 ≤ 9 ∧ (compressAmountLoop n e).1 ≤ n ∧
      ((compressAmountLoop n e).2 < 9 → (compressAmountLoop n e).1 % 10 ≠ 0) := by
  fun_induction compressAmountLoop n e with
  | case1 n e h ih =>
    obtain ⟨hval, hle, hm, hd⟩ := ih (by omega)
    refine ⟨?_, hle, le_trans hm (Nat.div_le_self n 10), hd⟩
    rw [← hval, Nat.pow_succ, Nat.mul_comm (10 ^ e) 10, ← Nat.mul_assoc,
      Nat.div_mul_cancel (Nat.dvd_of_mod_eq_zero h.1)]
  | case2 n e h =>
    refine ⟨rfl, he, le_refl n, fun h9 h0 => h ⟨h0, h9⟩⟩

theorem compressAmountLoop_digit (n : Nat) (h : (compressAmountLoop n 0).2 < 9) :
    1 ≤ (compressAmountLoop n 0).1 % 10 ∧ (compressAmountLoop n 0).1 % 10 ≤ 9 := by
  have := (compressAmountLoop_spec n 0 (by omega)).2.2.2 h
  omega

theorem decompressAmount_digit {q d e : Nat} (hd₁ : 1 ≤ d) (hd₂ : d ≤ 9) (he : e < 9) :
    decompressAmount (1 + (q * 9 + d - 1) * 10 + e) = int64OfUInt64 ((q * 10 + d) * 10 ^ e % 2 ^ 64) := by
  have he' : (1 + (q * 9 + d - 1) * 10 + e - 1) % 10 = e := by omega
  have hx : (1 + (q * 9 + d - 1) * 10 + e - 1) / 10 = q * 9 + d - 1 := by omega
  have hd' : (q * 9 + d - 1) % 9 + 1 = d := by omega
  have hq : (q * 9 + d - 1) / 9 = q := by omega
  simp only [decompressAmount, if_neg (by omega : 1 + (q * 9 + d - 1) * 10 + e ≠ 0), he', hx,
    if_pos he, hd', hq]

theorem decompressAmount_nine {m : Nat} (hm : 1 ≤ m) :
    decompressAmount (1 + (m - 1) * 10 + 9) = int64OfUInt64 (m * 10 ^ 9 % 2 ^ 64) := by
  have he' : (1 + (m - 1) * 10 + 9 - 1) % 10 = 9 := by omega
  have hx : (1 + (m - 1) * 10 + 9 - 1) / 10 + 1 = m := by omega
  simp only [decompressAmount, if_neg (by omega : 1 + (m - 1) * 10 + 9 ≠ 0), he',
    Nat.lt_irrefl, if_false, hx]

theorem decompressAmount_compressAmount {amt : Int} (h₀ : 0 ≤ amt) (h₁ : amt ≤ MAX_MONEY) :
    decompressAmount (compressAmount amt) = amt := by
  have hmax : amt ≤ 2100000000000000 := h₁
  have hn : (amt % 2 ^ 64).toNat = amt.toNat := by omega
  have hback : int64OfUInt64 (amt.toNat % 2 ^ 64) = amt := by
    rw [Nat.mod_eq_of_lt (by omega)]
    unfold int64OfUInt64
    rw [if_pos (by omega)]
    omega
  unfold compressAmount
  rw [hn]
  by_cases h0 : amt.toNat = 0
  · rw [if_pos h0]
    simp only [decompressAmount, if_true]
    show (0 : Int) = amt
    omega
  rw [if_neg h0]
  obtain ⟨hval, hle, hm, hd⟩ := compressAmountLoop_spec amt.toNat 0 (by omega)
  rcases hloop : compressAmountLoop amt.toNat 0 with ⟨m, e⟩
  rw [hloop] at hval hle hm hd
  simp only [Nat.pow_zero, Nat.mul_one] at hval hle hm hd
  have hm₀ : 1 ≤ m := by
    rcases Nat.eq_zero_or_pos m with rfl | hpos
    · simp at hval
      omega
    · exact hpos
  dsimp only
  by_cases he : e < 9
  · have hdig := hd he
    rw [if_pos he, Nat.mod_eq_of_lt (by omega), decompressAmount_digit (by omega) (by omega) he,
      show m / 10 * 10 + m % 10 = m by omega, ← hval, hback]
  · have he9 : e = 9 := by omega
    subst he9
    rw [if_neg (by omega), Nat.mod_eq_of_lt (by omega), decompressAmount_nine hm₀, ← hval, hback]

/-! ### Compression after decompression -/

/-- The code `CompressAmount` returns from the loop's `n` and `e`, in unbounded arithmetic. -/
def compressAmountCode (n e : Nat) : Nat :=
  if e < 9 then 1 + (n / 10 * 9 + n % 10 - 1) * 10 + e else 1 + (n - 1) * 10 + 9

/-- The amount `DecompressAmount` computes, in unbounded arithmetic: `n * 10 ^ e` before the
`uint64_t` loop can wrap and before the cast to `int64_t`. -/
def decompressedValue (x : Nat) : Nat :=
  if x = 0 then 0
  else
    let e := (x - 1) % 10
    let q := (x - 1) / 10
    (if e < 9 then q / 9 * 10 + (q % 9 + 1) else q + 1) * 10 ^ e

theorem compressAmount_eq_code {amt : Amount} (h : (amt % 2 ^ 64).toNat ≠ 0) :
    compressAmount amt = compressAmountCode (compressAmountLoop (amt % 2 ^ 64).toNat 0).1
      (compressAmountLoop (amt % 2 ^ 64).toNat 0).2 % 2 ^ 64 := by
  unfold compressAmount
  rw [if_neg h]
  rcases compressAmountLoop (amt % 2 ^ 64).toNat 0 with ⟨n, e⟩
  dsimp only
  unfold compressAmountCode
  split_ifs <;> rfl

theorem decompressAmount_eq_value (x : Nat) :
    decompressAmount x = int64OfUInt64 (decompressedValue x % 2 ^ 64) := by
  unfold decompressAmount decompressedValue
  split_ifs <;> rfl

theorem compressAmountLoop_mul_pow (n : Nat) :
    ∀ k e, e + k ≤ 9 → (e + k < 9 → n % 10 ≠ 0) →
      compressAmountLoop (n * 10 ^ k) e = (n, e + k) := by
  intro k
  induction k with
  | zero =>
    intro e he hn
    rw [compressAmountLoop, Nat.pow_zero, Nat.mul_one, if_neg (fun h => hn (by omega) h.1)]
    rfl
  | succ k ih =>
    intro e he hn
    have hdiv : n * 10 ^ (k + 1) / 10 = n * 10 ^ k := by
      rw [Nat.pow_succ, ← Nat.mul_assoc, Nat.mul_div_cancel _ (by omega)]
    have hmod : n * 10 ^ (k + 1) % 10 = 0 := by
      rw [Nat.pow_succ, ← Nat.mul_assoc, Nat.mul_mod_left]
    rw [compressAmountLoop, if_pos ⟨hmod, by omega⟩, hdiv, ih (e + 1) (by omega) (fun h => hn (by omega))]
    rw [Nat.add_assoc, Nat.add_comm 1 k]

theorem compressAmount_mul_pow {n k : Nat} (hn : 1 ≤ n) (hk : k ≤ 9) (hd : k < 9 → n % 10 ≠ 0)
    (hlt : n * 10 ^ k < 2 ^ 64) :
    compressAmount ((n * 10 ^ k : Nat) : Int) = compressAmountCode n k % 2 ^ 64 := by
  have hpos : 0 < n * 10 ^ k := Nat.mul_pos hn (Nat.pow_pos (by omega))
  have hmod : (((n * 10 ^ k : Nat) : Int) % 2 ^ 64).toNat = n * 10 ^ k := by omega
  rw [compressAmount_eq_code (by omega), hmod,
    compressAmountLoop_mul_pow n k 0 (by omega) (fun h => hd (by omega)), Nat.zero_add]

theorem compressAmount_decompressAmount {x : Nat} (h : (decompressedValue x : Int) ≤ MAX_MONEY) :
    compressAmount (decompressAmount x) = x := by
  have hmax : decompressedValue x ≤ 2100000000000000 := by
    have h' : (decompressedValue x : Int) ≤ 2100000000000000 := h
    omega
  have hcast : int64OfUInt64 (decompressedValue x) = decompressedValue x := by
    unfold int64OfUInt64
    rw [if_pos (by omega)]
  rw [decompressAmount_eq_value, Nat.mod_eq_of_lt (by omega), hcast]
  rcases Nat.eq_zero_or_pos x with rfl | hx
  · rfl
  obtain ⟨q, e, he, rfl⟩ : ∃ q e, e < 10 ∧ x = 1 + q * 10 + e := ⟨(x - 1) / 10, (x - 1) % 10, by omega, by omega⟩
  have hdv : decompressedValue (1 + q * 10 + e) =
      (if e < 9 then q / 9 * 10 + (q % 9 + 1) else q + 1) * 10 ^ e := by
    unfold decompressedValue
    rw [if_neg (by omega)]
    simp only [show (1 + q * 10 + e - 1) % 10 = e by omega, show (1 + q * 10 + e - 1) / 10 = q by omega]
  have hpow : 1 ≤ 10 ^ e := Nat.one_le_pow _ _ (by omega)
  rw [hdv] at hmax ⊢
  by_cases he9 : e < 9
  · rw [if_pos he9] at hmax ⊢
    have hq : q + 1 ≤ q / 9 * 10 + (q % 9 + 1) := by omega
    have hn : q / 9 * 10 + (q % 9 + 1) ≤ (q / 9 * 10 + (q % 9 + 1)) * 10 ^ e := Nat.le_mul_of_pos_right _ hpow
    rw [compressAmount_mul_pow (by omega) (by omega) (fun _ => by omega) (by omega), compressAmountCode,
      if_pos he9, Nat.mod_eq_of_lt (by omega)]
    omega
  · obtain rfl : e = 9 := by omega
    rw [if_neg he9] at hmax ⊢
    have hn : q + 1 ≤ (q + 1) * 10 ^ 9 := Nat.le_mul_of_pos_right _ hpow
    rw [compressAmount_mul_pow (by omega) le_rfl (fun h => absurd h he9) (by omega), compressAmountCode,
      if_neg he9, Nat.mod_eq_of_lt (by omega)]
    omega

theorem compressAmountCode_lt {amt : Int} (h₀ : 0 ≤ amt) (h₁ : amt ≤ MAX_MONEY) :
    compressAmountCode (compressAmountLoop amt.toNat 0).1 (compressAmountLoop amt.toNat 0).2 <
      2 ^ 64 := by
  have hmax : amt ≤ 2100000000000000 := h₁
  obtain ⟨-, -, hm, -⟩ := compressAmountLoop_spec amt.toNat 0 (by omega)
  unfold compressAmountCode
  split_ifs <;> omega

theorem compress_amount_inverse :
    (∀ x : Nat, (decompressedValue x : Int) ≤ MAX_MONEY →
      compressAmount (decompressAmount x) = x) ∧
    ∀ amt : Int, 0 ≤ amt → amt ≤ MAX_MONEY →
      compressAmount amt = if amt = 0 then 0 else
        compressAmountCode (compressAmountLoop amt.toNat 0).1 (compressAmountLoop amt.toNat 0).2 := by
  refine ⟨fun x h => compressAmount_decompressAmount h, fun amt h₀ h₁ => ?_⟩
  have hmax : amt ≤ 2100000000000000 := h₁
  have hn : (amt % 2 ^ 64).toNat = amt.toNat := by omega
  by_cases h0 : amt = 0
  · subst h0
    rfl
  · rw [if_neg h0, compressAmount_eq_code (by omega), hn,
      Nat.mod_eq_of_lt (compressAmountCode_lt h₀ h₁)]

/-! ### Scripts -/

/-- The calls `CPubKey` makes on `secp256k1`: `secp256k1_ec_pubkey_parse`, followed by
`secp256k1_ec_pubkey_serialize` with `SECP256K1_EC_UNCOMPRESSED` where `Decompress` needs it, is
the 65 bytes of the point a serialised key denotes, if it denotes one. -/
structure Secp256k1 where
  parseUncompressed : List UInt8 → Option (Vector UInt8 65)

/-- `CPubKey::GetLen`: the length of a key, from its first byte. -/
def pubKeyGetLen (chHeader : UInt8) : Nat :=
  if chHeader = 2 ∨ chHeader = 3 then 33
  else if chHeader = 4 ∨ chHeader = 6 ∨ chHeader = 7 then 65
  else 0

/-- `CPubKey::IsFullyValid`: `IsValid`, and the key parses. -/
def isFullyValid (secp : Secp256k1) (pubkey : List UInt8) : Bool :=
  0 < pubKeyGetLen (pubkey.getD 0 0) && (secp.parseUncompressed pubkey).isSome

/-- What the script compressor relies on `secp256k1` for: the compressed form of an uncompressed
key that it accepts (the header `2` or `3` by the parity of `y`, then `x`) denotes the same point,
so that decompressing it gives the key back. -/
def Secp256k1.Spec (secp : Secp256k1) : Prop :=
  ∀ pubkey : List UInt8, pubkey.length = 65 → pubkey.getD 0 0 = 0x04 →
    isFullyValid secp pubkey = true →
    (secp.parseUncompressed ((0x02 + pubkey.getD 64 0 % 2) :: (pubkey.drop 1).take 32)).map
      Vector.toList = some pubkey

def nSpecialScripts : Nat := 6

/-- `CScriptCompressor::IsToKeyID`: the key hash of a pay-to-pubkey-hash script. -/
def isToKeyID (script : CScript) : Option (List UInt8) :=
  if script.length = 25 ∧ script.getD 0 0 = OP_DUP ∧ script.getD 1 0 = OP_HASH160 ∧
      script.getD 2 0 = 20 ∧ script.getD 23 0 = OP_EQUALVERIFY ∧ script.getD 24 0 = OP_CHECKSIG then
    some ((script.drop 3).take 20)
  else none

/-- `CScriptCompressor::IsToScriptID`: the script hash of a pay-to-script-hash script. -/
def isToScriptID (script : CScript) : Option (List UInt8) :=
  if script.length = 23 ∧ script.getD 0 0 = OP_HASH160 ∧ script.getD 1 0 = 20 ∧
      script.getD 22 0 = OP_EQUAL then
    some ((script.drop 2).take 20)
  else none

/-- `CScriptCompressor::IsToPubKey`: the key of a pay-to-pubkey script, compressed, or uncompressed
and fully valid. `CPubKey::Set` keeps the bytes, whose first byte gives their length. -/
def isToPubKey (secp : Secp256k1) (script : CScript) : Option (List UInt8) :=
  if script.length = 35 ∧ script.getD 0 0 = 33 ∧ script.getD 34 0 = OP_CHECKSIG ∧
      (script.getD 1 0 = 0x02 ∨ script.getD 1 0 = 0x03) then
    some ((script.drop 1).take 33)
  else if script.length = 67 ∧ script.getD 0 0 = 65 ∧ script.getD 66 0 = OP_CHECKSIG ∧
      script.getD 1 0 = 0x04 then
    let pubkey := (script.drop 1).take 65
    if isFullyValid secp pubkey then some pubkey else none
  else none

/-- `CScriptCompressor::Compress`: the tag and the bytes of a special script. -/
def compress (secp : Secp256k1) (script : CScript) : Option (List UInt8) :=
  match isToKeyID script with
  | some hash => some (0x00 :: hash)
  | none =>
    match isToScriptID script with
    | some hash => some (0x01 :: hash)
    | none =>
      match isToPubKey secp script with
      | some pubkey =>
        if pubkey.getD 0 0 = 0x02 ∨ pubkey.getD 0 0 = 0x03 then
          some (pubkey.getD 0 0 :: (pubkey.drop 1).take 32)
        else if pubkey.getD 0 0 = 0x04 then
          some ((0x04 ||| (pubkey.getD 64 0 &&& 0x01)) :: (pubkey.drop 1).take 32)
        else none
      | none => none

def getSpecialSize (nSize : Nat) : Nat :=
  if nSize = 0 ∨ nSize = 1 then 20
  else if nSize = 2 ∨ nSize = 3 ∨ nSize = 4 ∨ nSize = 5 then 32
  else 0

/-- `CScriptCompressor::Decompress`: the script of a special case, or `none` where it returns
`false` and leaves the script as it was. `CPubKey(&vch[0], &vch[33])` is valid as its header is 2 or
3, and `Set(pub, pub + 65)` keeps the key only if its header says 65 bytes. -/
def decompress (secp : Secp256k1) (nSize : Nat) (input : List UInt8) :
    Except String (Option CScript) :=
  match nSize with
  | 0x00 => pure (some ([OP_DUP, OP_HASH160, 20] ++ input.take 20 ++ [OP_EQUALVERIFY, OP_CHECKSIG]))
  | 0x01 => pure (some ([OP_HASH160, 20] ++ input.take 20 ++ [OP_EQUAL]))
  | 0x02 | 0x03 => pure (some ([33, UInt8.ofNat nSize] ++ input.take 32 ++ [OP_CHECKSIG]))
  | 0x04 | 0x05 =>
    match secp.parseUncompressed (UInt8.ofNat (nSize - 2) :: input.take 32) with
    | none => pure none
    | some pub =>
      if pubKeyGetLen (pub.get 0) = 65 then pure (some ([65] ++ pub.toList ++ [OP_CHECKSIG]))
      else throw "assert(pubkey.size() == 65)"
  | _ => pure none

/-- `CScriptCompressor::Serialize`; the size is an `unsigned int`. -/
def serializeScript (secp : Secp256k1) (script : CScript) : List UInt8 :=
  match compress secp script with
  | some compr => compr
  | none => writeVarInt ((script.length + nSpecialScripts) % 2 ^ 32) ++ script

/-- `CScriptCompressor::Unserialize`, into `script`. -/
def unserializeScript (secp : Secp256k1) (script : CScript) : Reader CScript := do
  let nSize ← readVarInt 32
  if nSize < nSpecialScripts then
    let vch ← read (getSpecialSize nSize)
    match decompress secp nSize vch.toList with
    | .ok (some s) => pure s
    | .ok none => pure script
    | .error e => throw e
  else
    let nSize := nSize - nSpecialScripts
    if nSize > MAX_SCRIPT_SIZE_AFTER_GENESIS then do
      ignore (UInt32.ofNat nSize).toInt32.toInt
      pure (script ++ [OP_FALSE, OP_RETURN])
    else do
      let bytes ← read nSize
      pure bytes.toList

theorem compressAmount_lt (amt : Amount) : compressAmount amt < 2 ^ 64 := by
  unfold compressAmount
  dsimp only
  split
  · exact Nat.two_pow_pos 64
  · split <;> exact Nat.mod_lt _ (Nat.two_pow_pos 64)

/-! ### The special scripts -/

theorem isToKeyID_eq_some {script hash : List UInt8} (h : isToKeyID script = some hash) :
    hash.length = 20 ∧ script = [OP_DUP, OP_HASH160, 20] ++ hash ++ [OP_EQUALVERIFY, OP_CHECKSIG] := by
  unfold isToKeyID at h
  split at h
  · rename_i hs
    obtain ⟨hlen, h0, h1, h2, h23, h24⟩ := hs
    cases h
    refine ⟨by simp; omega, ?_⟩
    refine (eq_getD_slice_getD script 0 (a := 3) (m := 20) (b := 2) (by omega)).trans ?_
    simp only [List.getD_eq_getElem?_getD] at h0 h1 h2 h23 h24
    simp [List.range_succ, h0, h1, h2, h23, h24]
  · cases h

theorem isToScriptID_eq_some {script hash : List UInt8} (h : isToScriptID script = some hash) :
    hash.length = 20 ∧ script = [OP_HASH160, 20] ++ hash ++ [OP_EQUAL] := by
  unfold isToScriptID at h
  split at h
  · rename_i hs
    obtain ⟨hlen, h0, h1, h22⟩ := hs
    cases h
    refine ⟨by simp; omega, ?_⟩
    refine (eq_getD_slice_getD script 0 (a := 2) (m := 20) (b := 1) (by omega)).trans ?_
    simp only [List.getD_eq_getElem?_getD] at h0 h1 h22
    simp [List.range_succ, h0, h1, h22]
  · cases h

theorem isToPubKey_eq_some {secp : Secp256k1} {script pubkey : List UInt8}
    (h : isToPubKey secp script = some pubkey) :
    (pubkey.length = 33 ∧ (pubkey.getD 0 0 = 0x02 ∨ pubkey.getD 0 0 = 0x03) ∧
        script = [33] ++ pubkey ++ [OP_CHECKSIG]) ∨
      (pubkey.length = 65 ∧ pubkey.getD 0 0 = 0x04 ∧ isFullyValid secp pubkey = true ∧
        script = [65] ++ pubkey ++ [OP_CHECKSIG]) := by
  unfold isToPubKey at h
  split at h
  · rename_i hs
    obtain ⟨hlen, h0, h34, h1⟩ := hs
    cases h
    refine Or.inl ⟨by simp; omega, by simpa using h1, ?_⟩
    refine (eq_getD_slice_getD script 0 (a := 1) (m := 33) (b := 1) (by omega)).trans ?_
    simp only [List.getD_eq_getElem?_getD] at h0 h34
    simp [List.range_succ, h0, h34]
  · split at h
    · rename_i _ hs
      obtain ⟨hlen, h0, h66, h1⟩ := hs
      dsimp only at h
      split at h
      · rename_i hvalid
        cases h
        refine Or.inr ⟨by simp; omega, by simpa using h1, hvalid, ?_⟩
        refine (eq_getD_slice_getD script 0 (a := 1) (m := 65) (b := 1) (by omega)).trans ?_
        simp only [List.getD_eq_getElem?_getD] at h0 h66
        simp [List.range_succ, h0, h66]
      · cases h
    · cases h

theorem toNat_uncompressedTag (b : UInt8) : (0x04 ||| (b &&& 0x01)).toNat = 4 + b.toNat % 2 := by
  rw [UInt8.toNat_or, UInt8.toNat_and, show (0x01 : UInt8).toNat = 1 from rfl, Nat.and_one_is_mod]
  have := Nat.two_pow_add_eq_or_of_lt (i := 2) (show b.toNat % 2 < 2 ^ 2 by omega) 1
  rw [show (0x04 : UInt8).toNat = 2 ^ 2 * 1 from rfl, ← this]

theorem decompress_of_parse {secp : Secp256k1} {n : Nat} (hn : n = 4 ∨ n = 5) {input : List UInt8}
    {pub : Vector UInt8 65} (hparse : secp.parseUncompressed (UInt8.ofNat (n - 2) :: input.take 32) = some pub)
    (hhdr : pub.get 0 = 0x04) : decompress secp n input = .ok (some ([65] ++ pub.toList ++ [OP_CHECKSIG])) := by
  rcases hn with rfl | rfl <;> simp at hparse <;> simp [decompress, hparse, hhdr, pubKeyGetLen] <;> rfl

theorem compress_eq_some {secp : Secp256k1} (hsecp : secp.Spec) {script compr : List UInt8}
    (h : compress secp script = some compr) :
    ∃ nSize body, nSize < nSpecialScripts ∧ compr = UInt8.ofNat nSize :: body ∧
      body.length = getSpecialSize nSize ∧ decompress secp nSize body = .ok (some script) := by
  unfold compress at h
  rcases hk : isToKeyID script with _ | hash
  · rcases hs : isToScriptID script with _ | hash
    · rcases hp : isToPubKey secp script with _ | pubkey
      · simp only [hk, hs, hp] at h
        cases h
      · simp only [hk, hs, hp] at h
        rcases isToPubKey_eq_some hp with ⟨hlen, hhead, rfl⟩ | ⟨hlen, hhead, hvalid, rfl⟩
        · rw [if_pos hhead] at h
          cases h
          have hbody : ((pubkey.drop 1).take 32).length = 32 := by simp; omega
          have hkey : pubkey = [pubkey.getD 0 0] ++ (pubkey.drop 1).take 32 := by
            have := eq_getD_slice_getD pubkey 0 (a := 1) (m := 32) (b := 0) (by omega)
            simpa using this
          generalize pubkey.getD 0 0 = c at hhead hkey ⊢
          rcases hhead with rfl | rfl
          · refine ⟨2, (pubkey.drop 1).take 32, by decide, rfl, by rw [hbody]; rfl, ?_⟩
            conv_rhs => rw [hkey]
            simp [decompress, pure, Except.pure]
          · refine ⟨3, (pubkey.drop 1).take 32, by decide, rfl, by rw [hbody]; rfl, ?_⟩
            conv_rhs => rw [hkey]
            simp [decompress, pure, Except.pure]
        · rw [if_neg (by rw [hhead]; decide), if_pos hhead] at h
          cases h
          obtain ⟨pub, hparse, hpub⟩ := Option.map_eq_some_iff.mp (hsecp pubkey hlen hhead hvalid)
          have htag := toNat_uncompressedTag (pubkey.getD 64 0)
          have hvch : UInt8.ofNat ((0x04 ||| (pubkey.getD 64 0 &&& 0x01)).toNat - 2) ::
              ((pubkey.drop 1).take 32).take 32 =
              (0x02 + pubkey.getD 64 0 % 2) :: (pubkey.drop 1).take 32 := by
            rw [htag, List.take_take, Nat.min_self]
            congr 1
            apply UInt8.toNat_inj.mp
            rw [UInt8.toNat_ofNat', UInt8.toNat_add, UInt8.toNat_mod]
            simp
            omega
          have hhdr : pub.get 0 = 0x04 := by
            rw [← hhead, ← hpub]
            simp [Vector.get, List.getD_eq_getElem?_getD]
          refine ⟨(0x04 ||| (pubkey.getD 64 0 &&& 0x01)).toNat, (pubkey.drop 1).take 32, ?_,
            by rw [UInt8.ofNat_toNat], ?_, ?_⟩
          · rw [htag, nSpecialScripts]
            omega
          · rw [htag, getSpecialSize, if_neg (by omega), if_pos (by omega)]
            simp
            omega
          · rw [decompress_of_parse (by omega) (hvch ▸ hparse) hhdr, hpub]
    · simp only [hk, hs] at h
      cases h
      obtain ⟨hlen, rfl⟩ := isToScriptID_eq_some hs
      refine ⟨1, hash, by decide, rfl, by simp [getSpecialSize, hlen], ?_⟩
      simp [decompress, List.take_of_length_le, hlen, pure, Except.pure]
  · simp only [hk] at h
    cases h
    obtain ⟨hlen, rfl⟩ := isToKeyID_eq_some hk
    refine ⟨0, hash, by decide, rfl, by simp [getSpecialSize, hlen], ?_⟩
    simp [decompress, List.take_of_length_le, hlen, pure, Except.pure]

theorem reads_unserializeScript {secp : Secp256k1} (hsecp : secp.Spec) {script : CScript}
    (hlen : script.length + nSpecialScripts < 2 ^ 32) (old : CScript) :
    Reads (unserializeScript secp old) (serializeScript secp script) script := by
  intro rest
  unfold serializeScript
  rcases hc : compress secp script with _ | compr
  · have hsize := reads_readVarInt (w := 32) (by omega) hlen
    let v : Vector UInt8 (script.length + nSpecialScripts - nSpecialScripts) :=
      ⟨script.toArray, by simp⟩
    have hv : Reads (read (script.length + nSpecialScripts - nSpecialScripts)) script v :=
      (reads_read v).of_eq (by simp [v, Vector.toList]) rfl
    dsimp only
    rw [Nat.mod_eq_of_lt hlen, unserializeScript, List.append_assoc, Reads.run_bind hsize,
      if_neg (by omega)]
    dsimp only
    rw [if_neg (by simp only [MAX_SCRIPT_SIZE_AFTER_GENESIS]; omega), Reads.run_bind hv]
    simp [v, Vector.toList]
  · obtain ⟨nSize, body, hn, rfl, hbody, hdec⟩ := compress_eq_some hsecp hc
    have htag : writeVarInt nSize = [UInt8.ofNat nSize] :=
      writeVarInt_of_le (by simp only [nSpecialScripts] at hn; omega)
    have hsize := reads_readVarInt (w := 32) (x := nSize) (by omega)
      (by simp only [nSpecialScripts] at hn; omega)
    rw [htag] at hsize
    let v : Vector UInt8 (getSpecialSize nSize) := ⟨body.toArray, by simp [hbody]⟩
    have hv : Reads (read (getSpecialSize nSize)) body v :=
      (reads_read v).of_eq (by simp [v, Vector.toList]) rfl
    have hvl : v.toList = body := by simp [v, Vector.toList]
    dsimp only
    rw [unserializeScript, List.cons_append, ← List.singleton_append (l := body ++ rest),
      Reads.run_bind hsize,
      if_pos hn, Reads.run_bind hv, hvl, hdec]
    rfl

/-! ### Records -/

/-- `CTxOutCompressor::SerializationOp` when writing. -/
def serializeTxOutCompressor (secp : Secp256k1) (txout : CTxOut) : List UInt8 :=
  writeVarInt (compressAmount txout.nValue) ++ serializeScript secp txout.scriptPubKey

/-- `CTxOutCompressor::SerializationOp` when reading, into `txout`. -/
def unserializeTxOutCompressor (secp : Secp256k1) (txout : CTxOut) : Reader CTxOut := do
  let nVal ← readVarInt 64
  let scriptPubKey ← unserializeScript secp txout.scriptPubKey
  pure ⟨decompressAmount nVal, scriptPubKey⟩

def Coin.serialize (secp : Secp256k1) (coin : Coin) : Except String (List UInt8) :=
  if coin.isSpent then throw "assert(!IsSpent())"
  else pure (writeVarInt coin.nHeightAndIsCoinBase.toNat ++ serializeTxOutCompressor secp coin.out)

def Coin.unserialize (secp : Secp256k1) (coin : Coin) : Reader Coin := do
  let nHeightAndIsCoinBase ← readVarInt 32
  let out ← unserializeTxOutCompressor secp coin.out
  pure ⟨out, UInt32.ofNat nHeightAndIsCoinBase⟩

theorem reads_unserializeTxOutCompressor {secp : Secp256k1} (hsecp : secp.Spec) {txout : CTxOut}
    (h₀ : 0 ≤ txout.nValue) (h₁ : txout.nValue ≤ MAX_MONEY)
    (hlen : txout.scriptPubKey.length + nSpecialScripts < 2 ^ 32) (old : CTxOut) :
    Reads (unserializeTxOutCompressor secp old) (serializeTxOutCompressor secp txout) txout := by
  have hval := reads_readVarInt (w := 64) (le_refl _) (compressAmount_lt txout.nValue)
  refine Reads.of_eq (Reads.bind hval (Reads.bind
    (reads_unserializeScript hsecp hlen old.scriptPubKey) (Reads.pure' _))) ?_ ?_
  · simp [serializeTxOutCompressor]
  · rw [decompressAmount_compressAmount h₀ h₁]

/-- The record of a coin in the chainstate. Every coin whose amount is in the money range and
whose script is not larger than a transaction is written, and read back into any coin, to the
same output, height and coinbase flag, from its record followed by anything. -/
theorem coin_record_round_trip {secp : Secp256k1} (hsecp : secp.Spec) (coin into : Coin)
    (h₀ : 0 ≤ coin.out.nValue) (h₁ : coin.out.nValue ≤ MAX_MONEY)
    (hscript : coin.out.scriptPubKey.length ≤ MAX_TX_SIZE_CONSENSUS_AFTER_GENESIS) :
    ∃ bytes, coin.serialize secp = .ok bytes ∧
      ∀ rest, (into.unserialize secp).run (bytes ++ rest) = .ok coin rest := by
  have hspent : coin.isSpent = false := by
    have : coin.out.nValue ≠ -1 := by
      intro h
      rw [h] at h₀
      exact absurd h₀ (by decide)
    simp [Coin.isSpent, CTxOut.isNull, this]
  have hlen : coin.out.scriptPubKey.length + nSpecialScripts < 2 ^ 32 := by
    simp only [MAX_TX_SIZE_CONSENSUS_AFTER_GENESIS] at hscript
    simp only [nSpecialScripts]
    omega
  have hheight := reads_readVarInt (w := 32) (by omega) coin.nHeightAndIsCoinBase.toNat_lt
  refine ⟨_, by rw [Coin.serialize, hspent, if_neg Bool.false_ne_true]; rfl, ?_⟩
  exact Reads.of_eq (Reads.bind hheight (Reads.bind
    (reads_unserializeTxOutCompressor hsecp h₀ h₁ hlen into.out) (Reads.pure' _))) (by simp)
    (by simp)

/-- A `secp256k1` that accepts no key, which meets `Secp256k1.Spec` with nothing to check. -/
def Secp256k1.rejectAll : Secp256k1 := ⟨fun _ => none⟩

theorem Secp256k1.rejectAll_spec : Secp256k1.rejectAll.Spec := by
  intro pubkey _ _ hvalid
  simp [isFullyValid, Secp256k1.rejectAll] at hvalid

def sampleCoin : Coin :=
  ⟨⟨50 * COIN, [OP_DUP, OP_HASH160, 20] ++ List.replicate 20 0 ++ [OP_EQUALVERIFY, OP_CHECKSIG]⟩,
    201⟩

theorem coin_record_round_trip_sample :
    Secp256k1.rejectAll.Spec ∧ 0 ≤ sampleCoin.out.nValue ∧ sampleCoin.out.nValue ≤ MAX_MONEY ∧
      sampleCoin.out.scriptPubKey.length ≤ MAX_TX_SIZE_CONSENSUS_AFTER_GENESIS ∧
      ∃ bytes, sampleCoin.serialize Secp256k1.rejectAll = .ok bytes ∧
        ∀ rest, (sampleCoin.unserialize Secp256k1.rejectAll).run (bytes ++ rest) =
          .ok sampleCoin rest :=
  have h₀ : 0 ≤ sampleCoin.out.nValue := by decide
  have h₁ : sampleCoin.out.nValue ≤ MAX_MONEY := by decide
  have hs : sampleCoin.out.scriptPubKey.length ≤ MAX_TX_SIZE_CONSENSUS_AFTER_GENESIS := by decide
  ⟨Secp256k1.rejectAll_spec, h₀, h₁, hs,
    coin_record_round_trip Secp256k1.rejectAll_spec sampleCoin sampleCoin h₀ h₁ hs⟩

end TbcNode.Coins
