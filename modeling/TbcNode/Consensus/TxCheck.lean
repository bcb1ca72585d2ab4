import TbcNode.Logic.CheckedSum
import TbcNode.Coins.View
import TbcNode.Script.SigOps

/-! # The context-free and the input checks of a transaction (`validation.cpp`)

`CheckTransactionCommon` and `Consensus::CheckTxInputs` sum values in `checkedSum` loops. The first
checks each value before adding it, the second adds first; the maturity test subtracts an unsigned
height from a signed one, modulo `2 ^ 32`.
-/

namespace TbcNode.Consensus

open TbcNode.Logic TbcNode.Primitives TbcNode.Coins TbcNode.Script

def REJECT_INVALID : UInt8 := 0x10

def COINBASE_MATURITY : Nat := 1

/-- How a check ends when it does not accept. -/
inductive CheckFailure where
  /-- `state.DoS(nDoS, false, chRejectCode, strRejectReason)`, or `state.Invalid`, which leaves
  `nDoS` at 0; the check returns false. -/
  | rejected (nDoS : Nat) (chRejectCode : UInt8) (strRejectReason : String)
  /-- An exception that leaves the check. -/
  | thrown (e : Exception)
  /-- A failed `assert`. -/
  | assertFailed (expr : String)
  deriving DecidableEq, Repr

/-! ## `CheckTransactionCommon` -/

def getSizeOfCompactSize (nSize : Nat) : Nat :=
  if nSize < 253 then 1
  else if nSize ≤ 0xFFFF then 3
  else if nSize ≤ 0xFFFFFFFF then 5
  else 9

/-- What `CSizeComputer` counts for a script: its length as a compact size, then its bytes. -/
def scriptSerializeSize (script : CScript) : Nat := getSizeOfCompactSize script.length + script.length

/-- `GetSerializeSize(tx, SER_NETWORK, PROTOCOL_VERSION)`: the bytes `SerializeTransaction` writes,
counted by `CSizeComputer`, whose `WriteCompactSize` only counts and does not throw. An input is its
outpoint (32 and 4 bytes), its script and its sequence number; an output its amount and script. -/
def getSerializeSize (tx : CTransaction) : Nat :=
  4 + getSizeOfCompactSize tx.vin.length +
    (tx.vin.map fun txin => 36 + scriptSerializeSize txin.scriptSig + 4).sum +
    getSizeOfCompactSize tx.vout.length +
    (tx.vout.map fun txout => 8 + scriptSerializeSize txout.scriptPubKey).sum + 4

/-- The two loops of `GetSigOpCountWithoutP2SH`, over the input scripts and then the output
scripts: the count so far, and whether `GetSigOpCount` set `sigOpCountError`, which returns the
count at once. -/
def sigOpCountScripts (ssl : Openssl) (isGenesisEnabled : Bool) :
    Nat → List CScript → Except Exception (Nat × Bool)
  | nSigOps, [] => pure (nSigOps, false)
  | nSigOps, script :: rest => do
    let (n, sigOpCountError) ← getSigOpCount ssl false isGenesisEnabled script
    if sigOpCountError then pure (nSigOps + n, true)
    else sigOpCountScripts ssl isGenesisEnabled (nSigOps + n) rest

def getSigOpCountWithoutP2SH (ssl : Openssl) (tx : CTransaction) (isGenesisEnabled : Bool) :
    Except Exception (Nat × Bool) :=
  sigOpCountScripts ssl isGenesisEnabled 0
    (tx.vin.map CTxIn.scriptSig ++ tx.vout.map CTxOut.scriptPubKey)

/-- The checks of `CheckTransactionCommon` on an output's value before it is added. -/
def outputValueCheck (txout : CTxOut) : Option CheckFailure :=
  if txout.nValue < 0 then some (.rejected 100 REJECT_INVALID "bad-txns-vout-negative")
  else if txout.nValue > MAX_MONEY then some (.rejected 100 REJECT_INVALID "bad-txns-vout-toolarge")
  else none

/-- The check of `CheckTransactionCommon` on the total after each addition. -/
def outputTotalCheck (_ : CTxOut) (nValueOut : Amount) : Option CheckFailure :=
  if !moneyRange nValueOut then some (.rejected 100 REJECT_INVALID "bad-txns-txouttotal-toolarge")
  else none

/-- The loop of `CheckTransactionCommon` over `tx.vout`, from `nValueOut(0)`. -/
def checkOutputValues (vout : List CTxOut) : Except CheckFailure Amount :=
  checkedSum outputValueCheck CTxOut.nValue outputTotalCheck 0 vout

/-- The additions `nValueOut += txout.nValue` of that loop. -/
def outputAdditions (vout : List CTxOut) : List (Amount × Amount) :=
  checkedAdditions outputValueCheck CTxOut.nValue outputTotalCheck 0 vout

def checkTransactionCommon (ssl : Openssl) (tx : CTransaction)
    (maxTxSigOpsCountConsensusBeforeGenesis maxTxSizeConsensus : Nat) (isGenesisEnabled : Bool) :
    Except CheckFailure Unit := do
  if tx.vin.isEmpty then throw (.rejected 10 REJECT_INVALID "bad-txns-vin-empty")
  if tx.vout.isEmpty then throw (.rejected 10 REJECT_INVALID "bad-txns-vout-empty")
  if getSerializeSize tx > maxTxSizeConsensus then
    throw (.rejected 100 REJECT_INVALID "bad-txns-oversize")
  let _ ← checkOutputValues tx.vout
  if !isGenesisEnabled then
    match getSigOpCountWithoutP2SH ssl tx isGenesisEnabled with
    | .error e => throw (.thrown e)
    | .ok (nSigOpCount, sigOpCountError) =>
      if sigOpCountError || nSigOpCount > maxTxSigOpsCountConsensusBeforeGenesis then
        throw (.rejected 100 REJECT_INVALID "bad-txn-sigops")

theorem forall_moneyRange_take_iff {β : Type*} (v : β → Amount) (l : List β) :
    (∀ k ≤ l.length, moneyRange ((l.take k).map v).sum = true) ↔
      ∀ k < l.length, moneyRange ((l.take (k + 1)).map v).sum = true := by
  constructor
  · intro h k hk
    exact h (k + 1) hk
  · intro h k hk
    cases k with
    | zero => simp [moneyRange, MAX_MONEY, COIN]
    | succ k => exact h k hk

theorem outputValueCheck_eq_none_iff (txout : CTxOut) :
    outputValueCheck txout = none ↔ 0 ≤ txout.nValue ∧ txout.nValue ≤ MAX_MONEY := by
  unfold outputValueCheck
  split_ifs with hneg hbig
  · exact ⟨False.elim, fun h => absurd hneg (Int.not_lt.mpr h.1)⟩
  · exact ⟨False.elim, fun h => absurd hbig (Int.not_lt.mpr h.2)⟩
  · exact ⟨fun _ => ⟨Int.not_lt.mp hneg, Int.not_lt.mp hbig⟩, fun _ => rfl⟩

theorem outputTotalCheck_eq_none_iff (txout : CTxOut) (nValueOut : Amount) :
    outputTotalCheck txout nValueOut = none ↔ moneyRange nValueOut = true := by
  unfold outputTotalCheck
  cases moneyRange nValueOut <;> simp

theorem checkOutputValues_ok_iff (vout : List CTxOut) :
    (∃ nValueOut, checkOutputValues vout = .ok nValueOut) ↔
      (∀ txout ∈ vout, 0 ≤ txout.nValue ∧ txout.nValue ≤ MAX_MONEY) ∧
        ∀ k ≤ vout.length, moneyRange ((vout.take k).map CTxOut.nValue).sum = true := by
  rw [checkOutputValues, exists_checkedSum_eq_ok_iff, allPass_iff, forall_moneyRange_take_iff]
  simp only [outputValueCheck_eq_none_iff, outputTotalCheck_eq_none_iff, Int.zero_add]

theorem add_fits_of_moneyRange {a b : Amount} (ha : moneyRange a = true) (hb : moneyRange b = true) :
    -2 ^ 63 ≤ a + b ∧ a + b < 2 ^ 63 := by
  have ha' := (moneyRange_iff a).mp ha
  have hb' := (moneyRange_iff b).mp hb
  simp only [Amount, MAX_MONEY, COIN] at ha' hb' ⊢
  omega

theorem outputAdditions_fit (vout : List CTxOut) :
    ∀ p ∈ outputAdditions vout, -2 ^ 63 ≤ p.1 + p.2 ∧ p.1 + p.2 < 2 ^ 63 := by
  intro p hp
  obtain ⟨hsum, txout, -, hpre, hval⟩ :=
    forall_checkedAdditions (fun t => moneyRange t = true)
      (fun x t h => (outputTotalCheck_eq_none_iff x t).mp h) vout 0 (by decide) p hp
  rw [hval]
  exact add_fits_of_moneyRange hsum ((moneyRange_iff _).mpr ((outputValueCheck_eq_none_iff txout).mp hpre))

theorem checkTransactionCommon_outputs {ssl : Openssl} {tx : CTransaction} {nSigOps nSize : Nat}
    {isGenesisEnabled : Bool} (h : checkTransactionCommon ssl tx nSigOps nSize isGenesisEnabled = .ok ()) :
    ∃ nValueOut, checkOutputValues tx.vout = .ok nValueOut := by
  unfold checkTransactionCommon at h
  cases hout : checkOutputValues tx.vout with
  | ok nValueOut => exact ⟨nValueOut, rfl⟩
  | error e =>
    simp only [hout] at h
    split_ifs at h <;> simp_all [bind, Except.bind, throw, throwThe, MonadExceptOf.throw]

/-! ## `GetValueOut` -/

/-- The check `GetValueOut` and `CheckTxInputs` make after each addition, on the value added and
the new total, failing with `e`. -/
def moneyRangeCheck {ε : Type} (e : ε) (nValue nTotal : Amount) : Option ε :=
  if !moneyRange nValue || !moneyRange nTotal then some e else none

theorem moneyRangeCheck_eq_none_iff {ε : Type} (e : ε) (nValue nTotal : Amount) :
    moneyRangeCheck e nValue nTotal = none ↔ moneyRange nValue = true ∧ moneyRange nTotal = true := by
  unfold moneyRangeCheck
  cases moneyRange nValue <;> cases moneyRange nTotal <;> simp

/-- The check of `GetValueOut`, whose failure is its `runtime_error`. -/
def valueOutCheck (txout : CTxOut) (nValueOut : Amount) : Option String :=
  moneyRangeCheck "GetValueOut: value out of range" txout.nValue nValueOut

/-- The additions `nValueOut += it->nValue` of `GetValueOut`. -/
def valueOutAdditions (vout : List CTxOut) : List (Amount × Amount) :=
  checkedAdditions (fun _ => none) CTxOut.nValue valueOutCheck 0 vout

theorem valueOutFrom_eq_checkedSum (s : Amount) (vout : List CTxOut) :
    CTransaction.valueOutFrom s vout = checkedSum (fun _ => none) CTxOut.nValue valueOutCheck s vout := by
  induction vout generalizing s with
  | nil => rfl
  | cons txout rest ih =>
    unfold CTransaction.valueOutFrom checkedSum
    by_cases hc : (!moneyRange txout.nValue || !moneyRange (s + txout.nValue)) = true
    · have hv : valueOutCheck txout (s + txout.nValue) = some "GetValueOut: value out of range" :=
        if_pos hc
      simp only [hc, if_true, hv]
    · have hv : valueOutCheck txout (s + txout.nValue) = none := if_neg hc
      simp only [hc, Bool.false_eq_true, if_false, hv, ih]

theorem moneyRange_of_getValueOut {tx : CTransaction} {nValueOut : Amount}
    (h : tx.getValueOut = .ok nValueOut) : moneyRange nValueOut = true := by
  rw [CTransaction.getValueOut, valueOutFrom_eq_checkedSum] at h
  exact checkedSum_invariant (fun t => moneyRange t = true)
    (fun txout t ht => ((moneyRangeCheck_eq_none_iff _ _ _).mp ht).2) tx.vout 0 nValueOut (by decide) h

theorem valueOutAdditions_fit (vout : List CTxOut)
    (hvalues : ∀ txout ∈ vout, moneyRange txout.nValue = true) :
    ∀ p ∈ valueOutAdditions vout, -2 ^ 63 ≤ p.1 + p.2 ∧ p.1 + p.2 < 2 ^ 63 := by
  intro p hp
  obtain ⟨hsum, txout, htxout, -, hval⟩ :=
    forall_checkedAdditions (fun t => moneyRange t = true)
      (fun x t ht => ((moneyRangeCheck_eq_none_iff _ _ _).mp ht).2) vout 0 (by decide) p hp
  rw [hval]
  exact add_fits_of_moneyRange hsum (hvalues txout htxout)

/-! ## `CheckTxInputs` -/

/-- The checks of `CheckTxInputs` on the coin an input spends, before its value is added: the
`assert` that it is unspent, and for a coinbase coin its depth, computed in `uint32_t`. -/
def inputCoinCheck (inputs : CCoinsViewCache) (nSpendHeight : Int32) (txin : CTxIn) :
    Option CheckFailure :=
  let coin := inputs.accessCoin txin.prevout
  if coin.isSpent then some (.assertFailed "!coin.IsSpent()")
  else if coin.isCoinBase && decide ((nSpendHeight.toUInt32 - coin.getHeight).toNat < COINBASE_MATURITY)
  then some (.rejected 0 REJECT_INVALID "bad-txns-premature-spend-of-coinbase")
  else none

def inputValue (inputs : CCoinsViewCache) (txin : CTxIn) : Amount :=
  (inputs.accessCoin txin.prevout).out.nValue

/-- The check of `CheckTxInputs` after each addition, on the coin's value and the new total. -/
def inputValueCheck (inputs : CCoinsViewCache) (txin : CTxIn) (nValueIn : Amount) :
    Option CheckFailure :=
  moneyRangeCheck (.rejected 100 REJECT_INVALID "bad-txns-inputvalues-outofrange")
    (inputValue inputs txin) nValueIn

/-- The loop of `CheckTxInputs` over `tx.vin`, from `nValueIn(0)`. -/
def checkInputValues (inputs : CCoinsViewCache) (nSpendHeight : Int32) (vin : List CTxIn) :
    Except CheckFailure Amount :=
  checkedSum (inputCoinCheck inputs nSpendHeight) (inputValue inputs) (inputValueCheck inputs) 0 vin

/-- The additions `nValueIn += coin.GetTxOut().nValue` of that loop. -/
def inputAdditions (inputs : CCoinsViewCache) (nSpendHeight : Int32) (vin : List CTxIn) :
    List (Amount × Amount) :=
  checkedAdditions (inputCoinCheck inputs nSpendHeight) (inputValue inputs) (inputValueCheck inputs)
    0 vin

/-- `Consensus::CheckTxInputs`. `GetValueOut` is called again for the fee, with the same value;
its `runtime_error` leaves the check. `nFees` starts at 0. -/
def checkTxInputs (tx : CTransaction) (inputs : CCoinsViewCache) (nSpendHeight : Int32) :
    Except CheckFailure Unit := do
  if !inputs.haveInputs tx then throw (.rejected 0 0 "")
  let nValueIn ← checkInputValues inputs nSpendHeight tx.vin
  let nValueOut ← tx.getValueOut.mapError fun _ => .thrown .runtimeError
  if nValueIn < nValueOut then throw (.rejected 100 REJECT_INVALID "bad-txns-in-belowout")
  let nTxFee := nValueIn - nValueOut
  if nTxFee < 0 then throw (.rejected 100 REJECT_INVALID "bad-txns-fee-negative")
  let nFees := 0 + nTxFee
  if !moneyRange nFees then throw (.rejected 100 REJECT_INVALID "bad-txns-fee-outofrange")

theorem inputCoinCheck_eq_none_iff (inputs : CCoinsViewCache) (nSpendHeight : Int32) (txin : CTxIn) :
    inputCoinCheck inputs nSpendHeight txin = none ↔
      (inputs.accessCoin txin.prevout).isSpent = false ∧
        ((inputs.accessCoin txin.prevout).isCoinBase = true →
          COINBASE_MATURITY ≤
            (nSpendHeight.toUInt32 - (inputs.accessCoin txin.prevout).getHeight).toNat) := by
  unfold inputCoinCheck
  dsimp only
  split_ifs with hspent hmature
  · simp [hspent]
  · rw [Bool.and_eq_true, decide_eq_true_eq] at hmature
    simp only [false_iff, not_and]
    exact fun _ h => Nat.not_le.mpr hmature.2 (h hmature.1)
  · rw [Bool.and_eq_true, decide_eq_true_eq, not_and, Nat.not_lt] at hmature
    simp only [true_iff]
    exact ⟨Bool.eq_false_iff.mpr hspent, hmature⟩

theorem checkInputValues_eq_ok_iff (inputs : CCoinsViewCache) (nSpendHeight : Int32)
    (vin : List CTxIn) (nValueIn : Amount) :
    checkInputValues inputs nSpendHeight vin = .ok nValueIn ↔
      (∀ txin ∈ vin, inputCoinCheck inputs nSpendHeight txin = none ∧
        moneyRange (inputValue inputs txin) = true) ∧
      (∀ k ≤ vin.length, moneyRange ((vin.take k).map (inputValue inputs)).sum = true) ∧
      nValueIn = (vin.map (inputValue inputs)).sum := by
  rw [checkInputValues, checkedSum_eq_ok_iff, allPass_iff, forall_moneyRange_take_iff]
  simp only [inputValueCheck, moneyRangeCheck_eq_none_iff, Int.zero_add]
  constructor
  · rintro ⟨⟨hpre, hpost⟩, rfl⟩
    refine ⟨fun txin htxin => ⟨hpre txin htxin, ?_⟩, fun k hk => (hpost k hk).2, rfl⟩
    obtain ⟨k, hk, rfl⟩ := List.getElem_of_mem htxin
    exact (hpost k hk).1
  · rintro ⟨hcoins, hsums, rfl⟩
    exact ⟨⟨fun txin htxin => (hcoins txin htxin).1,
      fun k hk => ⟨(hcoins _ (List.getElem_mem hk)).2, hsums k hk⟩⟩, rfl⟩

theorem moneyRange_of_checkInputValues {inputs : CCoinsViewCache} {nSpendHeight : Int32}
    {vin : List CTxIn} {nValueIn : Amount} (h : checkInputValues inputs nSpendHeight vin = .ok nValueIn) :
    moneyRange nValueIn = true :=
  checkedSum_invariant (fun t => moneyRange t = true)
    (fun txin t ht => ((moneyRangeCheck_eq_none_iff _ _ _).mp ht).2) vin 0 nValueIn (by decide) h

theorem checkTxInputs_eq_ok_iff (tx : CTransaction) (inputs : CCoinsViewCache) (nSpendHeight : Int32) :
    checkTxInputs tx inputs nSpendHeight = .ok () ↔
      inputs.haveInputs tx = true ∧
        ∃ nValueIn, checkInputValues inputs nSpendHeight tx.vin = .ok nValueIn ∧
          ∃ nValueOut, tx.getValueOut = .ok nValueOut ∧ nValueOut ≤ nValueIn := by
  unfold checkTxInputs
  cases hhave : inputs.haveInputs tx with
  | false => simp only [Bool.not_false, if_true, Bool.false_eq_true, false_and, iff_false]; exact throw_bind_ne_ok
  | true =>
    simp only [Bool.not_true, Bool.false_eq_true, if_false, true_and, bind_eq_ok_iff, mapError_eq_ok_iff]
    refine exists_congr fun nValueIn => and_congr_right fun hin => exists_congr fun nValueOut =>
      and_congr_right fun hout => ?_
    have hinr := (moneyRange_iff _).mp (moneyRange_of_checkInputValues hin)
    have houtr := (moneyRange_iff _).mp (moneyRange_of_getValueOut hout)
    by_cases hlt : nValueIn < nValueOut
    · rw [if_pos hlt]
      exact ⟨fun h => absurd h throw_bind_ne_ok, fun hle => absurd hlt (Int.not_lt.mpr hle)⟩
    · have hfee : ¬ nValueIn - nValueOut < 0 := by
        simp only [Amount] at *
        omega
      have hfees : moneyRange (0 + (nValueIn - nValueOut)) = true := by
        rw [moneyRange_iff]
        simp only [Amount, MAX_MONEY, COIN] at *
        omega
      rw [if_neg hlt, if_neg hfee, hfees]
      exact ⟨fun _ => Int.not_lt.mp hlt, fun _ => rfl⟩

theorem inputAdditions_fit (inputs : CCoinsViewCache) (nSpendHeight : Int32) (vin : List CTxIn)
    (hvalues : ∀ txin ∈ vin, moneyRange (inputValue inputs txin) = true) :
    ∀ p ∈ inputAdditions inputs nSpendHeight vin, -2 ^ 63 ≤ p.1 + p.2 ∧ p.1 + p.2 < 2 ^ 63 := by
  intro p hp
  obtain ⟨hsum, txin, htxin, -, hval⟩ :=
    forall_checkedAdditions (fun t => moneyRange t = true)
      (fun x t ht => ((moneyRangeCheck_eq_none_iff _ _ _).mp ht).2) vin 0 (by decide) p hp
  rw [hval]
  exact add_fits_of_moneyRange hsum (hvalues txin htxin)

/-- The value checks: the output loop of `CheckTransactionCommon` accepts exactly the outputs in
the money range whose running total stays in it, and none of its additions leaves `int64_t`;
`CheckTxInputs` accepts exactly when every coin is unspent, a coinbase coin is at a depth, taken
modulo `2 ^ 32`, of at least `COINBASE_MATURITY`, the values and running total of the inputs are in
the money range and `GetValueOut` returns at most that total; the additions of `CheckTxInputs` and
`GetValueOut` stay in `int64_t` while the values they add are in the money range. -/
theorem transaction_value_checks :
    (∀ vout : List CTxOut,
      ((∃ nValueOut, checkOutputValues vout = .ok nValueOut) ↔
        (∀ txout ∈ vout, 0 ≤ txout.nValue ∧ txout.nValue ≤ MAX_MONEY) ∧
          ∀ k ≤ vout.length, moneyRange ((vout.take k).map CTxOut.nValue).sum = true) ∧
      ∀ p ∈ outputAdditions vout, -2 ^ 63 ≤ p.1 + p.2 ∧ p.1 + p.2 < 2 ^ 63) ∧
    ∀ (tx : CTransaction) (inputs : CCoinsViewCache) (nSpendHeight : Int32),
      (checkTxInputs tx inputs nSpendHeight = .ok () ↔
        (∀ txin ∈ tx.vin, (inputs.accessCoin txin.prevout).isSpent = false ∧
          ((inputs.accessCoin txin.prevout).isCoinBase = true →
            COINBASE_MATURITY ≤
              (nSpendHeight.toUInt32 - (inputs.accessCoin txin.prevout).getHeight).toNat) ∧
          moneyRange (inputValue inputs txin) = true) ∧
        (∀ k ≤ tx.vin.length, moneyRange ((tx.vin.take k).map (inputValue inputs)).sum = true) ∧
        ∃ nValueOut, tx.getValueOut = .ok nValueOut ∧
          nValueOut ≤ (tx.vin.map (inputValue inputs)).sum) ∧
      ((∀ txin ∈ tx.vin, moneyRange (inputValue inputs txin) = true) →
        ∀ p ∈ inputAdditions inputs nSpendHeight tx.vin, -2 ^ 63 ≤ p.1 + p.2 ∧ p.1 + p.2 < 2 ^ 63) ∧
      ((∀ txout ∈ tx.vout, moneyRange txout.nValue = true) →
        ∀ p ∈ valueOutAdditions tx.vout, -2 ^ 63 ≤ p.1 + p.2 ∧ p.1 + p.2 < 2 ^ 63) := by
  refine ⟨fun vout => ⟨checkOutputValues_ok_iff vout, outputAdditions_fit vout⟩,
    fun tx inputs nSpendHeight =>
      ⟨?_, inputAdditions_fit inputs nSpendHeight tx.vin, valueOutAdditions_fit tx.vout⟩⟩
  rw [checkTxInputs_eq_ok_iff]
  constructor
  · rintro ⟨-, nValueIn, hin, nValueOut, hout, hle⟩
    obtain ⟨hcoins, hsums, rfl⟩ :=
      (checkInputValues_eq_ok_iff inputs nSpendHeight tx.vin nValueIn).mp hin
    refine ⟨fun txin htxin => ?_, hsums, nValueOut, hout, hle⟩
    obtain ⟨hcoin, hvalue⟩ := hcoins txin htxin
    obtain ⟨hunspent, hmature⟩ := (inputCoinCheck_eq_none_iff inputs nSpendHeight txin).mp hcoin
    exact ⟨hunspent, hmature, hvalue⟩
  · rintro ⟨hcoins, hsums, nValueOut, hout, hle⟩
    have hin : checkInputValues inputs nSpendHeight tx.vin = .ok (tx.vin.map (inputValue inputs)).sum :=
      (checkInputValues_eq_ok_iff inputs nSpendHeight tx.vin _).mpr
        ⟨fun txin htxin => ⟨(inputCoinCheck_eq_none_iff inputs nSpendHeight txin).mpr
          ⟨(hcoins txin htxin).1, (hcoins txin htxin).2.1⟩, (hcoins txin htxin).2.2⟩, hsums, rfl⟩
    exact ⟨inputs.haveInputs_of_forall fun txin htxin => (hcoins txin htxin).1,
      _, hin, nValueOut, hout, hle⟩

/-- A view with a coinbase coin of one satoshi at height 1 (outpoint index 0) and a coin of the
largest `int64_t` value (index 1). At spend height 0 the coinbase coin passes the maturity test,
its depth `0 - 1` wrapping to `2 ^ 32 - 1`; spending both coins, the second addition of the input
loop is `1 + (2 ^ 63 - 1)`, past `int64_t`. -/
theorem transaction_value_checks_wrap :
    checkTxInputs ⟨1, [⟨⟨Vector.replicate 32 1, 0⟩, [], 0⟩], [⟨1, []⟩], 0, Vector.replicate 32 0⟩
        ⟨fun o => if o.n = 0 then some ⟨⟨1, []⟩, 3⟩ else if o.n = 1 then some ⟨⟨2 ^ 63 - 1, []⟩, 2⟩
          else none⟩ 0 = .ok () ∧
      (0 : Int) - ((3 : UInt32) >>> 1).toNat < COINBASE_MATURITY ∧
      ((1 : Int), (2 ^ 63 - 1 : Int)) ∈
        inputAdditions ⟨fun o => if o.n = 0 then some ⟨⟨1, []⟩, 3⟩
          else if o.n = 1 then some ⟨⟨2 ^ 63 - 1, []⟩, 2⟩ else none⟩ 0
          [⟨⟨Vector.replicate 32 1, 0⟩, [], 0⟩, ⟨⟨Vector.replicate 32 1, 1⟩, [], 0⟩] ∧
      ¬ ((1 : Int) + (2 ^ 63 - 1) < 2 ^ 63) := by
  decide

end TbcNode.Consensus
