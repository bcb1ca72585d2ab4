import TbcNode.Coins.Undo
import TbcNode.Coins.CacheRun
import TbcNode.Logic.Writes

/-! # What connecting a block does to the UTXO set

Against the map a view stands for, connecting a transaction is a run of writes (`connectTx`), and
its undo record holds the coins its inputs spent (`txUndo`). `connectBlockCoins` refines this and
fails only where `HaveInputs` does, under `TxConnectOk` (`connectBlockCoins_spec`).
-/

namespace TbcNode.Coins.Cache

open TbcNode.Primitives TbcNode.Net TbcNode.Logic DisconnectResult

variable {σ : Type} {V : CCoinsView σ} {I : σ → Prop} {D : σ → COutPoint → Option Coin}

theorem Reads.eq_of_some {found : Option Coin} {coin : Coin} (h : Reads found (some coin)) :
    found = some coin := by
  have hb := h.unspent_eq
  obtain ⟨coin', rfl, hc⟩ := Option.bind_eq_some_iff.mp hb
  unfold unspent at hc
  split at hc
  · cases hc
  · rw [Option.some.inj hc]

/-! ### The view and its calls -/

namespace Top

/-- The base is well formed, and so is every cache over the ones below it. -/
def Wf (I : σ → Prop) (D : σ → COutPoint → Option Coin) (t : Top σ) : Prop :=
  I t.base ∧ Cache.Wf D t.base (t.cache :: t.below)

def coins (D : σ → COutPoint → Option Coin) (t : Top σ) : COutPoint → Option Coin :=
  Cache.view D t.base (t.cache :: t.below)

@[simp] theorem wf_setBestBlock {t : Top σ} {hashBlock : uint256} :
    (t.setBestBlock hashBlock).Wf I D ↔ t.Wf I D := Iff.rfl

@[simp] theorem coins_setBestBlock (t : Top σ) (hashBlock : uint256) :
    (t.setBestBlock hashBlock).coins D = t.coins D := rfl

@[simp] theorem hashBlock_setBestBlock (t : Top σ) (hashBlock : uint256) :
    (t.setBestBlock hashBlock).cache.hashBlock = hashBlock := rfl

theorem haveCoin_spec (hV : V.Spec I D) {t t' : Top σ} (ht : t.Wf I D) {outpoint : COutPoint}
    {found : Bool} (h : t.haveCoin V outpoint = (found, t')) :
    found = (t.coins D outpoint).isSome ∧ t'.Wf I D ∧ t'.coins D = t.coins D := by
  have hf := fetchCoin_fetched hV ht.1 ht.2 outpoint
  have hhave := haveCoin_eq hV ht.1 ht.2 outpoint
  rcases hfc : fetchCoin V t.base t.cache t.below outpoint with ⟨entry, cache', below'⟩
  rw [hfc] at hf
  simp only [Top.haveCoin, Cache.haveCoin, hfc, Prod.mk.injEq] at h hhave
  obtain ⟨rfl, rfl⟩ := h
  exact ⟨hhave, ⟨ht.1, hf.wf⟩, hf.view_eq⟩

theorem accessCoin_spec (hV : V.Spec I D) {t t' : Top σ} (ht : t.Wf I D) {outpoint : COutPoint}
    {coin : Coin} (h : t.accessCoin V outpoint = (coin, t')) :
    coin = (t.coins D outpoint).getD coinEmpty ∧ t'.Wf I D ∧ t'.coins D = t.coins D := by
  have hf := fetchCoin_fetched hV ht.1 ht.2 outpoint
  have hacc := accessCoin_eq hV ht.1 ht.2 outpoint
  rcases hfc : fetchCoin V t.base t.cache t.below outpoint with ⟨entry, cache', below'⟩
  rw [hfc] at hf
  simp only [Top.accessCoin, Cache.accessCoin, hfc, Prod.mk.injEq] at h hacc
  obtain ⟨rfl, rfl⟩ := h
  exact ⟨hacc, ⟨ht.1, hf.wf⟩, hf.view_eq⟩

theorem spendCoin_spec (hV : V.Spec I D) {t t' : Top σ} (ht : t.Wf I D) {outpoint : COutPoint}
    {found : Bool} {moveout : Option Coin} (h : t.spendCoin V outpoint = (found, moveout, t')) :
    t'.Wf I D ∧ t'.coins D = Function.update (t.coins D) outpoint none ∧
      Reads moveout (t.coins D outpoint) ∧ found = moveout.isSome := by
  rcases hs : Cache.spendCoin V t.base t.cache t.below outpoint with
    ⟨found', moveout', cache', below'⟩
  obtain ⟨hw, hv, -, hr, hfound⟩ := Cache.spendCoin_spec hV ht.1 ht.2 outpoint hs
  simp only [Top.spendCoin, hs, Prod.mk.injEq] at h
  obtain ⟨rfl, rfl, rfl⟩ := h
  exact ⟨⟨ht.1, hw⟩, hv, hr, hfound⟩

theorem addCoin_spec {t : Top σ} (ht : t.Wf I D) {outpoint : COutPoint} {coin : Coin}
    {possible_overwrite : Bool} (genesisActivationHeight : Nat) (hcoin : coin.isSpent = false)
    (hpo : possible_overwrite = false → t.coins D outpoint = none) :
    ∃ t', t.addCoin outpoint coin possible_overwrite genesisActivationHeight = .ok t' ∧
      t'.Wf I D ∧
      t'.coins D =
        if isUnspendable coin.out.scriptPubKey (coin.getHeight.toNat ≥ genesisActivationHeight)
        then t.coins D
        else Function.update (t.coins D) outpoint (some coin) := by
  obtain ⟨hc, hwb⟩ := wf_cons.mp ht.2
  obtain ⟨cache', hadd, hc', hover⟩ :=
    CCoinsViewCache.addCoin_spec hc genesisActivationHeight hcoin hpo
  exact ⟨{ t with cache := cache' }, by simp [Top.addCoin, hadd, bind, Except.bind, pure,
    Except.pure], ⟨ht.1, hc', hwb⟩, hover⟩

theorem haveInputsFrom_spec (hV : V.Spec I D) :
    ∀ (inputs : List CTxIn) {t t' : Top σ} {found : Bool}, t.Wf I D →
      t.haveInputsFrom V inputs = (found, t') →
      found = inputs.all (fun txin => (t.coins D txin.prevout).isSome) ∧ t'.Wf I D ∧
        t'.coins D = t.coins D
  | [], t, t', found, ht, h => by
    simp only [haveInputsFrom, Prod.mk.injEq] at h
    obtain ⟨rfl, rfl⟩ := h
    exact ⟨rfl, ht, rfl⟩
  | input :: rest, t, t', found, ht, h => by
    rcases hh : t.haveCoin V input.prevout with ⟨have₁, t₁⟩
    obtain ⟨hfound, ht₁, hcoins⟩ := haveCoin_spec hV ht hh
    cases have₁ with
    | true =>
      simp only [haveInputsFrom, hh] at h
      obtain ⟨hrest, ht', hcoins'⟩ := haveInputsFrom_spec hV rest ht₁ h
      refine ⟨?_, ht', hcoins'.trans hcoins⟩
      rw [hrest, hcoins, List.all_cons, ← hfound, Bool.true_and]
    | false =>
      simp only [haveInputsFrom, hh, Prod.mk.injEq] at h
      obtain ⟨rfl, rfl⟩ := h
      exact ⟨by rw [List.all_cons, ← hfound, Bool.false_and], ht₁, hcoins⟩

theorem haveInputs_spec (hV : V.Spec I D) {t t' : Top σ} (ht : t.Wf I D) {tx : CTransaction}
    {found : Bool} (h : t.haveInputs V tx = (found, t')) :
    found = (tx.isCoinBase || tx.vin.all fun txin => (t.coins D txin.prevout).isSome) ∧
      t'.Wf I D ∧ t'.coins D = t.coins D := by
  unfold haveInputs at h
  cases hcb : tx.isCoinBase with
  | true =>
    simp only [hcb, if_true, Prod.mk.injEq] at h
    obtain ⟨rfl, rfl⟩ := h
    exact ⟨rfl, ht, rfl⟩
  | false =>
    simp only [hcb, Bool.false_eq_true, if_false] at h
    obtain ⟨hfound, ht', hcoins⟩ := haveInputsFrom_spec hV tx.vin ht h
    exact ⟨by rw [hfound, Bool.false_or], ht', hcoins⟩

theorem addCoin_of_unspendable (t : Top σ) {outpoint : COutPoint} {coin : Coin}
    (possible_overwrite : Bool) {genesisActivationHeight : Nat} (hcoin : coin.isSpent = false)
    (hu : isUnspendable coin.out.scriptPubKey
      (coin.getHeight.toNat ≥ genesisActivationHeight) = true) :
    t.addCoin outpoint coin possible_overwrite genesisActivationHeight = .ok t := by
  simp [addCoin, CCoinsViewCache.addCoin, hcoin, hu, bind, Except.bind, pure, Except.pure]

end Top

/-! ### Heights -/

theorem getHeight_make (outIn : CTxOut) (nHeightIn : UInt32) (isCoinbase : Bool) :
    (Coin.make outIn nHeightIn isCoinbase).getHeight.toNat = nHeightIn.toNat % 2 ^ 31 := by
  unfold Coin.make Coin.getHeight
  rw [UInt32.toNat_shiftRight, UInt32.toNat_or, UInt32.toNat_shiftLeft,
    Nat.shiftRight_or_distrib]
  cases isCoinbase <;> simp <;> omega

theorem toNat_toUInt32_of_nonneg {n : Int32} (h : 0 ≤ n.toInt) :
    (n.toUInt32.toNat : Int) = n.toInt := by
  have hlt := n.toInt_lt
  rw [Int32.toInt, BitVec.toInt_eq_toNat_cond] at h hlt ⊢
  simp only [UInt32.toNat, Int32.toBitVec_toUInt32]
  split at h <;> split at hlt <;> split <;> omega

theorem getHeight_make_of_nonneg (outIn : CTxOut) {nHeight : Int32} (h : 0 ≤ nHeight.toInt)
    (isCoinbase : Bool) :
    (Coin.make outIn nHeight.toUInt32 isCoinbase).getHeight.toNat = nHeight.toUInt32.toNat := by
  have hh := toNat_toUInt32_of_nonneg h
  have hlt := nHeight.toInt_lt
  rw [getHeight_make]
  omega

theorem isGenesisEnabled_eq {nHeight : Int32} (h : 0 ≤ nHeight.toInt)
    (hm : nHeight.toUInt32 ≠ MEMPOOL_HEIGHT) (genesisActivationHeight : Nat) :
    isGenesisEnabled genesisActivationHeight nHeight =
      .ok (decide (nHeight.toUInt32.toNat ≥ genesisActivationHeight)) := by
  have hh := toNat_toUInt32_of_nonneg h
  have hlt := nHeight.toInt_lt
  have hmod : (nHeight.toInt % 2 ^ 64).toNat = nHeight.toUInt32.toNat := by omega
  unfold isGenesisEnabled
  rw [if_neg (by simpa using hm), hmod]
  rfl

/-! ### The UTXO set a block is connected to -/

section Abstract

variable (genesisActivationHeight : Nat) (nHeight : UInt32)

/-- The coins `AddCoins` writes for the outputs from index `i` of the transaction `txid`: each
output as a coin at `nHeight`, at its outpoint, but those unspendable at that height. -/
def addedCoins (txid : uint256) (fCoinbase : Bool) :
    Nat → List CTxOut → List (COutPoint × Coin)
  | _, [] => []
  | i, txout :: rest =>
    if isUnspendable txout.scriptPubKey
        ((Coin.make txout nHeight fCoinbase).getHeight.toNat ≥ genesisActivationHeight) then
      addedCoins txid fCoinbase (i + 1) rest
    else
      (⟨txid, UInt32.ofNat i⟩, Coin.make txout nHeight fCoinbase) ::
        addedCoins txid fCoinbase (i + 1) rest

/-- The UTXO set once the inputs of `tx` are spent; a coinbase spends none. -/
def spendTx (U : COutPoint → Option Coin) (tx : CTransaction) : COutPoint → Option Coin :=
  if tx.isCoinBase then U else writeAll U (tx.vin.map fun txin => (txin.prevout, none))

/-- The UTXO set once `tx` is connected at `nHeight`: its inputs spent, then its coins added. -/
def connectTx (U : COutPoint → Option Coin) (tx : CTransaction) : COutPoint → Option Coin :=
  writeAll (spendTx U tx)
    ((addedCoins genesisActivationHeight nHeight tx.getId tx.isCoinBase 0 tx.vout).map
      fun p => (p.1, some p.2))

/-- The undo record of `tx` connected to `U`: the coins its inputs spend. -/
def txUndo (U : COutPoint → Option Coin) (tx : CTransaction) : CTxUndo :=
  ⟨if tx.isCoinBase then [] else tx.vin.map fun txin => (U txin.prevout).getD coinEmpty⟩

/-- Whether `HaveInputs` of `tx` holds against `U`. -/
def inputsFound (U : COutPoint → Option Coin) (tx : CTransaction) : Bool :=
  tx.isCoinBase || tx.vin.all fun txin => (U txin.prevout).isSome

/-- The UTXO set after the transactions, one after another. -/
def connectAll : (COutPoint → Option Coin) → List CTransaction → COutPoint → Option Coin
  | U, [] => U
  | U, tx :: rest => connectAll (connectTx genesisActivationHeight nHeight U tx) rest

/-- The undo records of the transactions, each against the UTXO set it is connected to. -/
def undoAll : (COutPoint → Option Coin) → List CTransaction → List CTxUndo
  | _, [] => []
  | U, tx :: rest => txUndo U tx :: undoAll (connectTx genesisActivationHeight nHeight U tx) rest

/-- Whether every transaction passes `HaveInputs` at its turn. -/
def allInputsFound : (COutPoint → Option Coin) → List CTransaction → Bool
  | _, [] => true
  | U, tx :: rest =>
    inputsFound U tx && allInputsFound (connectTx genesisActivationHeight nHeight U tx) rest

/-- What connecting `tx` to `U` relies on beyond `HaveInputs`: the checks of `CheckTransaction`
that its inputs are distinct and that no output is null, fewer than 2^32 outputs, and BIP30: no
coin it adds is there once its inputs are spent. -/
structure TxConnectOk (U : COutPoint → Option Coin) (tx : CTransaction) : Prop where
  inputs_nodup : (tx.vin.map (·.prevout)).Nodup
  outputs_not_null : ∀ txout ∈ tx.vout, txout.isNull = false
  outputs_length : tx.vout.length ≤ 2 ^ 32
  outputs_new : ∀ p ∈ addedCoins genesisActivationHeight nHeight tx.getId tx.isCoinBase 0 tx.vout,
    spendTx U tx p.1 = none

/-- `TxConnectOk` of every transaction at its turn. -/
def ConnectOk : (COutPoint → Option Coin) → List CTransaction → Prop
  | _, [] => True
  | U, tx :: rest =>
    TxConnectOk genesisActivationHeight nHeight U tx ∧
      ConnectOk (connectTx genesisActivationHeight nHeight U tx) rest

@[simp] theorem length_undoAll :
    ∀ (U : COutPoint → Option Coin) (txs : List CTransaction),
      (undoAll genesisActivationHeight nHeight U txs).length = txs.length
  | _, [] => rfl
  | U, _ :: rest => by simp [undoAll, length_undoAll _ rest]

end Abstract

section Added

variable {genesisActivationHeight : Nat} {nHeight : UInt32} {txid : uint256} {fCoinbase : Bool}

theorem mem_addedCoins :
    ∀ {i : Nat} {outs : List CTxOut} {p : COutPoint × Coin},
      p ∈ addedCoins genesisActivationHeight nHeight txid fCoinbase i outs →
      (∃ j, i ≤ j ∧ j < i + outs.length ∧ p.1 = ⟨txid, UInt32.ofNat j⟩) ∧
        (∃ txout ∈ outs, p.2 = Coin.make txout nHeight fCoinbase) ∧
        isUnspendable p.2.out.scriptPubKey (p.2.getHeight.toNat ≥ genesisActivationHeight) = false
  | _, [], _, hp => by simp [addedCoins] at hp
  | i, txout :: rest, p, hp => by
    have hrest : p ∈ addedCoins genesisActivationHeight nHeight txid fCoinbase (i + 1) rest →
        (∃ j, i ≤ j ∧ j < i + (txout :: rest).length ∧ p.1 = ⟨txid, UInt32.ofNat j⟩) ∧
        (∃ txout' ∈ txout :: rest, p.2 = Coin.make txout' nHeight fCoinbase) ∧
        isUnspendable p.2.out.scriptPubKey (p.2.getHeight.toNat ≥ genesisActivationHeight) =
          false := fun hp => by
      obtain ⟨⟨j, hj, hj', hk⟩, ⟨txout', hm, hc⟩, hs⟩ := mem_addedCoins hp
      exact ⟨⟨j, by omega, by simp; omega, hk⟩, ⟨txout', List.mem_cons_of_mem _ hm, hc⟩, hs⟩
    unfold addedCoins at hp
    by_cases hs : isUnspendable txout.scriptPubKey
        ((Coin.make txout nHeight fCoinbase).getHeight.toNat ≥ genesisActivationHeight) = true
    · rw [if_pos hs] at hp
      exact hrest hp
    · rw [if_neg hs] at hp
      rcases List.mem_cons.mp hp with rfl | hp
      · exact ⟨⟨i, le_rfl, by simp, rfl⟩, ⟨txout, List.mem_cons_self, rfl⟩,
          Bool.eq_false_iff.mpr hs⟩
      · exact hrest hp

theorem nodup_addedCoins :
    ∀ {i : Nat} {outs : List CTxOut}, i + outs.length ≤ 2 ^ 32 →
      ((addedCoins genesisActivationHeight nHeight txid fCoinbase i outs).map Prod.fst).Nodup
  | _, [], _ => by simp [addedCoins]
  | i, txout :: rest, h => by
    have hrest : ((addedCoins genesisActivationHeight nHeight txid fCoinbase (i + 1) rest).map
        Prod.fst).Nodup :=
      nodup_addedCoins (by simp at h; omega)
    unfold addedCoins
    split
    · exact hrest
    · refine List.nodup_cons.mpr ⟨fun hmem => ?_, hrest⟩
      obtain ⟨p, hp, hk⟩ := List.mem_map.mp hmem
      obtain ⟨⟨j, hj, hj', hpk⟩, -, -⟩ := mem_addedCoins hp
      rw [hk] at hpk
      have hn := congrArg (fun o : COutPoint => o.n.toNat) hpk
      simp only [UInt32.toNat_ofNat'] at hn
      simp at h
      rw [Nat.mod_eq_of_lt (by omega), Nat.mod_eq_of_lt (by omega)] at hn
      omega

theorem isSpent_of_mem_addedCoins {i : Nat} {outs : List CTxOut}
    (hnull : ∀ txout ∈ outs, txout.isNull = false) {p : COutPoint × Coin}
    (hp : p ∈ addedCoins genesisActivationHeight nHeight txid fCoinbase i outs) :
    p.2.isSpent = false := by
  obtain ⟨-, ⟨txout, hm, hc⟩, -⟩ := mem_addedCoins hp
  rw [hc]
  exact hnull txout hm

end Added

/-! ### The loops of `ConnectBlock` -/

section Connect

theorem overwrite_spec (hV : V.Spec I D) {t t' : Top σ} (ht : t.Wf I D) (check fCoinbase : Bool)
    (outpoint : COutPoint) {overwrite : Bool}
    (h : (if check then t.haveCoin V outpoint else (fCoinbase, t)) = (overwrite, t')) :
    t'.Wf I D ∧ t'.coins D = t.coins D ∧
      overwrite = if check then (t.coins D outpoint).isSome else fCoinbase := by
  cases check with
  | true =>
    obtain ⟨hfound, ht', hcoins⟩ := Top.haveCoin_spec hV ht h
    exact ⟨ht', hcoins, hfound⟩
  | false =>
    simp only [Bool.false_eq_true, if_false, Prod.mk.injEq] at h
    obtain ⟨rfl, rfl⟩ := h
    exact ⟨ht, rfl, rfl⟩

theorem addCoinsFrom_spec (hV : V.Spec I D) {txid : uint256} {fCoinbase : Bool}
    {nHeight : UInt32} {genesisActivationHeight : Nat} {check : Bool} :
    ∀ (i : Nat) (outs : List CTxOut) {t : Top σ}, t.Wf I D →
      (∀ txout ∈ outs, txout.isNull = false) →
      ((addedCoins genesisActivationHeight nHeight txid fCoinbase i outs).map Prod.fst).Nodup →
      (check = false → fCoinbase = false →
        ∀ p ∈ addedCoins genesisActivationHeight nHeight txid fCoinbase i outs,
          t.coins D p.1 = none) →
      ∃ t', addCoinsFrom V txid fCoinbase nHeight genesisActivationHeight check i outs t =
          .ok t' ∧ t'.Wf I D ∧
        t'.coins D = writeAll (t.coins D)
          ((addedCoins genesisActivationHeight nHeight txid fCoinbase i outs).map
            fun p => (p.1, some p.2))
  | _, [], t, ht, _, _, _ => ⟨t, rfl, ht, rfl⟩
  | i, txout :: rest, t, ht, hnull, hn, hpo => by
    have hcoin : (Coin.make txout nHeight fCoinbase).isSpent = false :=
      hnull txout List.mem_cons_self
    have hnull' : ∀ txout ∈ rest, txout.isNull = false := fun txout h =>
      hnull txout (List.mem_cons_of_mem _ h)
    rcases hov : (if check then t.haveCoin V ⟨txid, UInt32.ofNat i⟩ else (fCoinbase, t)) with
      ⟨overwrite, t₁⟩
    obtain ⟨ht₁, hc₁, hovr⟩ := overwrite_spec hV ht check fCoinbase _ hov
    unfold addedCoins at hn hpo ⊢
    simp only [addCoinsFrom, hov]
    by_cases hu : isUnspendable txout.scriptPubKey
        ((Coin.make txout nHeight fCoinbase).getHeight.toNat ≥ genesisActivationHeight) = true
    · rw [if_pos hu] at hn hpo ⊢
      rw [Top.addCoin_of_unspendable t₁ overwrite hcoin hu]
      obtain ⟨t₂, h₂, ht₂, hc₂⟩ := addCoinsFrom_spec hV (i + 1) rest ht₁ hnull' hn
        fun hchk hcb p hp => by rw [hc₁]; exact hpo hchk hcb p hp
      exact ⟨t₂, h₂, ht₂, by rw [hc₂, hc₁]⟩
    · rw [if_neg hu] at hn hpo ⊢
      rw [List.map_cons, List.nodup_cons] at hn
      have hpo₁ : overwrite = false → t₁.coins D ⟨txid, UInt32.ofNat i⟩ = none := fun hf => by
        rw [hc₁]
        cases check with
        | true => simpa [hf] using hovr
        | false => exact hpo rfl (by simpa [hf] using hovr.symm) _ List.mem_cons_self
      obtain ⟨t₂, hadd, ht₂, hc₂⟩ := Top.addCoin_spec ht₁ genesisActivationHeight hcoin hpo₁
      rw [if_neg (show ¬isUnspendable (Coin.make txout nHeight fCoinbase).out.scriptPubKey
        ((Coin.make txout nHeight fCoinbase).getHeight.toNat ≥ genesisActivationHeight) = true
        from hu), hc₁] at hc₂
      have hother : ∀ p ∈ addedCoins genesisActivationHeight nHeight txid fCoinbase (i + 1) rest,
          t₂.coins D p.1 = t.coins D p.1 := fun p hp => by
        rw [hc₂, Function.update_of_ne]
        intro heq
        have hmem := List.mem_map_of_mem (f := Prod.fst) hp
        rw [heq] at hmem
        exact hn.1 hmem
      obtain ⟨t₃, h₃, ht₃, hc₃⟩ := addCoinsFrom_spec hV (i + 1) rest ht₂ hnull' hn.2
        fun hchk hcb p hp => by
          rw [hother p hp]
          exact hpo hchk hcb p (List.mem_cons_of_mem _ hp)
      refine ⟨t₃, by rw [hadd]; exact h₃, ht₃, ?_⟩
      rw [hc₃, hc₂, List.map_cons, writeAll_cons]

theorem spendInputs_spec (hV : V.Spec I D) :
    ∀ (inputs : List CTxIn) {t : Top σ} (vprevout : List Coin), t.Wf I D →
      (inputs.map (·.prevout)).Nodup → (∀ txin ∈ inputs, t.coins D txin.prevout ≠ none) →
      ∃ t', spendInputs V inputs t vprevout =
          .ok (t', vprevout ++ inputs.map fun txin => (t.coins D txin.prevout).getD coinEmpty) ∧
        t'.Wf I D ∧ t'.coins D = writeAll (t.coins D) (inputs.map fun txin => (txin.prevout, none))
  | [], t, vprevout, ht, _, _ => ⟨t, by simp [spendInputs, pure, Except.pure], ht, rfl⟩
  | txin :: rest, t, vprevout, ht, hn, hfound => by
    rw [List.map_cons, List.nodup_cons] at hn
    obtain ⟨coin, hcoin⟩ := Option.ne_none_iff_exists'.mp (hfound txin List.mem_cons_self)
    rcases hs : t.spendCoin V txin.prevout with ⟨is_spent, moveout, t₁⟩
    obtain ⟨ht₁, hc₁, hr, hfound'⟩ := Top.spendCoin_spec hV ht hs
    rw [hcoin] at hr
    have hmove := hr.eq_of_some
    have hspent : is_spent = true := by rw [hfound', hmove]; rfl
    have hrest : ∀ txin' ∈ rest, t₁.coins D txin'.prevout = t.coins D txin'.prevout :=
      fun txin' h' => by
        rw [hc₁, Function.update_of_ne]
        intro heq
        have hmem := List.mem_map_of_mem (f := (·.prevout)) h'
        rw [heq] at hmem
        exact hn.1 hmem
    obtain ⟨t₂, h₂, ht₂, hc₂⟩ := spendInputs_spec hV rest (vprevout ++ [coin]) ht₁ hn.2
      fun txin' h' => by
        rw [hrest txin' h']
        exact hfound txin' (List.mem_cons_of_mem _ h')
    refine ⟨t₂, ?_, ht₂, ?_⟩
    · simp only [spendInputs, hs, hspent, hmove, if_true, Option.getD_some, h₂,
        List.map_cons, hcoin, List.append_assoc, List.singleton_append,
        List.map_congr_left fun txin' h' => congrArg (Option.getD · coinEmpty) (hrest txin' h')]
    · rw [hc₂, hc₁, List.map_cons, writeAll_cons]

theorem updateCoins_spec (hV : V.Spec I D) {t : Top σ} (ht : t.Wf I D) {tx : CTransaction}
    {nHeight : Int32} {genesisActivationHeight : Nat} (txundo : CTxUndo)
    (hok : TxConnectOk genesisActivationHeight nHeight.toUInt32 (t.coins D) tx)
    (hfound : inputsFound (t.coins D) tx = true) :
    ∃ t', updateCoins V tx t txundo nHeight genesisActivationHeight =
        .ok (t', ⟨txundo.vprevout ++ (txUndo (t.coins D) tx).vprevout⟩) ∧ t'.Wf I D ∧
      t'.coins D = connectTx genesisActivationHeight nHeight.toUInt32 (t.coins D) tx := by
  have hn : ((addedCoins genesisActivationHeight nHeight.toUInt32 tx.getId tx.isCoinBase 0
      tx.vout).map Prod.fst).Nodup :=
    nodup_addedCoins (by simpa using hok.outputs_length)
  obtain ⟨t₁, h₁, ht₁, hc₁⟩ : ∃ t₁, (if !tx.isCoinBase then spendInputs V tx.vin t txundo.vprevout
      else pure (t, txundo.vprevout)) =
        .ok (t₁, txundo.vprevout ++ (txUndo (t.coins D) tx).vprevout) ∧ t₁.Wf I D ∧
      t₁.coins D = spendTx (t.coins D) tx := by
    cases hcb : tx.isCoinBase with
    | true => exact ⟨t, by simp [txUndo, hcb, pure, Except.pure], ht, by simp [spendTx, hcb]⟩
    | false =>
      have hall : ∀ txin ∈ tx.vin, t.coins D txin.prevout ≠ none := by
        simpa [inputsFound, hcb, Option.isSome_iff_ne_none] using hfound
      obtain ⟨t₁, h₁, ht₁, hc₁⟩ := spendInputs_spec hV tx.vin txundo.vprevout ht
        hok.inputs_nodup hall
      exact ⟨t₁, by simpa [txUndo, hcb] using h₁, ht₁, by simp [spendTx, hcb, hc₁]⟩
  obtain ⟨t₂, h₂, ht₂, hc₂⟩ := addCoinsFrom_spec hV 0 tx.vout ht₁ hok.outputs_not_null hn
    fun (_ : false = false) _ p hp => by rw [hc₁]; exact hok.outputs_new p hp
  refine ⟨t₂, ?_, ht₂, by rw [hc₂, hc₁]; rfl⟩
  rw [updateCoins, h₁]
  simp only [bind, Except.bind, addCoins, h₂, pure, Except.pure]

theorem connectTxs_spec (hV : V.Spec I D) {nHeight : Int32} {genesisActivationHeight : Nat} :
    ∀ (txs : List CTransaction) (i : Nat) {t : Top σ} (vtxundo : List CTxUndo), t.Wf I D →
      ConnectOk genesisActivationHeight nHeight.toUInt32 (t.coins D) txs →
      (allInputsFound genesisActivationHeight nHeight.toUInt32 (t.coins D) txs = true ∧
        ∃ t', connectTxs V nHeight genesisActivationHeight i txs t vtxundo =
            .ok (t', vtxundo ++
              if 0 < i then undoAll genesisActivationHeight nHeight.toUInt32 (t.coins D) txs
              else (undoAll genesisActivationHeight nHeight.toUInt32 (t.coins D) txs).tail) ∧
          t'.Wf I D ∧
          t'.coins D = connectAll genesisActivationHeight nHeight.toUInt32 (t.coins D) txs) ∨
      (allInputsFound genesisActivationHeight nHeight.toUInt32 (t.coins D) txs = false ∧
        connectTxs V nHeight genesisActivationHeight i txs t vtxundo =
          .error "bad-txns-inputs-missingorspent")
  | [], i, t, vtxundo, ht, _ => .inl ⟨rfl, t, by split <;> simp [connectTxs, undoAll, pure,
      Except.pure], ht, rfl⟩
  | tx :: rest, i, t, vtxundo, ht, hok => by
    obtain ⟨htx, hrest⟩ := hok
    rcases hg : (if !tx.isCoinBase then t.haveInputs V tx else (true, t)) with ⟨found, t₁⟩
    obtain ⟨hfound, ht₁, hc₁⟩ : found = inputsFound (t.coins D) tx ∧ t₁.Wf I D ∧
        t₁.coins D = t.coins D := by
      cases hcb : tx.isCoinBase with
      | false =>
        simp only [hcb, Bool.not_false, if_true] at hg
        exact Top.haveInputs_spec hV ht hg
      | true =>
        simp only [hcb, Bool.not_true, Bool.false_eq_true, if_false, Prod.mk.injEq] at hg
        obtain ⟨rfl, rfl⟩ := hg
        exact ⟨by simp [inputsFound, hcb], ht, rfl⟩
    cases found with
    | false =>
      refine .inr ⟨by simp [allInputsFound, ← hfound], ?_⟩
      simp only [connectTxs, hg]
      rfl
    | true =>
      rw [← hc₁] at htx
      obtain ⟨t₃, h₃, ht₃, hc₃⟩ := updateCoins_spec hV ht₁ ⟨[]⟩ htx (by rw [hc₁, ← hfound])
      rw [hc₁, List.nil_append] at h₃
      rw [hc₁] at hc₃
      have hrest' : ConnectOk genesisActivationHeight nHeight.toUInt32 (t₃.coins D) rest := by
        rw [hc₃]; exact hrest
      have hfound_all : allInputsFound genesisActivationHeight nHeight.toUInt32 (t.coins D)
          (tx :: rest) = allInputsFound genesisActivationHeight nHeight.toUInt32 (t₃.coins D)
            rest := by
        simp [allInputsFound, ← hfound, hc₃]
      have hacc : ∀ l, (if 0 < i then vtxundo ++ [txUndo (t.coins D) tx] else vtxundo) ++ l =
          vtxundo ++ if 0 < i then txUndo (t.coins D) tx :: l else l := fun l => by
        split <;> simp
      rcases connectTxs_spec hV rest (i + 1)
          (if 0 < i then vtxundo ++ [txUndo (t.coins D) tx] else vtxundo) ht₃ hrest' with
        ⟨hall, t₄, h₄, ht₄, hc₄⟩ | ⟨hall, h₄⟩
      · refine .inl ⟨by rw [hfound_all, hall], t₄, ?_, ht₄, by rw [hc₄, hc₃]; rfl⟩
        simp only [connectTxs, hg, h₃, bind, Except.bind]
        rw [h₄, if_pos (by omega : 0 < i + 1), hacc, hc₃]
        simp only [undoAll]
        split <;> rfl
      · refine .inr ⟨by rw [hfound_all, hall], ?_⟩
        simp only [connectTxs, hg, h₃, bind, Except.bind]
        exact h₄

end Connect

/-- `ConnectBlock` connects the block's transactions to the UTXO set the view stands for, one after
another, and writes the undo records of all but the first; it is rejected, as
`bad-txns-inputs-missingorspent`, exactly when a transaction does not find its inputs at its
turn. -/
theorem connectBlockCoins_spec (hV : V.Spec I D) {t : Top σ} (ht : t.Wf I D) (block : CBlock)
    (nHeight : Int32) (genesisActivationHeight : Nat)
    (hok : ConnectOk genesisActivationHeight nHeight.toUInt32 (t.coins D) block.vtx) :
    (allInputsFound genesisActivationHeight nHeight.toUInt32 (t.coins D) block.vtx = true ∧
      ∃ t', connectBlockCoins V block nHeight genesisActivationHeight t =
          .ok (t', ⟨(undoAll genesisActivationHeight nHeight.toUInt32 (t.coins D) block.vtx).tail⟩) ∧
        t'.Wf I D ∧
        t'.coins D = connectAll genesisActivationHeight nHeight.toUInt32 (t.coins D) block.vtx) ∨
    (allInputsFound genesisActivationHeight nHeight.toUInt32 (t.coins D) block.vtx = false ∧
      connectBlockCoins V block nHeight genesisActivationHeight t =
        .error "bad-txns-inputs-missingorspent") := by
  rcases connectTxs_spec hV block.vtx 0 [] ht hok with ⟨hall, t', h, ht', hc⟩ | ⟨hall, h⟩
  · refine .inl ⟨hall, t', ?_, ht', hc⟩
    simp only [connectBlockCoins, h, bind, Except.bind, lt_irrefl, if_false, List.nil_append,
      pure, Except.pure]
  · exact .inr ⟨hall, by simp only [connectBlockCoins, h, bind, Except.bind]⟩

theorem connectBlockCoins_eq_ok (hV : V.Spec I D) {t t' : Top σ} (ht : t.Wf I D) {block : CBlock}
    {nHeight : Int32} {genesisActivationHeight : Nat} {blockUndo : CBlockUndo}
    (hok : ConnectOk genesisActivationHeight nHeight.toUInt32 (t.coins D) block.vtx)
    (h : connectBlockCoins V block nHeight genesisActivationHeight t = .ok (t', blockUndo)) :
    allInputsFound genesisActivationHeight nHeight.toUInt32 (t.coins D) block.vtx = true ∧
      blockUndo = ⟨(undoAll genesisActivationHeight nHeight.toUInt32 (t.coins D) block.vtx).tail⟩ ∧
      t'.Wf I D ∧
      t'.coins D = connectAll genesisActivationHeight nHeight.toUInt32 (t.coins D) block.vtx := by
  rcases connectTxs_spec hV block.vtx 0 [] ht hok with ⟨hall, t₁, h₁, ht₁, hc₁⟩ | ⟨-, h₁⟩
  · simp only [connectBlockCoins, h₁, bind, Except.bind, lt_irrefl, if_false, List.nil_append,
      pure, Except.pure, Except.ok.injEq, Prod.mk.injEq] at h
    obtain ⟨rfl, rfl⟩ := h
    exact ⟨hall, rfl, ht₁, hc₁⟩
  · simp [connectBlockCoins, h₁, bind, Except.bind] at h

/-! ### A block over the database -/

def sampleFunding : COutPoint := ⟨Vector.replicate 32 1, 0⟩

def sampleTop : Top CCoinsViewDB :=
  ⟨CCoinsViewCache.new, [], ⟨(∅ : AList fun _ : COutPoint => Coin).insert sampleFunding
    ⟨⟨60, []⟩, 2⟩, some (Vector.replicate 32 9), none⟩⟩

def sampleBlock : CBlock :=
  ⟨⟨1, Vector.replicate 32 9, Vector.replicate 32 0, 0, 0, 0⟩,
    [⟨1, [⟨⟨Vector.replicate 32 0, 0xffffffff⟩, [], 0xffffffff⟩], [⟨50, []⟩], 0,
      Vector.replicate 32 3⟩,
     ⟨1, [⟨sampleFunding, [], 0xffffffff⟩], [⟨40, []⟩], 0, Vector.replicate 32 4⟩]⟩

def sampleConnected : Top CCoinsViewDB × CBlockUndo :=
  match connectBlockCoins CCoinsViewDB.view sampleBlock 2 0 sampleTop with
  | .ok r => r
  | .error _ => (sampleTop, ⟨[]⟩)

theorem sampleTop_lookup {outpoint : COutPoint} {coin : Coin}
    (h : sampleTop.base.coins.lookup outpoint = some coin) :
    outpoint = sampleFunding ∧ coin = ⟨⟨60, []⟩, 2⟩ := by
  by_cases ho : outpoint = sampleFunding
  · subst ho
    simp only [sampleTop, AList.lookup_insert, Option.some.injEq] at h
    exact ⟨rfl, h.symm⟩
  · simp only [sampleTop] at h
    rw [AList.lookup_insert_ne ho] at h
    simp at h

theorem sampleTop_coins {outpoint : COutPoint} {coin : Coin}
    (h : sampleTop.coins (fun db => db.coins.lookup) outpoint = some coin) :
    outpoint = sampleFunding ∧ coin = ⟨⟨60, []⟩, 2⟩ :=
  sampleTop_lookup (by simpa [Top.coins, sampleTop, view_cons, view_nil, CCoinsViewCache.new,
    overlay_empty] using h)

theorem sampleTop_wf : sampleTop.Wf CCoinsViewDB.Unspent fun db => db.coins.lookup := by
  refine ⟨fun outpoint coin h => ?_, consistent_empty _, trivial⟩
  obtain ⟨-, rfl⟩ := sampleTop_lookup h
  rfl

theorem sampleBlock_connectOk :
    ConnectOk 0 (2 : Int32).toUInt32 (sampleTop.coins fun db => db.coins.lookup) sampleBlock.vtx :=
  ⟨⟨by decide, by decide, by decide, by decide⟩, ⟨by decide, by decide, by decide, by decide⟩,
    trivial⟩

theorem sampleBlock_connect :
    connectBlockCoins CCoinsViewDB.view sampleBlock 2 0 sampleTop = .ok sampleConnected := rfl

theorem connectBlockCoins_spec_sample :
    ConnectOk 0 (2 : Int32).toUInt32 (sampleTop.coins fun db => db.coins.lookup) sampleBlock.vtx ∧
      ((allInputsFound 0 (2 : Int32).toUInt32 (sampleTop.coins fun db => db.coins.lookup)
          sampleBlock.vtx = true ∧
        ∃ t', connectBlockCoins CCoinsViewDB.view sampleBlock 2 0 sampleTop =
            .ok (t', ⟨(undoAll 0 (2 : Int32).toUInt32 (sampleTop.coins fun db => db.coins.lookup)
              sampleBlock.vtx).tail⟩) ∧
          t'.Wf CCoinsViewDB.Unspent (fun db => db.coins.lookup) ∧
          t'.coins (fun db => db.coins.lookup) = connectAll 0 (2 : Int32).toUInt32
            (sampleTop.coins fun db => db.coins.lookup) sampleBlock.vtx) ∨
      (allInputsFound 0 (2 : Int32).toUInt32 (sampleTop.coins fun db => db.coins.lookup)
          sampleBlock.vtx = false ∧
        connectBlockCoins CCoinsViewDB.view sampleBlock 2 0 sampleTop =
          .error "bad-txns-inputs-missingorspent")) :=
  ⟨sampleBlock_connectOk, connectBlockCoins_spec CCoinsViewDB.view_spec sampleTop_wf sampleBlock 2 0
    sampleBlock_connectOk⟩

end TbcNode.Coins.Cache
