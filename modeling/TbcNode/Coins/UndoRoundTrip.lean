import TbcNode.Coins.UndoSpec

/-! # Disconnecting a block undoes connecting it

`ApplyBlockUndo` with the undo data `ConnectBlock` wrote, on the view it left, gives back the UTXO
set before the block and finds the block clean (`applyBlockUndo_connectBlockCoins`), given coins
with a height and a script spendable at it (`CoinsOk`).
-/

namespace TbcNode.Coins.Cache

open TbcNode.Primitives TbcNode.Net TbcNode.Logic DisconnectResult

variable {σ : Type} {V : CCoinsView σ} {I : σ → Prop} {D : σ → COutPoint → Option Coin}

/-- A coin that `UndoCoinSpend` puts back as it is: unspent, with a height (legacy undo data has
none), and spendable at it. -/
structure CoinOk (genesisActivationHeight : Nat) (coin : Coin) : Prop where
  unspent : coin.isSpent = false
  height_ne_zero : coin.getHeight ≠ 0
  spendable :
    isUnspendable coin.out.scriptPubKey (coin.getHeight.toNat ≥ genesisActivationHeight) = false

def CoinsOk (genesisActivationHeight : Nat) (U : COutPoint → Option Coin) : Prop :=
  ∀ outpoint coin, U outpoint = some coin → CoinOk genesisActivationHeight coin

section Coins

variable {genesisActivationHeight : Nat}

theorem CoinsOk.writeAll {U : COutPoint → Option Coin} (hU : CoinsOk genesisActivationHeight U)
    {ws : List (COutPoint × Option Coin)}
    (hws : ∀ w ∈ ws, ∀ coin, w.2 = some coin → CoinOk genesisActivationHeight coin) :
    CoinsOk genesisActivationHeight (TbcNode.Logic.writeAll U ws) :=
  TbcNode.Logic.writeAll_apply_of_forall
    (P := fun v => ∀ coin, v = some coin → CoinOk genesisActivationHeight coin) hU hws

/-- Connecting a transaction at a block's height keeps every coin `CoinOk`: the coins it adds have
that height, and `AddCoins` leaves out the unspendable ones. -/
theorem CoinsOk.connectTx {U : COutPoint → Option Coin} (hU : CoinsOk genesisActivationHeight U)
    {nHeight : Int32} (hh : 0 < nHeight.toInt) {tx : CTransaction}
    (hnull : ∀ txout ∈ tx.vout, txout.isNull = false) :
    CoinsOk genesisActivationHeight
      (Cache.connectTx genesisActivationHeight nHeight.toUInt32 U tx) := by
  have hs : CoinsOk genesisActivationHeight (spendTx U tx) := by
    unfold spendTx
    split
    · exact hU
    · exact hU.writeAll (by simp)
  refine hs.writeAll fun w hw coin hc => ?_
  obtain ⟨p, hp, rfl⟩ := List.mem_map.mp hw
  obtain rfl := Option.some.inj hc
  obtain ⟨-, ⟨txout, -, hcoin⟩, hsp⟩ := mem_addedCoins hp
  have hheight : p.2.getHeight.toNat = nHeight.toUInt32.toNat := by
    rw [hcoin]
    exact getHeight_make_of_nonneg txout hh.le tx.isCoinBase
  have hpos : 0 < nHeight.toUInt32.toNat := by
    have := toNat_toUInt32_of_nonneg hh.le
    omega
  refine ⟨isSpent_of_mem_addedCoins hnull hp, fun h0 => ?_, hsp⟩
  rw [h0] at hheight
  simp at hheight
  omega

end Coins

theorem mem_zip_map_self {α β : Type} {f : α → β} :
    ∀ {l : List α} {p : α × β}, p ∈ l.zip (l.map f) → p.1 ∈ l ∧ p.2 = f p.1
  | [], _, h => by simp at h
  | a :: l, p, h => by
    rw [List.map_cons, List.zip_cons_cons] at h
    rcases List.mem_cons.mp h with rfl | h
    · exact ⟨List.mem_cons_self, rfl⟩
    · obtain ⟨hm, hf⟩ := mem_zip_map_self h
      exact ⟨List.mem_cons_of_mem _ hm, hf⟩

/-! ### The loops of `ApplyBlockUndo` -/

section Disconnect

variable (cursor : σ → uint256 → List Coin) {genesisActivationHeight : Nat}

theorem spendOutputs_spec (hV : V.Spec I D) {nHeight : Int32} (hh : 0 ≤ nHeight.toInt)
    (hm : nHeight.toUInt32 ≠ MEMPOOL_HEIGHT) {txid : uint256} {fCoinbase : Bool} :
    ∀ (i : Nat) (outs : List CTxOut) {t : Top σ} (fClean : Bool), t.Wf I D →
      ((addedCoins genesisActivationHeight nHeight.toUInt32 txid fCoinbase i outs).map
        Prod.fst).Nodup →
      (∀ p ∈ addedCoins genesisActivationHeight nHeight.toUInt32 txid fCoinbase i outs,
        t.coins D p.1 = some p.2) →
      ∃ t', spendOutputs V genesisActivationHeight nHeight txid i outs t fClean =
          .ok (fClean, t') ∧ t'.Wf I D ∧
        t'.coins D = writeAll (t.coins D)
          ((addedCoins genesisActivationHeight nHeight.toUInt32 txid fCoinbase i outs).map
            fun p => (p.1, none))
  | _, [], t, _, ht, _, _ => ⟨t, rfl, ht, rfl⟩
  | i, txout :: rest, t, fClean, ht, hn, hpresent => by
    have hflag : (Coin.make txout nHeight.toUInt32 fCoinbase).getHeight.toNat =
        nHeight.toUInt32.toNat := getHeight_make_of_nonneg txout hh fCoinbase
    unfold addedCoins at hn hpresent ⊢
    rw [hflag] at hn hpresent ⊢
    simp only [spendOutputs, isGenesisEnabled_eq hh hm, bind, Except.bind]
    by_cases hu : isUnspendable txout.scriptPubKey
        (decide (nHeight.toUInt32.toNat ≥ genesisActivationHeight)) = true
    · rw [if_pos hu] at hn hpresent ⊢
      rw [if_pos hu]
      exact spendOutputs_spec hV hh hm (i + 1) rest fClean ht hn hpresent
    · rw [if_neg hu] at hn hpresent ⊢
      rw [if_neg hu]
      rw [List.map_cons, List.nodup_cons] at hn
      have hcoin := hpresent _ List.mem_cons_self
      rcases hs : t.spendCoin V ⟨txid, UInt32.ofNat i⟩ with ⟨is_spent, moveout, t₁⟩
      obtain ⟨ht₁, hc₁, hr, hfound⟩ := Top.spendCoin_spec hV ht hs
      rw [hcoin] at hr
      have hmove := hr.eq_of_some
      have hrest : ∀ p ∈ addedCoins genesisActivationHeight nHeight.toUInt32 txid fCoinbase
          (i + 1) rest, t₁.coins D p.1 = some p.2 := fun p hp => by
        rw [hc₁, Function.update_of_ne]
        · exact hpresent p (List.mem_cons_of_mem _ hp)
        · intro heq
          have hmem := List.mem_map_of_mem (f := Prod.fst) hp
          rw [heq] at hmem
          exact hn.1 hmem
      obtain ⟨t₂, h₂, ht₂, hc₂⟩ := spendOutputs_spec hV hh hm (i + 1) rest fClean ht₁ hn.2 hrest
      have hclean : (fClean && is_spent &&
          txout == (moveout.getD coinEmpty).out) = fClean := by
        rw [hfound, hmove]
        simp [Coin.make]
      refine ⟨t₂, ?_, ht₂, by rw [hc₂, hc₁, List.map_cons, writeAll_cons]⟩
      simp only [hclean, h₂]

theorem undoCoinSpend_spec (hV : V.Spec I D) {t : Top σ} (ht : t.Wf I D) {undo : Coin}
    {out : COutPoint} (hnone : t.coins D out = none) (hundo : CoinOk genesisActivationHeight undo) :
    ∃ t', undoCoinSpend V cursor undo t out genesisActivationHeight = .ok (DISCONNECT_OK, t') ∧
      t'.Wf I D ∧ t'.coins D = Function.update (t.coins D) out (some undo) := by
  rcases hh : t.haveCoin V out with ⟨overwriting, t₁⟩
  obtain ⟨hfound, ht₁, hc₁⟩ := Top.haveCoin_spec hV ht hh
  rw [hnone, Option.isSome_none] at hfound
  subst hfound
  obtain ⟨t₂, hadd, ht₂, hc₂⟩ := Top.addCoin_spec ht₁ genesisActivationHeight hundo.unspent
    fun (_ : false = false) => by rw [hc₁, hnone]
  rw [if_neg (by simp [hundo.spendable]), hc₁] at hc₂
  refine ⟨t₂, ?_, ht₂, hc₂⟩
  have hheight : (undo.getHeight == 0) = false := by simpa using hundo.height_ne_zero
  simp only [undoCoinSpend, hh, hheight, Bool.not_false, Bool.not_true, Bool.false_eq_true,
    if_false, hadd, bind, Except.bind, pure, Except.pure, if_true]

theorem restoreInputs_spec (hV : V.Spec I D) :
    ∀ (ps : List (CTxIn × Coin)) {t : Top σ} (fClean : Bool), t.Wf I D →
      (ps.map (·.1.prevout)).Nodup →
      (∀ p ∈ ps, t.coins D p.1.prevout = none ∧ CoinOk genesisActivationHeight p.2) →
      ∃ t', restoreInputs V cursor genesisActivationHeight ps t fClean = .ok (some fClean, t') ∧
        t'.Wf I D ∧ t'.coins D = writeAll (t.coins D) (ps.map fun p => (p.1.prevout, some p.2))
  | [], t, _, ht, _, _ => ⟨t, rfl, ht, rfl⟩
  | (txin, undo) :: rest, t, fClean, ht, hn, hps => by
    rw [List.map_cons, List.nodup_cons] at hn
    obtain ⟨hnone, hundo⟩ := hps _ List.mem_cons_self
    obtain ⟨t₁, h₁, ht₁, hc₁⟩ := undoCoinSpend_spec cursor hV ht hnone hundo
    have hrest : ∀ p ∈ rest, t₁.coins D p.1.prevout = none ∧ CoinOk genesisActivationHeight p.2 :=
      fun p hp => by
        rw [hc₁, Function.update_of_ne]
        · exact hps p (List.mem_cons_of_mem _ hp)
        · intro heq
          have hmem := List.mem_map_of_mem (f := (·.1.prevout)) hp
          rw [heq] at hmem
          exact hn.1 hmem
    obtain ⟨t₂, h₂, ht₂, hc₂⟩ := restoreInputs_spec hV rest fClean ht₁ hn.2 hrest
    refine ⟨t₂, ?_, ht₂, by rw [hc₂, hc₁, List.map_cons, writeAll_cons]⟩
    have hok : (DISCONNECT_OK == DISCONNECT_FAILED) = false := by decide
    have hclean : (DISCONNECT_OK != DISCONNECT_UNCLEAN) = true := by decide
    simp only [restoreInputs, h₁, bind, Except.bind, hok, hclean, Bool.false_eq_true, if_false,
      Bool.and_true, h₂]

/-! ### Taking back a transaction, then a block -/

theorem spendOutputs_connectTx (hV : V.Spec I D) {nHeight : Int32} (hh : 0 ≤ nHeight.toInt)
    (hm : nHeight.toUInt32 ≠ MEMPOOL_HEIGHT) {U : COutPoint → Option Coin} {tx : CTransaction}
    (hok : TxConnectOk genesisActivationHeight nHeight.toUInt32 U tx) {t : Top σ} (ht : t.Wf I D)
    (hc : t.coins D = Cache.connectTx genesisActivationHeight nHeight.toUInt32 U tx)
    (fClean : Bool) :
    ∃ t', spendOutputs V genesisActivationHeight nHeight tx.getId 0 tx.vout t fClean =
        .ok (fClean, t') ∧ t'.Wf I D ∧ t'.coins D = spendTx U tx := by
  have hn : ((addedCoins genesisActivationHeight nHeight.toUInt32 tx.getId tx.isCoinBase 0
      tx.vout).map Prod.fst).Nodup :=
    nodup_addedCoins (by simpa using hok.outputs_length)
  have hkeys : ((addedCoins genesisActivationHeight nHeight.toUInt32 tx.getId tx.isCoinBase 0
      tx.vout).map fun p => (p.1, some p.2)).map Prod.fst =
      (addedCoins genesisActivationHeight nHeight.toUInt32 tx.getId tx.isCoinBase 0
        tx.vout).map Prod.fst := by
    simp [List.map_map, Function.comp_def]
  have hpresent : ∀ p ∈ addedCoins genesisActivationHeight nHeight.toUInt32 tx.getId
      tx.isCoinBase 0 tx.vout, t.coins D p.1 = some p.2 := fun p hp => by
    rw [hc, Cache.connectTx]
    exact writeAll_apply_of_mem (by rw [hkeys]; exact hn)
      (List.mem_map_of_mem (f := fun p => (p.1, some p.2)) hp) _
  obtain ⟨t', h', ht', hc'⟩ := spendOutputs_spec hV hh hm 0 tx.vout fClean ht hn hpresent
  refine ⟨t', h', ht', ?_⟩
  rw [hc', hc, Cache.connectTx, writeAll_writeAll_of_subset (by simp [List.map_map,
    Function.comp_def]), writeAll_eq_self]
  intro w hw
  obtain ⟨p, hp, rfl⟩ := List.mem_map.mp hw
  exact hok.outputs_new p hp

theorem disconnectTx_coinbase (hV : V.Spec I D) {nHeight : Int32} (hh : 0 ≤ nHeight.toInt)
    (hm : nHeight.toUInt32 ≠ MEMPOOL_HEIGHT) {U : COutPoint → Option Coin} {tx : CTransaction}
    (hok : TxConnectOk genesisActivationHeight nHeight.toUInt32 U tx) (hcb : tx.isCoinBase = true)
    {t : Top σ} (ht : t.Wf I D)
    (hc : t.coins D = Cache.connectTx genesisActivationHeight nHeight.toUInt32 U tx)
    (fClean : Bool) :
    ∃ t', disconnectTx V cursor genesisActivationHeight nHeight tx none t fClean =
        .ok (some fClean, t') ∧ t'.Wf I D ∧ t'.coins D = U := by
  obtain ⟨t', h', ht', hc'⟩ := spendOutputs_connectTx hV hh hm hok ht hc fClean
  refine ⟨t', ?_, ht', by rw [hc', spendTx, if_pos hcb]⟩
  simp only [disconnectTx, h', bind, Except.bind, pure, Except.pure]

theorem disconnectTx_connectTx (hV : V.Spec I D) {nHeight : Int32} (hh : 0 ≤ nHeight.toInt)
    (hm : nHeight.toUInt32 ≠ MEMPOOL_HEIGHT) {U : COutPoint → Option Coin} {tx : CTransaction}
    (hU : CoinsOk genesisActivationHeight U)
    (hok : TxConnectOk genesisActivationHeight nHeight.toUInt32 U tx)
    (hfound : inputsFound U tx = true) (hcb : tx.isCoinBase = false) {t : Top σ} (ht : t.Wf I D)
    (hc : t.coins D = Cache.connectTx genesisActivationHeight nHeight.toUInt32 U tx)
    (fClean : Bool) :
    ∃ t', disconnectTx V cursor genesisActivationHeight nHeight tx (some (txUndo U tx)) t fClean =
        .ok (some fClean, t') ∧ t'.Wf I D ∧ t'.coins D = U := by
  obtain ⟨t₁, h₁, ht₁, hc₁⟩ := spendOutputs_connectTx hV hh hm hok ht hc fClean
  rw [spendTx, if_neg (by simp [hcb])] at hc₁
  have hnodup : ((tx.vin.map fun txin => (txin.prevout, (none : Option Coin))).map
      Prod.fst).Nodup := by
    simpa [List.map_map, Function.comp_def] using hok.inputs_nodup
  have hmem : ∀ p ∈ (tx.vin.zip (tx.vin.map fun txin => (U txin.prevout).getD coinEmpty)).reverse,
      t₁.coins D p.1.prevout = none ∧ U p.1.prevout = some p.2 := fun p hp => by
    obtain ⟨hin, hp2⟩ := mem_zip_map_self (List.mem_reverse.mp hp)
    have hsome : (U p.1.prevout).isSome := by
      simp only [inputsFound, hcb, Bool.false_or, List.all_eq_true] at hfound
      exact hfound p.1 hin
    obtain ⟨coin, hcoin⟩ := Option.isSome_iff_exists.mp hsome
    refine ⟨?_, by rw [hp2, hcoin, Option.getD_some]⟩
    rw [hc₁]
    exact writeAll_apply_of_mem hnodup (List.mem_map_of_mem (f := fun txin =>
      (txin.prevout, (none : Option Coin))) hin) _
  have hkeys : ((tx.vin.zip (tx.vin.map fun txin => (U txin.prevout).getD coinEmpty)).reverse.map
      (·.1.prevout)) = (tx.vin.map (·.prevout)).reverse := by
    rw [List.map_reverse]
    congr 1
    rw [show (fun p : CTxIn × Coin => p.1.prevout) = (·.prevout) ∘ Prod.fst from rfl,
      ← List.map_map, List.map_fst_zip]
    simp
  obtain ⟨t₂, h₂, ht₂, hc₂⟩ := restoreInputs_spec cursor hV _ fClean ht₁
    (by rw [hkeys]; exact List.nodup_reverse.mpr hok.inputs_nodup)
    fun p hp => ⟨(hmem p hp).1, hU _ _ (hmem p hp).2⟩
  refine ⟨t₂, ?_, ht₂, ?_⟩
  · simp only [disconnectTx, h₁, bind, Except.bind, txUndo, hcb, Bool.false_eq_true, if_false,
      List.length_map, bne_self_eq_false, h₂]
  · rw [hc₂, hc₁, writeAll_writeAll_of_subset, writeAll_eq_self]
    · intro w hw
      obtain ⟨p, hp, rfl⟩ := List.mem_map.mp hw
      exact (hmem p hp).2
    · intro a ha
      have ha' : a ∈ (tx.vin.map (·.prevout)).reverse := by
        simpa [List.map_map, Function.comp_def] using ha
      rw [← hkeys] at ha'
      simpa [List.map_map, Function.comp_def] using ha'

theorem disconnectTxs_append {nHeight : Int32} :
    ∀ (l₁ l₂ : List (CTransaction × Option CTxUndo)) {t t' : Top σ} {fClean fClean' : Bool},
      disconnectTxs V cursor genesisActivationHeight nHeight l₁ t fClean = .ok (some fClean', t') →
      disconnectTxs V cursor genesisActivationHeight nHeight (l₁ ++ l₂) t fClean =
        disconnectTxs V cursor genesisActivationHeight nHeight l₂ t' fClean'
  | [], _, t, t', fClean, fClean', h => by
    simp only [disconnectTxs, pure, Except.pure, Except.ok.injEq, Prod.mk.injEq,
      Option.some.injEq] at h
    obtain ⟨rfl, rfl⟩ := h
    rfl
  | (tx, txundo) :: l, l₂, t, t', fClean, fClean', h => by
    rcases hd : disconnectTx V cursor genesisActivationHeight nHeight tx txundo t fClean with
      e | ⟨r, t₁⟩
    · simp [disconnectTxs, hd, bind, Except.bind] at h
    · cases r with
      | none => simp [disconnectTxs, hd, bind, Except.bind, pure, Except.pure] at h
      | some f₁ =>
        simp only [disconnectTxs, hd, bind, Except.bind] at h
        simp only [List.cons_append, disconnectTxs, hd, bind, Except.bind]
        exact disconnectTxs_append l l₂ h

theorem disconnectTxs_connectAll (hV : V.Spec I D) {nHeight : Int32} (hh : 0 < nHeight.toInt)
    (hm : nHeight.toUInt32 ≠ MEMPOOL_HEIGHT) :
    ∀ (txs : List CTransaction) {U : COutPoint → Option Coin} {t : Top σ} (fClean : Bool),
      t.Wf I D → CoinsOk genesisActivationHeight U → (∀ tx ∈ txs, tx.isCoinBase = false) →
      ConnectOk genesisActivationHeight nHeight.toUInt32 U txs →
      allInputsFound genesisActivationHeight nHeight.toUInt32 U txs = true →
      t.coins D = connectAll genesisActivationHeight nHeight.toUInt32 U txs →
      ∃ t', disconnectTxs V cursor genesisActivationHeight nHeight
          (txs.zip ((undoAll genesisActivationHeight nHeight.toUInt32 U txs).map some)).reverse t
          fClean = .ok (some fClean, t') ∧ t'.Wf I D ∧ t'.coins D = U
  | [], _, t, _, ht, _, _, _, _, hc => ⟨t, rfl, ht, hc⟩
  | tx :: rest, U, t, fClean, ht, hU, hcb, hok, hall, hc => by
    obtain ⟨htx, hrest⟩ := hok
    simp only [allInputsFound, Bool.and_eq_true] at hall
    obtain ⟨t₁, h₁, ht₁, hc₁⟩ := disconnectTxs_connectAll hV hh hm rest fClean ht
      (hU.connectTx hh htx.outputs_not_null) (fun tx' h' => hcb tx' (List.mem_cons_of_mem _ h'))
      hrest hall.2 hc
    obtain ⟨t₂, h₂, ht₂, hc₂⟩ := disconnectTx_connectTx cursor hV hh.le hm hU htx hall.1
      (hcb tx List.mem_cons_self) ht₁ hc₁ fClean
    refine ⟨t₂, ?_, ht₂, hc₂⟩
    simp only [undoAll, List.map_cons, List.zip_cons_cons, List.reverse_cons]
    rw [disconnectTxs_append cursor _ _ h₁]
    simp only [disconnectTxs, h₂, bind, Except.bind, pure, Except.pure]

end Disconnect

theorem applyBlockUndo_undoAll (hV : V.Spec I D) (cursor : σ → uint256 → List Coin)
    {genesisActivationHeight : Nat} {U : COutPoint → Option Coin} {t : Top σ} (ht : t.Wf I D)
    {block : CBlock} {nHeight : Int32} (hh : 0 < nHeight.toInt)
    (hm : nHeight.toUInt32 ≠ MEMPOOL_HEIGHT) (hU : CoinsOk genesisActivationHeight U)
    (hcb : ∃ coinbase rest, block.vtx = coinbase :: rest ∧ coinbase.isCoinBase = true ∧
      ∀ tx ∈ rest, tx.isCoinBase = false)
    (hok : ConnectOk genesisActivationHeight nHeight.toUInt32 U block.vtx)
    (hall : allInputsFound genesisActivationHeight nHeight.toUInt32 U block.vtx = true)
    (hc : t.coins D = connectAll genesisActivationHeight nHeight.toUInt32 U block.vtx) :
    ∃ t', applyBlockUndo V cursor genesisActivationHeight
        ⟨(undoAll genesisActivationHeight nHeight.toUInt32 U block.vtx).tail⟩ block nHeight t =
        .ok (DISCONNECT_OK, t') ∧ t'.Wf I D ∧ t'.coins D = U ∧
      t'.cache.hashBlock = block.header.hashPrevBlock := by
  obtain ⟨coinbase, rest, hvtx, hcbt, hrest⟩ := hcb
  rw [hvtx] at hall hc hok
  obtain ⟨hcbok, hrestok⟩ := hok
  simp only [allInputsFound, Bool.and_eq_true] at hall
  simp only [connectAll] at hc
  obtain ⟨t₂, h₂, ht₂, hc₂⟩ := disconnectTxs_connectAll cursor hV hh hm rest true ht
    (hU.connectTx hh hcbok.outputs_not_null) hrest hrestok hall.2 hc
  obtain ⟨t₃, h₃, ht₃, hc₃⟩ := disconnectTx_coinbase cursor hV hh.le hm hcbok hcbt ht₂ hc₂ true
  refine ⟨t₃.setBestBlock block.header.hashPrevBlock, ?_, ht₃, hc₃, rfl⟩
  have hlist : (block.vtx.zip (none :: (CBlockUndo.vtxundo ⟨(undoAll genesisActivationHeight
      nHeight.toUInt32 U block.vtx).tail⟩).map some)).reverse =
      (rest.zip ((undoAll genesisActivationHeight nHeight.toUInt32
        (Cache.connectTx genesisActivationHeight nHeight.toUInt32 U coinbase) rest).map
          some)).reverse ++ [(coinbase, none)] := by
    simp [hvtx, undoAll]
  have hsize : ((CBlockUndo.vtxundo ⟨(undoAll genesisActivationHeight nHeight.toUInt32
      U block.vtx).tail⟩).length + 1 != block.vtx.length) = false := by
    simp [hvtx]
  simp only [applyBlockUndo, hsize, Bool.false_eq_true, if_false, hlist,
    disconnectTxs_append cursor _ _ h₂, disconnectTxs, h₃, bind, Except.bind, pure, Except.pure,
    if_true]

/-- `ApplyBlockUndo`, with the undo data `ConnectBlock` wrote and on the view it left, gives back
the UTXO set the block was connected to, finds the block clean, and moves the best block back to
its parent. The block has its coinbase first and only there (`CheckBlock`), is connected at a
height that is positive and not the mempool's, to a UTXO set of coins `CoinOk`, and meets what
`ConnectBlock` relies on beyond `HaveInputs` (`ConnectOk`). -/
theorem applyBlockUndo_connectBlockCoins (hV : V.Spec I D) (cursor : σ → uint256 → List Coin)
    {genesisActivationHeight : Nat} {t t' : Top σ} (ht : t.Wf I D) {block : CBlock}
    {nHeight : Int32} {blockUndo : CBlockUndo} (hh : 0 < nHeight.toInt)
    (hm : nHeight.toUInt32 ≠ MEMPOOL_HEIGHT) (hU : CoinsOk genesisActivationHeight (t.coins D))
    (hcb : ∃ coinbase rest, block.vtx = coinbase :: rest ∧ coinbase.isCoinBase = true ∧
      ∀ tx ∈ rest, tx.isCoinBase = false)
    (hok : ConnectOk genesisActivationHeight nHeight.toUInt32 (t.coins D) block.vtx)
    (hconn : connectBlockCoins V block nHeight genesisActivationHeight t = .ok (t', blockUndo)) :
    ∃ t'', applyBlockUndo V cursor genesisActivationHeight blockUndo block nHeight t' =
        .ok (DISCONNECT_OK, t'') ∧ t''.Wf I D ∧ t''.coins D = t.coins D ∧
      t''.cache.hashBlock = block.header.hashPrevBlock := by
  obtain ⟨hall, rfl, ht', hc'⟩ := connectBlockCoins_eq_ok hV ht hok hconn
  exact applyBlockUndo_undoAll hV cursor ht' hh hm hU hcb hok hall hc'

theorem sampleTop_coinsOk : CoinsOk 0 (sampleTop.coins fun db => db.coins.lookup) := by
  intro outpoint coin h
  obtain ⟨-, rfl⟩ := sampleTop_coins h
  exact ⟨by decide, by decide, by decide⟩

/-- The sample block taken back, with a cursor that reads nothing: the undo data holds no legacy
coin, so it is never read. -/
theorem applyBlockUndo_connectBlockCoins_sample :
    CoinsOk 0 (sampleTop.coins fun db => db.coins.lookup) ∧
      ConnectOk 0 (2 : Int32).toUInt32 (sampleTop.coins fun db => db.coins.lookup)
        sampleBlock.vtx ∧
      connectBlockCoins CCoinsViewDB.view sampleBlock 2 0 sampleTop = .ok sampleConnected ∧
      ∃ t'', applyBlockUndo CCoinsViewDB.view (fun _ _ => []) 0 sampleConnected.2 sampleBlock 2
          sampleConnected.1 = .ok (DISCONNECT_OK, t'') ∧
        t''.Wf CCoinsViewDB.Unspent (fun db => db.coins.lookup) ∧
        t''.coins (fun db => db.coins.lookup) = sampleTop.coins (fun db => db.coins.lookup) ∧
        t''.cache.hashBlock = sampleBlock.header.hashPrevBlock :=
  ⟨sampleTop_coinsOk, sampleBlock_connectOk, sampleBlock_connect,
    applyBlockUndo_connectBlockCoins CCoinsViewDB.view_spec (fun _ _ => []) sampleTop_wf
      (by decide) (by decide) sampleTop_coinsOk ⟨_, _, rfl, by decide, by decide⟩
      sampleBlock_connectOk sampleBlock_connect⟩

end TbcNode.Coins.Cache
