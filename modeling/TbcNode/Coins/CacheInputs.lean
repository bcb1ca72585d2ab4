import TbcNode.Coins.CacheRun
import TbcNode.Consensus.TxCheck

/-! # The inputs check against a stack of caches

`Consensus::CheckTxInputs` reads its view through `AccessCoin` and `HaveCoin` only, and a stack of
caches answers both as the map of coins it stands for; so after any allowed run the check against
the stack is the check against that map (`run_checkTxInputs`).
-/

namespace TbcNode.Coins.Cache

open TbcNode.Primitives TbcNode.Consensus

variable {σ : Type} {V : CCoinsView σ} {I : σ → Prop} {D : σ → COutPoint → Option Coin}

/-- A map of unspent coins, as the view the validation code reads. -/
def ofMap (U : COutPoint → Option Coin) : Coins.CCoinsViewCache := ⟨U⟩

/-- The view a stack gives the validation code: what `GetCoin` of its top finds. -/
def Stack.coinsView (V : CCoinsView σ) (s : Stack σ) : Coins.CCoinsViewCache :=
  ⟨fun outpoint => (getCoin V s.base outpoint s.caches).1⟩

theorem view_unspent (hV : V.Spec I D) {base : σ} (hI : I base) :
    ∀ (caches : List CCoinsViewCache) {outpoint : COutPoint} {coin : Coin},
      view D base caches outpoint = some coin → coin.isSpent = false
  | [], outpoint, coin, h => by
    rw [view_nil, ← (hV.getCoin_reads base outpoint hI).unspent_eq] at h
    obtain ⟨found, -, hf⟩ := Option.bind_eq_some_iff.mp h
    unfold unspent at hf
    split at hf
    · cases hf
    · obtain rfl := Option.some.inj hf
      simpa using ‹¬found.isSpent = true›
  | cache :: below, outpoint, coin, h => by
    rw [view_cons, overlay] at h
    cases hl : cache.cacheCoins.lookup outpoint with
    | none =>
      rw [hl] at h
      exact view_unspent hV hI below h
    | some entry =>
      rw [hl, heldAt] at h
      unfold unspent at h
      split at h
      · cases h
      · obtain rfl := Option.some.inj h
        simpa using ‹¬entry.coin.isSpent = true›

theorem coinsView_accessCoin (hV : V.Spec I D) {s : Stack σ} (hs : s.Wf I D) :
    (s.coinsView V).accessCoin = (ofMap (s.view D)).accessCoin := by
  funext outpoint
  exact (getCoin_ok hV hs.1 outpoint hs.2).reads.getD_eq

theorem view_bind_unspent (hV : V.Spec I D) {base : σ} (hI : I base)
    (caches : List CCoinsViewCache) (outpoint : COutPoint) :
    (view D base caches outpoint).bind unspent = view D base caches outpoint := by
  cases hv : view D base caches outpoint with
  | none => rfl
  | some coin => exact unspent_of_not_spent (view_unspent hV hI caches hv)

theorem haveCoin_eq_isSome_bind (v : Coins.CCoinsViewCache) (outpoint : COutPoint) :
    v.haveCoin outpoint = ((v.fetchCoin outpoint).bind unspent).isSome := by
  unfold Coins.CCoinsViewCache.haveCoin
  cases v.fetchCoin outpoint with
  | none => rfl
  | some coin => by_cases hsp : coin.isSpent <;> simp [unspent, hsp]

theorem coinsView_haveCoin (hV : V.Spec I D) {s : Stack σ} (hs : s.Wf I D) :
    (s.coinsView V).haveCoin = (ofMap (s.view D)).haveCoin := by
  funext outpoint
  rw [haveCoin_eq_isSome_bind, haveCoin_eq_isSome_bind]
  show ((getCoin V s.base outpoint s.caches).1.bind unspent).isSome =
    ((view D s.base s.caches outpoint).bind unspent).isSome
  rw [(getCoin_ok hV hs.1 outpoint hs.2).reads.unspent_eq, view_bind_unspent hV hs.1]

/-- `CheckTxInputs` reads its view through `AccessCoin` and `HaveCoin` only. -/
theorem checkTxInputs_congr {v w : Coins.CCoinsViewCache} (hacc : v.accessCoin = w.accessCoin)
    (hhave : v.haveCoin = w.haveCoin) (tx : CTransaction) (nSpendHeight : Int32) :
    checkTxInputs tx v nSpendHeight = checkTxInputs tx w nSpendHeight := by
  have hcoin : inputCoinCheck v = inputCoinCheck w := by
    funext n txin
    simp only [inputCoinCheck, hacc]
  have hvalue : inputValue v = inputValue w := by
    funext txin
    simp only [inputValue, hacc]
  have hcheck : inputValueCheck v = inputValueCheck w := by
    funext txin nValueIn
    simp only [inputValueCheck, hvalue]
  simp only [checkTxInputs, checkInputValues, Coins.CCoinsViewCache.haveInputs, hcoin, hvalue,
    hcheck, hhave]

/-- After a run of allowed calls, `CheckTxInputs` against the stack decides as against the single
map after the same calls. -/
theorem run_checkTxInputs (hV : V.Spec I D) {s s' : Stack σ} (hs : s.Wf I D) {ops : List Op}
    (hops : Op.AllowedRun ops s.caches.length (s.view D)) (h : s.run V ops = .ok s')
    (tx : CTransaction) (nSpendHeight : Int32) :
    checkTxInputs tx (s'.coinsView V) nSpendHeight =
      checkTxInputs tx (ofMap (Op.applyAll ops (s.view D))) nSpendHeight := by
  rcases Stack.run_spec hV ops hs hops with ⟨s'', h'', hs'', hv⟩ | ⟨e, h'', -⟩
  · obtain rfl : s' = s'' := Except.ok.inj (h.symm.trans h'')
    rw [← hv]
    exact checkTxInputs_congr (coinsView_accessCoin hV hs'') (coinsView_haveCoin hV hs'') tx
      nSpendHeight
  · rw [h] at h''
    cases h''

def sampleSpend : CTransaction := ⟨1, [⟨sampleOutpoint, [], 0xffffffff⟩], [], 0,
  Vector.replicate 32 2⟩

theorem run_checkTxInputs_sample :
    checkTxInputs sampleSpend
        (Stack.coinsView CCoinsViewDB.view
          ⟨[⟨Vector.replicate 32 7, ∅⟩], ⟨∅, some (Vector.replicate 32 7), none⟩⟩) 2 =
      checkTxInputs sampleSpend
        (ofMap (Op.applyAll sampleOps (sampleStack.view fun db => db.coins.lookup))) 2 :=
  run_checkTxInputs CCoinsViewDB.view_spec sampleStack_wf sampleOps_allowed sampleStack_run
    sampleSpend 2

end TbcNode.Coins.Cache
