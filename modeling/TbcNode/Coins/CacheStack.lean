import TbcNode.Coins.CacheWf

/-! # A stack of caches over a view

`CCoinsView.Spec` says what the caches need of the base view. The calls of a cache keep the stack
well formed (`Wf`) and change the map it stands for only as their names say: reads and `Flush`
not at all, `SpendCoin` by removing the coin.
-/

namespace TbcNode.Coins.Cache

open TbcNode.Primitives TbcNode.Logic

variable {σ : Type}

/-- What a view below the caches must do, in the states `I` it is well formed in, where it stands
for `D`: `GetCoin` reads what it stands for, and `BatchWrite` writes the dirty entries it is given
and leaves it well formed. -/
structure CCoinsView.Spec (V : CCoinsView σ) (I : σ → Prop) (D : σ → COutPoint → Option Coin) :
    Prop where
  getCoin_reads : ∀ t outpoint, I t → Reads (V.getCoin t outpoint) (D t outpoint)
  batchWrite_merge : ∀ t mapCoins hashBlock t', I t →
    V.batchWrite t mapCoins hashBlock = .ok t' → I t' ∧ D t' = merge mapCoins (D t)

/-- An error that `BatchWrite` of the base can return from a state it is well formed in. -/
def CCoinsView.BatchWriteError (V : CCoinsView σ) (I : σ → Prop) (e : String) : Prop :=
  ∃ t mapCoins hashBlock, I t ∧ V.batchWrite t mapCoins hashBlock = .error e

section View

variable (D : σ → COutPoint → Option Coin)

/-- What the caches over `base` stand for: each laid over the ones below it. -/
def view (base : σ) (caches : List CCoinsViewCache) : COutPoint → Option Coin :=
  caches.foldr (fun cache B => overlay cache.cacheCoins B) (D base)

/-- Every cache is consistent over the caches below it. -/
def Wf (base : σ) : List CCoinsViewCache → Prop
  | [] => True
  | cache :: below => Consistent cache.cacheCoins (view D base below) ∧ Wf base below

/-- `GetCoin` of the caches `caches` over `base`, with result `r`: it reads what they stand for,
and leaves them well formed, as many, and standing for the same. -/
structure GetCoinOk (base : σ) (caches : List CCoinsViewCache) (outpoint : COutPoint)
    (r : Option Coin × List CCoinsViewCache) : Prop where
  reads : Reads r.1 (view D base caches outpoint)
  wf : Wf D base r.2
  view_eq : view D base r.2 = view D base caches
  length_eq : r.2.length = caches.length

/-- `FetchCoinNL` of `cache` over `below` and `base`, with result `r`: it reads what the stack
stands for, leaves it well formed and standing for the same, and returns the cache's entry. -/
structure Fetched (base : σ) (cache : CCoinsViewCache) (below : List CCoinsViewCache)
    (outpoint : COutPoint) (r : Option CCoinsCacheEntry × CCoinsViewCache × List CCoinsViewCache) :
    Prop where
  reads : Reads (r.1.map (·.coin)) (view D base (cache :: below) outpoint)
  wf : Wf D base (r.2.1 :: r.2.2)
  view_eq : view D base (r.2.1 :: r.2.2) = view D base (cache :: below)
  length_eq : r.2.2.length = below.length
  lookup_eq : ∀ entry, r.1 = some entry → r.2.1.cacheCoins.lookup outpoint = some entry

variable {D}

@[simp] theorem view_nil (base : σ) : view D base [] = D base := rfl

@[simp] theorem view_cons (base : σ) (cache : CCoinsViewCache) (below : List CCoinsViewCache) :
    view D base (cache :: below) = overlay cache.cacheCoins (view D base below) := rfl

@[simp] theorem wf_nil (base : σ) : Wf D base [] := trivial

@[simp] theorem wf_cons {base : σ} {cache : CCoinsViewCache} {below : List CCoinsViewCache} :
    Wf D base (cache :: below) ↔
      Consistent cache.cacheCoins (view D base below) ∧ Wf D base below := Iff.rfl

theorem Wf.cons_of_view_eq {base base' : σ} {cache : CCoinsViewCache}
    {below below' : List CCoinsViewCache} (hw : Wf D base (cache :: below))
    (hw' : Wf D base' below') (hv : view D base' below' = view D base below) :
    Wf D base' (cache :: below') := by
  rw [wf_cons, hv]
  exact ⟨hw.1, hw'⟩

end View

section Calls

variable {V : CCoinsView σ} {I : σ → Prop} {D : σ → COutPoint → Option Coin}

theorem fetchCoinNL_fetched {base : σ} {cache : CCoinsViewCache} {below : List CCoinsViewCache}
    (hw : Wf D base (cache :: below)) {outpoint : COutPoint}
    {fromBelow : Option Coin × List CCoinsViewCache}
    (hb : GetCoinOk D base below outpoint fromBelow) :
    Fetched D base cache below outpoint (cache.fetchCoinNL outpoint below fromBelow) := by
  obtain ⟨hc, hwb⟩ := wf_cons.mp hw
  obtain ⟨hc', hover, hreads, hlookup, hbelow⟩ :=
    CCoinsViewCache.fetchCoinNL_spec hc below hb.reads
  have hb' : Wf D base (cache.fetchCoinNL outpoint below fromBelow).2.2 ∧
      view D base (cache.fetchCoinNL outpoint below fromBelow).2.2 = view D base below ∧
      (cache.fetchCoinNL outpoint below fromBelow).2.2.length = below.length := by
    rcases hbelow with h | h <;> rw [h]
    · exact ⟨hwb, rfl, rfl⟩
    · exact ⟨hb.wf, hb.view_eq, hb.length_eq⟩
  refine ⟨hreads, ?_, ?_, hb'.2.2, hlookup⟩
  · rw [wf_cons, hb'.2.1]
    exact ⟨hc', hb'.1⟩
  · rw [view_cons, view_cons, hb'.2.1, hover]

theorem getCoin_ok (hV : V.Spec I D) {base : σ} (hI : I base) (outpoint : COutPoint) :
    ∀ {caches : List CCoinsViewCache}, Wf D base caches →
      GetCoinOk D base caches outpoint (getCoin V base outpoint caches)
  | [], _ => ⟨hV.getCoin_reads base outpoint hI, trivial, rfl, rfl⟩
  | cache :: below, hw => by
    have hf := fetchCoinNL_fetched hw (getCoin_ok hV hI outpoint (wf_cons.mp hw).2)
    exact ⟨hf.reads, hf.wf, hf.view_eq, by simpa [getCoin] using hf.length_eq⟩

theorem fetchCoin_fetched (hV : V.Spec I D) {base : σ} (hI : I base) {cache : CCoinsViewCache}
    {below : List CCoinsViewCache} (hw : Wf D base (cache :: below)) (outpoint : COutPoint) :
    Fetched D base cache below outpoint (fetchCoin V base cache below outpoint) :=
  fetchCoinNL_fetched hw (getCoin_ok hV hI outpoint (wf_cons.mp hw).2)

theorem accessCoin_eq (hV : V.Spec I D) {base : σ} (hI : I base) {cache : CCoinsViewCache}
    {below : List CCoinsViewCache} (hw : Wf D base (cache :: below)) (outpoint : COutPoint) :
    (accessCoin V base cache below outpoint).1 =
      (view D base (cache :: below) outpoint).getD coinEmpty :=
  (fetchCoin_fetched hV hI hw outpoint).reads.getD_eq

theorem haveCoin_eq (hV : V.Spec I D) {base : σ} (hI : I base) {cache : CCoinsViewCache}
    {below : List CCoinsViewCache} (hw : Wf D base (cache :: below)) (outpoint : COutPoint) :
    (haveCoin V base cache below outpoint).1 = (view D base (cache :: below) outpoint).isSome := by
  have hr := (fetchCoin_fetched hV hI hw outpoint).reads
  unfold haveCoin
  rcases hfc : fetchCoin V base cache below outpoint with ⟨entry, cache', below'⟩
  rw [hfc] at hr
  rw [← hr.unspent_eq]
  cases entry with
  | none => rfl
  | some entry => by_cases hs : entry.coin.isSpent <;> simp [unspent, hs]

theorem spendCoin_spec (hV : V.Spec I D) {base : σ} (hI : I base) {cache : CCoinsViewCache}
    {below : List CCoinsViewCache} (hw : Wf D base (cache :: below)) (outpoint : COutPoint)
    {found : Bool} {moveout : Option Coin} {cache' : CCoinsViewCache}
    {below' : List CCoinsViewCache}
    (h : spendCoin V base cache below outpoint = (found, moveout, cache', below')) :
    Wf D base (cache' :: below') ∧
      view D base (cache' :: below') =
        Function.update (view D base (cache :: below)) outpoint none ∧
      below'.length = below.length ∧
      Reads moveout (view D base (cache :: below) outpoint) ∧ found = moveout.isSome := by
  have hf := fetchCoin_fetched hV hI hw outpoint
  simp only [spendCoin] at h
  rcases hfc : fetchCoin V base cache below outpoint with ⟨entry, cacheF, belowF⟩
  rw [hfc] at hf h
  obtain ⟨hc, hwb⟩ := wf_cons.mp hf.wf
  have hr : Reads (entry.map (·.coin)) (overlay cacheF.cacheCoins (view D base belowF) outpoint) := by
    rw [← view_cons, hf.view_eq]
    exact hf.reads
  obtain ⟨hc', hover, hmove, hfound⟩ := CCoinsViewCache.spendEntry_spec hc hf.lookup_eq hr
  rcases hse : cacheF.spendEntry outpoint entry with ⟨found', moveout', cache''⟩
  rw [hse] at hc' hover hmove hfound
  dsimp only at hc' hover hmove hfound
  simp only [hse, Prod.mk.injEq] at h
  obtain ⟨rfl, rfl, rfl, rfl⟩ := h
  refine ⟨⟨hc', hwb⟩, ?_, hf.length_eq, ?_, ?_⟩
  · rw [view_cons, hover, ← view_cons, hf.view_eq]
  · rw [hmove]
    exact hf.reads
  · rw [hfound, hmove, Option.isSome_map]

theorem batchWriteBelow_spec (hV : V.Spec I D) {base : σ} (hI : I base)
    {below : List CCoinsViewCache} (hw : Wf D base below) {mapCoins : CCoinsMap}
    (hm : Consistent mapCoins (view D base below)) (hashBlock : uint256) :
    (∃ below' base', batchWriteBelow V base mapCoins hashBlock below = .ok (below', base') ∧
      I base' ∧ Wf D base' below' ∧
      view D base' below' = overlay mapCoins (view D base below) ∧
      below'.length = below.length) ∨
    ∃ e, batchWriteBelow V base mapCoins hashBlock below = .error e ∧ V.BatchWriteError I e := by
  cases below with
  | nil =>
    cases hb : V.batchWrite base mapCoins hashBlock with
    | error e => exact .inr ⟨e, by simp [batchWriteBelow, hb, bind, Except.bind], base, mapCoins,
        hashBlock, hI, hb⟩
    | ok base' =>
      obtain ⟨hI', hD⟩ := hV.batchWrite_merge base mapCoins hashBlock base' hI hb
      refine .inl ⟨[], base', by simp [batchWriteBelow, hb, bind, Except.bind, pure, Except.pure],
        hI', trivial, ?_, rfl⟩
      simp only [view_nil] at hm ⊢
      rw [hD, hm.merge_eq]
  | cons cache below =>
    obtain ⟨hc, hwb⟩ := wf_cons.mp hw
    obtain ⟨cache', hb, hc', hover, -⟩ := CCoinsViewCache.batchWrite_spec hc hm hashBlock
    refine .inl ⟨cache' :: below, base, ?_, hI, ⟨hc', hwb⟩, ?_, rfl⟩
    · simp [batchWriteBelow, hb, bind, Except.bind, pure, Except.pure]
    · rw [view_cons, hover, view_cons]

theorem flush_spec (hV : V.Spec I D) {base : σ} (hI : I base) {cache : CCoinsViewCache}
    {below : List CCoinsViewCache} (hw : Wf D base (cache :: below)) :
    (∃ cache' below' base', flush V base cache below = .ok (cache', below', base') ∧
      I base' ∧ Wf D base' (cache' :: below') ∧
      view D base' below' = view D base (cache :: below) ∧ cache'.cacheCoins = ∅ ∧
      below'.length = below.length) ∨
    ∃ e, flush V base cache below = .error e ∧ V.BatchWriteError I e := by
  obtain ⟨hc, hwb⟩ := wf_cons.mp hw
  rcases batchWriteBelow_spec hV hI hwb hc cache.hashBlock with
    ⟨below', base', hb, hI', hw', hv, hlen⟩ | ⟨e, hb, he⟩
  · refine .inl ⟨{ cache with cacheCoins := ∅ }, below', base', ?_, hI', ⟨consistent_empty _, hw'⟩,
      hv, rfl, hlen⟩
    simp [flush, hb, bind, Except.bind, pure, Except.pure]
  · exact .inr ⟨e, by simp [flush, hb, bind, Except.bind], he⟩

theorem flushAt_spec (hV : V.Spec I D) :
    ∀ (depth : Nat) {base : σ} {caches : List CCoinsViewCache}, I base → Wf D base caches →
      depth < caches.length →
      (∃ caches' base', flushAt V base depth caches = .ok (caches', base') ∧ I base' ∧
        Wf D base' caches' ∧ view D base' caches' = view D base caches ∧
        caches'.length = caches.length) ∨
      ∃ e, flushAt V base depth caches = .error e ∧ V.BatchWriteError I e
  | _, _, [], _, _, hd => absurd hd (Nat.not_lt_zero _)
  | 0, base, cache :: below, hI, hw, _ => by
    rcases flush_spec hV hI hw with ⟨cache', below', base', hf, hI', hw', hv, hempty, hlen⟩ | ⟨e, hf, he⟩
    · refine .inl ⟨cache' :: below', base', by simp [flushAt, hf, bind, Except.bind, pure,
        Except.pure], hI', hw', ?_, by simp [hlen]⟩
      rw [view_cons, hempty, overlay_empty, hv]
    · exact .inr ⟨e, by simp [flushAt, hf, bind, Except.bind], he⟩
  | depth + 1, base, cache :: below, hI, hw, hd => by
    rcases flushAt_spec hV depth hI (wf_cons.mp hw).2 (by simpa using hd) with
      ⟨below', base', hf, hI', hw', hv, hlen⟩ | ⟨e, hf, he⟩
    · refine .inl ⟨cache :: below', base', by simp [flushAt, hf, bind, Except.bind, pure,
        Except.pure], hI', hw.cons_of_view_eq hw' hv, ?_, by simp [hlen]⟩
      rw [view_cons, view_cons, hv]
    · exact .inr ⟨e, by simp [flushAt, hf, bind, Except.bind], he⟩

theorem wf_modify_uncache {base : σ} (outpoint : COutPoint) :
    ∀ (depth : Nat) {caches : List CCoinsViewCache}, Wf D base caches →
      Wf D base (caches.modify depth (·.uncache outpoint)) ∧
        view D base (caches.modify depth (·.uncache outpoint)) = view D base caches
  | _, [], _ => by simp
  | 0, cache :: below, hw => by
    obtain ⟨hc, hover⟩ := CCoinsViewCache.uncache_spec (wf_cons.mp hw).1 outpoint
    rw [List.modify_zero_cons]
    exact ⟨⟨hc, (wf_cons.mp hw).2⟩, by rw [view_cons, hover, view_cons]⟩
  | depth + 1, cache :: below, hw => by
    obtain ⟨hw', hv⟩ := wf_modify_uncache outpoint depth (wf_cons.mp hw).2
    rw [List.modify_succ_cons]
    exact ⟨hw.cons_of_view_eq hw' hv, by rw [view_cons, view_cons, hv]⟩

end Calls

end TbcNode.Coins.Cache
