import TbcNode.Coins.CacheStack

/-! # Runs of a stack of caches against a single map of coins

`Op.apply` says what each call of the simulation test does to a single map of unspent coins. From
a well formed stack, every allowed run ends in a well formed stack that stands for the map after
the same calls, or in an error of the base's `BatchWrite` (`run_spec`).
-/

namespace TbcNode.Coins.Cache

open TbcNode.Primitives TbcNode.Logic

/-! ### The map the calls are meant to change -/

namespace Op

/-- A call, on a single map of unspent coins. -/
def apply : Op → (COutPoint → Option Coin) → COutPoint → Option Coin
  | .addCoin outpoint coin _ genesisActivationHeight, U =>
    if isUnspendable coin.out.scriptPubKey (coin.getHeight.toNat ≥ genesisActivationHeight) then U
    else Function.update U outpoint (some coin)
  | .spendCoin outpoint, U => Function.update U outpoint none
  | _, U => U

def height : Op → Nat → Nat
  | .push, n => n + 1
  | .pop, n => n - 1
  | _, n => n

/-- A call allowed on a stack of `n` caches standing for `U`: a call on a cache the stack has, and
`AddCoin` of an unspent coin, without `possible_overwrite` only where `U` has no unspent coin, as
the header of `AddCoin` asks. -/
def Allowed : Op → Nat → (COutPoint → Option Coin) → Prop
  | .addCoin outpoint coin possible_overwrite _, n, U =>
    0 < n ∧ coin.isSpent = false ∧ (possible_overwrite = false → U outpoint = none)
  | .uncache depth _, n, _ => depth < n
  | .flush depth, n, _ => depth < n
  | .push, _, _ => True
  | _, n, _ => 0 < n

/-- Every call of a run allowed where it is made. -/
def AllowedRun : List Op → Nat → (COutPoint → Option Coin) → Prop
  | [], _, _ => True
  | op :: ops, n, U => op.Allowed n U ∧ AllowedRun ops (op.height n) (op.apply U)

/-- The calls one after another, on a single map. -/
def applyAll (ops : List Op) (U : COutPoint → Option Coin) : COutPoint → Option Coin :=
  ops.foldl (fun U op => op.apply U) U

@[simp] theorem applyAll_nil (U : COutPoint → Option Coin) : applyAll [] U = U := rfl

@[simp] theorem applyAll_cons (op : Op) (ops : List Op) (U : COutPoint → Option Coin) :
    applyAll (op :: ops) U = applyAll ops (op.apply U) := rfl

end Op

/-! ### The database as the base -/

namespace CCoinsViewDB

/-- The database holds no spent coin: `BatchWrite` erases them. -/
def Unspent (db : CCoinsViewDB) : Prop :=
  ∀ outpoint coin, db.coins.lookup outpoint = some coin → coin.isSpent = false

theorem keyStep_writeCoin :
    KeyStep (ε := String) (fun coins p => pure (writeCoin coins p))
      fun _ entry old new => new = CCoinsViewCache.mergeAt entry old := by
  rintro coins ⟨outpoint, entry⟩ coins' h
  obtain rfl := Except.ok.inj h
  dsimp only
  unfold writeCoin CCoinsViewCache.mergeAt
  by_cases hd : entry.isDirty = true
  · by_cases hs : entry.coin.isSpent = true
    · simp only [hd, hs, ↓reduceIte, AList.lookup_erase, unspent_eq_none.mpr hs, true_and]
      exact fun a ha => AList.lookup_erase_ne ha
    · simp only [hd, hs, ↓reduceIte, AList.lookup_insert,
        unspent_of_not_spent (by simpa using hs), true_and, Bool.false_eq_true]
      exact fun a ha => AList.lookup_insert_ne ha
  · simp [hd]

/-- The database is a base for caches, in the states where it holds no spent coin. -/
theorem view_spec : view.Spec Unspent fun db => db.coins.lookup := by
  refine ⟨fun db outpoint hdb => ?_, fun db mapCoins hashBlock db' hdb h => ?_⟩
  · refine ⟨?_, fun coin hc hs => absurd (hdb outpoint coin hc) (by simp [hs])⟩
    cases hl : db.coins.lookup outpoint with
    | none => simp [view, getCoin, hl]
    | some coin => simp [view, getCoin, hl, unspent_of_not_spent (hdb outpoint coin hl)]
  · simp only [view, batchWrite] at h
    split at h
    · cases h
    · split at h
      · cases h
      · obtain rfl := Except.ok.inj h
        have hfold : (mapCoins.entries.foldlM (fun coins p => pure (writeCoin coins p)) db.coins :
            Except String _) = .ok (mapCoins.entries.foldl writeCoin db.coins) := List.foldlM_pure
        obtain ⟨hR, hother⟩ := keyStep_writeCoin.foldlM mapCoins.nodupKeys hfold
        have hlookup : ∀ outpoint, (mapCoins.entries.foldl writeCoin db.coins).lookup outpoint =
            merge mapCoins (fun o => db.coins.lookup o) outpoint := by
          intro outpoint
          unfold merge
          cases hl : mapCoins.lookup outpoint with
          | some entry => exact hR ⟨outpoint, entry⟩ (AList.mem_lookup_iff.mp hl)
          | none => exact hother outpoint fun hk => AList.lookup_eq_none.mp hl (AList.mem_keys.mpr hk)
        refine ⟨fun outpoint coin hc => ?_, funext hlookup⟩
        rw [hlookup] at hc
        unfold merge at hc
        split at hc
        · split at hc
          · unfold unspent at hc
            split at hc
            · cases hc
            · rename_i hs
              obtain rfl := Option.some.inj hc
              simpa using hs
          · exact hdb outpoint coin hc
        · exact hdb outpoint coin hc

end CCoinsViewDB

/-! ### Calls on the stack -/

variable {σ : Type} {V : CCoinsView σ} {I : σ → Prop} {D : σ → COutPoint → Option Coin}

namespace Stack

/-- The base is well formed, and so is every cache over the caches below it. -/
def Wf (I : σ → Prop) (D : σ → COutPoint → Option Coin) (s : Stack σ) : Prop :=
  I s.base ∧ Cache.Wf D s.base s.caches

def view (D : σ → COutPoint → Option Coin) (s : Stack σ) : COutPoint → Option Coin :=
  Cache.view D s.base s.caches

theorem step_top (hV : V.Spec I D) {base : σ} (hI : I base) {cache : CCoinsViewCache}
    {below : List CCoinsViewCache} (hw : Cache.Wf D base (cache :: below)) {op : Op}
    (hop : op.Allowed (below.length + 1) (Cache.view D base (cache :: below))) :
    (∃ s', Stack.step V ⟨cache :: below, base⟩ op = .ok s' ∧ s'.Wf I D ∧
      s'.view D = op.apply (Cache.view D base (cache :: below)) ∧
      s'.caches.length = op.height (below.length + 1)) ∨
    ∃ e, Stack.step V ⟨cache :: below, base⟩ op = .error e ∧ V.BatchWriteError I e := by
  cases op with
  | accessCoin outpoint =>
    have hf := fetchCoin_fetched hV hI hw outpoint
    rcases hfc : fetchCoin V base cache below outpoint with ⟨entry, cache', below'⟩
    rw [hfc] at hf
    exact .inl ⟨⟨cache' :: below', base⟩, by simp [step, accessCoin, hfc], ⟨hI, hf.wf⟩,
      hf.view_eq, by simp [Op.height, hf.length_eq]⟩
  | haveCoin outpoint =>
    have hf := fetchCoin_fetched hV hI hw outpoint
    rcases hfc : fetchCoin V base cache below outpoint with ⟨entry, cache', below'⟩
    rw [hfc] at hf
    exact .inl ⟨⟨cache' :: below', base⟩, by simp [step, haveCoin, hfc], ⟨hI, hf.wf⟩,
      hf.view_eq, by simp [Op.height, hf.length_eq]⟩
  | addCoin outpoint coin possible_overwrite genesisActivationHeight =>
    obtain ⟨-, hcoin, hpo⟩ := hop
    obtain ⟨hc, hwb⟩ := wf_cons.mp hw
    obtain ⟨cache', hadd, hc', hover⟩ := CCoinsViewCache.addCoin_spec hc
      genesisActivationHeight hcoin hpo
    refine .inl ⟨⟨cache' :: below, base⟩, by simp [step, hadd, bind, Except.bind, pure,
      Except.pure], ⟨hI, hc', hwb⟩, ?_, rfl⟩
    simp only [view, Op.apply, view_cons, hover]
  | spendCoin outpoint =>
    rcases hsp : spendCoin V base cache below outpoint with ⟨found, moveout, cache', below'⟩
    obtain ⟨hw', hv, hlen, -⟩ := spendCoin_spec hV hI hw outpoint hsp
    exact .inl ⟨⟨cache' :: below', base⟩, by simp [step, hsp], ⟨hI, hw'⟩, hv,
      by simp [Op.height, hlen]⟩
  | setBestBlock hashBlock =>
    exact .inl ⟨⟨cache.setBestBlock hashBlock :: below, base⟩, rfl, ⟨hI, hw⟩, rfl, rfl⟩
  | uncache depth outpoint =>
    obtain ⟨hw', hv⟩ := wf_modify_uncache outpoint depth hw
    exact .inl ⟨⟨(cache :: below).modify depth (·.uncache outpoint), base⟩,
      by simp [step, show depth < below.length + 1 from hop], ⟨hI, hw'⟩, hv, by simp [Op.height]⟩
  | flush depth =>
    rcases flushAt_spec hV depth hI hw hop with
      ⟨caches', base', hf, hI', hw', hv, hlen⟩ | ⟨e, hf, he⟩
    · exact .inl ⟨⟨caches', base'⟩, by simp [step, hf, bind, Except.bind, pure, Except.pure],
        ⟨hI', hw'⟩, hv, by simpa [Op.height] using hlen⟩
    · exact .inr ⟨e, by simp [step, hf, bind, Except.bind], he⟩
  | push =>
    exact .inl ⟨⟨CCoinsViewCache.new :: cache :: below, base⟩, rfl,
      ⟨hI, consistent_empty _, hw⟩, by simp [view, CCoinsViewCache.new, Op.apply], rfl⟩
  | pop =>
    rcases flush_spec hV hI hw with ⟨cache', below', base', hf, hI', hw', hv, -, hlen⟩ | ⟨e, hf, he⟩
    · exact .inl ⟨⟨below', base'⟩, by simp [step, hf, bind, Except.bind, pure, Except.pure],
        ⟨hI', (wf_cons.mp hw').2⟩, hv, by simp [Op.height, hlen]⟩
    · exact .inr ⟨e, by simp [step, hf, bind, Except.bind], he⟩

theorem step_spec (hV : V.Spec I D) {s : Stack σ} (hs : s.Wf I D) {op : Op}
    (hop : op.Allowed s.caches.length (s.view D)) :
    (∃ s', s.step V op = .ok s' ∧ s'.Wf I D ∧ s'.view D = op.apply (s.view D) ∧
      s'.caches.length = op.height s.caches.length) ∨
    ∃ e, s.step V op = .error e ∧ V.BatchWriteError I e := by
  obtain ⟨caches, base⟩ := s
  obtain ⟨hI, hw⟩ := hs
  cases caches with
  | cons cache below => exact step_top hV hI hw hop
  | nil =>
    cases op with
    | push =>
      exact .inl ⟨⟨[CCoinsViewCache.new], base⟩, rfl, ⟨hI, consistent_empty _, trivial⟩,
        by simp [view, CCoinsViewCache.new, Op.apply], rfl⟩
    | addCoin => exact absurd hop.1 (Nat.lt_irrefl 0)
    | uncache depth outpoint => exact absurd hop (Nat.not_lt_zero depth)
    | flush depth => exact absurd hop (Nat.not_lt_zero depth)
    | _ => exact absurd hop (Nat.lt_irrefl 0)

/-- A run of allowed calls ends in a well formed stack that stands for the single map after the
same calls, unless it stops at an error of `BatchWrite` of the base. -/
theorem run_spec (hV : V.Spec I D) :
    ∀ (ops : List Op) {s : Stack σ}, s.Wf I D →
      Op.AllowedRun ops s.caches.length (s.view D) →
      (∃ s', s.run V ops = .ok s' ∧ s'.Wf I D ∧ s'.view D = Op.applyAll ops (s.view D)) ∨
      ∃ e, s.run V ops = .error e ∧ V.BatchWriteError I e
  | [], s, hs, _ => .inl ⟨s, rfl, hs, rfl⟩
  | op :: ops, s, hs, ⟨hop, hops⟩ => by
    rcases step_spec hV hs hop with ⟨s₁, h₁, hs₁, hv₁, hlen₁⟩ | ⟨e, h₁, he⟩
    · rw [← hv₁, ← hlen₁] at hops
      rcases run_spec hV ops hs₁ hops with ⟨s', h', hs', hv'⟩ | ⟨e, h', he⟩
      · refine .inl ⟨s', by simp [run, h₁, h', bind, Except.bind], hs', ?_⟩
        rw [hv', hv₁, Op.applyAll_cons]
      · exact .inr ⟨e, by simp [run, h₁, h', bind, Except.bind], he⟩
    · exact .inr ⟨e, by simp [run, h₁, bind, Except.bind], he⟩

end Stack

/-! ### A run over the database -/

def sampleStack : Stack CCoinsViewDB := ⟨[CCoinsViewCache.new], ⟨∅, none, none⟩⟩

def sampleOutpoint : COutPoint := ⟨Vector.replicate 32 1, 0⟩

def sampleCoin : Coin := ⟨⟨50, []⟩, 2⟩

def sampleOps : List Op :=
  [.addCoin sampleOutpoint sampleCoin false 0, .push, .spendCoin sampleOutpoint, .pop,
    .setBestBlock (Vector.replicate 32 7), .flush 0]

theorem sampleStack_wf : sampleStack.Wf CCoinsViewDB.Unspent fun db => db.coins.lookup :=
  ⟨fun _ _ h => by simp [sampleStack] at h, consistent_empty _, trivial⟩

theorem sampleOps_allowed :
    Op.AllowedRun sampleOps sampleStack.caches.length (sampleStack.view fun db => db.coins.lookup) := by
  simp [Op.AllowedRun, Op.Allowed, Op.height, sampleOps, sampleStack, Stack.view, sampleCoin,
    Coin.isSpent, CTxOut.isNull, CCoinsViewCache.new]

theorem sampleStack_run : sampleStack.run CCoinsViewDB.view sampleOps =
    .ok ⟨[⟨Vector.replicate 32 7, ∅⟩], ⟨∅, some (Vector.replicate 32 7), none⟩⟩ := rfl

/-- After a run of allowed calls, `AccessCoin` and `HaveCoin` of the top cache answer as the single
map after the same calls does. -/
theorem run_reads (hV : V.Spec I D) {s s' : Stack σ} (hs : s.Wf I D) {ops : List Op}
    (hops : Op.AllowedRun ops s.caches.length (s.view D)) (h : s.run V ops = .ok s')
    {cache : CCoinsViewCache} {below : List CCoinsViewCache} (htop : s'.caches = cache :: below)
    (outpoint : COutPoint) :
    (accessCoin V s'.base cache below outpoint).1 =
        (Op.applyAll ops (s.view D) outpoint).getD coinEmpty ∧
      (haveCoin V s'.base cache below outpoint).1 = (Op.applyAll ops (s.view D) outpoint).isSome := by
  rcases Stack.run_spec hV ops hs hops with ⟨s'', h'', ⟨hI, hw⟩, hv⟩ | ⟨e, h'', -⟩
  · obtain rfl : s' = s'' := Except.ok.inj (h.symm.trans h'')
    rw [htop] at hw
    rw [accessCoin_eq hV hI hw, haveCoin_eq hV hI hw, ← hv, Stack.view, htop]
    exact ⟨rfl, rfl⟩
  · rw [h] at h''
    cases h''

theorem run_reads_sample :
    (accessCoin CCoinsViewDB.view ⟨∅, some (Vector.replicate 32 7), none⟩
        ⟨Vector.replicate 32 7, ∅⟩ [] sampleOutpoint).1 =
        (Op.applyAll sampleOps (sampleStack.view fun db => db.coins.lookup) sampleOutpoint).getD
          coinEmpty ∧
      (haveCoin CCoinsViewDB.view ⟨∅, some (Vector.replicate 32 7), none⟩
        ⟨Vector.replicate 32 7, ∅⟩ [] sampleOutpoint).1 =
        (Op.applyAll sampleOps (sampleStack.view fun db => db.coins.lookup) sampleOutpoint).isSome :=
  run_reads CCoinsViewDB.view_spec sampleStack_wf sampleOps_allowed sampleStack_run rfl sampleOutpoint

/-- A run of allowed calls throws no `logic_error` of a cache and trips no `assert` of one: every
error it stops at is one of `BatchWrite` of the base. -/
theorem run_error_of_batchWrite (hV : V.Spec I D) {s : Stack σ} (hs : s.Wf I D) {ops : List Op}
    (hops : Op.AllowedRun ops s.caches.length (s.view D)) :
    ∀ e, s.run V ops = .error e → V.BatchWriteError I e := by
  intro e h
  rcases Stack.run_spec hV ops hs hops with ⟨s', h', -⟩ | ⟨e', h', he'⟩
  · rw [h] at h'
    cases h'
  · rw [h] at h'
    obtain rfl := Except.error.inj h'
    exact he'


/-- The same coin added with `possible_overwrite` and flushed at once, with the block hash still
null: the database's `assert` on it is the error. -/
theorem run_error_of_batchWrite_sample :
    sampleStack.Wf CCoinsViewDB.Unspent (fun db => db.coins.lookup) ∧
      Op.AllowedRun [.addCoin sampleOutpoint sampleCoin true 0, .flush 0] sampleStack.caches.length
        (sampleStack.view fun db => db.coins.lookup) ∧
      ∀ e, sampleStack.run CCoinsViewDB.view [.addCoin sampleOutpoint sampleCoin true 0, .flush 0] =
        .error e → CCoinsViewDB.view.BatchWriteError CCoinsViewDB.Unspent e :=
  have hops : Op.AllowedRun [.addCoin sampleOutpoint sampleCoin true 0, .flush 0]
      sampleStack.caches.length (sampleStack.view fun db => db.coins.lookup) := by
    simp [Op.AllowedRun, Op.Allowed, Op.height, sampleStack, sampleCoin, Coin.isSpent,
      CTxOut.isNull]
  ⟨sampleStack_wf, hops, run_error_of_batchWrite CCoinsViewDB.view_spec sampleStack_wf hops⟩

end TbcNode.Coins.Cache
