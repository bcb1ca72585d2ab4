import TbcNode.Coins.Cache

/-! # What a cache stands for, and the calls on one cache

A cache over a view standing for `B` stands for `overlay m B`; its flags are facts about the view
below (`EntryOk`). Each call keeps a cache `Consistent` and changes what it stands for as the call
says, and neither `logic_error` of `AddCoin` and `BatchWrite` can be thrown.
-/

namespace TbcNode.Coins.Cache

open TbcNode.Primitives TbcNode.Logic

/-! ### Flags -/

section Flags

theorem dirty_or_dirty (f : UInt8) : ((f ||| DIRTY) &&& DIRTY != 0) = true := by
  rcases f with ⟨b⟩
  revert b
  decide

theorem fresh_or_dirty (f : UInt8) : ((f ||| DIRTY) &&& FRESH != 0) = (f &&& FRESH != 0) := by
  rcases f with ⟨b⟩
  revert b
  decide

theorem dirty_or_dirty_fresh (f : UInt8) : ((f ||| (DIRTY ||| FRESH)) &&& DIRTY != 0) = true := by
  rcases f with ⟨b⟩
  revert b
  decide

theorem fresh_or_dirty_fresh (f : UInt8) : ((f ||| (DIRTY ||| FRESH)) &&& FRESH != 0) = true := by
  rcases f with ⟨b⟩
  revert b
  decide

end Flags

namespace CCoinsCacheEntry

variable (coin : Coin)

@[simp] theorem isDirty_or_dirty (f : UInt8) :
    (⟨coin, f ||| DIRTY⟩ : CCoinsCacheEntry).isDirty = true := dirty_or_dirty f

@[simp] theorem isFresh_or_dirty (entry : CCoinsCacheEntry) :
    (⟨coin, entry.flags ||| DIRTY⟩ : CCoinsCacheEntry).isFresh = entry.isFresh :=
  fresh_or_dirty entry.flags

@[simp] theorem isDirty_or_dirty_fresh (f : UInt8) :
    (⟨coin, f ||| (DIRTY ||| FRESH)⟩ : CCoinsCacheEntry).isDirty = true := dirty_or_dirty_fresh f

@[simp] theorem isFresh_or_dirty_fresh (f : UInt8) :
    (⟨coin, f ||| (DIRTY ||| FRESH)⟩ : CCoinsCacheEntry).isFresh = true := fresh_or_dirty_fresh f

@[simp] theorem isDirty_fresh : (⟨coin, FRESH⟩ : CCoinsCacheEntry).isDirty = false := by
  show ((FRESH) &&& DIRTY != 0) = false
  decide

@[simp] theorem isFresh_fresh : (⟨coin, FRESH⟩ : CCoinsCacheEntry).isFresh = true := by
  show ((FRESH) &&& FRESH != 0) = true
  decide

@[simp] theorem isDirty_zero : (⟨coin, 0⟩ : CCoinsCacheEntry).isDirty = false := by
  show ((0) &&& DIRTY != 0) = false
  decide

@[simp] theorem isFresh_zero : (⟨coin, 0⟩ : CCoinsCacheEntry).isFresh = false := by
  show ((0) &&& FRESH != 0) = false
  decide

@[simp] theorem isDirty_dirty_fresh : (⟨coin, DIRTY ||| FRESH⟩ : CCoinsCacheEntry).isDirty = true := by
  show ((DIRTY ||| FRESH) &&& DIRTY != 0) = true
  decide

@[simp] theorem isFresh_dirty_fresh : (⟨coin, DIRTY ||| FRESH⟩ : CCoinsCacheEntry).isFresh = true := by
  show ((DIRTY ||| FRESH) &&& FRESH != 0) = true
  decide

@[simp] theorem isDirty_dirty : (⟨coin, DIRTY⟩ : CCoinsCacheEntry).isDirty = true := by
  show ((DIRTY) &&& DIRTY != 0) = true
  decide

@[simp] theorem isFresh_dirty : (⟨coin, DIRTY⟩ : CCoinsCacheEntry).isFresh = false := by
  show ((DIRTY) &&& FRESH != 0) = false
  decide

theorem isDirty_of_flags_eq_zero {entry : CCoinsCacheEntry} (h : entry.flags = 0) :
    entry.isDirty = false := by
  rw [isDirty, h]
  decide

end CCoinsCacheEntry

/-! ### Unspent coins -/

def unspent (coin : Coin) : Option Coin := if coin.isSpent then none else some coin

@[simp] theorem unspent_eq_none {coin : Coin} : unspent coin = none ↔ coin.isSpent = true := by
  unfold unspent
  split <;> simp_all

theorem unspent_of_not_spent {coin : Coin} (h : coin.isSpent = false) : unspent coin = some coin := by
  simp [unspent, h]

@[simp] theorem coinEmpty_isSpent : coinEmpty.isSpent = true := by decide

@[simp] theorem unspent_coinEmpty : unspent coinEmpty = none := by simp [unspent]

/-- A coin `found` for an outpoint that a view holds `held` for: the same unspent coin, and a spent
coin only as the empty coin. -/
structure Reads (found held : Option Coin) : Prop where
  unspent_eq : found.bind unspent = held
  empty_of_spent : ∀ coin, found = some coin → coin.isSpent = true → coin = coinEmpty

namespace Reads

variable {found held : Option Coin}

theorem getD_eq (h : Reads found held) : found.getD coinEmpty = held.getD coinEmpty := by
  rw [← h.unspent_eq]
  cases found with
  | none => rfl
  | some coin =>
    by_cases hs : coin.isSpent
    · simp [unspent, h.empty_of_spent coin rfl hs]
    · simp [unspent, hs]

theorem eq_none_of_none (h : Reads none held) : held = none := h.unspent_eq.symm

end Reads

/-! ### Entries over the view below -/

/-- What a slot of a cache, an entry or none, stands for over a view below that holds `below`. -/
def heldAt : Option CCoinsCacheEntry → Option Coin → Option Coin
  | some entry, _ => unspent entry.coin
  | none, below => below

/-- What a cache with entries `m` stands for over a view that stands for `B`. -/
def overlay (m : CCoinsMap) (B : COutPoint → Option Coin) : COutPoint → Option Coin :=
  fun outpoint => heldAt (m.lookup outpoint) (B outpoint)

/-- The view below after the dirty entries of `m` are written into it, as `BatchWrite` of the
database writes them. -/
def merge (m : CCoinsMap) (B : COutPoint → Option Coin) : COutPoint → Option Coin :=
  fun outpoint =>
    match m.lookup outpoint with
    | some entry => if entry.isDirty then unspent entry.coin else B outpoint
    | none => B outpoint

/-- An entry over a view below that holds `below` for its outpoint. -/
structure EntryOk (entry : CCoinsCacheEntry) (below : Option Coin) : Prop where
  empty_of_spent : entry.coin.isSpent = true → entry.coin = coinEmpty
  held_of_clean : entry.isDirty = false → unspent entry.coin = below
  none_of_fresh : entry.isFresh = true → below = none

/-- A slot holds no entry, or one that is right over `below`. -/
def SlotOk (slot : Option CCoinsCacheEntry) (below : Option Coin) : Prop :=
  ∀ entry, slot = some entry → EntryOk entry below

/-- Every entry of `m` is right over the view below standing for `B`. -/
def Consistent (m : CCoinsMap) (B : COutPoint → Option Coin) : Prop :=
  ∀ outpoint, SlotOk (m.lookup outpoint) (B outpoint)

section Maps

variable {m : CCoinsMap} {B : COutPoint → Option Coin}

@[simp] theorem overlay_empty (B : COutPoint → Option Coin) : overlay ∅ B = B := by
  funext outpoint
  simp [overlay, heldAt]

theorem overlay_insert (m : CCoinsMap) (B : COutPoint → Option Coin) (outpoint : COutPoint)
    (entry : CCoinsCacheEntry) :
    overlay (m.insert outpoint entry) B =
      Function.update (overlay m B) outpoint (unspent entry.coin) := by
  funext o
  by_cases ho : o = outpoint
  · subst ho
    simp [overlay, heldAt]
  · simp [overlay, AList.lookup_insert_ne ho, ho]

theorem overlay_erase (m : CCoinsMap) (B : COutPoint → Option Coin) (outpoint : COutPoint) :
    overlay (m.erase outpoint) B = Function.update (overlay m B) outpoint (B outpoint) := by
  funext o
  by_cases ho : o = outpoint
  · subst ho
    simp [overlay, heldAt]
  · simp [overlay, AList.lookup_erase_ne ho, ho]

theorem overlay_of_lookup {outpoint : COutPoint} {entry : CCoinsCacheEntry}
    (h : m.lookup outpoint = some entry) : overlay m B outpoint = unspent entry.coin := by
  simp [overlay, h, heldAt]

theorem overlay_of_lookup_none {outpoint : COutPoint} (h : m.lookup outpoint = none) :
    overlay m B outpoint = B outpoint := by
  simp [overlay, h, heldAt]

theorem Consistent.entryOk (h : Consistent m B) {outpoint : COutPoint} {entry : CCoinsCacheEntry}
    (he : m.lookup outpoint = some entry) : EntryOk entry (B outpoint) :=
  h outpoint entry he

@[simp] theorem consistent_empty (B : COutPoint → Option Coin) : Consistent ∅ B := by
  intro outpoint entry h
  simp at h

theorem Consistent.insert (h : Consistent m B) {outpoint : COutPoint} {entry : CCoinsCacheEntry}
    (he : EntryOk entry (B outpoint)) : Consistent (m.insert outpoint entry) B := by
  intro o e hl
  by_cases ho : o = outpoint
  · subst ho
    rw [AList.lookup_insert] at hl
    exact Option.some.inj hl ▸ he
  · rw [AList.lookup_insert_ne ho] at hl
    exact h o e hl

theorem Consistent.erase (h : Consistent m B) (outpoint : COutPoint) :
    Consistent (m.erase outpoint) B := by
  intro o e hl
  by_cases ho : o = outpoint
  · subst ho
    simp at hl
  · rw [AList.lookup_erase_ne ho] at hl
    exact h o e hl

theorem Consistent.merge_eq (h : Consistent m B) : merge m B = overlay m B := by
  funext outpoint
  unfold merge
  cases hl : m.lookup outpoint with
  | none => rw [overlay_of_lookup_none hl]
  | some entry =>
    rw [overlay_of_lookup hl]
    by_cases hd : entry.isDirty = true
    · simp [hd]
    · simpa [hd] using ((h.entryOk hl).held_of_clean (by simpa using hd)).symm

end Maps


/-! ### The calls on one cache -/

namespace CCoinsViewCache

variable {B : COutPoint → Option Coin}

/-- `FetchCoinNL` keeps the cache consistent and what it stands for, and reads what it stands for,
when the view below reads as it stands; the entry it returns is the cache's entry afterwards, and
the view below is untouched on a hit. -/
theorem fetchCoinNL_spec {β : Type} {cache : CCoinsViewCache} (hc : Consistent cache.cacheCoins B)
    {outpoint : COutPoint} (below : β) {fromBelow : Option Coin × β}
    (hr : Reads fromBelow.1 (B outpoint)) :
    Consistent (cache.fetchCoinNL outpoint below fromBelow).2.1.cacheCoins B ∧
      overlay (cache.fetchCoinNL outpoint below fromBelow).2.1.cacheCoins B =
        overlay cache.cacheCoins B ∧
      Reads ((cache.fetchCoinNL outpoint below fromBelow).1.map (·.coin))
        (overlay cache.cacheCoins B outpoint) ∧
      (∀ entry, (cache.fetchCoinNL outpoint below fromBelow).1 = some entry →
        (cache.fetchCoinNL outpoint below fromBelow).2.1.cacheCoins.lookup outpoint = some entry) ∧
      ((cache.fetchCoinNL outpoint below fromBelow).2.2 = below ∨
        (cache.fetchCoinNL outpoint below fromBelow).2.2 = fromBelow.2) := by
  cases hl : cache.cacheCoins.lookup outpoint with
  | some entry =>
    have e : cache.fetchCoinNL outpoint below fromBelow = (some entry, cache, below) := by
      simp only [fetchCoinNL, hl]
    rw [e]
    refine ⟨hc, rfl, ⟨by simp [overlay_of_lookup hl], ?_⟩, fun e he => by simpa [hl] using he,
      .inl rfl⟩
    intro coin hcoin hs
    obtain rfl : entry.coin = coin := by simpa using hcoin
    exact (hc.entryOk hl).empty_of_spent hs
  | none =>
    obtain ⟨found, below'⟩ := fromBelow
    cases found with
    | none =>
      have e : cache.fetchCoinNL outpoint below (none, below') = (none, cache, below') := by
        simp only [fetchCoinNL, hl]
      rw [e]
      exact ⟨hc, rfl, by simpa [overlay_of_lookup_none hl] using hr, by simp, .inr rfl⟩
    | some coin =>
      have e : cache.fetchCoinNL outpoint below (some coin, below') =
          (some ⟨coin, if coin.isSpent then FRESH else 0⟩,
            ⟨cache.hashBlock, cache.cacheCoins.insert outpoint ⟨coin, if coin.isSpent then FRESH else 0⟩⟩,
            below') := by
        simp only [fetchCoinNL, hl]
      rw [e]
      have hB : unspent coin = B outpoint := hr.unspent_eq
      have hok : EntryOk ⟨coin, if coin.isSpent then FRESH else 0⟩ (B outpoint) := by
        refine ⟨hr.empty_of_spent coin rfl, fun _ => hB, fun hf => ?_⟩
        have hs : coin.isSpent = true := by
          by_contra hs
          simp [hs] at hf
        rw [← hB, unspent_eq_none.mpr hs]
      refine ⟨hc.insert hok, ?_, by simpa [overlay_of_lookup_none hl] using hr, by simp, .inr rfl⟩
      rw [overlay_insert, hB, ← overlay_of_lookup_none (B := B) hl, Function.update_eq_self]

theorem addCoin_not_throw (slot : Option CCoinsCacheEntry) {below : Option Coin}
    {possible_overwrite : Bool} (hpo : possible_overwrite = false → heldAt slot below = none) :
    (!possible_overwrite && !(slot.getD ⟨coinEmpty, 0⟩).coin.isSpent) = false := by
  cases possible_overwrite with
  | true => rfl
  | false =>
    have hnone := hpo rfl
    cases slot with
    | none => simp
    | some entry => simpa [heldAt] using hnone

theorem addCoin_entryOk {slot : Option CCoinsCacheEntry} {below : Option Coin}
    (hslot : SlotOk slot below) {coin : Coin} (hcoin : coin.isSpent = false)
    {possible_overwrite : Bool} (hpo : possible_overwrite = false → heldAt slot below = none) :
    EntryOk ⟨coin, (slot.getD ⟨coinEmpty, 0⟩).flags ||| (DIRTY |||
      if (!possible_overwrite && !(slot.getD ⟨coinEmpty, 0⟩).isDirty) then FRESH else 0)⟩ below := by
  refine ⟨fun hs => absurd hs (by simp [hcoin]), fun hd => ?_, fun hf => ?_⟩
  · split at hd <;> simp at hd
  · split at hf
    · rename_i hfresh
      simp only [Bool.and_eq_true, Bool.not_eq_eq_eq_not, Bool.not_true] at hfresh
      cases slot with
      | none => simpa [heldAt] using hpo hfresh.1
      | some entry =>
        rw [← (hslot entry rfl).held_of_clean (by simpa using hfresh.2)]
        simpa [heldAt] using hpo hfresh.1
    · cases slot with
      | none => simp at hf
      | some entry =>
        simp only [UInt8.or_zero, Option.getD_some, CCoinsCacheEntry.isFresh_or_dirty] at hf
        exact (hslot entry rfl).none_of_fresh hf

/-- `AddCoin` of an unspent coin, without `possible_overwrite` only where no unspent coin is held,
succeeds and writes the coin unless its script is unspendable. -/
theorem addCoin_spec {cache : CCoinsViewCache} (hc : Consistent cache.cacheCoins B)
    {outpoint : COutPoint} {coin : Coin} {possible_overwrite : Bool} (genesisActivationHeight : Nat)
    (hcoin : coin.isSpent = false)
    (hpo : possible_overwrite = false → overlay cache.cacheCoins B outpoint = none) :
    ∃ cache', cache.addCoin outpoint coin possible_overwrite genesisActivationHeight = .ok cache' ∧
      Consistent cache'.cacheCoins B ∧
      overlay cache'.cacheCoins B =
        if isUnspendable coin.out.scriptPubKey (coin.getHeight.toNat ≥ genesisActivationHeight)
        then overlay cache.cacheCoins B
        else Function.update (overlay cache.cacheCoins B) outpoint (some coin) := by
  by_cases hu :
      isUnspendable coin.out.scriptPubKey (coin.getHeight.toNat ≥ genesisActivationHeight) = true
  · exact ⟨cache, by simp [addCoin, hcoin, hu], hc, by rw [if_pos hu]⟩
  · have hthrow := addCoin_not_throw (cache.cacheCoins.lookup outpoint) hpo
    simp only [addCoin, hcoin, hu, hthrow, Bool.false_eq_true, ↓reduceIte]
    refine ⟨_, rfl, hc.insert (addCoin_entryOk (hc outpoint) hcoin hpo), ?_⟩
    rw [overlay_insert, unspent_of_not_spent hcoin]

/-- `SpendCoin` on the entry `FetchCoinNL` returned removes the coin, and moves out the coin that
was read. -/
theorem spendEntry_spec {cache : CCoinsViewCache} (hc : Consistent cache.cacheCoins B)
    {outpoint : COutPoint} {slot : Option CCoinsCacheEntry}
    (hslot : ∀ entry, slot = some entry → cache.cacheCoins.lookup outpoint = some entry)
    (hr : Reads (slot.map (·.coin)) (overlay cache.cacheCoins B outpoint)) :
    Consistent (cache.spendEntry outpoint slot).2.2.cacheCoins B ∧
      overlay (cache.spendEntry outpoint slot).2.2.cacheCoins B =
        Function.update (overlay cache.cacheCoins B) outpoint none ∧
      (cache.spendEntry outpoint slot).2.1 = slot.map (·.coin) ∧
      (cache.spendEntry outpoint slot).1 = slot.isSome := by
  cases slot with
  | none =>
    have hnone : overlay cache.cacheCoins B outpoint = none := hr.eq_none_of_none
    simp only [spendEntry]
    refine ⟨hc, ?_, rfl, rfl⟩
    rw [← hnone, Function.update_eq_self]
  | some entry =>
    have he := hc.entryOk (hslot entry rfl)
    by_cases hf : entry.isFresh = true
    · simp only [spendEntry, hf, ↓reduceIte]
      refine ⟨hc.erase outpoint, ?_, rfl, rfl⟩
      rw [overlay_erase, he.none_of_fresh hf]
    · simp only [spendEntry, hf, Bool.false_eq_true, ↓reduceIte]
      refine ⟨hc.insert ⟨fun _ => rfl, by simp, fun hf' =>
        absurd (by simpa using hf') hf⟩, ?_, rfl, rfl⟩
      rw [overlay_insert, unspent_coinEmpty]

theorem uncache_spec {cache : CCoinsViewCache} (hc : Consistent cache.cacheCoins B)
    (outpoint : COutPoint) :
    Consistent (cache.uncache outpoint).cacheCoins B ∧
      overlay (cache.uncache outpoint).cacheCoins B = overlay cache.cacheCoins B := by
  cases hl : cache.cacheCoins.lookup outpoint with
  | none =>
    have e : cache.uncache outpoint = cache := by simp only [uncache, hl]
    rw [e]
    exact ⟨hc, rfl⟩
  | some entry =>
    by_cases h0 : entry.flags = 0
    · have hclean :=
        (hc.entryOk hl).held_of_clean (CCoinsCacheEntry.isDirty_of_flags_eq_zero h0)
      simp only [uncache, hl, h0, beq_self_eq_true, ↓reduceIte]
      refine ⟨hc.erase outpoint, ?_⟩
      rw [overlay_erase, ← hclean, ← overlay_of_lookup (B := B) hl, Function.update_eq_self]
    · have e : cache.uncache outpoint = cache := by simp [uncache, hl, h0]
      rw [e]
      exact ⟨hc, rfl⟩

/-! ### `BatchWrite` -/

/-- A dirty child entry written over its parent's slot. -/
def mergeAt (child : CCoinsCacheEntry) (held : Option Coin) : Option Coin :=
  if child.isDirty then unspent child.coin else held

theorem keyStep_writeEntry (B : COutPoint → Option Coin) :
    KeyStep writeEntry fun outpoint child old new =>
      EntryOk child (heldAt old (B outpoint)) → SlotOk old (B outpoint) →
        SlotOk new (B outpoint) ∧
          heldAt new (B outpoint) = mergeAt child (heldAt old (B outpoint)) := by
  rintro m ⟨outpoint, child⟩ m' h
  dsimp only
  by_cases hd : child.isDirty = true
  · cases hl : m.lookup outpoint with
    | none =>
      by_cases hfs : (child.isFresh && child.coin.isSpent) = true
      · simp [writeEntry, hd, hl, hfs] at h
        subst h
        simp only [Bool.and_eq_true] at hfs
        refine ⟨fun hc _ => ⟨fun _ h => by simp [hl] at h, ?_⟩, fun _ _ => rfl⟩
        have hb : B outpoint = none := hc.none_of_fresh hfs.1
        simp [hl, heldAt, mergeAt, hd, hb, unspent_eq_none.mpr hfs.2]
      · simp [writeEntry, hd, hl, hfs] at h
        subst h
        refine ⟨fun hc _ => ⟨?_, ?_⟩, fun a ha => AList.lookup_insert_ne ha⟩
        · intro e he
          rw [AList.lookup_insert] at he
          obtain rfl := Option.some.inj he
          refine ⟨hc.empty_of_spent, fun hd' => ?_, fun hf => ?_⟩
          · split at hd' <;> simp at hd'
          · split at hf
            · exact hc.none_of_fresh ‹_›
            · simp at hf
        · simp [heldAt, mergeAt, hd]
    | some us =>
      by_cases hthrow : (child.isFresh && !us.coin.isSpent) = true
      · simp [writeEntry, hd, hl, hthrow] at h
      · by_cases her : (us.isFresh && child.coin.isSpent) = true
        · simp [writeEntry, hd, hl, hthrow, her] at h
          subst h
          simp only [Bool.and_eq_true] at her
          refine ⟨fun _ hs => ⟨fun _ h => by simp at h, ?_⟩, fun a ha => AList.lookup_erase_ne ha⟩
          simp [heldAt, mergeAt, hd, (hs us rfl).none_of_fresh her.1, unspent_eq_none.mpr her.2]
        · simp [writeEntry, hd, hl, hthrow, her] at h
          subst h
          refine ⟨fun hc hs => ⟨?_, ?_⟩, fun a ha => AList.lookup_insert_ne ha⟩
          · intro e he
            rw [AList.lookup_insert] at he
            obtain rfl := Option.some.inj he
            refine ⟨hc.empty_of_spent, fun hd' => by simp at hd', fun hf => ?_⟩
            exact (hs us rfl).none_of_fresh (by simpa using hf)
          · simp [heldAt, mergeAt, hd]
  · have hd' : child.isDirty = false := by simpa using hd
    simp [writeEntry, hd'] at h
    subst h
    exact ⟨fun _ hs => ⟨hs, by simp [mergeAt, hd']⟩, fun _ _ => rfl⟩

theorem writeEntry_ne_error {m : CCoinsMap} {p : Σ _ : COutPoint, CCoinsCacheEntry}
    (hq : EntryOk p.2 (heldAt (m.lookup p.1) (B p.1))) (e : String) :
    writeEntry m p ≠ .error e := by
  obtain ⟨outpoint, child⟩ := p
  intro h
  simp only [writeEntry] at h
  split at h
  · cases h
  · split at h
    · split at h <;> cases h
    · rename_i us hl
      split at h
      · rename_i hthrow
        simp only [Bool.and_eq_true, Bool.not_eq_eq_eq_not, Bool.not_true] at hthrow
        have hnone := hq.none_of_fresh hthrow.1
        simp [hl, heldAt, unspent_of_not_spent hthrow.2] at hnone
      · split at h <;> cases h

/-- `BatchWrite` of a child consistent over its parent succeeds, keeps the parent consistent, and
makes it stand for what the child stood for. -/
theorem batchWrite_spec {cache : CCoinsViewCache} (hc : Consistent cache.cacheCoins B)
    {mapCoins : CCoinsMap} (hm : Consistent mapCoins (overlay cache.cacheCoins B))
    (hashBlockIn : uint256) :
    ∃ cache', cache.batchWrite mapCoins hashBlockIn = .ok cache' ∧
      Consistent cache'.cacheCoins B ∧
      overlay cache'.cacheCoins B = overlay mapCoins (overlay cache.cacheCoins B) ∧
      cache'.hashBlock = hashBlockIn := by
  have hkey := keyStep_writeEntry B
  have hnodup := mapCoins.nodupKeys
  have hchild : ∀ p ∈ mapCoins.entries,
      EntryOk p.2 (heldAt (cache.cacheCoins.lookup p.1) (B p.1)) := fun p hp =>
    hm p.1 p.2 (AList.mem_lookup_iff.mpr hp)
  obtain ⟨m', hm'⟩ := hkey.foldlM_ok
    (Q := fun outpoint child old => EntryOk child (heldAt old (B outpoint)))
    (fun m p hq => by
      cases h : writeEntry m p with
      | ok m' => exact ⟨m', rfl⟩
      | error e => exact absurd h (writeEntry_ne_error hq e))
    hnodup hchild
  obtain ⟨hR, hother⟩ := hkey.foldlM hnodup hm'
  refine ⟨⟨hashBlockIn, m'⟩, by simp [batchWrite, hm', bind, Except.bind, pure, Except.pure], ?_,
    ?_, rfl⟩
  · intro outpoint
    by_cases hk : outpoint ∈ mapCoins.entries.keys
    · obtain ⟨child, hp⟩ := List.mem_keys.mp hk
      exact ((hR _ hp) (hchild _ hp) (hc outpoint)).1
    · rw [hother outpoint hk]
      exact hc outpoint
  · funext outpoint
    show heldAt (m'.lookup outpoint) (B outpoint) =
      heldAt (mapCoins.lookup outpoint) (overlay cache.cacheCoins B outpoint)
    by_cases hk : outpoint ∈ mapCoins.entries.keys
    · obtain ⟨child, hp⟩ := List.mem_keys.mp hk
      have hl : mapCoins.lookup outpoint = some child := AList.mem_lookup_iff.mpr hp
      have hmerge : heldAt (m'.lookup outpoint) (B outpoint) =
          mergeAt child (overlay cache.cacheCoins B outpoint) :=
        ((hR _ hp) (hchild _ hp) (hc outpoint)).2
      rw [hmerge, hl, heldAt, mergeAt]
      by_cases hd : child.isDirty = true
      · rw [if_pos hd]
      · rw [if_neg hd]
        exact ((hm.entryOk hl).held_of_clean (by simpa using hd)).symm
    · have hl : mapCoins.lookup outpoint = none :=
        AList.lookup_eq_none.mpr fun h => hk (AList.mem_keys.mp h)
      rw [hl, hother outpoint hk]
      rfl

end CCoinsViewCache

end TbcNode.Coins.Cache
