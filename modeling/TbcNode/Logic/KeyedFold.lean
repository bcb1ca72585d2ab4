import Mathlib.Data.List.AList
import TbcNode.Logic.Codec

/-! # Loops that change a map one key at a time

A loop over entries with distinct keys whose steps change only their own key (`KeyStep`): after the
whole loop every key of the entries is related to its old value, whatever the order, and every
other key is unchanged (`KeyStep.foldlM`).
-/

namespace TbcNode.Logic

universe u

variable {α β γ ε : Type u} [DecidableEq α]

/-- Every successful step on an entry changes the map at the entry's key only, and there from `old`
to `new` with `R key entry old new`. -/
def KeyStep (step : AList (fun _ : α => β) → (Σ _ : α, γ) → Except ε (AList (fun _ : α => β)))
    (R : α → γ → Option β → Option β → Prop) : Prop :=
  ∀ m p m', step m p = .ok m' →
    R p.1 p.2 (m.lookup p.1) (m'.lookup p.1) ∧ ∀ a, a ≠ p.1 → m'.lookup a = m.lookup a

namespace KeyStep

variable {step : AList (fun _ : α => β) → (Σ _ : α, γ) → Except ε (AList (fun _ : α => β))}
  {R : α → γ → Option β → Option β → Prop}

/-- The loop relates each key of the entries to its value before the loop, and leaves the other
keys alone. -/
theorem foldlM (h : KeyStep step R) {l : List (Σ _ : α, γ)} (hl : l.NodupKeys)
    {m m' : AList (fun _ : α => β)} (hm : l.foldlM step m = .ok m') :
    (∀ p ∈ l, R p.1 p.2 (m.lookup p.1) (m'.lookup p.1)) ∧
      ∀ a, a ∉ l.keys → m'.lookup a = m.lookup a := by
  induction l generalizing m with
  | nil =>
    cases hm
    simp
  | cons p l ih =>
    rw [List.nodupKeys_cons] at hl
    rw [List.foldlM_cons] at hm
    obtain ⟨m₁, hstep, hrest⟩ := bind_eq_ok_iff.mp hm
    obtain ⟨hR, hother⟩ := h m p m₁ hstep
    obtain ⟨ihR, ihother⟩ := ih hl.2 hrest
    have hp : m'.lookup p.1 = m₁.lookup p.1 := ihother p.1 hl.1
    refine ⟨fun q hq => ?_, fun a ha => ?_⟩
    · rcases List.mem_cons.mp hq with rfl | hq
      · rw [hp]
        exact hR
      · have hne : q.1 ≠ p.1 := fun he => hl.1 (he ▸ List.mem_keys_of_mem hq)
        rw [← hother q.1 hne]
        exact ihR q hq
    · rw [List.keys_cons, List.mem_cons, not_or] at ha
      rw [ihother a ha.2, hother a ha.1]

/-- The loop succeeds when every step succeeds on the value its key held before the loop. -/
theorem foldlM_ok (h : KeyStep step R) {Q : α → γ → Option β → Prop}
    (hok : ∀ m p, Q p.1 p.2 (m.lookup p.1) → ∃ m', step m p = .ok m')
    {l : List (Σ _ : α, γ)} (hl : l.NodupKeys) {m : AList (fun _ : α => β)}
    (hall : ∀ p ∈ l, Q p.1 p.2 (m.lookup p.1)) : ∃ m', l.foldlM step m = .ok m' := by
  induction l generalizing m with
  | nil => exact ⟨m, rfl⟩
  | cons p l ih =>
    rw [List.nodupKeys_cons] at hl
    obtain ⟨m₁, hstep⟩ := hok m p (hall p List.mem_cons_self)
    have hrest : ∀ q ∈ l, Q q.1 q.2 (m₁.lookup q.1) := by
      intro q hq
      have hne : q.1 ≠ p.1 := fun he => hl.1 (he ▸ List.mem_keys_of_mem hq)
      rw [(h m p m₁ hstep).2 q.1 hne]
      exact hall q (List.mem_cons_of_mem p hq)
    obtain ⟨m', hm'⟩ := ih hl.2 hrest
    refine ⟨m', ?_⟩
    rw [List.foldlM_cons, hstep]
    exact hm'

end KeyStep

end TbcNode.Logic
