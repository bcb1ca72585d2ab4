import TbcNode.Logic.Triple

/-! # Loops run on fuel

`whileFuel c body n` runs `body` while `c` holds, for at most `n` rounds. A `while` loop of the
source becomes `whileFuel`, and `run_whileFuel_of_decreasing` says when the fuel suffices.
-/

namespace TbcNode.Logic

universe u

variable {ε σ : Type u}

/-- `while (c) { body }`, for at most `n` rounds. -/
def whileFuel (c : σ → Bool) (body : EStateM ε σ PUnit) : Nat → EStateM ε σ PUnit
  | 0 => pure ⟨⟩
  | n + 1 => do
    if c (← get) then
      body
      whileFuel c body n

variable {c : σ → Bool} {body : EStateM ε σ PUnit}

@[simp] theorem run_whileFuel_zero (s : σ) :
    (whileFuel c body 0).run s = .ok ⟨⟩ s := rfl

theorem run_whileFuel_succ (n : Nat) (s : σ) :
    (whileFuel c body (n + 1)).run s =
      if c s then (body >>= fun _ => whileFuel c body n).run s else .ok ⟨⟩ s := by
  cases h : c s with
  | true => simp only [whileFuel, EStateM.run_bind, EStateM.run_get, h, if_true]
  | false =>
    simp only [whileFuel, EStateM.run_bind, EStateM.run_get, h, Bool.false_eq_true, if_false]
    rfl

theorem run_whileFuel_of_not {n : Nat} {s : σ} (h : c s = false) :
    (whileFuel c body n).run s = .ok ⟨⟩ s := by
  cases n with
  | zero => rfl
  | succ n => simp [run_whileFuel_succ, h]

theorem run_whileFuel_add (n k : Nat) (s : σ) :
    (whileFuel c body (n + k)).run s = match (whileFuel c body n).run s with
      | .ok _ s' => (whileFuel c body k).run s'
      | .error e s' => .error e s' := by
  induction n generalizing s with
  | zero => rw [Nat.zero_add]; rfl
  | succ n ih =>
    rw [Nat.succ_add, run_whileFuel_succ, run_whileFuel_succ]
    by_cases hc : c s = true
    · rw [if_pos hc, if_pos hc, EStateM.run_bind, EStateM.run_bind]
      cases body.run s with
      | ok _ s' => exact ih s'
      | error e s' => rfl
    · rw [if_neg hc, if_neg hc]
      exact (run_whileFuel_of_not (Bool.eq_false_iff.mpr hc)).symm

/-- A body that keeps an invariant keeps it for any number of rounds. -/
theorem Keeps.whileFuel {I : σ → Prop} (h : Keeps I body) (n : Nat) :
    Keeps I (whileFuel c body n) := by
  induction n with
  | zero => exact Keeps.pure' _
  | succ n ih =>
    intro s hs
    rw [run_whileFuel_succ]
    by_cases hc : c s = true
    · rw [if_pos hc, EStateM.run_bind]
      have hb := h s hs
      revert hb
      cases body.run s with
      | ok _ s' => exact fun hb => ih s' hb
      | error e s' => exact id
    · rw [if_neg hc]
      exact hs

/-- The invariant form with the loop condition available to the body, and exceptions allowed to
end in a weaker postcondition. -/
theorem Triple.whileFuel {I : σ → Prop} {E : ε → σ → Prop}
    (h : Triple (fun s => I s ∧ c s = true) body (fun _ => I) E) (n : Nat) :
    Triple I (whileFuel c body n) (fun _ => I) E := by
  induction n with
  | zero => exact Triple.pure' fun _ hs => hs
  | succ n ih =>
    intro s hs
    rw [run_whileFuel_succ]
    by_cases hc : c s = true
    · rw [if_pos hc, EStateM.run_bind]
      have hb := h s ⟨hs, hc⟩
      revert hb
      cases body.run s with
      | ok _ s' => exact fun hb => ih s' hb
      | error e s' => exact id
    · rw [if_neg hc]
      exact hs

/-- Fuel adequacy: when every round of the body strictly lowers a measure that is positive while
the condition holds, fuel of at least the measure runs the loop to its end, and more fuel changes
nothing. -/
theorem run_whileFuel_of_decreasing (ν : σ → Nat) (hc : ∀ s, c s = true → 0 < ν s)
    (hb : ∀ s s', c s = true → body.run s = .ok ⟨⟩ s' → ν s' < ν s) :
    ∀ (n m : Nat) (s : σ), ν s ≤ n → n ≤ m →
      (whileFuel c body n).run s = (whileFuel c body m).run s := by
  intro n
  induction n with
  | zero =>
    intro m s hn _
    have hs : c s = false := by
      cases h : c s with
      | false => rfl
      | true => have := hc s h; omega
    rw [run_whileFuel_of_not hs, run_whileFuel_of_not hs]
  | succ n ih =>
    intro m s hn hm
    obtain ⟨k, rfl⟩ : ∃ k, m = k + 1 := ⟨m - 1, by omega⟩
    rw [run_whileFuel_succ, run_whileFuel_succ]
    by_cases hcs : c s = true
    · rw [if_pos hcs, if_pos hcs, EStateM.run_bind, EStateM.run_bind]
      have hstep : ∀ s', body.run s = .ok ⟨⟩ s' → ν s' < ν s := fun s' h => hb s s' hcs h
      revert hstep
      cases body.run s with
      | ok u s' =>
        intro hstep
        have hlt := hstep s' rfl
        exact ih k s' (by omega) (by omega)
      | error e s' => exact fun _ => rfl
    · rw [if_neg hcs, if_neg hcs]

end TbcNode.Logic
