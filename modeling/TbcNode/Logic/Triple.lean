import Mathlib.Logic.Basic

/-! # Triples for programs with state and exceptions

`Triple P m Q E`: from a state satisfying `P`, a normal end of `m` satisfies `Q` and an exception
`E`, with the state it reached, as a C++ exception leaves objects changed. The rules follow the
monad operations, so a proof follows a `do` block line by line.
-/

namespace TbcNode.Logic

universe u

variable {ε σ α β : Type u}

/-- The state a run ended in, after a normal or an exceptional end. -/
def finalState : EStateM.Result ε σ α → σ
  | .ok _ s => s
  | .error _ s => s

@[simp] theorem finalState_ok (a : α) (s : σ) :
    finalState (EStateM.Result.ok a s : EStateM.Result ε σ α) = s := rfl

@[simp] theorem finalState_error (e : ε) (s : σ) :
    finalState (EStateM.Result.error e s : EStateM.Result ε σ α) = s := rfl

/-- Results are compared by `decide` where a run on a fixed input is checked. -/
instance instDecidableEqResult [DecidableEq ε] [DecidableEq σ] [DecidableEq α] :
    DecidableEq (EStateM.Result ε σ α)
  | .ok a s, .ok b t => decidable_of_iff (a = b ∧ s = t) (by simp)
  | .error e s, .error f t => decidable_of_iff (e = f ∧ s = t) (by simp)
  | .ok _ _, .error _ _ => isFalse (by simp)
  | .error _ _, .ok _ _ => isFalse (by simp)

theorem run_bind_congr {m : EStateM ε σ α} {f g : α → EStateM ε σ β} {s : σ}
    (h : ∀ a s', m.run s = .ok a s' → (f a).run s' = (g a).run s') :
    (m >>= f).run s = (m >>= g).run s := by
  rw [EStateM.run_bind, EStateM.run_bind]
  cases hm : m.run s with
  | ok a s' => exact h a s' hm
  | error e s' => rfl

theorem run_bind_of_ok {m : EStateM ε σ α} {f : α → EStateM ε σ β} {s s' : σ} {a : α}
    (h : m.run s = .ok a s') : (m >>= f).run s = (f a).run s' := by
  rw [EStateM.run_bind, h]

theorem run_bind_of_error {m : EStateM ε σ α} {f : α → EStateM ε σ β} {s s' : σ} {e : ε}
    (h : m.run s = .error e s') : (m >>= f).run s = .error e s' := by
  rw [EStateM.run_bind, h]

/-- From a state satisfying `P`, a normal end satisfies `Q` and an exception satisfies `E`. -/
def Triple (P : σ → Prop) (m : EStateM ε σ α) (Q : α → σ → Prop) (E : ε → σ → Prop) : Prop :=
  ∀ s, P s → match m.run s with
    | .ok a s' => Q a s'
    | .error e s' => E e s'

/-- `m` keeps `I`, whether it returns or raises. -/
def Keeps (I : σ → Prop) (m : EStateM ε σ α) : Prop :=
  Triple I m (fun _ => I) (fun _ => I)

variable {P P' : σ → Prop} {Q Q' : α → σ → Prop} {E E' : ε → σ → Prop}

namespace Triple

theorem pure' {a : α} (h : ∀ s, P s → Q a s) : Triple P (pure a : EStateM ε σ α) Q E :=
  fun s hs => h s hs

theorem throw' {e : ε} (h : ∀ s, P s → E e s) : Triple P (throw e : EStateM ε σ α) Q E :=
  fun s hs => h s hs

theorem get' {Q : σ → σ → Prop} (h : ∀ s, P s → Q s s) :
    Triple P (get : EStateM ε σ σ) Q E :=
  fun s hs => h s hs

theorem set' {s₁ : σ} {Q : PUnit → σ → Prop} (h : ∀ s, P s → Q ⟨⟩ s₁) :
    Triple P (set s₁ : EStateM ε σ PUnit) Q E :=
  fun s hs => h s hs

theorem modify' {f : σ → σ} {Q : PUnit → σ → Prop} (h : ∀ s, P s → Q ⟨⟩ (f s)) :
    Triple P (modify f : EStateM ε σ PUnit) Q E :=
  fun s hs => h s hs

theorem modifyGet' {f : σ → α × σ} (h : ∀ s, P s → Q (f s).1 (f s).2) :
    Triple P (modifyGet f : EStateM ε σ α) Q E :=
  fun s hs => h s hs

theorem bind {R : α → σ → Prop} {m : EStateM ε σ α} {f : α → EStateM ε σ β}
    {Q : β → σ → Prop} (hm : Triple P m R E) (hf : ∀ a, Triple (R a) (f a) Q E) :
    Triple P (m >>= f) Q E := by
  intro s hs
  have h := hm s hs
  simp only [EStateM.run_bind]
  revert h
  cases m.run s with
  | ok a s' => exact fun h => hf a s' h
  | error e s' => exact id

theorem consequence {m : EStateM ε σ α} (h : Triple P m Q E) (hP : ∀ s, P' s → P s)
    (hQ : ∀ a s, Q a s → Q' a s) (hE : ∀ e s, E e s → E' e s) : Triple P' m Q' E' := by
  intro s hs
  have h' := h s (hP s hs)
  revert h'
  cases m.run s with
  | ok a s' => exact hQ a s'
  | error e s' => exact hE e s'

theorem mono_pre {m : EStateM ε σ α} (h : Triple P m Q E) (hP : ∀ s, P' s → P s) :
    Triple P' m Q E :=
  fun s hs => h s (hP s hs)

theorem ite' {c : Prop} [Decidable c] {m₁ m₂ : EStateM ε σ α} (h₁ : c → Triple P m₁ Q E)
    (h₂ : ¬ c → Triple P m₂ Q E) : Triple P (if c then m₁ else m₂) Q E := by
  by_cases hc : c
  · simpa only [if_pos hc] using h₁ hc
  · simpa only [if_neg hc] using h₂ hc

theorem bind_get {f : σ → EStateM ε σ α} (h : ∀ s, P s → Triple P (f s) Q E) :
    Triple P (get >>= f) Q E :=
  fun s hs => h s hs s hs

theorem bind_get_at {f : σ → EStateM ε σ α} (h : ∀ s, P s → Triple (· = s) (f s) Q E) :
    Triple P (get >>= f) Q E :=
  fun s hs => h s hs s rfl

theorem ite_throw {e : ε} {c : Prop} [Decidable c] {f : PUnit → EStateM ε σ α}
    (he : c → ∀ s, P s → E e s) (h : Triple P (f ⟨⟩) Q E) :
    Triple P (if c then throw e >>= f else f ⟨⟩) Q E :=
  ite' (fun hc s hs => he hc s hs) fun _ => h

theorem ite_throw_of {e : ε} {c : Prop} [Decidable c] {f : PUnit → EStateM ε σ α}
    (he : c → ∀ s, P s → E e s) (h : ¬ c → Triple P (f ⟨⟩) Q E) :
    Triple P (if c then throw e >>= f else f ⟨⟩) Q E :=
  ite' (fun hc s hs => he hc s hs) h

theorem bind_of {R : α → Prop} {m : EStateM ε σ α} {f : α → EStateM ε σ β}
    {Q : β → σ → Prop} (hm : Triple P m (fun a s => P s ∧ R a) E)
    (hf : ∀ a, R a → Triple P (f a) Q E) : Triple P (m >>= f) Q E :=
  bind hm fun a s h => hf a h.2 s h.1

theorem of_forall {m : EStateM ε σ α} (h : ∀ s₀, P s₀ → Triple (· = s₀) m Q E) :
    Triple P m Q E :=
  fun s hs => h s hs s rfl

end Triple

namespace Keeps

variable {I : σ → Prop}

theorem pure' (a : α) : Keeps I (pure a : EStateM ε σ α) := Triple.pure' fun _ h => h

theorem throw' (e : ε) : Keeps I (throw e : EStateM ε σ α) := Triple.throw' fun _ h => h

theorem get' : Keeps I (get : EStateM ε σ σ) := Triple.get' fun _ h => h

theorem bind {m : EStateM ε σ α} {f : α → EStateM ε σ β} (hm : Keeps I m)
    (hf : ∀ a, Keeps I (f a)) : Keeps I (m >>= f) :=
  Triple.bind hm hf

theorem ite' {c : Prop} [Decidable c] {m₁ m₂ : EStateM ε σ α} (h₁ : Keeps I m₁)
    (h₂ : Keeps I m₂) : Keeps I (if c then m₁ else m₂) :=
  Triple.ite' (fun _ => h₁) (fun _ => h₂)

theorem modify' {f : σ → σ} (hf : ∀ s, I s → I (f s)) : Keeps I (modify f : EStateM ε σ PUnit) :=
  Triple.modify' hf

theorem throw_bind (e : ε) {f : α → EStateM ε σ β} : Keeps I (throw e >>= f) :=
  fun _ h => h

theorem bind_get {f : σ → EStateM ε σ α} (h : ∀ s, I s → Keeps I (f s)) :
    Keeps I (get >>= f) :=
  fun s hs => h s hs s hs

theorem ite_throw (e : ε) {c : Prop} [Decidable c] {f : PUnit → EStateM ε σ α}
    (h : Keeps I (f ⟨⟩)) : Keeps I (if c then throw e >>= f else f ⟨⟩) :=
  ite' (throw_bind e) h

theorem set' {t : σ} (h : I t) : Keeps I (set t : EStateM ε σ PUnit) := fun _ _ => h

theorem foldlM {f : β → α → EStateM ε σ β} (hf : ∀ b a, Keeps I (f b a)) :
    ∀ (l : List α) (init : β), Keeps I (l.foldlM f init)
  | [], _ => Keeps.pure' _
  | a :: l, init => (hf init a).bind fun b => foldlM hf l b

theorem weaken {P : σ → Prop} {m : EStateM ε σ α} (h : Keeps I m) (hP : ∀ s, P s → I s) :
    Triple P m (fun _ => I) (fun _ => I) :=
  Triple.consequence h hP (fun _ _ h => h) (fun _ _ h => h)

theorem finalState {m : EStateM ε σ α} (h : Keeps I m) {s : σ} (hs : I s) :
    I (Logic.finalState (m.run s)) := by
  have h' := h s hs
  revert h'
  cases m.run s <;> exact id

end Keeps

theorem Triple.finalState {I Q : σ → Prop} {m : EStateM ε σ α} (h : Triple P m (fun _ => Q) fun _ => I)
    (hQ : ∀ s, Q s → I s) {s : σ} (hs : P s) : I (Logic.finalState (m.run s)) := by
  have h' := h s hs
  revert h'
  cases m.run s with
  | ok _ s' => exact hQ s'
  | error _ s' => exact id

/-! ## Programs that change nothing, or nothing when they fail -/

def ReadsOnly (m : EStateM ε σ α) : Prop := ∀ s, finalState (m.run s) = s

/-- From a state satisfying `P`, an exception of `m` leaves the state as `m` found it. -/
def Rollback (P : σ → Prop) (m : EStateM ε σ α) : Prop :=
  ∀ s, P s → match m.run s with
    | .ok _ _ => True
    | .error _ s' => s' = s

namespace ReadsOnly

theorem pure' (a : α) : ReadsOnly (pure a : EStateM ε σ α) := fun _ => rfl

theorem throw' (e : ε) : ReadsOnly (throw e : EStateM ε σ α) := fun _ => rfl

theorem get' : ReadsOnly (get : EStateM ε σ σ) := fun _ => rfl

theorem bind {m : EStateM ε σ α} {f : α → EStateM ε σ β} (hm : ReadsOnly m)
    (hf : ∀ a, ReadsOnly (f a)) : ReadsOnly (m >>= f) := by
  intro s
  have h := hm s
  simp only [EStateM.run_bind]
  revert h
  cases m.run s with
  | ok a s' =>
    intro h
    simp only [finalState_ok] at h
    subst h
    exact hf a s'
  | error e s' => exact id

theorem ite' {c : Prop} [Decidable c] {m₁ m₂ : EStateM ε σ α} (h₁ : ReadsOnly m₁)
    (h₂ : ReadsOnly m₂) : ReadsOnly (if c then m₁ else m₂) := by
  by_cases hc : c
  · simpa only [if_pos hc] using h₁
  · simpa only [if_neg hc] using h₂

theorem foldlM {f : β → α → EStateM ε σ β} (hf : ∀ b a, ReadsOnly (f b a)) :
    ∀ (l : List α) (init : β), ReadsOnly (l.foldlM f init)
  | [], _ => ReadsOnly.pure' _
  | a :: l, init => (hf init a).bind fun b => foldlM hf l b

end ReadsOnly

theorem Keeps.of_readsOnly {I : σ → Prop} {m : EStateM ε σ α} (h : ReadsOnly m) : Keeps I m := by
  intro s hs
  have h' := h s
  revert h'
  cases m.run s with
  | ok a s' =>
    intro h'
    simp only [finalState_ok] at h'
    exact h' ▸ hs
  | error e s' =>
    intro h'
    simp only [finalState_error] at h'
    exact h' ▸ hs

theorem Triple.of_readsOnly {P : σ → Prop} {E : ε → σ → Prop} {m : EStateM ε σ α}
    (h : ReadsOnly m) (hE : ∀ e s, P s → E e s) : Triple P m (fun _ => P) E := by
  intro s hs
  have h' := h s
  revert h'
  cases m.run s with
  | ok a s' =>
    intro h'
    simp only [finalState_ok] at h'
    exact h' ▸ hs
  | error e s' =>
    intro h'
    simp only [finalState_error] at h'
    exact hE e s' (h' ▸ hs)

theorem Rollback.of_readsOnly {P : σ → Prop} {m : EStateM ε σ α} (h : ReadsOnly m) :
    Rollback P m := by
  intro s _
  have h' := h s
  revert h'
  cases m.run s with
  | ok a s' => exact fun _ => trivial
  | error e s' => exact fun h' => by simpa using h'

/-! ## Programs on a part of the state -/

section Focus

variable {τ ε' : Type u}

/-- Runs a program on the part `get s` of the state and writes the part back with `put`, on a
normal or an exceptional end; exceptions are translated by `f`. -/
def focus (get : σ → τ) (put : τ → σ → σ) (f : ε → ε') (m : EStateM ε τ α) :
    EStateM ε' σ α :=
  fun s => match m.run (get s) with
    | .ok a t => .ok a (put t s)
    | .error e t => .error (f e) (put t s)

variable {get : σ → τ} {put : τ → σ → σ} {f : ε → ε'} {m : EStateM ε τ α}

theorem run_focus (s : σ) :
    (focus get put f m).run s = match m.run (get s) with
      | .ok a t => .ok a (put t s)
      | .error e t => .error (f e) (put t s) := rfl

theorem Triple.focus {P : τ → Prop} {Q : α → τ → Prop} {E : ε → τ → Prop} {R : σ → Prop}
    (h : Triple P m Q E) (hget : ∀ t s, get (put t s) = t) (hR : ∀ t s, R s → R (put t s)) :
    Triple (fun s => P (get s) ∧ R s) (focus get put f m)
      (fun a s => Q a (get s) ∧ R s) (fun e' s => (∃ e, e' = f e ∧ E e (get s)) ∧ R s) := by
  intro s ⟨hP, hRs⟩
  have h' := h (get s) hP
  rw [run_focus]
  revert h'
  cases m.run (get s) with
  | ok a t => exact fun h' => ⟨by rwa [hget], hR t s hRs⟩
  | error e t => exact fun h' => ⟨⟨e, rfl, by rwa [hget]⟩, hR t s hRs⟩

theorem Keeps.focus {I : τ → Prop} (h : Keeps I m) (hget : ∀ t s, get (put t s) = t) :
    Keeps (fun s => I (get s)) (focus get put f m) := by
  intro s hs
  have h' := h (get s) hs
  rw [run_focus]
  revert h'
  cases m.run (get s) with
  | ok a t => exact fun h' => by simpa [hget] using h'
  | error e t => exact fun h' => by simpa [hget] using h'

end Focus

end TbcNode.Logic
