import Mathlib.Data.List.Forall2

/-! # Readers of a stream and the input they consume

`Reads dec bytes x`: `dec` reads `x` from every input starting with `bytes`. `Consumes dec R`: what
`dec` accepts is a prefix that `R` relates to the value. Both are built up along the reader, and
`Format P ser dec` says `ser` and `dec` are the writer and the reader of one format.
-/

namespace TbcNode.Logic

universe u

variable {ε σ β α γ : Type u}

/-- `dec` reads `x` from every input that starts with `bytes`, and stops right after them. -/
def Reads (dec : EStateM ε (List β) α) (bytes : List β) (x : α) : Prop :=
  ∀ rest, dec.run (bytes ++ rest) = .ok x rest

/-- Every successful run of `dec` has read a prefix of its input that `R` relates to its value. -/
def Consumes (dec : EStateM ε (List β) α) (R : List β → α → Prop) : Prop :=
  ∀ s x rest, dec.run s = .ok x rest → ∃ bytes, R bytes x ∧ s = bytes ++ rest

/-- `n` values, read one after another by `dec`. -/
def readN (dec : EStateM ε σ α) : Nat → EStateM ε σ (List α)
  | 0 => pure []
  | n + 1 => do
    let x ← dec
    let xs ← readN dec n
    pure (x :: xs)

/-- A computation of `Except` as a reader that reads nothing: its value, or its error thrown. -/
def ofExcept : Except ε α → EStateM ε σ α
  | .ok x => pure x
  | .error e => throw e

@[simp] theorem run_throw (e : ε) (s : σ) : (throw e : EStateM ε σ α).run s = .error e s := rfl

@[simp] theorem run_map (f : α → γ) (m : EStateM ε σ α) (s : σ) :
    (f <$> m).run s = match m.run s with
      | .ok a s => .ok (f a) s
      | .error e s => .error e s := rfl

theorem run_bind_eq_ok {m : EStateM ε σ α} {f : α → EStateM ε σ γ} {s s' : σ} {y : γ}
    (h : (m >>= f).run s = .ok y s') : ∃ x s₁, m.run s = .ok x s₁ ∧ (f x).run s₁ = .ok y s' := by
  rw [EStateM.run_bind] at h
  cases hm : m.run s with
  | ok x s₁ =>
    rw [hm] at h
    exact ⟨x, s₁, rfl, h⟩
  | error e s₁ =>
    rw [hm] at h
    cases h

theorem bind_eq_ok_iff {e : Except ε α} {f : α → Except ε γ} {y : γ} :
    e >>= f = .ok y ↔ ∃ x, e = .ok x ∧ f x = .ok y := by
  cases e with
  | error e => simp [bind, Except.bind]
  | ok x => simp [bind, Except.bind]

theorem bind_pure_eq_ok_iff {e : Except ε α} {f : α → γ} {y : γ} :
    (e >>= fun x => pure (f x)) = .ok y ↔ ∃ x, e = .ok x ∧ y = f x := by
  rw [bind_eq_ok_iff]
  exact exists_congr fun x => and_congr_right fun _ =>
    ⟨fun h => (Except.ok.inj h).symm, fun h => h ▸ rfl⟩

theorem mapError_eq_ok_iff {ε' : Type u} {e : Except ε α} {f : ε → ε'} {x : α} :
    e.mapError f = .ok x ↔ e = .ok x := by
  cases e <;> simp [Except.mapError]

theorem throw_bind_ne_ok {e : ε} {f : α → Except ε γ} {y : γ} : (throw e >>= f) ≠ .ok y := by
  simp [throw, throwThe, MonadExceptOf.throw, bind, Except.bind]

theorem mapM_eq_ok_iff {f : α → Except ε γ} {xs : List α} {ys : List γ} :
    xs.mapM f = .ok ys ↔ List.Forall₂ (fun x y => f x = .ok y) xs ys := by
  induction xs generalizing ys with
  | nil => cases ys <;> simp [pure, Except.pure]
  | cons x xs ih =>
    rw [List.mapM_cons]
    cases hx : f x with
    | error e => cases ys <;> simp [bind, Except.bind, hx]
    | ok y₀ =>
      cases ys with
      | nil => cases xs.mapM f <;> simp [bind, Except.bind, pure, Except.pure]
      | cons y ys =>
        rw [List.forall₂_cons, ← ih]
        cases xs.mapM f <;> simp [bind, Except.bind, hx, pure, Except.pure, eq_comm]

theorem exists_mapM_eq_ok {f : α → Except ε γ} {xs : List α} (h : ∀ x ∈ xs, ∃ y, f x = .ok y) :
    ∃ ys, xs.mapM f = .ok ys := by
  induction xs with
  | nil => exact ⟨[], rfl⟩
  | cons x xs ih =>
    obtain ⟨y, hy⟩ := h x List.mem_cons_self
    obtain ⟨ys, hys⟩ := ih fun x hx => h x (List.mem_cons_of_mem _ hx)
    exact ⟨y :: ys, mapM_eq_ok_iff.mpr (List.Forall₂.cons hy (mapM_eq_ok_iff.mp hys))⟩

/-! ### Reads -/

namespace Reads

theorem pure' (x : α) : Reads (pure x : EStateM ε (List β) α) [] x := fun _ => rfl

theorem of_eq {m : EStateM ε (List β) α} {b b' : List β} {x x' : α} (h : Reads m b x)
    (hb : b = b') (hx : x = x') : Reads m b' x' := by
  subst hb hx
  exact h

theorem bind {m : EStateM ε (List β) α} {f : α → EStateM ε (List β) γ} {b₁ b₂ : List β}
    {x : α} {y : γ} (hm : Reads m b₁ x) (hf : Reads (f x) b₂ y) : Reads (m >>= f) (b₁ ++ b₂) y := by
  intro rest
  rw [EStateM.run_bind, List.append_assoc, hm]
  exact hf rest

theorem run_bind {m : EStateM ε (List β) α} {f : α → EStateM ε (List β) γ} {b : List β} {x : α}
    (h : Reads m b x) (rest : List β) : (m >>= f).run (b ++ rest) = (f x).run rest := by
  rw [EStateM.run_bind, h rest]

theorem map {m : EStateM ε (List β) α} {b : List β} {x : α} (f : α → γ) (h : Reads m b x) :
    Reads (f <$> m) b (f x) := by
  intro rest
  have hm := h rest
  simp only [Functor.map, EStateM.map, EStateM.run] at hm ⊢
  rw [hm]

/-- Values read one after another, each from its own bytes. -/
theorem readN {dec : EStateM ε (List β) α} {xs : List α} {parts : List (List β)}
    (h : List.Forall₂ (fun x b => Reads dec b x) xs parts) :
    Reads (readN dec xs.length) parts.flatten xs := by
  induction h with
  | nil => exact pure' []
  | @cons x b xs parts hx _ ih =>
    have hrest : Reads (Logic.readN dec xs.length >>= fun ys => pure (x :: ys))
        (parts.flatten ++ []) (x :: xs) := Reads.bind (f := fun ys => pure (x :: ys)) ih (pure' _)
    rw [List.append_nil] at hrest
    exact Reads.bind (f := fun x => Logic.readN dec xs.length >>= fun ys => pure (x :: ys)) hx
      hrest

theorem ofExcept {e : Except ε α} {x : α} (h : e = .ok x) :
    Reads (Logic.ofExcept e : EStateM ε (List β) α) [] x := by
  subst h
  exact pure' x

end Reads

/-! ### Consumes -/

namespace Consumes

theorem pure' (x : α) :
    Consumes (pure x : EStateM ε (List β) α) fun b y => b = [] ∧ y = x := by
  intro s y rest h
  cases h
  exact ⟨[], ⟨rfl, rfl⟩, rfl⟩

theorem throw' (e : ε) (R : List β → α → Prop) : Consumes (throw e : EStateM ε (List β) α) R := by
  intro s y rest h
  cases h

theorem mono {m : EStateM ε (List β) α} {R R' : List β → α → Prop} (h : Consumes m R)
    (hR : ∀ b x, R b x → R' b x) : Consumes m R' := by
  intro s x rest hrun
  obtain ⟨bytes, hb, rfl⟩ := h s x rest hrun
  exact ⟨bytes, hR _ _ hb, rfl⟩

theorem bind {m : EStateM ε (List β) α} {f : α → EStateM ε (List β) γ}
    {R : List β → α → Prop} {S : α → List β → γ → Prop} (hm : Consumes m R)
    (hf : ∀ x, Consumes (f x) (S x)) :
    Consumes (m >>= f) fun b y => ∃ x b₁ b₂, R b₁ x ∧ S x b₂ y ∧ b = b₁ ++ b₂ := by
  intro s y rest hrun
  obtain ⟨x, s₁, hm', hf'⟩ := run_bind_eq_ok hrun
  obtain ⟨b₁, hb₁, rfl⟩ := hm s x s₁ hm'
  obtain ⟨b₂, hb₂, rfl⟩ := hf x s₁ y rest hf'
  exact ⟨b₁ ++ b₂, ⟨x, b₁, b₂, hb₁, hb₂, rfl⟩, (List.append_assoc _ _ _).symm⟩

theorem ite {c : Prop} [Decidable c] {m₁ m₂ : EStateM ε (List β) α} {R : List β → α → Prop}
    (h₁ : c → Consumes m₁ R) (h₂ : ¬ c → Consumes m₂ R) : Consumes (if c then m₁ else m₂) R := by
  by_cases hc : c
  · rw [if_pos hc]
    exact h₁ hc
  · rw [if_neg hc]
    exact h₂ hc

theorem map {m : EStateM ε (List β) α} {R : List β → α → Prop} (f : α → γ) (h : Consumes m R) :
    Consumes (f <$> m) fun b y => ∃ x, R b x ∧ y = f x := by
  intro s y rest hrun
  simp only [Functor.map, EStateM.map, EStateM.run] at hrun
  cases hm : m s with
  | ok x s₁ =>
    rw [hm] at hrun
    cases hrun
    obtain ⟨bytes, hb, rfl⟩ := h s x rest hm
    exact ⟨bytes, ⟨x, hb, rfl⟩, rfl⟩
  | error e s₁ =>
    rw [hm] at hrun
    cases hrun

/-- `n` values read one after another have each read its own part of the input. -/
theorem readN {dec : EStateM ε (List β) α} {R : List β → α → Prop} (h : Consumes dec R)
    (n : Nat) :
    Consumes (readN dec n) fun b xs =>
      ∃ parts, List.Forall₂ (fun x b => R b x) xs parts ∧ b = parts.flatten ∧ xs.length = n := by
  induction n with
  | zero =>
    refine (pure' []).mono fun b xs ⟨hb, hxs⟩ => ⟨[], ?_, ?_, ?_⟩
    · rw [hxs]
      exact List.Forall₂.nil
    · rw [hb]
      rfl
    · rw [hxs]
      rfl
  | succ n ih =>
    refine (h.bind fun x => ih.bind fun xs => pure' (x :: xs)).mono ?_
    rintro b ys ⟨x, b₁, b₂, hx, ⟨xs, b₃, b₄, ⟨parts, hparts, rfl, hlen⟩, ⟨rfl, rfl⟩, rfl⟩, rfl⟩
    exact ⟨b₁ :: parts, List.Forall₂.cons hx hparts, by simp, by simp [hlen]⟩

theorem ofExcept (e : Except ε α) :
    Consumes (Logic.ofExcept e : EStateM ε (List β) α) fun b x => b = [] ∧ e = .ok x := by
  cases e with
  | ok y => exact (pure' y).mono fun b x ⟨hb, hx⟩ => ⟨hb, hx ▸ rfl⟩
  | error e => exact throw' e _

end Consumes

/-! ### Formats -/

/-- `ser` and `dec` are the writer and the reader of one format for the values of `P`: `dec` reads
back what `ser` writes of them, and whatever `dec` accepts is what `ser` writes of one of them. -/
structure Format {ε' : Type u} (P : α → Prop) (ser : α → Except ε' (List β))
    (dec : EStateM ε (List β) α) : Prop where
  reads : ∀ {x b}, P x → ser x = .ok b → Reads dec b x
  consumes : Consumes dec fun b x => P x ∧ ser x = .ok b

theorem Format.encoding_unique {ε' : Type u} {P : α → Prop} {ser : α → Except ε' (List β)}
    {dec : EStateM ε (List β) α} (hf : Format P ser dec) {s₁ s₂ r₁ r₂ : List β} {x : α}
    (h₁ : dec.run s₁ = .ok x r₁) (h₂ : dec.run s₂ = .ok x r₂) :
    ∃ b, s₁ = b ++ r₁ ∧ s₂ = b ++ r₂ := by
  obtain ⟨b₁, ⟨-, hb₁⟩, rfl⟩ := hf.consumes s₁ x r₁ h₁
  obtain ⟨b₂, ⟨-, hb₂⟩, rfl⟩ := hf.consumes s₂ x r₂ h₂
  have hb : b₁ = b₂ := Except.ok.inj (hb₁.symm.trans hb₂)
  exact ⟨b₁, rfl, by rw [hb]⟩

end TbcNode.Logic
