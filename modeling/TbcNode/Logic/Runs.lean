import Mathlib.Data.List.TakeWhile

/-! # Runs in a list

`OneRun p l`: the elements satisfying `p` stand together. `eraseFirstRun p l` erases the first
maximal run, and on a list with one run it erases every such element (`eraseFirstRun_eq_filter`).
-/

namespace TbcNode.Logic

variable {α : Type*} (p : α → Bool)

/-- No element failing `p` stands between two elements satisfying it. -/
def OneRun (l : List α) : Prop :=
  ∀ x y z, [x, y, z].Sublist l → p x = true → p z = true → p y = true

/-- Erase the first maximal run of elements satisfying `p`. -/
def eraseFirstRun (l : List α) : List α :=
  l.takeWhile (fun x => !p x) ++ (l.dropWhile (fun x => !p x)).dropWhile p

variable {p}

theorem OneRun.sublist {l l' : List α} (h : OneRun p l) (hs : l'.Sublist l) : OneRun p l' :=
  fun x y z hxyz => h x y z (hxyz.trans hs)

theorem OneRun.of_map {β : Type*} {f : β → α} {l : List β} (h : OneRun p (l.map f)) :
    OneRun (fun x => p (f x)) l :=
  fun x y z hxyz => h (f x) (f y) (f z) (by simpa using hxyz.map f)

theorem oneRun_of_forall {l : List α} (h : (∀ x ∈ l, p x = true) ∨ ∀ x ∈ l, p x = false) :
    OneRun p l := by
  intro x y z hxyz hx hz
  have hy : y ∈ l := hxyz.subset (by simp)
  rcases h with h | h
  · exact h y hy
  · rw [h x (hxyz.subset (by simp))] at hx
    cases hx

theorem OneRun.append {a b : List α} (ha : OneRun p a) (hb : OneRun p b)
    (hab : (∀ x ∈ a, p x = false) ∨ ∀ z ∈ b, p z = false) : OneRun p (a ++ b) := by
  intro x y z hxyz hx hz
  obtain ⟨l₁, l₂, hsplit, h₁, h₂⟩ := List.sublist_append_iff.mp hxyz
  match l₁, l₂, hsplit with
  | [], _, rfl => exact hb x y z h₂ hx hz
  | [x'], _, hsplit =>
    obtain ⟨rfl, rfl⟩ := List.cons_eq_cons.mp hsplit
    rcases hab with hab | hab
    · rw [hab x (h₁.subset (by simp))] at hx; cases hx
    · rw [hab z (h₂.subset (by simp))] at hz; cases hz
  | [x', y'], _, hsplit =>
    simp only [List.cons_append, List.nil_append, List.cons.injEq] at hsplit
    obtain ⟨rfl, rfl, rfl⟩ := hsplit
    rcases hab with hab | hab
    · rw [hab x (h₁.subset (by simp))] at hx; cases hx
    · rw [hab z (h₂.subset (by simp))] at hz; cases hz
  | [_, _, _], [], hsplit =>
    rw [List.append_nil] at hsplit
    exact ha x y z (hsplit ▸ h₁) hx hz
  | _ :: _ :: _ :: _ :: _, _, hsplit => simp at hsplit
  | [_, _, _], _ :: _, hsplit => simp at hsplit

theorem OneRun.forall_after {l : List α} (h : OneRun p l) :
    ∀ y ∈ ((l.dropWhile (fun x => !p x)).dropWhile p), p y = false := by
  intro y hy
  rw [Bool.eq_false_iff]
  intro hpy
  obtain ⟨b, rest, hb⟩ : ∃ b rest, l.dropWhile (fun x => !p x) = b :: rest := by
    cases hd : l.dropWhile (fun x => !p x) with
    | nil => rw [hd] at hy; simp at hy
    | cons b rest => exact ⟨b, rest, rfl⟩
  have hpb : p b = true := by
    have := List.head_dropWhile_not (fun x => !p x) (l := l)
      (by rw [hb]; exact List.cons_ne_nil b rest)
    simpa [hb] using this
  rw [hb, List.dropWhile_cons, if_pos hpb] at hy
  obtain ⟨d, rest', hd⟩ : ∃ d rest', rest.dropWhile p = d :: rest' := by
    cases hd : rest.dropWhile p with
    | nil => rw [hd] at hy; simp at hy
    | cons d rest' => exact ⟨d, rest', rfl⟩
  have hpd : p d = false := by
    have := List.head_dropWhile_not p (l := rest) (by rw [hd]; exact List.cons_ne_nil d rest')
    simpa [hd] using this
  rw [hd] at hy
  rcases List.mem_cons.mp hy with rfl | hy'
  · rw [hpd] at hpy; cases hpy
  · have hsub : [b, d, y].Sublist l := by
      have h₁ : [b, d, y].Sublist (b :: d :: rest') :=
        List.cons_sublist_cons.mpr (List.cons_sublist_cons.mpr (List.singleton_sublist.mpr hy'))
      have h₂ : (d :: rest').Sublist rest := hd ▸ List.dropWhile_sublist p
      have h₃ : (b :: rest).Sublist l := hb ▸ List.dropWhile_sublist _
      exact h₁.trans ((List.cons_sublist_cons.mpr h₂).trans h₃)
    have := h b d y hsub hpb hpy
    rw [hpd] at this
    cases this

/-- On a list with one run, erasing the first run erases every element satisfying `p`. -/
theorem eraseFirstRun_eq_filter {l : List α} (h : OneRun p l) :
    eraseFirstRun p l = l.filter fun x => !p x := by
  have hl : l = l.takeWhile (fun x => !p x) ++ ((l.dropWhile (fun x => !p x)).takeWhile p ++
      (l.dropWhile (fun x => !p x)).dropWhile p) := by
    rw [List.takeWhile_append_dropWhile, List.takeWhile_append_dropWhile]
  have hA : ∀ x ∈ l.takeWhile (fun x => !p x), p x = false := fun x hx => by
    simpa using List.mem_takeWhile_imp hx
  have hC : ∀ x ∈ (l.dropWhile (fun x => !p x)).takeWhile p, p x = true :=
    fun x hx => List.mem_takeWhile_imp hx
  have hfilter : (l.takeWhile (fun x => !p x) ++ ((l.dropWhile (fun x => !p x)).takeWhile p ++
      (l.dropWhile (fun x => !p x)).dropWhile p)).filter (fun x => !p x) = eraseFirstRun p l := by
    rw [List.filter_append, List.filter_append, List.filter_eq_self.mpr (by simpa using hA),
      List.filter_eq_nil_iff.mpr (by simpa using hC), List.filter_eq_self.mpr
        (by simpa using h.forall_after), List.nil_append]
    rfl
  rw [← hfilter, ← hl]

end TbcNode.Logic
