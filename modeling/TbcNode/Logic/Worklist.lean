import Mathlib.Data.Finset.Card
import Mathlib.Logic.Relation

/-! # Closing a set under a successor function with a worklist

`worklist next fuel stage visited` visits the stage, putting the unvisited successors on it. Inside
a finite universe closed under `next` and with as much fuel as it has elements, it returns exactly
the elements reachable from the stage (`mem_worklist_iff`).
-/

namespace TbcNode.Logic

variable {α : Type*} [DecidableEq α]

section Loop

variable (next : α → List α)

/-- Put on the stage each of `cs` that is not yet visited. -/
def pushUnvisited (visited stage cs : List α) : List α :=
  cs.foldl (fun stage c => if c ∈ visited then stage else stage.insert c) stage

/-- Visit the stage until it is empty or the fuel runs out. -/
def worklist : Nat → List α → List α → List α
  | 0, _, visited => visited
  | _ + 1, [], visited => visited
  | fuel + 1, x :: stage, visited =>
    worklist fuel (pushUnvisited (visited.insert x) (stage.filter (· != x)) (next x))
      (visited.insert x)

def Succ (a b : α) : Prop := b ∈ next a

end Loop

theorem mem_pushUnvisited {visited stage cs : List α} {y : α} :
    y ∈ pushUnvisited visited stage cs ↔ y ∈ stage ∨ (y ∈ cs ∧ y ∉ visited) := by
  induction cs generalizing stage with
  | nil => simp [pushUnvisited]
  | cons c cs ih =>
    simp only [pushUnvisited, List.foldl_cons] at ih ⊢
    rw [ih]
    by_cases hc : c ∈ visited
    · rw [if_pos hc]
      constructor
      · rintro (h | ⟨h, hv⟩)
        · exact .inl h
        · exact .inr ⟨List.mem_cons_of_mem c h, hv⟩
      · rintro (h | ⟨h, hv⟩)
        · exact .inl h
        · rcases List.mem_cons.mp h with rfl | h
          · exact absurd hc hv
          · exact .inr ⟨h, hv⟩
    · rw [if_neg hc, List.mem_insert_iff, List.mem_cons]
      constructor
      · rintro ((rfl | h) | ⟨h, hv⟩)
        · exact .inr ⟨.inl rfl, hc⟩
        · exact .inl h
        · exact .inr ⟨.inr h, hv⟩
      · rintro (h | ⟨rfl | h, hv⟩)
        · exact .inl (.inr h)
        · exact .inl (.inl rfl)
        · exact .inr ⟨h, hv⟩

section Invariant

variable {next : α → List α} (U : Finset α)

/-- What holds between two rounds of the loop started on `init`: the stage is not visited, both
lie in the universe and are reachable from `init`, `init` is on one of them, and every successor
of a visited element is on one of them. -/
structure WorklistInv (next : α → List α) (init stage visited : List α) : Prop where
  fresh : ∀ y ∈ stage, y ∉ visited
  stage_mem : ∀ y ∈ stage, y ∈ U
  visited_mem : ∀ y ∈ visited, y ∈ U
  sound : ∀ y, y ∈ stage ∨ y ∈ visited → ∃ s ∈ init, Relation.ReflTransGen (Succ next) s y
  init_mem : ∀ s ∈ init, s ∈ stage ∨ s ∈ visited
  closed : ∀ v ∈ visited, ∀ c ∈ next v, c ∈ stage ∨ c ∈ visited

variable {U}

omit [DecidableEq α] in
theorem worklistInv_init {init : List α} (hinit : ∀ s ∈ init, s ∈ U) :
    WorklistInv U next init init [] where
  fresh _ _ := List.not_mem_nil
  stage_mem := hinit
  visited_mem _ h := absurd h List.not_mem_nil
  sound y h := ⟨y, by simpa using h, .refl⟩
  init_mem _ h := .inl h
  closed _ h := absurd h List.not_mem_nil

/-- One round keeps the invariant, in a universe closed under `next`. -/
theorem WorklistInv.step (hU : ∀ x ∈ U, ∀ y ∈ next x, y ∈ U) {init stage visited : List α}
    {x : α} (h : WorklistInv U next init (x :: stage) visited) :
    WorklistInv U next init (pushUnvisited (visited.insert x) (stage.filter (· != x)) (next x))
      (visited.insert x) where
  fresh y hy := by
    rcases mem_pushUnvisited.mp hy with hy | ⟨-, hy⟩
    · obtain ⟨hy, hne⟩ := List.mem_filter.mp hy
      rw [List.mem_insert_iff, not_or]
      exact ⟨by simpa using hne, h.fresh y (List.mem_cons_of_mem x hy)⟩
    · exact hy
  stage_mem y hy := by
    rcases mem_pushUnvisited.mp hy with hy | ⟨hy, -⟩
    · exact h.stage_mem y (List.mem_cons_of_mem x (List.mem_filter.mp hy).1)
    · exact hU x (h.stage_mem x List.mem_cons_self) y hy
  visited_mem y hy := by
    rcases List.mem_insert_iff.mp hy with rfl | hy
    · exact h.stage_mem y List.mem_cons_self
    · exact h.visited_mem y hy
  sound y hy := by
    have hx := h.sound x (.inl List.mem_cons_self)
    rcases hy with hy | hy
    · rcases mem_pushUnvisited.mp hy with hy | ⟨hy, -⟩
      · exact h.sound y (.inl (List.mem_cons_of_mem x (List.mem_filter.mp hy).1))
      · obtain ⟨s, hs, hsx⟩ := hx
        exact ⟨s, hs, hsx.tail hy⟩
    · rcases List.mem_insert_iff.mp hy with rfl | hy
      · exact hx
      · exact h.sound y (.inr hy)
  init_mem s hs := by
    rcases h.init_mem s hs with hs | hs
    · rcases List.mem_cons.mp hs with rfl | hs
      · exact .inr (List.mem_insert_iff.mpr (.inl rfl))
      · by_cases hsx : s = x
        · exact .inr (List.mem_insert_iff.mpr (.inl hsx))
        · exact .inl (mem_pushUnvisited.mpr (.inl (List.mem_filter.mpr ⟨hs, by simpa using hsx⟩)))
    · exact .inr (List.mem_insert_of_mem hs)
  closed v hv c hc := by
    by_cases hcv : c ∈ visited.insert x
    · exact .inr hcv
    refine .inl (mem_pushUnvisited.mpr ?_)
    rcases List.mem_insert_iff.mp hv with rfl | hv
    · exact .inr ⟨hc, hcv⟩
    · rw [List.mem_insert_iff, not_or] at hcv
      rcases h.closed v hv c hc with hc | hc
      · rcases List.mem_cons.mp hc with hc | hc
        · exact absurd hc hcv.1
        · exact .inl (List.mem_filter.mpr ⟨hc, by simpa using hcv.1⟩)
      · exact absurd hc hcv.2

omit [DecidableEq α] in
theorem WorklistInv.mem_iff {init visited : List α} (h : WorklistInv U next init [] visited)
    (y : α) : y ∈ visited ↔ ∃ s ∈ init, Relation.ReflTransGen (Succ next) s y := by
  constructor
  · exact fun hy => h.sound y (.inr hy)
  · rintro ⟨s, hs, hsy⟩
    induction hsy with
    | refl => simpa using h.init_mem s hs
    | tail _ hbc ih => simpa using h.closed _ ih _ hbc

theorem WorklistInv.card_lt {init stage visited : List α} {x : α}
    (h : WorklistInv U next init (x :: stage) visited) : visited.toFinset.card < U.card := by
  have hsub : visited.toFinset ⊆ U := fun y hy => h.visited_mem y (List.mem_toFinset.mp hy)
  apply Finset.card_lt_card
  rw [Finset.ssubset_iff_of_subset hsub]
  exact ⟨x, h.stage_mem x List.mem_cons_self,
    fun hx => h.fresh x List.mem_cons_self (List.mem_toFinset.mp hx)⟩

theorem WorklistInv.card_insert {init stage visited : List α} {x : α}
    (h : WorklistInv U next init (x :: stage) visited) :
    (visited.insert x).toFinset.card = visited.toFinset.card + 1 := by
  have hx : x ∉ visited := h.fresh x List.mem_cons_self
  rw [List.insert_of_not_mem hx, List.toFinset_cons,
    Finset.card_insert_of_notMem (fun h' => hx (List.mem_toFinset.mp h'))]

theorem mem_worklist_of_inv (hU : ∀ x ∈ U, ∀ y ∈ next x, y ∈ U) {init : List α} :
    ∀ (fuel : Nat) (stage visited : List α), WorklistInv U next init stage visited →
      U.card ≤ fuel + visited.toFinset.card → ∀ y,
        y ∈ worklist next fuel stage visited ↔
          ∃ s ∈ init, Relation.ReflTransGen (Succ next) s y := by
  intro fuel
  induction fuel with
  | zero =>
    rintro (_ | ⟨x, stage⟩) visited h hfuel y
    · exact h.mem_iff y
    · have := h.card_lt
      omega
  | succ fuel ih =>
    rintro (_ | ⟨x, stage⟩) visited h hfuel y
    · exact h.mem_iff y
    · apply ih _ _ (h.step hU)
      rw [h.card_insert]
      omega

/-- The loop started on `init` with nothing visited returns exactly what is reachable from
`init`. -/
theorem mem_worklist_iff (hU : ∀ x ∈ U, ∀ y ∈ next x, y ∈ U) {init : List α}
    (hinit : ∀ s ∈ init, s ∈ U) {fuel : Nat} (hfuel : U.card ≤ fuel) (y : α) :
    y ∈ worklist next fuel init [] ↔ ∃ s ∈ init, Relation.ReflTransGen (Succ next) s y :=
  mem_worklist_of_inv hU fuel init [] (worklistInv_init hinit) (by simpa using hfuel) y

omit [DecidableEq α] in
theorem mem_of_reflTransGen (hU : ∀ x ∈ U, ∀ y ∈ next x, y ∈ U) {s y : α} (hs : s ∈ U)
    (h : Relation.ReflTransGen (Succ next) s y) : y ∈ U := by
  induction h with
  | refl => exact hs
  | tail _ hbc ih => exact hU _ ih _ hbc

end Invariant

end TbcNode.Logic
