import Mathlib.Logic.Relation

/-!
# Machines that run until they yield

`next s` is either the next state or a result. `iterate next n s` follows `next` for at most `n` steps. A
result does not depend on the bound (`iterate_mono`, `iterate_unique`), a measure that every step decreases is
a bound that suffices (`iterate_isSome`), and a simulation carries results from one machine to another
(`iterate_simulates`): a step of the one may be matched by several of the other, or by none.
-/

namespace LtApp

variable {σ τ ρ ρ' : Type*}

def iterate (next : σ → σ ⊕ ρ) : Nat → σ → Option ρ
  | 0, _ => none
  | n + 1, s =>
    match next s with
    | .inl s' => iterate next n s'
    | .inr r => some r

/-- Some number of steps lead from the one state to the other. -/
def Steps (next : σ → σ ⊕ ρ) : σ → σ → Prop := Relation.ReflTransGen fun s t => next s = .inl t

section
variable {next : σ → σ ⊕ ρ} {s t : σ} {r : ρ} {m n : Nat}

theorem iterate_of_inl (h : next s = .inl t) : iterate next (n + 1) s = iterate next n t := by simp [iterate, h]

theorem iterate_of_inr (h : next s = .inr r) : iterate next (n + 1) s = some r := by simp [iterate, h]

theorem iterate_mono (h : iterate next n s = some r) (hmn : n ≤ m) : iterate next m s = some r := by
  induction n generalizing s m with
  | zero => simp [iterate] at h
  | succ n ih =>
    obtain ⟨m, rfl⟩ : ∃ k, m = k + 1 := ⟨m - 1, by omega⟩
    cases hs : next s with
    | inl t =>
      rw [iterate_of_inl hs] at h ⊢
      exact ih h (by omega)
    | inr r' =>
      rw [iterate_of_inr hs] at h ⊢
      exact h

/-- The bound does not matter. -/
theorem iterate_unique {r' : ρ} (h : iterate next n s = some r) (h' : iterate next m s = some r') : r = r' := by
  have h1 := iterate_mono h (Nat.le_max_left n m)
  have h2 := iterate_mono h' (Nat.le_max_right n m)
  exact Option.some.inj (h1.symm.trans h2)

/-- A measure that every step decreases bounds the run. -/
theorem iterate_isSome {μ : σ → Nat} (hμ : ∀ s t, next s = .inl t → μ t < μ s) (h : μ s < n) :
    (iterate next n s).isSome = true := by
  induction n generalizing s with
  | zero => omega
  | succ n ih =>
    cases hs : next s with
    | inl t =>
      have := hμ s t hs
      rw [iterate_of_inl hs]
      exact ih (by omega)
    | inr r => rw [iterate_of_inr hs]; rfl

theorem Steps.one (h : next s = .inl t) : Steps next s t := .single h

theorem Steps.cons {u : σ} (h : next s = .inl t) (h' : Steps next t u) : Steps next s u := .head h h'

theorem Steps.snoc {u : σ} (h : Steps next s t) (h' : next t = .inl u) : Steps next s u := .tail h h'

theorem Steps.iterate (h : Steps next s t) (hr : iterate next n t = some r) : ∃ m, iterate next m s = some r := by
  induction h using Relation.ReflTransGen.head_induction_on with
  | refl => exact ⟨n, hr⟩
  | head hs _ ih =>
    obtain ⟨m, hm⟩ := ih
    exact ⟨m + 1, by rw [iterate_of_inl hs, hm]⟩

end

/-- **Simulation.** If related states step to related states, in one step on the left and any number on the
right, and yield results related by `Q`, then so do the runs from related states. -/
theorem iterate_simulates {next : σ → σ ⊕ ρ} {next' : τ → τ ⊕ ρ'} {R : σ → τ → Prop} {Q : ρ → ρ' → Prop}
    (hstep : ∀ s s' t, R s t → next s = .inl s' → ∃ t', Steps next' t t' ∧ R s' t')
    (hend : ∀ s r t, R s t → next s = .inr r → ∃ t' r', Steps next' t t' ∧ next' t' = .inr r' ∧ Q r r')
    {n : Nat} {s : σ} {t : τ} {r : ρ} (hR : R s t) (h : iterate next n s = some r) :
    ∃ m r', iterate next' m t = some r' ∧ Q r r' := by
  induction n generalizing s t with
  | zero => simp [iterate] at h
  | succ n ih =>
    cases hs : next s with
    | inl s' =>
      obtain ⟨t', hst, hR'⟩ := hstep s s' t hR hs
      rw [iterate_of_inl hs] at h
      obtain ⟨m, r', hm, hQ⟩ := ih hR' h
      obtain ⟨m', hm'⟩ := hst.iterate hm
      exact ⟨m', r', hm', hQ⟩
    | inr r0 =>
      rw [iterate_of_inr hs] at h
      obtain rfl := Option.some.inj h
      obtain ⟨t', r', hst, hr', hQ⟩ := hend s r0 t hR hs
      obtain ⟨m, hm⟩ := hst.iterate (n := 1) (iterate_of_inr hr')
      exact ⟨m, r', hm, hQ⟩

end LtApp
