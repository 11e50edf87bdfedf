import Mathlib.Data.List.Basic

/-!
# Labelled transition systems and their runs

`Lts.Run M s as t`: performing the actions `as` in order leads from `s` to `t`. Runs are closed under
prefixes (`Run.split`), so a statement about the end of every run is a statement about every state
every run passes through. `restrict g` keeps the steps that meet `g`: its runs are the runs of `M` all of
whose steps meet the condition.
-/

namespace LtApp

/-- A labelled transition system with states `σ` and actions `α`. -/
structure Lts (σ α : Type*) where
  step : σ → α → σ → Prop

namespace Lts

variable {σ τ α β : Type*} {M : Lts σ α} {N : Lts τ β}

/-- A run, first action first. -/
inductive Run (M : Lts σ α) : σ → List α → σ → Prop
  | nil (s : σ) : Run M s [] s
  | cons {s t u : σ} {a : α} {as : List α} : M.step s a t → Run M t as u → Run M s (a :: as) u

theorem Run.single {s t : σ} {a : α} (h : M.step s a t) : M.Run s [a] t := .cons h (.nil _)

theorem Run.append {s t u : σ} {as bs : List α} (h : M.Run s as t) (h' : M.Run t bs u) :
    M.Run s (as ++ bs) u := by
  induction h with
  | nil => exact h'
  | cons hs _ ih => exact .cons hs (ih h')

/-- Every prefix of a run is a run. -/
theorem Run.split {s u : σ} : ∀ {as bs : List α}, M.Run s (as ++ bs) u → ∃ t, M.Run s as t ∧ M.Run t bs u
  | [], _, h => ⟨s, .nil _, h⟩
  | _ :: _, _, .cons hs h => by
    obtain ⟨t, h1, h2⟩ := h.split
    exact ⟨t, .cons hs h1, h2⟩

/-- What holds at the start and is kept by every step holds at the end of every run. -/
theorem Run.invariant {P : σ → Prop} (hstep : ∀ s a t, P s → M.step s a t → P t) {s t : σ} {as : List α}
    (h : M.Run s as t) (hs : P s) : P t := by
  induction h with
  | nil => exact hs
  | cons hst _ ih => exact ih (hstep _ _ _ hs hst)

/-- What holds before any action, and is kept by every action added, holds of every run and of the actions performed in
it. -/
theorem Run.history {P : List α → σ → Prop} (hstep : ∀ as s a t, P as s → M.step s a t → P (as ++ [a]) t) {s t : σ}
    {as : List α} (h : M.Run s as t) (hs : P [] s) : P as t := by
  suffices hsuf : ∀ pre, P pre s → P (pre ++ as) t from hsuf [] hs
  clear hs
  induction h with
  | nil =>
    intro pre hp
    simpa using hp
  | cons hst _ ih =>
    intro pre hp
    simpa using ih (pre ++ [_]) (hstep _ _ _ _ hp hst)

/-- A measure that every step decreases bounds the length of the runs. -/
theorem Run.length_add_le {μ : σ → Nat} (hμ : ∀ s a t, M.step s a t → μ t < μ s) {s t : σ} {as : List α}
    (h : M.Run s as t) : as.length + μ t ≤ μ s := by
  induction h with
  | nil => simp
  | cons hs _ ih =>
    have hlt := hμ _ _ _ hs
    rw [List.length_cons]
    omega

/-- The same, where the steps decrease it in the states that meet an invariant. -/
theorem Run.length_add_le_of {I : σ → Prop} {μ : σ → Nat} (hμ : ∀ s a t, I s → M.step s a t → μ t < μ s ∧ I t) {s t : σ}
    {as : List α} (h : M.Run s as t) (hs : I s) : as.length + μ t ≤ μ s ∧ I t := by
  induction h with
  | nil => exact ⟨by simp, hs⟩
  | cons hst _ ih =>
    obtain ⟨hlt, hi⟩ := hμ _ _ _ hs hst
    obtain ⟨hle, ht⟩ := ih hi
    refine ⟨?_, ht⟩
    rw [List.length_cons]
    omega

/-- No step leads out of the state. -/
def Stuck (M : Lts σ α) (s : σ) : Prop := ∀ a t, ¬ M.step s a t

/-- Where every step decreases a measure, in the states that meet an invariant, some run comes to an end. -/
theorem exists_stuck_of {I : σ → Prop} {μ : σ → Nat} (hμ : ∀ s a t, I s → M.step s a t → μ t < μ s ∧ I t) (s : σ)
    (hs : I s) : ∃ as t, M.Run s as t ∧ M.Stuck t ∧ I t := by
  by_cases h : M.Stuck s
  · exact ⟨[], s, .nil s, h, hs⟩
  · obtain ⟨a, t, hst⟩ : ∃ a t, M.step s a t := by simpa [Stuck] using h
    obtain ⟨hlt, ht⟩ := hμ s a t hs hst
    obtain ⟨as, u, hr, hu, hi⟩ := exists_stuck_of hμ t ht
    exact ⟨a :: as, u, .cons hst hr, hu, hi⟩
termination_by μ s

/-- Where every step decreases a measure, some run comes to an end. -/
theorem exists_stuck {μ : σ → Nat} (hμ : ∀ s a t, M.step s a t → μ t < μ s) (s : σ) :
    ∃ as t, M.Run s as t ∧ M.Stuck t := by
  obtain ⟨as, t, hr, ht, -⟩ :=
    exists_stuck_of (I := fun _ => True) (fun s a t _ hst => ⟨hμ s a t hst, trivial⟩) s trivial
  exact ⟨as, t, hr, ht⟩

/-- The steps of `M` that lead to a state with `P`. -/
def within (M : Lts σ α) (P : σ → Prop) : Lts σ α := ⟨fun s a t => M.step s a t ∧ P t⟩

/-- Where every step is determined by its action, so is every run. -/
theorem Run.unique (hdet : ∀ s a t t', M.step s a t → M.step s a t' → t = t') {s t : σ} {as : List α}
    (h : M.Run s as t) : ∀ {t'}, M.Run s as t' → t = t' := by
  induction h with
  | nil => rintro _ ⟨⟩; rfl
  | cons hs _ ih =>
    rintro _ (_ | ⟨hs', hr⟩)
    obtain rfl := hdet _ _ _ _ hs hs'
    exact ih hr

/-- The steps of `M` that meet `g`. -/
def restrict (M : Lts σ α) (g : σ → α → Prop) : Lts σ α := ⟨fun s a t => M.step s a t ∧ g s a⟩

theorem Run.of_restrict {g : σ → α → Prop} {s t : σ} {as : List α} (h : (M.restrict g).Run s as t) :
    M.Run s as t := by
  induction h with
  | nil => exact .nil _
  | cons hs _ ih => exact .cons hs.1 ih

theorem Run.restrict_true {s t : σ} {as : List α} (h : M.Run s as t) : (M.restrict fun _ _ => True).Run s as t := by
  induction h with
  | nil => exact .nil _
  | cons hs _ ih => exact .cons ⟨hs, trivial⟩ ih

theorem Run.restrict_forall {P : α → Prop} {s t : σ} {as : List α} (h : M.Run s as t) (hP : ∀ a ∈ as, P a) :
    (M.restrict fun _ a => P a).Run s as t := by
  induction h with
  | nil => exact .nil _
  | cons hs _ ih =>
    obtain ⟨ha, has⟩ := List.forall_mem_cons.1 hP
    exact .cons ⟨hs, ha⟩ (ih has)

/-- The steps that meet `g` meet `k` wherever `I` holds, which they keep. -/
theorem Run.restrict_imp {I : σ → Prop} {g k : σ → α → Prop} (hI : ∀ s a t, I s → g s a → M.step s a t → I t)
    (hk : ∀ s a, I s → g s a → ∀ t, M.step s a t → k s a) {s t : σ} {as : List α} (h : (M.restrict g).Run s as t)
    (hs : I s) : (M.restrict k).Run s as t := by
  induction h with
  | nil => exact .nil _
  | cons hst _ ih => exact .cons ⟨hst.1, hk _ _ hs hst.2 _ hst.1⟩ (ih (hI _ _ _ hs hst.2 hst.1))

/-- An invariant of the steps that meet `g` holds at the end of every run whose steps all meet it. -/
theorem Run.invariant_restrict {g : σ → α → Prop} {P : σ → Prop}
    (hstep : ∀ s a t, P s → g s a → M.step s a t → P t) {s t : σ} {as : List α}
    (h : (M.restrict g).Run s as t) (hs : P s) : P t :=
  h.invariant (fun s a t hP (hst : M.step s a t ∧ g s a) => hstep s a t hP hst.2 hst.1) hs

/-- **Exactness of a condition on steps.** If a step from a state with `P` leads to one exactly when it meets `g`,
the runs that never leave `P` are the runs whose steps all meet `g`. -/
theorem Run.within_iff_restrict {I P : σ → Prop} {g : σ → α → Prop}
    (hI : ∀ s a t, I s → M.step s a t → I t) (hstep : ∀ s a t, I s → P s → M.step s a t → (P t ↔ g s a)) {s t : σ}
    {as : List α} (hi : I s) (hp : P s) : (M.within P).Run s as t ↔ (M.restrict g).Run s as t := by
  constructor
  · intro h
    induction h with
    | nil => exact .nil _
    | cons hs _ ih =>
      exact .cons ⟨hs.1, (hstep _ _ _ hi hp hs.1).1 hs.2⟩ (ih (hI _ _ _ hi hs.1) hs.2)
  · intro h
    induction h with
    | nil => exact .nil _
    | cons hs _ ih =>
      have hp' := (hstep _ _ _ hi hp hs.1).2 hs.2
      exact .cons ⟨hs.1, hp'⟩ (ih (hI _ _ _ hi hs.1) hp')

/-- Where the steps that meet `g` keep an invariant that gives `P`, their runs never leave `P`. -/
theorem Run.within_of_restrict {I P : σ → Prop} {g : σ → α → Prop} (hI : ∀ s a t, I s → g s a → M.step s a t → I t)
    (hP : ∀ s, I s → P s) {s t : σ} {as : List α} (h : (M.restrict g).Run s as t) (hi : I s) :
    (M.within P).Run s as t := by
  induction h with
  | nil => exact .nil _
  | cons hs _ ih =>
    have ht := hI _ _ _ hi hs.2 hs.1
    exact .cons ⟨hs.1, hP _ ht⟩ (ih ht)

/-- If a step that does not meet `g` leads to `D`, which lasts as long as `P` does, the runs that never leave `P` and do
not end in `D` have no such step. -/
theorem Run.restrict_of_within {I P D : σ → Prop} {g : σ → α → Prop} (hI : ∀ s a t, I s → M.step s a t → P t → I t)
    (hbreak : ∀ s a t, I s → M.step s a t → P t → ¬ g s a → D t)
    (hlast : ∀ s a t, I s → D s → M.step s a t → P t → D t) {s t : σ} {as : List α} (h : (M.within P).Run s as t)
    (hi : I s) (hend : ¬ D t) : ¬ D s ∧ (M.restrict g).Run s as t := by
  induction h with
  | nil => exact ⟨hend, .nil _⟩
  | cons hs _ ih =>
    obtain ⟨hd, hr⟩ := ih (hI _ _ _ hi hs.1 hs.2) hend
    refine ⟨fun hd' => hd (hlast _ _ _ hi hd' hs.1 hs.2), .cons ⟨hs.1, ?_⟩ hr⟩
    exact Classical.byContradiction fun hg => hd (hbreak _ _ _ hi hs.1 hs.2 hg)

/-- The runs that never leave `P` are those that never leave `Q`, if no step out of `Q` tells the two apart. -/
theorem Run.within_congr {I P Q : σ → Prop} (hI : ∀ s a t, I s → M.step s a t → I t)
    (hstep : ∀ s a t, I s → Q s → M.step s a t → (P t ↔ Q t)) {s t : σ} {as : List α} (hi : I s) (hq : Q s) :
    (M.within P).Run s as t ↔ (M.within Q).Run s as t := by
  constructor
  · intro h
    induction h with
    | nil => exact .nil _
    | cons hs _ ih =>
      have hq' := (hstep _ _ _ hi hq hs.1).1 hs.2
      exact .cons ⟨hs.1, hq'⟩ (ih (hI _ _ _ hi hs.1) hq')
  · intro h
    induction h with
    | nil => exact .nil _
    | cons hs _ ih => exact .cons ⟨hs.1, (hstep _ _ _ hi hq hs.1).2 hs.2⟩ (ih (hI _ _ _ hi hs.1) hs.2)

/-- `g` holds of every pair of states two runs of the actions come to together, before the step they then make. -/
def Along (M : Lts σ α) (g : σ → σ → α → Prop) : List α → σ → σ → Prop
  | [], _, _ => True
  | a :: as, s, t => g s t a ∧ ∀ s' t', M.step s a s' → M.step t a t' → M.Along g as s' t'

theorem Along.swap {g : σ → σ → α → Prop} : ∀ {as : List α} {s t : σ}, M.Along g as s t →
    M.Along (fun t s => g s t) as t s
  | [], _, _, _ => trivial
  | _ :: _, _, _, h => ⟨h.1, fun _ _ ht hs => (h.2 _ _ hs ht).swap⟩

/-- **Two runs of the same actions.** If related states that meet `g` can make the same steps, to related states,
then what one state can run the other can. -/
theorem Run.along {R : σ → σ → Prop} {g : σ → σ → α → Prop}
    (hstep : ∀ s t a s', R s t → g s t a → M.step s a s' → ∃ t', M.step t a t' ∧ R s' t') {s s' : σ} {as : List α}
    (h : M.Run s as s') : ∀ t, R s t → M.Along g as s t → ∃ t', M.Run t as t' ∧ R s' t' := by
  induction h with
  | nil => exact fun t hR _ => ⟨t, .nil _, hR⟩
  | cons hs _ ih =>
    intro t hR hg
    obtain ⟨t1, ht, hR1⟩ := hstep _ _ _ _ hR hg.1 hs
    obtain ⟨t', hr, hR'⟩ := ih t1 hR1 (hg.2 _ _ hs ht)
    exact ⟨t', .cons ht hr, hR'⟩

/-! ## Runs computed -/

section
variable {f : σ → α → Option σ} {g : σ → α → Prop} [∀ s a, Decidable (g s a)]

/-- Performs the actions with a step function; `none` where one cannot be performed or does not meet `g`. -/
def exec (f : σ → α → Option σ) (g : σ → α → Prop) [∀ s a, Decidable (g s a)] : List α → σ → Option σ
  | [], s => some s
  | a :: as, s => if g s a then (f s a).bind (exec f g as) else none

theorem run_of_exec (hf : ∀ s a t, f s a = some t → M.step s a t) :
    ∀ {as : List α} {s t : σ}, exec f g as s = some t → (M.restrict g).Run s as t
  | [], s, t, h => by
    obtain rfl : s = t := Option.some.inj h
    exact .nil _
  | a :: as, s, t, h => by
    simp only [exec] at h
    split at h
    · rename_i hg
      obtain ⟨u, hu, h⟩ := Option.bind_eq_some_iff.1 h
      exact .cons ⟨hf _ _ _ hu, hg⟩ (run_of_exec hf h)
    · cases h

theorem exists_run_of_exec (hf : ∀ s a t, f s a = some t → M.step s a t) {P : σ → Prop} [DecidablePred P] {as : List α}
    {s : σ} (h : (exec f g as s).any (fun t => decide (P t)) = true) : ∃ t, (M.restrict g).Run s as t ∧ P t := by
  cases hr : exec f g as s with
  | none => simp [hr] at h
  | some t => exact ⟨t, run_of_exec hf hr, by simpa [hr] using h⟩

/-- What is seen at the end of a run that is computed, `P`, gives what is claimed of it, `Q`. -/
theorem exists_restrict_run_of_exec (hf : ∀ s a t, f s a = some t → M.step s a t) {P Q : σ → Prop} [DecidablePred P]
    {as : List α} {s : σ} (h : (exec f g as s).any (fun t => decide (P t)) = true)
    (hQ : ∀ t, (M.restrict g).Run s as t → P t → Q t) : ∃ t, (M.restrict g).Run s as t ∧ Q t := by
  obtain ⟨t, hr, hp⟩ := exists_run_of_exec hf h
  exact ⟨t, hr, hQ t hr hp⟩

theorem exists_run_of_exec_imp (hf : ∀ s a t, f s a = some t → M.step s a t) {P Q : σ → Prop} [DecidablePred P]
    {as : List α} {s : σ} (h : (exec f (fun _ _ => True) as s).any (fun t => decide (P t)) = true)
    (hQ : ∀ t, M.Run s as t → P t → Q t) : ∃ t, M.Run s as t ∧ Q t := by
  obtain ⟨t, hr, hp⟩ := exists_run_of_exec hf h
  exact ⟨t, hr.of_restrict, hQ t hr.of_restrict hp⟩

end

/-- **Refinement of runs.** If every step of `M` is matched by a run of `N` between related states, so is
every run. -/
theorem Run.refines {R : σ → τ → Prop}
    (hsim : ∀ s a s' t, R s t → M.step s a s' → ∃ bs t', N.Run t bs t' ∧ R s' t') {s s' : σ} {as : List α}
    (h : M.Run s as s') : ∀ t, R s t → ∃ bs t', N.Run t bs t' ∧ R s' t' := by
  induction h with
  | nil => exact fun t hR => ⟨[], t, .nil _, hR⟩
  | cons hs _ ih =>
    intro t hR
    obtain ⟨bs, t1, hr1, hR1⟩ := hsim _ _ _ _ hR hs
    obtain ⟨bs', t2, hr2, hR2⟩ := ih t1 hR1
    exact ⟨bs ++ bs', t2, hr1.append hr2, hR2⟩

end Lts
end LtApp
