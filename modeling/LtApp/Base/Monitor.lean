import Mathlib.Data.List.Basic

/-!
# Monitors of a history

A monitor reads a history, newest event first, and says of each event whether it is allowed where it happens.
`Stands l s`: nothing that is not allowed has happened, and the monitor has come to `s`. An invariant of a system
says which `s` goes with which of its states; `Stands.cons` and `Stands.append` are its steps.
-/

namespace LtApp

structure Monitor (ε μ : Type*) where
  init   : μ
  next   : μ → ε → μ
  Allows : μ → ε → Prop

namespace Monitor

variable {ε μ : Type*} (m : Monitor ε μ)

/-- The state after the history. -/
def after : List ε → μ
  | [] => m.init
  | e :: l => m.next (after l) e

/-- Every event is allowed where it happens. -/
def Accepts (l : List ε) : Prop :=
  ∀ later e earlier, l = later ++ e :: earlier → m.Allows (m.after earlier) e

/-- The event is allowed and changes nothing. -/
def Ignores (s : μ) (e : ε) : Prop := m.Allows s e ∧ m.next s e = s

structure Stands (l : List ε) (s : μ) : Prop where
  accepts : m.Accepts l
  after   : m.after l = s

variable {m} {l es : List ε} {e : ε} {s : μ}

theorem accepts_nil : m.Accepts [] := fun later e earlier h => by simp at h

theorem accepts_cons : m.Accepts (e :: l) ↔ m.Allows (m.after l) e ∧ m.Accepts l := by
  constructor
  · intro h
    exact ⟨h [] e l rfl, fun later x earlier hx => h (e :: later) x earlier (by rw [hx, List.cons_append])⟩
  · rintro ⟨he, hl⟩ later x earlier hx
    cases later with
    | nil =>
      obtain ⟨rfl, rfl⟩ := List.cons.inj hx
      exact he
    | cons y later => exact hl later x earlier (List.cons.inj hx).2

instance decidableAccepts [∀ s e, Decidable (m.Allows s e)] : ∀ l : List ε, Decidable (m.Accepts l)
  | [] => isTrue accepts_nil
  | e :: l => @decidable_of_iff _ (m.Allows (m.after l) e ∧ m.Accepts l) accepts_cons.symm
      (@instDecidableAnd _ _ _ (decidableAccepts l))

/-- Every history a history has grown from is accepted with it. -/
theorem Accepts.of_append (h : m.Accepts (es ++ l)) : m.Accepts l := fun later e earlier hx =>
  h (es ++ later) e earlier (by rw [hx, List.append_assoc])

theorem stands_nil : m.Stands [] m.init := ⟨accepts_nil, rfl⟩

theorem Stands.cons (h : m.Stands l s) (ha : m.Allows s e) : m.Stands (e :: l) (m.next s e) :=
  ⟨accepts_cons.2 ⟨h.after ▸ ha, h.accepts⟩, by rw [← h.after]; rfl⟩

theorem Stands.ignore (h : m.Stands l s) (he : m.Ignores s e) : m.Stands (e :: l) s := he.2 ▸ h.cons he.1

theorem Stands.append (h : m.Stands l s) (hes : ∀ e ∈ es, m.Ignores s e) : m.Stands (es ++ l) s := by
  induction es with
  | nil => exact h
  | cons e es ih => exact (ih fun x hx => hes x (by simp [hx])).ignore (hes e (by simp))

end Monitor
end LtApp
