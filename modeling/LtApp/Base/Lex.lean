import Mathlib.Data.List.Basic
import Mathlib.Order.Cover

/-!
# Prefixes in the lexicographic order

The lists with a given prefix are an interval of the lexicographic order: from the prefix itself up to the list
that has the next greater last element (`prefix_iff`). Where there is no next greater element there is no such
list; if the prefix has length one there is no need for one (`singleton_le_iff`).
-/

namespace LtApp.Lex

variable {α : Type*} [LT α] [Std.Asymm fun x y : α => x < y]

theorem lt_irrefl (x : α) : ¬ x < x := fun h => Std.Asymm.asymm _ _ h h

theorem append_lt_append {p l k : List α} : p ++ l < p ++ k ↔ l < k := by
  induction p with
  | nil => rfl
  | cons x p ih => rw [List.cons_append, List.cons_append, List.cons_lt_cons_self, ih]

variable [Std.Trichotomous fun x y : α => x < y]

theorem cons_le {a b : α} {l k : List α} : a :: l ≤ b :: k ↔ a < b ∨ a = b ∧ l ≤ k := List.cons_le_cons_iff

theorem singleton_le_cons {a c : α} {k : List α} : [a] ≤ c :: k ↔ a < c ∨ a = c := by
  simp [cons_le]

/-- **A prefix is an interval.** -/
theorem prefix_iff {a b : α} (hab : a ⋖ b) : ∀ p k : List α, p ++ [a] <+: k ↔ p ++ [a] ≤ k ∧ k < p ++ [b]
  | [], [] => by simp
  | [], c :: k => by
    have hc : a = c ↔ (a < c ∨ a = c) ∧ c < b := by
      constructor
      · rintro rfl
        exact ⟨.inr rfl, hab.1⟩
      · rintro ⟨h | h, hb⟩
        · exact absurd hb (hab.2 h)
        · exact h
    simpa [singleton_le_cons, List.cons_prefix_cons, List.cons_lt_cons_iff] using hc
  | x :: p, [] => by simp
  | x :: p, c :: k => by
    have hx : ¬ (x < c ∧ c < x) := fun h => Std.Asymm.asymm _ _ h.1 h.2
    have hirr := lt_irrefl x
    simp only [List.cons_append, List.cons_prefix_cons, cons_le, List.cons_lt_cons_iff, prefix_iff hab p k]
    grind

/-- Above a greatest element there is nothing else. -/
theorem singleton_le_iff {a : α} (ha : ∀ c, ¬ a < c) (k : List α) : [a] ≤ k ↔ [a] <+: k := by
  cases k with
  | nil => simp
  | cons c k => simp [singleton_le_cons, ha, List.cons_prefix_cons]

end LtApp.Lex
