import Mathlib.Algebra.GroupWithZero.Nat
import Mathlib.Algebra.Order.BigOperators.Group.List
import Mathlib.Algebra.Order.Group.Nat

/-!
# Measures that are sums

What is left to several parties is the sum of what is left to each of them. Where one takes a step, the sum goes down,
or up, with its own part: the party is a place of a list (`sum_map_set`), or the part a function of the party's name
(`sum_map_update`).
-/

namespace LtApp

variable {α : Type*} {f g : α → Nat}

/-- One element changes. -/
theorem sum_map_set (f : α → Nat) {x y : α} : ∀ {l : List α} {i : Nat}, l[i]? = some x →
    ((l.set i y).map f).sum + f x = (l.map f).sum + f y
  | [], i, h => by simp at h
  | z :: l, 0, h => by
    obtain rfl : z = x := by simpa using h
    simp only [List.set_cons_zero, List.map_cons, List.sum_cons]
    omega
  | z :: l, i + 1, h => by
    have hl := sum_map_set f (l := l) (i := i) (y := y) (by simpa using h)
    simp only [List.set_cons_succ, List.map_cons, List.sum_cons]
    omega

theorem le_sum_map (f : α → Nat) {x : α} {l : List α} {i : Nat} (h : l[i]? = some x) : f x ≤ (l.map f).sum :=
  List.single_le_sum (fun _ _ => Nat.zero_le _) _ (List.mem_map_of_mem (List.mem_of_getElem? h))

/-- One term changes. -/
theorem sum_map_update {a : α} (h : ∀ b ≠ a, g b = f b) : ∀ {l : List α}, l.Nodup → a ∈ l →
    (l.map g).sum + f a = (l.map f).sum + g a
  | b :: l, hn, ha => by
    obtain ⟨hb, hn⟩ := List.nodup_cons.1 hn
    by_cases hba : b = a
    · subst hba
      have hsame : l.map g = l.map f := List.map_congr_left fun x hx => h x fun he => hb (he ▸ hx)
      simp only [List.map_cons, List.sum_cons, hsame]
      omega
    · have hl := sum_map_update h hn (List.mem_of_ne_of_mem (Ne.symm hba) ha)
      simp only [List.map_cons, List.sum_cons, h b hba]
      omega

/-- No term goes up. -/
theorem sum_map_le (h : ∀ a, g a ≤ f a) (l : List α) : (l.map g).sum ≤ (l.map f).sum :=
  List.sum_le_sum fun a _ => h a

end LtApp
