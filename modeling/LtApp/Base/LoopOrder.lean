import Mathlib.Data.List.Basic
import Mathlib.Data.List.Perm.Basic

/-!
# The order a loop takes its tasks in

What is posted to a loop waits in a queue, and the loop takes one task after the other. A `LoopOrder` says which may be
the next, by the places in the queue. Whatever it says, a task is taken once and the others stay (`Taken.perm`); a loop
that is `Fifo` takes the one in front (`Taken.eq_cons`). `Alike` lists are the same but for what the order can do.
-/

namespace LtApp

/-- The places in a queue the next task may be taken from. -/
abbrev LoopOrder (α : Type*) := List α → Nat → Prop

/-- The `n`-th task of the queue may be the next; it is `x`, and leaves `rest`. -/
structure Taken {α : Type*} (order : LoopOrder α) (l : List α) (n : Nat) (x : α) (rest : List α) : Prop where
  may  : order l n
  task : l[n]? = some x
  rest : rest = l.eraseIdx n

namespace LoopOrder

variable {α β : Type*} {order : LoopOrder α}

/-- The tasks are taken in the order of posting. -/
def Fifo (order : LoopOrder α) : Prop := ∀ l n, order l n ↔ n = 0

/-- The loop that takes the task in front. -/
def front : LoopOrder α := fun _ n => n = 0

instance : DecidableRel (front : LoopOrder α) := fun _ n => inferInstanceAs (Decidable (n = 0))

theorem front_fifo : (front : LoopOrder α).Fifo := fun _ _ => Iff.rfl

/-- The same elements, and in the same order if the tasks are taken in order. -/
def Alike (order : LoopOrder α) (l m : List β) : Prop := l.Perm m ∧ (order.Fifo → l = m)

namespace Alike

variable {l m k : List β}

theorem of_eq (h : l = m) : order.Alike l m := ⟨.of_eq h, fun _ => h⟩

theorem trans (h : order.Alike l m) (h' : order.Alike m k) : order.Alike l k :=
  ⟨h.1.trans h'.1, fun hf => (h.2 hf).trans (h'.2 hf)⟩

theorem append_left (k : List β) (h : order.Alike l m) : order.Alike (k ++ l) (k ++ m) :=
  ⟨h.1.append_left k, fun hf => congrArg (k ++ ·) (h.2 hf)⟩

theorem append_right (k : List β) (h : order.Alike l m) : order.Alike (l ++ k) (m ++ k) :=
  ⟨h.1.append_right k, fun hf => congrArg (· ++ k) (h.2 hf)⟩

end Alike
end LoopOrder

namespace Taken

variable {α β : Type*} {order : LoopOrder α} {l rest : List α} {n : Nat} {x y : α}

/-- A task is taken once, and the others stay. -/
theorem perm (h : Taken order l n x rest) : l.Perm (x :: rest) := by
  obtain ⟨hn, hx⟩ := List.getElem?_eq_some_iff.1 h.task
  rw [h.rest, ← hx]
  exact (List.getElem_cons_eraseIdx_perm hn).symm

theorem mem_iff (h : Taken order l n x rest) : y ∈ l ↔ y = x ∨ y ∈ rest := by
  rw [h.perm.mem_iff, List.mem_cons]

theorem mem (h : Taken order l n x rest) : x ∈ l := h.mem_iff.2 (.inl rfl)

/-- A loop that takes its tasks in order takes the one in front. -/
theorem eq_cons (h : Taken order l n x rest) (hf : order.Fifo) : l = x :: rest := by
  obtain rfl : n = 0 := (hf l n).1 h.may
  have htask := h.task
  rw [h.rest]
  cases l with
  | nil => cases htask
  | cons y l =>
    obtain rfl : y = x := Option.some.inj htask
    rfl

/-- What the tasks carry is carried by the one taken and by the others. -/
theorem alike_filterMap (h : Taken order l n x rest) (f : α → Option β) :
    order.Alike (l.filterMap f) ((f x).toList ++ rest.filterMap f) := by
  have hcons : (x :: rest).filterMap f = (f x).toList ++ rest.filterMap f := by
    cases hx : f x <;> simp [hx]
  rw [← hcons]
  exact ⟨h.perm.filterMap f, fun hf => by rw [← h.eq_cons hf]⟩

end Taken
end LtApp
