import Mathlib.Data.List.Basic

/-!
# Tasks that own or use an object

A queue of tasks is worked off from the front. Some of the tasks own an object and so keep it alive until they have
run, others use it without owning it. Once the queue holds the only owners, the object lives as long as one of them is
left: the queue is `Shielded` if each task that uses the object has an owner behind it. `shielded_iff` reads this off the
ways to cut the queue, and the other lemmas follow the queue from task to task. A task that ends all use can also come
in time: the queue is `Fenced` if one does before the first task that uses the object.
-/

namespace LtApp

variable {α : Type*} {owns uses : α → Prop} {x : α} {l m : List α}

/-- Each task that uses the object is followed by one that owns it. -/
def Shielded (owns uses : α → Prop) : List α → Prop
  | [] => True
  | x :: l => (uses x → ∃ y ∈ l, owns y) ∧ Shielded owns uses l

namespace Shielded

theorem tail (h : Shielded owns uses (x :: l)) : Shielded owns uses l := h.2

/-- The task in front finds the object alive. -/
theorem owner (h : Shielded owns uses (x :: l)) (hx : uses x) : ∃ y ∈ l, owns y := h.1 hx

theorem of_not_uses (h : ∀ y ∈ l, ¬ uses y) : Shielded owns uses l := by
  induction l with
  | nil => trivial
  | cons x l ih =>
    obtain ⟨hx, hl⟩ := List.forall_mem_cons.1 h
    exact ⟨fun hu => absurd hu hx, ih hl⟩

/-- Tasks put at the back leave the queue shielded if they are themselves. -/
theorem append (h : Shielded owns uses l) (hm : Shielded owns uses m) : Shielded owns uses (l ++ m) := by
  induction l with
  | nil => exact hm
  | cons x l ih =>
    refine ⟨fun hu => ?_, ih h.tail⟩
    obtain ⟨y, hy, hoy⟩ := h.owner hu
    exact ⟨y, List.mem_append_left m hy, hoy⟩

/-- Behind an owner everything in front of it is shielded. -/
theorem append_of_owner (hm : Shielded owns uses m) (ho : ∃ y ∈ m, owns y) : Shielded owns uses (l ++ m) := by
  induction l with
  | nil => exact hm
  | cons x l ih =>
    refine ⟨fun _ => ?_, ih⟩
    obtain ⟨y, hy, hoy⟩ := ho
    exact ⟨y, List.mem_append_right l hy, hoy⟩

theorem of_append (h : Shielded owns uses (l ++ m)) : Shielded owns uses m := by
  induction l with
  | nil => exact h
  | cons x l ih => exact ih h.tail

end Shielded

/-- **Where the object would be missed**: a queue is shielded exactly if wherever it is cut in front of a task that uses
the object an owner is left behind that task. -/
theorem shielded_iff : Shielded owns uses l ↔ ∀ l₁ x l₂, l = l₁ ++ x :: l₂ → uses x → ∃ y ∈ l₂, owns y := by
  constructor
  · rintro h l₁ x l₂ rfl hu
    exact h.of_append.owner hu
  · intro h
    induction l with
    | nil => trivial
    | cons x l ih =>
      refine ⟨fun hu => h [] x l rfl hu, ih fun l₁ y l₂ he hu => h (x :: l₁) y l₂ ?_ hu⟩
      rw [he, List.cons_append]

/-- A queue that is not shielded has a task that uses the object, and no owner behind it. -/
theorem exists_of_not_shielded (h : ¬ Shielded owns uses l) :
    ∃ l₁ x l₂, l = l₁ ++ x :: l₂ ∧ uses x ∧ ∀ y ∈ l₂, ¬ owns y := by
  simpa [shielded_iff] using h

/-- The object is used by no task before one has ended its use. -/
def Fenced (ends uses : α → Prop) : List α → Prop
  | [] => True
  | x :: l => ends x ∨ (¬ uses x ∧ Fenced ends uses l)

namespace Fenced

variable {ends : α → Prop}

theorem tail (h : Fenced ends uses (x :: l)) (hx : ¬ ends x) : Fenced ends uses l := (h.resolve_left hx).2

theorem not_uses (h : Fenced ends uses (x :: l)) (hx : ¬ ends x) : ¬ uses x := (h.resolve_left hx).1

theorem of_not_uses (h : ∀ y ∈ l, ¬ uses y) : Fenced ends uses l := by
  induction l with
  | nil => trivial
  | cons x l ih =>
    obtain ⟨hx, hl⟩ := List.forall_mem_cons.1 h
    exact .inr ⟨hx, ih hl⟩

theorem append (h : Fenced ends uses l) (hm : Fenced ends uses m) : Fenced ends uses (l ++ m) := by
  induction l with
  | nil => exact hm
  | cons x l ih => exact Or.imp_right (fun hl => ⟨hl.1, ih hl.2⟩) h

end Fenced

/-- Where the fence is missing some task uses the object, and none before it has ended the use or used it. -/
theorem exists_of_not_fenced {ends : α → Prop} (h : ¬ Fenced ends uses l) :
    ∃ l₁ x l₂, l = l₁ ++ x :: l₂ ∧ uses x ∧ ∀ y ∈ l₁, ¬ ends y ∧ ¬ uses y := by
  induction l with
  | nil => exact absurd trivial h
  | cons x l ih =>
    obtain ⟨hx, hl⟩ := not_or.1 h
    by_cases hu : uses x
    · exact ⟨[], x, l, rfl, hu, by simp⟩
    · obtain ⟨l₁, y, l₂, rfl, hy, hl₁⟩ := ih fun hf => hl ⟨hu, hf⟩
      refine ⟨x :: l₁, y, l₂, rfl, hy, fun z hz => ?_⟩
      rcases List.mem_cons.1 hz with rfl | hz
      · exact ⟨hx, hu⟩
      · exact hl₁ z hz

end LtApp
