import LtApp.Base.Lts

/-!
# A first-in first-out server

One server, one waiting line: an item is submitted at the back of the line, the head of the line is taken
into service when the server is free, and service ends with the item finished. The line keeps the books
straight on every run (`Conserved`): what was submitted is what is finished, then what is in service,
then what waits, in this order.
-/

namespace LtApp

/-- The books of the server. -/
structure Fifo (ι : Type*) where
  submitted : List ι := []
  finished  : List ι := []
  serving   : Option ι := none
  waiting   : List ι := []

namespace Fifo

variable {ι : Type*}

inductive Act (ι : Type*)
  | submit (x : ι)
  | take
  | finish

inductive Step : Fifo ι → Act ι → Fifo ι → Prop
  | submit (q : Fifo ι) (x : ι) :
    Step q (.submit x) { q with submitted := q.submitted ++ [x], waiting := q.waiting ++ [x] }
  | take {q : Fifo ι} {x : ι} {w : List ι} : q.serving = none → q.waiting = x :: w →
    Step q .take { q with serving := some x, waiting := w }
  | finish {q : Fifo ι} {x : ι} : q.serving = some x →
    Step q .finish { q with serving := none, finished := q.finished ++ [x] }

/-- The server as a transition system. -/
def lts (ι : Type*) : Lts (Fifo ι) (Act ι) := ⟨Step⟩

/-- Nothing is lost, repeated or overtaken. -/
def Conserved (q : Fifo ι) : Prop := q.submitted = q.finished ++ q.serving.toList ++ q.waiting

theorem step_conserved {q q' : Fifo ι} {a : Act ι} (hq : q.Conserved) (h : Step q a q') : q'.Conserved := by
  unfold Conserved at hq ⊢
  cases h with
  | submit x => simp [hq]
  | take hs hw => simpa [hs, hw] using hq
  | finish hs => simpa [hs] using hq

theorem run_conserved {q q' : Fifo ι} {as : List (Act ι)} (h : (lts ι).Run q as q') (hq : q.Conserved) :
    q'.Conserved :=
  h.invariant (fun _ _ _ => step_conserved) hq

/-- Emptying the line: each waiting item is taken and finished at once. -/
theorem run_drain : ∀ (w : List ι) (q : Fifo ι), q.serving = none → q.waiting = w →
    ∃ as, (lts ι).Run q as { q with finished := q.finished ++ w, waiting := [] }
  | [], q, hs, hw => by
    refine ⟨[], ?_⟩
    have : ({ q with finished := q.finished ++ [], waiting := [] } : Fifo ι) = q := by cases q; simp_all
    rw [this]; exact .nil _
  | x :: w, q, hs, hw => by
    have ht : (lts ι).step q .take { q with serving := some x, waiting := w } := .take hs hw
    have hf : (lts ι).step { q with serving := some x, waiting := w } .finish
        { q with serving := none, finished := q.finished ++ [x], waiting := w } := .finish rfl
    obtain ⟨as, hr⟩ := run_drain w { q with serving := none, finished := q.finished ++ [x], waiting := w } rfl rfl
    refine ⟨.take :: .finish :: as, .cons ht (.cons hf ?_)⟩
    simpa [hs] using hr

/-! ## What conservation gives -/

section
variable {q : Fifo ι} (hq : q.Conserved)
include hq

theorem Conserved.finished_prefix : q.finished <+: q.submitted :=
  ⟨q.serving.toList ++ q.waiting, by rw [hq, List.append_assoc]⟩

theorem Conserved.nodup_finished (hn : q.submitted.Nodup) : q.finished.Nodup :=
  hn.sublist hq.finished_prefix.sublist

theorem Conserved.mem {x : ι} (hx : x ∈ q.submitted) : x ∈ q.finished ∨ q.serving = some x ∨ x ∈ q.waiting := by
  rw [hq] at hx
  simp only [List.mem_append, Option.mem_toList] at hx
  rcases hx with (hx | hx) | hx
  · exact .inl hx
  · exact .inr (.inl hx)
  · exact .inr (.inr hx)

end

end Fifo
end LtApp
