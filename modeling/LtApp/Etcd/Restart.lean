import LtApp.Etcd.Verdict
import LtApp.Etcd.Winddown

/-!
# A keepalive context used again

`Start` builds a new `ClientContext` in the place of the old one, and so can be called again. It does not call
`Reset`, and nothing else does: `success_`, `done_`, `cancel_` and `resumer_` stay what the last use has left. `done_`
is left true by every use that has come to its end, whatever happened in it.

The resumer found by a new stream may be that of the old `Wait`. Nothing here depends on whose it is.
-/

namespace LtApp.Etcd
namespace Awaited

/-- `OnDone` has been delivered and has run to its end, and no delayed closure is pending. -/
structure Finished (s : Awaited) : Prop where
  live     : s.ctx.live = false
  callback : s.callback = none
  delayed  : s.ctx.delayed = 0

/-- `Start` once more: a new stream with a history of its own, and a new `Wait`. -/
def restart (lease interval : Int) (s : Awaited) : Awaited :=
  { ctx := KeepAliveContext.start lease interval { s.ctx with log := [] } }

/-- `Reset`. -/
@[simps!] def reset (s : Awaited) : Awaited := setCall s.ctx.call.reset s

/-- The states a context comes to, used any number of times. -/
inductive Used : Awaited → Prop
  | first {lease interval : Int} {as : List Act} {s : Awaited} : lts.Run (started lease interval) as s → Used s
  | again {lease interval : Int} {as : List Act} {s t : Awaited} : Used s → Finished s →
    lts.Run (restart lease interval s) as t → Used t

/-- What can be seen from outside is the same: what the stream has done, where `Wait` is, and `Success()`. -/
structure Alike (s t : Awaited) : Prop where
  log     : s.ctx.log = t.ctx.log
  wait    : s.wait = t.wait
  success : s.ctx.call.success = t.ctx.call.success

theorem Alike.refl (s : Awaited) : Alike s s := ⟨rfl, rfl, rfl⟩

/-- Whatever happens, the context behaves like one newly created and started. -/
structure AsNew (lease interval : Int) (s : Awaited) : Prop where
  forth : ∀ as t, lts.Run s as t → ∃ t', lts.Run (started lease interval) as t' ∧ Alike t t'
  back  : ∀ as t', lts.Run (started lease interval) as t' → ∃ t, lts.Run s as t ∧ Alike t t'

/-! ## What a use leaves behind -/

section
variable {s t : Awaited} {lease interval : Int}

theorem Used.reports (h : Used s) : Reports s := by
  have hrun : ∀ {s t as}, Reports s → lts.Run s as t → Reports t := fun hs h =>
    h.invariant (P := Reports) (fun _ _ _ hs hst => step_reports hs hst) hs
  cases h with
  | first h => exact hrun (fun hl => by cases hl) h
  | again _ _ h => exact hrun (fun hl => by cases hl) h

/-- A use that has come to its end leaves `Done()` true. -/
theorem Used.done (hu : Used s) (hf : Finished s) : s.ctx.call.done = true := hu.reports.done hf.live hf.callback

/-- `Wait` then returns at once. -/
theorem restart_wait (hd : s.ctx.call.done = true) (lease interval : Int) :
    ∃ t, lts.Run (restart lease interval s) [.wait, .wait] t ∧ t.wait = .returned ∧ t.ctx.log = [.startWrite lease] := by
  have hinstall : step (restart lease interval s) .wait = some
      { setCall ((restart lease interval s).ctx.call.lockContext 0) (restart lease interval s) with wait := .installed } := rfl
  refine ⟨_, .cons hinstall (.single (t := { setCall ((restart lease interval s).ctx.call.lockContext 0)
    (restart lease interval s) with wait := .returned }) ?_), rfl, rfl⟩
  have hdone : (restart lease interval s).ctx.call.done = true := hd
  simp [lts, step, waitNext, hdone]

theorem started_wait {t : Awaited} (h : lts.Run (started lease interval) [.wait, .wait] t) : t.wait = .yielding := by
  cases h with
  | cons h₁ h =>
    cases h with
    | cons h₂ h =>
      cases h
      cases h₁
      cases h₂
      rfl

theorem not_asNew (hd : s.ctx.call.done = true) : ¬ AsNew lease interval (restart lease interval s) := by
  intro hnew
  obtain ⟨t, hr, hw, -⟩ := restart_wait hd lease interval
  obtain ⟨t', hr', halike⟩ := hnew.forth _ t hr
  have hsame : t.wait = .yielding := halike.wait.trans (started_wait hr')
  rw [hw] at hsame
  cases hsame

end

/-! ## Restarted -/

/-- **A restarted keepalive is never a fresh one**: `Wait` returns before the new stream has done anything but write its
first request. -/
theorem restart_never_new (lease interval : Int) (s : Awaited) (hu : Used s) (hf : Finished s) :
    ¬ AsNew lease interval (restart lease interval s) ∧
      ∃ t, lts.Run (restart lease interval s) [.wait, .wait] t ∧ t.wait = .returned ∧ t.ctx.log = [.startWrite lease] :=
  ⟨not_asNew (hu.done hf), restart_wait (hu.done hf) lease interval⟩

/-- A use that has been cancelled and has come to its end. -/
def cancelledUse : List Act :=
  [.stream (.writeDone true), .stream .cancel, .stream (.readDone true), .stream (.writesDoneDone true),
    .stream (.done true), .resume, .resume, .resume, .resume]

theorem restart_never_new_cancelled : ∃ s, lts.Run (started 7 1000) cancelledUse s ∧
    ¬ AsNew 8 1000 (restart 8 1000 s) := by
  refine Lts.exists_run_of_exec_imp (P := fun s : Awaited => s.ctx.live = false ∧ s.callback = none ∧ s.ctx.delayed = 0)
    (fun _ _ _ h => h) (by decide) ?_
  rintro s hr ⟨hl, hcb, hd⟩
  exact (restart_never_new 8 1000 s (.first hr) ⟨hl, hcb, hd⟩).1

/-- **Not fresh**: a write fails, the stream ends, the context is started again, and `Wait` returns at once with the
verdict on the old stream. -/
theorem old_verdict_returned : ∃ s t, lts.Run (started 7 1000)
      [.stream (.writeDone false), .resume, .resume, .resume, .resume, .stream (.done false), .resume, .resume, .resume,
        .resume] s ∧ Finished s ∧ lts.Run (restart 8 1000 s) [.wait, .wait] t ∧ t.wait = .returned ∧
      t.ctx.log = [.startWrite 8] ∧ ¬ AsNew 8 1000 (restart 8 1000 s) := by
  obtain ⟨s, hr, hl, hcb, hdel, hdone⟩ : ∃ s, (lts.restrict fun _ _ => True).Run (started 7 1000)
      [.stream (.writeDone false), .resume, .resume, .resume, .resume, .stream (.done false), .resume, .resume, .resume,
        .resume] s ∧ s.ctx.live = false ∧ s.callback = none ∧ s.ctx.delayed = 0 ∧ s.ctx.call.done = true :=
    Lts.exists_run_of_exec (fun _ _ _ h => h) (by decide)
  obtain ⟨t, ht, hw, hlog⟩ := restart_wait hdone 8 1000
  exact ⟨s, t, hr.of_restrict, ⟨hl, hcb, hdel⟩, ht, hw, hlog, not_asNew hdone⟩

/-! ## What the old `Cancel` does to the new stream -/

section
variable {s t : Awaited} {a : Act} {lease interval : Int}

theorem step_keeps_uncancelled (hs : s.ctx.Uncancelled) (h : lts.step s a t) (ha : a ≠ .stream .cancel) :
    t.ctx.Uncancelled := by
  cases lts_stepped h with
  | plain _ hen => exact KeepAliveContext.step_uncancelled hs ⟨hen, rfl⟩ fun hop => ha (by rw [hop])
  | @begun op =>
    refine ⟨by simpa using hs.flag, ?_⟩
    cases op <;> simpa [KeepAliveContext.before] using hs.closes
  | @rest op hcb =>
    refine ⟨by simpa using hs.flag, ?_⟩
    cases op <;> simpa [KeepAliveContext.rest, hs.flag] using hs.closes
  | _ => exact ⟨hs.flag, hs.closes⟩

end

/-- **The new stream is half-closed on account of the old `Cancel`** exactly if there was one. -/
theorem restart_halfCloses_iff (lease interval : Int) (s : Awaited) :
    (∃ as t, (∀ a ∈ as, a ≠ .stream .cancel) ∧ lts.Run (restart lease interval s) as t ∧ .startWritesDone ∈ t.ctx.log) ↔
      s.ctx.call.canceled = true := by
  constructor
  · rintro ⟨as, t, has, hr, hclosed⟩
    cases hcan : s.ctx.call.canceled with
    | true => rfl
    | false =>
      have hgo : (lts.restrict fun _ a => a ≠ .stream .cancel).Run (restart lease interval s) as t :=
        hr.restrict_forall (P := fun a => a ≠ .stream .cancel) has
      have hopen := hgo.invariant_restrict (P := fun s => s.ctx.Uncancelled)
        (fun _ _ _ hs ha hst => step_keeps_uncancelled hs hst ha) ⟨hcan, by simp [restart]⟩
      exact absurd hclosed hopen.closes
  · intro hcan
    -- the first read that is reported
    refine ⟨[.stream (.writeDone true), .stream (.readDone true)], _, by simp,
      .cons (t := { restart lease interval s with ctx := (restart lease interval s).ctx.step (.writeDone true) }) ?_
        (.single (t := { restart lease interval s with
          ctx := ((restart lease interval s).ctx.step (.writeDone true)).step (.readDone true) }) ?_), ?_⟩
    · simp [lts, step, stream, restart, KeepAliveContext.enabled, KeepAliveContext.Op.resumes]
    · simp [lts, step, stream, restart, KeepAliveContext.enabled, KeepAliveContext.Op.resumes, KeepAliveContext.step,
        KeepAliveContext.onWriteDone]
    · simp [restart, KeepAliveContext.step, KeepAliveContext.onWriteDone, KeepAliveContext.onReadDone, hcan]

/-! ## With `Reset` -/

/-- Had `Start` called `Reset`, a context with nothing in flight would be as new. -/
theorem reset_asNew {s : Awaited} (hf : Finished s) (hw : s.ctx.writing = 0) (hr : s.ctx.reading = 0)
    (hc : s.ctx.closing = 0) (lease interval : Int) : AsNew lease interval (restart lease interval s.reset) := by
  have hcall : s.reset.ctx.call = {} := rfl
  have heq : restart lease interval s.reset = started lease interval := by
    simp [restart, started, KeepAliveContext.start, KeepAliveContext.startWrite, hcall, hw, hr, hc, hf.delayed]
  rw [heq]
  exact ⟨fun _ t h => ⟨t, h, .refl t⟩, fun _ t h => ⟨t, h, .refl t⟩⟩

end Awaited
end LtApp.Etcd
