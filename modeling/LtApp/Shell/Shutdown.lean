import LtApp.Shell.Application

/-!
# The cleanup tasks at shutdown

`Run` schedules the coroutine of `RunCleanupTask` on `main_` after it has waited for the end of `main_`. `hosted`
adds to `App.lts` what a loop that has ended does: it executes no coroutine it was given afterwards. What an
executed coroutine posts is left free.
-/

namespace LtApp.Shell

variable {σ : Type}

/-- The application, with the phases whose coroutine `main_` was given before it ended. -/
structure Hosted (σ : Type) where
  app      : App σ
  accepted : List Phase := []

/-- The phase whose coroutine the operation schedules. -/
def App.schedules (s : App σ) : Op → Option Phase
  | .run =>
    match s.pc with
    | .spawn p => some p
    | _ => none
  | _ => none

/-- The phase to whose coroutine the operation belongs. -/
def Op.executes : Op → Option Phase
  | .task p _ => some p
  | .assign => some .startup
  | _ => none

def hosted (wg : WaitGroup σ) : Lts (Hosted σ) Op :=
  ⟨fun s op t => (lts wg).step s.app op t.app ∧ (∀ p, op.executes = some p → p ∈ s.accepted) ∧
    t.accepted = if s.app.loopEnded then s.accepted else (s.app.schedules op).toList ++ s.accepted⟩

/-- `Run` is called. -/
def Hosted.start (prepare cleanup : List BootTask) : Hosted σ := { app := App.start prepare cleanup }

/-- When `Run` has returned each cleanup task has been executed exactly once. -/
def CleanedUp (s : App σ) : Prop :=
  s.pc = .finished → ∃ r, s.cleanup = some r ∧ r.began.Perm s.onFinish ∧ r.finished.Perm s.onFinish

/-- `Run` waits, and whatever happens the cleanup never finishes. -/
def Abandoned (wg : WaitGroup σ) (s : Hosted σ) : Prop :=
  (∃ w, s.app.pc = .wait .shutdown w ∧ w.waits = true) ∧
    ∀ ops t, (hosted wg).Run s ops t → ∀ r, t.app.cleanup = some r → r.pc ≠ .returned

/-- `Run` has not scheduled the cleanup yet. -/
def Unscheduled (s : Hosted σ) : Prop := s.app.pc ≠ .finished ∧ ∀ w, s.app.pc ≠ .wait .shutdown w

/-- The step does not schedule the cleanup. -/
def NotCleaning (s : Hosted σ) (op : Op) : Prop := s.app.schedules op ≠ some .shutdown

instance (s : Hosted σ) (op : Op) : Decidable (NotCleaning s op) := by unfold NotCleaning; infer_instance

/-- `Run` has returned from `WaitLoopEnd`. -/
def RunPc.pastLoop : RunPc → Bool
  | .onStop | .spawn .shutdown | .wait .shutdown _ | .finished => true
  | _ => false

/-- The cleanup is scheduled on a loop that has ended, and stays as it was scheduled. -/
structure Late (wg : WaitGroup σ) (s : Hosted σ) : Prop where
  ended     : s.app.pc.pastLoop = true → s.app.loopEnded = true
  refused   : .shutdown ∉ s.accepted
  untouched : ∀ r, s.app.cleanup = some r → r = Runner.new wg s.app.onFinish

theorem late_start (wg : WaitGroup σ) (prepare cleanup : List BootTask) : Late wg (Hosted.start prepare cleanup) :=
  ⟨by simp [Hosted.start, App.start, RunPc.pastLoop], by simp [Hosted.start], by simp [Hosted.start, App.start]⟩

theorem notify_pastLoop (pc : RunPc) : pc.notify.pastLoop = pc.pastLoop := by
  cases pc with
  | wait p w => cases p <;> rfl
  | _ => rfl

section
variable {wg : WaitGroup σ} {s t : Hosted σ} {op : Op}

theorem schedules_eq_some {p : Phase} (h : s.app.schedules op = some p) : op = .run ∧ s.app.pc = .spawn p := by
  cases op with
  | run =>
    simp only [App.schedules] at h
    split at h
    · rename_i hpc; cases h; exact ⟨rfl, hpc⟩
    · cases h
  | _ => cases h

/-- **Every step leaves the cleanup alone.** -/
theorem Late.step (h : Late wg s) (hs : (hosted wg).step s op t) : Late wg t := by
  obtain ⟨hs, hexec, hacc⟩ := hs
  have hrefused : .shutdown ∉ t.accepted := by
    rw [hacc]
    split
    · exact h.refused
    · rename_i he
      intro hm
      rcases List.mem_append.1 hm with hm | hm
      · exact he (h.ended (by rw [(schedules_eq_some (Option.mem_toList.1 hm)).2]; rfl))
      · exact h.refused hm
  obtain ⟨u, acc⟩ := t
  simp only at hs
  cases lts_stepped hs with
  | @spawn p hpc =>
    cases p with
    | startup => exact ⟨by simp [RunPc.pastLoop], hrefused, h.untouched⟩
    | shutdown =>
      refine ⟨fun _ => h.ended (by rw [hpc]; rfl), hrefused, fun r hr => ?_⟩
      cases hr
      rfl
  | test => exact ⟨by cases hb : s.app.success <;> simp [RunPc.pastLoop], hrefused, h.untouched⟩
  | finish hpc | onStop hpc => exact ⟨fun _ => h.ended (by rw [hpc]; rfl), hrefused, h.untouched⟩
  | onStart => exact ⟨by simp [RunPc.pastLoop], hrefused, h.untouched⟩
  | ended hpc he => exact ⟨fun _ => he, hrefused, h.untouched⟩
  | @wait p w w' a hpc =>
    have hpast : (RunPc.wait p w').pastLoop = s.app.pc.pastLoop := by cases p <;> rw [hpc] <;> rfl
    exact ⟨fun hp => h.ended (hpast ▸ hp), hrefused, h.untouched⟩
  | @task p r r' m hr hm | @notify p r r' hr hm =>
    cases p with
    | startup => exact ⟨fun hp => h.ended (by simpa [notify_pastLoop] using hp), hrefused, h.untouched⟩
    | shutdown => exact absurd (hexec _ rfl) h.refused
  | assign => exact ⟨h.ended, hrefused, h.untouched⟩
  | quit => exact ⟨fun _ => rfl, hrefused, h.untouched⟩

theorem Late.run (h : Late wg s) {ops : List Op} (hr : (hosted wg).Run s ops t) : Late wg t :=
  hr.invariant (fun _ _ _ h hs => h.step hs) h

/-- A cleanup scheduled on the ended loop never finishes. -/
theorem Late.abandoned (h : Late wg s) {w : Waiter} (hpc : s.app.pc = .wait .shutdown w) (hw : w.waits = true) :
    Abandoned wg s := by
  refine ⟨⟨w, hpc, hw⟩, fun ops t hr r hc => ?_⟩
  rw [(h.run hr).untouched r hc]
  simp [Runner.new]

theorem unscheduled_step (h : Unscheduled s) (hs : (hosted wg).step s op t) : Unscheduled t ↔ NotCleaning s op := by
  obtain ⟨hs, -, -⟩ := hs
  obtain ⟨u, acc⟩ := t
  simp only at hs
  by_cases hop : NotCleaning s op
  · refine iff_of_true ?_ hop
    cases lts_stepped hs with
    | @spawn p hpc =>
      cases p with
      | startup => simp [Unscheduled]
      | shutdown => exact absurd (by simp [App.schedules, hpc]) hop
    | test => cases hb : s.app.success <;> simp [Unscheduled]
    | finish hpc => exact absurd hpc (h.2 _)
    | @wait p w w' a hpc =>
      cases p with
      | startup => simp [Unscheduled]
      | shutdown => exact absurd hpc (h.2 _)
    | @task p r r' m => simpa [Unscheduled] using h
    | @notify p r r' =>
      cases hpc : s.app.pc with
      | wait q w =>
        cases q with
        | startup => simp [Unscheduled, RunPc.notify]
        | shutdown => exact absurd hpc (h.2 _)
      | finished => exact absurd hpc h.1
      | _ => simp [Unscheduled, RunPc.notify]
    | assign | quit => exact h
    | _ => simp [Unscheduled]
  · refine iff_of_false (fun hu => ?_) hop
    obtain ⟨rfl, hpc⟩ := schedules_eq_some (not_not.1 hop)
    simp only [lts, step, hpc, Option.some.injEq] at hs
    subst hs
    exact hu.2 .outside rfl

/-- Until the cleanup is scheduled, nothing is wrong; afterwards `Run` waits for nothing. -/
theorem kept_iff (h : Late wg s) (hu : Unscheduled s) (hs : (hosted wg).step s op t) :
    CleanedUp t.app ∧ ¬ Abandoned wg t ↔ Unscheduled t := by
  have ht := h.step hs
  by_cases hop : NotCleaning s op
  · have hut := (unscheduled_step hu hs).2 hop
    exact iff_of_true ⟨fun hf => absurd hf hut.1, fun hab => by
      obtain ⟨w, hw, -⟩ := hab.1
      exact hut.2 w hw⟩ hut
  · refine iff_of_false (fun hk => hk.2 ?_) fun hut => hop ((unscheduled_step hu hs).1 hut)
    obtain ⟨rfl, hpc⟩ := schedules_eq_some (not_not.1 hop)
    have hs' := hs.1
    simp only [lts, step, hpc, Option.some.injEq] at hs'
    exact ht.abandoned (by rw [← hs']) rfl

end

/-- **The cleanup never runs.** No cleanup task is ever begun, and the runs in which `Run` neither returns without
the cleanup nor waits for one that cannot finish are the runs in which it never comes to schedule it. -/
theorem cleanup_never_runs (wg : WaitGroup σ) (prepare cleanup : List BootTask) (ops : List Op) (s : Hosted σ) :
    (((hosted wg).within fun s => CleanedUp s.app ∧ ¬ Abandoned wg s).Run (Hosted.start prepare cleanup) ops s ↔
      ((hosted wg).restrict NotCleaning).Run (Hosted.start prepare cleanup) ops s) ∧
    ((hosted wg).Run (Hosted.start prepare cleanup) ops s →
      ∀ r, s.app.cleanup = some r → r.began = [] ∧ r.finished = []) := by
  have hlate := late_start wg prepare cleanup
  have hu : Unscheduled (Hosted.start prepare cleanup : Hosted σ) := by simp [Unscheduled, Hosted.start, App.start]
  refine ⟨?_, fun hr r hc => ?_⟩
  · rw [Lts.Run.within_congr (I := Late wg) (Q := Unscheduled) (fun _ _ _ h hs => h.step hs)
      (fun _ _ _ h hu hs => kept_iff h hu hs) hlate hu]
    exact Lts.Run.within_iff_restrict (I := Late wg) (fun _ _ _ h hs => h.step hs)
      (fun _ _ _ _ hu hs => unscheduled_step hu hs) hlate hu
  · rw [(hlate.run hr).untouched r hc]
    exact ⟨rfl, rfl⟩

/-- The step, where `main_` takes it. -/
def tryHosted (wg : WaitGroup σ) (s : Hosted σ) (op : Op) : Option (Hosted σ) :=
  if op.executes.all (· ∈ s.accepted) then
    (step wg s.app op).map fun t =>
      ⟨t, if s.app.loopEnded then s.accepted else (s.app.schedules op).toList ++ s.accepted⟩
  else none

theorem tryHosted_step {wg : WaitGroup σ} (s : Hosted σ) (op : Op) (t : Hosted σ) (h : tryHosted wg s op = some t) :
    (hosted wg).step s op t := by
  unfold tryHosted at h
  split at h
  · rename_i he
    obtain ⟨u, hu, rfl⟩ := Option.map_eq_some_iff.1 h
    exact ⟨hu, fun p hp => by simpa [hp] using he, rfl⟩
  · cases h

/-- No prepare tasks; `main_` is quit once the application is up. -/
def upAndQuit : List Op :=
  [.run, .wait .enter, .task .startup .launch, .task .startup .waitReturns, .task .startup .notify, .assign,
    .wait .leave, .run, .run, .quit, .run, .run, .run]

/-- **`Run` waits for a cleanup that never comes**, and once it is woken for no reason it returns without it. -/
theorem cleanup_skipped :
    (∃ s, (hosted .counter).Run (Hosted.start [] [{ task := true }]) upAndQuit s ∧ Abandoned .counter s) ∧
      ∃ s, (hosted .counter).Run (Hosted.start [] [{ task := true }])
        (upAndQuit ++ [.wait .enter, .wait .wake, .wait .leave, .run]) s ∧ ¬ CleanedUp s.app := by
  have hlate := late_start WaitGroup.counter [] [{ task := true }]
  constructor
  · obtain ⟨s, hr, hpc⟩ : ∃ s, ((hosted .counter).restrict fun _ _ => True).Run (Hosted.start [] [{ task := true }])
        upAndQuit s ∧ s.app.pc = .wait .shutdown .outside := Lts.exists_run_of_exec tryHosted_step (by decide)
    exact ⟨s, hr.of_restrict, (hlate.run hr.of_restrict).abandoned hpc rfl⟩
  · obtain ⟨s, hr, hpc, hitems⟩ : ∃ s, ((hosted .counter).restrict fun _ _ => True).Run
        (Hosted.start [] [{ task := true }]) (upAndQuit ++ [.wait .enter, .wait .wake, .wait .leave, .run]) s ∧
        s.app.pc = .finished ∧ s.app.onFinish = [{ task := true }] :=
      Lts.exists_run_of_exec tryHosted_step (by decide)
    refine ⟨s, hr.of_restrict, fun hc => ?_⟩
    obtain ⟨r, hcl, hperm, -⟩ := hc hpc
    rw [(hlate.run hr.of_restrict).untouched r hcl, hitems] at hperm
    simp [Runner.new] at hperm

end LtApp.Shell
