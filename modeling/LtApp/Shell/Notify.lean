import LtApp.Shell.Application

/-!
# Lost notifications

Both functions notify once, without `mutex_` and without a predicate for the wait to look at. A notification sent
while the thread in `Run` is not inside `wait_for` is gone, and the loop goes on with nothing left to end it but a
spurious wake-up (`Lost`).
-/

namespace LtApp.Shell

variable {σ : Type}

/-- The coroutine of the phase has executed `cv_.notify_all()`. -/
def App.notified (s : App σ) (p : Phase) : Bool :=
  match s.coro p with
  | some r => r.pc = .returned
  | none => false

/-- The thread in `Run` is in the loop of a phase, not woken, and the notification has been sent. -/
def Lost (s : App σ) : Prop := ∃ p w, s.pc = .wait p w ∧ w.waits = true ∧ s.notified p = true

/-- The notification finds the thread inside `wait_for`, or past the loop; and a call that has been woken does not
report a time-out once the notification has been sent. -/
def Heard (s : App σ) : Op → Prop
  | .task p .notify => s.pc ≠ .wait p .outside
  | .wait .late => ∀ p w, s.pc = .wait p w → s.notified p = false
  | _ => True

theorem lost_iff {s : App σ} {p : Phase} {w : Waiter} (hpc : s.pc = .wait p w) :
    Lost s ↔ w.waits = true ∧ s.notified p = true := by
  constructor
  · rintro ⟨p', w', hpc', hw, hn⟩
    obtain ⟨rfl, rfl⟩ : p = p' ∧ w = w' := by simpa [hpc] using hpc'
    exact ⟨hw, hn⟩
  · rintro ⟨hw, hn⟩
    exact ⟨p, w, hpc, hw, hn⟩

theorem lost_congr {s t : App σ} (hpc : t.pc = s.pc) (hn : ∀ p, t.notified p = s.notified p) : Lost t ↔ Lost s := by
  simp only [Lost, hpc, hn]

theorem not_lost {s : App σ} (h : ∀ p w, s.pc ≠ .wait p w) : ¬ Lost s := fun ⟨p, w, hpc, _⟩ => h p w hpc

theorem notified_setCoro (s : App σ) (r : Runner σ) (p q : Phase) :
    (s.setCoro r p).notified q = if q = p then decide (r.pc = .returned) else s.notified q := by
  cases p <;> cases q <;> rfl

section
variable {wg : WaitGroup σ} {s t : App σ} {op : Op}

/-- Only `notify_all` makes the function return. -/
theorem body_returned {p : Phase} {r r' : Runner σ} {m : Move} (hm : m ≠ .notify) (h : p.body wg r m = some r') :
    r'.pc = .returned ↔ r.pc = .returned := by
  obtain ⟨line, hbody⟩ := p.body_eq wg
  rw [hbody] at h
  cases m with
  | launch =>
    simp only [runTasks] at h
    split at h
    · rename_i hpc; cases h; simp [hpc]
    · rename_i hpc; split at h <;> cases h <;> simp [hpc]
    · cases h
  | taskReturns =>
    simp only [runTasks] at h
    split at h
    · rename_i hpc; cases h; simp [hpc]
    · cases h
  | start i | finish i =>
    obtain ⟨_, -, rfl⟩ := Option.map_eq_some_iff.1 h
    exact Iff.rfl
  | waitReturns =>
    simp only [runTasks] at h
    split at h
    · rename_i hw; cases h; simp [hw.1]
    · cases h
  | notify => exact absurd rfl hm

theorem body_notify {p : Phase} {r r' : Runner σ} (h : p.body wg r .notify = some r') :
    r.pc = .notifying ∧ r'.pc = .returned := by
  obtain ⟨line, hbody⟩ := p.body_eq wg
  rw [hbody] at h
  simp only [runTasks] at h
  split at h
  · rename_i hn; cases h; exact ⟨hn, rfl⟩
  · cases h

/-- **A step loses the notification exactly if it does not meet the condition.** -/
theorem not_lost_step (hl : ¬ Lost s) (hs : (lts wg).step s op t) : ¬ Lost t ↔ Heard s op := by
  cases lts_stepped hs with
  | @spawn p hpc =>
    refine iff_of_true (fun h => ?_) trivial
    have := ((lost_iff rfl).1 h).2
    cases p <;> simp [App.notified, App.coro, App.setCoro, Runner.new] at this
  | test => exact iff_of_true (not_lost fun _ _ => by cases hb : s.success <;> simp) trivial
  | finish | onStart | ended | onStop => exact iff_of_true (not_lost fun _ _ => by simp) trivial
  | @wait p w w' a hpc hw =>
    rw [lost_iff hpc] at hl
    rw [lost_iff (s := { s with pc := .wait p w' }) rfl]
    have hlate : Heard s (.wait a) ↔ (a = .late → s.notified p = false) := by
      cases a <;> simp [Heard, hpc]
    rw [hlate]
    show ¬ (w'.waits = true ∧ s.notified p = true) ↔ _
    cases hn : s.notified p with
    | false => simp
    | true =>
      have hwait : w.waits = false := by simpa [hn] using hl
      simp [Waiter.waits_next hw hwait]
  | @task p r r' m hr hm hne =>
    have hheard : Heard s (.task p m) := by cases m <;> first | exact absurd rfl hne | trivial
    refine iff_of_true (fun h => hl ((lost_congr (by simp) fun q => ?_).1 h)) hheard
    rw [notified_setCoro]
    split
    · rename_i hq
      simp [hq, App.notified, hr, body_returned hne hm]
    · rfl
  | @notify p r r' hr hm =>
    have hp : (s.setCoro r' p).notified p = true := by
      simp [notified_setCoro, (body_notify hm).2]
    cases hpc : s.pc with
    | wait q w =>
      rw [lost_iff hpc] at hl
      rw [lost_iff (p := q) (w := w.notify) rfl, Waiter.waits_notify]
      show ¬ (w = .outside ∧ (s.setCoro r' p).notified q = true) ↔ s.pc ≠ .wait p .outside
      rw [hpc]
      by_cases hq : q = p
      · subst hq
        simp [hp]
      · rw [notified_setCoro, if_neg hq]
        exact iff_of_true (fun h => hl ⟨by rw [h.1]; rfl, h.2⟩) (by simp [hq])
    | _ => exact iff_of_true (not_lost fun _ _ => by simp [RunPc.notify]) (by simp [Heard, hpc])
  | assign => exact iff_of_true (fun h => hl ((lost_congr rfl fun _ => rfl).1 h)) trivial
  | quit => exact iff_of_true (fun h => hl ((lost_congr rfl fun _ => rfl).1 h)) trivial

end

/-- **No lost notification**, at startup or at shutdown: the runs in which none is ever lost are the runs whose
steps all meet `Heard`. -/
theorem no_lost_notification (wg : WaitGroup σ) (prepare cleanup : List BootTask) (ops : List Op) (s : App σ) :
    ((lts wg).within fun s => ¬ Lost s).Run (App.start prepare cleanup) ops s ↔
      ((lts wg).restrict Heard).Run (App.start prepare cleanup) ops s :=
  Lts.Run.within_iff_restrict (I := fun _ => True) (fun _ _ _ _ _ => trivial)
    (fun _ _ _ _ hl hs => not_lost_step hl hs) trivial (not_lost fun _ _ => by simp [App.start])

/-! ## Lost for good -/

/-- The shutdown comes after the startup: its coroutine is not there before the decision, which for `OnStart` is made
after the startup's notification. -/
structure Ordered (s : App σ) : Prop where
  fresh    : s.pc = .spawn .startup → s.boot = none
  cleanup  : s.pc.decision = none → s.cleanup = none
  assigned : s.assigned = true → s.notified .startup = true
  success  : s.pc.decision = none → s.success = true → s.assigned = true
  boot     : s.pc.decision = some true → s.notified .startup = true

section
variable {wg : WaitGroup σ} {s t : App σ} {op : Op}

/-- A coroutine that has notified has nothing left to do but to be assigned. -/
theorem notified_setCoro_of_body {p q : Phase} {r r' : Runner σ} {m : Move} (hr : s.coro p = some r)
    (hm : p.body wg r m = some r') (hn : s.notified q = true) : (s.setCoro r' p).notified q = true := by
  rw [notified_setCoro]
  split
  · rename_i hq
    subst hq
    by_cases hne : m = .notify
    · subst hne; simp [(body_notify hm).2]
    · simpa [App.notified, hr, body_returned hne hm] using hn
  · exact hn

theorem ordered_start (prepare cleanup : List BootTask) : Ordered (App.start prepare cleanup : App σ) :=
  ⟨fun _ => rfl, fun _ => rfl, by simp [App.start], by simp [App.start], by simp [App.start, RunPc.decision]⟩

theorem Ordered.setCoro (h : Ordered s) {p : Phase} {r r' : Runner σ} {m : Move} (hr : s.coro p = some r)
    (hm : p.body wg r m = some r') : Ordered (s.setCoro r' p) := by
  have hn : s.notified .startup = true → (s.setCoro r' p).notified .startup = true :=
    notified_setCoro_of_body hr hm
  refine ⟨fun hpc => ?_, fun hd => ?_, fun ha => hn (h.assigned (by simpa using ha)), by simpa using h.success,
    fun hd => hn (h.boot (by simpa using hd))⟩
  · rw [App.setCoro_pc] at hpc
    cases p with
    | startup => simp [App.coro, h.fresh hpc] at hr
    | shutdown => exact h.fresh hpc
  · rw [App.setCoro_pc] at hd
    cases p with
    | startup => exact h.cleanup hd
    | shutdown => simp [App.coro, h.cleanup hd] at hr

theorem Ordered.step (h : Ordered s) (hs : (lts wg).step s op t) : Ordered t := by
  cases lts_stepped hs with
  | @spawn p hpc =>
    cases p with
    | startup =>
      have ha : s.assigned = false := by
        cases ha : s.assigned with
        | false => rfl
        | true => simpa [App.notified, App.coro, h.fresh hpc] using h.assigned ha
      exact ⟨by simp, fun _ => h.cleanup (by rw [hpc]; rfl), fun hb => by simp [ha] at hb,
        fun _ hb => by simp [h.success (by rw [hpc]; rfl) (by simpa using hb)] at ha, by simp [RunPc.decision]⟩
    | shutdown =>
      exact ⟨by simp, by simp [RunPc.decision], h.assigned, by simp [RunPc.decision],
        fun _ => h.boot (by rw [hpc]; rfl)⟩
  | test hpc =>
    have hsucc := h.success (by rw [hpc]; rfl)
    cases hb : s.success with
    | true =>
      exact ⟨by simp, by simp [RunPc.decision], h.assigned, by simp [RunPc.decision], fun _ => h.assigned (hsucc hb)⟩
    | false =>
      exact ⟨by simp, by simp [RunPc.decision], h.assigned, by simp [RunPc.decision], by simp [RunPc.decision]⟩
  | finish hpc | onStart hpc | ended hpc | onStop hpc =>
    exact ⟨by simp, by simp [RunPc.decision], h.assigned, by simp [RunPc.decision],
      fun _ => h.boot (by rw [hpc]; rfl)⟩
  | @wait p w w' a hpc =>
    have hd : (RunPc.wait p w').decision = s.pc.decision := by cases p <;> rw [hpc] <;> rfl
    exact ⟨by simp, fun hn => h.cleanup (hd ▸ hn), h.assigned, fun hn => h.success (hd ▸ hn),
      fun hn => h.boot (hd ▸ hn)⟩
  | task hr hm => exact h.setCoro hr hm
  | @notify p r r' hr hm =>
    obtain ⟨hfresh, hcleanup, hassigned, hsuccess, hboot⟩ := h.setCoro hr hm
    simp only [App.setCoro_pc] at hfresh hcleanup hsuccess hboot
    refine ⟨fun hpc => hfresh ?_, fun hd => hcleanup ?_, hassigned, fun hd => hsuccess ?_, fun hd => hboot ?_⟩
    · cases hs : s.pc <;> simp [hs, RunPc.notify] at hpc ⊢
      exact hpc
    all_goals simpa [notify_decision] using hd
  | @assign r hr hpc =>
    exact ⟨h.fresh, h.cleanup, fun _ => by simp [App.notified, App.coro, hr, hpc], fun _ _ => rfl, h.boot⟩
  | quit => exact ⟨h.fresh, h.cleanup, h.assigned, h.success, h.boot⟩

/-- **Only a spurious wake-up ends a wait whose notification is lost.** -/
theorem lost_step (h : Ordered s) (hl : Lost s) (hs : (lts wg).step s op t) (hop : op ≠ .wait .wake) : Lost t := by
  obtain ⟨p, w, hpc, hw, hn⟩ := hl
  cases lts_stepped hs with
  | spawn hpc' | onStart hpc' | ended hpc' | onStop hpc' => simp [hpc] at hpc'
  | test hpc' | finish hpc' =>
    obtain ⟨rfl, rfl⟩ : p = _ ∧ w = .gone := by simpa [hpc] using hpc'
    simp [Waiter.waits] at hw
  | @wait p' w1 w' a hpc' hnext =>
    obtain ⟨rfl, rfl⟩ : p = p' ∧ w = w1 := by simpa [hpc] using hpc'
    exact ⟨p, w', rfl, Waiter.waits_next_of_ne hnext hw (fun ha => hop (ha ▸ rfl)), hn⟩
  | task hr hm => exact ⟨p, w, by simpa using hpc, hw, notified_setCoro_of_body hr hm hn⟩
  | @notify q r r' hr hm =>
    -- a coroutine about to notify is neither the one that has, nor the other phase's
    exfalso
    have hnot : s.notified q = false := by simp [App.notified, hr, (body_notify hm).1]
    cases q with
    | startup =>
      cases p with
      | startup => simp [hnot] at hn
      | shutdown => exact absurd (h.boot (by rw [hpc]; rfl)) (by simp [hnot])
    | shutdown =>
      cases p with
      | startup => simp [App.coro, h.cleanup (by rw [hpc]; rfl)] at hr
      | shutdown => simp [hnot] at hn
  | assign | quit => exact ⟨p, w, hpc, hw, hn⟩

end

theorem lost_for_good (wg : WaitGroup σ) (prepare cleanup : List BootTask) (ops ops' : List Op) (s t : App σ)
    (h : (lts wg).Run (App.start prepare cleanup) ops s) (hl : Lost s)
    (h' : ((lts wg).restrict fun _ op => op ≠ .wait .wake).Run s ops' t) : Lost t := by
  have ho : Ordered s := h.invariant (fun _ _ _ ho hs => ho.step hs) (ordered_start _ _)
  exact (h'.invariant_restrict (P := fun s => Ordered s ∧ Lost s)
    (fun _ _ _ hI hop hs => ⟨hI.1.step hs, lost_step hI.1 hI.2 hs hop⟩) ⟨ho, hl⟩).2

/-- **A notification sent before the wait is entered is lost**, at startup and at shutdown alike. -/
theorem notified_before_wait :
    (∃ s, (lts .counter).Run (App.start [] []) [.run, .task .startup .launch, .task .startup .waitReturns,
        .task .startup .notify, .wait .enter] s ∧ Lost s) ∧
      ∃ s, (lts .counter).Run (App.start [] []) [.run, .wait .enter, .task .startup .launch,
        .task .startup .waitReturns, .task .startup .notify, .assign, .wait .leave, .run, .run, .quit, .run, .run, .run,
        .task .shutdown .launch, .task .shutdown .waitReturns, .task .shutdown .notify, .wait .enter] s ∧ Lost s := by
  have hlost : ∀ {ops : List Op} {p : Phase}, (∃ s, ((lts .counter).restrict fun _ _ => True).Run (App.start [] []) ops s ∧
      s.pc = .wait p .blocked ∧ s.notified p = true) → ∃ s, (lts .counter).Run (App.start [] []) ops s ∧ Lost s :=
    fun ⟨s, hr, hpc, hn⟩ => ⟨s, hr.of_restrict, _, _, hpc, rfl, hn⟩
  exact ⟨hlost (p := .startup) (Lts.exists_run_of_exec (fun _ _ _ h => h) (by decide)),
    hlost (p := .shutdown) (Lts.exists_run_of_exec (fun _ _ _ h => h) (by decide))⟩

end LtApp.Shell
