import LtApp.Shell.Application

/-!
# What `Run` decides after the startup wait

`RunBootupTask` notifies before it returns, and what it returns is stored in `success` after that. The wait ends
when it is woken, for whatever reason. So `Run` may test `success` before it has been assigned, and then finds the
`false` it was initialised with.
-/

namespace LtApp.Shell

variable {σ : Type}

/-- If `Run` has decided, it has decided for `OnStart` exactly if every prepare task returns true, and for the exit
exactly if one returns false. -/
def Agrees (s : App σ) : Prop :=
  ∀ b, s.pc.decision = some b →
    (b = true ↔ ∀ t ∈ s.onStart, t.task = true) ∧ (b = false ↔ ∃ t ∈ s.onStart, t.task = false)

/-- `success` has been assigned when it is tested, or a task that returns false makes up for it. -/
def TestsLate (s : App σ) (op : Op) : Prop :=
  s.pc = .wait .startup .gone → op = .run → s.assigned = true ∨ ∃ t ∈ s.onStart, t.task = false

instance (s : App σ) (op : Op) : Decidable (TestsLate s op) := by unfold TestsLate; infer_instance

/-- Until `Run` has decided, `success` is what the startup coroutine has assigned to it. -/
structure Starting (count : σ → Nat) (s : App σ) : Prop where
  boot    : ∀ r, s.boot = some r → Accounts count s.onStart r
  success : s.pc.decision = none → (s.success = true ↔ s.assigned = true ∧ ∀ t ∈ s.onStart, t.task = true)

theorem starting_start {count : σ → Nat} (prepare cleanup : List BootTask) :
    Starting count (App.start prepare cleanup) :=
  ⟨fun _ h => by simp [App.start] at h, fun _ => by simp [App.start]⟩

section
variable {wg : WaitGroup σ} {count : σ → Nat} {s t : App σ} {op : Op}

theorem body_accounts (hwg : wg.Counts count) {p : Phase} {items : List BootTask} {r r' : Runner σ} {m : Move}
    (h : Accounts count items r) (hm : p.body wg r m = some r') : Accounts count items r' := by
  obtain ⟨line, hbody⟩ := p.body_eq wg
  exact h.move hwg (hbody ▸ hm)

theorem Starting.setCoro (hwg : wg.Counts count) (h : Starting count s) {p : Phase} {r r' : Runner σ} {m : Move}
    (hr : s.coro p = some r) (hm : p.body wg r m = some r') : Starting count (s.setCoro r' p) := by
  refine ⟨fun q hq => ?_, by simpa using h.success⟩
  cases p with
  | startup =>
    cases hq
    exact body_accounts hwg (h.boot r hr) hm
  | shutdown => exact h.boot q hq

theorem Starting.step (hwg : wg.Counts count) (h : Starting count s) (hs : (lts wg).step s op t) :
    Starting count t := by
  cases lts_stepped hs with
  | @spawn p hpc =>
    cases p with
    | startup =>
      refine ⟨fun r hr => ?_, fun _ => h.success (by rw [hpc]; rfl)⟩
      cases hr
      exact accounts_new hwg _
    | shutdown => exact ⟨h.boot, fun hd => by simp [RunPc.decision] at hd⟩
  | test => exact ⟨h.boot, fun hd => by cases hb : s.success <;> simp [hb, RunPc.decision] at hd⟩
  | finish | onStart | ended | onStop => exact ⟨h.boot, fun hd => by simp [RunPc.decision] at hd⟩
  | @wait p w w' a hpc =>
    refine ⟨h.boot, fun hd => h.success ?_⟩
    cases p <;> simp [hpc, RunPc.decision] at hd ⊢
  | task hr hm => exact h.setCoro hwg hr hm
  | notify hr hm =>
    have h' := h.setCoro hwg hr hm
    exact ⟨h'.boot, fun hd => h'.success (by simpa [notify_decision] using hd)⟩
  | @assign r hr hpc =>
    have hall := (h.boot r hr).result (by rw [hpc]; rfl)
    exact ⟨h.boot, fun _ => by simpa using hall⟩
  | quit => exact ⟨h.boot, h.success⟩

/-- Only the test decides anything. -/
theorem decision_step (hs : (lts wg).step s op t) (hop : ¬ (s.pc = .wait .startup .gone ∧ op = .run)) :
    t.pc.decision = s.pc.decision ∧ t.onStart = s.onStart := by
  cases lts_stepped hs with
  | @spawn p hpc => cases p <;> exact ⟨by rw [hpc]; rfl, rfl⟩
  | test hpc => exact absurd ⟨hpc, rfl⟩ hop
  | finish hpc | onStart hpc | ended hpc | onStop hpc => exact ⟨by rw [hpc]; rfl, rfl⟩
  | @wait p _ _ _ hpc => cases p <;> exact ⟨by rw [hpc]; rfl, rfl⟩
  | task => simp
  | notify => exact ⟨notify_decision _, by simp⟩
  | assign | quit => exact ⟨rfl, rfl⟩

theorem agrees_step (h : Starting count s) (ha : Agrees s) (hs : (lts wg).step s op t) :
    Agrees t ↔ TestsLate s op := by
  by_cases hop : s.pc = .wait .startup .gone ∧ op = .run
  · obtain ⟨hpc, rfl⟩ := hop
    have hsucc := h.success (by rw [hpc]; rfl)
    have hfalse : (∃ t ∈ s.onStart, t.task = false) ↔ ¬ ∀ t ∈ s.onStart, t.task = true := by simp
    simp only [lts, step, hpc, Option.some.injEq] at hs
    subst hs
    cases hb : s.success with
    | true =>
      obtain ⟨hassigned, hall⟩ := hsucc.1 hb
      refine iff_of_true (fun b hd => ?_) fun _ _ => .inl hassigned
      obtain rfl : true = b := by simpa [RunPc.decision, hb] using hd
      exact ⟨by simpa using hall, by simpa using hall⟩
    | false =>
      have hnot : ¬ (s.assigned = true ∧ ∀ t ∈ s.onStart, t.task = true) := fun hn => by simp [hsucc.2 hn] at hb
      constructor
      · intro ha _ _
        exact .inr ((ha false (by simp [RunPc.decision])).2.1 rfl)
      · rintro htests b hd
        obtain rfl : false = b := by simpa [RunPc.decision] using hd
        have hex : ∃ t ∈ s.onStart, t.task = false :=
          (htests hpc rfl).elim (fun ha => hfalse.2 fun hall => hnot ⟨ha, hall⟩) id
        exact ⟨by simpa using hex, by simpa using hex⟩
  · obtain ⟨hd, ho⟩ := decision_step hs hop
    have hagree : Agrees t := fun b hb => by rw [ho]; exact ha b (hd ▸ hb)
    exact iff_of_true hagree fun hpc hrun => absurd ⟨hpc, hrun⟩ hop

end

/-- **Startup decision agreement.** The runs in which `Run` never decides otherwise than the prepare tasks say are
the runs in which it tests `success` only once it has been assigned, or with a task that returns false. -/
theorem startup_decision_agrees (wg : WaitGroup σ) (count : σ → Nat) (hwg : wg.Counts count)
    (prepare cleanup : List BootTask) (ops : List Op) (s : App σ) :
    ((lts wg).within Agrees).Run (App.start prepare cleanup) ops s ↔
      ((lts wg).restrict TestsLate).Run (App.start prepare cleanup) ops s :=
  Lts.Run.within_iff_restrict (I := Starting count) (fun _ _ _ h hs => h.step hwg hs)
    (fun _ _ _ h ha hs => agrees_step h ha hs) (starting_start prepare cleanup)
    fun _ hb => by simp [App.start, RunPc.decision] at hb

/-- One prepare task that returns true, run to its notification. -/
def bootUp : List Op :=
  [.run, .wait .enter, .task .startup .launch, .task .startup .taskReturns, .task .startup .launch,
    .task .startup .waitReturns, .task .startup .notify]

theorem startup_decision_agrees_run :
    ∃ s, ((lts .counter).within Agrees).Run (App.start [{ task := true }] [])
      (bootUp ++ [.assign, .wait .leave, .run]) s ∧ s.pc = .onStart := by
  obtain ⟨s, hr, hpc⟩ : ∃ s, ((lts .counter).restrict TestsLate).Run (App.start [{ task := true }] [])
      (bootUp ++ [.assign, .wait .leave, .run]) s ∧ s.pc = .onStart :=
    Lts.exists_run_of_exec (fun _ _ _ h => h) (by decide)
  exact ⟨s, (startup_decision_agrees .counter id WaitGroup.counter_counts _ _ _ s).2 hr, hpc⟩

/-- **A healthy application exits**: `Run` wakes up and tests `success` before the coroutine has assigned it. -/
theorem exit_before_assignment :
    ∃ s, (lts .counter).Run (App.start [{ task := true }] []) (bootUp ++ [.wait .leave, .run]) s ∧ ¬ Agrees s := by
  obtain ⟨s, hr, hpc, ho⟩ : ∃ s, ((lts .counter).restrict fun _ _ => True).Run (App.start [{ task := true }] [])
      (bootUp ++ [.wait .leave, .run]) s ∧ s.pc = .exited ∧ s.onStart = [{ task := true }] :=
    Lts.exists_run_of_exec (fun _ _ _ h => h) (by decide)
  refine ⟨s, hr.of_restrict, fun h => ?_⟩
  obtain ⟨t, ht, hf⟩ := (h false (by rw [hpc]; rfl)).2.1 rfl
  rw [ho] at ht
  simp only [List.mem_singleton] at ht
  simp [ht] at hf

end LtApp.Shell
