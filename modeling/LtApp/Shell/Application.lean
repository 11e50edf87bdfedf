import LtApp.Base.TimedWait
import LtApp.Shell.Tasks

/-!
# `Application::Run`, and the loop it starts

| here | there |
| --- | --- |
| `App`            | the members of `Application` that change, and the local `success` of `Run` (`application.cc:43`) |
| `RunPc`          | where the thread in `Run` is |
| `Op.run`         | its next statement |
| `Op.wait`        | `cv_.wait_for`, and the loops around it (`:53`, `:79`) |
| `Op.task`        | a move of `RunBootupTask` or `RunCleanupTask` on `main_` |
| `Op.assign`      | `success = RunBootupTask()`, the assignment (`:48`) |
| `Op.quit`        | `main_` ends |

The thread and `main_` take their steps in any order. `mutex_` is locked by `Run` alone, so it never delays
anything. Whether `main_` runs what is posted to it after it has ended is left open: the runs in which it does are
runs here.
-/

namespace LtApp.Shell

inductive Phase
  | startup | shutdown
deriving DecidableEq, Repr

inductive RunPc
  /-- Before `CO_GO`. -/
  | spawn (p : Phase)
  /-- In the wait that follows. -/
  | wait (p : Phase) (w : Waiter)
  /-- "preapare task failed, exit..." -/
  | exited
  /-- Before `context_->OnStart()`. -/
  | onStart
  | waitLoopEnd
  /-- Before `context_->OnStop()`. -/
  | onStop
  | finished
deriving DecidableEq, Repr

/-- `cv_.notify_all()`, as the thread in `Run` hears it. -/
def RunPc.notify : RunPc → RunPc
  | .wait p w => .wait p w.notify
  | pc => pc

/-- What `Run` has decided: to call `OnStart` or to exit. -/
def RunPc.decision : RunPc → Option Bool
  | .spawn .startup | .wait .startup _ => none
  | .exited => some false
  | .spawn .shutdown | .wait .shutdown _ | .onStart | .waitLoopEnd | .onStop | .finished => some true

theorem notify_decision (pc : RunPc) : pc.notify.decision = pc.decision := by
  cases pc with
  | wait p w => cases p <;> rfl
  | _ => rfl

structure App (σ : Type) where
  onStart   : List BootTask
  onFinish  : List BootTask
  pc        : RunPc := .spawn .startup
  success   : Bool := false
  boot      : Option (Runner σ) := none
  cleanup   : Option (Runner σ) := none
  /-- `success` has been assigned by the startup coroutine. -/
  assigned  : Bool := false
  loopEnded : Bool := false

variable {σ : Type}

namespace App

/-- The tasks of a phase. -/
def items (s : App σ) : Phase → List BootTask
  | .startup => s.onStart
  | .shutdown => s.onFinish

/-- The coroutine of a phase. -/
def coro (s : App σ) : Phase → Option (Runner σ)
  | .startup => s.boot
  | .shutdown => s.cleanup

def setCoro (s : App σ) (r : Runner σ) : Phase → App σ
  | .startup => { s with boot := some r }
  | .shutdown => { s with cleanup := some r }

@[simp] theorem setCoro_pc (s : App σ) (r : Runner σ) (p : Phase) : (s.setCoro r p).pc = s.pc := by cases p <;> rfl
@[simp] theorem setCoro_onStart (s : App σ) (r : Runner σ) (p : Phase) : (s.setCoro r p).onStart = s.onStart := by
  cases p <;> rfl
@[simp] theorem setCoro_success (s : App σ) (r : Runner σ) (p : Phase) : (s.setCoro r p).success = s.success := by
  cases p <;> rfl
@[simp] theorem setCoro_assigned (s : App σ) (r : Runner σ) (p : Phase) : (s.setCoro r p).assigned = s.assigned := by
  cases p <;> rfl

end App

/-- The function a phase's coroutine runs. -/
def Phase.body (wg : WaitGroup σ) : Phase → Runner σ → Move → Option (Runner σ)
  | .startup => runBootupTask wg
  | .shutdown => runCleanupTask wg

theorem Phase.body_eq (wg : WaitGroup σ) (p : Phase) : ∃ line, p.body wg = runTasks wg line := by
  cases p <;> exact ⟨_, rfl⟩

inductive Op
  | run
  | wait (a : Waiter.Act)
  | task (p : Phase) (m : Move)
  | assign
  | quit
deriving DecidableEq, Repr

/-- One step; `none` where it cannot be taken. -/
def step (wg : WaitGroup σ) (s : App σ) : Op → Option (App σ)
  | .run =>
    match s.pc with
    | .spawn p => some { s.setCoro (.new wg (s.items p)) p with pc := .wait p .outside }
    | .wait .startup .gone => some { s with pc := if s.success then .onStart else .exited }
    | .wait .shutdown .gone => some { s with pc := .finished }
    | .onStart => some { s with pc := .waitLoopEnd }
    | .waitLoopEnd => if s.loopEnded then some { s with pc := .onStop } else none
    | .onStop => some { s with pc := .spawn .shutdown, success := false }
    | _ => none
  | .wait a =>
    match s.pc with
    | .wait p w => (w.next a).map fun w' => { s with pc := .wait p w' }
    | _ => none
  | .task p m => (s.coro p).bind fun r => (p.body wg r m).map fun r' =>
    { s.setCoro r' p with pc := if m = .notify then s.pc.notify else s.pc }
  | .assign => s.boot.bind fun r =>
    if r.pc = .returned ∧ s.assigned = false then some { s with success := r.result, assigned := true } else none
  | .quit => some { s with loopEnded := true }

def lts (wg : WaitGroup σ) : Lts (App σ) Op := ⟨fun s op t => step wg s op = some t⟩

/-- `Run` is called. -/
def App.start (prepare cleanup : List BootTask) : App σ := { onStart := prepare, onFinish := cleanup }

/-- Everything a step can do. -/
inductive Stepped (wg : WaitGroup σ) (s : App σ) : Op → App σ → Prop
  | spawn {p : Phase} : s.pc = .spawn p →
    Stepped wg s .run { s.setCoro (.new wg (s.items p)) p with pc := .wait p .outside }
  | test : s.pc = .wait .startup .gone → Stepped wg s .run { s with pc := if s.success then .onStart else .exited }
  | finish : s.pc = .wait .shutdown .gone → Stepped wg s .run { s with pc := .finished }
  | onStart : s.pc = .onStart → Stepped wg s .run { s with pc := .waitLoopEnd }
  | ended : s.pc = .waitLoopEnd → s.loopEnded = true → Stepped wg s .run { s with pc := .onStop }
  | onStop : s.pc = .onStop → Stepped wg s .run { s with pc := .spawn .shutdown, success := false }
  | wait {p : Phase} {w w' : Waiter} {a : Waiter.Act} : s.pc = .wait p w → w.next a = some w' →
    Stepped wg s (.wait a) { s with pc := .wait p w' }
  | task {p : Phase} {r r' : Runner σ} {m : Move} : s.coro p = some r → p.body wg r m = some r' → m ≠ .notify →
    Stepped wg s (.task p m) (s.setCoro r' p)
  | notify {p : Phase} {r r' : Runner σ} : s.coro p = some r → p.body wg r .notify = some r' →
    Stepped wg s (.task p .notify) { s.setCoro r' p with pc := s.pc.notify }
  | assign {r : Runner σ} : s.boot = some r → r.pc = .returned → s.assigned = false →
    Stepped wg s .assign { s with success := r.result, assigned := true }
  | quit : Stepped wg s .quit { s with loopEnded := true }

/-- **Every step is one of the cases.** -/
theorem lts_stepped {wg : WaitGroup σ} {s t : App σ} {op : Op} (h : (lts wg).step s op t) : Stepped wg s op t := by
  simp only [lts] at h
  cases op with
  | run =>
    simp only [step] at h
    split at h
    · rename_i hpc; cases h; exact .spawn hpc
    · rename_i hpc; cases h; exact .test hpc
    · rename_i hpc; cases h; exact .finish hpc
    · rename_i hpc; cases h; exact .onStart hpc
    · rename_i hpc
      split at h
      · rename_i he; cases h; exact .ended hpc he
      · cases h
    · rename_i hpc; cases h; exact .onStop hpc
    · cases h
  | wait a =>
    simp only [step] at h
    split at h
    · rename_i hpc
      obtain ⟨w', hw, rfl⟩ := Option.map_eq_some_iff.1 h
      exact .wait hpc hw
    · cases h
  | task p m =>
    obtain ⟨r, hr, h⟩ := Option.bind_eq_some_iff.1 h
    obtain ⟨r', hr', rfl⟩ := Option.map_eq_some_iff.1 h
    by_cases hm : m = .notify
    · subst hm
      exact .notify hr hr'
    · rw [if_neg hm]
      have : ({ s.setCoro r' p with pc := s.pc } : App σ) = s.setCoro r' p := by cases p <;> rfl
      exact this ▸ .task hr hr' hm
  | assign =>
    obtain ⟨r, hr, h⟩ := Option.bind_eq_some_iff.1 h
    split at h
    · rename_i ha; cases h; exact .assign hr ha.1 ha.2
    · cases h
  | quit => cases h; exact .quit

end LtApp.Shell
