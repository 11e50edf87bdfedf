import Mathlib.Data.List.Perm.Basic
import LtApp.Base.Lts

/-!
# `RunBootupTask` and `RunCleanupTask`

| here | there |
| --- | --- |
| `ExcRunType`, `BootTask`  | the types of these names (`application.h:17`, `:28`) |
| `WaitGroup`               | **ltio boundary**: `base::WaitGroup` |
| `Runner`                  | one call of `RunBootupTask` or `RunCleanupTask`, and the closures it has given `main_` |
| `runTasks`                | what the two bodies share (`application.cc:88`, `:134`) |
| `runBootupTask`, `runCleanupTask` | the functions of these names |

A sequence task may yield, and a coroutine task may yield: between any two moves of the call the closures posted
to `main_` may start and finish, in any order. `began` and `finished` are history: nothing reads them.
-/

namespace LtApp.Shell

inductive ExcRunType
  | kSequenceType | kAsyncRunType | kAsyncCoroType
deriving DecidableEq, Repr

/-- `BootTask`; `task` is what the callable returns. -/
structure BootTask where
  name    : String := ""
  task    : Bool
  excType : ExcRunType := .kSequenceType
  /-- Which object it is. -/
  addr    : Nat := 0
deriving DecidableEq, Repr

/-- `base::WaitGroup`, with the values `σ` its counter takes; `Wait` may return where `released` holds. -/
structure WaitGroup (σ : Type) where
  new      : σ
  add      : σ → σ
  done     : σ → σ
  released : σ → Bool

/-- `Wait` returns only when `Done` has been called as often as `Add(1)`; `count` is the difference. -/
structure WaitGroup.Counts {σ : Type} (wg : WaitGroup σ) (count : σ → Nat) : Prop where
  new      : count wg.new = 0
  add      : ∀ s, count (wg.add s) = count s + 1
  done     : ∀ s, count (wg.done s) = count s - 1
  released : ∀ s, wg.released s = true → count s = 0

/-- A counter. -/
def WaitGroup.counter : WaitGroup Nat := ⟨0, (· + 1), (· - 1), (· == 0)⟩

theorem WaitGroup.counter_counts : WaitGroup.counter.Counts id := ⟨rfl, fun _ => rfl, fun _ => rfl, by simp [counter]⟩

/-- Where the call is. -/
inductive Pc
  /-- At the head of the `for` loop, these items to go. -/
  | launching (rest : List BootTask)
  /-- Inside `item->task()`. -/
  | inTask (t : BootTask) (rest : List BootTask)
  /-- In `wg->Wait()`. -/
  | waiting
  /-- Before `cv_.notify_all()`. -/
  | notifying
  | returned
deriving DecidableEq, Repr

structure Runner (σ : Type) where
  pc          : Pc
  wg          : σ
  failedTasks : List BootTask := []
  posted      : List BootTask := []
  running     : List BootTask := []
  /-- The `LOG(ERROR)` lines. -/
  errors      : List String := []
  began       : List BootTask := []
  finished    : List BootTask := []

/-- What can happen next: a move of the call, or of a closure it has posted. -/
inductive Move
  | launch
  | taskReturns
  | start (i : Nat)
  | finish (i : Nat)
  | waitReturns
  | notify
deriving DecidableEq, Repr

variable {σ : Type}

/-- The call of the function. -/
def Runner.new (wg : WaitGroup σ) (items : List BootTask) : Runner σ := { pc := .launching items, wg := wg.new }

/-- `if (!task->task()) failed_tasks_.push_back(task)`. -/
@[simps] def Runner.record (t : BootTask) (r : Runner σ) : Runner σ :=
  { r with
    failedTasks := if t.task then r.failedTasks else r.failedTasks ++ [t]
    finished := r.finished ++ [t] }

/-- What the function returns. -/
def Runner.result (r : Runner σ) : Bool := r.failedTasks.isEmpty

/-- The body of the two functions, `line` being the text logged for a failed task. `none` where the move cannot
be made. -/
def runTasks (wg : WaitGroup σ) (line : BootTask → String) (r : Runner σ) : Move → Option (Runner σ)
  | .launch =>
    match r.pc with
    | .launching [] => some { r with pc := .waiting }
    | .launching (item :: rest) =>
      match item.excType with
      | .kSequenceType => some { r with pc := .inTask item rest, began := r.began ++ [item] }
      | .kAsyncRunType | .kAsyncCoroType =>
        some { r with pc := .launching rest, wg := wg.add r.wg, posted := r.posted ++ [item] }
    | _ => none
  | .taskReturns =>
    match r.pc with
    | .inTask item rest => some { r.record item with pc := .launching rest }
    | _ => none
  | .start i => (r.posted[i]?).map fun t =>
    { r with posted := r.posted.eraseIdx i, running := r.running ++ [t], began := r.began ++ [t] }
  | .finish i => (r.running[i]?).map fun t =>
    { r.record t with running := r.running.eraseIdx i, wg := wg.done r.wg }
  | .waitReturns =>
    if r.pc = .waiting ∧ wg.released r.wg = true then
      some { r with pc := .notifying, errors := r.failedTasks.map line }
    else none
  | .notify => if r.pc = .notifying then some { r with pc := .returned } else none

/-- `RunBootupTask` (`:134`). -/
def runBootupTask (wg : WaitGroup σ) : Runner σ → Move → Option (Runner σ) :=
  runTasks wg fun t => "PrepareTask:" ++ t.name ++ " Failed"

/-- `RunCleanupTask` (`:88`). -/
def runCleanupTask (wg : WaitGroup σ) : Runner σ → Move → Option (Runner σ) :=
  runTasks wg fun t => "RunCleanupTask Cleanup Task:" ++ t.name ++ " Failed"

/-! ## The cases of a move -/

/-- Everything a move can do. -/
inductive Moved (wg : WaitGroup σ) (line : BootTask → String) (r : Runner σ) : Move → Runner σ → Prop
  | looped : r.pc = .launching [] → Moved wg line r .launch { r with pc := .waiting }
  | called {item rest} : r.pc = .launching (item :: rest) → item.excType = .kSequenceType →
    Moved wg line r .launch { r with pc := .inTask item rest, began := r.began ++ [item] }
  | posted {item rest} : r.pc = .launching (item :: rest) → item.excType ≠ .kSequenceType →
    Moved wg line r .launch { r with pc := .launching rest, wg := wg.add r.wg, posted := r.posted ++ [item] }
  | returned {item rest} : r.pc = .inTask item rest →
    Moved wg line r .taskReturns { r.record item with pc := .launching rest }
  | started {i t} : r.posted[i]? = some t →
    Moved wg line r (.start i)
      { r with posted := r.posted.eraseIdx i, running := r.running ++ [t], began := r.began ++ [t] }
  | finished {i t} : r.running[i]? = some t →
    Moved wg line r (.finish i) { r.record t with running := r.running.eraseIdx i, wg := wg.done r.wg }
  | released : r.pc = .waiting → wg.released r.wg = true →
    Moved wg line r .waitReturns { r with pc := .notifying, errors := r.failedTasks.map line }
  | notified : r.pc = .notifying → Moved wg line r .notify { r with pc := .returned }

theorem runTasks_moved {wg : WaitGroup σ} {line : BootTask → String} {r r' : Runner σ} {m : Move}
    (h : runTasks wg line r m = some r') : Moved wg line r m r' := by
  cases m with
  | launch =>
    simp only [runTasks] at h
    split at h
    · exact Option.some.inj h ▸ .looped ‹_›
    · rename_i item rest hpc
      cases htype : item.excType <;> simp only [htype] at h
      · exact Option.some.inj h ▸ .called hpc htype
      · exact Option.some.inj h ▸ .posted hpc (by simp [htype])
      · exact Option.some.inj h ▸ .posted hpc (by simp [htype])
    · cases h
  | taskReturns =>
    simp only [runTasks] at h
    split at h
    · exact Option.some.inj h ▸ .returned ‹_›
    · cases h
  | start i =>
    obtain ⟨t, ht, rfl⟩ := Option.map_eq_some_iff.1 h
    exact .started ht
  | finish i =>
    obtain ⟨t, ht, rfl⟩ := Option.map_eq_some_iff.1 h
    exact .finished ht
  | waitReturns =>
    simp only [runTasks] at h
    split at h
    · rename_i hw
      exact Option.some.inj h ▸ .released hw.1 hw.2
    · cases h
  | notify =>
    simp only [runTasks] at h
    split at h
    · exact Option.some.inj h ▸ .notified ‹_›
    · cases h

/-! ## Every task is accounted for -/

/-- The items whose task has not finished, of those not posted. -/
def Pc.unfinished : Pc → List BootTask
  | .launching rest => rest
  | .inTask item rest => item :: rest
  | _ => []

/-- The items the loop has not come to. -/
def Pc.unseen : Pc → List BootTask
  | .launching rest | .inTask _ rest => rest
  | _ => []

/-- `Wait` has returned. -/
def Pc.settled : Pc → Bool
  | .notifying | .returned => true
  | _ => false

/-- What holds of a call on `items` at any time. -/
structure Accounts (count : σ → Nat) (items : List BootTask) (r : Runner σ) : Prop where
  began    : (r.pc.unseen ++ r.posted ++ r.began).Perm items
  finished : (r.pc.unfinished ++ r.posted ++ r.running ++ r.finished).Perm items
  failed   : r.failedTasks = r.finished.filter (!·.task)
  count    : count r.wg = r.posted.length + r.running.length
  settled  : r.pc.settled = true → r.posted = [] ∧ r.running = []

theorem accounts_new {wg : WaitGroup σ} {count : σ → Nat} (hwg : wg.Counts count) (items : List BootTask) :
    Accounts count items (Runner.new wg items) :=
  ⟨by simp [Runner.new, Pc.unseen], by simp [Runner.new, Pc.unfinished], rfl, by simp [Runner.new, hwg.new],
    by simp [Runner.new, Pc.settled]⟩

theorem eraseIdx_length {l : List BootTask} {i : Nat} {t : BootTask} (h : l[i]? = some t) :
    (l.eraseIdx i).length + 1 = l.length := by
  obtain ⟨hi, -⟩ := List.getElem?_eq_some_iff.1 h
  rw [List.length_eraseIdx_of_lt hi]
  omega

/-- An element taken out of the middle and put at the end. -/
theorem eraseIdx_append_perm {l : List BootTask} {i : Nat} {t : BootTask} (h : l[i]? = some t) (a b : List BootTask) :
    (a ++ l.eraseIdx i ++ (b ++ [t])).Perm (a ++ l ++ b) := by
  obtain ⟨hi, rfl⟩ := List.getElem?_eq_some_iff.1 h
  calc a ++ l.eraseIdx i ++ (b ++ [l[i]])
      = a ++ (l.eraseIdx i ++ b ++ [l[i]]) := by simp
    _ |>.Perm (a ++ (l[i] :: (l.eraseIdx i ++ b))) := (List.perm_append_singleton _ _).append_left a
    _ |>.Perm (a ++ (l ++ b)) := ((List.getElem_cons_eraseIdx_perm hi).append_right b).append_left a
    _ = a ++ l ++ b := by simp

theorem insert_perm (t : BootTask) (a b : List BootTask) : (a ++ [t] ++ b).Perm (t :: (a ++ b)) := by
  simp

theorem record_failed {count : σ → Nat} {items : List BootTask} {r : Runner σ} (h : Accounts count items r)
    (t : BootTask) : (r.record t).failedTasks = (r.record t).finished.filter (!·.task) := by
  cases ht : t.task <;> simp [h.failed, ht]

/-- **Every move keeps the account.** -/
theorem Accounts.move {wg : WaitGroup σ} {count : σ → Nat} (hwg : wg.Counts count) {line : BootTask → String}
    {items : List BootTask} {r r' : Runner σ} {m : Move} (h : Accounts count items r)
    (hm : runTasks wg line r m = some r') : Accounts count items r' := by
  obtain ⟨hbegan, hfinished, hfailed, hcount, hsettled⟩ := id h
  cases runTasks_moved hm with
  | looped hpc =>
    exact ⟨by simpa [Pc.unseen, hpc] using hbegan, by simpa [Pc.unfinished, hpc] using hfinished, hfailed, hcount,
      by simp [Pc.settled]⟩
  | @called item rest hpc =>
    simp only [hpc, Pc.unseen, Pc.unfinished] at hbegan hfinished
    refine ⟨.trans ?_ hbegan, hfinished, hfailed, hcount, by simp [Pc.settled]⟩
    simpa [Pc.unseen] using insert_perm item (rest ++ r.posted ++ r.began) []
  | @posted item rest hpc =>
    simp only [hpc, Pc.unseen, Pc.unfinished] at hbegan hfinished
    refine ⟨.trans ?_ hbegan, .trans ?_ hfinished, hfailed, ?_, by simp [Pc.settled]⟩
    · simpa [Pc.unseen] using insert_perm item (rest ++ r.posted) r.began
    · simpa [Pc.unfinished] using insert_perm item (rest ++ r.posted) (r.running ++ r.finished)
    · simp only [hwg.add, hcount, List.length_append, List.length_singleton]; omega
  | @returned item rest hpc =>
    simp only [hpc, Pc.unseen, Pc.unfinished] at hbegan hfinished
    refine ⟨hbegan, .trans ?_ hfinished, record_failed h item, hcount, by simp [Pc.settled]⟩
    simpa [Pc.unfinished] using insert_perm item (rest ++ r.posted ++ r.running ++ r.finished) []
  | @started i t ht =>
    have hlen := eraseIdx_length ht
    refine ⟨(eraseIdx_append_perm ht _ _).trans hbegan,
      ((eraseIdx_append_perm ht _ _).append_right _).trans hfinished, hfailed, ?_, fun hs => ?_⟩
    · simp only [hcount, List.length_append, List.length_singleton]; omega
    · simp [(hsettled hs).1] at ht
  | @finished i t ht =>
    have hlen := eraseIdx_length ht
    refine ⟨hbegan, (eraseIdx_append_perm ht _ _).trans hfinished, record_failed h t, ?_, fun hs => ?_⟩
    · simp only [hwg.done, hcount, Runner.record_posted]; omega
    · simp [(hsettled hs).2] at ht
  | released hpc hrel =>
    have hzero := hwg.released _ hrel
    refine ⟨by simpa [Pc.unseen, hpc] using hbegan, by simpa [Pc.unfinished, hpc] using hfinished, hfailed, hcount,
      fun _ => ?_⟩
    rw [hzero] at hcount
    show r.posted = [] ∧ r.running = []
    exact ⟨List.length_eq_zero_iff.1 (by omega), List.length_eq_zero_iff.1 (by omega)⟩
  | notified hpc =>
    exact ⟨by simpa [Pc.unseen, hpc] using hbegan, by simpa [Pc.unfinished, hpc] using hfinished, hfailed, hcount,
      fun _ => hsettled (by simp [Pc.settled, hpc])⟩

theorem Accounts.finished_perm {count : σ → Nat} {items : List BootTask} {r : Runner σ} (h : Accounts count items r)
    (hs : r.pc.settled = true) : r.finished.Perm items := by
  have hrest : r.pc.unfinished = [] := by
    cases hpc : r.pc <;> simp [hpc, Pc.settled] at hs <;> rfl
  simpa [hrest, (h.settled hs).1, (h.settled hs).2] using h.finished

/-- **What the function returns** once `Wait` has returned. -/
theorem Accounts.result {count : σ → Nat} {items : List BootTask} {r : Runner σ} (h : Accounts count items r)
    (hs : r.pc.settled = true) : r.result = true ↔ ∀ t ∈ items, t.task = true := by
  have hperm := h.finished_perm hs
  simp only [Runner.result, h.failed, List.isEmpty_iff, List.filter_eq_nil_iff, Bool.not_eq_true, Bool.not_eq_false',
    hperm.mem_iff]

end LtApp.Shell
