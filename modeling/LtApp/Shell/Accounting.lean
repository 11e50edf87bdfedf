import LtApp.Shell.Tasks

/-!
# One call of `RunBootupTask` or `RunCleanupTask`, from end to end

`Accounts` says where each task is. Here the call comes to its end: in what order the sequence tasks run, what is
logged, and that no call goes on for ever.
-/

namespace LtApp.Shell

variable {σ : Type}

/-- The moves of one call, and of what it has posted. -/
def moves (f : Runner σ → Move → Option (Runner σ)) : Lts (Runner σ) Move := ⟨fun r m r' => f r m = some r'⟩

def BootTask.sequential (t : BootTask) : Bool := t.excType = .kSequenceType

/-- A call of `f` on `items` after the moves `ms`, `line` being the text logged for a failed task. -/
structure Executes (f : Runner σ → Move → Option (Runner σ)) (wg : WaitGroup σ) (count : σ → Nat)
    (line : BootTask → String) (items : List BootTask) (ms : List Move) (r : Runner σ) : Prop where
  /-- No task begins more often than it is listed. -/
  begins : ∃ rest, (rest ++ r.began).Perm items
  /-- The sequence tasks run in list order, one after the other. -/
  order  : r.began.filter BootTask.sequential <+: items.filter BootTask.sequential
  single : ∃ current : Option BootTask, r.began.filter BootTask.sequential =
    r.finished.filter BootTask.sequential ++ current.toList
  /-- When the call returns every task has been executed once, and has finished. -/
  once   : r.pc = .returned → r.began.Perm items ∧ r.finished.Perm items ∧ r.posted = [] ∧ r.running = []
  result : r.pc = .returned → (r.result = true ↔ ∀ t ∈ items, t.task = true)
  errors : r.pc = .returned → r.errors.Perm ((items.filter (!·.task)).map line)
  /-- The call returns: it cannot go on for ever, and is only held up by a `Wait` that does not return. -/
  ends   : ms.length ≤ 3 * items.length + 3
  moves  : (∀ s, count s = 0 → wg.released s = true) → r.pc ≠ .returned → ∃ m r', f r m = some r'

/-! ## The sequence tasks -/

/-- The sequence tasks begin, and finish, in the order of the list. -/
structure InOrder (items : List BootTask) (r : Runner σ) : Prop where
  began    : r.began.filter BootTask.sequential ++ r.pc.unseen.filter BootTask.sequential =
    items.filter BootTask.sequential
  finished : r.finished.filter BootTask.sequential ++ r.pc.unfinished.filter BootTask.sequential =
    items.filter BootTask.sequential
  inTask   : ∀ t rest, r.pc = .inTask t rest → t.sequential = true
  posted   : ∀ t ∈ r.posted, t.sequential = false
  running  : ∀ t ∈ r.running, t.sequential = false

theorem inOrder_new (wg : WaitGroup σ) (items : List BootTask) : InOrder items (Runner.new wg items) :=
  ⟨by simp [Runner.new, Pc.unseen], by simp [Runner.new, Pc.unfinished], by simp [Runner.new], by simp [Runner.new],
    by simp [Runner.new]⟩

/-- **Every move keeps the order.** -/
theorem InOrder.move {wg : WaitGroup σ} {line : BootTask → String} {items : List BootTask} {r r' : Runner σ} {m : Move}
    (h : InOrder items r) (hm : runTasks wg line r m = some r') : InOrder items r' := by
  obtain ⟨hbegan, hfinished, hin, hposted, hrunning⟩ := id h
  cases runTasks_moved hm with
  | looped hpc | released hpc | notified hpc =>
    exact ⟨by simpa [hpc, Pc.unseen] using hbegan, by simpa [hpc, Pc.unfinished] using hfinished, by simp, hposted,
      hrunning⟩
  | @called item rest hpc htype =>
    simp only [hpc, Pc.unseen, Pc.unfinished] at hbegan hfinished
    have hseq : item.sequential = true := by simp [BootTask.sequential, htype]
    refine ⟨by simpa [Pc.unseen, List.filter_cons, hseq] using hbegan, hfinished, ?_, hposted, hrunning⟩
    rintro t rest' ⟨⟩
    exact hseq
  | @posted item rest hpc htype =>
    simp only [hpc, Pc.unseen, Pc.unfinished] at hbegan hfinished
    have hseq : item.sequential = false := by simp [BootTask.sequential, htype]
    refine ⟨by simpa [Pc.unseen, List.filter_cons, hseq] using hbegan,
      by simpa [Pc.unfinished, List.filter_cons, hseq] using hfinished, by simp, fun t ht => ?_, hrunning⟩
    rcases List.mem_append.1 ht with ht | ht
    · exact hposted t ht
    · rw [List.mem_singleton.1 ht]
      exact hseq
  | @returned item rest hpc =>
    have hseq := hin item rest hpc
    simp only [hpc, Pc.unseen, Pc.unfinished] at hbegan hfinished
    exact ⟨hbegan, by simpa [Pc.unfinished, List.filter_cons, hseq] using hfinished, by simp, hposted, hrunning⟩
  | @started i t ht =>
    have hseq := hposted t (List.mem_of_getElem? ht)
    refine ⟨by simpa [List.filter_append, hseq] using hbegan, hfinished, hin,
      fun u hu => hposted u (List.mem_of_mem_eraseIdx hu), fun u hu => ?_⟩
    rcases List.mem_append.1 hu with hu | hu
    · exact hrunning u hu
    · rw [List.mem_singleton.1 hu]
      exact hseq
  | @finished i t ht =>
    have hseq := hrunning t (List.mem_of_getElem? ht)
    exact ⟨hbegan, by simpa [List.filter_append, hseq] using hfinished, hin, hposted,
      fun u hu => hrunning u (List.mem_of_mem_eraseIdx hu)⟩

theorem InOrder.single {items : List BootTask} {r : Runner σ} (h : InOrder items r) :
    ∃ current : Option BootTask, r.began.filter BootTask.sequential =
      r.finished.filter BootTask.sequential ++ current.toList := by
  have heq := h.began.trans h.finished.symm
  cases hpc : r.pc with
  | inTask t rest =>
    refine ⟨some t, ?_⟩
    have hseq := h.inTask t rest hpc
    simp only [hpc, Pc.unseen, Pc.unfinished, List.filter_cons, hseq, if_true] at heq
    exact List.append_cancel_right (by simpa using heq)
  | _ =>
    refine ⟨none, ?_⟩
    simp only [hpc, Pc.unseen, Pc.unfinished] at heq
    simpa using List.append_cancel_right heq

/-! ## The end of the call -/

/-- Once `Wait` has returned, what has been logged is what has failed. -/
def Logged (line : BootTask → String) (r : Runner σ) : Prop := r.pc.settled = true → r.errors = r.failedTasks.map line

theorem Logged.move {wg : WaitGroup σ} {count : σ → Nat} {line : BootTask → String} {items : List BootTask}
    {r r' : Runner σ} {m : Move} (h : Logged line r) (ha : Accounts count items r)
    (hm : runTasks wg line r m = some r') : Logged line r' := by
  cases runTasks_moved hm with
  | looped | called | posted | returned => exact fun hs => by simp [Pc.settled] at hs
  | started => exact h
  | finished ht =>
    intro hs
    simp [(ha.settled hs).2] at ht
  | released => exact fun _ => rfl
  | notified hpc => exact fun _ => h (by simp [hpc, Pc.settled])

/-- How many moves there can still be. -/
def Runner.toGo (r : Runner σ) : Nat :=
  2 * r.posted.length + r.running.length +
    match r.pc with
    | .launching rest => 3 * rest.length + 3
    | .inTask _ rest => 3 * rest.length + 4
    | .waiting => 2
    | .notifying => 1
    | .returned => 0

theorem toGo_move {wg : WaitGroup σ} {line : BootTask → String} {r r' : Runner σ} {m : Move}
    (hm : runTasks wg line r m = some r') : r'.toGo < r.toGo := by
  cases runTasks_moved hm with
  | looped hpc | returned hpc | released hpc | notified hpc => simp [Runner.toGo, hpc]
  | called hpc =>
    simp only [Runner.toGo, hpc, List.length_cons]
    omega
  | posted hpc =>
    simp only [Runner.toGo, hpc, List.length_cons, List.length_append, List.length_nil]
    omega
  | started ht =>
    have hlen := eraseIdx_length ht
    simp only [Runner.toGo, List.length_append, List.length_cons, List.length_nil]
    omega
  | finished ht =>
    have hlen := eraseIdx_length ht
    simp only [Runner.toGo, Runner.record_posted, Runner.record_pc]
    omega

/-- Where `Wait` returns as soon as it may, the call can go on until it returns. -/
theorem Accounts.progress {wg : WaitGroup σ} {count : σ → Nat} {items : List BootTask} {r : Runner σ}
    (h : Accounts count items r) (hrel : ∀ s, count s = 0 → wg.released s = true) (line : BootTask → String)
    (hr : r.pc ≠ .returned) : ∃ m r', runTasks wg line r m = some r' := by
  suffices h : ∃ m, (runTasks wg line r m).isSome = true by
    obtain ⟨m, hm⟩ := h
    exact ⟨m, Option.isSome_iff_exists.1 hm⟩
  cases hpc : r.pc with
  | launching rest =>
    refine ⟨.launch, ?_⟩
    cases rest with
    | nil => simp [runTasks, hpc]
    | cons item rest => cases htype : item.excType <;> simp [runTasks, hpc, htype]
  | inTask item rest => exact ⟨.taskReturns, by simp [runTasks, hpc]⟩
  | waiting =>
    cases hposted : r.posted with
    | cons t posted => exact ⟨.start 0, by simp [runTasks, hposted]⟩
    | nil =>
      cases hrunning : r.running with
      | cons t running => exact ⟨.finish 0, by simp [runTasks, hrunning]⟩
      | nil =>
        have hzero : count r.wg = 0 := by simpa [hposted, hrunning] using h.count
        exact ⟨.waitReturns, by simp [runTasks, hpc, hrel _ hzero]⟩
  | notifying => exact ⟨.notify, by simp [runTasks, hpc]⟩
  | returned => exact absurd hpc hr

/-! ## Every call -/

theorem run_executes {wg : WaitGroup σ} {count : σ → Nat} (hwg : wg.Counts count) {line : BootTask → String}
    {items : List BootTask} {ms : List Move} {r : Runner σ} (h : (moves (runTasks wg line)).Run (.new wg items) ms r) :
    Executes (runTasks wg line) wg count line items ms r := by
  have hkept : Accounts count items r ∧ InOrder items r ∧ Logged line r := by
    refine h.invariant (P := fun r => Accounts count items r ∧ InOrder items r ∧ Logged line r) ?_
      ⟨accounts_new hwg items, inOrder_new wg items, fun hs => by simp [Runner.new, Pc.settled] at hs⟩
    rintro r m r' ⟨ha, ho, hl⟩ hm
    exact ⟨ha.move hwg hm, ho.move hm, hl.move ha hm⟩
  obtain ⟨ha, ho, hl⟩ := hkept
  have hsettled : r.pc = .returned → r.pc.settled = true := fun hpc => by rw [hpc]; rfl
  refine ⟨⟨_, ha.began⟩, ⟨_, ho.began⟩, ho.single, fun hpc => ?_, fun hpc => ha.result (hsettled hpc), fun hpc => ?_, ?_,
    fun hrel => ha.progress hrel line⟩
  · obtain ⟨hposted, hrunning⟩ := ha.settled (hsettled hpc)
    exact ⟨by simpa [hpc, Pc.unseen, hposted] using ha.began, ha.finished_perm (hsettled hpc), hposted, hrunning⟩
  · rw [hl (hsettled hpc), ha.failed]
    exact ((ha.finished_perm (hsettled hpc)).filter _).map _
  · have hlen : _ + Runner.toGo _ ≤ Runner.toGo _ := h.length_add_le fun _ _ _ hm => toGo_move hm
    simp only [Runner.toGo, Runner.new, List.length_nil] at hlen
    omega

/-- **Boot and cleanup account for every task**, whatever the order in which `main_` runs what is posted to it. -/
theorem tasks_accounted (wg : WaitGroup σ) (count : σ → Nat) (hwg : wg.Counts count) (items : List BootTask)
    (ms : List Move) (r : Runner σ) :
    ((moves (runBootupTask wg)).Run (.new wg items) ms r →
      Executes (runBootupTask wg) wg count (fun t => "PrepareTask:" ++ t.name ++ " Failed") items ms r) ∧
    ((moves (runCleanupTask wg)).Run (.new wg items) ms r →
      Executes (runCleanupTask wg) wg count (fun t => "RunCleanupTask Cleanup Task:" ++ t.name ++ " Failed") items ms r) :=
  ⟨fun h => run_executes hwg h, fun h => run_executes hwg h⟩

/-- Three tasks of the three kinds; the posted one runs first, and fails. -/
def threeTasks : List BootTask :=
  [{ name := "a", task := false, excType := .kAsyncRunType, addr := 1 }, { name := "b", task := true, addr := 2 },
    { name := "c", task := true, excType := .kAsyncCoroType, addr := 3 }]

/-- The moves of a call on them. -/
def threeMoves : List Move :=
  [.launch, .launch, .start 0, .finish 0, .taskReturns, .launch, .launch, .start 0, .finish 0, .waitReturns, .notify]

theorem tasks_accounted_three :
    (∃ r, (moves (runBootupTask .counter)).Run (.new .counter threeTasks) threeMoves r ∧ r.pc = .returned ∧
      r.began.Perm threeTasks ∧ (r.result = true ↔ ∀ t ∈ threeTasks, t.task = true) ∧
      r.errors = ["PrepareTask:a Failed"]) ∧
    ∃ r, (moves (runCleanupTask .counter)).Run (.new .counter threeTasks) threeMoves r ∧ r.pc = .returned ∧
      r.began.Perm threeTasks ∧ (r.result = true ↔ ∀ t ∈ threeTasks, t.task = true) ∧
      r.errors = ["RunCleanupTask Cleanup Task:a Failed"] := by
  obtain ⟨r, hr, hpc, herrors⟩ : ∃ r, ((moves (runBootupTask .counter)).restrict fun _ _ => True).Run
      (.new .counter threeTasks) threeMoves r ∧ r.pc = .returned ∧ r.errors = ["PrepareTask:a Failed"] :=
    Lts.exists_run_of_exec (fun _ _ _ h => h) (by decide)
  obtain ⟨r', hr', hpc', herrors'⟩ : ∃ r, ((moves (runCleanupTask .counter)).restrict fun _ _ => True).Run
      (.new .counter threeTasks) threeMoves r ∧ r.pc = .returned ∧
      r.errors = ["RunCleanupTask Cleanup Task:a Failed"] := Lts.exists_run_of_exec (fun _ _ _ h => h) (by decide)
  have hall := (tasks_accounted .counter id WaitGroup.counter_counts threeTasks _ r).1 hr.of_restrict
  have hall' := (tasks_accounted .counter id WaitGroup.counter_counts threeTasks _ r').2 hr'.of_restrict
  exact ⟨⟨r, hr.of_restrict, hpc, (hall.once hpc).1, hall.result hpc, herrors⟩,
    r', hr'.of_restrict, hpc', (hall'.once hpc').1, hall'.result hpc', herrors'⟩

end LtApp.Shell
