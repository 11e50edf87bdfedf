import LtApp.Mysql.Conservation
import LtApp.Mysql.Phase

/-!
# No session is stranded

A session the connection holds must have something left to wait for: a `*_WAIT` state with an event armed,
or a posted `HandleState`. `StartQuery` runs the machine only from `CONNECTION_IDLE`; in any other state it
leaves the session to whoever runs the machine next. After a close nobody does, and a `SyncConnect` that
finds sessions in the queue does not either (`queued_before_syncConnect_stranded`).

`Op.Attends` is the condition on a step under which this does not happen; `run_attended` carries it over
every run.
-/

namespace LtApp.Mysql

/-- `Connect` has been called, or `SyncConnect` has succeeded, since the last `InitConnection`. -/
def established : List Ev → Bool
  | [] => false
  | .connect :: _ => true
  | .call (.realConnect _) a :: l => a.ret || established l
  | .call (.init _) _ :: _ => false
  | _ :: l => established l

/-- Something can still happen to the sessions held. -/
def Awaits (c : Conn) : Prop := (c.currentState.isWait = true ∧ WakeArmed c) ∨ .handleState ∈ c.tasks

/-- The connection holds a session nothing will ever complete. -/
def Stranded (c : Conn) : Prop := established c.log = true ∧ Unfinished c ∧ ¬ Awaits c

instance (c : Conn) : Decidable (WakeArmed c) :=
  decidable_of_iff ((c.fdEvent.any fun e => e.reading || e.writing) = true ∨ c.timeout.attached = true) (by
    unfold WakeArmed; cases c.fdEvent <;> simp)

instance (c : Conn) : Decidable (Stranded c) := by
  unfold Stranded Unfinished Awaits; infer_instance

/-! ## The condition on a step -/

/-- The operation runs a `StartQuery`. -/
def Op.startsQuery (c : Conn) (op : Op) : Bool :=
  match op.task c with
  | some (.startQuery _) => true
  | _ => false

/-- No `StartQuery` runs on a connection that has been closed and has no `HandleState` posted, no connect is
made over a session in process, and no `SyncConnect` succeeds over a queue that no posted `HandleState` will
serve. -/
def Op.Attends (c : Conn) (op : Op) : Prop :=
  op.Free c ∧
  (op.startsQuery c = true → established c.log = true → c.currentState.isClosed = true → .handleState ∈ c.tasks) ∧
  ∀ a ∈ op.syncAnswer, a.ret = true → c.queryList = [] ∨ .handleState ∈ c.tasks

instance (c : Conn) (op : Op) : Decidable (op.Attends c) := by unfold Op.Attends; infer_instance

/-! ## The invariant -/

structure Attended (c : Conn) : Prop where
  phased : Phased c
  place : c.currentState.isRest = true
  armed : c.currentState.isWait = true → WakeArmed c
  start : c.currentState = .connectStart → .handleState ∈ c.tasks
  fresh : c.currentState = .connectInit → established c.log = false
  queue : established c.log = true → c.queryList ≠ [] → c.currentState.isWait = true ∨ .handleState ∈ c.tasks

theorem Rested.attended {as : List Answer} {c : Conn} (hsound : ∀ a ∈ as, a.status.Sound) (h : Rested as c)
    (hp : Phased c) : Attended c := by
  have harm := h.armed hsound
  cases h with
  | @waiting k a ha hs hz hf ht =>
    exact ⟨hp, hs ▸ k.wait_isRest, harm, fun h => by cases k <;> simp [hs, Kind.wait] at h,
      fun h => by cases k <;> simp [hs, Kind.wait] at h, fun _ _ => .inl (by simp [hs])⟩
  | idle hs _ hq =>
    exact ⟨hp, by rw [hs]; rfl, harm, fun h => by simp [hs] at h, fun h => by simp [hs] at h,
      fun _ h => absurd hq h⟩
  | closed hs _ hq =>
    exact ⟨hp, by rw [hs]; rfl, harm, fun h => by simp [hs] at h, fun h => by simp [hs] at h,
      fun _ h => absurd hq h⟩

theorem handleState_attended {as : List Answer} {ev : WaitStatus} {c c' : Conn}
    (hsound : ∀ a ∈ as, a.status.Sound) (hc : Phased c) (h : handleState as ev c = .ok c') : Attended c' := by
  obtain ⟨hr, hp⟩ := handleState_rested hc h
  exact hr.attended hsound hp

theorem startsQuery_of_task {c : Conn} {op : Op} {q : Session} (h : op.task c = some (.startQuery q)) :
    op.startsQuery c = true := by simp [Op.startsQuery, h]

theorem pushed_attended {c : Conn} {op : Op} {q : Session} (hc : Attended c) (hop : op.Attends c)
    (ht : op.task c = some (.startQuery q)) (hk : ¬ (c.currentState = .connectionIdle ∧ c.inProcess = none)) :
    Attended (pushQuery q (op.target c)) := by
  have hmem := handleState_mem_remaining ht (by simp)
  refine ⟨hc.phased, hc.place, hc.armed, fun h => hmem (hc.start h), hc.fresh, fun he _ => ?_⟩
  have he : established c.log = true := he
  have hplace := hc.place
  cases hs : c.currentState <;> simp only [hs, State.isRest, State.isWait, Bool.false_eq_true] at hplace
  case connectInit => simp [hc.fresh hs] at he
  case connectStart => exact .inr (hmem (hc.start hs))
  case connectionIdle => exact absurd ⟨hs, hc.phased.none (by rw [hs]; rfl)⟩ hk
  case connectDone | closeDone =>
    exact .inr (hmem (hop.2.1 (startsQuery_of_task ht) he (by rw [hs]; rfl)))
  all_goals exact .inl (by rw [pushQuery_currentState, Op.target_currentState, hs]; rfl)

theorem step_attended {c c' : Conn} {op : Op} (hc : Attended c) (hsound : op.Sound) (hop : op.Attends c)
    (h : lts.step c op c') : Attended c' := by
  cases lts_stepped h with
  | init opt =>
    have hp : c.inProcess = none := hop.1
    exact ⟨phased_of_none hp, rfl, by simp [State.isWait], by simp, fun _ => rfl, by simp [established]⟩
  | connect =>
    have hp : c.inProcess = none := hop.1
    exact ⟨phased_of_none hp, rfl, by simp [State.isWait], fun _ => by simp, by simp, fun _ _ => .inr (by simp)⟩
  | @syncRefused a ha =>
    have he : established (syncRefused a c).log = established c.log := by simp [established, ha]
    exact ⟨hc.phased, hc.place, hc.armed, hc.start, fun h => he ▸ hc.fresh h, fun h => hc.queue (he ▸ h)⟩
  | @syncConnected a ha =>
    refine ⟨phased_of_none (hop.1 ha), rfl, by simp [State.isWait], by simp, by simp, fun _ hq => .inr ?_⟩
    exact (hop.2.2 _ rfl ha).resolve_left hq
  | pendingQuery | clientClose =>
    refine ⟨hc.phased, hc.place, hc.armed, fun h => ?_, hc.fresh, fun he hq => ?_⟩
    · exact List.mem_append_left _ (hc.start h)
    · exact (hc.queue he hq).imp_right (List.mem_append_left _)
  | pushed ht hk => exact pushed_attended hc hop ht hk
  | kicked ht hs hp hh =>
    exact handleState_attended (c := pushQuery _ (op.target c)) hsound (phased_of_none hp) hh
  | handled ht hh => exact handleState_attended (c := op.target c) hsound hc.phased hh
  | syncClosed => exact ⟨phased_of_none rfl, rfl, by simp [State.isWait], by simp, by simp, by simp⟩
  | close => exact ⟨hc.phased, hc.place, hc.armed, hc.start, hc.fresh, hc.queue⟩
  | closeKicked hp hs hh =>
    exact handleState_attended (c := { c with scheduleClose := true }) hsound (phased_of_none hp) hh
  | woken ht hf hh => exact handleState_attended (c := disarmed _ c) hsound hc.phased hh
  | @checked a hch =>
    have he : established (checked a c).log = established c.log := by simp [established]
    exact ⟨hc.phased, hc.place, hc.armed, hc.start, fun h => he ▸ hc.fresh h, fun h => hc.queue (he ▸ h)⟩

theorem opened_attended (client : Bool) (errNo : Int) (st : State) (opt : MysqlOptions) :
    Attended (opened client errNo st opt) :=
  ⟨phased_of_none rfl, rfl, by simp [opened, State.isWait], by simp [opened], fun _ => rfl, by simp [opened, Conn.new]⟩

theorem run_attended {c c' : Conn} {ops : List Op} (hc : Attended c)
    (h : (lts.restrict fun c op => op.Sound ∧ op.Attends c).Run c ops c') : Attended c' :=
  h.invariant_restrict (fun _ _ _ hc hg hs => step_attended hc hg.1 hg.2 hs) hc

theorem Attended.not_stranded {c : Conn} (hc : Attended c) : ¬ Stranded c := by
  rintro ⟨he, hu, ha⟩
  have hw : c.currentState.isWait = true ∨ .handleState ∈ c.tasks := by
    rcases hu with hp | hq
    · have hin := hc.phased (Option.isSome_iff_ne_none.2 hp)
      have hplace := hc.place
      left
      cases hs : c.currentState <;> simp_all [State.inSession, State.isRest, State.isWait]
    · exact hc.queue he hq
  rcases hw with hw | ht
  · exact ha (.inl ⟨hw, hc.armed hw⟩)
  · exact ha (.inr ht)

/-- **No stranded query.** In a run whose steps all meet `Op.Attends`, once a connect has been made, a
connection that holds a session has something left to wait for; so every session taken in has been completed
or waits for something that can happen. -/
theorem no_query_stranded (client : Bool) (errNo : Int) (st : State) (opt : MysqlOptions) (ops : List Op) (c : Conn)
    (h : (lts.restrict fun c op => op.Sound ∧ op.Attends c).Run (opened client errNo st opt) ops c) :
    ¬ Stranded c ∧ (established c.log = true → ∀ i ∈ accepted c.log, i ∈ completed c.log ∨ Awaits c) := by
  have hc := run_attended (opened_attended client errNo st opt) h
  refine ⟨hc.not_stranded, fun he i hi => ?_⟩
  obtain ⟨as, hr⟩ := run_refines h.of_restrict
  have hb : (books c).Conserved := Fifo.run_conserved hr (opened_conserved client errNo st opt)
  rcases hb.mem hi with hd | hs | hw
  · exact .inl hd
  · by_contra hn
    simp only [not_or] at hn
    exact hc.not_stranded ⟨he, .inl (by intro hp; simp [books, hp] at hs), hn.2⟩
  · by_contra hn
    simp only [not_or] at hn
    exact hc.not_stranded ⟨he, .inr (by intro hq; simp [books, hq] at hw), hn.2⟩

/-- The condition is met by an ordinary run: connect, a query posted and started. -/
theorem no_query_stranded_run :
    ∃ c, (lts.restrict fun c op => op.Sound ∧ op.Attends c).Run (opened true 0 .stateNone {})
        [.connect, .runTask 0 [{ ret := true }, {}, {}], .pendingQuery { id := 1, query := [115] },
          .runTask 0 [{}, { status := { read := true } }]] c ∧
      ¬ Stranded c ∧ (established c.log = true → ∀ i ∈ accepted c.log, i ∈ completed c.log ∨ Awaits c) := by
  have hrun : ∃ c, (lts.restrict fun c op => op.Sound ∧ op.Attends c).Run (opened true 0 .stateNone {})
      [.connect, .runTask 0 [{ ret := true }, {}, {}], .pendingQuery { id := 1, query := [115] },
        .runTask 0 [{}, { status := { read := true } }]] c ∧ c.currentState = .queryWait :=
    exists_run (by decide)
  obtain ⟨c, hr, -⟩ := hrun
  exact ⟨c, hr, no_query_stranded true 0 .stateNone {} _ c hr⟩

/-- **A query posted while the connection is ready and run after it has closed is stranded**: the client posts
`SyncClose`, then `PendingQuery` still finds the connection ready, and the loop runs the two in this order. -/
theorem query_after_close_stranded :
    ∃ c, (lts.restrict fun _ op => op.Sound).Run (opened true 0 .stateNone {})
        [.syncConnect { ret := true }, .clientClose, .pendingQuery { id := 1, query := [115] },
          .runTask 0 [], .runTask 0 []] c ∧ Stranded c :=
  exists_run (by decide)

/-- Nor does a `SyncConnect` serve what an earlier close has left in the queue. -/
theorem queued_before_syncConnect_stranded :
    ∃ c, (lts.restrict fun _ op => op.Sound).Run (opened true 0 .stateNone {})
        [.syncConnect { ret := true }, .pendingQuery { id := 1, query := [115] }, .syncClose,
          .initConnection {}, .runTask 0 [], .syncConnect { ret := true }] c ∧ Stranded c :=
  exists_run (by decide)

end LtApp.Mysql
