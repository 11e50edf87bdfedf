import LtApp.Mysql.Closed

/-!
# Reconnecting, and a fresh connection

`InitConnection` sets the options, the timer and the state. Everything else survives a close unless the close
resets it. `Conn.core` keeps what the state machine will still read: `result_`, `result_row_`, `mysql_ret_` and
`last_selected_db_` only in the states before their next assignment. Two connections with the same core behave
the same (`handleState_core`, `step_alike`).

So a connection that reconnects behaves like a fresh one as long as what survives and is read is what a fresh one
has: `schedule_close_`, `query_list_` and `ready_` (`Reset`), `last_selected_db_` where `SyncConnect` does not
refresh it, `mysql_ret_` where a `HandleState` finds `CONNECT_DONE` without having connected (`Agree`).
-/

namespace LtApp.Mysql

/-- The states that read `last_selected_db_` before they write it. -/
def State.usesDb : State → Bool
  | .connectionIdle => true
  | s => s.inSession

/-- The states that read `result_` before they write it. -/
def State.usesResult : State → Bool
  | .fetchRowStart | .fetchRowWait | .fetchRowResultReady => true
  | _ => false

/-- What the machine will still read, without the history and the health check. -/
@[simps] def Conn.core (c : Conn) : Conn :=
  { c with
    mysqlRet := if c.currentState = .connectDone then c.mysqlRet else false
    result := if c.currentState.usesResult then c.result else none
    resultRow := if c.currentState = .fetchRowResultReady then c.resultRow else none
    lastSelectedDb := if c.currentState.usesDb then c.lastSelectedDb else []
    checker := false
    log := [] }

/-- The core between handlers, where `CONNECT_DONE` is the state a close has left. -/
def Conn.restCore (c : Conn) : Conn := { c.core with mysqlRet := false }

/-- The two passes went the same way, to connections with the same core, and the first has written the same
history, after `l`. -/
def Turn.Follows (l : List Ev) : Turn → Turn → Prop
  | .goOn c, .goOn d => c.core = d.core ∧ c.log = d.log ++ l
  | .rest c, .rest d => c.restCore = d.restCore ∧ c.log = d.log ++ l
  | .checkFailed, .checkFailed => True
  | _, _ => False

section
-- what a pass computes
attribute [local simp] handleStateConnect handleStateIDLE handleStateSelectDB goNextState failQuery doneCurrentQuery
  storeRet storeRow Conn.toState Conn.call Conn.emit Conn.setReady Conn.onQueryDone waitMysqlStatus_eq cleanUp_eq
  fetchEnd_eq fetchRow_eq needsSelect armed armLog cleaned unfinished fetchEnded rowFetched Turn.Follows Conn.core
  Conn.restCore State.usesDb State.usesResult State.inSession

/-- **A pass reads no more than the core.** -/
theorem handleStatePass_core {a : Answer} {ev : WaitStatus} {c : Conn} :
    (handleStatePass a ev c).Follows c.log (handleStatePass a ev c.core) := by
  unfold handleStatePass
  rw [Conn.core_currentState]
  cases hs : c.currentState
  case stateNone | connectInit => trivial
  case connectStart | connectWait | closeStart | closeWait | fetchRowStart | fetchRowWait =>
    cases hz : a.status.isZero <;> simp [hs, hz]
  case connectDone =>
    cases hr : c.mysqlRet <;> cases hcl : c.client <;> simp [hs, hr, hcl]
  case closeDone =>
    cases hcl : c.client <;> simp [hs, hcl]
  case connectionIdle =>
    cases hq : c.queryList with
    | nil =>
      cases hsc : c.scheduleClose <;> simp [hq, hsc, hs]
    | cons q w =>
      cases hp : c.inProcess with
      | some _ => simp [hq, hp]
      | none =>
        -- which way it goes is decided by what the core keeps
        cases hn : (!q.dbName.isEmpty && q.dbName != c.lastSelectedDb) <;> simp [hq, hp, hn, hs]
  case selectDbStart | selectDbWait =>
    cases hp : c.inProcess with
    | none => simp [hp]
    | some q =>
      by_cases he : a.err = 0
      · cases hz : a.status.isZero <;> simp [hp, hs, he, hz]
      · cases hf : isFatalError a.err <;> simp [hp, hs, he, hf]
  case selectDbDone =>
    cases hp : c.inProcess with
    | none => simp [hp]
    | some q =>
      cases hq : q.query <;> simp [hp, hs, hq]
  case queryStart =>
    cases hp : c.inProcess with
    | none => simp [hp]
    | some q =>
      cases hq : q.query.isEmpty with
      | true => simp [hp, hq, hs]
      | false =>
        by_cases he : a.err = 0
        · cases hz : a.status.isZero <;> simp [hp, hq, hs, he, hz]
        · cases hf : isFatalError a.err <;> simp [hp, hq, hs, he, hf]
  case queryWait =>
    cases hp : c.inProcess with
    | none => simp [hp]
    | some q =>
        by_cases he : c.errNo = 0
        · cases hz : a.status.isZero <;> simp [hp, hs, he, hz]
        · cases hf : isFatalError a.err <;> simp [hp, hs, he, hf]
  case queryResultReady =>
    cases hp : c.inProcess with
    | none => simp [hp]
    | some q =>
      cases hr : a.res with
      | none =>
        cases hf : isFatalError a.errno <;> simp [hp, hs, hf]
      | some r => simp [hp, hs]
  case fetchRowResultReady =>
    cases hp : c.inProcess with
    | none => simp [hp]
    | some q =>
      cases hr : c.result with
      | none => simp [hp, hr, hs]
      | some r =>
        cases hrow : c.resultRow with
        | none =>
          simp [hp, hr, hrow, hs]
        | some row =>
          simp [-Conn.toState, hp, hr, hrow, hs]

end

/-- Two connections of the same core run through `HandleState` together. -/
theorem handleState_core {as : List Answer} {ev : WaitStatus} {u v u' : Conn} (hcore : u.core = v.core)
    (h : handleState as ev u = .ok u') :
    ∃ v' es, handleState as ev v = .ok v' ∧ u'.restCore = v'.restCore ∧ u'.log = es ++ u.log ∧
      v'.log = es ++ v.log := by
  induction as generalizing u v with
  | nil => simp [handleState] at h
  | cons a as ih =>
    have hu := @handleStatePass_core a ev u
    have hv := @handleStatePass_core a ev v
    rw [← hcore] at hv
    simp only [handleState] at h ⊢
    -- the pass from the core itself stands between the two
    cases hp : handleStatePass a ev u.core with
    | goOn d =>
      cases hpu : handleStatePass a ev u with
      | goOn u1 =>
        cases hpv : handleStatePass a ev v with
        | goOn v1 =>
          simp only [hp, hpu, hpv, Turn.Follows] at hu hv h
          obtain ⟨v', es, hh, hcr, hlu, hlv⟩ := ih (hu.1.trans hv.1.symm) h
          exact ⟨v', es ++ d.log, hh, hcr, by simp [hlu, hu.2], by simp [hlv, hv.2]⟩
        | rest _ | checkFailed => simp [hp, hpv, Turn.Follows] at hv
      | rest _ | checkFailed => simp [hp, hpu, Turn.Follows] at hu
    | rest d =>
      cases hpu : handleStatePass a ev u with
      | rest u1 =>
        cases hpv : handleStatePass a ev v with
        | rest v1 =>
          simp only [hp, hpu, hpv, Turn.Follows, Except.ok.injEq] at hu hv h
          subst h
          exact ⟨v1, d.log, rfl, hu.1.trans hv.1.symm, hu.2, hv.2⟩
        | goOn _ | checkFailed => simp [hp, hpv, Turn.Follows] at hv
      | goOn _ | checkFailed => simp [hp, hpu, Turn.Follows] at hu
    | checkFailed =>
      cases hpu : handleStatePass a ev u with
      | checkFailed => simp [hpu] at h
      | goOn _ | rest _ => simp [hp, hpu, Turn.Follows] at hu

/-! ## One step -/

/-- A closed connection has nothing in process and no events installed. -/
def Emptied (c : Conn) : Prop := c.currentState.isClosed = true → c.inProcess = none ∧ c.fdEvent = none

/-- The step reads nothing the two connections do not share: `SyncConnect` leaves `last_selected_db_` as it is, a
`HandleState` in `CONNECT_DONE` reads `mysql_ret_`, and only what has connected once has a health check. -/
structure Agree (u v : Conn) (op : Op) : Prop where
  db      : ∀ a, op = .syncConnect a → a.ret = true → u.lastSelectedDb = v.lastSelectedDb
  ret     : op.task u = some .handleState → u.currentState = .connectDone → u.mysqlRet = v.mysqlRet
  checker : op.checks = true → u.checker = v.checker

section
variable {u v u' : Conn}

/-- What only reads the core reads the same. -/
theorem read_core {α : Type*} (f : Conn → α) (hf : ∀ c, f c = f c.restCore) (h : u.restCore = v.restCore) :
    f u = f v := by
  rw [hf u, h, ← hf v]

/-- An update that leaves the state alone. -/
theorem restCore_congr (f : Conn → Conn) (hf : ∀ c, (f c).restCore = { f c.restCore with log := [] })
    (h : u.restCore = v.restCore) : (f u).restCore = (f v).restCore := by
  rw [hf, h, ← hf]

theorem core_congr (f : Conn → Conn) (hf : ∀ c, (f c).core = { f c.core with log := [] }) (h : u.core = v.core) :
    (f u).core = (f v).core := by
  rw [hf, h, ← hf]

theorem core_eq (h : u.restCore = v.restCore) (hret : u.currentState = .connectDone → u.mysqlRet = v.mysqlRet) :
    u.core = v.core := by
  have hs : u.currentState = v.currentState := read_core _ (fun _ => rfl) h
  have hm : u.core.mysqlRet = v.core.mysqlRet := by
    simp only [Conn.core_mysqlRet, ← hs]
    split
    · exact hret ‹_›
    · rfl
  calc u.core = { u.restCore with mysqlRet := u.core.mysqlRet } := rfl
    _ = { v.restCore with mysqlRet := v.core.mysqlRet } := by rw [h, hm]

/-- The connections the two steps lead to, with the same history since. -/
def Together (u v u' v' : Conn) : Prop :=
  u'.restCore = v'.restCore ∧ ∃ es, u'.log = es ++ u.log ∧ v'.log = es ++ v.log

theorem handleState_together {as : List Answer} {ev : WaitStatus} {x y : Conn} (es : List Ev)
    (hcore : x.core = y.core) (hx : x.log = es ++ u.log) (hy : y.log = es ++ v.log)
    (h : handleState as ev x = .ok u') : ∃ v', handleState as ev y = .ok v' ∧ Together u v u' v' := by
  obtain ⟨v', fs, hv, hcr, hlu, hlv⟩ := handleState_core hcore h
  exact ⟨v', hv, hcr, fs ++ es, by simp [hlu, hx], by simp [hlv, hy]⟩

theorem syncClose_together (h : u.restCore = v.restCore) : Together u v (syncClose u) (syncClose v) := by
  have hunf : unfinished u = unfinished v := read_core _ (fun _ => rfl) h
  rw [syncClose_eq, syncClose_eq]
  refine ⟨read_core (fun d => (syncClosed d).restCore) (fun _ => rfl) h, .call .close {} :: .ready false ::
    ((unfinished u).map fun q => Ev.done (q.setCode (-1) "closed")).reverse, ?_, ?_⟩
  · simp
  · simp [hunf]

theorem startQuery_together {q : Session} {as : List Answer} (h : u.restCore = v.restCore)
    (hs : startQuery q as u = .ok u') : ∃ v', startQuery q as v = .ok v' ∧ Together u v u' v' := by
  have hstate : u.currentState = v.currentState := read_core _ (fun _ => rfl) h
  have hproc : u.inProcess = v.inProcess := read_core _ (fun _ => rfl) h
  simp only [startQuery, pushQuery_currentState, pushQuery_inProcess, ← hstate, ← hproc] at hs ⊢
  split at hs
  · rename_i hk
    rw [if_pos hk]
    have hcore : u.core = v.core := core_eq h (by simp [hk.1])
    exact handleState_together [.accept q] (core_congr (pushQuery q) (fun _ => rfl) hcore) rfl rfl hs
  · rename_i hk
    rw [if_neg hk]
    cases hs
    exact ⟨_, rfl, restCore_congr (pushQuery q) (fun _ => rfl) h, [.accept q], rfl, rfl⟩

theorem wake_together {as : List Answer} {ev : WaitStatus} (h : u.restCore = v.restCore) (hu : Emptied u) {e : FdEvent}
    (he : u.fdEvent = some e) (hs : handleState as ev (disarmed e u) = .ok u') :
    ∃ v', handleState as ev (disarmed e v) = .ok v' ∧ Together u v u' v' := by
  have hcore : u.core = v.core := core_eq h fun hd => by simp [(hu (by rw [hd]; rfl)).2] at he
  exact handleState_together [] (core_congr (disarmed e) (fun _ => rfl) hcore) rfl rfl hs

theorem close_together {as : List Answer} (h : u.restCore = v.restCore) (hs : close as u = .ok u') :
    ∃ v', close as v = .ok v' ∧ Together u v u' v' := by
  have hstate : u.currentState = v.currentState := read_core _ (fun _ => rfl) h
  have hproc : u.inProcess = v.inProcess := read_core _ (fun _ => rfl) h
  have hkick : (v.inProcess.isNone ∧ v.currentState = .queryStart) ↔
      u.inProcess.isNone ∧ u.currentState = .queryStart := by rw [hstate, hproc]
  simp only [close] at hs ⊢
  split at hs
  · rename_i hk
    rw [if_pos (hkick.2 hk)]
    have hcore : u.core = v.core := core_eq h (by simp [hk.2])
    exact handleState_together []
      (core_congr (fun d => { d with scheduleClose := true }) (fun _ => rfl) hcore) rfl rfl hs
  · rename_i hk
    rw [if_neg (mt hkick.1 hk)]
    cases hs
    exact ⟨_, rfl, restCore_congr (fun d => { d with scheduleClose := true }) (fun _ => rfl) h, [], rfl, rfl⟩

theorem runTask_together {i : Nat} {as : List Answer} (h : u.restCore = v.restCore)
    (hret : u.tasks[i]? = some .handleState → u.currentState = .connectDone → u.mysqlRet = v.mysqlRet)
    (hs : runTask i as u = .ok u') : ∃ v', runTask i as v = .ok v' ∧ Together u v u' v' := by
  have htasks : u.tasks = v.tasks := read_core _ (fun _ => rfl) h
  have hdrop : (dropTask i u).restCore = (dropTask i v).restCore := restCore_congr _ (fun _ => rfl) h
  simp only [runTask, ← htasks] at hs ⊢
  split at hs
  · cases hs
    exact ⟨v, rfl, h, [], rfl, rfl⟩
  · rename_i ht
    have hcore : u.core = v.core := core_eq h (hret ht)
    exact handleState_together [] (core_congr (dropTask i) (fun _ => rfl) hcore) rfl rfl hs
  · exact startQuery_together (u := dropTask i u) (v := dropTask i v) hdrop hs
  · cases hs
    exact ⟨_, rfl, syncClose_together (u := dropTask i u) (v := dropTask i v) hdrop⟩

/-- **A step of the one is a step of the other**, with the same history. -/
theorem step_together {op : Op} (h : u.restCore = v.restCore) (hu : Emptied u) (ha : Agree u v op)
    (hs : lts.step u op u') : ∃ v', lts.step v op v' ∧ Together u v u' v' := by
  obtain ⟨he, hs⟩ := hs
  cases op with
  | initConnection opt =>
    cases hs
    exact ⟨_, ⟨trivial, rfl⟩, read_core (fun d => (initConnection opt d).restCore) (fun _ => rfl) h, [_, _], rfl, rfl⟩
  | connect =>
    cases hs
    exact ⟨_, ⟨trivial, rfl⟩, read_core (fun d => (connect d).restCore) (fun _ => rfl) h, [_], rfl, rfl⟩
  | syncConnect a =>
    cases hs
    refine ⟨_, ⟨trivial, rfl⟩, ?_⟩
    have hopt : u.option = v.option := read_core _ (fun _ => rfl) h
    rw [syncConnect_eq, syncConnect_eq]
    cases hr : a.ret with
    | false =>
      exact ⟨restCore_congr (syncRefused a) (fun _ => rfl) h, [.call (.realConnect u.option) a], rfl, by simp [hopt]⟩
    | true =>
      have hdb : u.lastSelectedDb = v.lastSelectedDb := ha.db a rfl hr
      refine ⟨?_, [.ready true, .call (.realConnect u.option) a], rfl, by simp [hopt]⟩
      calc (syncConnected a u).restCore
          = { (syncConnected a u.restCore).restCore with lastSelectedDb := u.lastSelectedDb } := rfl
        _ = { (syncConnected a v.restCore).restCore with lastSelectedDb := v.lastSelectedDb } := by rw [h, hdb]
  | pendingQuery q =>
    cases hs
    have hready : u.ready = v.ready := read_core _ (fun _ => rfl) h
    exact ⟨_, ⟨hready.symm.trans he, rfl⟩, restCore_congr (pendingQuery q) (fun _ => rfl) h, [], rfl, rfl⟩
  | clientClose =>
    cases hs
    exact ⟨_, ⟨trivial, rfl⟩, restCore_congr clientClose (fun _ => rfl) h, [], rfl, rfl⟩
  | runTask i as =>
    have htasks : u.tasks = v.tasks := read_core _ (fun _ => rfl) h
    obtain ⟨v', hv, ht⟩ := runTask_together h ha.ret hs
    exact ⟨v', ⟨show i < v.tasks.length from htasks ▸ he, hv⟩, ht⟩
  | startQuery q as =>
    obtain ⟨v', hv, ht⟩ := startQuery_together h hs
    exact ⟨v', ⟨trivial, hv⟩, ht⟩
  | close as =>
    obtain ⟨v', hv, ht⟩ := close_together h hs
    exact ⟨v', ⟨trivial, hv⟩, ht⟩
  | syncClose =>
    cases hs
    exact ⟨_, ⟨trivial, rfl⟩, syncClose_together h⟩
  | fdWake ev as =>
    have hfd : u.fdEvent = v.fdEvent := read_core _ (fun _ => rfl) h
    obtain ⟨e, hf⟩ := Option.isSome_iff_exists.1 he
    simp only [step, onWaitEventInvoked, resetWaitEvent_some hf] at hs
    obtain ⟨v', hv, ht⟩ := wake_together h hu hf hs
    refine ⟨v', ⟨show v.fdEvent.isSome = true from hfd ▸ he, ?_⟩, ht⟩
    simpa only [step, onWaitEventInvoked, resetWaitEvent_some (hfd ▸ hf)] using hv
  | timerWake as =>
    have hfd : u.fdEvent = v.fdEvent := read_core _ (fun _ => rfl) h
    have htimer : u.timeout = v.timeout := read_core _ (fun _ => rfl) h
    simp only [step, onTimeOut] at hs
    cases hf : u.fdEvent with
    | none => simp [resetWaitEvent, hf] at hs
    | some e =>
      rw [resetWaitEvent_some hf] at hs
      obtain ⟨v', hv, ht⟩ := wake_together h hu hf hs
      refine ⟨v', ⟨show v.timeout.attached = true from htimer ▸ he, ?_⟩, ht⟩
      simpa only [step, onTimeOut, resetWaitEvent_some (hfd ▸ hf)] using hv
  | connectionCheck a =>
    cases hs
    have hcheck : u.checker = v.checker := ha.checker rfl
    refine ⟨_, ⟨hcheck.symm.trans he, rfl⟩, ?_⟩
    rw [doConnectionCheck_eq, doConnectionCheck_eq]
    exact ⟨restCore_congr (checked a) (fun _ => rfl) h, [_, _], rfl, rfl⟩

theorem Agree.symm {op : Op} (h : u.restCore = v.restCore) (ha : Agree u v op) : Agree v u op := by
  have hstate : u.currentState = v.currentState := read_core _ (fun _ => rfl) h
  have htask : op.task u = op.task v := read_core (fun c => op.task c) (fun _ => by cases op <;> rfl) h
  exact ⟨fun a hop hr => (ha.db a hop hr).symm, fun ht hs => (ha.ret (htask ▸ ht) (hstate ▸ hs)).symm,
    fun hop => (ha.checker hop).symm⟩

end

/-! ## Runs -/

theorem handleState_emptied {as : List Answer} {ev : WaitStatus} {c c' : Conn} (h : handleState as ev c = .ok c') :
    Emptied c' := fun hs => by
  obtain ⟨d, rfl⟩ := handleState_isClosed h hs
  exact ⟨rfl, rfl⟩

theorem Emptied.step {c c' : Conn} {op : Op} (hc : Emptied c) (h : lts.step c op c') : Emptied c' := by
  cases lts_stepped h with
  | init | connect | syncConnected => exact fun hs => by simp [State.isClosed] at hs
  | syncRefused | pendingQuery | clientClose | pushed | close | checked => exact hc
  | kicked _ _ _ hh | handled _ hh | closeKicked _ _ hh | woken _ _ hh => exact handleState_emptied hh
  | syncClosed => exact fun _ => ⟨rfl, rfl⟩

theorem emptied_run {client : Bool} {errNo : Int} {st : State} {opt : MysqlOptions} {ops : List Op} {c : Conn}
    (h : lts.Run (opened client errNo st opt) ops c) : Emptied c :=
  h.invariant (fun _ _ _ hc hs => hc.step hs) fun hs => by simp [opened, State.isClosed] at hs

/-- Whatever `u` can run, `v` can, with the same history since and to the same readiness. -/
def Mimics (ops : List Op) (u v : Conn) : Prop :=
  ∀ u', lts.Run u ops u' → ∃ v', lts.Run v ops v' ∧ since u u' = since v v' ∧ u'.ready = v'.ready

theorem mimics_of_restCore {ops : List Op} {u v : Conn} {g : Conn → Conn → Op → Prop}
    (hg : ∀ s t op, s.restCore = t.restCore → g s t op → Agree s t op) (h : u.restCore = v.restCore) (hu : Emptied u)
    (ha : lts.Along g ops u v) : Mimics ops u v := by
  intro u' hr
  have hstep : ∀ s t a s', (s.restCore = t.restCore ∧ Emptied s ∧ ∃ es, s.log = es ++ u.log ∧ t.log = es ++ v.log) →
      g s t a → lts.step s a s' → ∃ t', lts.step t a t' ∧
        (s'.restCore = t'.restCore ∧ Emptied s' ∧ ∃ es, s'.log = es ++ u.log ∧ t'.log = es ++ v.log) := by
    rintro s t a s' ⟨hcore, he, es, hs, ht⟩ ha hst
    obtain ⟨t', ht', hcore', fs, hs', hlt'⟩ := step_together hcore he (hg s t a hcore ha) hst
    exact ⟨t', ht', hcore', he.step hst, fs ++ es, by simp [hs', hs], by simp [hlt', ht]⟩
  obtain ⟨v', hv, hcore, -, es, hlu, hlv⟩ := hr.along hstep v ⟨h, hu, [], rfl, rfl⟩ ha
  exact ⟨v', hv, by rw [since_eq hlu, since_eq hlv], read_core _ (fun _ => rfl) hcore⟩

/-- `InitConnection` on `c` and on a new connection, and then any operations whose steps all agree: the two behave
the same. -/
def LikeFresh (c : Conn) : Prop :=
  ∀ opt st ops, lts.Along Agree ops (initConnection opt c) (opened c.client c.errNo st opt) →
    Mimics ops (initConnection opt c) (opened c.client c.errNo st opt) ∧
      Mimics ops (opened c.client c.errNo st opt) (initConnection opt c)

/-- What a close leaves, and `InitConnection` does not reset, is as in a new connection. -/
structure Reset (c : Conn) : Prop where
  ready         : c.ready = false
  queryList     : c.queryList = []
  scheduleClose : c.scheduleClose = false

instance (c : Conn) : Decidable (Reset c) :=
  decidable_of_iff (c.ready = false ∧ c.queryList = [] ∧ c.scheduleClose = false)
    ⟨fun h => ⟨h.1, h.2.1, h.2.2⟩, fun h => ⟨h.ready, h.queryList, h.scheduleClose⟩⟩

theorem Reset.likeFresh {c : Conn} (h : Reset c) (hs : c.currentState.isClosed = true) (hc : Emptied c)
    (ht : c.tasks = []) : LikeFresh c := by
  intro opt st ops ha
  obtain ⟨hp, hf⟩ := hc hs
  have hcore : (initConnection opt c).restCore = (opened c.client c.errNo st opt).restCore := by
    simp [opened, Conn.new, Conn.restCore, Conn.core, initConnection, State.usesDb, State.usesResult, State.inSession,
      h.ready, h.queryList, h.scheduleClose, hp, hf, ht]
  have hinit : ∀ d, Emptied (initConnection opt d) := fun d hd => by simp [State.isClosed] at hd
  exact ⟨mimics_of_restCore (fun _ _ _ _ ha => ha) hcore (hinit c) ha,
    mimics_of_restCore (fun _ _ _ hst ha => Agree.symm hst.symm ha) hcore.symm (hinit _) ha.swap⟩

/-! ## What survives shows -/

theorem syncClose_since (c : Conn) : since c (syncClose c) = .call .close {} :: .ready false ::
    ((unfinished c).map fun q => Ev.done (q.setCode (-1) "closed")).reverse := by
  rw [syncClose_eq]
  exact since_eq (by simp)

/-- A connect, answered until it has closed again. -/
def reopening : List Answer := [{ ret := true }, {}, {}, {}, {}]

/-- At the first `CONNECTION_IDLE` it shows whether a close is scheduled. -/
theorem handleState_reopening {c : Conn} (hs : c.currentState = .connectStart) (hq : c.queryList = []) :
    ∃ c', handleState reopening {} c = .ok c' ∧ c'.ready = !c.scheduleClose := by
  cases hsc : c.scheduleClose <;> cases hcl : c.client <;>
    simp [reopening, handleState, handleStatePass, handleStateConnect, hs, goNextState, storeRet, handleStateIDLE,
      hq, hsc, hcl, WaitStatus.isZero, cleanUp_eq]

/-- `Connect`, and the `HandleState` it posts. -/
def reopen : List Op := [.connect, .runTask 0 reopening]

theorem run_reopen {c : Conn} (hq : c.queryList = []) (ht : c.tasks = []) :
    ∃ c', lts.Run c reopen c' ∧ c'.ready = !c.scheduleClose := by
  obtain ⟨c', hh, hr⟩ := @handleState_reopening (dropTask 0 (connect c)) rfl hq
  refine ⟨c', .cons ⟨trivial, rfl⟩ (.single ⟨?_, ?_⟩), hr⟩
  · simp [enabled, ht]
  · simpa [step, runTask, ht] using hh

theorem along_reopen (u v : Conn) : lts.Along Agree reopen u v :=
  ⟨⟨by simp, by simp [Op.task], by simp [Op.checks]⟩, fun u' v' hu hv =>
    ⟨⟨by simp, fun _ hs => by cases hu.2; simp at hs, by simp [Op.checks]⟩, fun _ _ _ _ => trivial⟩⟩

theorem LikeFresh.reset {c : Conn} (h : LikeFresh c) (hs : c.currentState.isClosed = true) (hc : Emptied c)
    (ht : c.tasks = []) : Reset c := by
  have hready : c.ready = false := by
    obtain ⟨v', hv, -, hr⟩ := (h {} .stateNone [] trivial).1 _ (.nil _)
    cases hv
    exact hr
  have hqueue : c.queryList = [] := by
    have ha : lts.Along Agree [.syncClose] (initConnection {} c) (opened c.client c.errNo .stateNone {}) :=
      ⟨⟨by simp, by simp [Op.task], by simp [Op.checks]⟩, fun _ _ _ _ => trivial⟩
    obtain ⟨v', hv, hsince, -⟩ := (h {} .stateNone _ ha).1 _ (.single ⟨trivial, rfl⟩)
    obtain rfl := hv.unique lts_det (.single ⟨trivial, rfl⟩)
    rw [syncClose_since, syncClose_since] at hsince
    simpa [unfinished, opened, Conn.new, (hc hs).1] using congrArg List.length hsince
  have hclose : c.scheduleClose = false := by
    obtain ⟨u', hu, hur⟩ := @run_reopen (initConnection {} c) hqueue ht
    obtain ⟨v', hv, -, hvr⟩ := (h {} .stateNone reopen (along_reopen _ _)).1 _ hu
    obtain ⟨w, hw, hwr⟩ := @run_reopen (opened c.client c.errNo .stateNone {}) rfl rfl
    obtain rfl := hv.unique lts_det hw
    simpa [opened, Conn.new, hur, hwr] using hvr
  exact ⟨hready, hqueue, hclose⟩

/-- **Reconnecting is like connecting anew**, after any run that has ended closed with no task pending, exactly if
`ready_`, `query_list_` and `schedule_close_` are what a new connection has. -/
theorem reconnect_like_fresh (client : Bool) (errNo : Int) (st : State) (opt : MysqlOptions) (ops : List Op) (c : Conn)
    (h : lts.Run (opened client errNo st opt) ops c) (hs : c.currentState.isClosed = true) (ht : c.tasks = []) :
    LikeFresh c ↔ Reset c :=
  ⟨fun hl => hl.reset hs (emptied_run h) ht, fun hr => hr.likeFresh hs (emptied_run h) ht⟩

theorem reconnect_like_fresh_run : LikeFresh (syncClose syncOpened) :=
  (reconnect_like_fresh true 0 .stateNone {} [.syncConnect { ret := true }, .syncClose] (syncClose syncOpened)
    (.cons ⟨trivial, rfl⟩ (.single ⟨trivial, rfl⟩)) rfl rfl).2 (by decide)

/-- **A scheduled close survives the close**: the connection closes again as soon as it has reconnected. -/
theorem reconnect_closes_again :
    ∃ c, lts.Run (opened true 0 .stateNone {}) [.syncConnect { ret := true }, .close [], .syncClose] c ∧
      c.currentState.isClosed = true ∧ c.tasks = [] ∧
      ¬ Mimics reopen (opened true 0 .stateNone {}) (initConnection {} c) := by
  refine ⟨syncClose { syncOpened with scheduleClose := true },
    .cons ⟨trivial, rfl⟩ (.cons ⟨trivial, rfl⟩ (.single ⟨trivial, rfl⟩)), rfl, rfl, fun h => ?_⟩
  obtain ⟨u', hu, hur⟩ := @run_reopen (opened true 0 .stateNone {}) rfl rfl
  obtain ⟨v', hv, -, hr⟩ := h u' hu
  obtain ⟨w, hw, hwr⟩ :=
    @run_reopen (initConnection {} (syncClose { syncOpened with scheduleClose := true })) rfl rfl
  obtain rfl := hv.unique lts_det hw
  rw [hur, hwr] at hr
  exact absurd hr (by decide)

end LtApp.Mysql
