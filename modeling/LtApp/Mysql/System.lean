import LtApp.Base.Lts
import LtApp.Mysql.Pass

/-!
# A connection and its event loop

| here | there |
| --- | --- |
| `initConnection`, `connect`, `syncConnect`, `startQuery`, `close`, `syncClose`, `doConnectionCheck` | the functions of these names (`mysql_async_con.cc:465-567`) |
| `onTimeOut`, `onWaitEventInvoked` | `:392`, `:397` |
| `pendingQuery`, `clientClose`     | what `MysqlAsyncClientImpl::PendingQuery` and `Close` post to the loop (`mysql_client_impl.cc:27-42`) |
| `Op`, `step`, `lts`               | everything that can happen to the connection, each handler running to its end |

Handlers run one at a time, on the loop's thread. The order of operations is unconstrained: the loop may
run the posted tasks in any order, the timers and the fd may fire at any moment, and `StartQuery`, `Close`
and `SyncClose` may also be called directly on the loop's thread. An installed fd event may be delivered
even while neither reading nor writing is enabled (error and hang-up).
-/

namespace LtApp.Mysql

/-! ## The public functions -/

/-- The constructor: `err_no_` and `current_state_` are not initialised. -/
def Conn.new (client : Bool) (errNo : Int) (st : State) : Conn :=
  { errNo := errNo, currentState := st, client := client }

/-- `InitConnection` (`:474`). The three time-outs of `mysql_options` are the query time-out in seconds, at
least one. -/
@[simps] def initConnection (opt : MysqlOptions) (c : Conn) : Conn :=
  { c with
    option := opt
    timeout := ⟨opt.queryTimeout, false⟩
    currentState := .connectInit
    log := .call (.options (max (opt.queryTimeout / 1000) 1)) {} :: .call (.init opt) {} :: c.log }

/-- `Connect` (`:528`). -/
@[simps] def connect (c : Conn) : Conn :=
  { c with
    currentState := .connectStart
    tasks := c.tasks ++ [.handleState]
    checker := true
    log := .connect :: c.log }

/-- `SyncConnect` (`:534`). -/
def syncConnect (a : Answer) (c : Conn) : Conn :=
  let c := { c.call (.realConnect c.option) a with mysqlRet := a.ret }
  if a.ret = false then c
  else { (c.setReady true).toState .connectionIdle with checker := true }

/-- The push in `StartQuery`. -/
@[simps] def pushQuery (q : Session) (c : Conn) : Conn :=
  { c with queryList := c.queryList ++ [q], log := .accept q :: c.log }

/-- `StartQuery` (`:465`). -/
def startQuery (q : Session) (as : List Answer) (c : Conn) : Except Stop Conn :=
  let c := pushQuery q c
  if c.currentState = .connectionIdle ∧ c.inProcess.isNone then handleState as {} c else .ok c

/-- `Close` (`:550`). -/
def close (as : List Answer) (c : Conn) : Except Stop Conn :=
  let c := { c with scheduleClose := true }
  if c.inProcess.isNone ∧ c.currentState = .queryStart then handleState as {} c else .ok c

/-- `SyncClose` (`:559`). -/
def syncClose (c : Conn) : Conn := (((cleanUp c).setReady false).call .close {}).toState .closeDone

/-- `do_connection_check` (`:494`), the tick of `checker_`. -/
def doConnectionCheck (a : Answer) (c : Conn) : Conn :=
  let c := (c.call .ping a).setReady (a.err = 0)
  if a.err = 0 then c else { c with scheduleClose := true }

/-- `OnTimeOut` (`:392`). -/
def onTimeOut (as : List Answer) (c : Conn) : Except Stop Conn :=
  match resetWaitEvent c with
  | none => .error .aborted
  | some c => handleState as { timeout := true } c

/-- `OnWaitEventInvoked` (`:397`). -/
def onWaitEventInvoked (ev : LtEvent) (as : List Answer) (c : Conn) : Except Stop Conn :=
  match resetWaitEvent c with
  | none => .error .aborted
  | some c => handleState as (ltEvToMysqlStatus ev) c

@[simps] def post (t : Task) (c : Conn) : Conn := { c with tasks := c.tasks ++ [t] }

/-- The loop takes its `i`-th pending task. -/
@[simps] def dropTask (i : Nat) (c : Conn) : Conn := { c with tasks := c.tasks.eraseIdx i }

/-- `MysqlAsyncClientImpl::PendingQuery` once `get_client` has found this connection ready. -/
def pendingQuery (q : Session) (c : Conn) : Conn := post (.startQuery q) c

/-- `MysqlAsyncClientImpl::Close`, for this connection. -/
def clientClose (c : Conn) : Conn := post .syncClose c

/-- A posted closure runs. -/
def runTask (i : Nat) (as : List Answer) (c : Conn) : Except Stop Conn :=
  match c.tasks[i]? with
  | none => .ok c
  | some .handleState => handleState as {} (dropTask i c)
  | some (.startQuery q) => startQuery q as (dropTask i c)
  | some .syncClose => .ok (syncClose (dropTask i c))

/-! ## Operations -/

/-- What can happen to a connection. Lists of `Answer`s feed the `HandleState` the operation runs. -/
inductive Op
  | initConnection (opt : MysqlOptions)
  | connect
  | syncConnect (a : Answer)
  | pendingQuery (q : Session)
  | clientClose
  | runTask (i : Nat) (as : List Answer)
  | startQuery (q : Session) (as : List Answer)
  | close (as : List Answer)
  | syncClose
  | fdWake (ev : LtEvent) (as : List Answer)
  | timerWake (as : List Answer)
  | connectionCheck (a : Answer)
deriving DecidableEq, Repr

/-- The answers an operation feeds to `HandleState`. -/
def Op.answers : Op → List Answer
  | .runTask _ as | .startQuery _ as | .close as | .fdWake _ as | .timerWake as => as
  | _ => []

/-- What libmysql documents of its wait statuses, for the answers of this operation. -/
def Op.Sound (op : Op) : Prop := ∀ a ∈ op.answers, a.status.Sound

instance (op : Op) : Decidable op.Sound := by unfold Op.Sound; infer_instance

/-- When an operation can happen. -/
def enabled (c : Conn) : Op → Prop
  | .pendingQuery _ => c.ready = true
  | .runTask i _ => i < c.tasks.length
  | .fdWake _ _ => c.fdEvent.isSome = true
  | .timerWake _ => c.timeout.attached = true
  | .connectionCheck _ => c.checker = true
  | _ => True

instance (c : Conn) (op : Op) : Decidable (enabled c op) := by
  cases op <;> unfold enabled <;> infer_instance

def step (c : Conn) : Op → Except Stop Conn
  | .initConnection opt => .ok (initConnection opt c)
  | .connect => .ok (connect c)
  | .syncConnect a => .ok (syncConnect a c)
  | .pendingQuery q => .ok (pendingQuery q c)
  | .clientClose => .ok (clientClose c)
  | .runTask i as => runTask i as c
  | .startQuery q as => startQuery q as c
  | .close as => close as c
  | .syncClose => .ok (syncClose c)
  | .fdWake ev as => onWaitEventInvoked ev as c
  | .timerWake as => onTimeOut as c
  | .connectionCheck a => .ok (doConnectionCheck a c)

/-- The connection between handler invocations. A handler that aborts ends the run. -/
def lts : Lts Conn Op := ⟨fun c op c' => enabled c op ∧ step c op = .ok c'⟩

theorem lts_det (c : Conn) (op : Op) (d d' : Conn) (h : lts.step c op d) (h' : lts.step c op d') : d = d' :=
  Except.ok.inj (h.2.symm.trans h'.2)

/-- The step, where the operation can happen and returns. -/
def tryStep (c : Conn) (op : Op) : Option Conn := if enabled c op then (step c op).toOption else none

theorem tryStep_step (c : Conn) (op : Op) (c' : Conn) (h : tryStep c op = some c') : lts.step c op c' := by
  unfold tryStep at h
  split at h
  · rename_i he
    cases hs : step c op with
    | error e => simp [hs, Except.toOption] at h
    | ok d => exact ⟨he, by simpa [hs, Except.toOption] using h⟩
  · cases h

theorem exists_run {g : Conn → Op → Prop} [∀ c op, Decidable (g c op)] {P : Conn → Prop} [DecidablePred P]
    {ops : List Op} {c : Conn} (h : (Lts.exec tryStep g ops c).any (fun c' => decide (P c')) = true) :
    ∃ c', (lts.restrict g).Run c ops c' ∧ P c' :=
  Lts.exists_run_of_exec tryStep_step h

/-- A new object after `InitConnection`. -/
def opened (client : Bool) (errNo : Int) (st : State) (opt : MysqlOptions) : Conn :=
  initConnection opt (Conn.new client errNo st)

/-! ## The cases of a step -/

/-- The connection after `SyncConnect` failed. -/
@[simps] def syncRefused (a : Answer) (c : Conn) : Conn :=
  { c with mysqlRet := false, log := .call (.realConnect c.option) a :: c.log }

/-- The connection after `SyncConnect` succeeded. -/
@[simps] def syncConnected (a : Answer) (c : Conn) : Conn :=
  { c with
    mysqlRet := true
    ready := true
    currentState := .connectionIdle
    checker := true
    log := .ready true :: .call (.realConnect c.option) a :: c.log }

theorem syncConnect_eq (a : Answer) (c : Conn) :
    syncConnect a c = if a.ret then syncConnected a c else syncRefused a c := by
  cases ha : a.ret <;>
    simp [syncConnect, ha, Conn.call, syncRefused, syncConnected, Conn.setReady, Conn.toState]

/-- The connection after `SyncClose`. -/
@[simps] def syncClosed (c : Conn) : Conn :=
  { cleaned c with
    ready := false
    currentState := .closeDone
    log := .call .close {} :: .ready false :: (cleaned c).log }

theorem syncClose_eq (c : Conn) : syncClose c = syncClosed c := by
  simp [syncClose, cleanUp_eq, syncClosed, Conn.setReady, Conn.call, Conn.toState]

/-- The connection after a connection check. -/
@[simps] def checked (a : Answer) (c : Conn) : Conn :=
  { c with
    ready := a.err = 0
    scheduleClose := c.scheduleClose || !(a.err = 0 : Bool)
    log := .ready (a.err = 0) :: .call .ping a :: c.log }

theorem doConnectionCheck_eq (a : Answer) (c : Conn) : doConnectionCheck a c = checked a c := by
  unfold doConnectionCheck checked
  by_cases h : a.err = 0 <;> simp [h, Conn.setReady, Conn.call]

/-- A wake-up handler has disarmed the events. -/
@[simps] def disarmed (e : FdEvent) (c : Conn) : Conn :=
  { c with fdEvent := some { e with reading := false, writing := false },
           timeout := { c.timeout with attached := false } }

theorem resetWaitEvent_some {c : Conn} {e : FdEvent} (h : c.fdEvent = some e) :
    resetWaitEvent c = some (disarmed e c) := by
  simp [resetWaitEvent, h, disarmed]

theorem resetWaitEvent_eq {c c' : Conn} (h : resetWaitEvent c = some c') :
    ∃ e, c.fdEvent = some e ∧ c' = disarmed e c := by
  cases hf : c.fdEvent with
  | none => simp [resetWaitEvent, hf] at h
  | some e =>
    rw [resetWaitEvent_some hf, Option.some.injEq] at h
    exact ⟨e, rfl, h.symm⟩

/-- The task an operation runs: one called directly, or the posted one the loop takes. -/
def Op.task (c : Conn) : Op → Option Task
  | .startQuery q _ => some (.startQuery q)
  | .syncClose => some .syncClose
  | .runTask i _ => c.tasks[i]?
  | _ => none

/-- What `mysql_real_connect` answers a `SyncConnect`. -/
def Op.syncAnswer : Op → Option Answer
  | .syncConnect a => some a
  | _ => none

/-- A wake-up, by the fd or by the timer. -/
def Op.wakes : Op → Bool
  | .fdWake _ _ | .timerWake _ => true
  | _ => false

theorem Op.task_of_wakes {c : Conn} {op : Op} (h : op.wakes = true) : op.task c = none := by
  cases op <;> first | rfl | simp [Op.wakes] at h

/-- The operation goes on with the state machine where it stands. -/
def Op.resumes (c : Conn) (op : Op) : Bool := op.wakes || op.task c = some .handleState

/-- The tasks still posted once the operation's own has been taken. -/
def Op.remaining (c : Conn) : Op → List Task
  | .runTask i _ => c.tasks.eraseIdx i
  | _ => c.tasks

/-- The connection an operation's task runs on. -/
@[simps] def Op.target (c : Conn) (op : Op) : Conn := { c with tasks := op.remaining c }

/-- Everything a step can do. -/
inductive Stepped (c : Conn) : Op → Conn → Prop
  | init (opt : MysqlOptions) : Stepped c (.initConnection opt) (initConnection opt c)
  | connect : Stepped c .connect (connect c)
  | syncRefused {a : Answer} : a.ret = false → Stepped c (.syncConnect a) (syncRefused a c)
  | syncConnected {a : Answer} : a.ret = true → Stepped c (.syncConnect a) (syncConnected a c)
  | pendingQuery (q : Session) : c.ready = true → Stepped c (.pendingQuery q) (post (.startQuery q) c)
  | clientClose : Stepped c .clientClose (post .syncClose c)
  /-- A session is pushed and left in the queue. -/
  | pushed {op : Op} {q : Session} : op.task c = some (.startQuery q) →
    ¬ (c.currentState = .connectionIdle ∧ c.inProcess = none) → Stepped c op (pushQuery q (op.target c))
  /-- A session is pushed and `HandleState` is run. -/
  | kicked {op : Op} {q : Session} {c' : Conn} : op.task c = some (.startQuery q) →
    c.currentState = .connectionIdle → c.inProcess = none →
    handleState op.answers {} (pushQuery q (op.target c)) = .ok c' → Stepped c op c'
  /-- A posted `HandleState` runs. -/
  | handled {op : Op} {c' : Conn} : op.task c = some .handleState →
    handleState op.answers {} (op.target c) = .ok c' → Stepped c op c'
  | syncClosed {op : Op} : op.task c = some .syncClose → Stepped c op (syncClosed (op.target c))
  | close (as : List Answer) : ¬ (c.inProcess = none ∧ c.currentState = .queryStart) →
    Stepped c (.close as) { c with scheduleClose := true }
  | closeKicked {as : List Answer} {c' : Conn} : c.inProcess = none → c.currentState = .queryStart →
    handleState as {} { c with scheduleClose := true } = .ok c' → Stepped c (.close as) c'
  | woken {op : Op} {e : FdEvent} {ev : WaitStatus} {c' : Conn} : op.wakes = true → c.fdEvent = some e →
    handleState op.answers ev (disarmed e c) = .ok c' → Stepped c op c'
  | checked {a : Answer} : c.checker = true → Stepped c (.connectionCheck a) (checked a c)

theorem startQuery_stepped {c c' : Conn} {op : Op} {q : Session} (ht : op.task c = some (.startQuery q))
    (h : startQuery q op.answers (op.target c) = .ok c') : Stepped c op c' := by
  unfold startQuery at h
  simp only [pushQuery_currentState, pushQuery_inProcess, Op.target_currentState, Op.target_inProcess,
    Option.isNone_iff_eq_none] at h
  split at h
  · rename_i hk; exact .kicked ht hk.1 hk.2 h
  · rename_i hk
    simp only [Except.ok.injEq] at h
    exact h ▸ .pushed ht hk

/-- **Every step is one of the cases.** -/
theorem lts_stepped {c c' : Conn} {op : Op} (h : lts.step c op c') : Stepped c op c' := by
  obtain ⟨he, h⟩ := h
  cases op <;> simp only [step, Except.ok.injEq] at h
  case initConnection opt => exact h ▸ .init opt
  case connect => exact h ▸ .connect
  case syncConnect a =>
    rw [syncConnect_eq] at h
    cases ha : a.ret with
    | false => rw [ha] at h; exact h ▸ .syncRefused ha
    | true => rw [ha] at h; exact h ▸ .syncConnected ha
  case pendingQuery q => exact h ▸ .pendingQuery q he
  case clientClose => exact h ▸ .clientClose
  case runTask i as =>
    unfold runTask at h
    split at h
    · rename_i hn
      have he : i < c.tasks.length := he
      have := List.getElem?_eq_none_iff.1 hn; omega
    · rename_i ht; exact @Stepped.handled c (.runTask i as) c' ht h
    · rename_i q ht; exact @startQuery_stepped c c' (.runTask i as) q ht h
    · rename_i ht
      simp only [Except.ok.injEq] at h
      exact h ▸ syncClose_eq _ ▸ @Stepped.syncClosed c (.runTask i as) ht
  case startQuery q as => exact @startQuery_stepped c c' (.startQuery q as) q rfl h
  case close as =>
    unfold close at h
    simp only [Option.isNone_iff_eq_none] at h
    split at h
    · rename_i hk; exact .closeKicked hk.1 hk.2 h
    · rename_i hk
      simp only [Except.ok.injEq] at h
      exact h ▸ .close as hk
  case syncClose => exact h ▸ syncClose_eq _ ▸ @Stepped.syncClosed c .syncClose rfl
  case fdWake ev as =>
    unfold onWaitEventInvoked at h
    split at h
    · simp at h
    · rename_i u hu
      obtain ⟨e, hf, rfl⟩ := resetWaitEvent_eq hu
      exact .woken rfl hf h
  case timerWake as =>
    unfold onTimeOut at h
    split at h
    · simp at h
    · rename_i u hu
      obtain ⟨e, hf, rfl⟩ := resetWaitEvent_eq hu
      exact .woken rfl hf h
  case connectionCheck a => exact h ▸ doConnectionCheck_eq a c ▸ .checked he

end LtApp.Mysql
