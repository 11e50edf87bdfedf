import LtApp.Mysql.System

/-!
# Finish callbacks that call the connection back

In `System` a finish callback does nothing. Here it may call `StartQuery`, `Close` and `SyncClose` on the connection
that is completing its session, and these calls run in the middle of the handler that has called `OnQueryDone`.

| here | there |
| --- | --- |
| `Act`                 | what a callback calls |
| `Rig`                 | the connection, the sessions whose `finish_callback_` is null, and what the callbacks still to come do |
| `completing`          | the passes of `HandleState` that reach `DoneCurrentQuery`, up to its call of `OnQueryDone` |
| `Job.onQueryDone`     | `QuerySession::OnQueryDone` (`query_session.cc:43`) |
| `Job.handleState`, `Job.cleanUp`, `Job.flush` | `HandleState`, `clean_up` and the loop at its end (`mysql_async_con.cc:236`, `:505`, `:521`) |
| `perform`             | a function of the connection, with everything it calls |
| `operate`, `rigged`   | the operations of `System`, their callbacks calling back |

`perform` counts the depth of calls: a callback may call a function that is running. `Returns` lists what it can do.
-/

namespace LtApp.Mysql

/-- What a finish callback calls on the connection. -/
inductive Act
  | startQuery (q : Session)
  | close
  | syncClose
deriving DecidableEq, Repr

/-- What is recorded of an operation. -/
inductive Mark
  /-- The finish callback of the session is invoked. -/
  | invoke (id : Nat)
  /-- A `SyncClose` called by a callback has returned. -/
  | closed
  /-- `HandleState` has called libmysql. -/
  | call
  /-- `HandleState` has assigned `current_state_`. -/
  | assign (s : State)
  /-- The operation is over. -/
  | finished
deriving DecidableEq, Repr

/-- The connection, its callbacks, and what has been recorded, newest first. The code reads `conn` and `cleared`. -/
structure Rig where
  conn    : Conn
  /-- The sessions whose `finish_callback_` has been set to null. -/
  cleared : List Nat := []
  /-- What libmysql will answer. -/
  answers : List Answer := []
  /-- What the callbacks invoked next will call, in the order they are invoked. -/
  scripts : List (List Act) := []
  /-- How many nodes of `query_list_` have been freed. -/
  freed   : Nat := 0
  trail   : List Mark := []
deriving DecidableEq, Repr

namespace Rig

@[simps] def mark (m : Mark) (r : Rig) : Rig := { r with trail := m :: r.trail }

/-- The connection changes, by a function that calls no callback. -/
@[simps] def on (f : Conn → Conn) (r : Rig) : Rig := { r with conn := f r.conn }

/-- What libmysql will answer from now on. -/
@[simps] def feed (as : List Answer) (r : Rig) : Rig := { r with answers := as }

/-- `if (finish_callback_)`. -/
def pending (r : Rig) (q : Session) : Prop := q.finishCallback = true ∧ q.id ∉ r.cleared

instance (r : Rig) (q : Session) : Decidable (r.pending q) := by unfold pending; infer_instance

/-- How many calls of libmysql a history holds. -/
def calls (log : List Ev) : Nat := log.countP fun | .call _ _ => true | _ => false

/-- A part of a pass that calls no callback leads to `c`. -/
@[simps] def pass (c : Conn) (r : Rig) : Rig :=
  { r with
    conn := c
    freed := r.freed + (r.conn.queryList.length - c.queryList.length)
    trail := if calls r.conn.log < calls c.log then .call :: r.trail else r.trail }

/-- The pass has assigned `current_state_`. -/
@[simps!] def assigned (r : Rig) : Rig := r.mark (.assign r.conn.currentState)

end Rig

/-! ## The passes that complete a session -/

/-- `DoneCurrentQuery(code, message)` up to `OnQueryDone`: the session as it is then, the connection, and the state
assigned once `DoneCurrentQuery` has returned. -/
def handOver (a : Answer) (code : Int) (message : Option String) (next : State) (c : Conn) :
    Option (Session × Conn × State) :=
  c.inProcess.map fun q =>
    let q := doneSession a code message q
    (q, { c.call .affectedRows a with inProcess := some q }, next)

/-- The error branch. -/
def handOverFailed (a : Answer) (code : Int) (c : Conn) : Option (Session × Conn × State) :=
  handOver a code (some a.error) (if isFatalError code then .closeStart else .connectionIdle) (c.call .error a)

/-- The end of the rows. -/
def handOverFetched (a : Answer) (q : Session) (r : MysqlRes) (c : Conn) : Option (Session × Conn × State) :=
  let c := c.call .errno a
  let c := if a.errno ≠ 0 then c.call .error a else c
  let c := { c.call (.numRows r) a with inProcess := some (q.setResultRows a.numRows) }
  handOver a a.errno (if a.errno ≠ 0 then some a.error else none) .connectionIdle (c.call (.freeResult r) a)

/-- The pass of `HandleState` calls `DoneCurrentQuery`. -/
def completing (a : Answer) (inEvent : WaitStatus) (c : Conn) : Option (Session × Conn × State) :=
  match c.currentState, c.inProcess with
  | .selectDbStart, some q =>
    if a.err ≠ 0 then handOverFailed a a.err (c.call (.selectDbStart (cStr q.dbName)) a) else none
  | .selectDbWait, some _ =>
    if a.err ≠ 0 then handOverFailed a a.err (c.call (.selectDbCont inEvent) a) else none
  | .selectDbDone, some q =>
    if q.query.isEmpty then
      handOver a 0 (some "db change success") .connectionIdle { c with lastSelectedDb := q.dbName }
    else none
  | .queryStart, some q =>
    if q.query.isEmpty then handOver a (-9999) (some "empty query") .connectionIdle c
    else if a.err ≠ 0 then handOverFailed a a.err (c.call (.realQueryStart q) a)
    else none
  | .queryWait, some _ =>
    if c.errNo ≠ 0 then handOverFailed a a.err (c.call (.realQueryCont inEvent) a) else none
  | .queryResultReady, some _ =>
    match a.res with
    | none => handOverFailed a a.errno ({ c.call .useResult a with result := none }.call .errno a)
    | some _ => none
  | .fetchRowResultReady, some q =>
    match c.result, c.resultRow with
    | some r, none => handOverFetched a q r c
    | _, _ => none
  | _, _ => none

/-- `in_process_.reset()`. -/
@[simps] def resetInProcess (c : Conn) : Conn := { c with inProcess := none }

/-- `OnQueryDone` has returned, and no callback has done anything: `in_process_` is reset and the state assigned. -/
def settled (q : Session) (next : State) (c : Conn) : Conn := (resetInProcess (c.onQueryDone q)).toState next

section
variable {a : Answer} {c d : Conn} {q : Session} {next n : State} {code : Int} {m : Option String}

theorem handOver_spec (h : handOver a code m next c = some (q, d, n)) :
    d.inProcess = some q ∧ (doneCurrentQuery a code m c).toState next = settled q n d := by
  obtain ⟨q₀, hq, h⟩ := Option.map_eq_some_iff.1 h
  simp only [Prod.mk.injEq] at h
  obtain ⟨rfl, rfl, rfl⟩ := h
  exact ⟨rfl, by rw [doneCurrentQuery_eq hq]; rfl⟩

theorem handOverFailed_spec (h : handOverFailed a code c = some (q, d, n)) :
    d.inProcess = some q ∧ failQuery a code c = .goOn (settled q n d) := by
  obtain ⟨hd, hq⟩ := handOver_spec h
  exact ⟨hd, congrArg Turn.goOn hq⟩

/-- **The pass is the one of `handleStatePass`**, if the callback does nothing. -/
theorem completing_spec {ev : WaitStatus} (h : completing a ev c = some (q, d, n)) :
    d.inProcess = some q ∧ handleStatePass a ev c = .goOn (settled q n d) := by
  unfold completing at h
  split at h
  case h_1 q₀ hs hp =>
    split at h
    · rename_i he
      simpa [handleStatePass, handleStateSelectDB, hs, hp, he] using handOverFailed_spec h
    · cases h
  case h_2 q₀ hs hp =>
    split at h
    · rename_i he
      simpa [handleStatePass, handleStateSelectDB, hs, hp, he] using handOverFailed_spec h
    · cases h
  case h_3 q₀ hs hp =>
    split at h
    · rename_i he
      simpa [handleStatePass, handleStateSelectDB, hs, hp, he] using handOver_spec h
    · cases h
  case h_4 q₀ hs hp =>
    split at h
    · rename_i he
      simpa [handleStatePass, hs, hp, he] using handOver_spec h
    · rename_i hq
      split at h
      · rename_i he
        simpa [handleStatePass, hs, hp, hq, he] using handOverFailed_spec h
      · cases h
  case h_5 q₀ hs hp =>
    split at h
    · rename_i he
      simpa [handleStatePass, hs, hp, he] using handOverFailed_spec h
    · cases h
  case h_6 q₀ hs hp =>
    split at h
    · rename_i hr
      simpa [handleStatePass, hs, hp, hr] using handOverFailed_spec h
    · cases h
  case h_7 q₀ hs hp =>
    split at h
    · rename_i r hr hrow
      simpa [handleStatePass, hs, hp, hr, hrow, fetchEnd] using handOver_spec h
    · cases h
  case h_8 => cases h

end

/-! ## Functions that run callbacks -/

/-- A function of the connection, or a part of one, that may run callbacks. -/
inductive Job
  | handleState (inEvent : WaitStatus)
  /-- A call made by the loop's thread or by a callback. -/
  | act (x : Act)
  | onQueryDone (q : Session)
  /-- What is left of a callback. -/
  | callback (l : List Act)
  | cleanUp
  /-- The loop of `clean_up`, at the `i`-th node of `query_list_`. -/
  | flush (i : Nat)
deriving DecidableEq, Repr

/-- `clean_up` takes the fd event and the timer out of the pump. -/
@[simps] def removeEvents (c : Conn) : Conn :=
  { c with
    fdEvent := none
    timeout := if c.fdEvent.isSome then { c.timeout with attached := false } else c.timeout }

/-- The end of `CLOSE_DONE`. -/
def reportClosed (c : Conn) : Conn := (if c.client then c.emit .onConnectionClosed else c).toState .connectDone

@[simp] theorem reportClosed_queryList (c : Conn) : (reportClosed c).queryList = c.queryList := by
  unfold reportClosed; split <;> rfl

/-- The end of `SyncClose`. -/
def closeLibrary (c : Conn) : Conn := ((c.setReady false).call .close {}).toState .closeDone

/-- What the return of a call made by a callback leaves in the record. -/
def Rig.returned (x : Act) (r : Rig) : Rig :=
  match x with
  | .syncClose => r.mark .closed
  | _ => r

/-- Runs a function, `n` calls deep at most. -/
def perform : Nat → Job → Rig → Except Stop Rig
  | 0, _, _ => .error .noAnswer
  | n + 1, .handleState inEvent, r =>
    match r.answers with
    | [] => .error .noAnswer
    | a :: as =>
      let r := r.feed as
      if r.conn.currentState = .closeDone then
        (perform n .cleanUp (r.on (·.setReady false))).bind fun r => .ok (r.on reportClosed).assigned
      else
        match completing a inEvent r.conn with
        | some (q, c, next) =>
          (perform n (.onQueryDone q) (r.pass c)).bind fun r =>
            perform n (.handleState inEvent) (r.on fun c => (resetInProcess c).toState next).assigned
        | none =>
          match handleStatePass a inEvent r.conn with
          | .goOn c => perform n (.handleState inEvent) (r.pass c).assigned
          | .rest c => .ok (r.pass c).assigned
          | .checkFailed => .error .aborted
  | n + 1, .act (.startQuery q), r =>
    let r := r.on (pushQuery q)
    if r.conn.currentState = .connectionIdle ∧ r.conn.inProcess = none then perform n (.handleState {}) r else .ok r
  | n + 1, .act .close, r =>
    let r := r.on fun c => { c with scheduleClose := true }
    if r.conn.inProcess = none ∧ r.conn.currentState = .queryStart then perform n (.handleState {}) r else .ok r
  | n + 1, .act .syncClose, r => (perform n .cleanUp r).bind fun r => .ok (r.on closeLibrary)
  | n + 1, .onQueryDone q, r =>
    let r := r.on (·.onQueryDone q)
    if r.pending q then
      match r.scripts with
      | [] => .error .noAnswer
      | l :: scripts =>
        (perform n (.callback l) ({ r with scripts := scripts }.mark (.invoke q.id))).bind fun r =>
          .ok { r with cleared := q.id :: r.cleared }
    else .ok r
  | _ + 1, .callback [], r => .ok r
  | n + 1, .callback (x :: l), r => (perform n (.act x) r).bind fun r => perform n (.callback l) (r.returned x)
  | n + 1, .cleanUp, r =>
    let r := r.on removeEvents
    match r.conn.inProcess with
    | none => perform n (.flush 0) r
    | some q =>
      let q := q.setCode (-1) "closed"
      (perform n (.onQueryDone q) (r.on fun c => { c with inProcess := some q })).bind fun r =>
        perform n (.flush 0) (r.on resetInProcess)
  | n + 1, .flush i, r =>
    match r.conn.queryList[i]? with
    | none => .ok { r.on (fun c => { c with queryList := [] }) with freed := r.freed + r.conn.queryList.length }
    | some q =>
      let q := q.setCode (-1) "closed"
      (perform n (.onQueryDone q) (r.on fun c => { c with queryList := c.queryList.set i q })).bind fun r' =>
        -- nodes are freed from the front: the loop may stand on one of them
        if i < r'.freed - r.freed then .error .aborted
        else perform n (.flush (i + 1 - (r'.freed - r.freed))) r'

/-! ## What a function can do -/

/-- The function has been called, and has returned. -/
inductive Returns : Job → Rig → Rig → Prop
  /-- A pass that completes no session goes on. -/
  | passed {r r' : Rig} {a : Answer} {as : List Answer} {ev : WaitStatus} {c : Conn} : r.answers = a :: as →
    r.conn.currentState ≠ .closeDone → completing a ev r.conn = none → handleStatePass a ev r.conn = .goOn c →
    Returns (.handleState ev) ((r.feed as).pass c).assigned r' → Returns (.handleState ev) r r'
  | rested {r : Rig} {a : Answer} {as : List Answer} {ev : WaitStatus} {c : Conn} : r.answers = a :: as →
    r.conn.currentState ≠ .closeDone → completing a ev r.conn = none → handleStatePass a ev r.conn = .rest c →
    Returns (.handleState ev) r ((r.feed as).pass c).assigned
  /-- A session is completed, the next state assigned when `OnQueryDone` has returned. -/
  | completed {r r₁ r' : Rig} {a : Answer} {as : List Answer} {ev : WaitStatus} {q : Session} {c : Conn} {next : State} :
    r.answers = a :: as → r.conn.currentState ≠ .closeDone → completing a ev r.conn = some (q, c, next) →
    Returns (.onQueryDone q) ((r.feed as).pass c) r₁ →
    Returns (.handleState ev) (r₁.on fun c => (resetInProcess c).toState next).assigned r' →
    Returns (.handleState ev) r r'
  | closeDone {r r₁ : Rig} {a : Answer} {as : List Answer} {ev : WaitStatus} : r.answers = a :: as →
    r.conn.currentState = .closeDone → Returns .cleanUp ((r.feed as).on (·.setReady false)) r₁ →
    Returns (.handleState ev) r (r₁.on reportClosed).assigned
  | pushed {r : Rig} {q : Session} : ¬ (r.conn.currentState = .connectionIdle ∧ r.conn.inProcess = none) →
    Returns (.act (.startQuery q)) r (r.on (pushQuery q))
  | kicked {r r' : Rig} {q : Session} : r.conn.currentState = .connectionIdle → r.conn.inProcess = none →
    Returns (.handleState {}) (r.on (pushQuery q)) r' → Returns (.act (.startQuery q)) r r'
  | noted {r : Rig} : ¬ (r.conn.inProcess = none ∧ r.conn.currentState = .queryStart) →
    Returns (.act .close) r (r.on fun c => { c with scheduleClose := true })
  | closeKicked {r r' : Rig} : r.conn.inProcess = none → r.conn.currentState = .queryStart →
    Returns (.handleState {}) (r.on fun c => { c with scheduleClose := true }) r' → Returns (.act .close) r r'
  | syncClosed {r r₁ : Rig} : Returns .cleanUp r r₁ → Returns (.act .syncClose) r (r₁.on closeLibrary)
  | silent {r : Rig} {q : Session} : ¬ r.pending q → Returns (.onQueryDone q) r (r.on (·.onQueryDone q))
  | invoked {r r₁ : Rig} {q : Session} {l : List Act} {ls : List (List Act)} : r.pending q → r.scripts = l :: ls →
    Returns (.callback l) ({ r.on (·.onQueryDone q) with scripts := ls }.mark (.invoke q.id)) r₁ →
    Returns (.onQueryDone q) r { r₁ with cleared := q.id :: r₁.cleared }
  | nil (r : Rig) : Returns (.callback []) r r
  | cons {r r₁ r' : Rig} {x : Act} {l : List Act} : Returns (.act x) r r₁ →
    Returns (.callback l) (r₁.returned x) r' → Returns (.callback (x :: l)) r r'
  | cleanedIdle {r r' : Rig} : r.conn.inProcess = none → Returns (.flush 0) (r.on removeEvents) r' →
    Returns .cleanUp r r'
  | cleaned {r r₁ r' : Rig} {q : Session} : r.conn.inProcess = some q →
    Returns (.onQueryDone (q.setCode (-1) "closed"))
      (r.on fun c => { removeEvents c with inProcess := some (q.setCode (-1) "closed") }) r₁ →
    Returns (.flush 0) (r₁.on resetInProcess) r' → Returns .cleanUp r r'
  | flushed {r : Rig} {i : Nat} : r.conn.queryList[i]? = none → Returns (.flush i) r
      { r.on (fun c => { c with queryList := [] }) with freed := r.freed + r.conn.queryList.length }
  | flush {r r₁ r' : Rig} {i : Nat} {q : Session} : r.conn.queryList[i]? = some q →
    Returns (.onQueryDone (q.setCode (-1) "closed"))
      (r.on fun c => { c with queryList := c.queryList.set i (q.setCode (-1) "closed") }) r₁ →
    ¬ i < r₁.freed - r.freed → Returns (.flush (i + 1 - (r₁.freed - r.freed))) r₁ r' → Returns (.flush i) r r'

theorem bind_ok {ε α β : Type} {x : Except ε α} {f : α → Except ε β} {b : β} (h : x.bind f = .ok b) :
    ∃ a, x = .ok a ∧ f a = .ok b := by
  cases x with
  | error e => simp [Except.bind] at h
  | ok a => exact ⟨a, rfl, h⟩

/-- **`perform` does what the rules say and nothing else.** -/
theorem perform_returns {n : Nat} : ∀ {j : Job} {r r' : Rig}, perform n j r = .ok r' → Returns j r r' := by
  induction n with
  | zero => intro j r r' h; simp [perform] at h
  | succ n ih =>
    intro j r r' h
    cases j with
    | handleState ev =>
      simp only [perform] at h
      split at h
      · simp at h
      · rename_i a as ha
        split at h
        · rename_i hs
          obtain ⟨r₁, h1, h⟩ := bind_ok h
          simp only [Except.ok.injEq] at h
          exact h ▸ .closeDone ha hs (ih h1)
        · rename_i hs
          split at h
          · rename_i q c next hc
            obtain ⟨r₁, h1, h⟩ := bind_ok h
            exact .completed ha hs hc (ih h1) (ih h)
          · rename_i hc
            split at h
            · rename_i c hp; exact .passed ha hs hc hp (ih h)
            · rename_i c hp
              simp only [Except.ok.injEq] at h
              exact h ▸ .rested ha hs hc hp
            · simp at h
    | act x =>
      cases x with
      | startQuery q =>
        simp only [perform] at h
        split at h
        · rename_i hk; exact .kicked hk.1 hk.2 (ih h)
        · rename_i hk
          simp only [Except.ok.injEq] at h
          exact h ▸ .pushed hk
      | close =>
        simp only [perform] at h
        split at h
        · rename_i hk; exact .closeKicked hk.1 hk.2 (ih h)
        · rename_i hk
          simp only [Except.ok.injEq] at h
          exact h ▸ .noted hk
      | syncClose =>
        simp only [perform] at h
        obtain ⟨r₁, h1, h⟩ := bind_ok h
        simp only [Except.ok.injEq] at h
        exact h ▸ .syncClosed (ih h1)
    | onQueryDone q =>
      simp only [perform] at h
      split at h
      · rename_i hp
        split at h
        · simp at h
        · rename_i l ls hl
          obtain ⟨r₁, h1, h⟩ := bind_ok h
          simp only [Except.ok.injEq] at h
          exact h ▸ .invoked hp hl (ih h1)
      · rename_i hp
        simp only [Except.ok.injEq] at h
        exact h ▸ .silent hp
    | callback l =>
      cases l with
      | nil =>
        simp only [perform, Except.ok.injEq] at h
        exact h ▸ .nil r
      | cons x l =>
        simp only [perform] at h
        obtain ⟨r₁, h1, h⟩ := bind_ok h
        exact .cons (ih h1) (ih h)
    | cleanUp =>
      simp only [perform] at h
      split at h
      · rename_i hp; exact .cleanedIdle hp (ih h)
      · rename_i q hp
        obtain ⟨r₁, h1, h⟩ := bind_ok h
        exact .cleaned hp (ih h1) (ih h)
    | flush i =>
      simp only [perform] at h
      split at h
      · rename_i hq
        simp only [Except.ok.injEq] at h
        exact h ▸ .flushed hq
      · rename_i q hq
        obtain ⟨r₁, h1, h⟩ := bind_ok h
        split at h
        · simp at h
        · rename_i hi; exact .flush hq (ih h1) hi (ih h)

/-! ## Operations -/

/-- An operation, what libmysql answers while it lasts, and what the callbacks it invokes call. -/
structure Move where
  op      : Op
  /-- For a `HandleState` started by a callback, beyond the answers the operation has itself. -/
  further : List Answer := []
  scripts : List (List Act) := []
deriving DecidableEq, Repr

/-- The function a posted closure calls. -/
def Task.job : Task → Job
  | .handleState => .handleState {}
  | .startQuery q => .act (.startQuery q)
  | .syncClose => .act .syncClose

/-- The function an operation calls, where it may run a callback. -/
def Op.job (c : Conn) : Op → Option Job
  | .runTask i _ => c.tasks[i]?.map Task.job
  | .startQuery q _ => some (.act (.startQuery q))
  | .close _ => some (.act .close)
  | .syncClose => some (.act .syncClose)
  | .fdWake ev _ => some (.handleState (ltEvToMysqlStatus ev))
  | .timerWake _ => some (.handleState { timeout := true })
  | _ => none

/-- The connection it is called on: the posted task is taken, the events of a wake-up are disarmed. -/
def Op.entry (c : Conn) (op : Op) : Except Stop Conn :=
  if op.wakes then
    match resetWaitEvent c with
    | none => .error .aborted
    | some c => .ok c
  else .ok (op.target c)

/-- `step`, with callbacks that call back. -/
def operate (n : Nat) (op : Op) (r : Rig) : Except Stop Rig :=
  match op.job r.conn with
  | none => (step r.conn op).bind fun c => .ok (r.on fun _ => c)
  | some j => (op.entry r.conn).bind fun c => perform n j (r.on fun _ => c)

/-- The operation begins. -/
@[simps] def Rig.begun (m : Move) (r : Rig) : Rig :=
  { r with answers := m.op.answers ++ m.further, scripts := m.scripts }

/-- The operation is over. -/
@[simps!] def Rig.ended (r : Rig) : Rig := (r.feed []).mark .finished

/-- A step, where the operation can happen and returns, and `scripts` tells of the callbacks it has invoked. -/
def moved (n : Nat) (r : Rig) (m : Move) : Option Rig :=
  if enabled r.conn m.op then
    match operate n m.op (r.begun m) with
    | .ok r' => if r'.scripts = [] then some r'.ended else none
    | .error _ => none
  else none

/-- The connection between handler invocations, with callbacks that call back. -/
def rigged : Lts Rig Move := ⟨fun r m r' => ∃ n, moved n r m = some r'⟩

/-- A new object after `InitConnection`. -/
def Rig.opened (client : Bool) (errNo : Int) (st : State) (opt : MysqlOptions) : Rig :=
  { conn := LtApp.Mysql.opened client errNo st opt }

/-- Everything an operation can do. -/
inductive Operated (r : Rig) (op : Op) : Rig → Prop
  | other {c : Conn} : op.job r.conn = none → step r.conn op = .ok c → Operated r op (r.on fun _ => c)
  | called {j : Job} {c : Conn} {r' : Rig} : op.job r.conn = some j → op.entry r.conn = .ok c →
    Returns j (r.on fun _ => c) r' → Operated r op r'

theorem operate_operated {n : Nat} {op : Op} {r r' : Rig} (h : operate n op r = .ok r') : Operated r op r' := by
  unfold operate at h
  split at h
  · rename_i hj
    obtain ⟨c, hc, h⟩ := bind_ok h
    simp only [Except.ok.injEq] at h
    exact h ▸ .other hj hc
  · rename_i j hj
    obtain ⟨c, hc, h⟩ := bind_ok h
    exact .called hj hc (perform_returns h)

theorem moved_operated {n : Nat} {r r' : Rig} {m : Move} (h : moved n r m = some r') :
    enabled r.conn m.op ∧ ∃ d, Operated (r.begun m) m.op d ∧ d.scripts = [] ∧ r' = d.ended := by
  unfold moved at h
  split at h
  · rename_i he
    split at h
    · rename_i d hd
      split at h
      · rename_i hs
        exact ⟨he, d, operate_operated hd, hs, (Option.some.inj h).symm⟩
      · cases h
    · cases h
  · cases h

end LtApp.Mysql
