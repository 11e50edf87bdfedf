import Mathlib.Tactic.Simps.Basic
import LtApp.Mysql.Session

/-!
# `MysqlAsyncConnect`: the connection state machine

| here | there |
| --- | --- |
| `State`, `Conn`              | `MysqlAsyncConnect::State` and the members (`mysql_async_con.h:28`, `:108-133`) |
| `Turn`                       | what one pass of the `while (st_continue)` loop leaves behind |
| `goNextState`                | `go_next_state` (`mysql_async_con.cc:70`) |
| `handleStateSelectDB`, `handleStateConnect`, `handleStateIDLE` | the functions of these names (`:91`, `:135`, `:196`) |
| `handleStatePass`, `handleState` | the `switch` and the loop of `HandleState` (`:236`) |
| `doneCurrentQuery`, `waitMysqlStatus`, `resetWaitEvent`, `cleanUp` | `:380`, `:431`, `:422`, `:505` |

`Conn.log` is a history variable, newest first: every libmysql call with its answer, every session
taken in or completed, every assignment of `ready_`. The code never reads it. `LOG` and `VLOG` lines
are left out.
-/

namespace LtApp.Mysql

/-- `MysqlOptions`. -/
structure MysqlOptions where
  host         : Bytes := []
  port         : Nat := 0
  user         : Bytes := []
  passwd       : Bytes := []
  dbname       : Bytes := []
  queryTimeout : Nat := 0
deriving DecidableEq, Repr

inductive State
  | stateNone | connectInit | connectStart | connectWait | connectDone
  | connectionIdle
  | selectDbStart | selectDbWait | selectDbDone
  | queryStart | queryWait | queryResultReady
  | fetchRowStart | fetchRowWait | fetchRowResultReady
  | closeStart | closeWait | closeDone
deriving DecidableEq, Repr

/-- The `*_WAIT` states. -/
def State.isWait : State → Bool
  | .connectWait | .selectDbWait | .queryWait | .fetchRowWait | .closeWait => true
  | _ => false

/-- A call on `mysql_` or on `result_`. -/
inductive LibCall
  /-- `mysql_init`, for the `InitConnection` with these options. -/
  | init (opt : MysqlOptions)
  | options (timeout : Nat)
  | realConnect (opt : MysqlOptions)
  | realConnectStart (opt : MysqlOptions)
  | realConnectCont (ev : WaitStatus)
  | selectDbStart (db : Bytes)
  | selectDbCont (ev : WaitStatus)
  | realQueryStart (q : Session)
  | realQueryCont (ev : WaitStatus)
  | useResult
  | fetchRowStart (r : Option MysqlRes)
  | fetchRowCont (r : Option MysqlRes) (ev : WaitStatus)
  | closeStart
  | closeCont (ev : WaitStatus)
  | close
  | ping
  | errno | error | affectedRows
  | numRows (r : MysqlRes) | numFields (r : MysqlRes) | fetchField (r : MysqlRes)
  | freeResult (r : MysqlRes)
  | getSocket | getTimeoutValue
deriving DecidableEq, Repr

/-- History events. -/
inductive Ev
  | call (l : LibCall) (a : Answer)
  /-- `StartQuery` has pushed the session. -/
  | accept (q : Session)
  /-- `OnQueryDone` has been called on the session, which reads as given. -/
  | done (q : Session)
  /-- `ready_` has been assigned. -/
  | ready (b : Bool)
  | onConnectReady
  | onConnectionClosed
  /-- `Connect()` has been called. -/
  | connect
  /-- `HandleStateIDLE` acts on `schedule_close_`. -/
  | closing
deriving DecidableEq, Repr

/-- A `base::FdEvent` installed in the pump. -/
structure FdEvent where
  fd      : Int
  reading : Bool := false
  writing : Bool := false
deriving DecidableEq, Repr

structure TimeoutEvent where
  interval : Nat
  attached : Bool := false
deriving DecidableEq, Repr

/-- Closures posted to `loop_` that concern this connection. -/
inductive Task
  | handleState
  | startQuery (q : Session)
  | syncClose
deriving DecidableEq, Repr

/-- The members of `MysqlAsyncConnect`, the tasks waiting in its loop, and the history. -/
structure Conn where
  errNo          : Int
  currentState   : State
  mysqlRet       : Bool := false
  result         : Option MysqlRes := none
  resultRow      : Option Row := none
  option         : MysqlOptions := {}
  client         : Bool
  fdEvent        : Option FdEvent := none
  timeout        : TimeoutEvent := ⟨0, false⟩
  checker        : Bool := false
  ready          : Bool := false
  scheduleClose  : Bool := false
  lastSelectedDb : Bytes := []
  inProcess      : Option Session := none
  queryList      : List Session := []
  tasks          : List Task := []
  log            : List Ev := []
deriving DecidableEq, Repr

namespace Conn

@[simps] def emit (e : Ev) (c : Conn) : Conn := { c with log := e :: c.log }

@[simps] def call (l : LibCall) (a : Answer) (c : Conn) : Conn := { c with log := .call l a :: c.log }

/-- `QuerySession::OnQueryDone`, seen from the connection. -/
@[simps] def onQueryDone (q : Session) (c : Conn) : Conn := { c with log := .done q :: c.log }

@[simps] def setReady (b : Bool) (c : Conn) : Conn := { c with ready := b, log := .ready b :: c.log }

@[simps] def toState (s : State) (c : Conn) : Conn := { c with currentState := s }

end Conn

/-- What one pass of the loop leaves behind: go round again, return, or a failed `CHECK`. -/
inductive Turn
  | goOn (c : Conn)
  | rest (c : Conn)
  | checkFailed
deriving DecidableEq, Repr

/-! ## Helpers of the state machine -/

/-- `IsFatalError` (`:222`): `CR_SERVER_LOST`, `CR_UNKNOWN_ERROR`, `CR_OUT_OF_MEMORY`,
`CR_SERVER_GONE_ERROR`. -/
def isFatalError (code : Int) : Bool := code = 2013 || code = 2000 || code = 2008 || code = 2006

/-- `DoneCurrentQuery` (`:380`). -/
def doneCurrentQuery (a : Answer) (code : Int) (message : Option String) (c : Conn) : Conn :=
  match c.inProcess with
  | none => c
  | some q =>
    let q := if code ≠ 0 then q.setCode code (message.getD "") else q
    let q := q.setAffectedRows a.affectedRows
    { (c.call .affectedRows a).onQueryDone q with inProcess := none }

/-- `WaitMysqlStatus` (`:431`). A timer armed earlier is left alone when the status has no
`TIMEOUT`. -/
def waitMysqlStatus (a : Answer) (status : WaitStatus) (c : Conn) : Conn :=
  let (c, fdEvent) := match c.fdEvent with
    | some e => (c, e)
    | none => (c.call .getSocket a, ⟨a.socket, false, false⟩)
  let c := { c with fdEvent := some { fdEvent with reading := status.read, writing := status.write } }
  if status.timeout then
    { c.call .getTimeoutValue a with timeout := ⟨1000 * a.timeoutValue, true⟩ }
  else c

/-- `go_next_state` (`:70`). -/
def goNextState (a : Answer) (optStatus : WaitStatus) (waitSt nextSt : State) (c : Conn) : Turn :=
  if optStatus.isZero then .goOn (c.toState nextSt)
  else .rest (waitMysqlStatus a optStatus (c.toState waitSt))

/-- The three lines every error branch repeats:
`DoneCurrentQuery(code, ERR_STR); current_state_ = IsFatalError(code) ? CLOSE_START : CONNECTION_IDLE`. -/
def failQuery (a : Answer) (code : Int) (c : Conn) : Turn :=
  .goOn ((doneCurrentQuery a code (some a.error) (c.call .error a)).toState
    (if isFatalError code then .closeStart else .connectionIdle))

/-- The flush of one session in `clean_up`. -/
def flush (c : Conn) (q : Session) : Conn := c.onQueryDone (q.setCode (-1) "closed")

/-- `clean_up` (`:505`). The timer is taken out of the pump only together with the fd event. -/
def cleanUp (c : Conn) : Conn :=
  let c := match c.fdEvent with
    | some _ => { c with fdEvent := none, timeout := { c.timeout with attached := false } }
    | none => c
  let c := match c.inProcess with
    | some q => { flush c q with inProcess := none }
    | none => c
  { c.queryList.foldl flush c with queryList := [] }

/-- `reset_wait_event` (`:422`); `none` when `fd_event_` is null and is dereferenced. -/
def resetWaitEvent (c : Conn) : Option Conn :=
  let c := { c with timeout := { c.timeout with attached := false } }
  c.fdEvent.map fun e => { c with fdEvent := some { e with reading := false, writing := false } }

/-! ## `HandleState` -/

/-- `HandleStateSelectDB` (`:91`). -/
def handleStateSelectDB (a : Answer) (inEvent : WaitStatus) (c : Conn) : Turn :=
  match c.inProcess with
  | none => .checkFailed
  | some q =>
    match c.currentState with
    | .selectDbStart =>
      let c := c.call (.selectDbStart (cStr q.dbName)) a
      if a.err ≠ 0 then failQuery a a.err c
      else goNextState a a.status .selectDbWait .selectDbDone c
    | .selectDbWait =>
      let c := c.call (.selectDbCont inEvent) a
      if a.err ≠ 0 then failQuery a a.err c
      else goNextState a a.status .selectDbWait .selectDbDone c
    | .selectDbDone =>
      let c := { c with lastSelectedDb := q.dbName }
      if q.query.isEmpty then
        .goOn ((doneCurrentQuery a 0 (some "db change success") c).toState .connectionIdle)
      else .goOn (c.toState .queryStart)
    | _ => .checkFailed

/-- `mysql_ret_` is written by the call that finishes the connect. -/
def storeRet (a : Answer) (c : Conn) : Conn := if a.status.isZero then { c with mysqlRet := a.ret } else c

/-- `result_row_` is written by the call that finishes the row fetch. -/
def storeRow (a : Answer) (c : Conn) : Conn := if a.status.isZero then { c with resultRow := a.row } else c

/-- `HandleStateConnect` (`:135`). -/
def handleStateConnect (a : Answer) (inEvent : WaitStatus) (c : Conn) : Turn :=
  match c.currentState with
  | .connectStart =>
    goNextState a a.status .connectWait .connectDone (storeRet a (c.call (.realConnectStart c.option) a))
  | .connectWait =>
    goNextState a a.status .connectWait .connectDone (storeRet a (c.call (.realConnectCont inEvent) a))
  | .connectDone =>
    if c.mysqlRet = false then .goOn ((c.setReady false).toState .closeStart)
    else
      let c := { (c.setReady true).toState .connectionIdle with lastSelectedDb := c.option.dbname }
      .goOn (if c.client then c.emit .onConnectReady else c)
  | .closeStart => goNextState a a.status .closeWait .closeDone (c.call .closeStart a)
  | .closeWait => goNextState a a.status .closeWait .closeDone (c.call (.closeCont inEvent) a)
  | .closeDone =>
    let c := cleanUp (c.setReady false)
    .rest ((if c.client then c.emit .onConnectionClosed else c).toState .connectDone)
  | _ => .checkFailed

/-- `!DB().empty() && DB() != last_selected_db_`. -/
def needsSelect (c : Conn) (q : Session) : Bool := !q.dbName.isEmpty && q.dbName != c.lastSelectedDb

/-- `HandleStateIDLE` (`:196`). -/
def handleStateIDLE (c : Conn) : Turn :=
  match c.queryList with
  | [] => if c.scheduleClose then .goOn ((c.emit .closing).toState .closeStart) else .rest c
  | q :: queryList =>
    if c.inProcess.isSome then .checkFailed
    else
      let c := { c with inProcess := some q, queryList := queryList }
      .goOn (c.toState (if needsSelect c q then .selectDbStart else .queryStart))

/-- One value of the row as `std::string(result_row_[i])`, a NULL pointer as the text `NULL`. -/
def cellText : Option Bytes → Bytes
  | some v => cStr v
  | none => [78, 85, 76, 76]

/-- The `field_count` values of the row. -/
def rowText (r : MysqlRes) (row : Row) : List Bytes :=
  (List.range r.fields.length).map fun i => cellText (row.getD i none)

/-- `ParseResultDesc` (`:367`), called when the session has no headers yet. -/
def parseResultDesc (r : MysqlRes) (q : Session) : Session :=
  if q.columNames.isEmpty then { q with columNames := r.fields } else q

/-- The end of the rows (`:325-338`). -/
def fetchEnd (a : Answer) (q : Session) (r : MysqlRes) (c : Conn) : Conn :=
  let c := c.call .errno a
  let c := if a.errno ≠ 0 then c.call .error a else c
  let c := { c.call (.numRows r) a with inProcess := some (q.setResultRows a.numRows) }
  let message := if a.errno ≠ 0 then some a.error else none
  (doneCurrentQuery a a.errno message (c.call (.freeResult r) a)).toState .connectionIdle

/-- One row (`:341-357`). -/
def fetchRow (a : Answer) (q : Session) (r : MysqlRes) (row : Row) (c : Conn) : Conn :=
  let c := if q.columNames.isEmpty then c.call (.fetchField r) a else c
  let c := c.call (.numFields r) a
  { c with inProcess := some ((parseResultDesc r q).pendingRow (rowText r row)) }

/-- The `switch` of `HandleState` (`:244-362`). -/
def handleStatePass (a : Answer) (inEvent : WaitStatus) (c : Conn) : Turn :=
  match c.currentState with
  | .connectStart | .connectWait | .connectDone | .closeStart | .closeWait | .closeDone =>
    handleStateConnect a inEvent c
  | .connectionIdle => handleStateIDLE c
  | .selectDbStart | .selectDbWait | .selectDbDone => handleStateSelectDB a inEvent c
  | .queryStart =>
    match c.inProcess with
    | none => .checkFailed
    | some q =>
      if q.query.isEmpty then
        .goOn ((doneCurrentQuery a (-9999) (some "empty query") c).toState .connectionIdle)
      else
        let c := c.call (.realQueryStart q) a
        if a.err ≠ 0 then failQuery a a.err c
        else goNextState a a.status .queryWait .queryResultReady c
  | .queryWait =>
    match c.inProcess with
    | none => .checkFailed
    | some _ =>
      let c := c.call (.realQueryCont inEvent) a
      -- the test reads the member `err_no_`, not the local `err_no` the call has filled in
      if c.errNo ≠ 0 then failQuery a a.err c
      else goNextState a a.status .queryWait .queryResultReady c
  | .queryResultReady =>
    match c.inProcess with
    | none => .checkFailed
    | some _ =>
      let c := { c.call .useResult a with result := a.res }
      match a.res with
      | none => failQuery a a.errno (c.call .errno a)
      | some _ => .goOn (c.toState .fetchRowStart)
  | .fetchRowStart =>
    goNextState a a.status .fetchRowWait .fetchRowResultReady
      (storeRow a (c.call (.fetchRowStart c.result) a))
  | .fetchRowWait =>
    goNextState a a.status .fetchRowWait .fetchRowResultReady
      (storeRow a (c.call (.fetchRowCont c.result inEvent) a))
  | .fetchRowResultReady =>
    match c.inProcess, c.result with
    | some q, some r =>
      match c.resultRow with
      | none => .goOn (fetchEnd a q r c)
      | some row => .goOn ((fetchRow a q r row c).toState .fetchRowStart)
    | _, _ => .checkFailed
  | .stateNone | .connectInit => .checkFailed

/-- Why a handler does not return. -/
inductive Stop
  /-- A failed `CHECK`, or a null pointer dereferenced: the process dies. -/
  | aborted
  /-- The answers given do not reach the end of the loop. -/
  | noAnswer
deriving DecidableEq, Repr

/-- `HandleState` (`:236`), given the library's answers pass by pass. -/
def handleState : List Answer → WaitStatus → Conn → Except Stop Conn
  | [], _, _ => .error .noAnswer
  | a :: as, inEvent, c =>
    match handleStatePass a inEvent c with
    | .goOn c' => handleState as inEvent c'
    | .rest c' => .ok c'
    | .checkFailed => .error .aborted

end LtApp.Mysql
