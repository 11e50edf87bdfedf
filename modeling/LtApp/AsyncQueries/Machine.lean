import Mathlib.Tactic.Simps.Basic
import LtApp.AsyncQueries.QueryList

/-!
# The state machine of `async_queries`

| here | there |
| --- | --- |
| `St`, `StateData`      | `ST`, `struct state_data` (`mysql_async_offcial.cc:49`) |
| `Event`                | an `ev_mysql` that is in libevent: what it waits for (`event_set`, `event_add`) |
| `EvFlags`              | the bits of `short event` |
| `Globals`              | `query_list`, `num_active_connections`, the break flag of the event loop, what has been printed |
| `nextEvent`            | `next_event` (`:109`) |
| `mysqlStatus`          | `mysql_status` (`:138`) |
| `pass`                 | one pass of the `switch`; `.again` is `NEXT_IMMEDIATE` |
| `stateMachineHandler`  | `state_machine_handler` (`:157`) |

The client library is the boundary it is in `Mysql.Session`: an `Answer` for each pass. The events are one-shot (no
`EV_PERSIST`). `StateData.log` is history, newest first: the library calls with their answers, and what becomes of
the entries and the result sets.
-/

namespace LtApp.AsyncQueries

open Mysql (Bytes cStr Row MysqlRes WaitStatus Answer)

/-- `ST`, by its numbers: 0, 1, 9 connect; 10, 11, 20 send a query; 30, 31, 39 fetch a row; 40, 41 close; 50 is the
end. -/
inductive St
  | st0 | st1 | st9
  | st10 | st11 | st20
  | st30 | st31 | st39
  | st40 | st41 | st50
deriving DecidableEq, Repr

/-- A non-blocking operation, with what its first call is given. -/
inductive LibOp
  | connect
  | query (e : Option QueryEntry)
  | fetchRow (r : Option MysqlRes)
  | close
deriving DecidableEq, Repr

/-- History events. -/
inductive Ev
  | start (op : LibOp) (a : Answer)
  | cont (op : LibOp) (ready : WaitStatus) (a : Answer)
  | useResult (a : Answer)
  | freeResult (r : Option MysqlRes)
  /-- The entry has been taken off `query_list`. -/
  | takeQuery (e : QueryEntry)
  | freeQuery (e : QueryEntry)
deriving DecidableEq, Repr

/-- What an event waits for. -/
structure Event where
  fd      : Int
  read    : Bool
  write   : Bool
  timeout : Option Nat
deriving DecidableEq, Repr

/-- `EV_READ`, `EV_WRITE`, `EV_TIMEOUT`. -/
structure EvFlags where
  read    : Bool := false
  write   : Bool := false
  timeout : Bool := false
deriving DecidableEq, Repr

structure StateData where
  st           : St
  evMysql      : Option Event := none
  result       : Option MysqlRes := none
  ret          : Bool := false
  err          : Int := 0
  row          : Option Row := none
  queryElement : Option QueryEntry := none
  index        : Nat := 0
  log          : List Ev := []
deriving DecidableEq, Repr

/-- A line of output; each begins with the index of the query it is about. -/
inductive Line
  | query (index : Nat) (query : Bytes)
  | row (index : Nat) (values : List Bytes)
  | error (index : Nat) (message : String)
  | eof (index : Nat)
deriving DecidableEq, Repr

def Line.index : Line → Nat
  | .query k _ | .row k _ | .error k _ | .eof k => k

structure Globals where
  queryList            : List QueryEntry := []
  numActiveConnections : Int := 0
  /-- `event_loopbreak` has been called. -/
  eventBreak           : Bool := false
  out                  : List Line := []
deriving DecidableEq, Repr

/-- Why the handler does not return. -/
inductive Stop
  /-- `fatal`: the process exits with 1. -/
  | exited
  /-- A null pointer is dereferenced. -/
  | aborted
  /-- The answers given do not reach the end of the handler. -/
  | noAnswer
deriving DecidableEq, Repr

inductive Turn
  | again (g : Globals) (sd : StateData)
  | rest (g : Globals) (sd : StateData)
  | stop (e : Stop)
deriving DecidableEq, Repr

@[simps] def Globals.print (l : Line) (g : Globals) : Globals := { g with out := g.out ++ [l] }

@[simps] def StateData.emit (e : Ev) (sd : StateData) : StateData := { sd with log := e :: sd.log }

@[simps] def StateData.goto (s : St) (sd : StateData) : StateData := { sd with st := s }

/-- The event `next_event` makes of a status. -/
def waitEvent (a : Answer) : Event where
  fd := if a.status.read || a.status.write then a.socket else -1
  read := a.status.read
  write := a.status.write
  timeout := if a.status.timeout then some a.timeoutValue else none

/-- `next_event` (`:109`). -/
@[simps] def nextEvent (newSt : St) (a : Answer) (sd : StateData) : StateData :=
  { sd with evMysql := some (waitEvent a), st := newSt }

/-- `mysql_status` (`:138`). -/
def mysqlStatus (event : EvFlags) : WaitStatus :=
  { read := event.read, write := event.write, timeout := event.timeout }

/-- What the call that ends an operation leaves in `sd->ret`, `sd->err` or `sd->row`. -/
def store (op : LibOp) (a : Answer) (sd : StateData) : StateData :=
  if a.status.isZero then
    match op with
    | .connect => { sd with ret := a.ret }
    | .query _ => { sd with err := a.err }
    | .fetchRow _ => { sd with row := a.row }
    | .close => sd
  else sd

/-- `if (status) next_event(waitSt, status, sd); else NEXT_IMMEDIATE(sd, nextSt);` -/
def goOn (a : Answer) (waitSt nextSt : St) (g : Globals) (sd : StateData) : Turn :=
  if a.status.isZero then .again g (sd.goto nextSt) else .rest g (nextEvent waitSt a sd)

def startOp (op : LibOp) (a : Answer) (waitSt nextSt : St) (g : Globals) (sd : StateData) : Turn :=
  goOn a waitSt nextSt g (store op a (sd.emit (.start op a)))

def contOp (op : LibOp) (ready : WaitStatus) (a : Answer) (waitSt nextSt : St) (g : Globals) (sd : StateData) : Turn :=
  goOn a waitSt nextSt g (store op a (sd.emit (.cont op ready a)))

/-- The values of a row, tab by tab. -/
def rowValues (r : MysqlRes) (row : Row) : List Bytes :=
  (List.range r.fields.length).map fun i =>
    match row.getD i none with
    | some v => cStr v
    | none => [40, 110, 117, 108, 108, 41]

/-- One pass of the `switch` (`:163-302`). -/
def pass (a : Answer) (event : EvFlags) (g : Globals) (sd : StateData) : Turn :=
  match sd.st with
  | .st0 => startOp .connect a .st1 .st9 g sd
  | .st1 => contOp .connect (mysqlStatus event) a .st1 .st9 g sd
  | .st9 => if sd.ret then .again g (sd.goto .st10) else .stop .exited
  | .st10 =>
    match g.queryList with
    | [] => .again g { sd with queryElement := none, st := .st40 }
    | e :: queryList =>
      let g := { g with queryList := queryList }
      let sd := { sd.emit (.takeQuery e) with queryElement := some e, index := e.index }
      startOp (.query (some e)) a .st11 .st20 (g.print (.query sd.index e.query)) sd
  | .st11 => contOp (.query sd.queryElement) (mysqlStatus event) a .st11 .st20 g sd
  | .st20 =>
    match sd.queryElement with
    | none => .stop .aborted
    | some e =>
      let sd := sd.emit (.freeQuery e)
      if sd.err ≠ 0 then .again (g.print (.error sd.index a.error)) (sd.goto .st10)
      else
        let sd := { sd.emit (.useResult a) with result := a.res }
        if sd.result.isSome then .again g (sd.goto .st30) else .stop .exited
  | .st30 => startOp (.fetchRow sd.result) a .st31 .st39 g sd
  | .st31 => contOp (.fetchRow sd.result) (mysqlStatus event) a .st31 .st39 g sd
  | .st39 =>
    match sd.row with
    | some row =>
      match sd.result with
      | none => .stop .aborted
      | some r => .again (g.print (.row sd.index (rowValues r row))) (sd.goto .st30)
    | none =>
      let line := if a.errno ≠ 0 then .error sd.index a.error else .eof sd.index
      .again (g.print line) ((sd.emit (.freeResult sd.result)).goto .st10)
  | .st40 => startOp .close a .st41 .st50 g sd
  | .st41 => contOp .close (mysqlStatus event) a .st41 .st50 g sd
  | .st50 =>
    let n := g.numActiveConnections - 1
    .rest { g with numActiveConnections := n, eventBreak := g.eventBreak || n = 0 } sd

/-- `state_machine_handler` (`:157`), given the library's answers pass by pass. -/
def stateMachineHandler : List Answer → EvFlags → Globals → StateData → Except Stop (Globals × StateData)
  | [], _, _, _ => .error .noAnswer
  | a :: as, event, g, sd =>
    match pass a event g sd with
    | .again g sd => stateMachineHandler as event g sd
    | .rest g sd => .ok (g, sd)
    | .stop e => .error e

/-! ## The cases of a pass -/

namespace LibOp

/-- Where the operation is started, where it waits, and where its end is looked at. -/
def first : LibOp → St
  | .connect => .st0
  | .query _ => .st10
  | .fetchRow _ => .st30
  | .close => .st40

def wait : LibOp → St
  | .connect => .st1
  | .query _ => .st11
  | .fetchRow _ => .st31
  | .close => .st41

def next : LibOp → St
  | .connect => .st9
  | .query _ => .st20
  | .fetchRow _ => .st39
  | .close => .st50

end LibOp

/-- The operation the connection is at. -/
def StateData.op (sd : StateData) : Option LibOp :=
  match sd.st with
  | .st0 | .st1 => some .connect
  | .st10 | .st11 => some (.query sd.queryElement)
  | .st30 | .st31 => some (.fetchRow sd.result)
  | .st40 | .st41 => some .close
  | _ => none

/-- A call has been made with the event `e` as its record; the operation waits or has ended. -/
inductive Called (op : LibOp) (e : Ev) (a : Answer) (g : Globals) (sd : StateData) : Turn → Prop
  | ended : a.status.isZero = true → Called op e a g sd (.again g ((store op a (sd.emit e)).goto op.next))
  | waits : a.status.isZero = false → Called op e a g sd (.rest g (nextEvent op.wait a (sd.emit e)))

theorem goOn_called {op : LibOp} {e : Ev} {a : Answer} {g : Globals} {sd : StateData} :
    Called op e a g sd (goOn a op.wait op.next g (store op a (sd.emit e))) := by
  unfold goOn
  by_cases h : a.status.isZero = true
  · rw [if_pos h]
    exact .ended h
  · rw [if_neg h]
    have hs : store op a (sd.emit e) = sd.emit e := by unfold store; rw [if_neg h]
    rw [hs]
    exact .waits (by simpa using h)

/-- Everything a pass can do and go on. -/
inductive Passed (a : Answer) (event : EvFlags) (g : Globals) (sd : StateData) : Turn → Prop
  | start {o : LibOp} {t : Turn} : sd.st = o.first → sd.st ≠ .st10 → sd.op = some o →
    Called o (.start o a) a g sd t → Passed a event g sd t
  | cont {o : LibOp} {t : Turn} : sd.st = o.wait → sd.op = some o →
    Called o (.cont o (mysqlStatus event) a) a g sd t → Passed a event g sd t
  | connected : sd.st = .st9 → sd.ret = true → Passed a event g sd (.again g (sd.goto .st10))
  | noMore : sd.st = .st10 → g.queryList = [] →
    Passed a event g sd (.again g { sd with queryElement := none, st := .st40 })
  | take {e : QueryEntry} {queryList : List QueryEntry} {t : Turn} : sd.st = .st10 → g.queryList = e :: queryList →
    Called (.query (some e)) (.start (.query (some e)) a) a
      ({ g with queryList := queryList }.print (.query e.index e.query))
      { sd.emit (.takeQuery e) with queryElement := some e, index := e.index } t → Passed a event g sd t
  | failed {e : QueryEntry} : sd.st = .st20 → sd.queryElement = some e → sd.err ≠ 0 →
    Passed a event g sd (.again (g.print (.error sd.index a.error)) ((sd.emit (.freeQuery e)).goto .st10))
  | opened {e : QueryEntry} {r : MysqlRes} : sd.st = .st20 → sd.queryElement = some e → sd.err = 0 → a.res = some r →
    Passed a event g sd
      (.again g ({ (sd.emit (.freeQuery e)).emit (.useResult a) with result := some r }.goto .st30))
  | row {r : MysqlRes} {row : Row} : sd.st = .st39 → sd.row = some row → sd.result = some r →
    Passed a event g sd (.again (g.print (.row sd.index (rowValues r row))) (sd.goto .st30))
  | rowsEnded {l : Line} : sd.st = .st39 → sd.row = none → (l = .error sd.index a.error ∨ l = .eof sd.index) →
    Passed a event g sd (.again (g.print l) ((sd.emit (.freeResult sd.result)).goto .st10))
  | done : sd.st = .st50 → Passed a event g sd (.rest
      { g with
        numActiveConnections := g.numActiveConnections - 1
        eventBreak           := g.eventBreak || g.numActiveConnections - 1 = 0 } sd)

/-- What the pass leaves behind, whether it goes round again or returns. -/
def Turn.Leaves (t : Turn) (g : Globals) (sd : StateData) : Prop := t = .again g sd ∨ t = .rest g sd

theorem pass_passed {a : Answer} {event : EvFlags} {g : Globals} {sd : StateData} {t : Turn}
    (h : pass a event g sd = t) (hgo : ∀ e, t ≠ .stop e) : Passed a event g sd t := by
  subst h
  unfold pass at hgo ⊢
  cases hst : sd.st <;> simp only [hst] at hgo ⊢
  case st0 => exact .start (o := .connect) hst (by simp [hst]) (by simp [StateData.op, hst]) goOn_called
  case st1 => exact .cont (o := .connect) hst (by simp [StateData.op, hst]) goOn_called
  case st9 =>
    by_cases hr : sd.ret = true
    · rw [if_pos hr]
      exact .connected hst hr
    · exact absurd (if_neg hr) (hgo _)
  case st10 =>
    cases hq : g.queryList with
    | nil => exact .noMore hst hq
    | cons e rest => exact .take hst hq goOn_called
  case st11 =>
    exact .cont (o := .query sd.queryElement) hst (by simp [StateData.op, hst]) goOn_called
  case st20 =>
    cases he : sd.queryElement with
    | none => simp [he] at hgo
    | some e =>
      simp only [he] at hgo ⊢
      by_cases herr : sd.err = 0
      · cases hres : a.res with
        | none => simp [herr, hres] at hgo
        | some r =>
          rw [if_neg (by simpa using herr)]
          exact .opened hst he herr hres
      · simpa [herr] using .failed hst he herr
  case st30 =>
    exact .start (o := .fetchRow sd.result) hst (by simp [hst]) (by simp [StateData.op, hst]) goOn_called
  case st31 => exact .cont (o := .fetchRow sd.result) hst (by simp [StateData.op, hst]) goOn_called
  case st39 =>
    cases hrow : sd.row with
    | some row =>
      cases hr : sd.result with
      | none => simp [hrow, hr] at hgo
      | some r => exact .row hst hrow hr
    | none =>
      by_cases herr : a.errno = 0
      · simpa [herr] using .rowsEnded hst hrow (.inr rfl)
      · simpa [herr] using .rowsEnded hst hrow (.inl rfl)
  case st40 => exact .start (o := .close) hst (by simp [hst]) (by simp [StateData.op, hst]) goOn_called
  case st41 => exact .cont (o := .close) hst (by simp [StateData.op, hst]) goOn_called
  case st50 => exact .done hst

/-- What every pass keeps, the handler keeps: `I` between the passes gives `Q` at the end. -/
theorem handler_rule {event : EvFlags} {I Q : Globals → StateData → Prop}
    (hagain : ∀ a g sd g' sd', I g sd → Passed a event g sd (.again g' sd') → I g' sd')
    (hrest : ∀ a g sd g' sd', I g sd → Passed a event g sd (.rest g' sd') → Q g' sd') :
    ∀ {as g sd g' sd'}, stateMachineHandler as event g sd = .ok (g', sd') → I g sd → Q g' sd'
  | [], _, _, _, _, h, _ => by cases h
  | a :: as, g, sd, g', sd', h, hI => by
    rw [stateMachineHandler] at h
    cases hp : pass a event g sd with
    | stop e => simp [hp] at h
    | rest g₁ sd₁ =>
      rw [hp] at h
      obtain ⟨rfl, rfl⟩ := Prod.mk.inj (Except.ok.inj h)
      exact hrest a g sd _ _ hI (pass_passed hp (by simp))
    | again g₁ sd₁ =>
      rw [hp] at h
      exact handler_rule hagain hrest h (hagain a g sd _ _ hI (pass_passed hp (by simp)))

end LtApp.AsyncQueries
