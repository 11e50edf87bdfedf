import LtApp.Mysql.Connect

/-!
# What one pass of the `HandleState` loop can do

`Pass a ev c t` lists, rule by rule, every way a pass can go; `handleStatePass_pass` proves that the
`switch` does nothing else. The invariants of the other modules are case analyses over these rules and
never unfold the `switch`.

The five non-blocking operations share their shape: a `*_START` state that issues `*_start`, a `*_WAIT`
state that issues `*_cont`, and the state entered once the call returns 0. `Kind` names them.
-/

namespace LtApp.Mysql

/-- The non-blocking operations of libmysql this class uses. -/
inductive Kind
  | connect | selectDb | query | fetchRow | close
deriving DecidableEq, Repr

namespace Kind

def start : Kind → State
  | connect => .connectStart | selectDb => .selectDbStart | query => .queryStart
  | fetchRow => .fetchRowStart | close => .closeStart

def wait : Kind → State
  | connect => .connectWait | selectDb => .selectDbWait | query => .queryWait
  | fetchRow => .fetchRowWait | close => .closeWait

def finished : Kind → State
  | connect => .connectDone | selectDb => .selectDbDone | query => .queryResultReady
  | fetchRow => .fetchRowResultReady | close => .closeDone

@[simp] theorem isWait_wait (k : Kind) : k.wait.isWait = true := by cases k <;> rfl
@[simp] theorem isWait_start (k : Kind) : k.start.isWait = false := by cases k <;> rfl
@[simp] theorem isWait_finished (k : Kind) : k.finished.isWait = false := by cases k <;> rfl

/-- The finishing call stores what it yields: a connect in `mysql_ret_`, a row fetch in `result_row_`. -/
def store (k : Kind) (a : Answer) (c : Conn) : Conn :=
  match k with
  | connect => { c with mysqlRet := a.ret }
  | fetchRow => { c with resultRow := a.row }
  | _ => c

end Kind

/-! ## The helpers in closed form -/

/-- The session `DoneCurrentQuery(code, message)` hands to `OnQueryDone`. -/
def doneSession (a : Answer) (code : Int) (message : Option String) (q : Session) : Session :=
  (if code ≠ 0 then q.setCode code (message.getD "") else q).setAffectedRows a.affectedRows

@[simp] theorem doneSession_id (a : Answer) (code : Int) (m : Option String) (q : Session) :
    (doneSession a code m q).id = q.id := by
  unfold doneSession; split <;> rfl

/-- `in_process_` is completed and dropped. -/
@[simps] def retire (q : Session) (c : Conn) : Conn := { c with log := .done q :: c.log, inProcess := none }

theorem doneCurrentQuery_eq {c : Conn} {q : Session} (h : c.inProcess = some q) (a : Answer) (code : Int)
    (m : Option String) :
    doneCurrentQuery a code m c = retire (doneSession a code m q) (c.call .affectedRows a) := by
  simp [doneCurrentQuery, h, retire, Conn.call, Conn.onQueryDone, doneSession]

/-- The history a call of `waitMysqlStatus` adds. -/
def armLog (a : Answer) (status : WaitStatus) (c : Conn) : List Ev :=
  (if status.timeout then [.call .getTimeoutValue a] else []) ++
    (if c.fdEvent.isNone then [.call .getSocket a] else [])

/-- The connection after `WaitMysqlStatus`. -/
@[simps] def armed (a : Answer) (status : WaitStatus) (c : Conn) : Conn :=
  { c with
    fdEvent := some ⟨(c.fdEvent.map (·.fd)).getD a.socket, status.read, status.write⟩
    timeout := if status.timeout then ⟨1000 * a.timeoutValue, true⟩ else c.timeout
    log := armLog a status c ++ c.log }

theorem waitMysqlStatus_eq (a : Answer) (status : WaitStatus) (c : Conn) :
    waitMysqlStatus a status c = armed a status c := by
  unfold waitMysqlStatus armed armLog
  cases hf : c.fdEvent <;> cases ht : status.timeout <;> simp [Conn.call]

/-- Arming asks for the timeout and for the socket, and for nothing else. -/
theorem armLog_forall {a : Answer} {P : Ev → Prop} (ht : P (.call .getTimeoutValue a)) (hs : P (.call .getSocket a))
    (status : WaitStatus) (c : Conn) : ∀ e ∈ armLog a status c, P e := by
  unfold armLog
  cases status.timeout <;> cases c.fdEvent <;> simp [ht, hs]

/-- The sessions `clean_up` completes, in the order it does. -/
def unfinished (c : Conn) : List Session := c.inProcess.toList ++ c.queryList

/-- The connection after `clean_up`. -/
@[simps] def cleaned (c : Conn) : Conn :=
  { c with
    fdEvent := none
    timeout := if c.fdEvent.isSome then { c.timeout with attached := false } else c.timeout
    inProcess := none
    queryList := []
    log := ((unfinished c).map fun q => Ev.done (q.setCode (-1) "closed")).reverse ++ c.log }

theorem foldl_flush (qs : List Session) (c : Conn) :
    qs.foldl flush c =
      { c with log := (qs.map fun q => Ev.done (q.setCode (-1) "closed")).reverse ++ c.log } := by
  induction qs generalizing c with
  | nil => rfl
  | cons q qs ih => rw [List.foldl_cons, ih]; simp [flush, Conn.onQueryDone]

theorem cleanUp_eq (c : Conn) : cleanUp c = cleaned c := by
  unfold cleanUp cleaned unfinished
  simp only [foldl_flush]
  cases hf : c.fdEvent <;> cases hp : c.inProcess <;> simp [flush, Conn.onQueryDone, hf, hp]

/-- The history the end of the rows adds. -/
def fetchEndLog (a : Answer) (r : MysqlRes) : List Ev :=
  [.call .affectedRows a, .call (.freeResult r) a, .call (.numRows r) a] ++
    (if a.errno ≠ 0 then [.call .error a] else []) ++ [.call .errno a]

/-- The session handed to `OnQueryDone` at the end of the rows. -/
def fetchEndSession (a : Answer) (q : Session) : Session :=
  doneSession a a.errno (if a.errno ≠ 0 then some a.error else none) (q.setResultRows a.numRows)

@[simp] theorem fetchEndSession_id (a : Answer) (q : Session) : (fetchEndSession a q).id = q.id := by
  simp [fetchEndSession]

@[simps] def fetchEnded (a : Answer) (q : Session) (r : MysqlRes) (c : Conn) : Conn :=
  { c with
    log := .done (fetchEndSession a q) :: (fetchEndLog a r ++ c.log)
    inProcess := none
    currentState := .connectionIdle }

theorem fetchEnd_eq (a : Answer) (q : Session) (r : MysqlRes) (c : Conn) :
    fetchEnd a q r c = fetchEnded a q r c := by
  simp only [fetchEnd, doneCurrentQuery, fetchEnded, fetchEndSession, fetchEndLog, doneSession]
  by_cases h : a.errno = 0 <;> simp [h, Conn.call, Conn.onQueryDone, Conn.toState]

/-- The history one row adds. -/
def fetchRowLog (a : Answer) (q : Session) (r : MysqlRes) : List Ev :=
  .call (.numFields r) a :: (if q.columNames.isEmpty then [.call (.fetchField r) a] else [])

@[simps] def rowFetched (a : Answer) (q : Session) (r : MysqlRes) (row : Row) (c : Conn) : Conn :=
  { c with
    log := fetchRowLog a q r ++ c.log
    inProcess := some ((parseResultDesc r q).pendingRow (rowText r row))
    currentState := .fetchRowStart }

theorem fetchRow_eq (a : Answer) (q : Session) (r : MysqlRes) (row : Row) (c : Conn) :
    (fetchRow a q r row c).toState .fetchRowStart = rowFetched a q r row c := by
  unfold fetchRow rowFetched fetchRowLog
  by_cases h : q.columNames.isEmpty = true <;> simp [h, Conn.call, Conn.toState]

@[simp] theorem parseResultDesc_id (r : MysqlRes) (q : Session) : (parseResultDesc r q).id = q.id := by
  unfold parseResultDesc; split <;> rfl

@[simp] theorem parseResultDesc_dbName (r : MysqlRes) (q : Session) :
    (parseResultDesc r q).dbName = q.dbName := by
  unfold parseResultDesc; split <;> rfl

/-! ## The rules -/

/-- `Issues c ev k l`: in the state it is in, the pass makes the call `l` of the operation `k`. -/
inductive Issues (c : Conn) (ev : WaitStatus) : Kind → LibCall → Prop
  | connectStart : c.currentState = .connectStart → Issues c ev .connect (.realConnectStart c.option)
  | connectCont : c.currentState = .connectWait → Issues c ev .connect (.realConnectCont ev)
  | selectDbStart {q : Session} : c.currentState = .selectDbStart → c.inProcess = some q →
    Issues c ev .selectDb (.selectDbStart (cStr q.dbName))
  | selectDbCont {q : Session} : c.currentState = .selectDbWait → c.inProcess = some q →
    Issues c ev .selectDb (.selectDbCont ev)
  | queryStart {q : Session} : c.currentState = .queryStart → c.inProcess = some q →
    q.query.isEmpty = false → Issues c ev .query (.realQueryStart q)
  | queryCont {q : Session} : c.currentState = .queryWait → c.inProcess = some q →
    Issues c ev .query (.realQueryCont ev)
  | fetchRowStart : c.currentState = .fetchRowStart → Issues c ev .fetchRow (.fetchRowStart c.result)
  | fetchRowCont : c.currentState = .fetchRowWait → Issues c ev .fetchRow (.fetchRowCont c.result ev)
  | closeStart : c.currentState = .closeStart → Issues c ev .close .closeStart
  | closeCont : c.currentState = .closeWait → Issues c ev .close (.closeCont ev)

/-- The error test made on the call: the local error number, but the member `err_no_` after
`mysql_real_query_cont`; connects, row fetches and closes are not tested. -/
def Conn.reports (c : Conn) (a : Answer) : LibCall → Bool
  | .selectDbStart _ | .selectDbCont _ | .realQueryStart _ => a.err ≠ 0
  | .realQueryCont _ => c.errNo ≠ 0
  | _ => false

/-- An error branch: the session is completed with `code`, the next state is chosen by `IsFatalError`. -/
@[simps] def failed (a : Answer) (code : Int) (q : Session) (c : Conn) : Conn :=
  { c with
    log := .done (doneSession a code (some a.error) q) :: .call .affectedRows a :: .call .error a :: c.log
    inProcess := none
    currentState := if isFatalError code then .closeStart else .connectionIdle }

theorem failQuery_eq {c : Conn} {q : Session} (h : c.inProcess = some q) (a : Answer) (code : Int) :
    failQuery a code c = .goOn (failed a code q c) := by
  have h' : (c.call .error a).inProcess = some q := h
  unfold failQuery
  rw [doneCurrentQuery_eq h']
  rfl

/-- A session that ends without a result set, on an error that is none (`code` 0, or -9999). -/
@[simps] def skipped (a : Answer) (code : Int) (m : String) (q : Session) (c : Conn) : Conn :=
  { c with
    log := .done (doneSession a code (some m) q) :: .call .affectedRows a :: c.log
    inProcess := none
    currentState := .connectionIdle }

theorem skipped_eq {c : Conn} {q : Session} (h : c.inProcess = some q) (a : Answer) (code : Int) (m : String) :
    (doneCurrentQuery a code (some m) c).toState .connectionIdle = skipped a code m q c := by
  simp [doneCurrentQuery_eq h, skipped, Conn.toState, retire, Conn.call]

/-- `CONNECT_DONE` after a successful connect. -/
@[simps] def connected (c : Conn) : Conn :=
  { c with
    ready := true
    currentState := .connectionIdle
    lastSelectedDb := c.option.dbname
    log := (if c.client then [.onConnectReady] else []) ++ .ready true :: c.log }

/-- `CLOSE_DONE`. -/
@[simps] def closed (c : Conn) : Conn :=
  { cleaned (c.setReady false) with
    currentState := .connectDone
    log := (if c.client then [.onConnectionClosed] else []) ++ (cleaned (c.setReady false)).log }

/-- The head of the queue goes into process. -/
@[simps] def taken (q : Session) (w : List Session) (c : Conn) : Conn :=
  { c with
    inProcess := some q
    queryList := w
    currentState := if needsSelect c q then .selectDbStart else .queryStart }

/-- Everything one pass can do. -/
inductive Pass (a : Answer) (ev : WaitStatus) (c : Conn) : Turn → Prop
  /-- The call does not finish: arm the events and return. -/
  | wait {k : Kind} {l : LibCall} : Issues c ev k l → c.reports a l = false → a.status.isZero = false →
    Pass a ev c (.rest (armed a a.status ((c.call l a).toState k.wait)))
  /-- The call finishes. -/
  | finish {k : Kind} {l : LibCall} : Issues c ev k l → c.reports a l = false → a.status.isZero = true →
    Pass a ev c (.goOn ((k.store a (c.call l a)).toState k.finished))
  /-- The call is taken to have failed. -/
  | fail {k : Kind} {l : LibCall} {q : Session} : Issues c ev k l → c.reports a l = true →
    c.inProcess = some q → Pass a ev c (.goOn (failed a a.err q (c.call l a)))
  | refused : c.currentState = .connectDone → c.mysqlRet = false →
    Pass a ev c (.goOn ((c.setReady false).toState .closeStart))
  | connected : c.currentState = .connectDone → c.mysqlRet = true → Pass a ev c (.goOn (connected c))
  | closed : c.currentState = .closeDone → Pass a ev c (.rest (closed c))
  | idle : c.currentState = .connectionIdle → c.queryList = [] → c.scheduleClose = false →
    Pass a ev c (.rest c)
  | closing : c.currentState = .connectionIdle → c.queryList = [] → c.scheduleClose = true →
    Pass a ev c (.goOn ((c.emit .closing).toState .closeStart))
  | take {q : Session} {w : List Session} : c.currentState = .connectionIdle → c.queryList = q :: w →
    c.inProcess = none → Pass a ev c (.goOn (taken q w c))
  /-- `SELECT_DB_DONE`, a request to switch and nothing else. -/
  | switched {q : Session} : c.currentState = .selectDbDone → c.inProcess = some q → q.query.isEmpty = true →
    Pass a ev c (.goOn (skipped a 0 "db change success" q { c with lastSelectedDb := q.dbName }))
  | selected {q : Session} : c.currentState = .selectDbDone → c.inProcess = some q →
    q.query.isEmpty = false → Pass a ev c (.goOn { c with lastSelectedDb := q.dbName, currentState := .queryStart })
  | emptyQuery {q : Session} : c.currentState = .queryStart → c.inProcess = some q → q.query.isEmpty = true →
    Pass a ev c (.goOn (skipped a (-9999) "empty query" q c))
  | noResult {q : Session} : c.currentState = .queryResultReady → c.inProcess = some q → a.res = none →
    Pass a ev c (.goOn (failed a a.errno q
      { c with result := none, log := .call .errno a :: .call .useResult a :: c.log }))
  | gotResult {q : Session} {r : MysqlRes} : c.currentState = .queryResultReady → c.inProcess = some q →
    a.res = some r → Pass a ev c (.goOn
      { c with result := some r, log := .call .useResult a :: c.log, currentState := .fetchRowStart })
  | rowEnd {q : Session} {r : MysqlRes} : c.currentState = .fetchRowResultReady → c.inProcess = some q →
    c.result = some r → c.resultRow = none → Pass a ev c (.goOn (fetchEnded a q r c))
  | row {q : Session} {r : MysqlRes} {row : Row} : c.currentState = .fetchRowResultReady →
    c.inProcess = some q → c.result = some r → c.resultRow = some row →
    Pass a ev c (.goOn (rowFetched a q r row c))
  | checkFailed : Pass a ev c .checkFailed

/-! ## The `switch` follows the rules -/

section
variable {a : Answer} {ev : WaitStatus} {c : Conn}

/-- A call that is not taken to have failed goes through `go_next_state`. -/
theorem goNextState_pass {k : Kind} {l : LibCall} (hi : Issues c ev k l) (hr : c.reports a l = false)
    {c' : Conn} (hc : c' = if a.status.isZero then k.store a (c.call l a) else c.call l a) :
    Pass a ev c (goNextState a a.status k.wait k.finished c') := by
  unfold goNextState
  by_cases hz : a.status.isZero = true
  · rw [if_pos hz]
    rw [if_pos hz] at hc
    exact hc ▸ .finish hi hr hz
  · simp only [Bool.not_eq_true] at hz
    rw [hz] at hc ⊢
    simp only [Bool.false_eq_true, if_false] at hc ⊢
    rw [waitMysqlStatus_eq, hc]
    exact .wait hi hr hz

theorem call_inProcess {l : LibCall} {q : Session} (h : c.inProcess = some q) :
    (c.call l a).inProcess = some q := h

theorem handleStateConnect_pass : Pass a ev c (handleStateConnect a ev c) := by
  unfold handleStateConnect
  split
  case h_1 hs => exact goNextState_pass (.connectStart hs) rfl rfl
  case h_2 hs => exact goNextState_pass (.connectCont hs) rfl rfl
  case h_3 hs =>
    by_cases hr : c.mysqlRet = false
    · rw [if_pos hr]; exact .refused hs hr
    · rw [if_neg hr]
      have h : Pass a ev c (.goOn (connected c)) := .connected hs (by simpa using hr)
      cases hcl : c.client <;> simpa [connected, hcl, Conn.setReady, Conn.toState, Conn.emit] using h
  case h_4 hs => exact goNextState_pass (.closeStart hs) rfl (by split <;> rfl)
  case h_5 hs => exact goNextState_pass (.closeCont hs) rfl (by split <;> rfl)
  case h_6 hs =>
    have h : Pass a ev c (.rest (closed c)) := .closed hs
    rw [cleanUp_eq]
    cases hcl : c.client <;> simpa [closed, hcl, Conn.toState, Conn.emit] using h
  case h_7 => exact .checkFailed

theorem handleStateIDLE_pass (hs : c.currentState = .connectionIdle) : Pass a ev c (handleStateIDLE c) := by
  unfold handleStateIDLE
  split
  · rename_i hq
    split
    · rename_i hsc; exact .closing hs hq hsc
    · rename_i hsc; exact .idle hs hq (by simpa using hsc)
  · rename_i q w hq
    split
    · exact .checkFailed
    · rename_i hp
      have hp : c.inProcess = none := by simpa using hp
      exact .take hs hq hp

theorem handleStateSelectDB_pass : Pass a ev c (handleStateSelectDB a ev c) := by
  unfold handleStateSelectDB
  split
  · exact .checkFailed
  · rename_i q hp
    split
    · rename_i hs
      by_cases he : a.err = 0
      · simp only [he, ne_eq, not_true_eq_false, if_false]
        exact goNextState_pass (.selectDbStart hs hp) (by simp [Conn.reports, he]) (by split <;> rfl)
      · simp only [he, ne_eq, not_false_eq_true, if_true]
        rw [failQuery_eq (call_inProcess hp)]
        exact .fail (.selectDbStart hs hp) (by simp [Conn.reports, he]) hp
    · rename_i hs
      by_cases he : a.err = 0
      · simp only [he, ne_eq, not_true_eq_false, if_false]
        exact goNextState_pass (.selectDbCont hs hp) (by simp [Conn.reports, he]) (by split <;> rfl)
      · simp only [he, ne_eq, not_false_eq_true, if_true]
        rw [failQuery_eq (call_inProcess hp)]
        exact .fail (.selectDbCont hs hp) (by simp [Conn.reports, he]) hp
    · rename_i hs
      split
      · rename_i hq
        have hp' : ({ c with lastSelectedDb := q.dbName } : Conn).inProcess = some q := hp
        have h := @Pass.switched a ev c q hs hp hq
        rwa [← skipped_eq hp'] at h
      · rename_i hq
        exact .selected hs hp (by simpa using hq)
    · exact .checkFailed

/-- **The `switch` does what the rules say and nothing else.** -/
theorem handleStatePass_pass : Pass a ev c (handleStatePass a ev c) := by
  unfold handleStatePass
  cases hs : c.currentState
  case connectStart | connectWait | connectDone | closeStart | closeWait | closeDone =>
    exact handleStateConnect_pass
  case connectionIdle => exact handleStateIDLE_pass hs
  case selectDbStart | selectDbWait | selectDbDone => exact handleStateSelectDB_pass
  case stateNone | connectInit => exact .checkFailed
  case queryStart =>
    cases hp : c.inProcess with
    | none => exact .checkFailed
    | some q =>
      by_cases hq : q.query.isEmpty = true
      · simp only [hq, if_true]
        rw [skipped_eq hp]; exact .emptyQuery hs hp hq
      · simp only [hq, Bool.false_eq_true, if_false]
        have hi : Issues c ev .query (.realQueryStart q) := .queryStart hs hp (by simpa using hq)
        by_cases he : a.err = 0
        · simp only [he, ne_eq, not_true_eq_false, if_false]
          exact goNextState_pass hi (by simp [Conn.reports, he]) (by split <;> rfl)
        · simp only [he, ne_eq, not_false_eq_true, if_true]
          rw [failQuery_eq (call_inProcess hp)]
          exact .fail hi (by simp [Conn.reports, he]) hp
  case queryWait =>
    cases hp : c.inProcess with
    | none => exact .checkFailed
    | some q =>
      have hi : Issues c ev .query (.realQueryCont ev) := .queryCont hs hp
      by_cases he : c.errNo = 0
      · simp only [Conn.call_errNo, he, ne_eq, not_true_eq_false, if_false]
        exact goNextState_pass hi (by simp [Conn.reports, he]) (by split <;> rfl)
      · simp only [Conn.call_errNo, he, ne_eq, not_false_eq_true, if_true]
        rw [failQuery_eq (call_inProcess hp)]
        exact .fail hi (by simp [Conn.reports, he]) hp
  case queryResultReady =>
    cases hp : c.inProcess with
    | none => exact .checkFailed
    | some q =>
      cases hr : a.res with
      | none =>
        have h := @Pass.noResult a ev c q hs hp hr
        rwa [← failQuery_eq (by exact hp)] at h
      | some r => exact .gotResult hs hp hr
  case fetchRowStart => exact goNextState_pass (.fetchRowStart hs) rfl rfl
  case fetchRowWait => exact goNextState_pass (.fetchRowCont hs) rfl rfl
  case fetchRowResultReady =>
    cases hp : c.inProcess with
    | none => exact .checkFailed
    | some q =>
      cases hr : c.result with
      | none => exact .checkFailed
      | some r =>
        cases hrow : c.resultRow with
        | none => simp only [fetchEnd_eq]; exact .rowEnd hs hp hr hrow
        | some row => simp only [fetchRow_eq]; exact .row hs hp hr hrow

end

/-! ## From one pass to the whole loop -/

/-- The first pass, and the rest of the loop. -/
theorem handleState_goOn_or_rest {a : Answer} {as : List Answer} {ev : WaitStatus} {c c' : Conn}
    (h : handleState (a :: as) ev c = .ok c') :
    (∃ d, Pass a ev c (.goOn d) ∧ handleState as ev d = .ok c') ∨ Pass a ev c (.rest c') := by
  have hp : Pass a ev c (handleStatePass a ev c) := handleStatePass_pass
  simp only [handleState] at h
  generalize handleStatePass a ev c = t at h hp
  cases t with
  | goOn d => exact .inl ⟨d, hp, h⟩
  | rest d => exact .inr (Except.ok.inj h ▸ hp)
  | checkFailed => simp at h

/-- **Loop rule.** `P` holds whenever the loop goes round, `Q` when it returns. -/
theorem handleState_induct {P Q : Conn → Prop} {as : List Answer} {ev : WaitStatus}
    (hgo : ∀ a ∈ as, ∀ c c', P c → Pass a ev c (.goOn c') → P c')
    (hrest : ∀ a ∈ as, ∀ c c', P c → Pass a ev c (.rest c') → Q c') {c c' : Conn} (hc : P c)
    (h : handleState as ev c = .ok c') : Q c' := by
  induction as generalizing c with
  | nil => simp [handleState] at h
  | cons a as ih =>
    rcases handleState_goOn_or_rest h with ⟨d, hp, hd⟩ | hp
    · exact ih (fun b hb => hgo b (by simp [hb])) (fun b hb => hrest b (by simp [hb])) (hgo a (by simp) c d hc hp) hd
    · exact hrest a (by simp) c c' hc hp

end LtApp.Mysql
