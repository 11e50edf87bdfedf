import LtApp.Base.Monitor
import LtApp.Mysql.Closed

/-!
# The result code of a session

A session goes through up to four stages: select the database unless it names none, or the one last selected, send the
query, take the result set if there is one, read its rows to the end. No database is selected at first; a session that
switches selects one, and so does `HandleStateConnect`, which counts that of the options. `outcomes` follows the session
in process through the calls of the history: each stage begins only after the one before it has succeeded, none is
attempted once one has failed, and when `DoneCurrentQuery` completes the session its `Code()` is the number of the
failure, or the stages are complete if it is 0.

The error of `mysql_real_query_cont` is the one that is not tested: the member `err_no_` is (`Ev.Misread`).
-/

namespace LtApp.Mysql

/-- How far the session in process has come. -/
inductive Course
  | untouched
  | selecting | selected
  | querying | queried
  /-- The query has no result set. -/
  | noResult
  | reading | drained
  | failed (code : Int)
deriving DecidableEq, Repr

/-- What the call tells of its stage, when the stage is not finished and when it is. -/
def Course.told (a : Answer) (blocked finished : Course) : Course :=
  if a.err ≠ 0 then .failed a.err else if a.status.isZero then finished else blocked

def Course.next (x : Course) (a : Answer) : LibCall → Course
  | .selectDbStart _ | .selectDbCont _ => .told a .selecting .selected
  | .realQueryStart _ | .realQueryCont _ => .told a .querying .queried
  | .useResult => if a.res.isSome then .reading else .noResult
  | .fetchRowStart _ | .fetchRowCont _ _ => if a.status.isZero ∧ a.row = none then .drained else .reading
  -- read where a result set or a row is missing: an error, or just none
  | .errno => if a.errno ≠ 0 then .failed a.errno else x
  | _ => x

/-- The stages from which the call may be made; `Progress.Allows` asks more of `mysql_real_query_start`. -/
def Course.Allows (x : Course) : LibCall → Prop
  | .selectDbStart _ => x = .untouched
  | .selectDbCont _ => x = .selecting
  | .realQueryCont _ => x = .querying
  | .useResult => x = .queried
  | .fetchRowStart _ | .fetchRowCont _ _ => x = .reading
  | _ => True

/-- Every stage the session requires has succeeded, and the rows are read to the end. -/
def Course.Complete (x : Course) (q : Session) : Prop :=
  if q.query.isEmpty then x = .selected else x = .noResult ∨ x = .drained

/-- The code of the completed session is what the stages say. -/
def Course.Reports (x : Course) (q : Session) : Prop :=
  match x with
  | .failed code => q.code = code
  | x => q.code = 0 → x.Complete q

/-- What the event before was, as far as it tells what comes next. -/
inductive Last
  | other
  /-- `mysql_affected_rows`: `DoneCurrentQuery` is completing the session. -/
  | affectedRows
  /-- A `SyncConnect` that succeeds, or a `do_connection_check`, is about to assign `ready_`. -/
  | check
deriving DecidableEq, Repr

def LibCall.last (a : Answer) : LibCall → Last
  | .affectedRows => .affectedRows
  | .realConnect _ => if a.ret then .check else .other
  | .ping => .check
  | _ => .other

structure Progress where
  course : Course := .untouched
  last   : Last := .other
  /-- The database last selected, by a session or by `HandleStateConnect`: none at first. -/
  db     : Bytes := []
  /-- The database of the options, which `HandleStateConnect` counts as selected. -/
  named  : Bytes := []
deriving DecidableEq, Repr

/-- The database selected, where the session in process turns out to be `q`. -/
def Progress.dbOf (p : Progress) (q : Session) : Bytes := if p.course = .selected then q.dbName else p.db

def Progress.next (p : Progress) : Ev → Progress
  | .call (.realQueryStart q) a => { p with course := p.course.next a (.realQueryStart q), last := .other, db := p.dbOf q }
  | .call (.init opt) _ => { p with last := .other, named := opt.dbname }
  | .call l a => { p with course := p.course.next a l, last := l.last a }
  | .done q => { p with course := .untouched, last := .other, db := if p.last = .affectedRows then p.dbOf q else p.db }
  | .ready true => { p with last := .other, db := if p.last = .check then p.db else p.named }
  | _ => { p with last := .other }

/-- A session requires the first stage unless it names no database, or the one last selected. A session not completed
by `DoneCurrentQuery` had the connection closed underneath it. -/
def Progress.Allows (p : Progress) : Ev → Prop
  | .call (.realQueryStart q) _ =>
    p.course = .selected ∨ (p.course = .untouched ∧ (q.dbName = [] ∨ q.dbName = p.db))
  | .call l _ => p.course.Allows l
  | .done q => p.last = .affectedRows → p.course.Reports q
  | _ => True

def outcomes : Monitor Ev Progress := ⟨{}, Progress.next, Progress.Allows⟩

/-- `mysql_real_query_cont` tells one thing and `err_no_` another. -/
def Ev.Misread (errNo : Int) : Ev → Prop
  | .call (.realQueryCont _) a => (errNo = 0 ∧ a.err ≠ 0) ∨ (errNo ≠ 0 ∧ a.err = 0)
  | _ => False

section
variable (x : Course) (l : LibCall) (q : Session) (p : Progress) (e : Ev) (errNo : Int)

instance Course.decidableAllows : Decidable (x.Allows l) := by unfold Course.Allows; split <;> infer_instance
instance Course.decidableComplete : Decidable (x.Complete q) := by unfold Course.Complete; infer_instance
instance Course.decidableReports : Decidable (x.Reports q) := by unfold Course.Reports; split <;> infer_instance

instance Progress.decidableAllows : Decidable (p.Allows e) := by
  unfold Progress.Allows
  cases e with
  | call l a => cases l <;> infer_instance
  | _ => infer_instance

instance outcomes.decidableAllows : Decidable (outcomes.Allows p e) := inferInstanceAs (Decidable (p.Allows e))

instance Ev.decidableMisread : Decidable (e.Misread errNo) := by
  unfold Ev.Misread
  cases e with
  | call l a => cases l <;> infer_instance
  | _ => infer_instance

end

/-! ## Where the machine is -/

/-- The course, and the database last selected, the state of the machine stands for. -/
def Course.At (x : Course) (db : Bytes) (c : Conn) : Prop :=
  match c.inProcess with
  | none => x = .untouched ∧ db = c.lastSelectedDb ∧ c.currentState.inSession = false
  | some q =>
    match c.currentState with
    | .selectDbStart => x = .untouched ∧ db = c.lastSelectedDb
    | .selectDbWait => x = .selecting ∧ db = c.lastSelectedDb
    | .selectDbDone => x = .selected ∧ db = c.lastSelectedDb
    | .queryStart => (x = .selected ∧ q.dbName = c.lastSelectedDb) ∨
        (x = .untouched ∧ db = c.lastSelectedDb ∧ (q.dbName = [] ∨ q.dbName = c.lastSelectedDb))
    | .queryWait => x = .querying ∧ db = c.lastSelectedDb ∧ q.query.isEmpty = false
    | .queryResultReady => x = .queried ∧ db = c.lastSelectedDb ∧ q.query.isEmpty = false
    | .fetchRowStart | .fetchRowWait => x = .reading ∧ db = c.lastSelectedDb ∧ q.query.isEmpty = false
    | .fetchRowResultReady =>
      x = (if c.resultRow = none then .drained else .reading) ∧ db = c.lastSelectedDb ∧ q.query.isEmpty = false
    | _ => db = c.lastSelectedDb

structure Progress.At (p : Progress) (c : Conn) : Prop where
  course : p.course.At p.db c
  last   : p.last = .other
  named  : p.named = c.option.dbname

/-- The history is faithful up to here, and the machine is where it says. -/
def Faithful (c : Conn) : Prop := ∃ p, outcomes.Stands c.log p ∧ p.At c

/-- A call that is part of no stage, nor of a connect. -/
def LibCall.aside : LibCall → Bool
  | .selectDbStart _ | .selectDbCont _ | .realQueryStart _ | .realQueryCont _ | .useResult | .fetchRowStart _
  | .fetchRowCont _ _ | .errno | .affectedRows | .init _ | .realConnect _ | .ping => false
  | _ => true

/-- An event that says nothing of a session, nor of a connect. -/
def Ev.aside : Ev → Bool
  | .call l _ => l.aside
  | .done _ => false
  | .ready b => !b
  | _ => true

section
variable {l w : List Ev} {x : Course} {db n : Bytes}

theorem aside_ignores {e : Ev} (h : e.aside = true) : outcomes.Ignores ⟨x, .other, db, n⟩ e := by
  cases e with
  | call l a =>
    cases l <;> first | (simp [Ev.aside, LibCall.aside] at h; done) | exact ⟨trivial, rfl⟩
  | done q => simp [Ev.aside] at h
  | ready b =>
    obtain rfl : b = false := by simpa [Ev.aside] using h
    exact ⟨trivial, rfl⟩
  | _ => exact ⟨trivial, rfl⟩

theorem aside_stands (hl : outcomes.Stands l ⟨x, .other, db, n⟩) (h : ∀ e ∈ w, e.aside = true) :
    outcomes.Stands (w ++ l) ⟨x, .other, db, n⟩ := hl.append fun e he => aside_ignores (h e he)

/-- `DoneCurrentQuery` completes a session as its course says. -/
theorem done_stands {a : Answer} {q : Session} (hl : outcomes.Stands l ⟨x, .other, db, n⟩) (hq : x.Reports q) :
    outcomes.Stands (.done q :: .call .affectedRows a :: l)
      ⟨.untouched, .other, if x = .selected then q.dbName else db, n⟩ := by
  have hcall : outcomes.Allows ⟨x, .other, db, n⟩ (.call .affectedRows a) := trivial
  have hdone : outcomes.Allows ⟨x, .affectedRows, db, n⟩ (.done q) := fun _ => hq
  exact (hl.cons hcall).cons hdone

/-- A session completed by `clean_up` is taken for closed underneath. -/
theorem flushed_stands {q : Session} (hl : outcomes.Stands l ⟨x, .other, db, n⟩) :
    outcomes.Stands (.done q :: l) ⟨.untouched, .other, db, n⟩ := hl.cons (by simp [outcomes, Progress.Allows])

theorem armLog_aside (a : Answer) (st : WaitStatus) (c : Conn) : ∀ e ∈ armLog a st c, e.aside = true :=
  armLog_forall (P := fun e => e.aside = true) rfl rfl st c

end

/-! ## One pass -/

section
variable {a : Answer} {ev : WaitStatus} {c c' : Conn} {k : Kind} {l : LibCall} {x : Course} {db n : Bytes}

/-- Outside a session the machine remembers the database last selected. -/
theorem Course.At.db_eq (hx : x.At db c) (hs : c.currentState ≠ .queryStart) : db = c.lastSelectedDb := by
  cases hp : c.inProcess <;> simp only [Course.At, hp] at hx
  · exact hx.2.1
  · revert hx
    cases hcs : c.currentState <;> simp_all

/-- The call is made when its stage is due. -/
theorem Issues.stands (hi : Issues c ev k l) {p : Progress} (hst : outcomes.Stands c.log p) (hp : p.At c) :
    ∃ db n, outcomes.Stands (.call l a :: c.log) ⟨p.course.next a l, .other, db, n⟩ ∧
      db = c.lastSelectedDb ∧ n = c.option.dbname := by
  obtain ⟨x, s, db, n⟩ := p
  obtain ⟨hx, rfl, hn⟩ := hp
  cases hi with
  | connectStart hs | connectCont hs | closeStart hs | closeCont hs =>
    exact ⟨_, _, hst.cons trivial, hx.db_eq (by simp [hs]), hn⟩
  | selectDbStart hs hp | selectDbCont hs hp =>
    obtain ⟨rfl, hdb⟩ : x = _ ∧ db = c.lastSelectedDb := by simpa only [Course.At, hs, hp] using hx
    exact ⟨_, _, hst.cons rfl, hdb, hn⟩
  | @queryStart q hs hp =>
    simp only [Course.At, hs, hp] at hx
    rcases hx with ⟨rfl, hq⟩ | ⟨rfl, hdb, hq⟩
    · exact ⟨_, _, hst.cons (.inl rfl), hq, hn⟩
    · exact ⟨_, _, hst.cons (.inr ⟨rfl, hdb ▸ hq⟩), hdb, hn⟩
  | queryCont hs hp =>
    obtain ⟨rfl, hdb, -⟩ : x = _ ∧ db = c.lastSelectedDb ∧ _ := by simpa only [Course.At, hs, hp] using hx
    exact ⟨_, _, hst.cons rfl, hdb, hn⟩
  | fetchRowStart hs | fetchRowCont hs =>
    cases hp : c.inProcess with
    | none => simp [Course.At, hp, hs, State.inSession] at hx
    | some q =>
      obtain ⟨rfl, hdb, -⟩ : x = _ ∧ db = c.lastSelectedDb ∧ _ := by simpa only [Course.At, hs, hp] using hx
      exact ⟨_, _, hst.cons rfl, hdb, hn⟩

/-- What a call that is not taken to have failed has told. -/
theorem Issues.err_zero (hi : Issues c ev k l) (hr : c.reports a l = false) (hm : ¬ (Ev.call l a).Misread c.errNo)
    (hk : k = .selectDb ∨ k = .query) : a.err = 0 := by
  cases hi with
  | queryCont =>
    have he : c.errNo = 0 := by simpa [Conn.reports] using hr
    simpa [Ev.Misread, he] using hm
  | selectDbStart | selectDbCont | queryStart => simpa [Conn.reports] using hr
  | _ => simp at hk

/-- A call taken to have failed has failed. -/
theorem Issues.err_ne (hi : Issues c ev k l) (hr : c.reports a l = true) (hm : ¬ (Ev.call l a).Misread c.errNo) :
    a.err ≠ 0 ∧ x.next a l = .failed a.err := by
  cases hi with
  | queryCont =>
    have he : c.errNo ≠ 0 := by simpa [Conn.reports] using hr
    have ha : a.err ≠ 0 := by simpa [Ev.Misread, he] using hm
    exact ⟨ha, by simp [Course.next, Course.told, ha]⟩
  | selectDbStart | selectDbCont | queryStart =>
    have ha : a.err ≠ 0 := by simpa [Conn.reports] using hr
    exact ⟨ha, by simp [Course.next, Course.told, ha]⟩
  | _ => simp [Conn.reports] at hr

theorem Issues.wait_at (hi : Issues c ev k l) (hx : x.At db c) (herr : k = .selectDb ∨ k = .query → a.err = 0)
    (hz : a.status.isZero = false) (hdb : n = c.lastSelectedDb) :
    (x.next a l).At n (armed a a.status ((c.call l a).toState k.wait)) := by
  cases hp : c.inProcess with
  | none => cases hi <;> simp_all [Course.At, Course.next, Kind.wait, State.inSession]
  | some q => cases hi <;> simp_all [Course.At, Course.next, Kind.wait, Course.told]

theorem Issues.finish_at (hi : Issues c ev k l) (hx : x.At db c) (herr : k = .selectDb ∨ k = .query → a.err = 0)
    (hz : a.status.isZero = true) (hdb : n = c.lastSelectedDb) :
    (x.next a l).At n ((k.store a (c.call l a)).toState k.finished) := by
  cases hp : c.inProcess with
  | none => cases hi <;> simp_all [Course.At, Course.next, Kind.finished, Kind.store, State.inSession]
  | some q => cases hi <;> simp_all [Course.At, Course.next, Kind.finished, Kind.store, Course.told]

theorem doneSession_code (a : Answer) (code : Int) (m : Option String) (q : Session) :
    (doneSession a code m q).code = if code ≠ 0 then code else q.code := by
  unfold doneSession; split <;> rfl

theorem doneSession_query (a : Answer) (code : Int) (m : Option String) (q : Session) :
    (doneSession a code m q).query = q.query := by
  unfold doneSession; split <;> rfl

theorem doneSession_dbName (a : Answer) (code : Int) (m : Option String) (q : Session) :
    (doneSession a code m q).dbName = q.dbName := by
  unfold doneSession; split <;> rfl

/-- A completed session leaves the machine where no session is. -/
theorem completed_faithful {d : Conn} (hst : outcomes.Stands d.log ⟨.untouched, .other, db, n⟩)
    (hdb : db = d.lastSelectedDb) (hn : n = d.option.dbname) (hp : d.inProcess = none)
    (hs : d.currentState.inSession = false) : Faithful d :=
  ⟨_, hst, by simp [Course.At, hp, hdb, hs], rfl, hn⟩

theorem failed_inSession (code : Int) (q : Session) (d : Conn) :
    (failed a code q d).currentState.inSession = false := by
  rw [failed_currentState]; split <;> rfl

/-- An error branch reports the failure. -/
theorem failed_faithful {q : Session} {d : Conn}
    (hl : outcomes.Stands d.log ⟨.failed a.err, .other, db, n⟩) (hdb : db = d.lastSelectedDb)
    (hn : n = d.option.dbname) (he : a.err ≠ 0) : Faithful (failed a a.err q d) := by
  have hq : (Course.failed a.err).Reports (doneSession a a.err (some a.error) q) := by
    simp [Course.Reports, doneSession_code, he]
  have herror := aside_stands (w := [.call .error a]) hl (by simp [Ev.aside, LibCall.aside])
  exact completed_faithful (done_stands herror hq) hdb hn rfl (failed_inSession _ _ _)

/-- A branch that asks `mysql_errno` reports what it is told. -/
theorem errno_stands {l : List Ev} {q : Session} {m : Option String} (hl : outcomes.Stands l ⟨x, .other, db, n⟩)
    (hx : x = .noResult ∨ x = .drained) (hq : q.query.isEmpty = false) :
    outcomes.Stands (.call .errno a :: l) ⟨x.next a .errno, .other, db, n⟩ ∧
      (x.next a .errno).Reports (doneSession a a.errno m q) ∧ x.next a .errno ≠ .selected := by
  refine ⟨hl.cons trivial, ?_⟩
  by_cases he : a.errno = 0
  · have hnext : x.next a .errno = x := by simp [Course.next, he]
    have hcomplete : x.Complete (doneSession a a.errno m q) := by
      simpa [Course.Complete, doneSession_query, hq] using hx
    rw [hnext]
    rcases hx with rfl | rfl <;> exact ⟨fun _ => hcomplete, by simp⟩
  · simp [Course.next, he, Course.Reports, doneSession_code]

/-- What `mysql_use_result` tells. -/
theorem useResult_stands (hst : outcomes.Stands c.log ⟨.queried, .other, db, n⟩) :
    outcomes.Stands (.call .useResult a :: c.log)
      ⟨if a.res.isSome then .reading else .noResult, .other, db, n⟩ := hst.cons rfl

/-- Where there is no result set. -/
theorem noResult_faithful {q : Session} (hst : outcomes.Stands c.log ⟨.queried, .other, db, n⟩)
    (hl : c'.log = .call .errno a :: .call .useResult a :: c.log) (hdb : db = c'.lastSelectedDb)
    (hn : n = c'.option.dbname) (hq : q.query.isEmpty = false) (hres : a.res = none) :
    Faithful (failed a a.errno q c') := by
  have huse := useResult_stands (a := a) hst
  rw [hres] at huse
  obtain ⟨herrno, hrep, hsel⟩ := errno_stands (a := a) (m := some a.error) huse (.inl rfl) hq
  have herror := aside_stands (w := [.call .error a]) herrno (by simp [Ev.aside, LibCall.aside])
  have hdone := done_stands (a := a) herror hrep
  rw [if_neg hsel] at hdone
  exact completed_faithful (by rw [failed_log, hl]; exact hdone) hdb hn rfl (failed_inSession _ _ _)

/-- Where the rows have been read to their end. -/
theorem fetchEnded_faithful {q : Session} {r : MysqlRes} (hst : outcomes.Stands c.log ⟨.drained, .other, db, n⟩)
    (hdb : db = c.lastSelectedDb) (hn : n = c.option.dbname) (hq : q.query.isEmpty = false) :
    Faithful (fetchEnded a q r c) := by
  obtain ⟨herrno, hrep, hsel⟩ := errno_stands (a := a) (m := if a.errno ≠ 0 then some a.error else none) hst
    (q := q.setResultRows a.numRows) (.inr rfl) hq
  have hcalls := aside_stands (w := [.call (.freeResult r) a, .call (.numRows r) a] ++
    if a.errno ≠ 0 then [.call .error a] else []) herrno (by split <;> simp [Ev.aside, LibCall.aside])
  have hdone := done_stands (a := a) hcalls hrep
  have hlog : (fetchEnded a q r c).log = .done (fetchEndSession a q) :: .call .affectedRows a ::
      (([.call (.freeResult r) a, .call (.numRows r) a] ++ if a.errno ≠ 0 then [.call .error a] else []) ++
        .call .errno a :: c.log) := by
    simp [fetchEndLog]
  rw [if_neg hsel] at hdone
  exact completed_faithful (by rw [hlog]; exact hdone) hdb hn rfl rfl

/-- A session that has no query. -/
theorem emptyQuery_faithful {q : Session} (hst : outcomes.Stands c.log ⟨x, .other, db, n⟩)
    (hx : (x = .selected ∧ q.dbName = c.lastSelectedDb) ∨
      (x = .untouched ∧ db = c.lastSelectedDb ∧ (q.dbName = [] ∨ q.dbName = c.lastSelectedDb)))
    (hn : n = c.option.dbname) :
    Faithful (skipped a (-9999) "empty query" q c) := by
  have hcode : (doneSession a (-9999) (some "empty query") q).code ≠ 0 := by simp [doneSession_code]
  have hrep : x.Reports (doneSession a (-9999) (some "empty query") q) := by
    rcases hx with ⟨rfl, -⟩ | ⟨rfl, -⟩ <;> exact fun h => absurd h hcode
  refine completed_faithful (done_stands hst hrep) ?_ hn rfl rfl
  rcases hx with ⟨rfl, hq⟩ | ⟨rfl, hdb, -⟩
  · simp [doneSession_dbName, hq]
  · simpa using hdb

/-- The connection is there: the machine counts the database the connect has named as selected. -/
theorem connected_faithful {p : Progress} (hst : outcomes.Stands c.log p) (hp : p.At c)
    (hs : c.currentState = .connectDone) : Faithful (connected c) := by
  have hready : outcomes.Stands (.ready true :: c.log) ⟨p.course, .other, p.named, p.named⟩ := by
    have h : outcomes.Stands (.ready true :: c.log) _ := hst.cons trivial
    simpa [outcomes, Progress.next, hp.last] using h
  have hlog : (connected c).log = (if c.client then [.onConnectReady] else []) ++ .ready true :: c.log := by simp
  have hclient := aside_stands (w := if c.client then [.onConnectReady] else []) hready
    (by cases c.client <;> simp [Ev.aside])
  rw [← hlog] at hclient
  refine ⟨_, hclient, ?_, rfl, hp.named⟩
  have hx := hp.course
  have hn := hp.named
  cases hq : c.inProcess <;> simp_all [Course.At, State.inSession]

/-- A step between the stages of a session. -/
theorem aside_faithful {p : Progress} {w : List Ev} (hst : outcomes.Stands c.log p) (hp : p.At c)
    (hl : c'.log = w ++ c.log) (hes : ∀ e ∈ w, e.aside = true) (hx : p.course.At p.db c')
    (hn : p.named = c'.option.dbname) : Faithful c' := by
  obtain ⟨x, s, db, n⟩ := p
  obtain rfl : s = .other := hp.last
  exact ⟨_, hl ▸ aside_stands hst hes, hx, rfl, hn⟩

theorem pass_faithful (hc : Faithful c) (hm : Without Ev.Misread c') (h : Pass a ev c (.goOn c')) : Faithful c' := by
  have he := pass_errNo (.inl h)
  obtain ⟨p, hst, hp⟩ := hc
  cases h with
  | @finish k l hi hr hz =>
    have hl : ((k.store a (c.call l a)).toState k.finished).log = .call l a :: c.log := by cases k <;> rfl
    have hmis : ¬ (Ev.call l a).Misread c.errNo := he ▸ hm _ (by rw [hl]; simp)
    obtain ⟨db, n, hcall, hdb, hn⟩ := hi.stands (a := a) hst hp
    exact ⟨_, hl ▸ hcall, hi.finish_at hp.course (hi.err_zero hr hmis) hz hdb, rfl, by cases k <;> exact hn⟩
  | @fail k l q hi hr hq =>
    have hmis : ¬ (Ev.call l a).Misread c.errNo := he ▸ hm _ (by simp)
    obtain ⟨hne, hnext⟩ := hi.err_ne (x := p.course) hr hmis
    obtain ⟨db, n, hcall, hdb, hn⟩ := hi.stands (a := a) hst hp
    exact failed_faithful (d := c.call l a) (hnext ▸ hcall) hdb hn hne
  | refused hs | closing hs =>
    refine aside_faithful hst hp (w := [_]) rfl (by simp [Ev.aside]) ?_ hp.named
    have hx := hp.course
    cases hq : c.inProcess <;> simp_all [Course.At, State.inSession]
  | connected hs => exact connected_faithful hst hp hs
  | @take q w hs hq hpr =>
    refine aside_faithful hst hp (w := []) rfl (by simp) ?_ hp.named
    obtain ⟨hx, hdb, -⟩ : p.course = .untouched ∧ p.db = c.lastSelectedDb ∧ _ := by
      simpa only [Course.At, hpr] using hp.course
    cases hn : needsSelect c q with
    | true => simp [Course.At, hn, hx, hdb]
    | false =>
      have hsame : q.dbName = [] ∨ q.dbName = c.lastSelectedDb := by simpa [needsSelect, imp_iff_not_or] using hn
      simp [Course.At, hn, hx, hdb, hsame]
  | @switched q hs hpr hq =>
    obtain ⟨x, s, db, n⟩ := p
    obtain ⟨hx, rfl, hn⟩ := hp
    obtain ⟨rfl, -⟩ : x = .selected ∧ db = c.lastSelectedDb := by simpa only [Course.At, hs, hpr] using hx
    have hrep : Course.selected.Reports (doneSession a 0 (some "db change success") q) :=
      fun _ => by simp [Course.Complete, doneSession_query, hq]
    exact completed_faithful (done_stands hst hrep) (by simp [doneSession_dbName]) hn
      rfl rfl
  | selected hs hpr hq =>
    refine aside_faithful hst hp (w := []) rfl (by simp) ?_ hp.named
    obtain ⟨hx, -⟩ : p.course = .selected ∧ p.db = c.lastSelectedDb := by
      simpa only [Course.At, hs, hpr] using hp.course
    simp [Course.At, hpr, hx]
  | @emptyQuery q hs hpr hq =>
    obtain ⟨x, s, db, n⟩ := p
    obtain ⟨hx, rfl, hn⟩ := hp
    exact emptyQuery_faithful hst (by simpa only [Course.At, hs, hpr] using hx) hn
  | @noResult q hs hpr hres =>
    obtain ⟨x, s, db, n⟩ := p
    obtain ⟨hx, rfl, hn⟩ := hp
    obtain ⟨rfl, hdb, hq⟩ : x = .queried ∧ db = c.lastSelectedDb ∧ _ := by simpa only [Course.At, hs, hpr] using hx
    exact noResult_faithful hst rfl hdb hn hq hres
  | @gotResult q r hs hpr hres =>
    obtain ⟨x, s, db, n⟩ := p
    obtain ⟨hx, rfl, hn⟩ := hp
    obtain ⟨rfl, hdb, hq⟩ : x = .queried ∧ db = c.lastSelectedDb ∧ _ := by simpa only [Course.At, hs, hpr] using hx
    exact ⟨_, useResult_stands hst, by simp [Course.At, hpr, hq, hdb, hres], rfl, hn⟩
  | @rowEnd q r hs hpr hr hrow =>
    obtain ⟨x, s, db, n⟩ := p
    obtain ⟨hx, rfl, hn⟩ := hp
    obtain ⟨rfl, hdb, hq⟩ : x = .drained ∧ db = c.lastSelectedDb ∧ q.query.isEmpty = false := by
      simpa only [Course.At, hs, hpr, hrow, if_true] using hx
    exact fetchEnded_faithful hst hdb hn hq
  | @row q r row hs hpr hr hrow =>
    obtain ⟨hx, hdb, hq⟩ : p.course = .reading ∧ p.db = c.lastSelectedDb ∧ q.query.isEmpty = false := by
      simpa [Course.At, hs, hpr, hrow] using hp.course
    have hquery : ((parseResultDesc r q).pendingRow (rowText r row)).query = q.query := by
      unfold parseResultDesc; split <;> rfl
    refine aside_faithful hst hp (w := fetchRowLog a q r) rfl ?_ ?_ hp.named
    · unfold fetchRowLog
      cases q.columNames.isEmpty <;> simp [Ev.aside, LibCall.aside]
    · simp [Course.At, hx, hquery, hq, hdb]

/-- Completing what is left when the connection is closed underneath it. -/
theorem cleaned_stands (hst : outcomes.Stands c.log ⟨x, .other, db, n⟩) (hx : x.At db c) :
    outcomes.Stands (cleaned c).log ⟨.untouched, .other, db, n⟩ := by
  have hflush : ∀ (qs : List Session) (l : List Ev), outcomes.Stands l ⟨.untouched, .other, db, n⟩ →
      outcomes.Stands ((qs.map fun q => Ev.done (q.setCode (-1) "closed")).reverse ++ l)
        ⟨.untouched, .other, db, n⟩ := by
    intro qs
    induction qs with
    | nil => exact fun l hl => hl
    | cons q qs ih => exact fun l hl => by simpa using ih _ (flushed_stands hl)
  rw [cleaned_log]
  unfold unfinished
  cases hp : c.inProcess with
  | none =>
    obtain ⟨rfl, -⟩ : x = .untouched ∧ _ := by simpa only [Course.At, hp] using hx
    exact hflush _ _ hst
  | some q => simpa using hflush c.queryList _ (flushed_stands hst)

theorem pass_faithful_rest (hc : Faithful c) (hm : Without Ev.Misread c') (h : Pass a ev c (.rest c')) :
    Faithful c' := by
  have he := pass_errNo (.inr h)
  obtain ⟨p, hst, hp⟩ := hc
  cases h with
  | @wait k l hi hr hz =>
    have hmis : ¬ (Ev.call l a).Misread c.errNo := he ▸ hm _ (by simp)
    obtain ⟨db, n, hcall, hdb, hn⟩ := hi.stands (a := a) hst hp
    exact ⟨_, aside_stands hcall (armLog_aside _ _ _), hi.wait_at hp.course (hi.err_zero hr hmis) hz hdb, rfl, hn⟩
  | closed hs =>
    obtain ⟨x, s, db, n⟩ := p
    obtain ⟨hx, rfl, hn⟩ := hp
    have hready : outcomes.Stands (c.setReady false).log ⟨x, .other, db, n⟩ :=
      aside_stands (w := [_]) hst (by simp [Ev.aside])
    have hclean := cleaned_stands (c := c.setReady false) hready hx
    exact completed_faithful (aside_stands hclean (by cases c.client <;> simp [Ev.aside])) (hx.db_eq (by simp [hs])) hn
      rfl rfl
  | idle => exact ⟨p, hst, hp⟩

theorem handleState_faithful {as : List Answer} (hm : Without Ev.Misread c') (hc : Faithful c)
    (h : handleState as ev c = .ok c') : Faithful c' :=
  without_historic.handleState (fun _ _ _ hd hw hp => pass_faithful hd hw hp)
    (fun _ _ _ hd hw hp => pass_faithful_rest hd hw hp) hm hc h

end

/-! ## Steps and runs -/

/-- A connect begins: whatever is in process is forgotten or left behind. -/
theorem Course.At.fresh {x : Course} {db : Bytes} {c d : Conn} (hx : x.At db c)
    (hs : c.currentState ≠ .queryStart) (hp : d.inProcess = c.inProcess) (hdb : d.lastSelectedDb = c.lastSelectedDb)
    (hf : d.currentState = .connectInit ∨ d.currentState = .connectStart ∨ d.currentState = .connectionIdle) :
    x.At db d := by
  have hdb' := hx.db_eq hs
  cases hq : c.inProcess <;> simp only [Course.At, hq] at hx
  · rcases hf with hf | hf | hf <;> simp [Course.At, hp, hq, hf, hx.1, hdb', hdb, State.inSession]
  · rcases hf with hf | hf | hf <;> simp [Course.At, hp, hq, hf, hdb', hdb]

theorem step_faithful {c c' : Conn} {op : Op} (hc : Faithful c) (hr : c.currentState.isRest = true)
    (hm : Without Ev.Misread c') (h : lts.step c op c') : Faithful c' := by
  obtain ⟨p, hst, hp⟩ := hc
  have hs : c.currentState ≠ .queryStart := fun hs => by simp [hs, State.isRest, State.isWait] at hr
  cases lts_stepped h with
  | init opt =>
    have hinit : outcomes.Stands (.call (.init opt) {} :: c.log) _ := hst.cons trivial
    exact ⟨_, hinit.ignore ⟨trivial, rfl⟩, hp.course.fresh hs rfl rfl (.inl rfl), rfl, rfl⟩
  | connect =>
    exact aside_faithful hst hp (w := [_]) rfl (by simp [Ev.aside]) (hp.course.fresh hs rfl rfl (.inr (.inl rfl)))
      hp.named
  | @syncRefused a ha =>
    have hcall : outcomes.Stands (.call (.realConnect c.option) a :: c.log) _ := hst.cons trivial
    exact ⟨_, hcall, hp.course, by simp [outcomes, Progress.next, LibCall.last, ha], hp.named⟩
  | @syncConnected a ha =>
    have hcall : outcomes.Stands (.call (.realConnect c.option) a :: c.log) _ := hst.cons trivial
    have hready : outcomes.Stands (.ready true :: .call (.realConnect c.option) a :: c.log) _ := hcall.cons trivial
    refine ⟨_, hready, ?_, rfl, hp.named⟩
    simpa [outcomes, Progress.next, Course.next, LibCall.last, ha] using
      hp.course.fresh (d := syncConnected a c) hs rfl rfl (.inr (.inr rfl))
  | pendingQuery | clientClose | close =>
    exact aside_faithful hst hp (w := []) rfl (by simp) hp.course hp.named
  | pushed => exact aside_faithful hst hp (w := [_]) rfl (by simp [Ev.aside]) hp.course hp.named
  | @kicked op q c' ht _ _ hh =>
    have hpush : Faithful (pushQuery q (op.target c)) :=
      aside_faithful hst hp (w := [_]) rfl (by simp [Ev.aside]) hp.course hp.named
    exact handleState_faithful hm hpush hh
  | handled ht hh => exact handleState_faithful (c := op.target c) hm ⟨p, hst, hp.course, hp.last, hp.named⟩ hh
  | syncClosed ht =>
    obtain ⟨x, s, db, n⟩ := p
    obtain ⟨hx, rfl, hn⟩ := hp
    have hclean := cleaned_stands (c := op.target c) hst hx
    have hclosed := aside_stands (w := [.call .close {}, .ready false]) hclean (by simp [Ev.aside, LibCall.aside])
    exact completed_faithful (by simpa using hclosed) (hx.db_eq hs) hn rfl rfl
  | closeKicked _ _ hh =>
    exact handleState_faithful (c := { c with scheduleClose := true }) hm ⟨p, hst, hp.course, hp.last, hp.named⟩ hh
  | @woken op e ev c' _ _ hh =>
    exact handleState_faithful (c := disarmed e c) hm ⟨p, hst, hp.course, hp.last, hp.named⟩ hh
  | @checked a =>
    have hcall : outcomes.Stands (.call .ping a :: c.log) _ := hst.cons trivial
    have hready : ∀ b, ∃ s, outcomes.Stands (.ready b :: .call .ping a :: c.log) s ∧ s = { p with last := .other } := by
      intro b
      cases b <;> exact ⟨_, hcall.cons trivial, rfl⟩
    obtain ⟨_, hst', rfl⟩ := hready (a.err = 0)
    exact ⟨_, hst', hp.course, rfl, hp.named⟩

theorem run_faithful {c c' : Conn} {ops : List Op} (hc : Faithful c) (hr : c.currentState.isRest = true)
    (h : lts.Run c ops c') (hm : Without Ev.Misread c') : Faithful c' :=
  (without_historic.run (P := fun d => Faithful d ∧ d.currentState.isRest = true) (g := fun _ _ => True)
    (fun _ _ _ hd _ hs hm' => ⟨step_faithful hd.1 hd.2 hm' hs, step_isRest hd.2 hs⟩) hm ⟨hc, hr⟩ h.restrict_true).1

theorem opened_faithful (client : Bool) (errNo : Int) (st : State) (opt : MysqlOptions) :
    Faithful (opened client errNo st opt) := by
  have hinit : outcomes.Stands [.call (.init opt) {}] _ := Monitor.stands_nil.cons trivial
  exact ⟨_, hinit.ignore ⟨trivial, rfl⟩, ⟨rfl, rfl, rfl⟩, rfl, rfl⟩

/-- The session completed last has been completed with 0. -/
def endedWith0 : List Ev → Bool
  | .done q :: _ => q.code = 0
  | _ => false

end LtApp.Mysql
