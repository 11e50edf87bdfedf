import LtApp.Base.Monitor
import LtApp.Mysql.Closed

/-!
# A fatal error closes the connection

`health` watches the history. Once a library call has reported a fatal error number the session in process is
completed, the very next call is `mysql_close_start`, and until the next connect no call of a later session is made:
what is completed is completed with -1.

Five of the six branches that end a session ask `IsFatalError`. The end of the rows does not, and
`mysql_real_query_cont` is asked only when the member `err_no_` is set: what it reports otherwise is found out if
`mysql_use_result` fails as well (`Health.missed`).
-/

namespace LtApp.Mysql

/-- The error number reported for a stage of a session. -/
def Ev.report : Ev → Option Int
  | .call (.selectDbStart _) a | .call (.selectDbCont _) a | .call (.realQueryStart _) a
  | .call (.realQueryCont _) a => some a.err
  | .call .errno a => some a.errno
  | _ => none

def Ev.fatal (e : Ev) : Bool := e.report.any isFatalError

/-- A call made for a session. -/
def Ev.serves : Ev → Bool
  | .call (.selectDbStart _) _ | .call (.selectDbCont _) _ | .call (.realQueryStart _) _ | .call (.realQueryCont _) _
  | .call .useResult _ | .call (.fetchRowStart _) _ | .call (.fetchRowCont _ _) _ => true
  | _ => false

/-- A call that reads what the failed one has left. -/
def Ev.settles : Ev → Bool
  | .call .error _ | .call .affectedRows _ | .call (.numRows _) _ | .call (.freeResult _) _ => true
  | _ => false

def Ev.isDone : Ev → Bool
  | .done _ => true
  | _ => false

def Ev.isCloseStart : Ev → Bool
  | .call .closeStart _ => true
  | _ => false

/-- If a session is completed, then with -1. -/
def Ev.flushes : Ev → Bool
  | .done q => q.code = -1
  | _ => true

/-- `InitConnection`, `Connect`, or a `SyncConnect` that succeeds. -/
def Ev.reconnects : Ev → Bool
  | .connect | .call (.init _) _ => true
  | .call (.realConnect _) a => a.ret
  | _ => false

inductive Health
  | fine
  /-- `mysql_real_query_cont` has reported a fatal error number, and `err_no_` is not set. -/
  | missed
  /-- A fatal error number has been reported. -/
  | reported
  /-- The session it was reported for has been completed. -/
  | completed
  /-- `mysql_close_start` has been called. -/
  | closing
deriving DecidableEq, Repr

/-- The error number is not tested. -/
def Ev.escapes (errNo : Int) : Ev → Bool
  | .call (.realQueryCont _) _ => errNo = 0
  | _ => false

/-- A call that asks what has become of the query. -/
def Ev.asks : Ev → Bool
  | .call .useResult _ | .call .errno _ => true
  | _ => false

def Health.next (errNo : Int) : Health → Ev → Health
  | .fine, e => if e.fatal then (if e.escapes errNo then .missed else .reported) else .fine
  | .missed, e => if e.fatal then .reported else .missed
  | .reported, .done _ => .completed
  | .reported, _ => .reported
  | .completed, _ => .closing
  | .closing, e => if e.reconnects then .fine else .closing

def Health.Allows : Health → Ev → Prop
  | .fine, _ => True
  | .missed, e => e.asks = true
  | .reported, e => e.settles = true ∨ e.isDone = true
  | .completed, e => e.isCloseStart = true
  | .closing, e => e.serves = false ∧ e.flushes = true

instance Health.decidableAllows : (h : Health) → (e : Ev) → Decidable (h.Allows e)
  | .fine, _ => isTrue trivial
  | .missed, e => inferInstanceAs (Decidable (e.asks = true))
  | .reported, e => inferInstanceAs (Decidable (e.settles = true ∨ e.isDone = true))
  | .completed, e => inferInstanceAs (Decidable (e.isCloseStart = true))
  | .closing, e => inferInstanceAs (Decidable (e.serves = false ∧ e.flushes = true))

/-- The history of a connection whose `err_no_` is `errNo`. -/
def health (errNo : Int) : Monitor Ev Health := ⟨.fine, Health.next errNo, Health.Allows⟩

instance health.decidableAllows (errNo : Int) (h : Health) (e : Ev) : Decidable ((health errNo).Allows h e) :=
  inferInstanceAs (Decidable (h.Allows e))

/-- An answer the machine does not ask `IsFatalError` about, though it should; that of `mysql_real_query_cont` is asked
about in time if the call has finished and `mysql_use_result` fails for good as well. -/
def Ev.Unheeded (errNo : Int) (h : Health) : Ev → Prop
  | .call (.numRows _) a => isFatalError a.errno = true
  | .call (.realQueryCont _) a => errNo = 0 ∧ isFatalError a.err = true ∧ a.status.isZero = false
  | .call .useResult a => h = .missed ∧ ¬ (a.res = none ∧ isFatalError a.errno = true)
  | _ => False

instance (errNo : Int) (h : Health) (e : Ev) : Decidable (e.Unheeded errNo h) := by
  unfold Ev.Unheeded
  split <;> infer_instance

/-- No answer goes unheeded. -/
def heeds (errNo : Int) : Monitor Ev Health := ⟨.fine, Health.next errNo, fun h e => ¬ e.Unheeded errNo h⟩

instance heeds.decidableAllows (errNo : Int) (h : Health) (e : Ev) : Decidable ((heeds errNo).Allows h e) :=
  inferInstanceAs (Decidable (¬ e.Unheeded errNo h))

/-- No `HandleState` runs in the state such a close leaves while `mysql_ret_` is set. -/
def Op.LeavesShut (c : Conn) (op : Op) : Prop :=
  op.resumes c = true → (health c.errNo).after c.log = .closing → c.currentState = .connectDone → c.mysqlRet = false

instance (c : Conn) (op : Op) : Decidable (op.LeavesShut c) := by unfold Op.LeavesShut; infer_instance

/-! ## Where the machine is -/

/-- The states in which a close is under way, inside the loop. -/
def State.closes : State → Bool
  | .closeStart | .closeWait | .closeDone => true
  | _ => false

/-- The health the history must show where the loop goes round. -/
def Health.Suits : Health → Conn → Prop
  | .fine, _ => True
  | .missed, c => c.currentState = .queryResultReady
  | .reported, _ => False
  | .completed, c => c.inProcess = none ∧ c.currentState = .closeStart
  | .closing, c => c.inProcess = none ∧
      (c.currentState.closes = true ∨ (c.currentState = .connectDone ∧ c.mysqlRet = false))

/-- The health the history must show between handlers. -/
def Health.Rests : Health → Conn → Prop
  | .fine, _ => True
  | .missed, _ | .reported, _ | .completed, _ => False
  | .closing, c => c.inProcess = none ∧ (c.currentState = .closeWait ∨ c.currentState.isClosed = true)

def Sound (n : Int) (c : Conn) : Prop := ∃ h, (health n).Stands c.log h ∧ h.Suits c
def SoundRest (n : Int) (c : Conn) : Prop := ∃ h, (health n).Stands c.log h ∧ h.Rests c

section
variable {n : Int} {l w : List Ev} {e : Ev}

theorem fine_ignores (h : e.fatal = false) : (health n).Ignores .fine e := ⟨trivial, by simp [health, Health.next, h]⟩

theorem fine_stands (hl : (health n).Stands l .fine) (h : ∀ e ∈ w, e.fatal = false) :
    (health n).Stands (w ++ l) .fine :=
  hl.append fun e he => fine_ignores (h e he)

theorem fine_reports (h : e.fatal = true) (he : e.escapes n = false) (hl : (health n).Stands l .fine) :
    (health n).Stands (e :: l) .reported := by
  have hs : (health n).Stands (e :: l) _ := hl.cons trivial
  simpa [health, Health.next, h, he] using hs

theorem fine_misses (h : e.fatal = true) (he : e.escapes n = true) (hl : (health n).Stands l .fine) :
    (health n).Stands (e :: l) .missed := by
  have hs : (health n).Stands (e :: l) _ := hl.cons trivial
  simpa [health, Health.next, h, he] using hs

/-- `mysql_use_result` fails, and `mysql_errno` says with what. -/
theorem missed_reports {a : Answer} (h : isFatalError a.errno = true) (hl : (health n).Stands l .missed) :
    (health n).Stands (.call .errno a :: .call .useResult a :: l) .reported := by
  have huse : (health n).Stands (.call .useResult a :: l) .missed := hl.ignore ⟨rfl, rfl⟩
  have hs : (health n).Stands (.call .errno a :: .call .useResult a :: l) _ := huse.cons rfl
  simpa [health, Health.next, Ev.fatal, Ev.report, h] using hs

theorem reported_ignores (h : e.settles = true) : (health n).Ignores .reported e := by
  refine ⟨.inl h, ?_⟩
  cases e <;> first | rfl | simp [Ev.settles] at h

theorem reported_done {q : Session} (hl : (health n).Stands l .reported) : (health n).Stands (.done q :: l) .completed :=
  hl.cons (.inr rfl)

theorem completed_closes {a : Answer} (hl : (health n).Stands l .completed) :
    (health n).Stands (.call .closeStart a :: l) .closing := hl.cons rfl

theorem closing_ignores (h : e.serves = false) (hr : e.reconnects = false) (hq : e.flushes = true) :
    (health n).Ignores .closing e := ⟨⟨h, hq⟩, by simp [health, Health.next, hr]⟩

theorem after_heeds (l : List Ev) : (heeds n).after l = (health n).after l := by
  induction l with
  | nil => rfl
  | cons e l ih => exact congrArg (Health.next n · e) ih

/-- The event has been heeded. -/
theorem heeded_at {h : Health} (hh : (heeds n).Accepts (w ++ e :: l)) (hl : (health n).Stands l h) :
    ¬ e.Unheeded n h := by
  have hu : ¬ e.Unheeded n ((heeds n).after l) := hh w e l rfl
  rwa [after_heeds, hl.after] at hu

/-- The history has no unheeded answer, and was begun with this `err_no_`. -/
def Heeded (n : Int) (c : Conn) : Prop := (heeds n).Accepts c.log

theorem heeded_mem {c : Conn} (hh : Heeded n c) (he : e ∈ c.log) : ∃ h, ¬ e.Unheeded n h := by
  obtain ⟨later, earlier, hl⟩ := List.append_of_mem he
  exact ⟨_, hh later e earlier hl⟩

theorem heeded_historic : Historic (Heeded n) := by
  intro c c' es hl _ hh
  unfold Heeded at hh
  rw [hl] at hh
  exact hh.of_append

/-- The event may happen in good health and during a close, and changes neither. -/
def Ev.Plain (e : Ev) : Prop :=
  e.fatal = false ∧ e.serves = false ∧ e.reconnects = false ∧ e.flushes = true

theorem plain_stands {h : Health} (hl : (health n).Stands l h) (hh : h = .fine ∨ h = .closing) (hes : ∀ e ∈ w, e.Plain) :
    (health n).Stands (w ++ l) h := by
  refine hl.append fun e he => ?_
  obtain ⟨hf, hs, hr, hq⟩ := hes e he
  rcases hh with rfl | rfl
  · exact fine_ignores hf
  · exact closing_ignores hs hr hq

theorem armLog_plain (a : Answer) (st : WaitStatus) (c : Conn) : ∀ e ∈ armLog a st c, e.Plain :=
  armLog_forall (P := Ev.Plain) ⟨rfl, rfl, rfl, rfl⟩ ⟨rfl, rfl, rfl, rfl⟩ st c

theorem cleaned_plain (c : Conn) : ∃ w, (cleaned c).log = w ++ c.log ∧ ∀ e ∈ w, e.Plain := by
  refine ⟨_, rfl, fun e he => ?_⟩
  obtain ⟨q, -, rfl⟩ : ∃ q ∈ unfinished c, Ev.done (q.setCode (-1) "closed") = e := by simpa using he
  exact ⟨rfl, rfl, rfl, rfl⟩

theorem closed_plain (c : Conn) : ∃ w, (closed c).log = w ++ c.log ∧ ∀ e ∈ w, e.Plain := by
  obtain ⟨w, hes, hall⟩ := cleaned_plain (c.setReady false)
  refine ⟨(if c.client then [.onConnectionClosed] else []) ++ (w ++ [.ready false]), by rw [closed_log, hes]; simp, ?_⟩
  have hq : (Ev.ready false).Plain ∧ Ev.onConnectionClosed.Plain := by
    simp [Ev.Plain, Ev.fatal, Ev.report, Ev.serves, Ev.reconnects, Ev.flushes]
  cases c.client <;> simpa [or_imp, forall_and, hq] using hall

end

/-! ## One pass -/

section
variable {n : Int} {a : Answer} {ev : WaitStatus} {c c' : Conn}

theorem fine_append {w : List Ev} (hc : (health n).Stands c.log .fine) (hl : c'.log = w ++ c.log)
    (hes : ∀ e ∈ w, e.fatal = false) : Sound n c' :=
  ⟨.fine, hl ▸ fine_stands hc hes, trivial⟩

/-- A session that has failed for good is completed, and the close is next. -/
theorem failed_reported {code : Int} {q : Session} {d : Conn} (hd : (health n).Stands d.log .reported)
    (hf : isFatalError code = true) : Sound n (failed a code q d) := by
  unfold Sound
  rw [failed_log]
  have herror := hd.ignore (e := .call .error a) (reported_ignores rfl)
  have hrows := herror.ignore (e := .call .affectedRows a) (reported_ignores rfl)
  exact ⟨.completed, reported_done hrows, rfl, by simp [hf]⟩

/-- The error branch closes the connection if the number it has been told is fatal. -/
theorem failed_sound {code : Int} {q : Session} {d : Conn} {e : Ev} {l : List Ev} (hl : (health n).Stands l .fine)
    (hd : d.log = e :: l) (he : e.report = some code) (hesc : e.escapes n = false) : Sound n (failed a code q d) := by
  cases hf : isFatalError code with
  | true => exact failed_reported (hd ▸ fine_reports (by simp [Ev.fatal, he, hf]) hesc hl) hf
  | false =>
    have hfine := hl.ignore (e := e) (fine_ignores (by simp [Ev.fatal, he, hf]))
    refine ⟨.fine, ?_, trivial⟩
    rw [failed_log, hd]
    exact fine_stands (w := [_, _, _]) hfine (by simp [Ev.fatal, Ev.report])

/-- What is fatal and not taken to have failed is the answer of `mysql_real_query_cont`. -/
theorem Issues.escapes {k : Kind} {l : LibCall} (hi : Issues c ev k l) (hn : c.errNo = n) (hr : c.reports a l = false)
    (hf : (Ev.call l a).fatal = true) : k = .query ∧ (Ev.call l a).escapes n = true ∧
      (¬ (Ev.call l a).Unheeded n .fine → a.status.isZero = true) := by
  cases hi with
  | selectDbStart | selectDbCont | queryStart =>
    have he : a.err = 0 := by simpa [Conn.reports] using hr
    simp [Ev.fatal, Ev.report, he, isFatalError] at hf
  | queryCont =>
    have he : n = 0 := hn ▸ by simpa [Conn.reports] using hr
    have hfatal : isFatalError a.err = true := by simpa [Ev.fatal, Ev.report] using hf
    refine ⟨rfl, by simp [Ev.escapes, he], fun hh => ?_⟩
    simpa [Ev.Unheeded, he, hfatal] using hh
  | _ => cases hf

theorem Issues.report {k : Kind} {l : LibCall} (hi : Issues c ev k l) (hn : c.errNo = n) (hr : c.reports a l = true) :
    (Ev.call l a).report = some a.err ∧ (Ev.call l a).escapes n = false := by
  cases hi with
  | queryCont =>
    have he : n ≠ 0 := hn ▸ by simpa [Conn.reports] using hr
    exact ⟨rfl, by simpa [Ev.escapes] using he⟩
  | selectDbStart | selectDbCont | queryStart => exact ⟨rfl, rfl⟩
  | _ => simp [Conn.reports] at hr

/-- From a connection in good health. -/
theorem pass_fine (hn : c.errNo = n) (hc : (health n).Stands c.log .fine) (hh : Heeded n c')
    (h : Pass a ev c (.goOn c')) : Sound n c' := by
  cases h with
  | @finish k l hi hr hz =>
    have hl : ((k.store a (c.call l a)).toState k.finished).log = [.call l a] ++ c.log := by cases k <;> rfl
    cases hf : (Ev.call l a).fatal with
    | false => exact fine_append hc hl (by simpa using hf)
    | true =>
      obtain ⟨rfl, hesc, -⟩ := hi.escapes hn hr hf
      exact ⟨.missed, fine_misses hf hesc hc, rfl⟩
  | fail hi hr hp =>
    obtain ⟨hreport, hesc⟩ := hi.report hn hr
    exact failed_sound hc rfl hreport hesc
  | @noResult q hs hp hres =>
    have huse := hc.ignore (e := .call .useResult a) (fine_ignores rfl)
    exact failed_sound huse rfl rfl rfl
  | @rowEnd q r hs hp hr hrow =>
    obtain ⟨x, hnot⟩ := heeded_mem (e := .call (.numRows r) a) hh (by simp [fetchEndLog])
    have hf : isFatalError a.errno = false := by simpa [Ev.Unheeded] using hnot
    refine fine_append hc (w := .done (fetchEndSession a q) :: fetchEndLog a r) rfl ?_
    unfold fetchEndLog
    by_cases he0 : a.errno = 0 <;> simp [he0, Ev.fatal, Ev.report] <;> simpa [he0] using hf
  | @row q r row =>
    refine fine_append hc (w := fetchRowLog a q r) rfl ?_
    unfold fetchRowLog
    cases q.columNames.isEmpty <;> simp [Ev.fatal, Ev.report]
  | connected =>
    refine fine_append hc (w := (if c.client then [.onConnectReady] else []) ++ [.ready true]) (by simp) ?_
    cases c.client <;> simp [Ev.fatal, Ev.report]
  | refused | closing | gotResult => exact fine_append hc (w := [_]) rfl (by simp [Ev.fatal, Ev.report])
  | take | selected => exact fine_append hc (w := []) rfl (by simp)
  | switched | emptyQuery => exact fine_append hc (w := [_, _]) rfl (by simp [Ev.fatal, Ev.report])

/-- What `mysql_real_query_cont` has reported is found out at once. -/
theorem pass_missed (hc : (health n).Stands c.log .missed) (hs : c.currentState = .queryResultReady) (hh : Heeded n c')
    (h : Pass a ev c (.goOn c')) : Sound n c' := by
  cases h with
  | @noResult q =>
    have hu : ¬ (Ev.call .useResult a).Unheeded n .missed :=
      heeded_at (w := .done (doneSession a a.errno (some a.error) q) :: .call .affectedRows a :: .call .error a ::
        [.call .errno a]) hh hc
    obtain ⟨-, hf⟩ : a.res = none ∧ isFatalError a.errno = true := by simpa [Ev.Unheeded] using hu
    exact failed_reported (missed_reports hf hc) hf
  | @gotResult q r hs' hp hres =>
    have hu : ¬ (Ev.call .useResult a).Unheeded n .missed := heeded_at (w := []) hh hc
    simp [Ev.Unheeded, hres] at hu
  | @finish k l hi | @fail k l q hi => rcases hi.state with h | h <;> rw [hs] at h <;> cases k <;> cases h
  | refused hs' | connected hs' | closing hs' | take hs' | switched hs' | selected hs' | emptyQuery hs' | rowEnd hs'
  | row hs' => simp [hs] at hs'

/-- `mysql_close_start` and `mysql_close_cont` are what a close that is due or under way calls. -/
theorem Issues.closes {k : Kind} {l : LibCall} (hi : Issues c ev k l) (hs : c.currentState.closes = true) :
    k = .close ∧ (c.currentState = .closeStart → l = .closeStart) ∧ (Ev.call l a).serves = false ∧
      (Ev.call l a).reconnects = false := by
  cases hi <;> simp_all [State.closes, Ev.serves, Ev.reconnects]

/-- `mysql_close_start` follows the completion at once. -/
theorem pass_completed (hc : (health n).Stands c.log .completed) (hp : c.inProcess = none)
    (hs : c.currentState = .closeStart) (h : Pass a ev c (.goOn c')) : Sound n c' := by
  cases h with
  | @finish k l hi hr hz =>
    obtain ⟨rfl, hl, -⟩ := hi.closes (a := a) (by rw [hs]; rfl)
    obtain rfl := hl hs
    exact ⟨.closing, completed_closes hc, hp, .inl rfl⟩
  | fail hi hr hq => simp [hp] at hq
  | refused hs' | connected hs' | closing hs' | take hs' | switched hs' | selected hs' | emptyQuery hs' | noResult hs'
  | gotResult hs' | rowEnd hs' | row hs' => simp [hs] at hs'

theorem pass_closing (hc : (health n).Stands c.log .closing) (hp : c.inProcess = none)
    (hs : c.currentState.closes = true ∨ (c.currentState = .connectDone ∧ c.mysqlRet = false))
    (h : Pass a ev c (.goOn c')) : Sound n c' := by
  cases h with
  | @finish k l hi hr hz =>
    rcases hs with hs | ⟨hs, -⟩
    · obtain ⟨rfl, -, hserves, hreconnects⟩ := hi.closes (a := a) hs
      exact ⟨.closing, hc.ignore (closing_ignores hserves hreconnects rfl), hp, .inl rfl⟩
    · rcases hi.state with h | h <;> rw [hs] at h <;> cases k <;> cases h
  | fail hi hr hq => simp [hp] at hq
  | refused hs' hr =>
    exact ⟨.closing, hc.ignore (closing_ignores rfl rfl rfl), hp, .inl rfl⟩
  | connected hs' hr =>
    rcases hs with hs | ⟨-, hret⟩
    · simp [hs', State.closes] at hs
    · simp [hret] at hr
  | closing hs' | take hs' | switched hs' | selected hs' | emptyQuery hs' | noResult hs' | gotResult hs' | rowEnd hs'
  | row hs' => rcases hs with hs | hs <;> simp [hs', State.closes] at hs

/-- **A pass keeps the machine sound.** -/
theorem pass_sound (hn : c.errNo = n) (hc : Sound n c) (hh : Heeded n c') (h : Pass a ev c (.goOn c')) :
    Sound n c' := by
  obtain ⟨x, hst, hs⟩ := hc
  cases x with
  | fine => exact pass_fine hn hst hh h
  | missed => exact pass_missed hst hs hh h
  | reported => exact hs.elim
  | completed => exact pass_completed hst hs.1 hs.2 h
  | closing => exact pass_closing hst hs.1 hs.2 h

theorem wait_sound {k : Kind} {l : LibCall} (hn : c.errNo = n) (hc : Sound n c)
    (hh : Heeded n (armed a a.status ((c.call l a).toState k.wait))) (hi : Issues c ev k l) (hr : c.reports a l = false)
    (hz : a.status.isZero = false) : SoundRest n (armed a a.status ((c.call l a).toState k.wait)) := by
  obtain ⟨x, hst, hs⟩ := hc
  cases x with
  | fine =>
    have hu : ¬ (Ev.call l a).Unheeded n .fine := heeded_at (w := armLog a a.status _) hh hst
    have hf : (Ev.call l a).fatal = false := by
      cases hf : (Ev.call l a).fatal with
      | false => rfl
      | true =>
        have hzero := (hi.escapes hn hr hf).2.2 hu
        rw [hz] at hzero
        cases hzero
    exact ⟨.fine, plain_stands (hst.ignore (fine_ignores hf)) (.inl rfl) (armLog_plain _ _ _), trivial⟩
  | missed =>
    have hs : c.currentState = .queryResultReady := hs
    rcases hi.state with h | h <;> rw [hs] at h <;> cases k <;> cases h
  | reported => exact hs.elim
  | completed =>
    obtain ⟨rfl, hl, -⟩ := hi.closes (a := a) (by rw [hs.2]; rfl)
    obtain rfl := hl hs.2
    exact ⟨.closing, plain_stands (completed_closes hst) (.inr rfl) (armLog_plain _ _ _), hs.1, .inl rfl⟩
  | closing =>
    rcases hs.2 with hcl | ⟨hcl, -⟩
    · obtain ⟨rfl, -, hserves, hreconnects⟩ := hi.closes (a := a) hcl
      have hcall := hst.ignore (closing_ignores hserves hreconnects rfl)
      exact ⟨.closing, plain_stands hcall (.inr rfl) (armLog_plain _ _ _), hs.1, .inl rfl⟩
    · rcases hi.state with h | h <;> rw [hcl] at h <;> cases k <;> cases h

theorem closed_sound (hc : Sound n c) (hcd : c.currentState = .closeDone) : SoundRest n (closed c) := by
  obtain ⟨h, hst, hs⟩ := hc
  obtain ⟨w, hlog, hes⟩ := closed_plain c
  unfold SoundRest
  rw [hlog]
  cases h with
  | fine => exact ⟨.fine, plain_stands hst (.inl rfl) hes, trivial⟩
  | reported => exact hs.elim
  | missed | completed => simp [Health.Suits, hcd] at hs
  | closing => exact ⟨.closing, plain_stands hst (.inr rfl) hes, rfl, .inr rfl⟩

theorem pass_sound_rest (hn : c.errNo = n) (hc : Sound n c) (hh : Heeded n c') (h : Pass a ev c (.rest c')) :
    SoundRest n c' := by
  cases h with
  | wait hi hr hz => exact wait_sound hn hc hh hi hr hz
  | closed hs => exact closed_sound hc hs
  | idle hs =>
    obtain ⟨h, hst, hsuits⟩ := hc
    cases h with
    | fine => exact ⟨.fine, hst, trivial⟩
    | reported => exact hsuits.elim
    | missed | completed => simp [Health.Suits, hs] at hsuits
    | closing => simp [Health.Suits, hs, State.closes] at hsuits

theorem handleState_sound {as : List Answer} (hn : c.errNo = n) (hc : Sound n c) (h : handleState as ev c = .ok c')
    (hh : Heeded n c') : SoundRest n c' :=
  heeded_historic.handleState (P := fun d => d.errNo = n ∧ Sound n d)
    (fun _ _ _ hd hh' hp => ⟨(pass_errNo (.inl hp)).trans hd.1, pass_sound hd.1 hd.2 hh' hp⟩)
    (fun _ _ _ hd hh' hp => pass_sound_rest hd.1 hd.2 hh' hp) hh ⟨hn, hc⟩ h

end

/-! ## Steps and runs -/

/-- Where no `HandleState` runs in the state a close leaves, the loop begins soundly. -/
theorem SoundRest.sound {n : Int} {c : Conn} (h : SoundRest n c)
    (hs : (health n).after c.log = .closing → c.currentState = .connectDone → c.mysqlRet = false) : Sound n c := by
  obtain ⟨x, hst, hr⟩ := h
  cases x with
  | fine => exact ⟨.fine, hst, trivial⟩
  | missed | reported | completed => exact hr.elim
  | closing =>
    refine ⟨.closing, hst, hr.1, ?_⟩
    rcases hr.2 with hw | hcl
    · exact .inl (by rw [hw]; rfl)
    · unfold State.isClosed at hcl
      split at hcl
      · exact .inr ⟨‹_›, hs hst.after ‹_›⟩
      · exact .inl (by rw [‹c.currentState = _›]; rfl)
      · cases hcl

/-- Nothing but plain events has happened. -/
theorem SoundRest.frame {n : Int} {c c' : Conn} {w : List Ev} (h : SoundRest n c) (hl : c'.log = w ++ c.log)
    (hes : ∀ e ∈ w, e.Plain) (hs : c'.currentState = c.currentState) (hp : c'.inProcess = c.inProcess) :
    SoundRest n c' := by
  obtain ⟨x, hst, hr⟩ := h
  unfold SoundRest
  rw [hl]
  cases x with
  | fine => exact ⟨.fine, plain_stands hst (.inl rfl) hes, trivial⟩
  | missed | reported | completed => exact hr.elim
  | closing => exact ⟨.closing, plain_stands hst (.inr rfl) hes, hp ▸ hr.1, hs ▸ hr.2⟩

/-- A connect starts afresh. -/
theorem SoundRest.reconnect {n : Int} {c : Conn} {e : Ev} (h : SoundRest n c) (he : e.reconnects = true) :
    (health n).Stands (e :: c.log) .fine := by
  obtain ⟨x, hst, hr⟩ := h
  have hplain : e.fatal = false ∧ e.serves = false ∧ e.flushes = true := by
    unfold Ev.reconnects at he
    split at he <;> simp_all [Ev.fatal, Ev.report, Ev.serves, Ev.flushes]
  cases x with
  | fine => exact hst.ignore (fine_ignores hplain.1)
  | missed | reported | completed => exact hr.elim
  | closing =>
    have hs : (health n).Stands (e :: c.log) _ := hst.cons ⟨hplain.2.1, hplain.2.2⟩
    simpa [health, Health.next, he] using hs

/-- Outside a close the connection is in good health. -/
theorem SoundRest.fine {n : Int} {c : Conn} (h : SoundRest n c) (hw : c.currentState ≠ .closeWait)
    (hcl : c.currentState.isClosed = false) : (health n).Stands c.log .fine := by
  obtain ⟨x, hst, hr⟩ := h
  cases x with
  | fine => exact hst
  | missed | reported | completed => exact hr.elim
  | closing => rcases hr.2 with hs | hs <;> simp_all

theorem step_sound {n : Int} {c c' : Conn} {op : Op} (hn : c.errNo = n) (hc : SoundRest n c) (hop : op.LeavesShut c)
    (hh : Heeded n c') (h : lts.step c op c') : SoundRest n c' := by
  obtain rfl := hn
  cases lts_stepped h with
  | init opt => exact ⟨.fine, (hc.reconnect (e := .call (.init opt) {}) rfl).ignore (fine_ignores rfl), trivial⟩
  | connect => exact ⟨.fine, hc.reconnect rfl, trivial⟩
  | @syncRefused a ha =>
    refine hc.frame (w := [.call (.realConnect c.option) a]) rfl ?_ rfl rfl
    simp [Ev.Plain, Ev.fatal, Ev.report, Ev.serves, Ev.reconnects, Ev.flushes, ha]
  | @syncConnected a ha =>
    exact ⟨.fine, (hc.reconnect (e := .call (.realConnect c.option) a) ha).ignore (fine_ignores rfl), trivial⟩
  | pendingQuery | clientClose | close => exact hc.frame (w := []) rfl (by simp) rfl rfl
  | pushed => exact hc.frame (w := [_]) rfl (by simp [Ev.Plain, Ev.fatal, Ev.report, Ev.serves, Ev.reconnects, Ev.flushes]) rfl rfl
  | @kicked op q c' ht hs hp hh' =>
    have hf := (hc.fine (by simp [hs]) (by rw [hs]; rfl)).ignore (e := .accept q) (fine_ignores rfl)
    exact handleState_sound (c := pushQuery q (op.target c)) rfl ⟨.fine, hf, trivial⟩ hh' hh
  | handled ht hh' =>
    have hs : SoundRest c.errNo (op.target c) := hc.frame (w := []) rfl (by simp) rfl rfl
    exact handleState_sound (c := op.target c) rfl (hs.sound (hop (by simp [Op.resumes, ht]))) hh' hh
  | syncClosed ht =>
    obtain ⟨w, hes, hall⟩ := cleaned_plain (op.target c)
    obtain ⟨x, hst, hr⟩ := hc
    have hplain : ∀ e ∈ [.call .close {}, .ready false] ++ w, Ev.Plain e := by
      simpa [or_imp, forall_and, Ev.Plain, Ev.fatal, Ev.report, Ev.serves, Ev.reconnects, Ev.flushes] using hall
    have hlog : (syncClosed (op.target c)).log = [.call .close {}, .ready false] ++ w ++ c.log := by
      rw [syncClosed_log, hes]; rfl
    unfold SoundRest
    rw [hlog]
    cases x with
    | fine => exact ⟨.fine, plain_stands hst (.inl rfl) hplain, trivial⟩
    | missed | reported | completed => exact hr.elim
    | closing => exact ⟨.closing, plain_stands hst (.inr rfl) hplain, rfl, .inr rfl⟩
  | closeKicked hp hs hh' =>
    have hf := hc.fine (by simp [hs]) (by rw [hs]; rfl)
    exact handleState_sound (c := { c with scheduleClose := true }) rfl ⟨.fine, hf, trivial⟩ hh' hh
  | @woken op e ev c' hw hf hh' =>
    have hs : SoundRest c.errNo (disarmed e c) := hc.frame (w := []) rfl (by simp) rfl rfl
    exact handleState_sound (c := disarmed e c) rfl (hs.sound (hop (by simp [Op.resumes, hw]))) hh' hh
  | checked =>
    exact hc.frame (w := [_, _]) rfl (by simp [Ev.Plain, Ev.fatal, Ev.report, Ev.serves, Ev.reconnects, Ev.flushes]) rfl rfl

/-- A step that leaves the connection closed leaves no session queued. -/
theorem step_closes {c c' : Conn} {op : Op} (h : lts.step c op c') (hs : c.currentState.isClosed = false)
    (hs' : c'.currentState.isClosed = true) : c'.queryList = [] := by
  have hrun : ∀ {d : Conn} {as : List Answer} {ev : WaitStatus}, handleState as ev d = .ok c' → c'.queryList = [] := by
    intro d as ev hh
    obtain ⟨e, rfl⟩ := handleState_isClosed hh hs'
    rfl
  cases lts_stepped h with
  | init | connect | syncConnected => cases hs'
  | syncRefused | pendingQuery | clientClose | pushed | close | checked => exact absurd hs' (by simp [hs])
  | kicked _ _ _ hh | handled _ hh | closeKicked _ _ hh | woken _ _ hh => exact hrun hh
  | syncClosed => rfl

theorem run_sound {n : Int} {c c' : Conn} {ops : List Op} (hn : c.errNo = n) (hc : SoundRest n c)
    (h : (lts.restrict fun c op => op.LeavesShut c).Run c ops c') (hh : Heeded n c') : SoundRest n c' :=
  (heeded_historic.run (P := fun d => d.errNo = n ∧ SoundRest n d)
    (fun _ _ _ hd hop hs hh' => ⟨(step_errNo hs).trans hd.1, step_sound hd.1 hd.2 hop hh' hs⟩) hh ⟨hn, hc⟩ h).2

theorem opened_sound (client : Bool) (errNo : Int) (st : State) (opt : MysqlOptions) :
    SoundRest errNo (opened client errNo st opt) :=
  ⟨.fine, fine_stands (w := [.call (.options (max (opt.queryTimeout / 1000) 1)) {}, .call (.init opt) {}])
    Monitor.stands_nil (by simp [Ev.fatal, Ev.report]), trivial⟩

/-- **A fatal error closes the connection.** In every run in which no `HandleState` runs over the state a close has
left, and whose history has no unheeded answer: what follows a fatal error number is the completion of its session
and `mysql_close_start`; up to the next connect no call is made for a later session, and whatever is completed is
completed with -1; and when the close has finished no session is left queued. -/
theorem fatal_error_closes (client : Bool) (errNo : Int) (st : State) (opt : MysqlOptions) (ops : List Op) (c : Conn)
    (h : (lts.restrict fun c op => op.LeavesShut c).Run (opened client errNo st opt) ops c)
    (hh : (heeds errNo).Accepts c.log) :
    (health errNo).Accepts c.log ∧
      ((health errNo).after c.log = .fine ∨ ((health errNo).after c.log = .closing ∧ c.inProcess = none ∧
        (c.currentState = .closeWait ∨ c.currentState.isClosed = true))) ∧
      ∀ op c', lts.step c op c' → c.currentState.isClosed = false → c'.currentState.isClosed = true →
        c'.queryList = [] := by
  obtain ⟨x, hst, hr⟩ := run_sound (n := errNo) rfl (opened_sound client errNo st opt) h hh
  refine ⟨hst.accepts, ?_, fun op c' hs => step_closes hs⟩
  rw [hst.after]
  cases x with
  | fine => exact .inl rfl
  | missed | reported | completed => exact hr.elim
  | closing => exact .inr ⟨rfl, hr⟩

/-- The condition is met by a query that fails with `CR_SERVER_LOST` while it is waited for, `err_no_` being 0; another
one is queued before the close is done. -/
theorem fatal_error_closes_run :
    ∃ c, (lts.restrict fun c op => op.LeavesShut c).Run (opened true 0 .stateNone {})
        [.syncConnect { ret := true },
          .startQuery { id := 1, query := [115] } [{}, { status := { read := true } }],
          .fdWake { read := true } [{ err := 2013 }, { errno := 2013 }, { status := { read := true } }],
          .startQuery { id := 2, query := [115] } [], .fdWake { read := true } [{}, {}]] c ∧
      (health 0).Accepts c.log := by
  obtain ⟨c, hr, hh⟩ : ∃ c, (lts.restrict fun c op => op.LeavesShut c).Run (opened true 0 .stateNone {})
      [.syncConnect { ret := true },
        .startQuery { id := 1, query := [115] } [{}, { status := { read := true } }],
        .fdWake { read := true } [{ err := 2013 }, { errno := 2013 }, { status := { read := true } }],
        .startQuery { id := 2, query := [115] } [], .fdWake { read := true } [{}, {}]] c ∧
      (heeds 0).Accepts c.log := exists_run (by decide)
  exact ⟨c, hr, (fatal_error_closes true 0 .stateNone {} _ c hr hh).1⟩

/-- **A row fetch that fails with `CR_SERVER_LOST` does not close the connection**: the next statement is sent on it. -/
theorem lost_while_fetching :
    ∃ c, (lts.restrict fun c op => op.LeavesShut c).Run (opened true 0 .stateNone {})
        [.syncConnect { ret := true },
          .startQuery { id := 1, query := [115] } [{}, {}, { res := some ⟨1, []⟩ }, {}, { errno := 2013 }, {}],
          .startQuery { id := 2, query := [115] } [{}, { status := { read := true } }]] c ∧
      ¬ (health 0).Accepts c.log := exists_run (by decide)

end LtApp.Mysql
