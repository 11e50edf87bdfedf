import Mathlib.Algebra.GroupWithZero.Nat
import LtApp.Base.Monitor
import LtApp.Mysql.Phase

/-!
# Rows arrive complete and in order

The rows of a result set are fetched in `FETCH_ROW_START` and `FETCH_ROW_WAIT`, kept in `result_row_`, and appended to
the session in `FETCH_ROW_RESULT_READY`; between two of them the handler may return any number of times. `harvest` reads
from the history what the library has delivered for the query sent last. The state says how much of it the session in
process has got (`Fetched.At`): all of it, or all but the row in `result_row_`.
-/

namespace LtApp.Mysql

/-- A session as `QuerySession::New` makes it: no headers and no rows yet. -/
def Session.Fresh (q : Session) : Prop := q.columNames = [] ∧ q.results = []

instance (q : Session) : Decidable q.Fresh := by unfold Session.Fresh; infer_instance

/-! ## What the library has delivered -/

/-- The query sent last. -/
structure Fetched where
  /-- The session as it was when its query was sent. -/
  query  : Session
  result : Option MysqlRes := none
  /-- The rows delivered so far. -/
  rows   : List Row := []
  /-- A row fetch has delivered no row: the rows have ended, or an error has come. -/
  ended  : Bool := false
  /-- What `mysql_num_rows` has answered. -/
  count  : Option Nat := none
deriving DecidableEq

namespace Fetched

def fetch (f : Fetched) (a : Answer) : Fetched :=
  if a.status.isZero then
    match a.row with
    | some row => { f with rows := f.rows ++ [row], count := none }
    | none => { f with ended := true, count := none }
  else f

def next : Option Fetched → Ev → Option Fetched
  | _, .call (.realQueryStart q) _ => some { query := q }
  | s, .call .useResult a => s.map fun f => { f with result := a.res }
  | s, .call (.fetchRowStart _) a | s, .call (.fetchRowCont _ _) a => s.map (·.fetch a)
  | s, .call (.numRows _) a => s.map fun f => { f with count := some a.numRows }
  | _, .done _ => none
  | s, _ => s

/-- The session after one more row. -/
def collect (r : MysqlRes) (q : Session) (row : Row) : Session := (parseResultDesc r q).pendingRow (rowText r row)

theorem foldl_collect_id (r : MysqlRes) (q : Session) (rows : List Row) : (rows.foldl (collect r) q).id = q.id := by
  induction rows generalizing q with
  | nil => rfl
  | cons row rows ih => rw [List.foldl_cons, ih, collect, Session.pendingRow_id, parseResultDesc_id]

/-- The session reports the query and what was delivered for it. -/
def Reports (f : Fetched) (q : Session) : Prop :=
  ∃ r n, f.result = some r ∧ f.count = some n ∧ q.id = f.query.id ∧ q.results = (f.rows.foldl (collect r) f.query).results ∧
    q.columNames = (f.rows.foldl (collect r) f.query).columNames ∧ q.resultCount = toInt32 n

/-- A session completed when its rows have ended reports them. -/
def Allows (s : Option Fetched) : Ev → Prop
  | .done q => ∀ f, s = some f → f.ended = true → f.Reports q
  | _ => True

end Fetched

def harvest : Monitor Ev (Option Fetched) := ⟨none, Fetched.next, Fetched.Allows⟩

/-- `mysql_num_rows` on an unbuffered result returns the number of rows fetched so far. -/
def Ev.Counts (s : Option Fetched) : Ev → Prop
  | .call (.numRows _) a => ∀ f ∈ s, a.numRows = f.rows.length
  | _ => True

/-- The number of rows the event says there are. -/
def Ev.rowCount : Ev → Option Nat
  | .call (.numRows _) a => some a.numRows
  | _ => none

theorem counts_iff {s : Option Fetched} {e : Ev} : (∀ n ∈ e.rowCount, ∀ f ∈ s, n = f.rows.length) ↔ e.Counts s := by
  cases e with
  | call l a => cases l <;> simp [Ev.rowCount, Ev.Counts]
  | _ => simp [Ev.rowCount, Ev.Counts]

instance (s : Option Fetched) (e : Ev) : Decidable (e.Counts s) := decidable_of_iff _ counts_iff

def CountsRows : List Ev → Prop
  | [] => True
  | e :: log => e.Counts (harvest.after log) ∧ CountsRows log

instance decidableCountsRows : ∀ log : List Ev, Decidable (CountsRows log)
  | [] => isTrue trivial
  | _ :: log => @instDecidableAnd _ _ _ (decidableCountsRows log)

/-- A session that was fresh when its query was sent has been completed when its rows had ended: the library has
delivered `rows` of the result set `r` for it. -/
def Delivered (log : List Ev) (q₀ : Session) (r : MysqlRes) (rows : List Row) (q : Session) : Prop :=
  q₀.Fresh ∧ ∃ later earlier count, log = later ++ .done q :: earlier ∧
    harvest.after earlier = some { query := q₀, result := some r, rows, ended := true, count }

/-- The event says nothing of a query, nor of its rows. -/
def Ev.beside : Ev → Bool
  | .call (.realQueryStart _) _ | .call .useResult _ | .call (.fetchRowStart _) _ | .call (.fetchRowCont _ _) _
  | .call (.numRows _) _ | .done _ => false
  | _ => true

section
variable {s : Option Fetched} {l w : List Ev}

theorem beside_ignores {e : Ev} (h : e.beside = true) : harvest.Ignores s e := by
  cases e with
  | call l a => cases l <;> first | (simp [Ev.beside] at h; done) | exact ⟨trivial, rfl⟩
  | done q => simp [Ev.beside] at h
  | _ => exact ⟨trivial, rfl⟩

theorem beside_stands (hl : harvest.Stands l s) (h : ∀ e ∈ w, e.beside = true) : harvest.Stands (w ++ l) s :=
  hl.append fun e he => beside_ignores (h e he)

theorem call_harvest (hl : harvest.Stands l s) (call : LibCall) (a : Answer) :
    harvest.Stands (.call call a :: l) (Fetched.next s (.call call a)) :=
  Monitor.Stands.cons (e := Ev.call call a) hl trivial

/-- A session is completed before its rows have ended. -/
theorem done_harvest {q : Session} (hl : harvest.Stands l s) (hs : ∀ f, s = some f → f.ended = false) :
    harvest.Stands (.done q :: l) none := by
  apply hl.cons (e := Ev.done q)
  intro f hf hend
  rw [hs f hf] at hend
  cases hend

/-- The sessions `clean_up` completes. -/
theorem flushes_harvest {w : List Session} (hl : harvest.Stands l s) (hs : ∀ f, s = some f → f.ended = false) :
    ∃ s', harvest.Stands ((w.map fun q => Ev.done (q.setCode (-1) "closed")).reverse ++ l) s' ∧
      ∀ f, s' = some f → f.ended = false := by
  induction w generalizing l s with
  | nil => exact ⟨s, hl, hs⟩
  | cons q w ih =>
    obtain ⟨s', hl', hs'⟩ := ih (done_harvest (q := q.setCode (-1) "closed") hl hs) (by simp)
    exact ⟨s', by simpa using hl', hs'⟩

theorem armLog_beside (a : Answer) (st : WaitStatus) (c : Conn) : ∀ e ∈ armLog a st c, e.beside = true :=
  armLog_forall (P := fun e => e.beside = true) rfl rfl st c

end

/-! ## How much of it the session has -/

/-- Where the machine is in the query sent last. -/
def Fetched.At (s : Option Fetched) (c : Conn) : Prop :=
  match c.currentState with
  | .queryWait | .queryResultReady => ∃ q, c.inProcess = some q ∧ s = some { query := q }
  | .fetchRowStart | .fetchRowWait => ∃ q r rows, c.result = some r ∧ c.inProcess = some (rows.foldl (collect r) q) ∧
    s = some { query := q, result := some r, rows }
  | .fetchRowResultReady => ∃ q r rows, c.result = some r ∧ c.inProcess = some (rows.foldl (collect r) q) ∧
    s = some (match c.resultRow with
      | some row => { query := q, result := some r, rows := rows ++ [row] }
      | none => { query := q, result := some r, rows, ended := true })
  | _ => ∀ f, s = some f → f.ended = false

/-- The history is right so far, and the state knows what of it the session has. -/
def Harvested (c : Conn) : Prop := ∃ s, harvest.Stands c.log s ∧ Fetched.At s c

/-- The states of a query between its sending and its completion. -/
def State.awaitsRows : State → Bool
  | .queryWait | .queryResultReady | .fetchRowStart | .fetchRowWait | .fetchRowResultReady => true
  | _ => false

theorem Fetched.at_of_not {s : Option Fetched} {c : Conn} (h : c.currentState.awaitsRows = false) :
    Fetched.At s c ↔ ∀ f, s = some f → f.ended = false := by
  unfold Fetched.At
  split <;> simp_all [State.awaitsRows]

theorem Fetched.At.not_ended {s : Option Fetched} {c : Conn} (h : Fetched.At s c)
    (hs : c.currentState ≠ .fetchRowResultReady) : ∀ f, s = some f → f.ended = false := by
  unfold Fetched.At at h
  split at h
  case h_1 | h_2 =>
    obtain ⟨q, -, rfl⟩ := h
    intro f hf
    cases hf
    rfl
  case h_3 | h_4 =>
    obtain ⟨q, r, rows, -, -, rfl⟩ := h
    intro f hf
    cases hf
    rfl
  case h_5 hs' => exact absurd hs' hs
  case h_6 => exact h

/-! ## Passes -/

section
variable {a : Answer} {ev : WaitStatus} {c c' : Conn} {s : Option Fetched}

/-- What says nothing of rows leaves the machine where it is, if it leaves its fields alone. -/
theorem Harvested.frame {w : List Ev} (h : Harvested c) (hl : c'.log = w ++ c.log) (hes : ∀ e ∈ w, e.beside = true)
    (hs : c'.currentState = c.currentState) (hp : c'.inProcess = c.inProcess) (hr : c'.result = c.result)
    (hrow : c'.resultRow = c.resultRow) : Harvested c' := by
  obtain ⟨s, hst, hat⟩ := h
  refine ⟨s, hl ▸ beside_stands hst hes, ?_⟩
  unfold Fetched.At at hat ⊢
  rw [hs, hp, hr, hrow]
  exact hat

/-- It leads from one state outside a query to another. -/
theorem Harvested.aside {w : List Ev} (h : Harvested c) (hl : c'.log = w ++ c.log) (hes : ∀ e ∈ w, e.beside = true)
    (hs : c.currentState ≠ .fetchRowResultReady) (hs' : c'.currentState.awaitsRows = false) : Harvested c' := by
  obtain ⟨s, hst, hat⟩ := h
  exact ⟨s, hl ▸ beside_stands hst hes, (Fetched.at_of_not hs').2 (hat.not_ended hs)⟩

/-- A session is completed, and not because its rows have ended. -/
theorem harvested_done {es : List Ev} {q : Session} (hst : harvest.Stands es s) (hs : ∀ f, s = some f → f.ended = false)
    (hl : c'.log = .done q :: es) (hs' : c'.currentState.awaitsRows = false) : Harvested c' := by
  refine ⟨none, hl ▸ done_harvest hst hs, (Fetched.at_of_not hs').2 ?_⟩
  simp

theorem failed_awaitsRows (code : Int) (q : Session) (c : Conn) : (failed a code q c).currentState.awaitsRows = false := by
  rw [failed_currentState]
  split <;> rfl

/-- Where the machine is when the call of an operation has returned. -/
def Fetched.Called (k : Kind) (a : Answer) (s : Option Fetched) (c : Conn) : Prop :=
  match k with
  | .connect | .selectDb | .close => ∀ f, s = some f → f.ended = false
  | .query => ∃ q, c.inProcess = some q ∧ s = some { query := q }
  | .fetchRow => ∃ q r rows, c.result = some r ∧ c.inProcess = some (rows.foldl (collect r) q) ∧
    s = some (fetch { query := q, result := some r, rows } a)

theorem Issues.called {k : Kind} {l : LibCall} (hi : Issues c ev k l) (h : Harvested c) :
    ∃ s, harvest.Stands (.call l a :: c.log) s ∧ Fetched.Called k a s c := by
  obtain ⟨s, hst, hat⟩ := h
  cases hi with
  | connectStart hs | connectCont hs | closeStart hs | closeCont hs =>
    exact ⟨s, call_harvest hst _ a, hat.not_ended (by simp [hs])⟩
  | selectDbStart hs hp | selectDbCont hs hp =>
    exact ⟨s, call_harvest hst _ a, hat.not_ended (by simp [hs])⟩
  | @queryStart q hs hp hq => exact ⟨some { query := q }, call_harvest hst _ a, q, hp, rfl⟩
  | @queryCont q hs hp =>
    simp only [Fetched.At, hs] at hat
    exact ⟨s, call_harvest hst _ a, hat⟩
  | fetchRowStart hs | fetchRowCont hs =>
    simp only [Fetched.At, hs] at hat
    obtain ⟨q, r, rows, hr, hp, rfl⟩ := hat
    exact ⟨_, call_harvest hst _ a, q, r, rows, hr, hp, rfl⟩

theorem Fetched.Called.wait {k : Kind} {l : LibCall} (h : Fetched.Called k a s c) (hz : a.status.isZero = false) :
    Fetched.At s (armed a a.status ((c.call l a).toState k.wait)) := by
  cases k with
  | connect | selectDb | close => exact h
  | query => exact h
  | fetchRow =>
    obtain ⟨q, r, rows, hr, hp, rfl⟩ := h
    refine ⟨q, r, rows, hr, hp, ?_⟩
    simp [fetch, hz]

theorem Fetched.Called.finish {k : Kind} {l : LibCall} (h : Fetched.Called k a s c) (hz : a.status.isZero = true) :
    Fetched.At s ((k.store a (c.call l a)).toState k.finished) := by
  cases k with
  | connect | selectDb | close => exact h
  | query => exact h
  | fetchRow =>
    obtain ⟨q, r, rows, hr, hp, rfl⟩ := h
    refine ⟨q, r, rows, hr, hp, ?_⟩
    cases hrow : a.row <;> simp [fetch, hz, hrow, Kind.store]

theorem Fetched.Called.not_ended {k : Kind} {l : LibCall} (h : Fetched.Called k a s c) (hi : Issues c ev k l)
    (hr : c.reports a l = true) : ∀ f, s = some f → f.ended = false := by
  cases k with
  | connect | selectDb | close => exact h
  | query =>
    obtain ⟨q, -, rfl⟩ := h
    intro f hf
    cases hf
    rfl
  | fetchRow => cases hi <;> simp [Conn.reports] at hr

theorem Fetched.reports_end {q : Session} {r : MysqlRes} {rows : List Row} :
    Fetched.Reports { query := q, result := some r, rows, ended := true, count := some a.numRows }
      (fetchEndSession a (rows.foldl (collect r) q)) := by
  refine ⟨r, a.numRows, rfl, rfl, ?_, ?_⟩
  · rw [fetchEndSession_id, foldl_collect_id]
  · unfold fetchEndSession doneSession
    split <;> exact ⟨rfl, rfl, rfl⟩

theorem pass_harvested (h : Harvested c) (hp : Pass a ev c (.goOn c') ∨ Pass a ev c (.rest c')) : Harvested c' := by
  rcases hp with hp | hp
  · cases hp with
    | @finish k l hi hr hz =>
      obtain ⟨s, hst, hcalled⟩ := hi.called (a := a) h
      refine ⟨s, ?_, hcalled.finish hz⟩
      cases k <;> exact hst
    | @fail k l q hi hr hq =>
      obtain ⟨s, hst, hcalled⟩ := hi.called (a := a) h
      exact harvested_done (beside_stands (w := [.call .affectedRows a, .call .error a]) hst (by simp [Ev.beside]))
        (hcalled.not_ended hi hr) rfl (failed_awaitsRows _ _ _)
    | refused hs => exact h.aside (w := [.ready false]) rfl (by simp [Ev.beside]) (by simp [hs]) rfl
    | connected hs hr =>
      refine h.aside (w := (if c.client then [.onConnectReady] else []) ++ [.ready true]) (by simp) ?_ (by simp [hs]) rfl
      cases c.client <;> simp [Ev.beside]
    | closing hs => exact h.aside (w := [.closing]) rfl (by simp [Ev.beside]) (by simp [hs]) rfl
    | take hs =>
      refine h.aside (w := []) rfl (by simp) (by simp [hs]) ?_
      rw [taken_currentState]
      split <;> rfl
    | selected hs => exact h.aside (w := []) rfl (by simp) (by simp [hs]) rfl
    | switched hs | emptyQuery hs =>
      obtain ⟨s, hst, hat⟩ := h
      exact harvested_done (beside_stands (w := [.call .affectedRows a]) hst (by simp [Ev.beside]))
        (hat.not_ended (by simp [hs])) rfl rfl
    | @noResult q hs hq hres =>
      obtain ⟨s, hst, hat⟩ := h
      simp only [Fetched.At, hs] at hat
      obtain ⟨q, -, rfl⟩ := hat
      have huse := call_harvest hst .useResult a
      refine harvested_done (beside_stands (w := [.call .affectedRows a, .call .error a, .call .errno a]) huse
        (by simp [Ev.beside])) ?_ rfl (failed_awaitsRows _ _ _)
      intro f hf
      cases hf
      rfl
    | @gotResult q r hs hq hres =>
      obtain ⟨s, hst, hat⟩ := h
      simp only [Fetched.At, hs] at hat
      obtain ⟨q', hq', rfl⟩ := hat
      refine ⟨_, call_harvest hst .useResult a, q', r, [], rfl, hq', ?_⟩
      simp [Fetched.next, hres]
    | @rowEnd q r hs hq hr hrow =>
      obtain ⟨s, hst, hat⟩ := h
      simp only [Fetched.At, hs, hrow] at hat
      obtain ⟨q', r', rows, hr', hq', rfl⟩ := hat
      obtain rfl := Option.some.inj (hr'.symm.trans hr)
      obtain rfl := Option.some.inj (hq'.symm.trans hq)
      have herr : harvest.Stands ((if a.errno ≠ 0 then [.call .error a] else []) ++ [.call .errno a] ++ c.log) _ :=
        beside_stands hst (by split <;> simp [Ev.beside])
      have hnum := beside_stands (w := [.call .affectedRows a, .call (.freeResult r') a])
        (call_harvest herr (.numRows r') a) (by simp [Ev.beside])
      have hlog : fetchEndLog a r' ++ c.log = [.call .affectedRows a, .call (.freeResult r') a] ++
          .call (.numRows r') a :: ((if a.errno ≠ 0 then [.call .error a] else []) ++ [.call .errno a] ++ c.log) := by
        simp [fetchEndLog]
      refine ⟨none, ?_, by simp [Fetched.At]⟩
      rw [fetchEnded_log, hlog]
      refine Monitor.Stands.cons (e := Ev.done _) hnum ?_
      intro f hf _
      cases hf
      exact Fetched.reports_end
    | @row q r row hs hq hr hrow =>
      obtain ⟨s, hst, hat⟩ := h
      simp only [Fetched.At, hs, hrow] at hat
      obtain ⟨q', r', rows, hr', hq', rfl⟩ := hat
      obtain rfl := Option.some.inj (hr'.symm.trans hr)
      obtain rfl := Option.some.inj (hq'.symm.trans hq)
      refine ⟨_, beside_stands (w := fetchRowLog a _ r') hst ?_, q', r', rows ++ [row], hr, ?_, rfl⟩
      · unfold fetchRowLog
        split <;> simp [Ev.beside]
      · simp [Fetched.collect]
  · cases hp with
    | @wait k l hi hr hz =>
      obtain ⟨s, hst, hcalled⟩ := hi.called (a := a) h
      exact ⟨s, beside_stands hst (armLog_beside a a.status ((c.call l a).toState k.wait)), hcalled.wait hz⟩
    | closed hs =>
      obtain ⟨s, hst, hat⟩ := h
      have hready : harvest.Stands (.ready false :: c.log) s := beside_stands (w := [.ready false]) hst (by simp [Ev.beside])
      obtain ⟨s', hst', hs'⟩ := flushes_harvest (w := unfinished (c.setReady false)) hready (hat.not_ended (by simp [hs]))
      refine ⟨s', ?_, hs'⟩
      cases hcl : c.client with
      | true => simpa [hcl] using beside_stands (w := [.onConnectionClosed]) hst' (by simp [Ev.beside])
      | false => simpa [hcl] using hst'
    | idle => exact h

theorem handleState_harvested {as : List Answer} (h : Harvested c) (hh : handleState as ev c = .ok c') : Harvested c' :=
  handleState_induct (P := Harvested) (Q := Harvested) (fun _ _ _ _ hd hp => pass_harvested hd (.inl hp))
    (fun _ _ _ _ hd hp => pass_harvested hd (.inr hp)) h hh

end

/-! ## Steps and runs -/

theorem step_harvested {c c' : Conn} {op : Op} (h : Harvested c) (hr : c.currentState.isRest = true)
    (hst : lts.step c op c') : Harvested c' := by
  have hs : c.currentState ≠ .fetchRowResultReady := by
    intro hs
    rw [hs] at hr
    cases hr
  cases lts_stepped hst with
  | init | syncConnected => exact h.aside (w := [_, _]) rfl (by simp [Ev.beside]) hs rfl
  | connect => exact h.aside (w := [_]) rfl (by simp [Ev.beside]) hs rfl
  | syncRefused | pushed => exact h.frame (w := [_]) rfl (by simp [Ev.beside]) rfl rfl rfl rfl
  | pendingQuery | clientClose | close => exact h.frame (w := []) rfl (by simp) rfl rfl rfl rfl
  | checked => exact h.frame (w := [_, _]) rfl (by simp [Ev.beside]) rfl rfl rfl rfl
  | @kicked op q c' ht _ hp hh =>
    have hd : Harvested (pushQuery q (op.target c)) := h.frame (w := [_]) rfl (by simp [Ev.beside]) rfl rfl rfl rfl
    exact handleState_harvested hd hh
  | handled ht hh => exact handleState_harvested (c := op.target c) h hh
  | @closeKicked as c' hp _ hh => exact handleState_harvested (c := { c with scheduleClose := true }) h hh
  | @woken op e ev c' hw hf hh => exact handleState_harvested (c := disarmed e c) h hh
  | @syncClosed op ht =>
    obtain ⟨s, hst, hat⟩ := h
    obtain ⟨s', hst', hs'⟩ := flushes_harvest (w := unfinished c) hst (hat.not_ended hs)
    exact ⟨s', beside_stands (w := [.call .close {}, .ready false]) hst' (by simp [Ev.beside]), hs'⟩

theorem run_harvested {client : Bool} {errNo : Int} {st : State} {opt : MysqlOptions} {ops : List Op} {c : Conn}
    (h : lts.Run (opened client errNo st opt) ops c) : Harvested c := by
  have hinv : Harvested c ∧ c.currentState.isRest = true := by
    refine h.invariant (P := fun c => Harvested c ∧ c.currentState.isRest = true) ?_ ⟨?_, rfl⟩
    · rintro d op d' ⟨hd, hr⟩ hst
      exact ⟨step_harvested hd hr hst, step_isRest hr hst⟩
    · refine ⟨none, ?_, ?_⟩
      · exact beside_stands (w := [_, _]) Monitor.stands_nil (by simp [Ev.beside])
      · exact (Fetched.at_of_not rfl).2 (by simp)
  exact hinv.1

/-! ## What a completed session reports -/

namespace Fetched

theorem foldl_collect_results (r : MysqlRes) (q : Session) (rows : List Row) :
    (rows.foldl (collect r) q).results = q.results ++ rows.map (rowText r) := by
  induction rows generalizing q with
  | nil => simp
  | cons row rows ih =>
    have hone : (collect r q row).results = q.results ++ [rowText r row] := by
      unfold collect parseResultDesc
      split <;> rfl
    rw [List.foldl_cons, ih, hone, List.map_cons, List.append_assoc, List.singleton_append]

/-- The headers are parsed at the first row. -/
theorem foldl_collect_columNames (r : MysqlRes) {q : Session} {rows : List Row} (hq : q.columNames = [])
    (hne : rows ≠ []) : (rows.foldl (collect r) q).columNames = r.fields := by
  have hkeep : ∀ (rows : List Row) (q : Session), q.columNames = r.fields →
      (rows.foldl (collect r) q).columNames = r.fields := by
    intro rows
    induction rows with
    | nil => exact fun _ h => h
    | cons row rows ih =>
      intro q h
      apply ih
      unfold collect parseResultDesc
      split
      · rfl
      · exact h
  cases rows with
  | nil => exact absurd rfl hne
  | cons row rows =>
    have hone : (collect r q row).columNames = r.fields := by simp [collect, parseResultDesc, hq, Session.pendingRow]
    exact hkeep rows (collect r q row) hone

end Fetched

theorem CountsRows.count {log : List Ev} (h : CountsRows log) {f : Fetched} (hf : harvest.after log = some f) {n : Nat}
    (hn : f.count = some n) : n = f.rows.length := by
  induction log generalizing f n with
  | nil => cases hf
  | cons e log ih =>
    have hf : Fetched.next (harvest.after log) e = some f := hf
    cases hb : e.beside with
    | true =>
      have hsame : Fetched.next (harvest.after log) e = harvest.after log := (beside_ignores hb).2
      exact ih h.2 (hsame ▸ hf) hn
    | false =>
      cases e with
      | done q => cases hf
      | call l a =>
        cases l <;> simp only [Ev.beside, Bool.true_eq_false] at hb
        case realQueryStart q =>
          cases hf
          cases hn
        case useResult =>
          obtain ⟨f', hf', rfl⟩ := Option.map_eq_some_iff.1 hf
          exact ih h.2 hf' hn
        case fetchRowStart | fetchRowCont =>
          obtain ⟨f', hf', rfl⟩ := Option.map_eq_some_iff.1 hf
          unfold Fetched.fetch at hn ⊢
          split at hn
          · split at hn <;> cases hn
          · rename_i hz
            rw [if_neg hz]
            exact ih h.2 hf' hn
        case numRows r =>
          obtain ⟨f', hf', rfl⟩ := Option.map_eq_some_iff.1 hf
          have hlen : a.numRows = f'.rows.length := h.1 f' hf'
          cases hn
          exact hlen
      | _ => cases hb

/-- A row of as many values as the result set has columns. -/
theorem rowText_eq {r : MysqlRes} {row : Row} (h : row.length = r.fields.length) : rowText r row = row.map cellText := by
  apply List.ext_getElem
  · simp [rowText, h]
  · intro i hi hi'
    have hlt : i < row.length := by simpa using hi'
    simp [rowText, List.getD_eq_getElem?_getD, List.getElem?_eq_getElem hlt]

theorem toInt32_of_lt {n : Nat} (h : n < 2 ^ 31) : toInt32 n = n := by
  have htoNat : (BitVec.ofNat 32 n).toNat = n := by
    rw [BitVec.toNat_ofNat]
    omega
  unfold toInt32
  rw [BitVec.toInt_eq_toNat_of_lt (by omega), htoNat]

/-- **What a session completed at the end of its rows reports.** -/
theorem delivered_reports {client : Bool} {errNo : Int} {st : State} {opt : MysqlOptions} {ops : List Op} {c : Conn}
    (h : lts.Run (opened client errNo st opt) ops c) {q₀ q : Session} {r : MysqlRes} {rows : List Row}
    (hd : Delivered c.log q₀ r rows q) :
    q.id = q₀.id ∧ q.results = rows.map (rowText r) ∧ (rows ≠ [] → q.columNames = r.fields) ∧
      (CountsRows c.log → q.resultCount = toInt32 rows.length) := by
  obtain ⟨⟨hcol, hres⟩, later, earlier, count, hlog, hafter⟩ := hd
  obtain ⟨s, hst, -⟩ := run_harvested h
  obtain ⟨r', n, hr, hn, hid, hresults, hcols, hrc⟩ := hst.accepts later (.done q) earlier hlog _ hafter rfl
  obtain rfl : r = r' := Option.some.inj hr
  refine ⟨hid, ?_, ?_, ?_⟩
  · rw [hresults, Fetched.foldl_collect_results]
    show q₀.results ++ _ = _
    rw [hres, List.nil_append]
  · intro hne
    rw [hcols]
    exact Fetched.foldl_collect_columNames r hcol hne
  · intro hcounts
    have hearlier : ∀ l : List Ev, CountsRows (l ++ earlier) → CountsRows earlier := by
      intro l
      induction l with
      | nil => exact id
      | cons e l ih => exact fun hl => ih hl.2
    have hc : CountsRows earlier := hearlier (later ++ [.done q]) (by simpa [hlog] using hcounts)
    rw [hrc, hc.count hafter hn]

/-- **Rows arrive complete and in order.** However the fetches of its rows were spread over the event loop, a session
whose rows have ended reports all of them, in the order they were delivered and with their values in column order, their
number, and the names of the columns if there was a row. -/
theorem rows_complete_in_order (client : Bool) (errNo : Int) (st : State) (opt : MysqlOptions) (ops : List Op) (c : Conn)
    (h : lts.Run (opened client errNo st opt) ops c) (hcount : CountsRows c.log) (q₀ q : Session) (r : MysqlRes)
    (rows : List Row) (hd : Delivered c.log q₀ r rows q) (hn : rows.length < 2 ^ 31)
    (hm : ∀ row ∈ rows, row.length = r.fields.length) :
    q.id = q₀.id ∧ q.results = rows.map (fun row => row.map cellText) ∧
      (∀ line ∈ q.results, line.length = r.fields.length) ∧ q.resultCount = rows.length ∧
      (rows ≠ [] → q.columNames = r.fields) := by
  obtain ⟨hid, hresults, hcols, hrc⟩ := delivered_reports h hd
  refine ⟨hid, ?_, ?_, ?_, hcols⟩
  · rw [hresults]
    exact List.map_congr_left fun row hrow => rowText_eq (hm row hrow)
  · rw [hresults]
    intro line hline
    obtain ⟨row, -, rfl⟩ := List.mem_map.1 hline
    simp [rowText]
  · rw [hrc hcount, toInt32_of_lt hn]

/-- Two columns. -/
def twoColumns : MysqlRes := ⟨0, [[97], [98]]⟩

def twoRows : List Row := [[some [49], none], [some [50], some [51]]]

/-- The second row has to be waited for. -/
def selectTwo : List Op :=
  [.syncConnect { ret := true },
   .startQuery { id := 3, query := [1] }
     [{}, {}, { res := some twoColumns }, { row := some [some [49], none] }, {},
      { status := { read := true }, socket := 7 }],
   .fdWake { read := true } [{ row := some [some [50], some [51]] }, {}, {}, { numRows := 2 }, {}]]

theorem selectTwo_complete_in_order :
    ∃ c q, lts.Run (opened true 0 .stateNone {}) selectTwo c ∧
      Delivered c.log { id := 3, query := [1] } twoColumns twoRows q ∧
      q.results = twoRows.map (fun row => row.map cellText) ∧ q.resultCount = 2 := by
  let q : Session :=
    { id := 3, query := [1], resultCount := 2, columNames := [[97], [98]]
      results := [[[49], [78, 85, 76, 76]], [[50], [51]]] }
  obtain ⟨c, hr, hcount, hhead, hafter⟩ : ∃ c, (lts.restrict fun _ _ => True).Run (opened true 0 .stateNone {}) selectTwo c ∧
      CountsRows c.log ∧ c.log = .done q :: c.log.tail ∧ harvest.after c.log.tail =
        some ⟨{ id := 3, query := [1] }, some twoColumns, twoRows, true, some 2⟩ := exists_run (by decide)
  have hd : Delivered c.log { id := 3, query := [1] } twoColumns twoRows q :=
    ⟨by decide, [], c.log.tail, some 2, hhead, hafter⟩
  obtain ⟨-, hresults, -, hrows, -⟩ :=
    rows_complete_in_order _ _ _ _ _ c hr.of_restrict hcount _ q _ _ hd (by decide) (by decide)
  exact ⟨c, q, hr.of_restrict, hd, hresults, hrows⟩

end LtApp.Mysql
