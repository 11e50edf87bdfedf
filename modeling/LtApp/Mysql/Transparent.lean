import LtApp.Mysql.Script

/-!
# Waiting does not show

The same operations with the same final results, once with every `*_start` finishing at once and once with
any waits in between: what the outside sees should be the same. `shown` is what it sees of a history.
-/

namespace LtApp.Mysql

def LibCall.starts : LibCall → Bool
  | .realConnectStart _ | .selectDbStart _ | .realQueryStart _ | .fetchRowStart _ | .closeStart => true
  | _ => false

/-- Of the library calls only the `*_start` calls show, and not how they end. -/
def Ev.shown : Ev → Option Ev
  | .call l _ => if l.starts then some (.call l {}) else none
  | e => some e

def shown (log : List Ev) : List Ev := log.filterMap Ev.shown

/-- The connection without the events it waits for, a `result_` nothing reads, and what does not show. -/
@[simps] def Conn.erase (c : Conn) : Conn :=
  { c with
    fdEvent := none
    timeout := ⟨0, false⟩
    result := if c.currentState.fetching then c.result else none
    log := shown c.log }

@[simp] def Turn.erase : Turn → Turn
  | .goOn c => .goOn c.erase
  | .rest c => .rest c.erase
  | .checkFailed => .checkFailed

theorem Ev.shown_shown {e e' : Ev} (h : e.shown = some e') : e'.shown = some e' := by
  cases e <;> simp_all only [Ev.shown, Option.some.injEq]
  all_goals first | (subst h; rfl) | skip
  rename_i l a
  split at h
  · rename_i hl
    obtain rfl := Option.some.inj h
    simp [hl]
  · simp at h

@[simp] theorem shown_shown (log : List Ev) : shown (shown log) = shown log := by
  unfold shown
  rw [List.filterMap_filterMap]
  congr 1
  funext e
  cases he : e.shown with
  | none => rfl
  | some e' => simpa using Ev.shown_shown he

@[simp] theorem shown_append (l m : List Ev) : shown (l ++ m) = shown l ++ shown m := List.filterMap_append

@[simp] theorem shown_cons (e : Ev) (l : List Ev) : shown (e :: l) = e.shown.toList ++ shown l := by
  unfold shown; cases h : e.shown <;> simp [h]

@[simp] theorem shown_armLog (a : Answer) (st : WaitStatus) (c : Conn) : shown (armLog a st c) = [] :=
  List.filterMap_eq_nil_iff.2 (armLog_forall (P := fun e => e.shown = none) rfl rfl st c)

section
-- what a pass computes
attribute [local simp] handleStateConnect handleStateIDLE handleStateSelectDB goNextState failQuery doneCurrentQuery
  storeRet storeRow Conn.toState Conn.call Conn.emit Conn.setReady Conn.onQueryDone waitMysqlStatus_eq cleanUp_eq
  fetchEnd_eq fetchRow_eq needsSelect cleaned unfinished fetchEnded fetchEndLog rowFetched fetchRowLog Conn.erase
  State.fetching Ev.shown LibCall.starts

theorem handleStatePass_erase {a : Answer} {ev : WaitStatus} {c : Conn} (hw : c.currentState.isWait = false)
    (ha : c.calls = true → a.status.isZero = true) :
    (handleStatePass a ev c).erase = (handleStatePass a {} c.erase).erase := by
  unfold handleStatePass
  rw [Conn.erase_currentState]
  cases hs : c.currentState <;> simp only [hs, State.isWait, Bool.true_eq_false] at hw
  case stateNone | connectInit => rfl
  case connectStart | closeStart | fetchRowStart =>
    have hz := ha (by simp [Conn.calls, hs])
    simp [hs, hz]
  case connectDone =>
    cases hr : c.mysqlRet <;> cases hcl : c.client <;> simp [hs, hr, hcl]
  case closeDone =>
    cases hcl : c.client <;> simp [hs, hcl]
  case connectionIdle =>
    unfold handleStateIDLE
    rw [Conn.erase_queryList, Conn.erase_scheduleClose]
    cases hq : c.queryList with
    | nil => cases hsc : c.scheduleClose <;> simp [hs]
    | cons q w =>
      cases hp : c.inProcess <;> simp [hp, hs]
      split <;> simp
  case selectDbStart =>
    cases hp : c.inProcess with
    | none => simp [hp]
    | some q =>
      have hz := ha (by simp [Conn.calls, hs, hp])
      by_cases he : a.err = 0
      · simp [hp, hs, he, hz]
      · cases hf : isFatalError a.err <;> simp [hp, hs, he, hf]
  case selectDbDone =>
    cases hp : c.inProcess with
    | none => simp [hp]
    | some q =>
      cases hq : q.query <;> simp [hp, hs, hq]
  case queryStart =>
    cases hp : c.inProcess with
    | none => simp [hp]
    | some q =>
      cases hq : q.query.isEmpty with
      | true => simp [hp, hq]
      | false =>
        have hz := ha (by simp [Conn.calls, hs, hp, hq])
        by_cases he : a.err = 0
        · simp [hp, hq, he, hz]
        · cases hf : isFatalError a.err <;> simp [hp, hq, he, hf]
  case queryResultReady =>
    cases hp : c.inProcess with
    | none => simp [hp]
    | some q =>
      cases hr : a.res with
      | none =>
        cases hf : isFatalError a.errno <;> simp [hp, hf]
      | some r => simp [hp]
  case fetchRowResultReady =>
    cases hp : c.inProcess with
    | none => simp [hp]
    | some q =>
      cases hr : c.result with
      | none => simp [hp, hr, hs]
      | some r =>
        cases hrow : c.resultRow with
        | none =>
          by_cases he : a.errno = 0 <;> simp [hp, hr, hrow, hs, he]
        | some row =>
          cases hcol : q.columNames <;> simp [-Conn.toState, hp, hr, hrow, hs, hcol]

end

theorem handleStatePass_congr {a : Answer} (ev ev' : WaitStatus) {u v : Conn} (h : u.erase = v.erase)
    (hw : u.currentState.isWait = false) (ha : u.calls = true → a.status.isZero = true) :
    (handleStatePass a ev u).erase = (handleStatePass a ev' v).erase := by
  have hs : u.currentState = v.currentState := by simpa using congrArg Conn.currentState h
  have hp : u.inProcess = v.inProcess := by simpa using congrArg Conn.inProcess h
  have hc : u.calls = v.calls := by simp only [Conn.calls, hs, hp]
  rw [handleStatePass_erase hw ha, h, ← handleStatePass_erase (hs ▸ hw) (hc ▸ ha)]

/-! ## A call that blocks and then finishes -/

theorem Issues.starts {c : Conn} {ev : WaitStatus} {k : Kind} {l : LibCall} (h : Issues c ev k l) :
    (c.currentState = k.start ∧ l.starts = true) ∨ (c.currentState = k.wait ∧ l.starts = false) := by
  cases h
  all_goals first | exact .inl ⟨‹_›, rfl⟩ | exact .inr ⟨‹_›, rfl⟩

/-- In `v` the call `l` that `u` is about to make has been made and has blocked. -/
structure Begun (k : Kind) (l : LibCall) (u v : Conn) : Prop where
  issues : Issues u {} k l
  start  : u.currentState = k.start
  same   : v.erase = ((u.call l {}).toState k.wait).erase

section
variable {k : Kind} {l : LibCall} {u v : Conn}

theorem Begun.state (h : Begun k l u v) : v.currentState = k.wait := by
  simpa using congrArg Conn.currentState h.same

theorem Begun.inProcess (h : Begun k l u v) : v.inProcess = u.inProcess := by
  simpa using congrArg Conn.inProcess h.same

theorem Begun.errNo (h : Begun k l u v) : v.errNo = u.errNo := by
  simpa using congrArg Conn.errNo h.same

theorem Begun.log (h : Begun k l u v) : shown v.log = .call l {} :: shown u.log := by
  have hl : l.starts = true := by
    rcases h.issues.starts with ⟨-, hl⟩ | ⟨hs, -⟩
    · exact hl
    · rw [h.start] at hs
      cases k <;> simp [Kind.start, Kind.wait] at hs
  simpa [Ev.shown, hl] using congrArg Conn.log h.same

/-- The call that goes on with the operation. -/
theorem Begun.cont (h : Begun k l u v) (ev : WaitStatus) : ∃ l', Issues v ev k l' ∧ l'.starts = false := by
  have hs := h.state
  have hp := h.inProcess
  have hi := h.issues
  have hst := h.start
  cases hi <;> simp only [*, Kind.start, reduceCtorEq] at hst hs hp 
  case connectStart => exact ⟨_, .connectCont hs, rfl⟩
  case selectDbStart => exact ⟨_, .selectDbCont hs hp, rfl⟩
  case queryStart => exact ⟨_, .queryCont hs hp, rfl⟩
  case fetchRowStart => exact ⟨_, .fetchRowCont hs, rfl⟩
  case closeStart => exact ⟨_, .closeCont hs, rfl⟩

theorem Issues.of_erase (ev : WaitStatus) (h : Issues u {} k l) (hs : u.currentState = k.start)
    (he : u.erase = v.erase) : Issues v ev k l := by
  have hs' : u.currentState = v.currentState := by simpa using congrArg Conn.currentState he
  have hp : u.inProcess = v.inProcess := by simpa using congrArg Conn.inProcess he
  have ho : u.option = v.option := by simpa using congrArg Conn.option he
  have hr : u.currentState.fetching = true → u.result = v.result := by
    intro hf
    simpa [hf, ← hs'] using congrArg Conn.result he
  cases h
  case connectStart hc => exact ho ▸ .connectStart (hs' ▸ hc)
  case selectDbStart q hc hq => exact .selectDbStart (hs' ▸ hc) (hp ▸ hq)
  case queryStart q hc hq hne => exact .queryStart (hs' ▸ hc) (hp ▸ hq) hne
  case fetchRowStart hc => exact hr (by rw [hc]; rfl) ▸ .fetchRowStart (hs' ▸ hc)
  case closeStart hc => exact .closeStart (hs' ▸ hc)
  case connectCont hc | fetchRowCont hc | closeCont hc => rw [hc] at hs; simp [Kind.start] at hs
  case selectDbCont hc _ | queryCont hc _ => rw [hc] at hs; simp [Kind.start] at hs

/-- A wait reports no error. -/
theorem Wait.Sound.reports {w : Wait} (hw : w.Sound) (hv : v.errNo = 0) : v.reports w.answer l = false := by
  cases l <;> simp [Conn.reports, hw.err, hv]

/-- The handler returns to wait, and is woken up where it was. -/
theorem blocked_next {w : Wait} {ev : WaitStatus} (hi : Issues v ev k l) (hw : w.Sound) (hv : v.errNo = 0)
    (ws : List Wait) (f cur : Answer) (ops : List (List Wait × Answer)) :
    ∃ d, playNext ⟨⟨(w :: ws, f) :: ops, cur⟩, ev, v⟩ = .inl ⟨⟨(ws, f) :: ops, cur⟩, wakeStatus w.wake, d⟩ ∧
      d.erase = ((v.call l {}).toState k.wait).erase := by
  have hpass := hi.pass w.answer
  rw [hw.reports hv, hw.blocks] at hpass
  simp only [Bool.false_eq_true, if_false] at hpass
  set b := armed w.answer w.answer.status ((v.call l w.answer).toState k.wait) with hb
  obtain ⟨e, he⟩ : ∃ e, b.fdEvent = some e := ⟨_, rfl⟩
  refine ⟨disarmed e b, ?_, ?_⟩
  · have hs : b.currentState = k.wait := rfl
    simp [playNext, Script.feed, hi.calls, hpass, hs, resetWaitEvent_some he]
  · simp [hb, Conn.erase, disarmed, armed, Ev.shown]

/-- The waits that are left are waited for. -/
theorem Begun.drain (h : Begun k l u v) (hu : u.errNo = 0) {ws : List Wait} (hws : ∀ w ∈ ws, w.Sound)
    (ev : WaitStatus) (f cur : Answer) (ops : List (List Wait × Answer)) :
    ∃ ev' v', Steps playNext ⟨⟨(ws, f) :: ops, cur⟩, ev, v⟩ ⟨⟨([], f) :: ops, cur⟩, ev', v'⟩ ∧ Begun k l u v' := by
  induction ws generalizing ev v with
  | nil => exact ⟨ev, v, .refl, h⟩
  | cons w ws ih =>
    obtain ⟨l', hi, hl'⟩ := h.cont ev
    obtain ⟨d, hd, he⟩ := blocked_next hi (hws w (by simp)) (h.errNo ▸ hu) ws f cur ops
    have hsame : d.erase = v.erase := by
      rw [he]
      simp [Conn.erase, hl', Ev.shown, h.state]
    obtain ⟨ev', v', hst, hb⟩ := ih (v := d) ⟨h.issues, h.start, hsame.trans h.same⟩
      (fun x hx => hws x (by simp [hx])) (wakeStatus w.wake)
    exact ⟨ev', v', .cons hd hst, hb⟩

theorem finished_erase (l : LibCall) (f : Answer) (hs : v.currentState = k.wait) :
    ((k.store f (v.call l f)).toState k.finished).erase = ((k.store f (v.erase.call l f)).toState k.finished).erase := by
  cases k <;> simp [Kind.store, Kind.finished, Conn.erase, State.fetching, hs, Kind.wait]

theorem failed_erase (f : Answer) (code : Int) (q : Session) (c : Conn) :
    (failed f code q c).erase = (failed f code q c.erase).erase := by
  cases hf : isFatalError code <;> simp [failed, Conn.erase, State.fetching, hf, Ev.shown]

theorem Begun.finished_erase (h : Begun k l u v) {l' : LibCall} (hl' : l'.starts = false) (f : Answer) :
    ((k.store f (u.call l f)).toState k.finished).erase = ((k.store f (v.call l' f)).toState k.finished).erase := by
  rw [LtApp.Mysql.finished_erase l' f h.state, h.same,
    ← LtApp.Mysql.finished_erase l' f (v := (u.call l {}).toState k.wait) rfl]
  cases k <;> simp [Kind.store, Kind.finished, Conn.erase, State.fetching, Ev.shown, hl']

theorem Begun.failed_erase (h : Begun k l u v) {l' : LibCall} (hl' : l'.starts = false) (f : Answer) (code : Int)
    (q : Session) : (failed f code q (u.call l f)).erase = (failed f code q (v.call l' f)).erase := by
  have he : (v.call l' f).erase = v.erase := by simp [Conn.erase, Ev.shown, hl']
  rw [LtApp.Mysql.failed_erase (c := v.call l' f), he, h.same, ← LtApp.Mysql.failed_erase]
  cases hf : isFatalError code <;> simp [failed, Conn.erase, State.fetching, hf, Ev.shown]

/-- The error test of the `*_WAIT` branch is that of the `*_START` branch, except for a query. -/
theorem Begun.reports (h : Begun k l u v) (hu : u.errNo = 0) {l' : LibCall} {ev : WaitStatus} (hi : Issues v ev k l')
    (f : Answer) : v.reports f l' = (u.reports f l && k ≠ .query) := by
  have hv := h.errNo.trans hu
  have hs := h.state
  have hst := h.start
  cases h.issues <;> cases hi <;> simp_all [Conn.reports, Kind.start, Kind.wait]

theorem noResult_pass {c : Conn} {q : Session} {a : Answer} {ev : WaitStatus} (hq : c.inProcess = some q)
    (hs : c.currentState = .queryResultReady) (hr : a.res = none) :
    handleStatePass a ev c =
      .goOn (failed a a.errno q { c with result := none, log := .call .errno a :: .call .useResult a :: c.log }) := by
  have hf := failQuery_eq (c := ({ c.call .useResult a with result := none } : Conn).call .errno a) hq a a.errno
  unfold handleStatePass
  simp only [hs, hq, hr]
  simpa only [Conn.call, hs, hq] using hf

/-- **The call that finishes.** Where `u` starts the operation and it finishes at once, `v` goes on with it and
gets to the same connection, after a failed query by way of `mysql_use_result`. -/
theorem Begun.finish (h : Begun k l u v) (hu : u.errNo = 0) {f : Answer} (hf : f.Final) {u' : Conn}
    {ev₀ : WaitStatus} (hpass : handleStatePass f ev₀ u = .goOn u') (ev : WaitStatus) :
    ∃ v1, handleStatePass f ev v = .goOn v1 ∧
      (u'.erase = v1.erase ∨ v1.calls = false ∧ ∃ v2, handleStatePass f ev v1 = .goOn v2 ∧ u'.erase = v2.erase) := by
  obtain ⟨l', hi, hl'⟩ := h.cont ev
  have hv := hi.pass f
  rw [h.reports hu hi f, hf.done, if_pos rfl] at hv
  rw [(h.issues.of_erase ev₀ h.start rfl).pass f, hf.done, if_pos rfl] at hpass
  cases hr : u.reports f l with
  | false =>
    simp only [hr, Bool.false_and, Bool.false_eq_true, if_false, Turn.goOn.injEq] at hpass hv
    exact ⟨_, hv, .inl (hpass ▸ h.finished_erase hl' f)⟩
  | true =>
    have herr : f.err ≠ 0 := by
      have hst := h.start
      cases h.issues <;> simp_all [Conn.reports, Kind.start]
    have hq : ∃ q, u.inProcess = some q := by
      have hi := h.issues
      cases hi <;> first | exact ⟨_, ‹_›⟩ | simp [Conn.reports] at hr
    obtain ⟨q, hq⟩ := hq
    have hq' : v.inProcess = some q := h.inProcess.trans hq
    simp only [hr, if_true, Bool.true_and] at hpass hv
    rw [failQuery_eq (by exact hq), Turn.goOn.injEq] at hpass
    by_cases hk : k = .query
    · subst hk
      simp only [ne_eq, not_true_eq_false, decide_false, Bool.false_eq_true, if_false] at hv
      refine ⟨_, hv, .inr ⟨rfl, _, noResult_pass hq' rfl (hf.res herr), ?_⟩⟩
      rw [← hpass, h.failed_erase hl' f f.err q, hf.errno herr]
      cases hfe : isFatalError f.err <;> simp [failed, Conn.erase, State.fetching, hfe, Ev.shown, LibCall.starts, Kind.store]
    · simp only [ne_eq, hk, not_false_eq_true, decide_true, if_true] at hv
      rw [failQuery_eq (by exact hq')] at hv
      exact ⟨_, hv, .inl (hpass ▸ h.failed_erase hl' f f.err q)⟩

end

/-! ## The simulation -/

/-- The same results, and no waits. -/
def Script.unsplit (s : Script) : Script := { s with ops := s.ops.map fun o => ([], o.2) }

/-- On the left nothing is waited for. -/
structure Matches (p p' : Playing) : Prop where
  script : p.script = p'.script.unsplit
  sound  : p'.script.Sound
  same   : p.conn.erase = p'.conn.erase
  awake  : p.conn.currentState.isWait = false
  errNo  : p.conn.errNo = 0

theorem calls_of_erase {u v : Conn} (h : u.erase = v.erase) : u.calls = v.calls := by
  have hs : u.currentState = v.currentState := by simpa using congrArg Conn.currentState h
  have hp : u.inProcess = v.inProcess := by simpa using congrArg Conn.inProcess h
  simp only [Conn.calls, hs, hp]

theorem goOn_of_erase {t : Turn} {c : Conn} (h : (Turn.goOn c).erase = t.erase) :
    ∃ d, t = .goOn d ∧ c.erase = d.erase := by
  cases t <;> simp_all [Turn.erase]

theorem rest_of_erase {t : Turn} {c : Conn} (h : (Turn.rest c).erase = t.erase) :
    ∃ d, t = .rest d ∧ c.erase = d.erase := by
  cases t <;> simp_all [Turn.erase]

theorem checkFailed_of_erase {t : Turn} (h : Turn.checkFailed.erase = t.erase) : t = .checkFailed := by
  cases t <;> simp_all [Turn.erase]

theorem blocked_erase {k : Kind} {l : LibCall} {c : Conn} (hs : c.currentState = k.start) :
    ((c.call l {}).toState k.wait).erase = ((c.erase.call l {}).toState k.wait).erase := by
  cases k <;> simp [Conn.erase, State.fetching, hs, Kind.start, Kind.wait]

theorem begun_of_blocked {k : Kind} {l : LibCall} {u v d : Conn} (hi : Issues u {} k l) (hs : u.currentState = k.start)
    (he : u.erase = v.erase) (hd : d.erase = ((v.call l {}).toState k.wait).erase) : Begun k l u d := by
  have hs' : v.currentState = k.start := by
    have := congrArg Conn.currentState he
    simpa [hs] using this.symm
  exact ⟨hi, hs, by rw [hd, blocked_erase hs', ← he, ← blocked_erase hs]⟩

/-- An operation that finishes at once on the left is started, waited for and finished on the right. -/
theorem call_steps {k : Kind} {l : LibCall} {u u' v : Conn} {ev : WaitStatus} {ws : List Wait} {f : Answer}
    (hi : Issues u {} k l) (hs : u.currentState = k.start) (hu : u.errNo = 0) (he : u.erase = v.erase)
    (hws : ∀ w ∈ ws, w.Sound) (hf : f.Final) (hpass : handleStatePass f ev u = .goOn u') (ev' : WaitStatus)
    (cur : Answer) (ops : List (List Wait × Answer)) :
    ∃ ev1 v', Steps playNext ⟨⟨(ws, f) :: ops, cur⟩, ev', v⟩ ⟨⟨ops, f⟩, ev1, v'⟩ ∧ u'.erase = v'.erase := by
  cases ws with
  | nil =>
    have hc : v.calls = true := calls_of_erase he ▸ hi.calls
    have hcongr := handleStatePass_congr ev ev' he (by rw [hs]; simp) fun _ => hf.done
    obtain ⟨v', hv', he'⟩ := goOn_of_erase (hpass ▸ hcongr)
    exact ⟨ev', v', .one (playNext_goOn (w := none) (by simp [Script.feed, hc]) hv'), he'⟩
  | cons w ws =>
    have hv : v.errNo = 0 := by
      have := congrArg Conn.errNo he
      simpa [hu] using this.symm
    obtain ⟨d, hd, hde⟩ := blocked_next (hi.of_erase ev' hs he) (hws w (by simp)) hv ws f cur ops
    have hb := begun_of_blocked hi hs he hde
    have hws' : ∀ x ∈ ws, x.Sound := fun x hx => hws x (by simp [hx])
    obtain ⟨ev2, d', hst, hb'⟩ := hb.drain hu hws' (wakeStatus w.wake) f cur ops
    obtain ⟨l', hi', -⟩ := hb'.cont ev2
    have hsteps := Steps.cons hd hst
    obtain ⟨v1, hv1, hcase⟩ := hb'.finish hu hf hpass ev2
    have h1 : playNext ⟨⟨([], f) :: ops, cur⟩, ev2, d'⟩ = .inl ⟨⟨ops, f⟩, ev2, v1⟩ :=
      playNext_goOn (w := none) (by simp [Script.feed, hi'.calls]) hv1
    rcases hcase with he1 | ⟨hnc, v2, hv2, he2⟩
    · exact ⟨ev2, v1, hsteps.snoc h1, he1⟩
    · have h2 : playNext ⟨⟨ops, f⟩, ev2, v1⟩ = .inl ⟨⟨ops, f⟩, ev2, v2⟩ :=
        playNext_goOn (w := none) (by simp [Script.feed, hnc]) hv2
      exact ⟨ev2, v2, (hsteps.snoc h1).snoc h2, he2⟩

/-- A call whose answer is final does not return to wait. -/
theorem Issues.goOn {c : Conn} {ev : WaitStatus} {k : Kind} {l : LibCall} (hi : Issues c ev k l) {f : Answer}
    (hf : f.Final) : ∃ c', handleStatePass f ev c = .goOn c' := by
  rw [hi.pass f, hf.done, if_pos rfl]
  split
  · exact ⟨_, rfl⟩
  · exact ⟨_, rfl⟩

theorem Issues.start_of_awake {c : Conn} {ev : WaitStatus} {k : Kind} {l : LibCall} (hi : Issues c ev k l)
    (hw : c.currentState.isWait = false) : c.currentState = k.start := by
  rcases hi.starts with ⟨hs, -⟩ | ⟨hs, -⟩
  · exact hs
  · simp [hs] at hw

def End.erase : End → End
  | .stopped c => .stopped c.erase
  | .rested c => .rested c.erase
  | .aborted => .aborted

/-- A pass that calls nothing does not return to wait. -/
theorem Pass.rest_awake {a : Answer} {ev : WaitStatus} {c c' : Conn} (hn : c.calls = false)
    (h : Pass a ev c (.rest c')) : c'.currentState.isWait = false := by
  cases h with
  | wait hi => simp [hi.calls] at hn
  | closed => rfl
  | idle hs => rw [hs]; rfl

/-- **A step without waits is matched** by starting, waiting and finishing. -/
theorem Matches.next {p p' : Playing} (h : Matches p p') :
    (∃ q q', playNext p = .inl q ∧ Steps playNext p' q' ∧ Matches q q') ∨
    (∃ r r', playNext p = .inr r ∧ playNext p' = .inr r' ∧ r.erase = r'.erase) := by
  obtain ⟨⟨ops, cur⟩, ev', v⟩ := p'
  obtain ⟨s, ev, u⟩ := p
  obtain ⟨rfl, hsound, hsame, hawake, herr⟩ := h
  dsimp only at hsound hsame hawake herr
  have hcalls := calls_of_erase hsame
  cases hc : u.calls with
  | true =>
    obtain ⟨k, l, hi⟩ := exists_issues hc {}
    have hs := hi.start_of_awake hawake
    cases ops with
    | nil =>
      rw [hc] at hcalls
      refine .inr ⟨.stopped u, .stopped v, ?_, ?_, congrArg End.stopped hsame⟩
      · simp [playNext, Script.feed, Script.unsplit, hc]
      · simp [playNext, Script.feed, ← hcalls]
    | cons o ops =>
      obtain ⟨ws, f⟩ := o
      obtain ⟨hws, hf⟩ := hsound (ws, f) (by simp)
      obtain ⟨u', hu'⟩ := (hi.of_erase ev hs rfl).goOn hf
      obtain ⟨ev1, v', hst, he'⟩ := call_steps hi hs herr hsame hws hf hu' ev' cur ops
      have hpass : Pass f ev u (.goOn u') := hu' ▸ handleStatePass_pass
      refine .inl ⟨⟨Script.unsplit ⟨ops, f⟩, ev, u'⟩, _, ?_, hst, rfl, fun o ho => hsound o (by simp [ho]), he',
        pass_goOn_isWait hpass, (pass_errNo (.inl hpass)).trans herr⟩
      exact playNext_goOn (w := none) (by simp [Script.feed, Script.unsplit, hc]) hu'
  | false =>
    have hcongr := handleStatePass_congr (a := cur) ev ev' hsame hawake (by simp [hc])
    have hpass : Pass cur ev u (handleStatePass cur ev u) := handleStatePass_pass
    have hf : (Script.unsplit ⟨ops, cur⟩).feed u = some (cur, none, Script.unsplit ⟨ops, cur⟩) := by
      simp [Script.feed, Script.unsplit, hc]
    have hf' : Script.feed ⟨ops, cur⟩ v = some (cur, none, ⟨ops, cur⟩) := by simp [Script.feed, ← hcalls, hc]
    cases hu : handleStatePass cur ev u with
    | goOn u' =>
      rw [hu] at hcongr hpass
      obtain ⟨v', hv', he'⟩ := goOn_of_erase hcongr
      exact .inl ⟨_, _, playNext_goOn hf hu, .one (playNext_goOn hf' hv'), rfl, hsound, he', pass_goOn_isWait hpass,
        (pass_errNo (.inl hpass)).trans herr⟩
    | rest u' =>
      rw [hu] at hcongr hpass
      obtain ⟨v', hv', he'⟩ := rest_of_erase hcongr
      have hw := hpass.rest_awake hc
      have hw' : v'.currentState.isWait = false := by
        have := congrArg Conn.currentState he'
        simp only [Conn.erase_currentState] at this
        exact this ▸ hw
      refine .inr ⟨.rested u', .rested v', ?_, ?_, congrArg End.rested he'⟩
      · simp [playNext, hf, hu, hw]
      · simp [playNext, hf', hv', hw']
    | checkFailed =>
      rw [hu] at hcongr
      have hv := checkFailed_of_erase hcongr
      refine .inr ⟨.aborted, .aborted, ?_, ?_, rfl⟩
      · simp [playNext, hf, hu]
      · simp [playNext, hf', hv]

theorem play_of_matches {p p' : Playing} (h : Matches p p') :
    ∃ r r', play p = some r ∧ play p' = some r' ∧ r.erase = r'.erase := by
  obtain ⟨r, hr⟩ := Option.isSome_iff_exists.1 (play_isSome p)
  obtain ⟨r', hr'⟩ := Option.isSome_iff_exists.1 (play_isSome p')
  refine ⟨r, r', hr, hr', ?_⟩
  have hstep : ∀ s s' t, Matches s t → playNext s = .inl s' → ∃ t', Steps playNext t t' ∧ Matches s' t' := by
    intro s s' t hm hs
    rcases hm.next with ⟨q, q', hq, hst, hm'⟩ | ⟨e, e', he, -, -⟩
    · obtain rfl := Sum.inl.inj (hq.symm.trans hs)
      exact ⟨q', hst, hm'⟩
    · rw [hs] at he; simp at he
  have hend : ∀ s e t, Matches s t → playNext s = .inr e →
      ∃ t' e', Steps playNext t t' ∧ playNext t' = .inr e' ∧ e.erase = e'.erase := by
    intro s e t hm hs
    rcases hm.next with ⟨q, q', hq, -, -⟩ | ⟨e1, e', he, he', hee⟩
    · rw [hs] at hq; simp at hq
    · obtain rfl := Sum.inr.inj (he.symm.trans hs)
      exact ⟨t, e', .refl, he', hee⟩
  obtain ⟨m, e', hm, he⟩ := iterate_simulates hstep hend h hr
  rw [he, iterate_unique hm hr']

/-! ## What is observed -/

/-- What is sent to the server. -/
inductive Statement
  | selectDb (db : Bytes)
  | query (content : Bytes)
deriving DecidableEq, Repr

/-- What a completed session reads: its `Code`, `ErrorMessage`, headers and rows. -/
structure Reading where
  id         : Nat
  code       : Int
  errMessage : String
  headers    : List Bytes
  rows       : List (List Bytes)
deriving DecidableEq, Repr

def Ev.reading : Ev → Option Reading
  | .done q => some ⟨q.id, q.code, q.errMessage, q.columNames, q.results⟩
  | _ => none

def Ev.statement : Ev → Option Statement
  | .call (.selectDbStart db) _ => some (.selectDb db)
  | .call (.realQueryStart q) _ => some (.query q.query)
  | _ => none

/-- The sessions completed and the statements sent, last first. -/
structure Observed where
  completed  : List Reading
  statements : List Statement
deriving DecidableEq, Repr

def observed (log : List Ev) : Observed := ⟨log.filterMap Ev.reading, log.filterMap Ev.statement⟩

theorem observed_shown (log : List Ev) : observed (shown log) = observed log := by
  unfold observed shown
  rw [List.filterMap_filterMap, List.filterMap_filterMap]
  congr 1
  · congr 1
    funext e
    cases e <;> try rfl
    rename_i l a
    cases l <;> rfl
  · congr 1
    funext e
    cases e <;> try rfl
    rename_i l a
    cases l <;> rfl

/-- What is observed of a play that has not aborted. -/
protected def End.observed : End → Option Observed
  | .stopped c | .rested c => some (observed c.log)
  | .aborted => none

theorem observed_of_erase {e e' : End} (h : e.erase = e'.erase) : e.observed = e'.observed := by
  have hlog : ∀ c d : Conn, c.erase = d.erase → observed c.log = observed d.log := by
    intro c d he
    rw [← observed_shown c.log, ← observed_shown d.log]
    exact congrArg observed (by simpa using congrArg Conn.log he)
  cases e <;> cases e' <;> simp only [End.erase, End.stopped.injEq, End.rested.injEq, reduceCtorEq] at h
  · exact congrArg some (hlog _ _ h)
  · exact congrArg some (hlog _ _ h)
  · rfl

/-- With `err_no_` as given, waits do not change what is observed: from any connection that is not waiting, with any
queue, and for any operations, split in any way. -/
def Transparent (errNo : Int) : Prop :=
  ∀ (c : Conn) (s : Script), c.errNo = errNo → c.currentState.isWait = false → s.Sound →
    ∃ e e', play ⟨s.unsplit, {}, c⟩ = some e ∧ play ⟨s, {}, c⟩ = some e' ∧ e.observed = e'.observed

theorem transparent_zero : Transparent 0 := by
  intro c s he hw hs
  have hm : Matches ⟨s.unsplit, {}, c⟩ ⟨s, {}, c⟩ := ⟨rfl, hs, rfl, hw, he⟩
  obtain ⟨e, e', h1, h2, h3⟩ := play_of_matches hm
  exact ⟨e, e', h1, h2, observed_of_erase h3⟩

/-- The posted `HandleState` of a `Connect` starts, with `qs` in the queue. -/
def queued (errNo : Int) (qs : List Session) : Conn :=
  dropTask 0 (qs.foldl (fun c q => pushQuery q c) (connect (opened true errNo .stateNone {})))

/-- A connect, a query that blocks once, and a result set of one row. -/
def oneRow : Script where
  ops := [([], { ret := true }), ([⟨{ status := { read := true } }, some { read := true }⟩], { res := some ⟨1, [[97]]⟩ }),
    ([], { row := some [some [98]] }), ([], {})]

theorem oneRow_sound : oneRow.Sound := by
  intro o ho
  simp only [oneRow, List.mem_cons, List.not_mem_nil, or_false] at ho
  rcases ho with rfl | rfl | rfl | rfl
  case inr.inl =>
    refine ⟨fun w hw => ?_, ⟨rfl, by simp, by simp⟩⟩
    obtain rfl := List.mem_singleton.1 hw
    exact ⟨rfl, rfl, by simp⟩
  all_goals exact ⟨by simp, ⟨rfl, by simp, by simp⟩⟩

theorem oneRow_played (errNo : Int) :
    (play ⟨oneRow.unsplit, {}, queued errNo [{ id := 1, query := [115] }]⟩).bind End.observed =
      some ⟨[⟨1, 0, "", [[97]], [[[98]]]⟩], [.query [115]]⟩ := rfl

theorem oneRow_lost {errNo : Int} (h : errNo ≠ 0) :
    (play ⟨oneRow, {}, queued errNo [{ id := 1, query := [115] }]⟩).bind End.observed =
      some ⟨[⟨1, 0, "", [], []⟩], [.query [115]]⟩ := by
  match errNo, h with
  | .ofNat 0, h => exact absurd rfl h
  | .ofNat (_ + 1), _ => rfl
  | .negSucc _, _ => rfl

/-- **A query that blocks loses its rows** where `err_no_` happens not to be 0. -/
theorem rows_lost_after_wait :
    ∃ (c : Conn) (s : Script), c.errNo = 1 ∧ c.currentState.isWait = false ∧ s.Sound ∧
      (play ⟨s.unsplit, {}, c⟩).bind End.observed = some ⟨[⟨1, 0, "", [[97]], [[[98]]]⟩], [.query [115]]⟩ ∧
      (play ⟨s, {}, c⟩).bind End.observed = some ⟨[⟨1, 0, "", [], []⟩], [.query [115]]⟩ :=
  ⟨queued 1 [{ id := 1, query := [115] }], oneRow, rfl, rfl, oneRow_sound, rfl, rfl⟩

/-- **Waits do not show exactly if `err_no_` is 0.** -/
theorem transparent_iff (errNo : Int) : Transparent errNo ↔ errNo = 0 := by
  constructor
  · intro ht
    by_contra hne
    obtain ⟨e, e', h1, h2, h3⟩ := ht (queued errNo [{ id := 1, query := [115] }]) oneRow rfl rfl oneRow_sound
    have hu := oneRow_played errNo
    have hs := oneRow_lost hne
    rw [h1, Option.bind_some] at hu
    rw [h2, Option.bind_some, ← h3, hu] at hs
    simp at hs
  · rintro rfl
    exact transparent_zero

end LtApp.Mysql
