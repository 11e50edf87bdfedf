import LtApp.Mysql.Script

/-!
# Skipping `mysql_select_db`

`HandleStateIDLE` skips the selection of a database that `last_selected_db_` says is selected already. A session with a
query then comes to `QUERY_START` as it would after a selection that succeeds, and what follows is the same
(`Meets.next`). A session without one does not: `SELECT_DB_DONE` completes it as a successful switch, `QUERY_START`, which
it comes to when the selection is skipped, as an error.
-/

namespace LtApp.Mysql

/-! ## What the two ways have to agree on -/

/-- What the submitter of a session gets: its `Code` and its rows. -/
structure Outcome where
  id   : Nat
  code : Int
  rows : List (List Bytes)
deriving DecidableEq, Repr

def Ev.completion : Ev → Option Outcome
  | .done q => some ⟨q.id, q.code, q.results⟩
  | _ => none

def Ev.asked : Ev → Option Bytes
  | .call (.realQueryStart q) _ => some q.query
  | _ => none

/-- The sessions completed and the query statements sent, last first. -/
structure Served where
  completions : List Outcome
  queries     : List Bytes
deriving DecidableEq, Repr

def served (log : List Ev) : Served := ⟨log.filterMap Ev.completion, log.filterMap Ev.asked⟩

/-- What is served in a play that has not aborted. -/
protected def End.served : End → Option Served
  | .stopped c | .rested c => some (served c.log)
  | .aborted => none

/-- Whether `q` comes next on an idle connection that has its database selected, or on the same connection with another
database selected, where the selection is waited for in any way and succeeds: the same is served, whatever the library
answers after that. -/
def SelectOptional (q : Session) : Prop :=
  ∀ (c : Conn) (w : List Session) (db : Bytes) (s : Script) (ws : List Wait) (f : Answer),
    c.currentState = .connectionIdle → c.inProcess = none → c.queryList = q :: w → c.lastSelectedDb = q.dbName →
    db ≠ q.dbName → s.Sound → (∀ x ∈ ws, x.Sound) → f.Final → f.err = 0 →
    ∃ e e', play ⟨s, {}, c⟩ = some e ∧
      play ⟨{ s with ops := (ws, f) :: s.ops }, {}, { c with lastSelectedDb := db }⟩ = some e' ∧ e.served = e'.served

/-! ## A view of the connection without the events -/

/-- The sessions completed, as far as their outcome goes, and the queries sent, without how they have ended. -/
def Ev.told : Ev → Option Ev
  | .done q => some (.done { id := q.id, code := q.code, results := q.results })
  | .call (.realQueryStart q) _ => some (.call (.realQueryStart q) {})
  | _ => none

def told (log : List Ev) : List Ev := log.filterMap Ev.told

@[simps] def Conn.view (c : Conn) : Conn := { c with fdEvent := none, timeout := ⟨0, false⟩, log := told c.log }

@[simp] def Turn.view : Turn → Turn
  | .goOn c => .goOn c.view
  | .rest c => .rest c.view
  | .checkFailed => .checkFailed

@[simp] theorem told_append (l m : List Ev) : told (l ++ m) = told l ++ told m := List.filterMap_append

@[simp] theorem told_cons (e : Ev) (l : List Ev) : told (e :: l) = e.told.toList ++ told l := by
  unfold told
  cases h : e.told <;> simp [h]

@[simp] theorem told_told (log : List Ev) : told (told log) = told log := by
  unfold told
  rw [List.filterMap_filterMap]
  congr 1
  funext e
  cases e <;> try rfl
  rename_i l a
  cases l <;> rfl

@[simp] theorem told_armLog (a : Answer) (st : WaitStatus) (c : Conn) : told (armLog a st c) = [] :=
  List.filterMap_eq_nil_iff.2 (armLog_forall (P := fun e => e.told = none) rfl rfl st c)

theorem served_told (log : List Ev) : served (told log) = served log := by
  unfold served told
  rw [List.filterMap_filterMap, List.filterMap_filterMap]
  congr 1
  · congr 1
    funext e
    cases e <;> try rfl
    rename_i l a
    cases l <;> rfl
  · congr 1
    funext e
    cases e <;> try rfl
    rename_i l a
    cases l <;> rfl

/-- The states that read more of what the last operation has left than `mysql_affected_rows`. -/
def State.reads : State → Bool
  | .queryResultReady | .fetchRowResultReady => true
  | _ => false

section
-- what a pass computes
attribute [local simp] handleStateConnect handleStateIDLE handleStateSelectDB goNextState failQuery doneCurrentQuery
  storeRet storeRow Conn.toState Conn.call Conn.emit Conn.setReady Conn.onQueryDone waitMysqlStatus_eq cleanUp_eq
  fetchEnd_eq fetchRow_eq needsSelect armed cleaned unfinished fetchEnded fetchEndLog rowFetched fetchRowLog
  Session.setAffectedRows Conn.view Ev.told

/-- **A pass reads no more than the view**, and of the answer nothing that shows where it calls and reads nothing. -/
theorem handleStatePass_view {a a' : Answer} (ev : WaitStatus) {c : Conn}
    (h : c.calls = true ∨ c.currentState.reads = true → a = a') :
    (handleStatePass a ev c).view = (handleStatePass a' {} c.view).view := by
  unfold handleStatePass
  rw [Conn.view_currentState]
  cases hs : c.currentState
  case stateNone | connectInit => rfl
  case connectStart | connectWait | closeStart | closeWait | fetchRowStart | fetchRowWait =>
    obtain rfl := h (.inl (by simp [Conn.calls, hs]))
    cases hz : a.status.isZero <;> simp [hs, hz]
  case connectDone =>
    cases hr : c.mysqlRet <;> cases hcl : c.client <;> simp [hs, hr, hcl]
  case closeDone =>
    cases hcl : c.client <;> cases hf : c.fdEvent <;> simp [hs, hcl, hf]
  case connectionIdle =>
    cases hq : c.queryList with
    | nil => cases hsc : c.scheduleClose <;> simp [hq, hsc]
    | cons q w =>
      cases hp : c.inProcess <;> simp [hq, hp]
  case selectDbStart | selectDbWait =>
    cases hp : c.inProcess with
    | none => simp [hp]
    | some q =>
      obtain rfl := h (.inl (by simp [Conn.calls, hs, hp]))
      by_cases he : a.err = 0
      · cases hz : a.status.isZero <;> simp [hp, hs, he, hz]
      · simp [hp, hs, he]
  case selectDbDone =>
    cases hp : c.inProcess with
    | none => simp [hp]
    | some q =>
      cases hq : q.query <;> simp [hp, hs, hq]
  case queryStart =>
    cases hp : c.inProcess with
    | none => simp [hp]
    | some q =>
      cases hq : q.query.isEmpty with
      | true =>
        simp [hp, hq]
      | false =>
        obtain rfl := h (.inl (by simp [Conn.calls, hs, hp, hq]))
        by_cases he : a.err = 0
        · cases hz : a.status.isZero <;> simp [hp, hq, he, hz]
        · simp [hp, hq, he]
  case queryWait =>
    cases hp : c.inProcess with
    | none => simp [hp]
    | some q =>
      obtain rfl := h (.inl (by simp [Conn.calls, hs, hp]))
      by_cases he : c.errNo = 0
      · cases hz : a.status.isZero <;> simp [hp, he, hz]
      · simp [hp, he]
  case queryResultReady =>
    obtain rfl := h (.inr (by rw [hs]; rfl))
    cases hp : c.inProcess with
    | none => simp [hp]
    | some q =>
      cases hr : a.res with
      | none => simp [hp]
      | some r => simp [hp]
  case fetchRowResultReady =>
    obtain rfl := h (.inr (by rw [hs]; rfl))
    cases hp : c.inProcess with
    | none => simp [hp]
    | some q =>
      cases hr : c.result with
      | none => simp [hp, hr]
      | some r =>
        cases hrow : c.resultRow with
        | none =>
          by_cases he : a.errno = 0 <;> simp [hp, hr, hrow, he]
        | some row =>
          cases hcol : q.columNames <;> simp [-Conn.toState, hp, hr, hrow, hcol]

end

theorem calls_of_view {u v : Conn} (h : u.view = v.view) : u.calls = v.calls := by
  have hs : u.currentState = v.currentState := by simpa using congrArg Conn.currentState h
  have hp : u.inProcess = v.inProcess := by simpa using congrArg Conn.inProcess h
  simp only [Conn.calls, hs, hp]

theorem handleStatePass_view_congr {a a' : Answer} (ev ev' : WaitStatus) {u v : Conn} (h : u.view = v.view)
    (ha : u.calls = true ∨ u.currentState.reads = true → a = a') :
    (handleStatePass a ev u).view = (handleStatePass a' ev' v).view := by
  have hv : (handleStatePass a' ev' v).view = (handleStatePass a' {} v.view).view := handleStatePass_view ev' fun _ => rfl
  rw [handleStatePass_view ev ha, h, hv]

theorem goOn_of_view {t : Turn} {c : Conn} (h : (Turn.goOn c).view = t.view) : ∃ d, t = .goOn d ∧ c.view = d.view := by
  cases t <;> simp_all [Turn.view]

theorem rest_of_view {t : Turn} {c : Conn} (h : (Turn.rest c).view = t.view) : ∃ d, t = .rest d ∧ c.view = d.view := by
  cases t <;> simp_all [Turn.view]

theorem checkFailed_of_view {t : Turn} (h : Turn.checkFailed.view = t.view) : t = .checkFailed := by
  cases t <;> simp_all [Turn.view]

/-! ## Two plays side by side -/

/-- The same is to come in both plays: what the last operation has left may differ, where nothing more reads it. -/
structure Meets (p p' : Playing) : Prop where
  ops   : p.script.ops = p'.script.ops
  sound : p.script.Sound
  cur   : p.conn.currentState.reads = true → p.script.cur = p'.script.cur
  view  : p.conn.view = p'.conn.view

def End.view : End → End
  | .stopped c => .stopped c.view
  | .rested c => .rested c.view
  | .aborted => .aborted

theorem served_of_view {e e' : End} (h : e.view = e'.view) : e.served = e'.served := by
  have hlog : ∀ c d : Conn, c.view = d.view → served c.log = served d.log := by
    intro c d hv
    rw [← served_told c.log, ← served_told d.log]
    exact congrArg served (by simpa using congrArg Conn.log hv)
  cases e <;> cases e' <;> simp only [End.view, End.stopped.injEq, End.rested.injEq, reduceCtorEq] at h
  · exact congrArg some (hlog _ _ h)
  · exact congrArg some (hlog _ _ h)
  · rfl

/-- What the library answers to the next pass of both plays. -/
structure Fed (p p' : Playing) (a a' : Answer) (wake wake' : Option LtEvent) (s s' : Script) : Prop where
  left   : p.script.feed p.conn = some (a, wake, s)
  right  : p'.script.feed p'.conn = some (a', wake', s')
  answer : p.conn.calls = true ∨ p.conn.currentState.reads = true → a = a'
  wake   : wake = wake'
  ops    : s.ops = s'.ops
  sound  : s.Sound
  /-- A call that does not finish leaves what is there. -/
  cur    : s.cur = s'.cur ∨ p.conn.calls = false ∧ p.conn.currentState.reads = false ∨
    p.conn.calls = true ∧ a.status.isZero = false

theorem Meets.fed {p p' : Playing} (h : Meets p p') :
    (p.script.feed p.conn = none ∧ p'.script.feed p'.conn = none) ∨ ∃ a a' w w' s s', Fed p p' a a' w w' s s' := by
  obtain ⟨⟨ops, cur⟩, ev, u⟩ := p
  obtain ⟨⟨ops', cur'⟩, ev', v⟩ := p'
  obtain ⟨rfl, hsound, hcur, hview⟩ := h
  dsimp only at hsound hcur hview
  have hcalls : u.calls = v.calls := calls_of_view hview
  cases hc : u.calls with
  | false =>
    rw [hc] at hcalls
    refine .inr ⟨cur, cur', none, none, ⟨ops, cur⟩, ⟨ops, cur'⟩, ?_⟩
    have hanswer : u.calls = true ∨ u.currentState.reads = true → cur = cur' := by
      rintro (hc' | hr)
      · rw [hc] at hc'; cases hc'
      · exact hcur hr
    refine ⟨by simp [Script.feed, hc], by simp [Script.feed, ← hcalls], hanswer, rfl, rfl, hsound, ?_⟩
    by_cases hr : u.currentState.reads = true
    · exact .inl (hcur hr)
    · exact .inr (.inl ⟨hc, by simpa using hr⟩)
  | true =>
    rw [hc] at hcalls
    match ops, hsound with
    | [], _ => exact .inl ⟨by simp [Script.feed, hc], by simp [Script.feed, ← hcalls]⟩
    | (w :: ws, f) :: ops, hsound =>
      obtain ⟨hws, hf⟩ := hsound (w :: ws, f) (by simp)
      refine .inr ⟨w.answer, w.answer, w.wake, w.wake, ⟨(ws, f) :: ops, cur⟩, ⟨(ws, f) :: ops, cur'⟩, ?_⟩
      refine ⟨by simp [Script.feed, hc], by simp [Script.feed, ← hcalls], fun _ => rfl, rfl, rfl, ?_,
        .inr (.inr ⟨hc, (hws w (by simp)).blocks⟩)⟩
      intro o ho
      rcases List.mem_cons.1 ho with rfl | ho
      · exact ⟨fun x hx => hws x (by simp [hx]), hf⟩
      · exact hsound o (by simp [ho])
    | ([], f) :: ops, hsound =>
      refine .inr ⟨f, f, none, none, ⟨ops, f⟩, ⟨ops, f⟩, ?_⟩
      exact ⟨by simp [Script.feed, hc], by simp [Script.feed, ← hcalls], fun _ => rfl, rfl, rfl,
        fun o ho => hsound o (by simp [ho]), .inl rfl⟩

/-- Only the end of an operation leads to a state that reads what it has left. -/
theorem pass_reads {a : Answer} {ev : WaitStatus} {c c' : Conn} (h : Pass a ev c (.goOn c'))
    (hr : c'.currentState.reads = true) : c.calls = true ∧ a.status.isZero = true := by
  cases h with
  | finish hi _ hz => exact ⟨hi.calls, hz⟩
  | fail | noResult =>
    rw [failed_currentState] at hr
    split at hr <;> cases hr
  | take =>
    rw [taken_currentState] at hr
    split at hr <;> cases hr
  | refused | connected | closing | switched | selected | emptyQuery | gotResult | rowEnd | row => cases hr

@[simp] theorem disarmed_view (e : FdEvent) (c : Conn) : (disarmed e c).view = c.view := rfl

/-- A handler that returns to wait has armed its events, and no state it waits in reads what an operation has left. -/
theorem pass_waits {a : Answer} {ev : WaitStatus} {c c' : Conn} (h : Pass a ev c (.rest c'))
    (hw : c'.currentState.isWait = true) :
    (∃ e, resetWaitEvent c' = some (disarmed e c')) ∧ c'.currentState.reads = false := by
  cases h with
  | @wait k l hi hr hz =>
    refine ⟨⟨_, resetWaitEvent_some rfl⟩, ?_⟩
    rw [armed_currentState, Conn.toState_currentState]
    cases k <;> rfl
  | closed => cases hw
  | idle hs => rw [hs] at hw; cases hw

/-- **Both plays take the same step.** -/
theorem Meets.next {p p' : Playing} (h : Meets p p') :
    (∃ q q', playNext p = .inl q ∧ playNext p' = .inl q' ∧ Meets q q') ∨
    (∃ e e', playNext p = .inr e ∧ playNext p' = .inr e' ∧ e.view = e'.view) := by
  rcases h.fed with ⟨hl, hr⟩ | ⟨a, a', w, w', s, s', hfed⟩
  · refine .inr ⟨.stopped p.conn, .stopped p'.conn, ?_, ?_, congrArg End.stopped h.view⟩
    · simp [playNext, hl]
    · simp [playNext, hr]
  · have hcongr := handleStatePass_view_congr p.event p'.event h.view hfed.answer
    have hpass : Pass a p.event p.conn (handleStatePass a p.event p.conn) := handleStatePass_pass
    obtain ⟨hl, hr, -, rfl, hops, hsound, hcur⟩ := hfed
    cases hu : handleStatePass a p.event p.conn with
    | goOn u =>
      rw [hu] at hcongr hpass
      obtain ⟨v, hv, hview⟩ := goOn_of_view hcongr
      refine .inl ⟨⟨s, p.event, u⟩, ⟨s', p'.event, v⟩, playNext_goOn hl hu, playNext_goOn hr hv, hops, hsound, ?_, hview⟩
      · intro hreads
        obtain ⟨hc, hz⟩ := pass_reads hpass hreads
        rcases hcur with hcur | ⟨hc', -⟩ | ⟨-, hz'⟩
        · exact hcur
        · rw [hc] at hc'; cases hc'
        · rw [hz] at hz'; cases hz'
    | rest u =>
      rw [hu] at hcongr hpass
      obtain ⟨v, hv, hview⟩ := rest_of_view hcongr
      have hpass' : Pass a' p'.event p'.conn (.rest v) := hv ▸ handleStatePass_pass
      have hs : u.currentState = v.currentState := by simpa using congrArg Conn.currentState hview
      by_cases hw : u.currentState.isWait = true
      · obtain ⟨⟨e, he⟩, hreads⟩ := pass_waits hpass hw
        obtain ⟨⟨e', he'⟩, -⟩ := pass_waits hpass' (hs ▸ hw)
        refine .inl ⟨⟨s, wakeStatus w, disarmed e u⟩, ⟨s', wakeStatus w, disarmed e' v⟩, ?_, ?_, hops, hsound, ?_, ?_⟩
        · simp [playNext, hl, hu, hw, he]
        · simp [playNext, hr, hv, ← hs, hw, he']
        · intro hreads'
          rw [disarmed_currentState, hreads] at hreads'
          cases hreads'
        · rw [disarmed_view, disarmed_view, hview]
      · refine .inr ⟨.rested u, .rested v, ?_, ?_, congrArg End.rested hview⟩
        · simp [playNext, hl, hu, hw]
        · simp [playNext, hr, hv, ← hs, hw]
    | checkFailed =>
      rw [hu] at hcongr
      have hv := checkFailed_of_view hcongr
      refine .inr ⟨.aborted, .aborted, ?_, ?_, rfl⟩
      · simp [playNext, hl, hu]
      · simp [playNext, hr, hv]

/-- Plays that meet end alike. -/
theorem Meets.iterate {p p' : Playing} {n : Nat} {e : End} (h : Meets p p') (he : iterate playNext n p = some e) :
    ∃ m e', iterate playNext m p' = some e' ∧ e.view = e'.view := by
  apply iterate_simulates (R := Meets) _ _ h he
  · intro p p₁ p' hm hn
    rcases hm.next with ⟨q, q', hq, hq', hm'⟩ | ⟨e, e', hr, -, -⟩
    · rw [hq, Sum.inl.injEq] at hn
      exact ⟨q', .one hq', hn ▸ hm'⟩
    · rw [hr] at hn
      cases hn
  · intro p r p' hm hn
    rcases hm.next with ⟨q, q', hq, -, -⟩ | ⟨e, e', hr, hr', hv⟩
    · rw [hq] at hn
      cases hn
    · rw [hr, Sum.inr.injEq] at hn
      exact ⟨p', e', .refl, hr', hn ▸ hv⟩

/-- What a play serves can be read off any state it comes to. -/
theorem play_of_steps {p p₁ : Playing} (h : Steps playNext p p₁) : play p = play p₁ := by
  obtain ⟨e, he⟩ := Option.isSome_iff_exists.1 (play_isSome p)
  obtain ⟨e₁, he₁⟩ := Option.isSome_iff_exists.1 (play_isSome p₁)
  obtain ⟨m, hm⟩ := h.iterate he₁
  rw [he, he₁, iterate_unique he hm]

theorem Meets.served {p p' : Playing} (h : Meets p p') :
    ∃ e e', play p = some e ∧ play p' = some e' ∧ e.served = e'.served := by
  obtain ⟨e, he⟩ := Option.isSome_iff_exists.1 (play_isSome p)
  obtain ⟨e', he'⟩ := Option.isSome_iff_exists.1 (play_isSome p')
  obtain ⟨m, e₁, hm, hv⟩ := h.iterate he
  obtain rfl := iterate_unique he' hm
  exact ⟨e, e', he, he', served_of_view hv⟩

/-! ## A selection that succeeds -/

/-- A pass that makes no call reads what the last operation has left. -/
theorem playNext_reads {s : Script} {ev : WaitStatus} {c d : Conn} (hc : c.calls = false)
    (h : handleStatePass s.cur ev c = .goOn d) : playNext ⟨s, ev, c⟩ = .inl ⟨s, ev, d⟩ :=
  playNext_goOn (w := none) (by simp [Script.feed, hc]) h

/-- The selection for `q` is about to be made, or is being waited for. -/
structure Selecting (q : Session) (c : Conn) : Prop where
  state     : c.currentState = .selectDbStart ∨ c.currentState = .selectDbWait
  inProcess : c.inProcess = some q

theorem Selecting.calls {q : Session} {c : Conn} (h : Selecting q c) : c.calls = true := by
  rcases h.state with hs | hs <;> simp [Conn.calls, hs, h.inProcess]

/-- The call that is made next tells nobody anything, and fails where it says so. -/
theorem Selecting.pass {q : Session} {c : Conn} (h : Selecting q c) (ev : WaitStatus) {a : Answer} (ha : a.err = 0) :
    ∃ l, (Ev.call l a).told = none ∧ handleStatePass a ev c =
      if a.status.isZero then .goOn ((c.call l a).toState .selectDbDone)
      else .rest (armed a a.status ((c.call l a).toState .selectDbWait)) := by
  rcases h.state with hs | hs
  · have hi : Issues c ev .selectDb (.selectDbStart (cStr q.dbName)) := .selectDbStart hs h.inProcess
    have hp := hi.pass a
    simp only [Conn.reports, ha, ne_eq, not_true_eq_false, decide_false, Bool.false_eq_true, if_false] at hp
    exact ⟨_, rfl, hp⟩
  · have hi : Issues c ev .selectDb (.selectDbCont ev) := .selectDbCont hs h.inProcess
    have hp := hi.pass a
    simp only [Conn.reports, ha, ne_eq, not_true_eq_false, decide_false, Bool.false_eq_true, if_false] at hp
    exact ⟨_, rfl, hp⟩

/-- However it is waited for, a selection that succeeds leads to `SELECT_DB_DONE` and changes nothing else. -/
theorem Selecting.drain {q : Session} {c : Conn} (h : Selecting q c) {ws : List Wait} {f : Answer}
    (hws : ∀ x ∈ ws, x.Sound) (hf : f.Final) (he : f.err = 0) (ev : WaitStatus) (cur : Answer)
    (ops : List (List Wait × Answer)) :
    ∃ ev' d, Steps playNext ⟨⟨(ws, f) :: ops, cur⟩, ev, c⟩ ⟨⟨ops, f⟩, ev', d⟩ ∧
      d.view = (c.toState .selectDbDone).view := by
  induction ws generalizing c ev with
  | nil =>
    obtain ⟨l, hl, hp⟩ := h.pass ev he
    rw [hf.done, if_pos rfl] at hp
    refine ⟨ev, (c.call l f).toState .selectDbDone, .one ?_, ?_⟩
    · simp [playNext, Script.feed, h.calls, hp]
    · simp [Conn.view, hl]
  | cons w ws ih =>
    have hw : w.Sound := hws w (by simp)
    obtain ⟨l, hl, hp⟩ := h.pass ev hw.err
    rw [hw.blocks] at hp
    simp only [Bool.false_eq_true, if_false] at hp
    set b := armed w.answer w.answer.status ((c.call l w.answer).toState .selectDbWait) with hb
    obtain ⟨fd, hfd⟩ : ∃ fd, b.fdEvent = some fd := ⟨_, rfl⟩
    have hb' : Selecting q (disarmed fd b) := ⟨.inr rfl, h.inProcess⟩
    obtain ⟨ev', d, hst, hv⟩ := ih hb' (fun x hx => hws x (by simp [hx])) (wakeStatus w.wake)
    refine ⟨ev', d, .cons ?_ hst, ?_⟩
    · have hs : b.currentState = .selectDbWait := rfl
      simp [playNext, Script.feed, h.calls, hp, hs, State.isWait, resetWaitEvent_some hfd]
    · rw [hv]
      simp [hb, Conn.view, hl]

/-! ## Where the two ways meet, and where they do not -/

/-- `q` comes next on the connection. -/
structure UpNext (q : Session) (w : List Session) (c : Conn) : Prop where
  idle      : c.currentState = .connectionIdle
  inProcess : c.inProcess = none
  queryList : c.queryList = q :: w

section
variable {q : Session} {w : List Session} {c : Conn}

theorem UpNext.take (h : UpNext q w c) (s : Script) (ev : WaitStatus) :
    playNext ⟨s, ev, c⟩ = .inl ⟨s, ev, taken q w c⟩ := by
  apply playNext_reads
  · simp [Conn.calls, h.idle]
  · simp [handleStatePass, handleStateIDLE, h.idle, h.queryList, h.inProcess, taken, Conn.toState, needsSelect]

theorem UpNext.skip (hdb : c.lastSelectedDb = q.dbName) :
    taken q w c = { c with inProcess := some q, queryList := w, currentState := .queryStart } := by
  simp [taken, needsSelect, hdb]

/-- The slow way to `SELECT_DB_DONE`. -/
theorem UpNext.select (h : UpNext q w c) (hd : q.dbName ≠ []) (hdb : c.lastSelectedDb ≠ q.dbName) {ws : List Wait}
    {f : Answer} (hws : ∀ x ∈ ws, x.Sound) (hf : f.Final) (he : f.err = 0) (s : Script) :
    ∃ ev d, Steps playNext ⟨{ s with ops := (ws, f) :: s.ops }, {}, c⟩ ⟨⟨s.ops, f⟩, ev, d⟩ ∧
      d.view = ((taken q w c).toState .selectDbDone).view := by
  have hs : (taken q w c).currentState = .selectDbStart := by
    have hne : q.dbName ≠ c.lastSelectedDb := Ne.symm hdb
    simp [needsSelect, hd, hne]
  obtain ⟨ev, d, hst, hv⟩ := Selecting.drain (c := taken q w c) ⟨.inl hs, rfl⟩ hws hf he {} s.cur s.ops
  exact ⟨ev, d, .cons (h.take _ _) hst, hv⟩

end

/-- With a query, both ways come to `QUERY_START`. -/
theorem selectOptional_of_query {q : Session} (hd : q.dbName ≠ []) (hq : q.query ≠ []) : SelectOptional q := by
  intro c w db s ws f hidle hp hl hlast hdb hs hws hf he
  have hfast : UpNext q w c := ⟨hidle, hp, hl⟩
  have hslow : UpNext q w { c with lastSelectedDb := db } := ⟨hidle, hp, hl⟩
  obtain ⟨ev, d, hst, hv⟩ := hslow.select hd hdb hws hf he s
  have hds : d.currentState = .selectDbDone := by simpa using congrArg Conn.currentState hv
  have hdp : d.inProcess = some q := by simpa using congrArg Conn.inProcess hv
  -- `SELECT_DB_DONE` sets `last_selected_db_`, and the connections are the same again
  set d' : Conn := { d with lastSelectedDb := q.dbName, currentState := .queryStart } with hd'
  have hnext : playNext ⟨⟨s.ops, f⟩, ev, d⟩ = .inl ⟨⟨s.ops, f⟩, ev, d'⟩ := by
    apply playNext_reads
    · simp [Conn.calls, hds]
    · simp [hds, handleStatePass, handleStateSelectDB, hdp, hq, Conn.toState, hd']
  have hview : d'.view = (taken q w c).view := by
    calc d'.view = { d.view with lastSelectedDb := q.dbName, currentState := .queryStart } := rfl
      _ = (taken q w c).view := by
        rw [hv, UpNext.skip hlast]
        simp [Conn.view, hlast]
  have hmeets : Meets ⟨s, {}, taken q w c⟩ ⟨⟨s.ops, f⟩, ev, d'⟩ := by
    refine ⟨rfl, hs, fun hr => ?_, hview.symm⟩
    rw [UpNext.skip hlast] at hr
    cases hr
  rw [play_of_steps (.one (hfast.take s {})), play_of_steps (hst.snoc hnext)]
  exact hmeets.served

/-- Without one, `QUERY_START` completes the session with -9999. -/
theorem UpNext.emptyQuery {q : Session} {w : List Session} {c : Conn} (h : UpNext q w c) (hq : q.query = [])
    (hlast : c.lastSelectedDb = q.dbName) (s : Script) :
    Steps playNext ⟨s, {}, c⟩ ⟨s, {}, skipped s.cur (-9999) "empty query" q (taken q w c)⟩ := by
  apply Steps.snoc (.one (h.take s {}))
  apply playNext_reads
  · simp [Conn.calls, UpNext.skip hlast, hq]
  · rw [← skipped_eq (show (taken q w c).inProcess = some q from rfl)]
    simp [handleStatePass, UpNext.skip hlast, hq]

/-- Without one, `SELECT_DB_DONE` completes the session with the code it has. -/
theorem UpNext.switch {q : Session} {w : List Session} {c : Conn} (h : UpNext q w c) (hq : q.query = [])
    (hd : q.dbName ≠ []) (hdb : c.lastSelectedDb ≠ q.dbName) {ws : List Wait} {f : Answer} (hws : ∀ x ∈ ws, x.Sound)
    (hf : f.Final) (he : f.err = 0) (s : Script) :
    ∃ ev d, Steps playNext ⟨{ s with ops := (ws, f) :: s.ops }, {}, c⟩ ⟨⟨s.ops, f⟩, ev, d⟩ ∧
      d.view = (skipped {} 0 "" q { c with queryList := w, lastSelectedDb := q.dbName }).view := by
  obtain ⟨ev, d, hst, hv⟩ := h.select hd hdb hws hf he s
  have hds : d.currentState = .selectDbDone := by simpa using congrArg Conn.currentState hv
  have hdp : d.inProcess = some q := by simpa using congrArg Conn.inProcess hv
  set d' := skipped f 0 "db change success" q { d with lastSelectedDb := q.dbName } with hd'
  refine ⟨ev, d', hst.snoc (playNext_reads (by simp [Conn.calls, hds]) ?_), ?_⟩
  · rw [hd', ← skipped_eq (show ({ d with lastSelectedDb := q.dbName } : Conn).inProcess = some q from hdp)]
    simp [handleStatePass, handleStateSelectDB, hds, hdp, hq]
  · calc d'.view = (skipped {} 0 "" q { d.view with lastSelectedDb := q.dbName }).view := by
          simp [hd', Conn.view, Ev.told, doneSession, Session.setAffectedRows]
      _ = (skipped {} 0 "" q { c with queryList := w, lastSelectedDb := q.dbName }).view := by
          rw [hv]
          simp [Conn.view, Ev.told]

theorem selectOptional_of_code {q : Session} (hd : q.dbName ≠ []) (hq : q.query = []) (hcode : q.code = -9999) :
    SelectOptional q := by
  intro c w db s ws f hidle hp hl hlast hdb hs hws hf he
  have hfast : UpNext q w c := ⟨hidle, hp, hl⟩
  have hslow : UpNext q w { c with lastSelectedDb := db } := ⟨hidle, hp, hl⟩
  obtain ⟨ev, d, hst, hv⟩ := hslow.switch hq hd hdb hws hf he s
  have hmeets : Meets ⟨s, {}, skipped s.cur (-9999) "empty query" q (taken q w c)⟩ ⟨⟨s.ops, f⟩, ev, d⟩ := by
    refine ⟨rfl, hs, (by intro hr; cases hr), ?_⟩
    rw [hv, UpNext.skip hlast]
    simp [Conn.view, skipped, Ev.told, doneSession, hcode, hlast, Session.setCode, Session.setAffectedRows]
  rw [play_of_steps (hfast.emptyQuery hq hlast s), play_of_steps hst]
  exact hmeets.served

/-- An idle connection with nothing queued has nothing more to do. -/
theorem play_idle {s : Script} {ev : WaitStatus} {c : Conn} (hs : c.currentState = .connectionIdle)
    (hq : c.queryList = []) (hc : c.scheduleClose = false) : play ⟨s, ev, c⟩ = some (.rested c) := by
  apply iterate_of_inr
  simp [playNext, Script.feed, Conn.calls, handleStatePass, handleStateIDLE, hs, hq, hc, State.isWait]

/-- The connection of `selectOptional_code`: `q` is all there is to do. -/
def upNext (q : Session) : Conn :=
  { errNo := 0, currentState := .connectionIdle, client := false, lastSelectedDb := q.dbName, queryList := [q] }

theorem selectOptional_code {q : Session} (hd : q.dbName ≠ []) (hq : q.query = []) (h : SelectOptional q) :
    q.code = -9999 := by
  have hf : ({} : Answer).Final := ⟨rfl, by simp, by simp⟩
  have hslow : UpNext q [] { upNext q with lastSelectedDb := [] } := ⟨rfl, rfl, rfl⟩
  have hnone : ∀ x ∈ ([] : List Wait), x.Sound := by simp
  obtain ⟨ev, d, hst, hv⟩ := hslow.switch hq hd (Ne.symm hd) hnone hf rfl ⟨[], {}⟩
  obtain ⟨e, e', he, he', hserved⟩ := h (upNext q) [] [] ⟨[], {}⟩ [] {} rfl rfl rfl rfl (Ne.symm hd) (by simp [Script.Sound])
    hnone hf rfl
  -- both plays end with the session completed
  rw [play_of_steps (UpNext.emptyQuery ⟨rfl, rfl, rfl⟩ hq rfl ⟨[], {}⟩), play_idle rfl rfl rfl, Option.some.injEq] at he
  have hds : d.currentState = .connectionIdle := by simpa using congrArg Conn.currentState hv
  have hdq : d.queryList = [] := by simpa using congrArg Conn.queryList hv
  have hdc : d.scheduleClose = false := congrArg Conn.scheduleClose hv
  rw [play_of_steps hst, play_idle hds hdq hdc, Option.some.injEq] at he'
  have hlog : told d.log = told [.done (doneSession {} 0 (some "") q)] := congrArg Conn.log hv
  have hdone : served d.log = ⟨[⟨q.id, q.code, q.results⟩], []⟩ := by
    rw [← served_told, hlog, served_told]
    rfl
  have hempty : served (skipped {} (-9999) "empty query" q (taken q [] (upNext q))).log =
      ⟨[⟨q.id, -9999, q.results⟩], []⟩ := rfl
  subst he he'
  simp only [End.served, hempty, hdone, Option.some.injEq, Served.mk.injEq, List.cons.injEq, Outcome.mk.injEq] at hserved
  exact hserved.1.1.2.1.symm

/-- **When skipping the selection is only an optimisation**: for a session with a query. One without gets -9999
from `QUERY_START` where `SELECT_DB_DONE` leaves its code as it is. -/
theorem selectOptional_iff (q : Session) (hd : q.dbName ≠ []) :
    SelectOptional q ↔ q.query ≠ [] ∨ q.code = -9999 := by
  constructor
  · intro h
    by_cases hq : q.query = []
    · exact .inr (selectOptional_code hd hq h)
    · exact .inl hq
  · rintro (hq | hcode)
    · exact selectOptional_of_query hd hq
    · by_cases hq : q.query = []
      · exact selectOptional_of_code hd hq hcode
      · exact selectOptional_of_query hd hq

theorem selectOptional_with_query : SelectOptional { id := 1, dbName := [100], query := [83] } :=
  (selectOptional_iff _ (by decide)).2 (.inl (by decide))

/-- The request to switch to `d`, once to a connection that has it selected, once to one that has not. -/
theorem switch_not_optional : ¬ SelectOptional { id := 1, dbName := [100] } ∧
    (play ⟨⟨[([], {})], {}⟩, {}, { upNext { id := 1, dbName := [100] } with
      lastSelectedDb := [], queryList := [{ id := 1, dbName := [100] }, { id := 2, dbName := [100] }] }⟩).bind End.served =
      some ⟨[⟨2, -9999, []⟩, ⟨1, 0, []⟩], []⟩ := by
  refine ⟨fun h => ?_, by decide⟩
  obtain ⟨e, e', he, he', hserved⟩ := h (upNext { id := 1, dbName := [100] }) [] [] ⟨[], {}⟩ [] {} rfl rfl rfl rfl
    (by decide) (by simp [Script.Sound]) (by simp) ⟨rfl, by simp, by simp⟩ rfl
  have heq := congrArg₂ (fun x y => (x.bind End.served, y.bind End.served)) he he'
  simp only [Option.bind_some, hserved, Prod.mk.injEq] at heq
  exact absurd (heq.1.trans heq.2.symm) (by decide)

end LtApp.Mysql
