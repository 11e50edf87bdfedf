import LtApp.Mysql.System

/-!
# Where the machine is, and where it rests

`Phased`: a session is in process only in the states of a query (`SELECT_DB_*`, `QUERY_*`, `FETCH_ROW_*`).
Every pass keeps this (`pass_phased`), and so does every step, as long as no connect is made over a session
in process (`step_phased`). It is what makes the other invariants work: `CONNECTION_IDLE` and the connect
and close states never hold a session.

`Rested` is the shape `HandleState` leaves behind (`handleState_rested`): a `*_WAIT` state with its events
armed, the idle state with nothing to do, or the state a finished close leaves.
-/

namespace LtApp.Mysql

/-- The states in which a session is in process. -/
def State.inSession : State → Bool
  | .selectDbStart | .selectDbWait | .selectDbDone | .queryStart | .queryWait | .queryResultReady
  | .fetchRowStart | .fetchRowWait | .fetchRowResultReady => true
  | _ => false

/-- The states in which `result_` is read. -/
def State.fetching : State → Bool
  | .fetchRowStart | .fetchRowWait | .fetchRowResultReady => true
  | _ => false

def Phased (c : Conn) : Prop := c.inProcess.isSome = true → c.currentState.inSession = true

theorem Phased.none {c : Conn} (h : Phased c) (hs : c.currentState.inSession = false) : c.inProcess = none := by
  cases hp : c.inProcess with
  | none => rfl
  | some q => simp [h (by simp [hp])] at hs

theorem phased_of_none {c : Conn} (h : c.inProcess = none) : Phased c := by simp [Phased, h]

theorem phased_of_inSession {c : Conn} (h : c.currentState.inSession = true) : Phased c := fun _ => h

/-- The operation a pass is about, when there is a session or not. -/
theorem Issues.state {c : Conn} {ev : WaitStatus} {k : Kind} {l : LibCall} (h : Issues c ev k l) :
    c.currentState = k.start ∨ c.currentState = k.wait := by
  cases h
  all_goals first | exact .inl ‹_› | exact .inr ‹_›

theorem Issues.inSession {c : Conn} {ev : WaitStatus} {k : Kind} {l : LibCall} (h : Issues c ev k l) :
    c.currentState.inSession = k.wait.inSession := by
  rcases h.state with hs | hs
  · rw [hs]; cases k <;> rfl
  · rw [hs]

theorem Kind.finished_inSession (k : Kind) : k.finished.inSession = k.wait.inSession := by cases k <;> rfl

theorem Issues.fetching {c : Conn} {ev : WaitStatus} {k : Kind} {l : LibCall} (h : Issues c ev k l) :
    c.currentState.fetching = k.wait.fetching := by
  rcases h.state with hs | hs
  · rw [hs]; cases k <;> rfl
  · rw [hs]

theorem Kind.finished_fetching (k : Kind) : k.finished.fetching = k.wait.fetching := by cases k <;> rfl

theorem pass_phased {a : Answer} {ev : WaitStatus} {c c' : Conn} (hc : Phased c)
    (h : Pass a ev c (.goOn c')) : Phased c' := by
  cases h with
  | @finish k l hi hr hz =>
    intro hp
    have hp : c.inProcess.isSome = true := by cases k <;> exact hp
    have := hc hp
    rw [hi.inSession] at this
    simpa [Kind.finished_inSession] using this
  | fail | switched | emptyQuery | noResult | rowEnd => exact phased_of_none rfl
  | refused hs => exact phased_of_none (hc.none (by rw [hs]; rfl))
  | connected hs => exact phased_of_none (hc.none (by rw [hs]; rfl))
  | closing hs => exact phased_of_none (hc.none (by rw [hs]; rfl))
  | take => exact phased_of_inSession (by rw [taken_currentState]; split <;> rfl)
  | selected | gotResult | row => exact phased_of_inSession rfl

/-- The connection holds a session. -/
def Unfinished (c : Conn) : Prop := c.inProcess ≠ none ∨ c.queryList ≠ []

instance (c : Conn) : Decidable (Unfinished c) := by unfold Unfinished; infer_instance

/-! ## Where `HandleState` returns -/

/-- The states between handlers: waiting, idle, closed, not connected yet. -/
def State.isRest : State → Bool
  | .connectInit | .connectStart | .connectionIdle | .connectDone | .closeDone => true
  | s => s.isWait

/-- The states a connection rests in once it has been closed. -/
def State.isClosed : State → Bool
  | .connectDone | .closeDone => true
  | _ => false

theorem Kind.wait_isRest (k : Kind) : k.wait.isRest = true := by cases k <;> rfl

theorem pass_isRest {a : Answer} {ev : WaitStatus} {c c' : Conn} (h : Pass a ev c (.rest c')) :
    c'.currentState.isRest = true := by
  cases h with
  | @wait k => exact k.wait_isRest
  | closed => rfl
  | idle hs => rw [hs]; rfl

theorem handleState_isRest {as : List Answer} {ev : WaitStatus} {c c' : Conn} (h : handleState as ev c = .ok c') :
    c'.currentState.isRest = true :=
  handleState_induct (P := fun _ => True) (fun _ _ _ _ _ _ => trivial) (fun _ _ _ _ _ hp => pass_isRest hp) trivial h

/-- Only the first pass can find the machine in a `*_WAIT` state. -/
theorem pass_goOn_isWait {a : Answer} {ev : WaitStatus} {c c' : Conn} (h : Pass a ev c (.goOn c')) :
    c'.currentState.isWait = false := by
  cases h with
  | @finish k => exact k.isWait_finished
  | fail | noResult => simp only [failed_currentState]; split <;> rfl
  | take => simp only [taken_currentState]; split <;> rfl
  | _ => rfl

/-- Something will wake the connection up. -/
def WakeArmed (c : Conn) : Prop :=
  (∃ e, c.fdEvent = some e ∧ (e.reading = true ∨ e.writing = true)) ∨ c.timeout.attached = true

/-- What `HandleState` leaves behind. -/
inductive Rested (as : List Answer) (c : Conn) : Prop
  | waiting {k : Kind} {a : Answer} : a ∈ as → c.currentState = k.wait → a.status.isZero = false →
    (∃ fd, c.fdEvent = some ⟨fd, a.status.read, a.status.write⟩) →
    (a.status.timeout = true → c.timeout.attached = true) → Rested as c
  | idle : c.currentState = .connectionIdle → c.inProcess = none → c.queryList = [] →
    c.scheduleClose = false → Rested as c
  | closed : c.currentState = .connectDone → c.inProcess = none → c.queryList = [] → c.fdEvent = none →
    c.ready = false → Rested as c

theorem pass_rested {a : Answer} {as : List Answer} (ha : a ∈ as) {ev : WaitStatus} {c c' : Conn} (hc : Phased c)
    (h : Pass a ev c (.rest c')) : Rested as c' ∧ Phased c' := by
  cases h with
  | @wait k l hi hr hz =>
    refine ⟨.waiting (k := k) ha rfl hz ⟨_, rfl⟩ fun ht => by simp [ht], fun hp => ?_⟩
    have := hc hp
    rwa [hi.inSession] at this
  | closed hs => exact ⟨.closed rfl rfl rfl rfl rfl, phased_of_none rfl⟩
  | idle hs hq hsc =>
    have hp := hc.none (by rw [hs]; rfl)
    exact ⟨.idle hs hp hq hsc, phased_of_none hp⟩

theorem handleState_rested {as : List Answer} {ev : WaitStatus} {c c' : Conn} (hc : Phased c)
    (h : handleState as ev c = .ok c') : Rested as c' ∧ Phased c' :=
  handleState_induct (fun _ _ _ _ => pass_phased) (fun _ ha _ _ hc => pass_rested ha hc) hc h

/-- With wait statuses that name something to wait for, a `*_WAIT` state is armed. -/
theorem Rested.armed {as : List Answer} {c : Conn} (hsound : ∀ a ∈ as, a.status.Sound) (h : Rested as c)
    (hw : c.currentState.isWait = true) : WakeArmed c := by
  cases h with
  | waiting ha hs hz hf ht =>
    obtain ⟨fd, hf⟩ := hf
    rcases hsound _ ha hz with h | h | h
    · exact .inl ⟨_, hf, .inl h⟩
    · exact .inl ⟨_, hf, .inr h⟩
    · exact .inr (ht h)
  | idle hs => simp [hs, State.isWait] at hw
  | closed hs => simp [hs, State.isWait] at hw

/-! ## Steps -/

/-- Between handlers the machine is in a rest state. -/
theorem step_isRest {c c' : Conn} {op : Op} (hc : c.currentState.isRest = true) (h : lts.step c op c') :
    c'.currentState.isRest = true := by
  cases lts_stepped h with
  | init | connect | syncConnected | syncClosed => rfl
  | syncRefused | pendingQuery | clientClose | pushed | close | checked => exact hc
  | kicked _ _ _ hh | handled _ hh | closeKicked _ _ hh | woken _ _ hh => exact handleState_isRest hh

/-- No connect is made over a session in process. -/
def Op.Free (c : Conn) : Op → Prop
  | .initConnection _ | .connect => c.inProcess = none
  | .syncConnect a => a.ret = true → c.inProcess = none
  | _ => True

instance (c : Conn) : (op : Op) → Decidable (op.Free c)
  | .initConnection _ | .connect => inferInstanceAs (Decidable (c.inProcess = none))
  | .syncConnect a => inferInstanceAs (Decidable (a.ret = true → c.inProcess = none))
  | .pendingQuery _ | .clientClose | .runTask _ _ | .startQuery _ _ | .close _ | .syncClose | .fdWake _ _
  | .timerWake _ | .connectionCheck _ => isTrue trivial

theorem step_phased {c c' : Conn} {op : Op} (hc : Phased c) (hop : op.Free c) (h : lts.step c op c') :
    Phased c' := by
  cases lts_stepped h with
  | init | connect => exact phased_of_none hop
  | syncConnected ha => exact phased_of_none (hop ha)
  | syncRefused | pendingQuery | clientClose | pushed | close | checked => exact hc
  | kicked ht hs hp hh => exact (handleState_rested (c := pushQuery _ (op.target c)) (phased_of_none hp) hh).2
  | handled ht hh => exact (handleState_rested (c := op.target c) hc hh).2
  | syncClosed => exact phased_of_none rfl
  | closeKicked hp hs hh =>
    exact (handleState_rested (c := { c with scheduleClose := true }) (phased_of_none hp) hh).2
  | woken ht hf hh => exact (handleState_rested (c := disarmed _ c) hc hh).2

/-- Running another task leaves a posted `HandleState` posted. -/
theorem handleState_mem_remaining {c : Conn} {op : Op} {t : Task} (ht : op.task c = some t) (hne : t ≠ .handleState)
    (h : .handleState ∈ c.tasks) : .handleState ∈ op.remaining c := by
  cases op with
  | runTask i as =>
    have ht : c.tasks[i]? = some t := ht
    obtain ⟨j, hj⟩ := List.mem_iff_getElem?.1 h
    refine List.mem_eraseIdx_iff_getElem?.2 ⟨j, ?_, hj⟩
    rintro rfl
    rw [ht, Option.some.injEq] at hj
    exact hne hj
  | _ => exact h

/-! ## What a pass writes into the history -/

/-- Events only the operations, never a pass of `HandleState`, write. -/
def Ev.fromOp : Ev → Bool
  | .call (.init _) _ | .call (.options _) _ | .call (.realConnect _) _ | .call .close _ | .call .ping _ => true
  | .accept _ | .connect => true
  | _ => false

/-- `c'` has written the events `es`, none of them an operation's, into the history. -/
def Appends (c c' : Conn) : Prop := ∃ es, c'.log = es ++ c.log ∧ ∀ e ∈ es, e.fromOp = false

theorem Appends.refl (c : Conn) : Appends c c := ⟨[], rfl, by simp⟩

theorem Appends.trans {c d e : Conn} (h : Appends c d) (h' : Appends d e) : Appends c e := by
  obtain ⟨es, h1, h2⟩ := h
  obtain ⟨fs, h3, h4⟩ := h'
  refine ⟨fs ++ es, by rw [h3, h1, List.append_assoc], ?_⟩
  intro x hx
  rcases List.mem_append.1 hx with hx | hx
  · exact h4 x hx
  · exact h2 x hx

theorem Issues.fromOp {c : Conn} {ev : WaitStatus} {k : Kind} {l : LibCall} (h : Issues c ev k l) (a : Answer) :
    (Ev.call l a).fromOp = false := by cases h <;> rfl

theorem armLog_fromOp (a : Answer) (st : WaitStatus) (c : Conn) : ∀ e ∈ armLog a st c, e.fromOp = false :=
  armLog_forall (P := fun e => e.fromOp = false) rfl rfl st c

theorem pass_appends {a : Answer} {ev : WaitStatus} {c c' : Conn}
    (h : Pass a ev c (.goOn c') ∨ Pass a ev c (.rest c')) : Appends c c' := by
  rcases h with h | h
  · cases h with
    | @finish k l hi hr hz =>
      exact ⟨[.call l a], by cases k <;> rfl, by simpa using hi.fromOp a⟩
    | @fail k l q hi hr hp =>
      refine ⟨[.done (doneSession a a.err (some a.error) q), .call .affectedRows a, .call .error a, .call l a],
        rfl, ?_⟩
      simpa [Ev.fromOp] using hi.fromOp a
    | refused => exact ⟨[.ready false], rfl, by simp [Ev.fromOp]⟩
    | connected hs hr =>
      refine ⟨(if c.client then [.onConnectReady] else []) ++ [.ready true], by simp, ?_⟩
      cases hcl : c.client <;> simp [Ev.fromOp]
    | closing => exact ⟨[.closing], rfl, by simp [Ev.fromOp]⟩
    | take | selected => exact ⟨[], rfl, by simp⟩
    | @switched q hs hp hq =>
      exact ⟨[.done (doneSession a 0 (some "db change success") q), .call .affectedRows a], rfl, by simp [Ev.fromOp]⟩
    | @emptyQuery q hs hp hq =>
      exact ⟨[.done (doneSession a (-9999) (some "empty query") q), .call .affectedRows a], rfl, by simp [Ev.fromOp]⟩
    | @noResult q hs hp hres =>
      exact ⟨[.done (doneSession a a.errno (some a.error) q), .call .affectedRows a, .call .error a,
        .call .errno a, .call .useResult a], rfl, by simp [Ev.fromOp]⟩
    | gotResult => exact ⟨[.call .useResult a], rfl, by simp [Ev.fromOp]⟩
    | @rowEnd q r hs hp hr hrow =>
      refine ⟨.done (fetchEndSession a q) :: fetchEndLog a r, rfl, ?_⟩
      unfold fetchEndLog
      by_cases he : a.errno = 0 <;> simp [he, Ev.fromOp]
    | @row q r row hs hp hr hrow =>
      refine ⟨fetchRowLog a q r, rfl, ?_⟩
      unfold fetchRowLog
      cases q.columNames.isEmpty <;> simp [Ev.fromOp]
  · cases h with
    | @wait k l hi hr hz =>
      refine ⟨armLog a a.status ((c.call l a).toState k.wait) ++ [.call l a], by simp, ?_⟩
      intro e he
      rcases List.mem_append.1 he with he | he
      · exact armLog_fromOp _ _ _ e he
      · rw [List.mem_singleton.1 he]; exact hi.fromOp a
    | closed =>
      refine ⟨(if c.client then [.onConnectionClosed] else []) ++
        (((unfinished (c.setReady false)).map fun q => Ev.done (q.setCode (-1) "closed")).reverse ++ [.ready false]),
        by simp, ?_⟩
      cases hcl : c.client <;> simp +contextual [Ev.fromOp, or_imp]
    | idle => exact .refl _

theorem handleState_appends {as : List Answer} {ev : WaitStatus} {c c' : Conn} (h : handleState as ev c = .ok c') :
    Appends c c' :=
  handleState_induct (P := Appends c) (Q := Appends c) (fun _ _ _ _ hc hp => hc.trans (pass_appends (.inl hp)))
    (fun _ _ _ _ hc hp => hc.trans (pass_appends (.inr hp))) (.refl c) h

/-! ## Histories without certain answers

`err_no_` is never assigned, so that what an answer means to the code may depend on it.
-/

theorem pass_errNo {a : Answer} {ev : WaitStatus} {c c' : Conn} (h : Pass a ev c (.goOn c') ∨ Pass a ev c (.rest c')) :
    c'.errNo = c.errNo := by
  rcases h with h | h
  · cases h with
    | @finish k => cases k <;> rfl
    | _ => rfl
  · cases h <;> rfl

theorem handleState_errNo {as : List Answer} {ev : WaitStatus} {c c' : Conn} (h : handleState as ev c = .ok c') :
    c'.errNo = c.errNo :=
  handleState_induct (P := fun d => d.errNo = c.errNo) (Q := fun d => d.errNo = c.errNo)
    (fun _ _ _ _ he hp => (pass_errNo (.inl hp)).trans he) (fun _ _ _ _ he hp => (pass_errNo (.inr hp)).trans he) rfl h

theorem step_errNo {c c' : Conn} {op : Op} (h : lts.step c op c') : c'.errNo = c.errNo := by
  cases lts_stepped h with
  | kicked _ _ _ hh | handled _ hh | closeKicked _ _ hh | woken _ _ hh => exact (handleState_errNo hh :)
  | _ => rfl

/-- Every step adds to the history. -/
theorem step_appends {c c' : Conn} {op : Op} (h : lts.step c op c') : ∃ es, c'.log = es ++ c.log := by
  have hrun : ∀ {d : Conn} {as : List Answer} {ev : WaitStatus}, handleState as ev d = .ok c' →
      (∃ es, d.log = es ++ c.log) → ∃ es, c'.log = es ++ c.log := by
    rintro d as ev hh ⟨es, hd⟩
    obtain ⟨fs, hfs, -⟩ := handleState_appends hh
    exact ⟨fs ++ es, by rw [hfs, hd, List.append_assoc]⟩
  cases lts_stepped h with
  | init opt => exact ⟨[_, _], rfl⟩
  | connect | syncRefused | pushed => exact ⟨[_], rfl⟩
  | syncConnected | checked => exact ⟨[_, _], rfl⟩
  | pendingQuery | clientClose | close => exact ⟨[], rfl⟩
  | kicked _ _ _ hh => exact hrun hh ⟨[_], rfl⟩
  | handled _ hh | closeKicked _ _ hh | woken _ _ hh => exact hrun hh ⟨[], rfl⟩
  | syncClosed => exact ⟨_, by rw [syncClosed_log, cleaned_log, ← List.cons_append, ← List.cons_append]; rfl⟩

section
variable {H : Conn → Prop} {bad : Int → Ev → Prop} {c c' : Conn}

/-- What holds of a history has held of those it has grown from. -/
def Historic (H : Conn → Prop) : Prop := ∀ c c' es, c'.log = es ++ c.log → c'.errNo = c.errNo → H c' → H c

/-- What each pass that leads to a history with `H` keeps, a `HandleState` that has led to one has kept. -/
theorem Historic.handleState {P Q : Conn → Prop} {as : List Answer} {ev : WaitStatus} (hH : Historic H)
    (hgo : ∀ b d d', P d → H d' → Pass b ev d (.goOn d') → P d')
    (hrest : ∀ b d d', P d → H d' → Pass b ev d (.rest d') → Q d')
    (hw : H c') (hc : P c) (h : handleState as ev c = .ok c') : Q c' := by
  have hback : ∀ {b d d'}, H d' → Pass b ev d (.goOn d') ∨ Pass b ev d (.rest d') → H d := by
    intro b d d' hd hp
    obtain ⟨es, hes, -⟩ := pass_appends hp
    exact hH d d' es hes (pass_errNo hp) hd
  refine handleState_induct (P := fun d => H d → P d) (Q := fun d => H d → Q d)
    (fun b _ d d' hd hp hw' => ?_) (fun b _ d d' hd hp hw' => ?_) (fun _ => hc) h hw
  · exact hgo b d d' (hd (hback hw' (.inl hp))) hw' hp
  · exact hrest b d d' (hd (hback hw' (.inr hp))) hw' hp

/-- The same of the steps of a run. -/
theorem Historic.run {P : Conn → Prop} {g : Conn → Op → Prop} {ops : List Op} (hH : Historic H)
    (hstep : ∀ d op d', P d → g d op → lts.step d op d' → H d' → P d')
    (hw : H c') (hc : P c) (h : (lts.restrict g).Run c ops c') : P c' := by
  have hinv : ∀ d op d', (H d → P d) → g d op → lts.step d op d' → H d' → P d' := by
    intro d op d' hd hop hs hw'
    obtain ⟨es, hes⟩ := step_appends hs
    exact hstep d op d' (hd (hH d d' es hes (step_errNo hs) hw')) hop hs hw'
  exact h.invariant_restrict (P := fun d => H d → P d) hinv (fun _ => hc) hw

/-- The history has no bad answer. -/
def Without (bad : Int → Ev → Prop) (c : Conn) : Prop := ∀ e ∈ c.log, ¬ bad c.errNo e

theorem without_historic : Historic (Without bad) := fun _ _ _ hl he h e hm => he ▸ h e (by simp [hl, hm])

end

end LtApp.Mysql
