import Mathlib.Data.List.Perm.Basic
import LtApp.Mysql.Closed

/-!
# Armed exactly while waiting

`WaitMysqlStatus` arms the events and never takes an older timer out; the wake-up handlers and `clean_up` disarm
them. So what is armed fits the operation that waits only if every handler is entered with nothing armed
(`handleState_tended`). In a connection lifetime it is: `Connect` posts one `HandleState`, which the loop runs before
anything waits or after a close (`Tended.place`), and `StartQuery` goes on with the machine only where it is idle.
-/

namespace LtApp.Mysql

/-! ## Lifetimes -/

def Op.opens : Op → Bool
  | .connect | .syncConnect _ => true
  | _ => false

theorem opens_cases {c c' : Conn} {op : Op} (hop : op.opens = true) (h : lts.step c op c') :
    c' = connect c ∨ (∃ a, c' = syncRefused a c) ∨ ∃ a, c' = syncConnected a c := by
  obtain ⟨-, h⟩ := h
  cases op with
  | connect => exact .inl (Except.ok.inj h).symm
  | syncConnect a =>
    have h : syncConnect a c = c' := Except.ok.inj h
    rw [syncConnect_eq] at h
    split at h
    · exact .inr (.inr ⟨a, h.symm⟩)
    · exact .inr (.inl ⟨a, h.symm⟩)
  | _ => simp [Op.opens] at hop

/-- A connection lifetime: `InitConnection`, one `Connect` or `SyncConnect`, and then everything but these. -/
inductive Lifetime : Conn → Prop
  | init (client : Bool) (errNo : Int) (st : State) (opt : MysqlOptions) : Lifetime (opened client errNo st opt)
  | run {client : Bool} {errNo : Int} {st : State} {opt : MysqlOptions} {op : Op} {ops : List Op} {c d : Conn} :
    op.opens = true → lts.step (opened client errNo st opt) op c → later.Run c ops d → Lifetime d

theorem Lifetime.invariant {P : Conn → Prop} (hinit : ∀ client errNo st opt, P (opened client errNo st opt))
    (hopen : ∀ client errNo st opt op c, op.opens = true → lts.step (opened client errNo st opt) op c → P c)
    (hstep : ∀ c op c', P c → op.connects = false → lts.step c op c' → P c') {c : Conn} (h : Lifetime c) : P c := by
  cases h with
  | init => exact hinit _ _ _ _
  | run hop hs hr => exact hr.invariant_restrict hstep (hopen _ _ _ _ _ _ hop hs)

/-! ## What is armed, and for whom -/

/-- The operation a `*_start` or `*_cont` call is made for. -/
def LibCall.kind : LibCall → Option Kind
  | .realConnectStart _ | .realConnectCont _ => some .connect
  | .selectDbStart _ | .selectDbCont _ => some .selectDb
  | .realQueryStart _ | .realQueryCont _ => some .query
  | .fetchRowStart _ | .fetchRowCont _ _ => some .fetchRow
  | .closeStart | .closeCont _ => some .close
  | _ => none

/-- The operation a `*_cont` call goes on with. -/
def LibCall.continues : LibCall → Option Kind
  | .realConnectCont _ => some .connect
  | .selectDbCont _ => some .selectDb
  | .realQueryCont _ => some .query
  | .fetchRowCont _ _ => some .fetchRow
  | .closeCont _ => some .close
  | _ => none

/-- The wait status a `*_start` or `*_cont` call has returned. -/
def Ev.status : Ev → Option (Kind × WaitStatus)
  | .call l a => l.kind.map fun k => (k, a.status)
  | _ => none

/-- The operation called last, and the wait status it returned last. -/
def lastStatus (log : List Ev) : Option (Kind × WaitStatus) := log.findSome? Ev.status

/-- What the pump watches for this connection: what the fd event is enabled for, and the timer. -/
def Conn.watched (c : Conn) : WaitStatus :=
  { read := c.fdEvent.any (·.reading), write := c.fdEvent.any (·.writing), timeout := c.timeout.attached }

/-- A `*_WAIT` state watches for what its operation has asked for, and every other state for nothing. There is
nothing to watch for exceptions with. -/
structure ArmedExactly (c : Conn) : Prop where
  waiting : ∀ k, c.currentState = Kind.wait k →
    ∃ st, lastStatus c.log = some (k, st) ∧ c.watched = { st with except := false }
  quiet : c.currentState.isWait = false → c.watched = {}

/-- The wake-up is one of those the status names. -/
def WaitStatus.Names (st : WaitStatus) : Op → Prop
  | .timerWake _ => st.timeout = true
  | .fdWake ev _ => (st.read = true ∧ ev.read = true) ∨ (st.write = true ∧ ev.write = true)
  | _ => False

/-- The step goes on with the operation that asked for the wake-up: that operation waits, and it is called before
anything else. -/
def ReachesAsker (c : Conn) (op : Op) (c' : Conn) : Prop :=
  ∃ k st, c.currentState = Kind.wait k ∧ lastStatus c.log = some (k, st) ∧ st.Names op ∧
    ∃ l a es, l.continues = some k ∧ c'.log = es ++ .call l a :: c.log

theorem State.exists_wait {s : State} (h : s.isWait = true) : ∃ k, s = Kind.wait k := by
  cases s
  case connectWait => exact ⟨.connect, rfl⟩
  case selectDbWait => exact ⟨.selectDb, rfl⟩
  case queryWait => exact ⟨.query, rfl⟩
  case fetchRowWait => exact ⟨.fetchRow, rfl⟩
  case closeWait => exact ⟨.close, rfl⟩
  all_goals simp [State.isWait] at h

theorem Kind.wait_inj {k k' : Kind} (h : k.wait = k'.wait) : k = k' := by
  cases k <;> cases k' <;> first | rfl | cases h

theorem Kind.wait_ne (k : Kind) {s : State} (h : s.isWait = false) : s ≠ k.wait := by
  rintro rfl
  simp at h

theorem lastStatus_skip {es log : List Ev} (h : ∀ e ∈ es, e.status = none) : lastStatus (es ++ log) = lastStatus log := by
  unfold lastStatus
  rw [List.findSome?_append, List.findSome?_eq_none_iff.2 h, Option.none_or]

theorem Issues.kind {c : Conn} {ev : WaitStatus} {k : Kind} {l : LibCall} (h : Issues c ev k l) : l.kind = some k := by
  cases h <;> rfl

theorem Issues.continues {c : Conn} {ev : WaitStatus} {k k' : Kind} {l : LibCall} (h : Issues c ev k l)
    (hs : c.currentState = k'.wait) : l.continues = some k' := by
  have hk : c.currentState = k.wait := by
    rcases h.state with h | h
    · exact absurd (h.symm.trans hs) (k'.wait_ne k.isWait_start)
    · exact h
  obtain rfl := Kind.wait_inj (hk.symm.trans hs)
  cases h with
  | connectCont | selectDbCont | queryCont | fetchRowCont | closeCont => rfl
  | connectStart h | fetchRowStart h | closeStart h => exact absurd (h.symm.trans hs) (by simp [Kind.wait])
  | selectDbStart h _ => exact absurd (h.symm.trans hs) (by simp [Kind.wait])
  | queryStart h _ _ => exact absurd (h.symm.trans hs) (by simp [Kind.wait])

theorem armLog_status {a : Answer} {st : WaitStatus} {c : Conn} : ∀ e ∈ armLog a st c, e.status = none :=
  armLog_forall (P := fun e => e.status = none) rfl rfl st c

/-! ## Passes -/

theorem pass_tasks {a : Answer} {ev : WaitStatus} {c c' : Conn} (h : Pass a ev c (.goOn c') ∨ Pass a ev c (.rest c')) :
    c'.tasks = c.tasks := by
  rcases h with h | h
  · cases h with
    | @finish k => cases k <;> rfl
    | _ => rfl
  · cases h <;> rfl

/-- The loop goes round without arming or disarming anything. -/
theorem pass_watched {a : Answer} {ev : WaitStatus} {c c' : Conn} (h : Pass a ev c (.goOn c')) :
    c'.watched = c.watched := by
  cases h with
  | @finish k => cases k <;> rfl
  | _ => rfl

theorem watched_armed {a : Answer} {st : WaitStatus} {c : Conn} (h : c.timeout.attached = false) :
    (armed a st c).watched = { st with except := false } := by
  cases ht : st.timeout <;> simp [Conn.watched, ht, h]

/-- What a handler that was entered with nothing armed leaves behind. -/
structure Handled (c : Conn) : Prop where
  exactly : ArmedExactly c
  event : c.currentState.isWait = true → c.fdEvent.isSome = true
  closed : c.currentState.isWait = false → c.currentState = .connectionIdle ∨ c.fdEvent = none

theorem Handled.of_quiet {c : Conn} (hs : c.currentState.isWait = false) (hw : c.watched = {})
    (hc : c.currentState = .connectionIdle ∨ c.fdEvent = none) : Handled c := by
  constructor
  case exactly => exact ⟨fun k hk => absurd hk (k.wait_ne hs), fun _ => hw⟩
  case event =>
    intro hw
    rw [hs] at hw
    cases hw
  case closed => exact fun _ => hc

theorem pass_handled {a : Answer} {ev : WaitStatus} {c c' : Conn} (hc : c.watched = {}) (h : Pass a ev c (.rest c')) :
    Handled c' := by
  have ht : c.timeout.attached = false := congrArg WaitStatus.timeout hc
  cases h with
  | @wait k l hi hr hz =>
    refine ⟨⟨?_, ?_⟩, ?_, ?_⟩
    · intro k' hk'
      obtain rfl := Kind.wait_inj (hk' : k.wait = k'.wait)
      refine ⟨a.status, ?_, watched_armed ht⟩
      rw [armed_log, lastStatus_skip armLog_status]
      simp [lastStatus, Ev.status, hi.kind]
    · intro hw
      simp at hw
    · intro _
      rfl
    · intro hw
      simp at hw
  | closed hs =>
    have hw : (closed c).watched = {} := by
      cases hf : c.fdEvent <;> simp [Conn.watched, hf, ht]
    exact .of_quiet rfl hw (.inr rfl)
  | idle hs hq hsc => exact .of_quiet (by rw [hs]; rfl) hc (.inl hs)

theorem handleState_handled {as : List Answer} {ev : WaitStatus} {c c' : Conn} (hc : c.watched = {})
    (h : handleState as ev c = .ok c') : Handled c' ∧ c'.tasks = c.tasks := by
  refine handleState_induct (P := fun d => d.watched = {} ∧ d.tasks = c.tasks)
    (Q := fun d => Handled d ∧ d.tasks = c.tasks) ?_ ?_ ⟨hc, rfl⟩ h
  · rintro a - d d' ⟨hd, ht⟩ hp
    exact ⟨(pass_watched hp).trans hd, (pass_tasks (.inl hp)).trans ht⟩
  · rintro a - d d' ⟨hd, ht⟩ hp
    exact ⟨pass_handled hd hp, (pass_tasks (.inr hp)).trans ht⟩

/-- A handler that finds an operation waiting calls it before anything else. -/
theorem handleState_continues {as : List Answer} {ev : WaitStatus} {k : Kind} {c c' : Conn} (hs : c.currentState = k.wait)
    (h : handleState as ev c = .ok c') : ∃ l a es, l.continues = some k ∧ c'.log = es ++ .call l a :: c.log := by
  cases as with
  | nil => simp [handleState] at h
  | cons a as =>
    have hother : ∀ s, s.isWait = false → c.currentState ≠ s := fun s hw h' => k.wait_ne hw (h'.symm.trans hs)
    rcases handleState_goOn_or_rest h with ⟨d, hp, hd⟩ | hp
    · obtain ⟨es, hes, -⟩ := handleState_appends hd
      cases hp with
      | @finish k' l hi hr hz =>
        refine ⟨l, a, es, hi.continues hs, ?_⟩
        rw [hes]
        cases k' <;> rfl
      | @fail k' l q hi hr hq =>
        refine ⟨l, a, es ++ [.done (doneSession a a.err (some a.error) q), .call .affectedRows a, .call .error a],
          hi.continues hs, ?_⟩
        rw [hes]
        simp
      | refused h' | connected h' | closing h' | take h' | switched h' | selected h' | emptyQuery h' | noResult h'
      | gotResult h' | rowEnd h' | row h' => exact absurd h' (hother _ rfl)
    · cases hp with
      | @wait k' l hi hr hz =>
        exact ⟨l, a, armLog a a.status ((c.call l a).toState k'.wait), hi.continues hs, rfl⟩
      | closed h' | idle h' => exact absurd h' (hother _ rfl)

/-! ## Steps -/

theorem Op.count_remaining (c : Conn) (op : Op) (t : Task) : (op.remaining c).count t ≤ c.tasks.count t := by
  cases op with
  | runTask i as => exact (List.eraseIdx_sublist _ _).count_le t
  | _ => exact Nat.le_refl _

/-- The posted `HandleState` was the only one. -/
theorem Op.not_mem_remaining {c : Conn} {op : Op} (h : c.tasks.count .handleState ≤ 1)
    (ht : op.task c = some .handleState) : Task.handleState ∉ op.remaining c := by
  cases op with
  | runTask i as =>
    have ht : c.tasks[i]? = some .handleState := ht
    obtain ⟨hi, hget⟩ := List.getElem?_eq_some_iff.1 ht
    have hperm := (List.getElem_cons_eraseIdx_perm hi).count_eq .handleState
    rw [hget, List.count_cons_self] at hperm
    exact List.count_eq_zero.1 (by simp only [Op.remaining]; omega)
  | _ => simp [Op.task] at ht

/-- A connection of a lifetime between handlers. -/
structure Tended (c : Conn) : Prop where
  rest : c.currentState.isRest = true
  handled : Handled c
  /-- `Connect` has posted one `HandleState` at most. -/
  posted : c.tasks.count .handleState ≤ 1
  /-- It is still to be run only where nothing waits. -/
  place : .handleState ∈ c.tasks → c.currentState = .connectStart ∨ c.currentState = .closeDone

namespace Tended

variable {c c' : Conn} {op : Op}

theorem watched (h : Tended c) (hs : c.currentState.isWait = false) : c.watched = {} := h.handled.exactly.quiet hs

theorem fdEvent_none (h : Tended c) (hs : c.currentState.isWait = false) (hi : c.currentState ≠ .connectionIdle) :
    c.fdEvent = none := (h.handled.closed hs).resolve_left hi

/-- A step that leaves the machine and its events alone, and posts no `HandleState`. -/
theorem of_eq (h : Tended c) (hs : c'.currentState = c.currentState) (hf : c'.fdEvent = c.fdEvent)
    (ht : c'.timeout = c.timeout) (hl : lastStatus c'.log = lastStatus c.log)
    (hp : c'.tasks.count .handleState ≤ c.tasks.count .handleState) : Tended c' := by
  have hw : c'.watched = c.watched := by simp [Conn.watched, hf, ht]
  refine ⟨hs ▸ h.rest, ⟨⟨?_, ?_⟩, ?_, ?_⟩, Nat.le_trans hp h.posted, ?_⟩
  · rw [hs, hw, hl]; exact h.handled.exactly.waiting
  · rw [hs, hw]; exact h.handled.exactly.quiet
  · rw [hs, hf]; exact h.handled.event
  · rw [hs, hf]; exact h.handled.closed
  · intro hmem
    have hpos : 0 < c'.tasks.count .handleState := List.count_pos_iff.2 hmem
    rw [hs]
    exact h.place (List.count_pos_iff.1 (by omega))

/-- The handlers. -/
theorem of_handleState {d : Conn} {as : List Answer} {ev : WaitStatus} (hw : d.watched = {})
    (ht : .handleState ∉ d.tasks) (hh : handleState as ev d = .ok c') : Tended c' := by
  obtain ⟨hl, htasks⟩ := handleState_handled hw hh
  rw [← htasks] at ht
  refine ⟨handleState_isRest hh, hl, ?_, fun hmem => absurd hmem ht⟩
  rw [List.count_eq_zero.2 ht]
  omega

theorem cleaned_watched (h : Tended c) : (cleaned c).watched = {} := by
  cases hf : c.fdEvent with
  | some e => simp [Conn.watched, hf]
  | none =>
    have hs : c.currentState.isWait = false := by
      cases hs : c.currentState.isWait
      · rfl
      · have := h.handled.event hs
        simp [hf] at this
    have ht : c.timeout.attached = false := congrArg WaitStatus.timeout (h.watched hs)
    simp [Conn.watched, hf, ht]

theorem step (h : Tended c) (hop : op.connects = false) (hst : lts.step c op c') : Tended c' := by
  cases lts_stepped hst with
  | init | connect | syncRefused | syncConnected => simp [Op.connects] at hop
  | pendingQuery | clientClose => exact h.of_eq rfl rfl rfl rfl (by simp)
  | pushed => exact h.of_eq rfl rfl rfl rfl (op.count_remaining c .handleState)
  | close | checked => exact h.of_eq rfl rfl rfl rfl (Nat.le_refl _)
  | @kicked op q c' ht hs hp hh =>
    refine of_handleState (d := pushQuery q (op.target c)) (h.watched (by rw [hs]; rfl)) ?_ hh
    intro hmem
    have hpos : 0 < (op.remaining c).count .handleState := List.count_pos_iff.2 hmem
    have := op.count_remaining c .handleState
    rcases h.place (List.count_pos_iff.1 (by omega)) with hs' | hs' <;> rw [hs] at hs' <;> cases hs'
  | handled ht hh =>
    have hmem : Task.handleState ∈ c.tasks := by
      cases op with
      | runTask i as => exact List.mem_of_getElem? ht
      | _ => simp [Op.task] at ht
    refine of_handleState (d := op.target c) (h.watched ?_) (Op.not_mem_remaining h.posted ht) hh
    rcases h.place hmem with hs | hs <;> rw [hs] <;> rfl
  | syncClosed ht =>
    have hw : (syncClosed (op.target c)).watched = {} := h.cleaned_watched
    refine ⟨rfl, .of_quiet rfl hw (.inr rfl), ?_, fun _ => .inr rfl⟩
    exact Nat.le_trans (op.count_remaining c .handleState) h.posted
  | closeKicked hp hs =>
    have := h.rest
    rw [hs] at this
    cases this
  | @woken op e ev c' hw hf hh =>
    refine of_handleState (d := disarmed e c) (by simp [Conn.watched]) ?_ hh
    intro hmem
    rcases h.place hmem with hs | hs <;> simp [h.fdEvent_none (by rw [hs]; rfl) (by rw [hs]; simp)] at hf

end Tended

theorem Lifetime.tended {c : Conn} (h : Lifetime c) : Tended c := by
  have hinit : ∀ client errNo st opt, Tended (opened client errNo st opt) := by
    intro client errNo st opt
    refine ⟨rfl, .of_quiet rfl rfl (.inr rfl), ?_, ?_⟩
    · simp [opened, Conn.new]
    · simp [opened, Conn.new]
  refine h.invariant hinit ?_ fun _ _ _ hc hop hst => hc.step hop hst
  intro client errNo st opt op c hop hst
  obtain rfl | ⟨a, rfl⟩ | ⟨a, rfl⟩ := opens_cases hop hst
  · refine ⟨rfl, .of_quiet rfl rfl (.inr rfl), ?_, fun _ => .inl rfl⟩
    simp [opened, Conn.new]
  · exact (hinit client errNo st opt).of_eq rfl rfl rfl rfl (Nat.le_refl _)
  · refine ⟨rfl, .of_quiet rfl rfl (.inl rfl), ?_, ?_⟩
    · simp [opened, Conn.new]
    · simp [opened, Conn.new]

/-! ## Between handlers -/

theorem ArmedExactly.reachesAsker {c c' : Conn} {op : Op} (h : ArmedExactly c) (hop : op.wakes = true)
    (hst : lts.step c op c') (hn : c.watched.Names op) : ReachesAsker c op c' := by
  have hw : c.currentState.isWait = true := by
    cases hw : c.currentState.isWait with
    | true => rfl
    | false =>
      rw [h.quiet hw] at hn
      cases op <;> simp [WaitStatus.Names] at hn
  obtain ⟨k, hk⟩ := State.exists_wait hw
  obtain ⟨st, hlast, hst'⟩ := h.waiting k hk
  have hnames : st.Names op := by
    rw [hst'] at hn
    cases op <;> exact hn
  refine ⟨k, st, hk, hlast, hnames, ?_⟩
  cases lts_stepped hst with
  | @woken op e ev c' _ hf hh => exact handleState_continues (c := disarmed e c) hk hh
  | kicked ht | handled ht | pushed ht | syncClosed ht => simp [Op.task_of_wakes hop] at ht
  | _ => simp [Op.wakes] at hop

/-- **Armed exactly while waiting.** At every moment of a lifetime between two handlers the pump watches, in a
`*_WAIT` state, for what the pending operation has asked for last, and in every other state for nothing. A wake-up
finds `fd_event_` set, and one that was asked for goes to the operation that asked. The lifetime is the first of its
object: no task is left over from an earlier one. -/
theorem armed_exactly_while_waiting (c : Conn) (h : Lifetime c) :
    ArmedExactly c ∧ ∀ op, op.wakes = true → enabled c op → c.fdEvent.isSome = true ∧
      ∀ c', step c op = .ok c' → c.watched.Names op → ReachesAsker c op c' := by
  have hc := h.tended
  refine ⟨hc.handled.exactly, fun op hop he => ⟨?_, fun c' hst hn => ?_⟩⟩
  · cases op with
    | fdWake ev as => exact he
    | timerWake as =>
      have ht : c.watched.timeout = true := he
      apply hc.handled.event
      cases hw : c.currentState.isWait with
      | true => rfl
      | false =>
        rw [hc.watched hw] at ht
        cases ht
    | _ => simp [Op.wakes] at hop
  · exact hc.handled.exactly.reachesAsker hop ⟨he, hst⟩ hn

/-- To be read within five seconds. -/
def slowly : Answer := { status := { read := true, timeout := true }, socket := 7, timeoutValue := 5 }

/-- `mysql_real_connect_start` has not finished. -/
def connecting : Conn :=
  armed slowly slowly.status
    (((dropTask 0 (connect (opened true 0 .stateNone {}))).call (.realConnectStart {}) slowly).toState .connectWait)

theorem armed_exactly_while_connecting :
    ArmedExactly connecting ∧ connecting.watched = { read := true, timeout := true } := by
  have hrun : later.Run (connect (opened true 0 .stateNone {})) [.runTask 0 [slowly]] connecting :=
    .single ⟨⟨by decide, rfl⟩, rfl⟩
  have hlife : Lifetime connecting := .run (rfl : Op.connect.opens = true) ⟨trivial, rfl⟩ hrun
  exact ⟨(armed_exactly_while_waiting connecting hlife).1, rfl⟩

end LtApp.Mysql
