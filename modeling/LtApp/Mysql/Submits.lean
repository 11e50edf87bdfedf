import LtApp.Mysql.Armed
import LtApp.Mysql.Reentrant

/-!
# Lifetimes whose callbacks submit sessions

A finish callback may submit further sessions. `OnQueryDone` is called with the session still in process, or by a
`clean_up` that leaves `CONNECTION_IDLE` behind, so that `StartQuery` finds the connection busy and only pushes
(`Returns.submits`): no `HandleState` runs inside another.

`Sited` is what every state of a running `HandleState` is sure of. With it no pass fails a `CHECK` (`Sited.checks`), and
every pass keeps it. `HandleState` is entered where it holds (`Enters.sited`): between two handlers of a lifetime the
connection is `Resting`.
-/

namespace LtApp.Mysql

/-! ## What each state is sure of -/

/-- A session is in process in the states of a query and nowhere else, and `result_` is set where it is read. -/
structure Provided (c : Conn) : Prop where
  inProcess : c.inProcess.isSome = c.currentState.inSession
  result    : c.currentState.fetching = true → c.result.isSome = true

/-- `HandleState` may stand here. -/
structure Sited (c : Conn) : Prop extends Provided c where
  opened : c.currentState ≠ .stateNone ∧ c.currentState ≠ .connectInit

theorem Provided.phased {c : Conn} (h : Provided c) : Phased c := fun hp => h.inProcess ▸ hp

theorem Provided.of_eq {c d : Conn} (h : Provided c) (hs : d.currentState = c.currentState)
    (hp : d.inProcess = c.inProcess) (hr : d.result = c.result) : Provided d := by
  constructor
  · rw [hp, hs]; exact h.inProcess
  · rw [hr, hs]; exact h.result

theorem Sited.of_eq {c d : Conn} (h : Sited c) (hs : d.currentState = c.currentState) (hp : d.inProcess = c.inProcess)
    (hr : d.result = c.result) : Sited d := ⟨h.toProvided.of_eq hs hp hr, hs ▸ h.opened⟩

theorem State.inSession_of_fetching {s : State} (h : s.fetching = true) : s.inSession = true := by
  cases s <;> first | rfl | cases h

/-- In a state with no session. -/
theorem Sited.of_none {c : Conn} (hp : c.inProcess = none) (hs : c.currentState.inSession = false)
    (ho : c.currentState ≠ .stateNone ∧ c.currentState ≠ .connectInit) : Sited c := by
  refine ⟨⟨by rw [hp, hs]; rfl, ?_⟩, ho⟩
  intro hf
  rw [State.inSession_of_fetching hf] at hs
  cases hs

/-- In a state of a query that does not read `result_`. -/
theorem Sited.of_session {c : Conn} (hp : c.inProcess.isSome = true) (hs : c.currentState.inSession = true)
    (hf : c.currentState.fetching = false) : Sited c := by
  refine ⟨⟨by rw [hp, hs], fun h => by rw [hf] at h; cases h⟩, ?_⟩
  constructor <;> (intro hc; rw [hc] at hs; cases hs)

section
variable {a : Answer} {ev : WaitStatus} {c d : Conn}

/-- **No `CHECK` fails**: each pass goes on or returns. -/
theorem Sited.checks (h : Sited c) (a : Answer) (ev : WaitStatus) : handleStatePass a ev c ≠ .checkFailed := by
  obtain ⟨⟨hp, hr⟩, ho⟩ := h
  unfold handleStatePass
  cases hs : c.currentState
  case stateNone => exact absurd hs ho.1
  case connectInit => exact absurd hs ho.2
  case connectStart | connectWait | closeStart | closeWait | fetchRowStart | fetchRowWait =>
    cases hz : a.status.isZero <;> simp [handleStateConnect, hs, goNextState, hz]
  case connectDone => cases hm : c.mysqlRet <;> simp [handleStateConnect, hs, hm]
  case closeDone => simp [handleStateConnect, hs]
  case connectionIdle =>
    have hn : c.inProcess = none := by simpa [hs, State.inSession] using hp
    cases hq : c.queryList <;> cases hsc : c.scheduleClose <;> simp [handleStateIDLE, hq, hsc, hn]
  all_goals
    obtain ⟨q, hq⟩ : ∃ q, c.inProcess = some q := Option.isSome_iff_exists.1 (by rw [hp, hs]; rfl)
    simp only [hq]
  case selectDbStart | selectDbWait =>
    by_cases he : a.err = 0 <;> cases hz : a.status.isZero <;>
      simp [handleStateSelectDB, hq, hs, he, goNextState, hz, failQuery]
  case selectDbDone => cases hc : q.query <;> simp [handleStateSelectDB, hq, hs, hc]
  case queryStart =>
    cases hc : q.query.isEmpty <;> by_cases he : a.err = 0 <;> cases hz : a.status.isZero <;>
      simp [he, goNextState, hz, failQuery]
  case queryWait =>
    by_cases he : c.errNo = 0 <;> cases hz : a.status.isZero <;> simp [he, goNextState, hz, failQuery]
  case queryResultReady => cases a.res <;> simp [failQuery]
  case fetchRowResultReady =>
    obtain ⟨r, hr⟩ : ∃ r, c.result = some r := Option.isSome_iff_exists.1 (hr (by rw [hs]; rfl))
    cases hrow : c.resultRow <;> simp [hr]

/-- Every pass keeps to the states and what they are sure of. -/
theorem Sited.pass (h : Sited c) (hp : Pass a ev c (.goOn d)) : Sited d := by
  have hnone : c.currentState.inSession = false → c.inProcess = none := h.phased.none
  cases hp with
  | @finish k l hi hr hz =>
    constructor
    · constructor
      · have hin := h.inProcess
        rw [hi.inSession, ← k.finished_inSession] at hin
        cases k <;> exact hin
      · intro hf
        have hc : c.currentState.fetching = true := by
          rw [hi.fetching, ← k.finished_fetching]
          cases k <;> exact hf
        cases k <;> exact h.result hc
    · cases k <;> simp [Kind.finished]
  | fail | noResult =>
    apply Sited.of_none rfl
    all_goals
      rw [failed_currentState]
      split <;> simp [State.inSession]
  | refused hs => exact .of_none (hnone (by rw [hs]; rfl)) rfl (by simp)
  | connected hs => exact .of_none (hnone (by rw [hs]; rfl)) rfl (by simp)
  | closing hs => exact .of_none (hnone (by rw [hs]; rfl)) rfl (by simp)
  | take =>
    apply Sited.of_session rfl
    all_goals
      rw [taken_currentState]
      split <;> rfl
  | switched | emptyQuery | rowEnd => exact .of_none rfl rfl (by simp)
  | selected hs hq => exact .of_session (by simp [hq]) rfl rfl
  | gotResult hs hq => exact ⟨⟨by simp [hq, State.inSession], fun _ => rfl⟩, by simp⟩
  | row hs hq hr => exact ⟨⟨rfl, fun _ => by simp [hr]⟩, by simp⟩

/-- So does the pass that returns. -/
theorem Sited.rest (h : Sited c) (hp : Pass a ev c (.rest d)) : Sited d := by
  cases hp with
  | @wait k l hi hr hz =>
    refine ⟨⟨?_, ?_⟩, ?_⟩
    · have hin := h.inProcess
      rwa [hi.inSession] at hin
    · intro hf
      have hf : k.wait.fetching = true := hf
      rw [← hi.fetching] at hf
      exact h.result hf
    · cases k <;> simp [Kind.wait]
  | closed => exact .of_none rfl rfl (by simp)
  | idle => exact h

end

/-! ## Callbacks that only submit -/

/-- The callback calls nothing but `StartQuery`. -/
def Submits (l : List Act) : Prop := ∀ x ∈ l, ∃ q, x = Act.startQuery q

/-- So do all callbacks still to come. -/
def Submitting (scripts : List (List Act)) : Prop := ∀ l ∈ scripts, Submits l

theorem Submitting.suffix {ls ls' : List (List Act)} (h : Submitting ls) (hs : ls' <:+ ls) : Submitting ls' :=
  fun l hl => h l (hs.subset hl)

/-- Only the queue and the history differ. -/
def Submitted (c d : Conn) : Prop := d = { c with queryList := d.queryList, log := d.log }

theorem Submitted.trans {c d e : Conn} (h : Submitted c d) (h' : Submitted d e) : Submitted c e := by
  unfold Submitted at h h' ⊢
  rw [h', h]

theorem Submitted.state {c d : Conn} (h : Submitted c d) : d.currentState = c.currentState := by rw [h]

theorem Submitted.inProcess {c d : Conn} (h : Submitted c d) : d.inProcess = c.inProcess := by rw [h]

/-- What `clean_up` leaves of the connection. -/
structure CleanedUp (c d : Conn) : Prop where
  same      : d = { c with fdEvent := d.fdEvent, timeout := d.timeout, inProcess := d.inProcess,
                           queryList := d.queryList, log := d.log }
  fdEvent   : d.fdEvent = none
  inProcess : d.inProcess = none
  queryList : d.queryList = []

theorem CleanedUp.of_submitted {c d e : Conn} (h : Submitted d e) (hq : e.queryList = []) (hp : d.inProcess = none)
    (hf : d.fdEvent = none)
    (hd : d = { c with fdEvent := d.fdEvent, timeout := d.timeout, inProcess := d.inProcess,
                       queryList := d.queryList, log := d.log }) : CleanedUp c e := by
  refine ⟨?_, ?_, ?_, hq⟩
  · rw [h, hd]
  · rw [h]; exact hf
  · rw [h]; exact hp

theorem reportClosed_rested {as : List Answer} {c : Conn} (hp : c.inProcess = none) (hq : c.queryList = [])
    (hf : c.fdEvent = none) (hr : c.ready = false) : Rested as (reportClosed c) := by
  unfold reportClosed
  split <;> exact .closed rfl hp hq hf hr

@[simp] theorem reportClosed_tasks (c : Conn) : (reportClosed c).tasks = c.tasks := by
  unfold reportClosed; split <;> rfl

@[simp] theorem reportClosed_inProcess (c : Conn) : (reportClosed c).inProcess = c.inProcess := by
  unfold reportClosed; split <;> rfl

/-- What is shown of a function whose callbacks only submit. -/
def Keeps (r r' : Rig) : Job → Prop
  | .handleState _ => Sited r.conn → Submitting r.scripts →
    (∃ as, Rested as r'.conn) ∧ Sited r'.conn ∧ r'.conn.tasks = r.conn.tasks
  | .act x => r.Busy → Submits [x] → Submitted r.conn r'.conn
  | .callback l => r.Busy → Submits l → Submitted r.conn r'.conn
  | .onQueryDone _ => r.Busy → Submitting r.scripts → Submitted r.conn r'.conn
  | .cleanUp => (r.conn.currentState = .connectionIdle → r.conn.inProcess = none ∧ r.conn.queryList = []) →
    Submitting r.scripts → CleanedUp r.conn r'.conn
  | .flush _ => (r.Busy ∨ r.conn.queryList = []) → Submitting r.scripts →
    Submitted r.conn r'.conn ∧ r'.conn.queryList = []

theorem Returns.keeps {j : Job} {r r' : Rig} (h : Returns j r r') : Keeps r r' j := by
  induction h with
  | @passed r r' a as ev c ha hs hn hp _ ih =>
    intro hc hsub
    have hpass : Pass a ev r.conn (.goOn c) := hp ▸ handleStatePass_pass
    obtain ⟨hr, hst, ht⟩ := ih (hc.pass hpass) hsub
    exact ⟨hr, hst, ht.trans (pass_tasks (.inl hpass))⟩
  | @rested r a as ev c ha hs hn hp =>
    intro hc hsub
    have hpass : Pass a ev r.conn (.rest c) := hp ▸ handleStatePass_pass
    exact ⟨⟨[a], (pass_rested (by simp) hc.phased hpass).1⟩, hc.rest hpass, pass_tasks (.inr hpass)⟩
  | @completed r r₁ r' a as ev q c next ha hs hc hd _ ih ih' =>
    intro hst hsub
    obtain ⟨hq, hp⟩ := completing_spec hc
    have hpass : Pass a ev r.conn (.goOn (settled q next c)) := hp ▸ handleStatePass_pass
    have hsame : Submitted c r₁.conn := ih (.inl (by simp [hq])) hsub
    have hnext : Sited ((resetInProcess r₁.conn).toState next) := (hst.pass hpass).of_eq rfl rfl (by rw [hsame]; rfl)
    obtain ⟨hr, hst', ht⟩ := ih' hnext (hsub.suffix hd.grows.scripts)
    refine ⟨hr, hst', ht.trans ?_⟩
    have htasks : r₁.conn.tasks = c.tasks := by rw [hsame]
    have hkept : (settled q next c).tasks = r.conn.tasks := pass_tasks (.inl hpass)
    exact htasks.trans hkept
  | @closeDone r r₁ a as ev ha hs _ ih =>
    intro hst hsub
    have hup : CleanedUp (r.conn.setReady false) r₁.conn := ih (fun hi => by simp [hs] at hi) hsub
    have hready : r₁.conn.ready = false := by rw [hup.same]; rfl
    have htasks : r₁.conn.tasks = r.conn.tasks := by rw [hup.same]; rfl
    refine ⟨⟨[], reportClosed_rested hup.inProcess hup.queryList hup.fdEvent hready⟩, ?_, ?_⟩
    · have hp : (reportClosed r₁.conn).inProcess = none := (reportClosed_inProcess _).trans hup.inProcess
      exact .of_none hp rfl (by simp [reportClosed])
    · exact (reportClosed_tasks _).trans htasks
  | pushed => exact fun _ _ => rfl
  | kicked hs hp =>
    intro hb
    exact (hb.elim (· hp) (· hs)).elim
  | noted | closeKicked | syncClosed =>
    intro _ hx
    obtain ⟨q, hq⟩ := hx _ (List.mem_singleton.2 rfl)
    cases hq
  | silent => exact fun _ _ => rfl
  | @invoked r r₁ q l ls hp hl _ ih =>
    intro hb hsub
    have hcall : Submitted (r.conn.onQueryDone q) r₁.conn := ih hb (hsub l (by simp [hl]))
    exact (show Submitted r.conn (r.conn.onQueryDone q) from rfl).trans hcall
  | nil => exact fun _ _ => rfl
  | @cons r r₁ r' x l _ _ ih ih' =>
    intro hb hsub
    obtain ⟨⟨q, rfl⟩, hl⟩ := List.forall_mem_cons.1 hsub
    have hfirst : Submitted r.conn r₁.conn := ih hb (by simp [Submits])
    have hb' : r₁.Busy := by
      unfold Rig.Busy
      rw [hfirst.state, hfirst.inProcess]
      exact hb
    exact hfirst.trans (ih' hb' hl)
  | @cleanedIdle r r' hp _ ih =>
    intro hi hsub
    have hb : r.Busy ∨ r.conn.queryList = [] := by
      by_cases hs : r.conn.currentState = .connectionIdle
      · exact .inr (hi hs).2
      · exact .inl (.inr hs)
    have hfl : Submitted (removeEvents r.conn) r'.conn ∧ r'.conn.queryList = [] := ih hb hsub
    exact .of_submitted hfl.1 hfl.2 hp rfl rfl
  | @cleaned r r₁ r' q hp hd _ ih ih' =>
    intro hi hsub
    have hdone : Submitted { removeEvents r.conn with inProcess := some (q.setCode (-1) "closed") } r₁.conn :=
      ih (.inl (by simp)) hsub
    have hs : r₁.conn.currentState ≠ .connectionIdle := by
      rw [hdone.state]
      intro hs
      rw [(hi hs).1] at hp
      cases hp
    have hfl : Submitted (resetInProcess r₁.conn) r'.conn ∧ r'.conn.queryList = [] :=
      ih' (.inl (.inr hs)) (hsub.suffix hd.grows.scripts)
    refine .of_submitted hfl.1 hfl.2 rfl ?_ ?_
    · rw [hdone]; rfl
    · rw [hdone]; rfl
  | flushed => exact fun _ _ => ⟨rfl, rfl⟩
  | @flush r r₁ r' i q hq hd hi _ ih ih' =>
    intro hb hsub
    have hb : r.Busy := by
      apply hb.resolve_right
      intro hnil
      rw [hnil] at hq
      cases hq
    have hdone : Submitted { r.conn with queryList := r.conn.queryList.set i (q.setCode (-1) "closed") } r₁.conn :=
      ih hb hsub
    have hb' : r₁.Busy := by
      unfold Rig.Busy
      rw [hdone.state, hdone.inProcess]
      exact hb
    obtain ⟨hfl, hnil⟩ := ih' (.inl hb') (hsub.suffix hd.grows.scripts)
    refine ⟨Submitted.trans ?_ hfl, hnil⟩
    exact Submitted.trans (d := { r.conn with queryList := r.conn.queryList.set i (q.setCode (-1) "closed") }) rfl hdone

/-! ## Lifetimes -/

/-- After the connect there is no other, and the callbacks only submit. -/
def Move.Follows (m : Move) : Prop := m.op.connects = false ∧ Submitting m.scripts

/-- A connection lifetime whose callbacks submit sessions: `InitConnection`, one `Connect` or `SyncConnect`, and then
everything but these. -/
inductive Rig.Lifetime : Rig → Prop
  | init (client : Bool) (errNo : Int) (st : State) (opt : MysqlOptions) : Lifetime (Rig.opened client errNo st opt)
  | run {client : Bool} {errNo : Int} {st : State} {opt : MysqlOptions} {m : Move} {ms : List Move} {r r' : Rig} :
    m.op.opens = true → rigged.step (Rig.opened client errNo st opt) m r →
    (rigged.restrict fun _ m => m.Follows).Run r ms r' → Lifetime r'

/-- `HandleState` is entered on `d`: posted, by a `StartQuery` or a `Close` of the loop, or by a wake-up. -/
inductive Enters (c : Conn) : Conn → Prop
  | posted {op : Op} : op.task c = some .handleState → Enters c (op.target c)
  | submitted {op : Op} {q : Session} : op.task c = some (.startQuery q) → c.currentState = .connectionIdle →
    c.inProcess = none → Enters c (pushQuery q (op.target c))
  | closing : c.inProcess = none → c.currentState = .queryStart → Enters c { c with scheduleClose := true }
  | woken {e : FdEvent} : c.fdEvent = some e → Enters c (disarmed e c)

theorem Enters.state {c d : Conn} (h : Enters c d) : d.currentState = c.currentState := by cases h <;> rfl

/-- A connection of a lifetime between two handlers. -/
structure Resting (c : Conn) : Prop extends Provided c where
  rest   : c.currentState.isRest = true
  queue  : c.currentState = .connectionIdle → c.queryList = []
  event  : c.fdEvent.isSome = true → c.currentState.isWait = true ∨ c.currentState = .connectionIdle
  /-- `Connect` has posted one `HandleState` at most. -/
  posted : c.tasks.count .handleState ≤ 1
  /-- It is still to be run only where the connection has been opened or closed. -/
  place  : .handleState ∈ c.tasks → c.currentState = .connectStart ∨ c.currentState = .closeDone

namespace Resting

variable {c d : Conn} {op : Op}

/-- A step that leaves the machine alone, and posts no `HandleState`. -/
theorem of_eq (h : Resting c) (hs : d.currentState = c.currentState) (hp : d.inProcess = c.inProcess)
    (hr : d.result = c.result) (hf : d.fdEvent = c.fdEvent)
    (hq : c.currentState = .connectionIdle → d.queryList = c.queryList)
    (ht : d.tasks.count .handleState ≤ c.tasks.count .handleState) : Resting d := by
  refine ⟨h.toProvided.of_eq hs hp hr, hs ▸ h.rest, ?_, ?_, Nat.le_trans ht h.posted, ?_⟩
  · rw [hs]
    intro hi
    rw [hq hi]
    exact h.queue hi
  · rw [hf, hs]
    exact h.event
  · intro hmem
    have hpos : 0 < d.tasks.count .handleState := List.count_pos_iff.2 hmem
    rw [hs]
    apply h.place
    apply List.count_pos_iff.1
    omega

/-- What `HandleState` leaves behind. -/
theorem of_rested (hr : ∃ as, Rested as d) (hp : Provided d) (ht : .handleState ∉ d.tasks) : Resting d := by
  obtain ⟨as, hr⟩ := hr
  have hposted : d.tasks.count .handleState ≤ 1 := by
    rw [List.count_eq_zero.2 ht]
    omega
  cases hr with
  | @waiting k a ha hs hz hf hti =>
    refine ⟨hp, ?_, ?_, ?_, hposted, fun hmem => absurd hmem ht⟩
    · rw [hs]; exact k.wait_isRest
    · rw [hs]; intro hi; cases k <;> cases hi
    · rw [hs]; exact fun _ => .inl k.isWait_wait
  | idle hs hn hq hsc =>
    exact ⟨hp, by rw [hs]; rfl, fun _ => hq, fun _ => .inr hs, hposted, fun hmem => absurd hmem ht⟩
  | closed hs hn hq hf hready =>
    refine ⟨hp, by rw [hs]; rfl, fun _ => hq, ?_, hposted, fun hmem => absurd hmem ht⟩
    rw [hf]
    intro hf
    cases hf

theorem inProcess_none (h : Resting c) (hs : c.currentState = .connectionIdle) : c.inProcess = none :=
  h.phased.none (by rw [hs]; rfl)

/-- **Where `HandleState` is entered** it may stand, and no other is posted. -/
theorem enters (h : Resting c) (hd : Enters c d) : Sited d ∧ .handleState ∉ d.tasks := by
  -- a `HandleState` that is still posted leaves no other way in
  have hout : ∀ t : List Task, t.count .handleState ≤ c.tasks.count .handleState →
      c.currentState ≠ .connectStart → c.currentState ≠ .closeDone → .handleState ∉ t := by
    intro t ht h1 h2 hmem
    have hpos : 0 < t.count .handleState := List.count_pos_iff.2 hmem
    rcases h.place (List.count_pos_iff.1 (by omega)) with hs | hs
    · exact h1 hs
    · exact h2 hs
  cases hd with
  | @posted op ht =>
    have hmem : Task.handleState ∈ c.tasks := by
      cases op with
      | runTask i as => exact List.mem_of_getElem? ht
      | _ => simp [Op.task] at ht
    refine ⟨⟨h.toProvided.of_eq rfl rfl rfl, ?_⟩, Op.not_mem_remaining h.posted ht⟩
    rcases h.place hmem with hs | hs <;> simp [hs]
  | @submitted op q ht hs hn =>
    refine ⟨⟨h.toProvided.of_eq rfl rfl rfl, by simp [hs]⟩, ?_⟩
    exact hout _ (op.count_remaining c .handleState) (by simp [hs]) (by simp [hs])
  | closing hn hs =>
    have hrest := h.rest
    rw [hs] at hrest
    cases hrest
  | @woken e hf =>
    have hev := h.event (by simp [hf])
    refine ⟨⟨h.toProvided.of_eq rfl rfl rfl, ?_⟩, hout _ (Nat.le_refl _) ?_ ?_⟩
    · constructor <;> (intro hs; have hs : c.currentState = _ := hs; simp [hs, State.isWait] at hev)
    · intro hs; simp [hs, State.isWait] at hev
    · intro hs; simp [hs, State.isWait] at hev

end Resting

theorem Op.task_of_job {c : Conn} {op : Op} {q : Session} (h : op.job c = some (.act (.startQuery q))) :
    op.task c = some (.startQuery q) := by
  cases op <;> simp only [Op.job, Option.some.injEq, reduceCtorEq, Job.act.injEq] at h
  case runTask i as =>
    obtain ⟨t, ht, hj⟩ := Option.map_eq_some_iff.1 h
    cases t <;> cases hj
    exact ht
  case startQuery q' as =>
    cases h
    rfl

/-- An operation that runs `HandleState` at once enters it. -/
theorem Op.enters_of_job {c d : Conn} {op : Op} {ev : WaitStatus} (h : op.job c = some (.handleState ev))
    (hd : op.entry c = .ok d) : Enters c d := by
  unfold Op.entry at hd
  by_cases hw : op.wakes = true
  · rw [if_pos hw] at hd
    split at hd
    · cases hd
    · rename_i u hu
      obtain ⟨e, hf, rfl⟩ := resetWaitEvent_eq hu
      cases hd
      exact .woken hf
  · rw [if_neg hw] at hd
    cases hd
    apply Enters.posted
    cases op <;> simp only [Op.job, Option.some.injEq, reduceCtorEq] at h <;> simp only [Op.wakes, not_true] at hw
    case runTask i as =>
      obtain ⟨t, ht, hj⟩ := Option.map_eq_some_iff.1 h
      cases t <;> cases hj
      exact ht

/-- **Lifetimes keep the connection `Resting`.** -/
theorem Resting.step {r r' : Rig} {m : Move} (h : Resting r.conn) (hm : m.Follows) (hst : rigged.step r m r') :
    Resting r'.conn := by
  obtain ⟨n, hst⟩ := hst
  obtain ⟨he, d, hd, -, rfl⟩ := moved_operated hst
  show Resting d.conn
  have hhandled : ∀ {c : Conn} {ev : WaitStatus} {r₀ r₁ : Rig}, Enters r.conn c → r₀.conn = c → r₀.scripts = m.scripts →
      Returns (.handleState ev) r₀ r₁ → Resting r₁.conn := by
    rintro c ev r₀ r₁ hc rfl hs hret
    obtain ⟨hsited, hmem⟩ := h.enters hc
    obtain ⟨hr, hp, ht⟩ := hret.keeps hsited (hs ▸ hm.2)
    exact .of_rested hr hp.toProvided (by rw [ht]; exact hmem)
  cases hd with
  | @other c hj hs =>
    have hs : Mysql.step r.conn m.op = .ok c := hs
    have hj : m.op.job r.conn = none := hj
    have hconn := hm.1
    show Resting c
    cases hop : m.op <;> rw [hop] at hs hj hconn <;>
      simp only [Op.job, reduceCtorEq, Option.map_eq_none_iff, Op.connects, Bool.true_eq_false] at hj hconn <;>
      simp only [Mysql.step, Except.ok.injEq] at hs
    case pendingQuery q => exact hs ▸ h.of_eq rfl rfl rfl rfl (fun _ => rfl) (by simp [pendingQuery])
    case clientClose => exact hs ▸ h.of_eq rfl rfl rfl rfl (fun _ => rfl) (by simp [clientClose])
    case runTask i as =>
      simp only [runTask, hj, Except.ok.injEq] at hs
      exact hs ▸ h
    case connectionCheck a =>
      rw [doConnectionCheck_eq] at hs
      exact hs ▸ h.of_eq rfl rfl rfl rfl (fun _ => rfl) (Nat.le_refl _)
  | @called j c _ hj hc hret =>
    have hj : m.op.job r.conn = some j := hj
    have hc : m.op.entry r.conn = .ok c := hc
    rcases Op.job_cases hj with ⟨ev, rfl⟩ | ⟨x, rfl⟩
    · exact hhandled (Op.enters_of_job hj hc) rfl rfl hret
    · obtain rfl := Op.entry_of_act hj hc
      cases hret with
      | @pushed _ q hb =>
        refine h.of_eq rfl rfl rfl rfl (fun hs => ?_) (m.op.count_remaining r.conn .handleState)
        exact absurd ⟨hs, h.inProcess_none hs⟩ hb
      | @kicked _ _ q hs hp hret => exact hhandled (.submitted (Op.task_of_job hj) hs hp) rfl rfl hret
      | noted => exact h.of_eq rfl rfl rfl rfl (fun _ => rfl) (m.op.count_remaining r.conn .handleState)
      | closeKicked hp hs hret =>
        have hrest := h.rest
        rw [show r.conn.currentState = .queryStart from hs] at hrest
        cases hrest
      | @syncClosed _ r₁ hret =>
        have hup : CleanedUp (m.op.target r.conn) r₁.conn :=
          hret.keeps (fun hs => ⟨h.inProcess_none hs, h.queue hs⟩) hm.2
        have htasks : r₁.conn.tasks = m.op.remaining r.conn := by rw [hup.same]; rfl
        refine ⟨⟨?_, ?_⟩, rfl, ?_, ?_, ?_, fun _ => .inr rfl⟩
        · show r₁.conn.inProcess.isSome = false
          rw [hup.inProcess]
          rfl
        · intro hf; cases hf
        · intro hs; cases hs
        · intro hf
          have hf : r₁.conn.fdEvent.isSome = true := hf
          rw [hup.fdEvent] at hf
          cases hf
        · show r₁.conn.tasks.count .handleState ≤ 1
          rw [htasks]
          exact Nat.le_trans (m.op.count_remaining r.conn .handleState) h.posted

theorem resting_opened (client : Bool) (errNo : Int) (st : State) (opt : MysqlOptions) :
    Resting (opened client errNo st opt) := by
  refine ⟨⟨rfl, ?_⟩, rfl, ?_, ?_, ?_, ?_⟩ <;> simp [opened, Conn.new, State.fetching]

theorem resting_of_opens {client : Bool} {errNo : Int} {st : State} {opt : MysqlOptions} {op : Op} {c : Conn}
    (hop : op.opens = true) (h : lts.step (opened client errNo st opt) op c) : Resting c := by
  have hinit := resting_opened client errNo st opt
  obtain rfl | ⟨a, rfl⟩ | ⟨a, rfl⟩ := opens_cases hop h
  · refine ⟨⟨rfl, ?_⟩, rfl, ?_, ?_, ?_, fun _ => .inl rfl⟩ <;> simp [opened, Conn.new, State.fetching]
  · exact hinit.of_eq rfl rfl rfl rfl (fun _ => rfl) (Nat.le_refl _)
  · refine ⟨⟨rfl, ?_⟩, rfl, fun _ => rfl, fun _ => .inr rfl, ?_, ?_⟩ <;> simp [opened, Conn.new, State.fetching]

theorem Op.job_of_opens {op : Op} (h : op.opens = true) (c : Conn) : op.job c = none := by
  cases op <;> first | rfl | cases h

/-- An operation that runs no callback is that of `System`. -/
theorem rigged_step_opens {r r' : Rig} {m : Move} (hop : m.op.opens = true) (h : rigged.step r m r') :
    lts.step r.conn m.op r'.conn := by
  obtain ⟨n, h⟩ := h
  obtain ⟨he, d, hd, -, rfl⟩ := moved_operated h
  cases hd with
  | other _ hs => exact ⟨he, hs⟩
  | called hj =>
    rw [Op.job_of_opens hop] at hj
    cases hj

/-- **Between two handlers of a lifetime** the connection is `Resting`. -/
theorem Rig.Lifetime.resting {r : Rig} (h : r.Lifetime) : Resting r.conn := by
  cases h with
  | init client errNo st opt => exact resting_opened client errNo st opt
  | @run client errNo st opt m ms r r' hop hst hr =>
    have hr₀ : Resting r.conn := resting_of_opens hop (rigged_step_opens hop hst)
    exact hr.invariant_restrict (P := fun r => Resting r.conn) (fun _ _ _ h hm hs => h.step hm hs) hr₀

end LtApp.Mysql
