import LtApp.Base.Handle
import LtApp.Mysql.Phase

/-!
# One operation at a time on the handle

The libmysql calls in the history are the uses of one `Handle` (`Ev.use`): `*_start` and `*_cont` of an
operation, `mysql_use_result` that opens a result set, and the calls that talk to the server and block. Calls
that only read what the library has at hand are no uses.

The state says what the handle is committed to (`held`): a `*_WAIT` state to its operation, the row states to
the result set. `pass_tracked` shows that the machine keeps to it. The health check and `SyncClose` do not ask
for the state, so a run keeps to it when they stay out of the `*_WAIT` states (`Op.Spares`).
-/

namespace LtApp.Mysql

/-- An operation; a row fetch reads a result set. -/
structure Operation where
  kind   : Kind
  result : Option MysqlRes := none
deriving DecidableEq, Repr

/-- How a non-blocking call ends. A row fetch that yields no row is the end of the rows. -/
def outcome (k : Kind) (a : Answer) : Outcome :=
  if a.status.isZero then (if k = .fetchRow ∧ a.row = none then .drained else .finished) else .blocked

def Ev.use : Ev → Option (Use Operation)
  | .call (.realConnectStart _) a => some (.start ⟨.connect, none⟩ (outcome .connect a))
  | .call (.realConnectCont _) a => some (.cont ⟨.connect, none⟩ (outcome .connect a))
  | .call (.selectDbStart _) a => some (.start ⟨.selectDb, none⟩ (outcome .selectDb a))
  | .call (.selectDbCont _) a => some (.cont ⟨.selectDb, none⟩ (outcome .selectDb a))
  | .call (.realQueryStart _) a => some (.start ⟨.query, none⟩ (outcome .query a))
  | .call (.realQueryCont _) a => some (.cont ⟨.query, none⟩ (outcome .query a))
  | .call (.fetchRowStart r) a => some (.start ⟨.fetchRow, r⟩ (outcome .fetchRow a))
  | .call (.fetchRowCont r _) a => some (.cont ⟨.fetchRow, r⟩ (outcome .fetchRow a))
  | .call .closeStart a => some (.start ⟨.close, none⟩ (outcome .close a))
  | .call (.closeCont _) a => some (.cont ⟨.close, none⟩ (outcome .close a))
  | .call .useResult a => some (match a.res with | some r => .opens ⟨.fetchRow, some r⟩ | none => .other)
  | .call (.realConnect _) _ | .call .ping _ | .call .close _ => some .other
  | _ => none

/-- The uses of the handle, newest first. -/
def uses (log : List Ev) : List (Use Operation) := log.filterMap Ev.use

/-! ## What the state says of the handle -/

def Conn.operation (c : Conn) (k : Kind) : Operation := ⟨k, if k = .fetchRow then c.result else none⟩

/-- What the handle is committed to in this state. -/
def held (c : Conn) : Handle Operation :=
  let reading := c.result.map fun r => (⟨.fetchRow, some r⟩ : Operation)
  match c.currentState with
  | .connectWait => { pending := some (c.operation .connect) }
  | .selectDbWait => { pending := some (c.operation .selectDb) }
  | .queryWait => { pending := some (c.operation .query) }
  | .closeWait => { pending := some (c.operation .close) }
  | .fetchRowStart => { reading }
  | .fetchRowWait => { pending := some (c.operation .fetchRow), reading }
  | .fetchRowResultReady => { reading := if c.resultRow.isSome then reading else none }
  | _ => {}

/-- The uses so far are disciplined, and the state knows what they have committed the handle to. -/
structure Tracked (c : Conn) : Prop where
  disciplined : Disciplined (uses c.log)
  agrees : handle (uses c.log) = held c

/-- The states in which the handle is committed to something. -/
def State.commits : State → Bool
  | .fetchRowStart | .fetchRowResultReady => true
  | s => s.isWait

theorem held_free {c : Conn} (h : c.currentState.commits = false) : held c = {} := by
  unfold held
  cases hs : c.currentState <;> simp_all [State.commits, State.isWait]

theorem commits_of_isRest {s : State} (h : s.isRest = true) : s.commits = s.isWait := by
  cases s <;> simp_all [State.isRest, State.isWait, State.commits]

/-- A call that is none of the handle's uses changes nothing. -/
theorem Tracked.frame {c c' : Conn} (hc : Tracked c) (hl : uses c'.log = uses c.log) (hh : held c' = held c) :
    Tracked c' := ⟨hl ▸ hc.disciplined, hl ▸ hh ▸ hc.agrees⟩

theorem Tracked.free {c c' : Conn} (hc : Tracked c) (hl : uses c'.log = uses c.log)
    (h : c.currentState.commits = false) (h' : c'.currentState.commits = false) : Tracked c' :=
  hc.frame hl (by rw [held_free h, held_free h'])

theorem Tracked.use {c c' : Conn} {u : Use Operation} (hc : Tracked c) (hl : uses c'.log = u :: uses c.log)
    (ha : (held c).Allows u) (hh : held c' = (held c).next u) : Tracked c' := by
  refine ⟨?_, ?_⟩
  · rw [hl]; exact ⟨hc.agrees ▸ ha, hc.disciplined⟩
  · rw [hl, hh, ← hc.agrees]; rfl

/-- The use a non-blocking call is, by the state it is issued in. -/
theorem Issues.use {c : Conn} {ev : WaitStatus} {k : Kind} {l : LibCall} (h : Issues c ev k l) (a : Answer) :
    (c.currentState = k.start ∧ (Ev.call l a).use = some (.start (c.operation k) (outcome k a))) ∨
    (c.currentState = k.wait ∧ (Ev.call l a).use = some (.cont (c.operation k) (outcome k a))) := by
  cases h
  all_goals first | exact .inl ⟨‹_›, rfl⟩ | exact .inr ⟨‹_›, rfl⟩

theorem uses_cons_none {e : Ev} (h : e.use = none) (l : List Ev) : uses (e :: l) = uses l :=
  List.filterMap_cons_none h

theorem uses_cons_some {e : Ev} {u : Use Operation} (h : e.use = some u) (l : List Ev) :
    uses (e :: l) = u :: uses l := List.filterMap_cons_some h

theorem uses_armLog (a : Answer) (st : WaitStatus) (c : Conn) : uses (armLog a st c) = [] :=
  List.filterMap_eq_nil_iff.2 (armLog_forall (P := fun e => e.use = none) rfl rfl st c)

theorem uses_append (l m : List Ev) : uses (l ++ m) = uses l ++ uses m := List.filterMap_append

theorem uses_cleaned (c : Conn) : uses (cleaned c).log = uses c.log := by
  have h : ∀ qs : List Session, uses (qs.map fun q => Ev.done (q.setCode (-1) "closed")).reverse = [] := by
    intro qs; simp [uses, Ev.use]
  rw [cleaned_log, uses_append, h, List.nil_append]

/-! ## Passes -/

section
variable {a : Answer} {ev : WaitStatus} {c c' : Conn} {k : Kind} {l : LibCall}

/-- A call that is issued respects the handle. -/
theorem Issues.allowed (h : Issues c ev k l) (a : Answer) :
    ∃ u, (Ev.call l a).use = some u ∧ (held c).Allows u := by
  rcases h.use a with ⟨hs, hu⟩ | ⟨hs, hu⟩
  · refine ⟨_, hu, ?_⟩
    cases k <;> simp [held, hs, Kind.start, Handle.Allows, Use.Reads, Conn.operation]
  · refine ⟨_, hu, ?_⟩
    cases k <;> simp [held, hs, Kind.wait, Handle.Allows, Use.Reads, Use.Continues, Conn.operation]

/-- A call that does not finish leaves the handle to its operation. -/
theorem Issues.next_blocked (h : Issues c ev k l) {u : Use Operation} (hu : (Ev.call l a).use = some u)
    (hz : a.status.isZero = false) :
    (held c).next u = held (armed a a.status ((c.call l a).toState k.wait)) := by
  rcases h.use a with ⟨hs, hu'⟩ | ⟨hs, hu'⟩ <;>
    obtain rfl := Option.some.inj (hu.symm.trans hu') <;>
    cases k <;> simp [held, hs, Kind.start, Kind.wait, outcome, hz, Handle.next, Conn.operation]

/-- A call that finishes gives the handle back, except to the rows still to be read. -/
theorem Issues.next_finished (h : Issues c ev k l) {u : Use Operation} (hu : (Ev.call l a).use = some u)
    (hz : a.status.isZero = true) : (held c).next u = held ((k.store a (c.call l a)).toState k.finished) := by
  rcases h.use a with ⟨hs, hu'⟩ | ⟨hs, hu'⟩ <;>
    obtain rfl := Option.some.inj (hu.symm.trans hu') <;>
    cases k <;> simp [held, hs, Kind.start, Kind.wait, Kind.finished, Kind.store, outcome, hz, Handle.next,
      Conn.operation]
  all_goals cases a.row <;> cases c.result <;> simp

/-- Only operations that are not row fetches are taken to have failed. -/
theorem Issues.kind_of_reports (h : Issues c ev k l) (hr : c.reports a l = true) : k = .selectDb ∨ k = .query := by
  cases h <;> simp_all [Conn.reports]

theorem Issues.settled (h : Issues c ev k l) (hr : c.reports a l = true) (hset : a.err ≠ 0 → a.status.isZero = true)
    (herr : c.currentState = .queryWait → c.errNo ≠ 0 → a.status.isZero = true) : a.status.isZero = true := by
  cases h with
  | queryCont hs hp => exact herr hs (by simpa [Conn.reports] using hr)
  | _ => simp_all [Conn.reports]

theorem failed_commits {code : Int} {q : Session} {d : Conn} : (failed a code q d).currentState.commits = false := by
  rw [failed_currentState]; split <;> rfl

/-- **What a pass does to the handle, the state says.** -/
theorem pass_tracked (hc : Tracked c) (hset : a.err ≠ 0 → a.status.isZero = true)
    (herr : c.currentState = .queryWait → c.errNo ≠ 0 → a.status.isZero = true)
    (h : Pass a ev c (.goOn c') ∨ Pass a ev c (.rest c')) : Tracked c' := by
  rcases h with h | h
  · cases h with
    | @finish k l hi hr hz =>
      obtain ⟨u, hu, ha⟩ := hi.allowed a
      refine hc.use (u := u) ?_ ha (hi.next_finished hu hz).symm
      cases k <;> exact uses_cons_some hu _
    | @fail k l q hi hr hp =>
      obtain ⟨u, hu, ha⟩ := hi.allowed a
      have hz := hi.settled hr hset herr
      refine hc.use (u := u) (uses_cons_some hu _) ha ?_
      rw [hi.next_finished hu hz, held_free failed_commits, held_free]
      rcases hi.kind_of_reports hr with rfl | rfl <;> rfl
    | refused hs | closing hs | selected hs | switched hs | emptyQuery hs =>
      exact hc.free rfl (by rw [hs]; rfl) rfl
    | connected hs hr =>
      refine hc.free ?_ (by rw [hs]; rfl) rfl
      cases hcl : c.client <;> simp only [connected_log, hcl] <;> rfl
    | take hs =>
      refine hc.free rfl (by rw [hs]; rfl) ?_
      rw [taken_currentState]; split <;> rfl
    | noResult hs hp hres =>
      have hf : held c = {} := held_free (by rw [hs]; rfl)
      refine hc.use (u := .other) ?_ (by simp [hf, Handle.Allows]) ?_
      · simp [uses, List.filterMap_cons, Ev.use, hres]
      · rw [held_free failed_commits, hf]; rfl
    | @gotResult q r hs hp hres =>
      have hf : held c = {} := held_free (by rw [hs]; rfl)
      refine hc.use (u := .opens ⟨.fetchRow, some r⟩) ?_ (by simp [hf, Handle.Allows]) ?_
      · simp [uses, Ev.use, hres]
      · rw [hf]; rfl
    | @rowEnd q r hs hp hr hrow =>
      refine hc.frame ?_ ?_
      · rw [fetchEnded_log]
        unfold fetchEndLog
        by_cases he : a.errno = 0 <;> simp [uses, List.filterMap_cons, Ev.use, he]
      · simp [held, hs, hrow]
    | @row q r row hs hp hr hrow =>
      refine hc.frame ?_ ?_
      · rw [rowFetched_log]
        unfold fetchRowLog
        cases q.columNames.isEmpty <;> simp [uses, List.filterMap_cons, Ev.use]
      · simp [held, hs, hrow]
  · cases h with
    | wait hi hr hz =>
      obtain ⟨u, hu, ha⟩ := hi.allowed a
      refine hc.use (u := u) ?_ ha (hi.next_blocked hu hz).symm
      rw [armed_log, uses_append, uses_armLog]
      exact uses_cons_some hu _
    | closed hs =>
      refine hc.free ?_ (by rw [hs]; rfl) rfl
      rw [closed_log, uses_append, uses_cleaned]
      cases c.client <;> rfl
    | idle hs => exact hc

end

/-! ## The handler -/

/-- An operation that reports an error has finished. -/
def Answer.Settles (a : Answer) : Prop := a.err ≠ 0 → a.status.isZero = true

instance (a : Answer) : Decidable a.Settles := by unfold Answer.Settles; infer_instance

theorem handleState_tracked {as : List Answer} {ev : WaitStatus} {c c' : Conn} (hc : Tracked c)
    (hset : ∀ a ∈ as, a.Settles)
    (herr : c.currentState = .queryWait → c.errNo ≠ 0 → ∀ a ∈ as.head?, a.status.isZero = true)
    (h : handleState as ev c = .ok c') : Tracked c' := by
  cases as with
  | nil => simp [handleState] at h
  | cons a as =>
    have herr : c.currentState = .queryWait → c.errNo ≠ 0 → a.status.isZero = true := by simpa using herr
    rcases handleState_goOn_or_rest h with ⟨d, hp, hd⟩ | hp
    · have hdt := pass_tracked hc (hset a (by simp)) herr (.inl hp)
      have hset' : ∀ b ∈ as, b.Settles := fun b hb => hset b (by simp [hb])
      have hnq : ∀ e : Conn, e.currentState.isWait = false → e.currentState ≠ .queryWait := by
        intro e he hq; rw [hq] at he; exact absurd he (by decide)
      refine (handleState_induct (P := fun e => Tracked e ∧ e.currentState.isWait = false) (Q := Tracked) ?_ ?_
        ⟨hdt, pass_goOn_isWait hp⟩ hd)
      · exact fun b hb e e' he hp =>
          ⟨pass_tracked he.1 (hset' b hb) (fun hq => absurd hq (hnq e he.2)) (.inl hp), pass_goOn_isWait hp⟩
      · exact fun b hb e e' he hp =>
          pass_tracked he.1 (hset' b hb) (fun hq => absurd hq (hnq e he.2)) (.inr hp)
    · exact pass_tracked hc (hset a (by simp)) herr (.inr hp)

/-! ## Steps and runs -/

/-- What libmysql documents of the answers of this operation: the error number comes with the status 0. -/
def Op.Settles (op : Op) : Prop := ∀ a ∈ op.answers, a.Settles

instance (op : Op) : Decidable op.Settles := by unfold Op.Settles; infer_instance

/-- The operation uses the handle, whatever the state machine is waiting for. -/
def Op.intrudes (c : Conn) : Op → Bool
  | .initConnection _ | .connect | .syncConnect _ | .connectionCheck _ => true
  | op => op.task c = some .syncClose

/-- In a `*_WAIT` state no health check and no `SyncClose` runs and no connect is made; and the
`mysql_real_query_cont` whose outcome a nonzero `err_no_` decides finishes. -/
def Op.Spares (c : Conn) (op : Op) : Prop :=
  (c.currentState.isWait = true → op.intrudes c = false) ∧
  (c.currentState = .queryWait → c.errNo ≠ 0 → op.resumes c = true →
    ∀ a ∈ op.answers.head?, a.status.isZero = true)

instance (c : Conn) (op : Op) : Decidable (op.Spares c) := by unfold Op.Spares; infer_instance

theorem step_tracked {c c' : Conn} {op : Op} (hc : Tracked c) (hr : c.currentState.isRest = true)
    (hset : op.Settles) (hop : op.Spares c) (h : lts.step c op c') : Tracked c' := by
  have hfree : op.intrudes c = true → c.currentState.commits = false := by
    intro hi
    rw [commits_of_isRest hr]
    by_contra hw
    simp [hop.1 (by simpa using hw)] at hi
  have hother : op.intrudes c = true → held c = {} ∧ (held c).Allows .other := by
    intro hi
    have hf : held c = {} := held_free (hfree hi)
    exact ⟨hf, by simp [hf, Handle.Allows]⟩
  cases lts_stepped h with
  | init | connect => exact hc.free rfl (hfree rfl) rfl
  | syncRefused =>
    obtain ⟨hf, ha⟩ := hother rfl
    exact hc.use rfl ha rfl
  | syncConnected =>
    obtain ⟨hf, ha⟩ := hother rfl
    exact hc.use rfl ha (by rw [hf]; rfl)
  | pendingQuery | clientClose | close => exact hc.frame rfl rfl
  | pushed => exact hc.frame rfl rfl
  | kicked ht hs hp hh =>
    refine handleState_tracked (c := pushQuery _ (op.target c)) (hc.frame rfl rfl) hset (fun hq => ?_) hh
    have hq : c.currentState = .queryWait := hq
    simp [hs] at hq
  | handled ht hh =>
    refine handleState_tracked (c := op.target c) (hc.frame rfl rfl) hset (fun hq he => ?_) hh
    exact hop.2 hq he (by simp [Op.resumes, ht])
  | syncClosed ht =>
    obtain ⟨hf, ha⟩ := hother (by cases op <;> simp_all [Op.intrudes, Op.task])
    refine hc.use (u := .other) ?_ ha (by rw [hf]; rfl)
    rw [syncClosed_log, uses_cons_some rfl, uses_cons_none rfl, uses_cleaned]
    rfl
  | closeKicked hp hs hh =>
    refine handleState_tracked (c := { c with scheduleClose := true }) (hc.frame rfl rfl) hset (fun hq => ?_) hh
    have hq : c.currentState = .queryWait := hq
    simp [hs] at hq
  | woken ht hf hh =>
    refine handleState_tracked (c := disarmed _ c) (hc.frame rfl rfl) hset (fun hq he => ?_) hh
    exact hop.2 hq he (by simp [Op.resumes, ht])
  | checked =>
    obtain ⟨hf, ha⟩ := hother rfl
    exact hc.use (u := .other) rfl ha (by rw [held_free (by exact hfree rfl), hf]; rfl)

theorem opened_tracked (client : Bool) (errNo : Int) (st : State) (opt : MysqlOptions) :
    Tracked (opened client errNo st opt) := ⟨trivial, rfl⟩

theorem run_tracked {c c' : Conn} {ops : List Op} (hc : Tracked c) (hr : c.currentState.isRest = true)
    (h : (lts.restrict fun c op => op.Settles ∧ op.Spares c).Run c ops c') : Tracked c' := by
  have hboth : Tracked c' ∧ c'.currentState.isRest = true := by
    refine h.invariant_restrict (P := fun d => Tracked d ∧ d.currentState.isRest = true) ?_ ⟨hc, hr⟩
    intro d op d' hd hg hs
    exact ⟨step_tracked hd.1 hd.2 hg.1 hg.2 hs, step_isRest hd.2 hs⟩
  exact hboth.1

/-- **Exclusive use of the non-blocking handle.** In a run whose steps all meet `Op.Spares`, only `*_cont` calls
stand between a `*_start` that blocks and the `*_cont` that finishes it, and only row fetches of a result set
between `mysql_use_result` and the end of its rows. -/
theorem handle_used_exclusively (client : Bool) (errNo : Int) (st : State) (opt : MysqlOptions) (ops : List Op)
    (c : Conn) (h : (lts.restrict fun c op => op.Settles ∧ op.Spares c).Run (opened client errNo st opt) ops c) :
    Exclusive (uses c.log) :=
  exclusive_iff.2 (run_tracked (opened_tracked client errNo st opt) rfl h).disciplined

/-- The condition is met by a query that blocks, is woken up and reads one row. -/
theorem handle_used_exclusively_run :
    ∃ c, (lts.restrict fun c op => op.Settles ∧ op.Spares c).Run (opened true 0 .stateNone {})
        [.syncConnect { ret := true }, .startQuery { id := 1, query := [115] } [{}, { status := { read := true } }],
          .fdWake { read := true } [{}, { res := some ⟨1, []⟩ }, { row := some [] }, {}, {}, {}, {}],
          .connectionCheck {}] c ∧
      Exclusive (uses c.log) := by
  have hrun : ∃ c, (lts.restrict fun c op => op.Settles ∧ op.Spares c).Run (opened true 0 .stateNone {})
      [.syncConnect { ret := true }, .startQuery { id := 1, query := [115] } [{}, { status := { read := true } }],
        .fdWake { read := true } [{}, { res := some ⟨1, []⟩ }, { row := some [] }, {}, {}, {}, {}],
        .connectionCheck {}] c ∧ c.currentState = .connectionIdle := exists_run (by decide)
  obtain ⟨c, hr, -⟩ := hrun
  exact ⟨c, hr, handle_used_exclusively true 0 .stateNone {} _ c hr⟩

theorem exists_not_exclusive {g : Conn → Op → Prop} [∀ c op, Decidable (g c op)] {ops : List Op} {c : Conn}
    (h : (Lts.exec tryStep g ops c).any (fun c' => decide (¬ Disciplined (uses c'.log))) = true) :
    ∃ c', (lts.restrict g).Run c ops c' ∧ ¬ Exclusive (uses c'.log) := by
  obtain ⟨c', hr, hd⟩ := exists_run h
  exact ⟨c', hr, fun he => hd (exclusive_iff.1 he)⟩

/-- **The health check pings in the middle of a query** that spans its tick. -/
theorem ping_during_query :
    ∃ c, (lts.restrict fun _ op => op.Settles).Run (opened true 0 .stateNone {})
        [.syncConnect { ret := true }, .startQuery { id := 1, query := [115] } [{}, { status := { read := true } }],
          .connectionCheck {}] c ∧ ¬ Exclusive (uses c.log) :=
  exists_not_exclusive (by decide)

/-- With a nonzero `err_no_`, a query that blocks once more is given up and the next one started over it. -/
theorem query_started_over_blocked_query :
    ∃ c, (lts.restrict fun _ op => op.Settles).Run (opened true 7 .stateNone {})
        [.syncConnect { ret := true }, .startQuery { id := 1, query := [115] } [{}, { status := { read := true } }],
          .startQuery { id := 2, query := [115] } [],
          .fdWake { read := true } [{ status := { read := true } }, {}, { status := { read := true } }]] c ∧
      ¬ Exclusive (uses c.log) :=
  exists_not_exclusive (by decide)

end LtApp.Mysql
