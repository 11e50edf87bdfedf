import LtApp.Mysql.Phase

/-!
# Closed stays closed

Two paths finish a close: `HandleState` handles `CLOSE_DONE` and leaves `CONNECT_DONE`, `SyncClose` leaves
`CLOSE_DONE`. Neither stops `checker_`, and neither is a state of its own: a `HandleState` still posted takes the
`CONNECT_DONE` a close has left for the one of a connect.

`Shut` is what both paths leave behind, and `Op.StaysShut` the condition under which it stays.
-/

namespace LtApp.Mysql

/-- The step finishes a close: `SyncClose` runs, or a `HandleState` that comes to `CLOSE_DONE`. -/
def FinishesClose (c : Conn) (op : Op) (d : Conn) : Prop :=
  op.task c = some .syncClose ∨
    (d.currentState = .connectDone ∧ (op.resumes c = true ∨ c.currentState ≠ .connectDone))

/-- What can happen before the next `InitConnection`, `Connect` or `SyncConnect`. -/
def Op.connects : Op → Bool
  | .initConnection _ | .connect | .syncConnect _ => true
  | _ => false

/-- The event is no libmysql call and does not make the connection ready. -/
def Ev.still : Ev → Bool
  | .call _ _ | .ready true | .onConnectReady => false
  | _ => true

/-- The events of `c'` that `c` does not have. -/
def since (c c' : Conn) : List Ev := c'.log.take (c'.log.length - c.log.length)

theorem since_eq {c c' : Conn} {es : List Ev} (h : c'.log = es ++ c.log) : since c c' = es := by
  unfold since
  rw [h, List.length_append, Nat.add_sub_cancel, List.take_left']
  rfl

/-- Since `d` no libmysql call has been made, and the connection has not become ready. -/
def StaysClosed (d d' : Conn) : Prop := (∀ e ∈ since d d', e.still = true) ∧ d'.ready = false

def Op.checks : Op → Bool
  | .connectionCheck _ => true
  | _ => false

/-- No connection check and no `SyncClose` runs, and no `HandleState` in `CONNECT_DONE`. -/
def Op.StaysShut (c : Conn) (op : Op) : Prop :=
  op.checks = false ∧ op.task c ≠ some .syncClose ∧ (op.task c = some .handleState → c.currentState ≠ .connectDone)

instance (c : Conn) (op : Op) : Decidable (op.StaysShut c) := by unfold Op.StaysShut; infer_instance

/-! ## What a close leaves behind -/

structure Shut (c : Conn) : Prop where
  place : c.currentState.isClosed = true
  event : c.fdEvent = none
  ready : c.ready = false

/-- A `HandleState` that returns closed has just handled `CLOSE_DONE`. -/
theorem handleState_isClosed {as : List Answer} {ev : WaitStatus} {c c' : Conn} (h : handleState as ev c = .ok c')
    (hs : c'.currentState.isClosed = true) : ∃ d, c' = closed d := by
  refine handleState_induct (P := fun _ => True) (Q := fun d => d.currentState.isClosed = true → ∃ e, d = closed e)
    (fun _ _ _ _ _ _ => trivial) (fun _ _ d d' _ hp hd => ?_) trivial h hs
  cases hp with
  | @wait k => cases k <;> simp [Kind.wait, State.isClosed] at hd
  | closed => exact ⟨d, rfl⟩
  | idle hidle => simp [hidle, State.isClosed] at hd

theorem handleState_shut {as : List Answer} {ev : WaitStatus} {c c' : Conn} (h : handleState as ev c = .ok c')
    (hs : c'.currentState = .connectDone) : Shut c' := by
  obtain ⟨d, rfl⟩ := handleState_isClosed h (by rw [hs]; rfl)
  exact ⟨rfl, rfl, rfl⟩

theorem FinishesClose.shut {c d : Conn} {op : Op} (hf : FinishesClose c op d) (h : lts.step c op d) : Shut d := by
  have hrun : ∀ {e : Conn} {as : List Answer} {ev : WaitStatus}, op.task c ≠ some .syncClose →
      handleState as ev e = .ok d → Shut d :=
    fun hne hh => handleState_shut hh (hf.resolve_left hne).1
  have hstay : op.task c ≠ some .syncClose → op.resumes c = false → d.currentState ≠ .connectDone ∨
      d.currentState = c.currentState → Shut d := by
    intro hne hr hs
    obtain ⟨hd, hor⟩ := hf.resolve_left hne
    rcases hs with hs | hs
    · exact absurd hd hs
    · rcases hor with hor | hor
      · simp [hr] at hor
      · exact absurd (hs ▸ hd) hor
  cases lts_stepped h with
  | syncClosed => exact ⟨rfl, rfl, rfl⟩
  | kicked ht _ _ hh | handled ht hh => exact hrun (by rw [ht]; simp) hh
  | closeKicked _ _ hh => exact hrun (by simp [Op.task]) hh
  | woken hw _ hh => exact hrun (by rw [Op.task_of_wakes hw]; simp) hh
  | init | connect | syncConnected =>
    exact hstay (by simp [Op.task]) (by simp [Op.resumes, Op.wakes, Op.task]) (.inl (by simp))
  | syncRefused | pendingQuery | clientClose | close | checked =>
    exact hstay (by simp [Op.task]) (by simp [Op.resumes, Op.wakes, Op.task]) (.inr rfl)
  | pushed ht _ =>
    refine hstay (by rw [ht]; simp) ?_ (.inr rfl)
    cases hw : op.wakes with
    | true => simp [Op.task_of_wakes hw] at ht
    | false => simp [Op.resumes, hw, ht]

/-! ## One step -/

/-- `HandleState` in `CLOSE_DONE` returns at once. -/
theorem handleState_closeDone {as : List Answer} {ev : WaitStatus} {c c' : Conn} (hs : c.currentState = .closeDone)
    (h : handleState as ev c = .ok c') : c' = closed c := by
  cases as with
  | nil => simp [handleState] at h
  | cons a as =>
    have hpass : handleStatePass a ev c = .rest (closed c) := by
      simp only [handleStatePass, handleStateConnect, hs, cleanUp_eq]
      cases hcl : c.client <;> simp [closed, hcl, Conn.toState, Conn.emit]
    simpa [handleState, hpass] using h.symm

/-- In `CLOSE_START` it calls `mysql_close_start`. -/
theorem handleState_closeStart {as : List Answer} {ev : WaitStatus} {c c' : Conn}
    (hs : c.currentState = .closeStart) (h : handleState as ev c = .ok c') :
    ∃ a es, c'.log = es ++ .call .closeStart a :: c.log := by
  cases as with
  | nil => simp [handleState] at h
  | cons a as =>
    have hpass : handleStatePass a ev c = goNextState a a.status .closeWait .closeDone (c.call .closeStart a) := by
      simp [handleStatePass, handleStateConnect, hs]
    simp only [handleState, hpass, goNextState] at h
    cases hz : a.status.isZero with
    | true =>
      simp only [hz, if_true] at h
      obtain ⟨es, hes, -⟩ := handleState_appends h
      exact ⟨a, es, hes⟩
    | false =>
      simp only [hz, Bool.false_eq_true, if_false, Except.ok.injEq, waitMysqlStatus_eq] at h
      subst h
      exact ⟨a, _, rfl⟩

/-- In `CONNECT_DONE` it makes the connection ready again, or closes it again. -/
theorem handleState_connectDone {as : List Answer} {ev : WaitStatus} {c c' : Conn}
    (hs : c.currentState = .connectDone) (h : handleState as ev c = .ok c') :
    ∃ es, c'.log = es ++ c.log ∧ ∃ e ∈ es, e.still = false := by
  cases as with
  | nil => simp [handleState] at h
  | cons a as =>
    cases hr : c.mysqlRet with
    | true =>
      have hpass : handleStatePass a ev c = .goOn (connected c) := by
        cases hcl : c.client <;>
          simp [handleStatePass, handleStateConnect, hs, hr, hcl, connected, Conn.setReady, Conn.toState, Conn.emit]
      simp only [handleState, hpass] at h
      obtain ⟨es, hes, -⟩ := handleState_appends h
      exact ⟨es ++ ((if c.client then [.onConnectReady] else []) ++ [.ready true]), by rw [hes]; simp,
        .ready true, by simp, rfl⟩
    | false =>
      have hpass : handleStatePass a ev c = .goOn ((c.setReady false).toState .closeStart) := by
        simp [handleStatePass, handleStateConnect, hs, hr]
      simp only [handleState, hpass] at h
      obtain ⟨b, es, hes⟩ := handleState_closeStart rfl h
      exact ⟨es ++ [.call .closeStart b, .ready false], by rw [hes]; simp, .call .closeStart b, by simp, rfl⟩

theorem Op.checks_of_task {c : Conn} {op : Op} {t : Task} (h : op.task c = some t) : op.checks = false := by
  cases op <;> first | rfl | simp [Op.task] at h

theorem Shut.state {c : Conn} (hc : Shut c) : c.currentState = .connectDone ∨ c.currentState = .closeDone := by
  have := hc.place
  unfold State.isClosed at this
  split at this <;> simp_all

theorem closed_still (c : Conn) : ∃ es, (closed c).log = es ++ c.log ∧ ∀ e ∈ es, e.still = true := by
  refine ⟨(if c.client then [.onConnectionClosed] else []) ++
    (((unfinished (c.setReady false)).map fun q => Ev.done (q.setCode (-1) "closed")).reverse ++ [.ready false]),
    by simp, ?_⟩
  cases hcl : c.client <;> simp +contextual [Ev.still, or_imp]

/-- **A step of a closed connection keeps it closed exactly if it meets the condition.** -/
theorem Shut.step_iff {c c' : Conn} {op : Op} (hc : Shut c) (hop : op.connects = false) (h : lts.step c op c') :
    (∀ e ∈ since c c', e.still = true) ↔ op.StaysShut c := by
  have hstate : c.currentState ≠ .connectionIdle ∧ c.currentState ≠ .queryStart := by
    rcases hc.state with hs | hs <;> simp [hs]
  cases lts_stepped h with
  | init | connect | syncRefused | syncConnected => simp [Op.connects] at hop
  | pendingQuery q hr => simp [hc.ready] at hr
  | clientClose | close => simp [since, Op.StaysShut, Op.checks, Op.task]
  | @pushed op q ht hk =>
    have hs : since c (pushQuery q (op.target c)) = [.accept q] := since_eq rfl
    simp [hs, Op.StaysShut, Op.checks_of_task ht, ht, Ev.still]
  | kicked ht hs => exact absurd hs hstate.1
  | handled ht hh =>
    rcases hc.state with hs | hs
    · obtain ⟨es, hes, e, he, hne⟩ := handleState_connectDone (c := op.target c) hs hh
      have hes : c'.log = es ++ c.log := hes
      rw [since_eq hes]
      refine ⟨fun hall => ?_, fun hst => absurd hs (hst.2.2 ht)⟩
      simp [hall e he] at hne
    · obtain ⟨es, hes, hall⟩ := closed_still (op.target c)
      have hes : (closed (op.target c)).log = es ++ c.log := hes
      rw [handleState_closeDone (c := op.target c) hs hh, since_eq hes]
      exact iff_of_true hall ⟨Op.checks_of_task ht, by simp [ht], by simp [hs]⟩
  | syncClosed ht =>
    obtain ⟨es, hes⟩ : ∃ es, (syncClosed (op.target c)).log = .call .close {} :: es ++ c.log :=
      ⟨_, by rw [syncClosed_log, cleaned_log, ← List.cons_append]; rfl⟩
    rw [since_eq hes]
    simp [Op.StaysShut, ht, Ev.still]
  | closeKicked hp hs => exact absurd hs hstate.2
  | woken ht hf => simp [hc.event] at hf
  | @checked a =>
    have hs : since c (checked a c) = [.ready (a.err = 0), .call .ping a] := since_eq rfl
    simp [hs, Op.StaysShut, Op.checks, Ev.still]

theorem Shut.step {c c' : Conn} {op : Op} (hc : Shut c) (hop : op.connects = false) (hst : op.StaysShut c)
    (h : lts.step c op c') : Shut c' := by
  have hstate : c.currentState ≠ .connectionIdle ∧ c.currentState ≠ .queryStart := by
    rcases hc.state with hs | hs <;> simp [hs]
  cases lts_stepped h with
  | init | connect | syncRefused | syncConnected => simp [Op.connects] at hop
  | pendingQuery | clientClose | close | pushed => exact ⟨hc.place, hc.event, hc.ready⟩
  | kicked ht hs => exact absurd hs hstate.1
  | handled ht hh =>
    have hs : c.currentState = .closeDone := hc.state.resolve_left (hst.2.2 ht)
    rw [handleState_closeDone (c := op.target c) hs hh]
    exact ⟨rfl, rfl, rfl⟩
  | syncClosed ht => exact absurd ht hst.2.1
  | closeKicked hp hs => exact absurd hs hstate.2
  | woken ht hf => simp [hc.event] at hf
  | checked => simp [Op.StaysShut, Op.checks] at hst

/-! ## Runs -/

/-- Up to the next connect. -/
def later : Lts Conn Op := lts.restrict fun _ op => op.connects = false

theorem later_appends {c c' : Conn} {ops : List Op} (h : later.Run c ops c') : ∃ es, c'.log = es ++ c.log := by
  induction h with
  | nil => exact ⟨[], rfl⟩
  | cons hs _ ih =>
    obtain ⟨es, hes⟩ := step_appends hs.1
    obtain ⟨fs, hfs⟩ := ih
    exact ⟨fs ++ es, by rw [hfs, hes, List.append_assoc]⟩

theorem Shut.run_iff {c c' : Conn} {ops : List Op} (hc : Shut c) (h : later.Run c ops c') :
    StaysClosed c c' ↔ (later.restrict fun c op => op.StaysShut c).Run c ops c' := by
  induction h with
  | nil => exact iff_of_true ⟨by simp [since], hc.ready⟩ (.nil _)
  | @cons s t u op ops hs hr ih =>
    obtain ⟨es, hes⟩ := step_appends hs.1
    obtain ⟨fs, hfs⟩ := later_appends hr
    have hall : since s u = fs ++ es := since_eq (by rw [hfs, hes, List.append_assoc])
    have hsplit : (∀ e ∈ since s u, e.still = true) ↔
        (∀ e ∈ since t u, e.still = true) ∧ ∀ e ∈ since s t, e.still = true := by
      rw [hall, since_eq hfs, since_eq hes]
      simp only [List.mem_append, or_imp, forall_and]
    constructor
    · rintro ⟨hst, hready⟩
      obtain ⟨h2, h1⟩ := hsplit.1 hst
      have hop := (hc.step_iff hs.2 hs.1).1 h1
      exact .cons ⟨hs, hop⟩ ((ih (hc.step hs.2 hop hs.1)).1 ⟨h2, hready⟩)
    · intro hrun
      cases hrun with
      | @cons _ t' _ _ _ hst hrun =>
        obtain rfl : t' = t := lts_det _ _ _ _ hst.1.1 hs.1
        obtain ⟨h2, hready⟩ := (ih (hc.step hs.2 hst.2 hs.1)).2 hrun
        exact ⟨hsplit.2 ⟨h2, (hc.step_iff hs.2 hs.1).2 hst.2⟩, hready⟩

/-- **Closed stays closed.** Once a step has finished a close, and up to the next connect: no libmysql call is made
and the connection does not become ready, exactly in the runs whose steps all meet `Op.StaysShut`. -/
theorem closed_stays_closed (c d d' : Conn) (op : Op) (ops : List Op) (h : lts.step c op d)
    (hf : FinishesClose c op d) (hr : later.Run d ops d') :
    StaysClosed d d' ↔ (later.restrict fun c op => op.StaysShut c).Run d ops d' :=
  (hf.shut h).run_iff hr

/-- `SyncConnect` has succeeded. -/
def syncOpened : Conn := syncConnect { ret := true } (opened true 0 .stateNone {})

theorem closed_stays_closed_run :
    StaysClosed (syncClose syncOpened) { syncClose syncOpened with scheduleClose := true } :=
  (closed_stays_closed syncOpened _ _ .syncClose [.close []] ⟨trivial, rfl⟩ (.inl rfl)
    (.single ⟨⟨trivial, rfl⟩, rfl⟩)).2 (.single ⟨⟨⟨trivial, rfl⟩, rfl⟩, by decide⟩)

/-- **The health check pings a closed connection**, and makes it ready. -/
theorem ping_after_close :
    ∃ c d d', lts.Run (opened true 0 .stateNone {}) [.syncConnect { ret := true }] c ∧ lts.step c .syncClose d ∧
      FinishesClose c .syncClose d ∧ later.Run d [.connectionCheck {}] d' ∧ ¬ StaysClosed d d' := by
  refine ⟨syncOpened, syncClose syncOpened, doConnectionCheck {} (syncClose syncOpened), .single ⟨trivial, rfl⟩,
    ⟨trivial, rfl⟩, .inl rfl, .single ⟨⟨rfl, rfl⟩, rfl⟩, ?_⟩
  rintro ⟨-, hready⟩
  exact absurd hready (by decide)

end LtApp.Mysql
