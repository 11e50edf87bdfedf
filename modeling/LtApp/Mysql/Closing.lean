import LtApp.Mysql.Conservation
import LtApp.Mysql.Phase

/-!
# A close that is asked for happens

`Close` and a failed connection check only set `schedule_close_`; `HandleStateIDLE` acts on it when the machine
next finds nothing to do. A connection that already rests in `CONNECTION_IDLE` has to be kicked for that, and
`Close` kicks it in `QUERY_START` instead, where the machine never rests.

`Overlooked` is the request nobody will see, `Op.Heeds` the condition under which there is none.
-/

namespace LtApp.Mysql

/-- A close is asked for, the connection is idle and holds nothing, and no `HandleState` is posted. -/
def Overlooked (c : Conn) : Prop :=
  c.scheduleClose = true ∧ c.currentState = .connectionIdle ∧ ¬ Unfinished c ∧ .handleState ∉ c.tasks

instance (c : Conn) : Decidable (Overlooked c) := by unfold Overlooked; infer_instance

/-- Whenever `schedule_close_` was acted on, every session taken in had been completed. -/
def ClosedWhenDone : List Ev → Prop
  | [] => True
  | .closing :: l => accepted l = completed l ∧ ClosedWhenDone l
  | _ :: l => ClosedWhenDone l

/-- The operation asks for a close. -/
def Op.asksClose : Op → Bool
  | .close _ => true
  | .connectionCheck a => a.err ≠ 0
  | _ => false

/-- A close is not asked for while the connection is idle, holds nothing and has no `HandleState` posted; nor does a
`SyncConnect` succeed like that with a close asked for earlier. -/
def Op.Heeds (c : Conn) (op : Op) : Prop :=
  (op.asksClose = true → c.currentState = .connectionIdle → Unfinished c ∨ .handleState ∈ c.tasks) ∧
  ∀ a ∈ op.syncAnswer, a.ret = true → c.scheduleClose = true → Unfinished c ∨ .handleState ∈ c.tasks

instance (c : Conn) (op : Op) : Decidable (op.Heeds c) := by unfold Op.Heeds; infer_instance

/-! ## The request is not overlooked -/

theorem handleState_heeded {as : List Answer} {ev : WaitStatus} {c c' : Conn} (hc : Phased c)
    (h : handleState as ev c = .ok c') : ¬ Overlooked c' := by
  rintro ⟨hsc, hs, -, -⟩
  cases (handleState_rested hc h).1 with
  | @waiting k => cases k <;> simp_all [Kind.wait]
  | idle _ _ _ hno => simp [hno] at hsc
  | closed hd => simp [hd] at hs

theorem step_heeded {c c' : Conn} {op : Op} (hp : Phased c) (hc : ¬ Overlooked c) (hop : op.Heeds c)
    (h : lts.step c op c') : ¬ Overlooked c' := by
  -- asked for at this step, or before
  have hask : ∀ d : Conn, d.currentState = c.currentState → (Unfinished d ↔ Unfinished c) → d.tasks = c.tasks →
      (c.currentState = .connectionIdle → Unfinished c ∨ .handleState ∈ c.tasks) → ¬ Overlooked d := by
    rintro d hs hu ht hcond ⟨-, hidle, hnu, hnt⟩
    rcases hcond (hs ▸ hidle) with h | h
    · exact hnu (hu.2 h)
    · exact hnt (ht ▸ h)
  cases lts_stepped h with
  | init | connect | syncClosed => rintro ⟨-, hs, -⟩; simp at hs
  | syncRefused => exact hc
  | syncConnected ha =>
    rintro ⟨hsc, -, hnu, hnt⟩
    rcases hop.2 _ rfl ha hsc with h | h
    · exact hnu h
    · exact hnt h
  | pendingQuery | clientClose =>
    rintro ⟨hsc, hs, hnu, hnt⟩
    exact hc ⟨hsc, hs, hnu, fun hm => hnt (List.mem_append_left _ hm)⟩
  | pushed ht hk =>
    rintro ⟨hsc, hs, hnu, -⟩
    exact hnu (.inr (by simp))
  | kicked ht hs hp' hh => exact handleState_heeded (c := pushQuery _ (op.target c)) (phased_of_none hp') hh
  | handled ht hh => exact handleState_heeded (c := op.target c) hp hh
  | close => exact hask _ rfl Iff.rfl rfl (hop.1 rfl)
  | closeKicked hp' hs hh => exact handleState_heeded (c := { c with scheduleClose := true }) (phased_of_none hp') hh
  | woken ht hf hh => exact handleState_heeded (c := disarmed _ c) hp hh
  | @checked a =>
    by_cases he : a.err = 0
    · rintro ⟨hsc, hs, hnu, hnt⟩
      exact hc ⟨by simpa [he] using hsc, hs, hnu, hnt⟩
    · exact hask _ rfl Iff.rfl rfl (hop.1 (by simp [Op.asksClose, he]))

/-! ## Nothing is closed before it is done -/

theorem closedWhenDone_append {es : List Ev} (h : ∀ e ∈ es, e ≠ .closing) (l : List Ev) :
    ClosedWhenDone (es ++ l) ↔ ClosedWhenDone l := by
  induction es with
  | nil => exact Iff.rfl
  | cons e es ih =>
    have he := h e (by simp)
    rw [List.cons_append, ← ih fun x hx => h x (by simp [hx])]
    cases e <;> first | exact Iff.rfl | exact absurd rfl he

/-- What the history of a connection that keeps its books says of its closes. -/
structure Orderly (c : Conn) : Prop where
  phased    : Phased c
  conserved : (books c).Conserved
  closed    : ClosedWhenDone c.log

theorem Orderly.settled {c : Conn} (h : Orderly c) (hs : c.currentState = .connectionIdle) (hq : c.queryList = []) :
    accepted c.log = completed c.log := by
  have hp : c.inProcess = none := h.phased.none (by rw [hs]; rfl)
  have hc : (books c).Conserved := h.conserved
  simpa [Fifo.Conserved, books, hp, hq] using hc

theorem Serves.conserved {c c' : Conn} (h : Serves c c') (hc : (books c).Conserved) : (books c').Conserved := by
  obtain ⟨as, hr⟩ := h
  exact Fifo.run_conserved hr hc

theorem pass_orderly {a : Answer} {ev : WaitStatus} {c c' : Conn} (hc : Orderly c) (h : Pass a ev c (.goOn c')) :
    Orderly c' := by
  refine ⟨pass_phased hc.phased h, (pass_refines (.inl h)).conserved hc.conserved, ?_⟩
  have hcl := hc.closed
  cases h with
  | @finish k => cases k <;> exact hcl
  | closing hs hq => exact ⟨hc.settled hs hq, hcl⟩
  | connected =>
    rw [connected_log]
    cases c.client <;> exact hcl
  | @rowEnd q r =>
    rw [fetchEnded_log, ← List.cons_append, closedWhenDone_append]
    · exact hcl
    · unfold fetchEndLog
      by_cases he : a.errno = 0 <;> simp [he]
  | @row q r =>
    rw [rowFetched_log, closedWhenDone_append]
    · exact hcl
    · unfold fetchRowLog
      cases q.columNames.isEmpty <;> simp
  | _ => exact hcl

theorem cleaned_closedWhenDone (c : Conn) : ClosedWhenDone (cleaned c).log ↔ ClosedWhenDone c.log := by
  rw [cleaned_log, closedWhenDone_append]
  simp +contextual

theorem pass_rest_orderly {a : Answer} {ev : WaitStatus} {c c' : Conn} (hc : Orderly c) (h : Pass a ev c (.rest c')) :
    Orderly c' := by
  refine ⟨(pass_rested (List.mem_singleton.2 rfl) hc.phased h).2, (pass_refines (.inr h)).conserved hc.conserved, ?_⟩
  have hcl := hc.closed
  cases h with
  | wait =>
    rw [armed_log, closedWhenDone_append]
    · exact hcl
    · exact armLog_forall (by simp) (by simp) _ _
  | closed =>
    have h : ClosedWhenDone (cleaned (c.setReady false)).log := (cleaned_closedWhenDone _).2 hcl
    rw [closed_log]
    cases c.client <;> exact h
  | idle => exact hcl

theorem handleState_orderly {as : List Answer} {ev : WaitStatus} {c c' : Conn} (hc : Orderly c)
    (h : handleState as ev c = .ok c') : Orderly c' :=
  handleState_induct (fun _ _ _ _ => pass_orderly) (fun _ _ _ _ => pass_rest_orderly) hc h

theorem step_orderly {c c' : Conn} {op : Op} (hc : Orderly c) (hop : op.Free c) (h : lts.step c op c') :
    Orderly c' := by
  refine ⟨step_phased hc.phased hop h, (step_refines h).conserved hc.conserved, ?_⟩
  have hcl := hc.closed
  have hrun : ∀ {d : Conn} {as : List Answer} {ev : WaitStatus}, handleState as ev d = .ok c' → Phased d →
      (books d).Conserved → ClosedWhenDone d.log → ClosedWhenDone c'.log :=
    fun hh hp hb hd => (handleState_orderly ⟨hp, hb, hd⟩ hh).closed
  cases lts_stepped h with
  | init | connect | syncRefused | syncConnected | pendingQuery | clientClose | pushed | close | checked => exact hcl
  | @syncClosed op =>
    have h : ClosedWhenDone (cleaned (op.target c)).log := (cleaned_closedWhenDone _).2 hcl
    exact h
  | @kicked op q _ ht hs hp hh =>
    exact hrun hh (phased_of_none hp) ((pushQuery_serves q (op.target c)).conserved hc.conserved) hcl
  | handled ht hh => exact hrun hh hc.phased hc.conserved hcl
  | closeKicked hp hs hh => exact hrun hh (phased_of_none hp) hc.conserved hcl
  | woken ht hf hh => exact hrun hh hc.phased hc.conserved hcl

/-! ## Runs -/

theorem opened_orderly (client : Bool) (errNo : Int) (st : State) (opt : MysqlOptions) :
    Orderly (opened client errNo st opt) := ⟨phased_of_none rfl, rfl, trivial⟩

theorem closedWhenDone_at {l later older : List Ev} (h : ClosedWhenDone l) (hl : l = later ++ .closing :: older) :
    accepted older = completed older := by
  subst hl
  induction later with
  | nil => exact h.1
  | cons e later ih =>
    refine ih ?_
    cases e <;> first | exact h | exact h.2

/-- **Close takes effect.** In a run whose steps all meet `Op.Heeds`, and in which no connect is made over a session
in process, no request to close is overlooked, and whenever the machine starts a close on request every session taken
in before has been completed. -/
theorem close_takes_effect (client : Bool) (errNo : Int) (st : State) (opt : MysqlOptions) (ops : List Op) (c : Conn)
    (h : (lts.restrict fun c op => op.Free c ∧ op.Heeds c).Run (opened client errNo st opt) ops c) :
    ¬ Overlooked c ∧
      ∀ later older : List Ev, c.log = later ++ .closing :: older → accepted older = completed older := by
  have hinv : Orderly c ∧ ¬ Overlooked c := by
    refine h.invariant_restrict (P := fun d => Orderly d ∧ ¬ Overlooked d) ?_
      ⟨opened_orderly client errNo st opt, ?_⟩
    · intro d op d' hd hg hs
      exact ⟨step_orderly hd.1 hg.1 hs, step_heeded hd.1.phased hd.2 hg.2 hs⟩
    · rintro ⟨hsc, -⟩
      simp [opened, Conn.new] at hsc
  exact ⟨hinv.2, fun _ _ hl => closedWhenDone_at hinv.1.closed hl⟩

/-- A close asked for while a query runs is carried out when the query is done. -/
theorem close_takes_effect_run :
    ∃ c, (lts.restrict fun c op => op.Free c ∧ op.Heeds c).Run (opened true 0 .stateNone {})
        [.syncConnect { ret := true }, .startQuery { id := 1, query := [115] } [{}, { status := { read := true } }],
          .close [], .fdWake { read := true } [{}, {}, {}, {}, {}, {}]] c ∧
      ¬ Overlooked c ∧
      ∀ later older : List Ev, c.log = later ++ .closing :: older → accepted older = completed older := by
  have hrun : ∃ c, (lts.restrict fun c op => op.Free c ∧ op.Heeds c).Run (opened true 0 .stateNone {})
      [.syncConnect { ret := true }, .startQuery { id := 1, query := [115] } [{}, { status := { read := true } }],
        .close [], .fdWake { read := true } [{}, {}, {}, {}, {}, {}]] c ∧ .closing ∈ c.log := exists_run (by decide)
  obtain ⟨c, hr, -⟩ := hrun
  exact ⟨c, hr, close_takes_effect true 0 .stateNone {} _ c hr⟩

/-- **`Close` on an idle connection is overlooked.** -/
theorem close_while_idle_overlooked :
    ∃ c, (lts.restrict fun _ _ => True).Run (opened true 0 .stateNone {})
        [.syncConnect { ret := true }, .close []] c ∧ Overlooked c :=
  exists_run (by decide)

/-- So is a failed health check. -/
theorem failed_check_while_idle_overlooked :
    ∃ c, (lts.restrict fun _ _ => True).Run (opened true 0 .stateNone {})
        [.syncConnect { ret := true }, .connectionCheck { err := 1 }] c ∧ Overlooked c :=
  exists_run (by decide)

end LtApp.Mysql
