import LtApp.Base.Fifo
import LtApp.Mysql.Phase

/-!
# Sessions are conserved, first in first out

`books` reads a connection as a first-in first-out server: submitted are the sessions `StartQuery` has
taken in, in service is `in_process_`, waiting is `query_list_`, finished are the sessions `OnQueryDone`
has been called on. `pass_refines` and `step_refines` show that whatever the connection does, the server
does too, so the books of every reachable connection balance (`run_conserved`). What is submitted is what the operations
hand to `StartQuery` (`run_accepted`).
-/

namespace LtApp.Mysql

/-! ## Reading the history -/

def Ev.accepts : Ev → Option Nat
  | .accept q => some q.id
  | _ => none

def Ev.completes : Ev → Option Nat
  | .done q => some q.id
  | _ => none

/-- The sessions taken in by `StartQuery`, oldest first. -/
def accepted (log : List Ev) : List Nat := (log.filterMap Ev.accepts).reverse

/-- The sessions completed, in the order of completion. -/
def completed (log : List Ev) : List Nat := (log.filterMap Ev.completes).reverse

@[simp] theorem accepted_cons (e : Ev) (l : List Ev) : accepted (e :: l) = accepted l ++ e.accepts.toList := by
  cases h : e.accepts <;> simp [accepted, h]

@[simp] theorem completed_cons (e : Ev) (l : List Ev) :
    completed (e :: l) = completed l ++ e.completes.toList := by
  cases h : e.completes <;> simp [completed, h]

@[simp] theorem accepted_append (l m : List Ev) : accepted (l ++ m) = accepted m ++ accepted l := by
  simp [accepted]

@[simp] theorem completed_append (l m : List Ev) : completed (l ++ m) = completed m ++ completed l := by
  simp [completed]

@[simp] theorem accepted_nil : accepted [] = [] := rfl
@[simp] theorem completed_nil : completed [] = [] := rfl

theorem accepted_calls {es : List Ev} (h : ∀ e ∈ es, ∃ l a, e = .call l a) : accepted es = [] := by
  simp only [accepted, List.reverse_eq_nil_iff, List.filterMap_eq_nil_iff]
  intro e he
  obtain ⟨l, a, rfl⟩ := h e he
  rfl

theorem completed_calls {es : List Ev} (h : ∀ e ∈ es, ∃ l a, e = .call l a) : completed es = [] := by
  simp only [completed, List.reverse_eq_nil_iff, List.filterMap_eq_nil_iff]
  intro e he
  obtain ⟨l, a, rfl⟩ := h e he
  rfl

theorem armLog_calls (a : Answer) (st : WaitStatus) (c : Conn) : ∀ e ∈ armLog a st c, ∃ l a, e = .call l a :=
  armLog_forall ⟨_, _, rfl⟩ ⟨_, _, rfl⟩ st c

theorem fetchEndLog_calls (a : Answer) (r : MysqlRes) : ∀ e ∈ fetchEndLog a r, ∃ l a, e = .call l a := by
  unfold fetchEndLog
  by_cases h : a.errno = 0 <;> simp [h]

theorem fetchRowLog_calls (a : Answer) (q : Session) (r : MysqlRes) :
    ∀ e ∈ fetchRowLog a q r, ∃ l a, e = .call l a := by
  unfold fetchRowLog
  cases q.columNames.isEmpty <;> simp

/-! ## The connection as a server -/

/-- The books a connection keeps. -/
def books (c : Conn) : Fifo Nat where
  submitted := accepted c.log
  finished := completed c.log
  serving := c.inProcess.map (·.id)
  waiting := c.queryList.map (·.id)

theorem books_eq {c c' : Conn} (ha : accepted c'.log = accepted c.log) (hd : completed c'.log = completed c.log)
    (hp : c'.inProcess.map (·.id) = c.inProcess.map (·.id)) (hq : c'.queryList = c.queryList) :
    books c' = books c := by simp [books, ha, hd, hp, hq]

/-- The server has done something, or nothing. -/
def Serves (c c' : Conn) : Prop := ∃ as, (Fifo.lts Nat).Run (books c) as (books c')

theorem Serves.refl {c c' : Conn} (h : books c' = books c) : Serves c c' := ⟨[], h ▸ .nil _⟩

theorem Serves.trans {c d e : Conn} (h : Serves c d) (h' : Serves d e) : Serves c e := by
  obtain ⟨as, h1⟩ := h
  obtain ⟨bs, h2⟩ := h'
  exact ⟨as ++ bs, h1.append h2⟩

theorem Serves.finish {c c' : Conn} {q : Session} (hp : c.inProcess = some q) (hp' : c'.inProcess = none)
    (hq : c'.queryList = c.queryList) (ha : accepted c'.log = accepted c.log)
    (hd : completed c'.log = completed c.log ++ [q.id]) : Serves c c' := by
  have hs : (books c).serving = some q.id := by simp [books, hp]
  have hb : books c' = { books c with serving := none, finished := (books c).finished ++ [q.id] } := by
    simp [books, ha, hd, hp', hq]
  exact ⟨[.finish], hb ▸ .single (.finish hs)⟩

theorem cleaned_serves (c : Conn) : Serves c (cleaned c) := by
  -- first `in_process_`, then the queue in order
  have hlist : ∀ qs : List Session,
      accepted ((qs.map fun q => Ev.done (q.setCode (-1) "closed")).reverse) = [] ∧
      completed ((qs.map fun q => Ev.done (q.setCode (-1) "closed")).reverse) = qs.map (·.id) := by
    intro qs
    induction qs with
    | nil => simp
    | cons q qs ih => simp [ih, Ev.accepts, Ev.completes]
  have hdrain : ∀ d : Conn, d.inProcess = none → ∀ d' : Conn, d'.inProcess = none → d'.queryList = [] →
      accepted d'.log = accepted d.log → completed d'.log = completed d.log ++ d.queryList.map (·.id) →
      Serves d d' := by
    intro d hd d' hd' hq' ha hc
    obtain ⟨as, hr⟩ := Fifo.run_drain (books d).waiting (books d) (by simp [books, hd]) rfl
    refine ⟨as, ?_⟩
    have hb : books d' = { books d with finished := (books d).finished ++ (books d).waiting, waiting := [] } := by
      simp [books, ha, hc, hd, hd', hq']
    exact hb ▸ hr
  obtain ⟨h1, h2⟩ := hlist (unfinished c)
  cases hp : c.inProcess with
  | none =>
    have hu : unfinished c = c.queryList := by simp [unfinished, hp]
    refine hdrain c hp _ rfl rfl ?_ ?_
    · rw [cleaned_log, accepted_append, h1, List.append_nil]
    · rw [cleaned_log, completed_append, h2, hu]
  | some q =>
    have hu : unfinished c = q :: c.queryList := by simp [unfinished, hp]
    have hf : Serves c (retire q c) := .finish hp rfl rfl (by simp [Ev.accepts]) (by simp [Ev.completes])
    refine hf.trans (hdrain _ rfl _ rfl rfl ?_ ?_)
    · rw [cleaned_log, accepted_append, h1]; simp [Ev.accepts]
    · rw [cleaned_log, completed_append, h2, hu]; simp [Ev.completes]

theorem serves_frame {c d c' d' : Conn} (h : Serves c c') (hc : books d = books c) (hc' : books d' = books c') :
    Serves d d' := by
  obtain ⟨as, hr⟩ := h
  exact ⟨as, hc ▸ hc' ▸ hr⟩

/-- **Each pass is something the server can do.** -/
theorem pass_refines {a : Answer} {ev : WaitStatus} {c c' : Conn}
    (h : Pass a ev c (.goOn c') ∨ Pass a ev c (.rest c')) : Serves c c' := by
  rcases h with h | h
  · cases h with
    | @finish k l hi hr hz =>
      cases k <;> exact .refl (books_eq (by simp [Kind.store, Ev.accepts]) (by simp [Kind.store, Ev.completes]) rfl rfl)
    | fail hi hr hp =>
      exact .finish hp rfl rfl (by simp [Ev.accepts]) (by simp [Ev.completes])
    | refused | closing | selected | gotResult =>
      exact .refl (books_eq (by simp [Ev.accepts]) (by simp [Ev.completes]) rfl rfl)
    | connected hs hr =>
      refine .refl (books_eq ?_ ?_ rfl rfl) <;> cases hcl : c.client <;> simp [hcl, Ev.accepts, Ev.completes]
    | @take q w hs hq hp =>
      have h1 : (books c).serving = none := by simp [books, hp]
      have h2 : (books c).waiting = q.id :: w.map (·.id) := by simp [books, hq]
      exact ⟨[.take], .single (.take h1 h2)⟩
    | switched hs hp | emptyQuery hs hp | noResult hs hp =>
      exact .finish hp rfl rfl (by simp [Ev.accepts]) (by simp [Ev.completes])
    | rowEnd hs hp =>
      refine .finish hp rfl rfl ?_ ?_
      · simp [Ev.accepts, accepted_calls (fetchEndLog_calls _ _)]
      · simp [Ev.completes, completed_calls (fetchEndLog_calls _ _)]
    | row hs hp =>
      refine .refl (books_eq ?_ ?_ (by simp [hp]) rfl)
      · simp [accepted_calls (fetchRowLog_calls _ _ _)]
      · simp [completed_calls (fetchRowLog_calls _ _ _)]
  · cases h with
    | wait hi hr hz =>
      refine .refl (books_eq ?_ ?_ rfl rfl)
      · simp [accepted_calls (armLog_calls _ _ _), Ev.accepts]
      · simp [completed_calls (armLog_calls _ _ _), Ev.completes]
    | closed hs =>
      refine serves_frame (cleaned_serves (c.setReady false)) ?_ ?_
      · exact books_eq (by simp [Ev.accepts]) (by simp [Ev.completes]) rfl rfl
      · refine books_eq ?_ ?_ rfl rfl <;> cases hcl : c.client <;> simp [hcl, Ev.accepts, Ev.completes]
    | idle => exact .refl rfl

theorem handleState_refines {as : List Answer} {ev : WaitStatus} {c c' : Conn} (h : handleState as ev c = .ok c') :
    Serves c c' :=
  handleState_induct (P := Serves c) (Q := Serves c) (fun _ _ _ _ hc hp => hc.trans (pass_refines (.inl hp)))
    (fun _ _ _ _ hc hp => hc.trans (pass_refines (.inr hp))) (.refl rfl) h

theorem pushQuery_serves (q : Session) (c : Conn) : Serves c (pushQuery q c) := by
  have hb : books (pushQuery q c) =
      { books c with submitted := (books c).submitted ++ [q.id], waiting := (books c).waiting ++ [q.id] } := by
    simp [books, Ev.accepts, Ev.completes]
  exact ⟨[.submit q.id], hb ▸ .single (.submit _ _)⟩

/-- **Each step of the connection is a run of the server.** -/
theorem step_refines {c c' : Conn} {op : Op} (h : lts.step c op c') : Serves c c' := by
  have htarget : ∀ op : Op, books (op.target c) = books c := fun _ => rfl
  cases lts_stepped h with
  | init | connect | syncRefused | syncConnected | pendingQuery | clientClose | close | checked =>
    exact .refl (books_eq (by simp [Ev.accepts]) (by simp [Ev.completes]) rfl rfl)
  | pushed => exact serves_frame (pushQuery_serves _ (op.target c)) (htarget op).symm rfl
  | kicked ht hs hp hh =>
    exact serves_frame ((pushQuery_serves _ (op.target c)).trans (handleState_refines hh)) (htarget op).symm rfl
  | handled ht hh => exact serves_frame (handleState_refines hh) (htarget op).symm rfl
  | syncClosed ht =>
    refine serves_frame (cleaned_serves (op.target c)) (htarget op).symm ?_
    exact books_eq (by simp [Ev.accepts]) (by simp [Ev.completes]) rfl rfl
  | closeKicked hp hs hh => exact serves_frame (handleState_refines hh) rfl rfl
  | woken ht hf hh => exact serves_frame (handleState_refines hh) rfl rfl

/-- The connection refines the server: a run of the one is matched by a run of the other. -/
theorem run_refines {c c' : Conn} {ops : List Op} (h : lts.Run c ops c') :
    ∃ as, (Fifo.lts Nat).Run (books c) as (books c') := by
  obtain ⟨as, t, hr, rfl⟩ := h.refines (N := Fifo.lts Nat) (R := fun c t => books c = t)
    (fun s _ s' t hR hs => by
      obtain ⟨bs, hb⟩ := step_refines hs
      exact ⟨bs, _, hR ▸ hb, rfl⟩) (books c) rfl
  exact ⟨as, hr⟩

/-! ## What the operations hand in -/

theorem accepted_of_fromOp {es : List Ev} (h : ∀ e ∈ es, e.fromOp = false) : accepted es = [] := by
  simp only [accepted, List.reverse_eq_nil_iff, List.filterMap_eq_nil_iff]
  intro e he
  have hf := h e he
  cases e with
  | accept q => cases hf
  | _ => rfl

theorem handleState_accepted {as : List Answer} {ev : WaitStatus} {c c' : Conn} (h : handleState as ev c = .ok c') :
    accepted c'.log = accepted c.log := by
  obtain ⟨es, hl, hes⟩ := handleState_appends h
  rw [hl, accepted_append, accepted_of_fromOp hes, List.append_nil]

/-- The session an operation hands to `StartQuery`. -/
def Op.submits (c : Conn) (op : Op) : Option Nat :=
  match op.task c with
  | some (.startQuery q) => some q.id
  | _ => none

theorem Op.submits_startQuery {c : Conn} {op : Op} {q : Session} (h : op.task c = some (.startQuery q)) :
    op.submits c = some q.id := by simp [Op.submits, h]

theorem Op.submits_other {c : Conn} {op : Op} {t : Task} (h : op.task c = some t) (ht : ∀ q, t ≠ .startQuery q) :
    op.submits c = none := by
  cases t with
  | startQuery q => exact absurd rfl (ht q)
  | _ => simp [Op.submits, h]

/-- A step takes in the session it hands to `StartQuery`, and no other. -/
theorem step_accepted {c c' : Conn} {op : Op} (h : lts.step c op c') :
    accepted c'.log = accepted c.log ++ (op.submits c).toList := by
  cases lts_stepped h with
  | init | connect | syncRefused | syncConnected | pendingQuery | clientClose | close | checked =>
    simp [Op.submits, Op.task, Ev.accepts]
  | pushed ht => simp [Op.submits_startQuery ht, Ev.accepts]
  | kicked ht hs hp hh => simp [handleState_accepted hh, Op.submits_startQuery ht, Ev.accepts]
  | handled ht hh =>
    rw [handleState_accepted hh, Op.submits_other ht (by simp)]
    simp
  | syncClosed ht =>
    rw [Op.submits_other ht (by simp)]
    have hdone : accepted (((unfinished (op.target c)).map fun q => Ev.done (q.setCode (-1) "closed")).reverse) = [] :=
      accepted_of_fromOp (by simp +contextual [Ev.fromOp])
    simp [Ev.accepts, hdone]
  | closeKicked hp hs hh =>
    rw [handleState_accepted hh]
    simp [Op.submits, Op.task]
  | woken hw hf hh =>
    rw [handleState_accepted hh]
    simp [Op.submits, Op.task_of_wakes hw]

/-- The sessions the operations of a run hand to `StartQuery`, one after the other. -/
def handedIn : List Op → Conn → List Nat
  | [], _ => []
  | op :: ops, c =>
    (op.submits c).toList ++ match step c op with
      | .ok d => handedIn ops d
      | .error _ => []

theorem handedIn_cons {c d : Conn} {op : Op} (ops : List Op) (h : lts.step c op d) :
    handedIn (op :: ops) c = (op.submits c).toList ++ handedIn ops d := by
  have hstep : step c op = .ok d := h.2
  simp only [handedIn, hstep]

/-- A run takes in what its operations hand in. -/
theorem run_accepted {c c' : Conn} {ops : List Op} (h : lts.Run c ops c') :
    accepted c'.log = accepted c.log ++ handedIn ops c := by
  induction h with
  | nil => simp [handedIn]
  | cons hst _ ih => rw [ih, step_accepted hst, handedIn_cons _ hst, List.append_assoc]

/-! ## Every run -/

theorem opened_conserved (client : Bool) (errNo : Int) (st : State) (opt : MysqlOptions) :
    (books (opened client errNo st opt)).Conserved := rfl

/-- **Session conservation and FIFO.** In every state a run reaches, and whatever the library answers, the
sessions taken in are those the operations have handed to `StartQuery`, and they are the ones completed, in the order of
completion, then `in_process_`, then `query_list_`. No session is completed twice if none is submitted twice, and a
session not completed yet is still held. -/
theorem sessions_conserved (client : Bool) (errNo : Int) (st : State) (opt : MysqlOptions) (ops : List Op)
    (c : Conn) (h : lts.Run (opened client errNo st opt) ops c) :
    accepted c.log = handedIn ops (opened client errNo st opt) ∧
    accepted c.log = completed c.log ++ (c.inProcess.map (·.id)).toList ++ c.queryList.map (·.id) ∧
    completed c.log <+: accepted c.log ∧
    ((accepted c.log).Nodup → (completed c.log).Nodup) ∧
    (∀ i ∈ accepted c.log, i ∈ completed c.log ∨ c.inProcess.map (·.id) = some i ∨ i ∈ c.queryList.map (·.id)) := by
  obtain ⟨as, hr⟩ := run_refines h
  have hc : (books c).Conserved := Fifo.run_conserved hr (opened_conserved client errNo st opt)
  exact ⟨run_accepted h, hc, hc.finished_prefix, hc.nodup_finished, fun i hi => hc.mem hi⟩

/-- A query in process and one in the queue are both completed by a close. -/
theorem sessions_conserved_run :
    ∃ c, lts.Run (opened true 0 .stateNone {})
        [.syncConnect { ret := true }, .startQuery { id := 1, query := [115] } [{}, { status := { read := true } }],
          .startQuery { id := 2 } [], .syncClose] c ∧
      accepted c.log = [1, 2] ∧
      accepted c.log = completed c.log ++ (c.inProcess.map (·.id)).toList ++ c.queryList.map (·.id) ∧
      completed c.log <+: accepted c.log ∧
      ((accepted c.log).Nodup → (completed c.log).Nodup) ∧
      (∀ i ∈ accepted c.log, i ∈ completed c.log ∨ c.inProcess.map (·.id) = some i ∨ i ∈ c.queryList.map (·.id)) := by
  have hrun : ∃ c, (lts.restrict fun _ _ => True).Run (opened true 0 .stateNone {})
      [.syncConnect { ret := true }, .startQuery { id := 1, query := [115] } [{}, { status := { read := true } }],
        .startQuery { id := 2 } [], .syncClose] c ∧ completed c.log = [1, 2] := exists_run (by decide)
  obtain ⟨c, hr, -⟩ := hrun
  obtain ⟨haccepted, hrest⟩ := sessions_conserved true 0 .stateNone {} _ c hr.of_restrict
  exact ⟨c, hr.of_restrict, haccepted.trans (by decide), hrest⟩

end LtApp.Mysql
