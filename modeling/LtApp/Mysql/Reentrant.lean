import LtApp.Base.Monitor
import LtApp.Mysql.Callback

/-!
# Calling the connection back from a finish callback

A callback is invoked while the connection stands in the middle of `DoneCurrentQuery` or `clean_up`. `StartQuery` and
`Close` find it busy there and only leave a note (`Quiet`). `SyncClose` does not look: it runs `clean_up` on a session
whose callback is not cleared yet, and the handler it has interrupted goes on where it was.

`Safe` is what one may expect of both; `reentrant_safe` proves it of the runs in which no callback calls `SyncClose`, and
no `StartQuery` is called while `SyncClose` empties the queue of a connection in `CONNECTION_IDLE`.
-/

namespace LtApp.Mysql

/-! ## What is expected -/

/-- The sessions whose finish callback has been invoked, newest first. -/
def invocations (trail : List Mark) : List Nat :=
  trail.filterMap fun
    | .invoke id => some id
    | _ => none

/-- A `SyncClose` called by a callback has returned: until the operation is over, `HandleState` makes no call of
libmysql and assigns no state but `CLOSE_DONE`. -/
def staysClosed : Monitor Mark Bool where
  init := false
  next
    | _, .closed => true
    | _, .finished => false
    | b, _ => b
  Allows b
    | .call => b = false
    | .assign s => b = true → s = .closeDone
    | _ => True

structure Safe (r : Rig) : Prop where
  once   : (invocations r.trail).Nodup
  closed : staysClosed.Accepts r.trail

/-! ## Calls that leave a note -/

/-- `StartQuery` does not run `HandleState`. -/
def Rig.Busy (r : Rig) : Prop := r.conn.inProcess ≠ none ∨ r.conn.currentState ≠ .connectionIdle

/-- The session a call submits. -/
def Act.pushes : Act → List Session
  | .startQuery q => [q]
  | .close | .syncClose => []

/-- The callback calls no `StartQuery`. -/
def Still (l : List Act) : Prop := ∀ q, Act.startQuery q ∉ l

instance (l : List Act) : Decidable (Still l) :=
  decidable_of_iff (∀ x ∈ l, ∀ q ∈ x.pushes, False) (by
    unfold Still
    constructor
    · exact fun h q hq => h _ hq q (by simp [Act.pushes])
    · rintro h (q | _ | _) hx q' hq' <;> simp_all [Act.pushes])

/-- A callback has pushed sessions and set `schedule_close_` at most. -/
structure Quiet (r r' : Rig) : Prop where
  rest      : r' = { r with conn := r'.conn }
  state     : r'.conn.currentState = r.conn.currentState
  inProcess : r'.conn.inProcess = r.conn.inProcess

namespace Quiet

variable {r r₁ r' : Rig}

theorem refl (r : Rig) : Quiet r r := ⟨rfl, rfl, rfl⟩

theorem trans (h : Quiet r r₁) (h' : Quiet r₁ r') : Quiet r r' :=
  ⟨by rw [h'.rest, h.rest], h'.state.trans h.state, h'.inProcess.trans h.inProcess⟩

theorem busy (h : Quiet r r') (hb : r.Busy) : r'.Busy := by
  unfold Rig.Busy
  rw [h.state, h.inProcess]
  exact hb

end Quiet

/-- `HandleState` entered in `QUERY_START` with nothing in process dies. -/
theorem Returns.not_queryStart {r r' : Rig} {ev : WaitStatus} (hs : r.conn.currentState = .queryStart)
    (hp : r.conn.inProcess = none) : ¬ Returns (.handleState ev) r r' := by
  intro h
  cases h with
  | passed _ _ _ hc _ => simp [handleStatePass, hs, hp] at hc
  | rested _ _ _ hc => simp [handleStatePass, hs, hp] at hc
  | completed _ _ hc _ _ => simp [completing, hs, hp] at hc
  | closeDone _ hd _ => rw [hs] at hd; cases hd

/-- What is shown of a callback and of the calls it makes. -/
def LeavesNote (r r' : Rig) : Job → Prop
  | .callback l => .syncClose ∉ l → r.Busy ∨ Still l → Quiet r r'
  | .act x => x ≠ .syncClose → r.Busy ∨ Still [x] → Quiet r r'
  | _ => True

/-- **A callback that calls no `SyncClose` leaves a note**, if its calls of `StartQuery` find the connection busy. -/
theorem Returns.leavesNote {j : Job} {r r' : Rig} (h : Returns j r r') : LeavesNote r r' j := by
  induction h with
  | passed | rested | completed | closeDone | silent | invoked | cleanedIdle | cleaned | flushed | flush => trivial
  | pushed => exact fun _ _ => ⟨rfl, rfl, rfl⟩
  | kicked hs hp _ _ =>
    rintro - (hb | hb)
    · exact (hb.elim (· hp) (· hs)).elim
    · exact (hb _ (List.mem_singleton.2 rfl)).elim
  | noted => exact fun _ _ => ⟨rfl, rfl, rfl⟩
  | closeKicked hp hs h _ =>
    refine (Returns.not_queryStart ?_ ?_ h).elim
    · exact hs
    · exact hp
  | syncClosed => exact fun hx => (hx rfl).elim
  | nil r => exact fun _ _ => .refl r
  | @cons r r₁ r' x l _ _ ih ih' =>
    intro hl hb
    simp only [List.mem_cons, not_or] at hl
    have hx : x ≠ .syncClose := fun hx => hl.1 hx.symm
    have h1 : Quiet r r₁ := ih hx (hb.imp_right fun hs q hq => hs q (by simp_all))
    have hr : r₁.returned x = r₁ := by cases x <;> first | rfl | exact (hx rfl).elim
    rw [hr] at ih'
    exact h1.trans (ih' hl.2 (hb.imp h1.busy fun hs q hq => hs q (by simp [hq])))

/-! ## One invocation each -/

/-- Every session whose callback has been invoked has its callback cleared, and no callback has called `SyncClose`. -/
structure Once (r : Rig) : Prop where
  nodup   : (invocations r.trail).Nodup
  cleared : ∀ id ∈ invocations r.trail, id ∈ r.cleared
  kept    : Mark.closed ∉ r.trail

/-- No callback still to come calls `SyncClose`. -/
def Modest (scripts : List (List Act)) : Prop := ∀ l ∈ scripts, Act.syncClose ∉ l

/-- No callback still to come calls `StartQuery`. -/
def AllStill (scripts : List (List Act)) : Prop := ∀ l ∈ scripts, Still l

instance (scripts : List (List Act)) : Decidable (Modest scripts) := by unfold Modest; infer_instance

instance (scripts : List (List Act)) : Decidable (AllStill scripts) := by unfold AllStill; infer_instance

theorem Modest.suffix {ls ls' : List (List Act)} (h : Modest ls) (hs : ls' <:+ ls) : Modest ls' :=
  fun l hl => h l (hs.subset hl)

theorem AllStill.suffix {ls ls' : List (List Act)} (h : AllStill ls) (hs : ls' <:+ ls) : AllStill ls' :=
  fun l hl => h l (hs.subset hl)

namespace Once

variable {r r' : Rig}

/-- What is recorded of `HandleState` invokes nothing. -/
theorem of_trail (h : Once r) (es : List Mark) (ht : r'.trail = es ++ r.trail) (hi : invocations es = [])
    (hc : Mark.closed ∉ es) (hcl : r'.cleared = r.cleared) : Once r' := by
  have he : invocations r'.trail = invocations r.trail := by
    rw [ht]
    unfold invocations at hi ⊢
    rw [List.filterMap_append, hi, List.nil_append]
  refine ⟨he ▸ h.nodup, ?_, ?_⟩
  · rw [he, hcl]; exact h.cleared
  · rw [ht, List.mem_append]
    exact fun hm => hm.elim hc h.kept

theorem of_eq (h : Once r) (ht : r'.trail = r.trail) (hc : r'.cleared = r.cleared) : Once r' :=
  h.of_trail [] (by simpa using ht) rfl (by simp) hc

theorem on (h : Once r) (f : Conn → Conn) : Once (r.on f) := h.of_eq rfl rfl

theorem feed (h : Once r) (as : List Answer) : Once (r.feed as) := h.of_eq rfl rfl

theorem assigned (h : Once r) : Once r.assigned :=
  h.of_trail [.assign r.conn.currentState] rfl rfl (by simp) rfl

theorem pass (h : Once r) (c : Conn) : Once (r.pass c) := by
  by_cases hc : Rig.calls r.conn.log < Rig.calls c.log
  · exact h.of_trail [.call] (by simp [hc]) rfl (by simp) rfl
  · exact h.of_eq (by simp [hc]) rfl

/-- The callback of a session is invoked and then cleared. -/
theorem invoke {q : Session} (h : Once r) (hp : r.pending q) (ht : r'.trail = .invoke q.id :: r.trail)
    (hc : r'.cleared = q.id :: r.cleared) : Once r' := by
  have he : invocations r'.trail = q.id :: invocations r.trail := by rw [ht]; rfl
  refine ⟨?_, ?_, ?_⟩
  · rw [he]
    exact List.nodup_cons.2 ⟨fun hm => hp.2 (h.cleared _ hm), h.nodup⟩
  · rw [he, hc]
    intro id hid
    rcases List.mem_cons.1 hid with rfl | hid
    · exact List.mem_cons_self
    · exact List.mem_cons_of_mem _ (h.cleared id hid)
  · rw [ht]
    exact fun hm => h.kept (by simpa using hm)

end Once

/-- `OnQueryDone` has returned: it has run the next callback if the session had one. -/
structure Notified (q : Session) (r r' : Rig) : Prop where
  once      : Once r → Once r'
  state     : r'.conn.currentState = r.conn.currentState
  inProcess : r'.conn.inProcess = r.conn.inProcess
  scripts   : r'.scripts = if r.pending q then r.scripts.tail else r.scripts

theorem Notified.suffix {q : Session} {r r' : Rig} (h : Notified q r r') : r'.scripts <:+ r.scripts := by
  rw [h.scripts]
  split
  · exact List.tail_suffix r.scripts
  · exact List.suffix_rfl

theorem Returns.notified {r r' : Rig} {q : Session} (h : Returns (.onQueryDone q) r r') (hm : Modest r.scripts)
    (hb : r.Busy ∨ AllStill r.scripts) : Notified q r r' := by
  cases h with
  | silent hp => exact ⟨fun h => h.of_eq rfl rfl, rfl, rfl, (if_neg hp).symm⟩
  | @invoked r r₁ q l ls hp hl h =>
    have hq : Quiet _ r₁ := h.leavesNote (hm l (by simp [hl])) (hb.imp_right fun hs => hs l (by simp [hl]))
    refine ⟨fun ho => ho.invoke hp ?_ ?_, hq.state, hq.inProcess, ?_⟩
    · rw [hq.rest]; rfl
    · rw [hq.rest]; rfl
    · rw [if_pos hp, hq.rest, hl]; rfl

/-- What the callbacks of the queue call when `clean_up` runs: that of the session in process comes first. -/
def Rig.queueScripts (r : Rig) : List (List Act) :=
  match r.conn.inProcess with
  | some q => if r.pending q then r.scripts.tail else r.scripts
  | none => r.scripts

/-- In `CONNECTION_IDLE`, `clean_up` is no place for `StartQuery`: the loop over the queue would run `HandleState`. -/
def Rig.Closable (r : Rig) : Prop := r.conn.currentState = .connectionIdle → AllStill r.queueScripts

instance (r : Rig) : Decidable r.Closable := by unfold Rig.Closable; infer_instance

/-- What is assumed of the state a function is called in. -/
def Entered (r : Rig) : Job → Prop
  | .handleState _ | .act (.startQuery _) | .act .close => True
  | .act .syncClose | .cleanUp => r.Closable
  | .flush _ => r.conn.currentState = .connectionIdle → AllStill r.scripts
  | .onQueryDone _ | .callback _ => False

/-- **No function invokes a callback twice**, if the callbacks it runs call no `SyncClose`. -/
theorem Returns.once {j : Job} {r r' : Rig} (h : Returns j r r') (hm : Modest r.scripts) (he : Entered r j)
    (ho : Once r) : Once r' ∧ r'.scripts <:+ r.scripts := by
  induction h with
  | passed _ _ _ _ _ ih => exact ih hm trivial ((ho.feed _).pass _).assigned
  | rested => exact ⟨((ho.feed _).pass _).assigned, List.suffix_rfl⟩
  | completed _ _ hc hd _ _ ih =>
    have hn := hd.notified hm (.inl (.inl (by simp [(completing_spec hc).1])))
    obtain ⟨ho', hs⟩ := ih (hm.suffix hn.suffix) trivial ((hn.once ((ho.feed _).pass _)).on _).assigned
    exact ⟨ho', hs.trans hn.suffix⟩
  | closeDone _ hs _ ih =>
    have hcl : ¬ State.closeDone = State.connectionIdle := by decide
    obtain ⟨ho', hs'⟩ := ih hm (fun hi => (hcl (hs ▸ hi)).elim) ((ho.feed _).on _)
    exact ⟨(ho'.on _).assigned, hs'⟩
  | pushed => exact ⟨ho.on _, List.suffix_rfl⟩
  | kicked _ _ _ ih => exact ih hm trivial (ho.on _)
  | noted => exact ⟨ho.on _, List.suffix_rfl⟩
  | closeKicked _ _ _ ih => exact ih hm trivial (ho.on _)
  | syncClosed _ ih =>
    obtain ⟨ho', hs⟩ := ih hm he ho
    exact ⟨ho'.on _, hs⟩
  | silent | invoked | nil | cons => exact he.elim
  | cleanedIdle hp _ ih => exact ih hm (fun hi => by simpa [Rig.queueScripts, hp] using he hi) (ho.on _)
  | @cleaned r r₁ r' q hp hd _ _ ih =>
    have hn := hd.notified hm (.inl (.inl (by simp)))
    have hst : r₁.conn.currentState = .connectionIdle → AllStill r₁.scripts := by
      intro hi
      have hq : AllStill r.queueScripts := he (hn.state ▸ hi)
      simp only [Rig.queueScripts, hp] at hq
      exact hn.scripts ▸ hq
    obtain ⟨ho', hs⟩ := ih (hm.suffix hn.suffix) hst ((hn.once (ho.on _)).on _)
    exact ⟨ho', hs.trans hn.suffix⟩
  | flushed => exact ⟨ho.of_eq rfl rfl, List.suffix_rfl⟩
  | @flush r r₁ r' i q hq hd hi _ _ ih =>
    have hb : r.Busy ∨ AllStill r.scripts := by
      by_cases hs : r.conn.currentState = .connectionIdle
      · exact .inr (he hs)
      · exact .inl (.inr hs)
    have hn := hd.notified hm hb
    obtain ⟨ho', hs⟩ := ih (hm.suffix hn.suffix) (fun hi => (he (hn.state ▸ hi)).suffix hn.suffix)
      (hn.once (ho.on _))
    exact ⟨ho', hs.trans hn.suffix⟩

/-! ## Runs -/

/-- No callback the operation invokes calls `SyncClose`; where it is a `SyncClose` on a connection in
`CONNECTION_IDLE`, no callback of the queue calls `StartQuery`. -/
structure Move.Harmless (r : Rig) (m : Move) : Prop where
  modest   : Modest m.scripts
  closable : m.op.job r.conn = some (.act .syncClose) → (r.begun m).Closable

instance (r : Rig) (m : Move) : Decidable (m.Harmless r) :=
  decidable_of_iff (Modest m.scripts ∧ (m.op.job r.conn = some (.act .syncClose) → (r.begun m).Closable))
    ⟨fun h => ⟨h.1, h.2⟩, fun h => ⟨h.1, h.2⟩⟩

theorem Op.job_cases {c : Conn} {op : Op} {j : Job} (h : op.job c = some j) :
    (∃ ev, j = .handleState ev) ∨ ∃ x, j = .act x := by
  cases op <;> simp only [Op.job, Option.some.injEq, reduceCtorEq] at h
  case runTask i as =>
    obtain ⟨t, -, rfl⟩ := Option.map_eq_some_iff.1 h
    cases t with
    | handleState => exact .inl ⟨_, rfl⟩
    | startQuery | syncClose => exact .inr ⟨_, rfl⟩
  case fdWake | timerWake => exact .inl ⟨_, h.symm⟩
  all_goals exact .inr ⟨_, h.symm⟩

theorem Op.job_entered {c : Conn} {op : Op} {j : Job} (h : op.job c = some j) {r : Rig}
    (hc : j = .act .syncClose → r.Closable) : Entered r j := by
  rcases Op.job_cases h with ⟨ev, rfl⟩ | ⟨x, rfl⟩
  · trivial
  · cases x with
    | startQuery | close => trivial
    | syncClose => exact hc rfl

/-- A call made by the loop's thread leaves the events alone. -/
theorem Op.entry_of_act {c d : Conn} {op : Op} {x : Act} (hj : op.job c = some (.act x)) (hd : op.entry c = .ok d) :
    d = op.target c := by
  have hw : op.wakes = false := by
    cases op <;> first | rfl | cases hj
  unfold Op.entry at hd
  rw [hw] at hd
  exact (Except.ok.inj hd).symm

theorem step_once {r r' : Rig} {m : Move} (h : rigged.step r m r') (hm : m.Harmless r) (ho : Once r) : Once r' := by
  obtain ⟨n, h⟩ := h
  obtain ⟨-, d, hd, -, rfl⟩ := moved_operated h
  have ho' : Once (r.begun m) := ho.of_eq rfl rfl
  have hd' : Once d := by
    cases hd with
    | other => exact ho'.on _
    | @called j c _ hj hc h =>
      refine (h.once hm.modest (Op.job_entered hj ?_) (ho'.on _)).1
      rintro rfl
      obtain rfl := Op.entry_of_act hj hc
      exact hm.closable hj
  exact hd'.of_trail [.finished] rfl rfl (by simp) rfl

/-- Where no callback has called `SyncClose`, there is nothing to watch. -/
theorem stands_of_kept {t : List Mark} (h : Mark.closed ∉ t) : staysClosed.Stands t false := by
  induction t with
  | nil => exact Monitor.stands_nil
  | cons e t ih =>
    simp only [List.mem_cons, not_or] at h
    refine (ih h.2).ignore ?_
    cases e <;> simp_all [Monitor.Ignores, staysClosed]

theorem Once.safe {r : Rig} (h : Once r) : Safe r := ⟨h.nodup, (stands_of_kept h.kept).accepts⟩

/-- **Callbacks that call back are safe**, in the runs whose steps are harmless: every callback is invoked at most once,
and nothing is done to a connection a callback has closed. -/
theorem reentrant_safe {client : Bool} {errNo : Int} {st : State} {opt : MysqlOptions} {ms : List Move} {r : Rig}
    (h : (rigged.restrict fun r m => m.Harmless r).Run (.opened client errNo st opt) ms r) : Safe r := by
  have ho : Once (.opened client errNo st opt) := ⟨List.nodup_nil, by simp [Rig.opened, invocations], by simp [Rig.opened]⟩
  exact (h.invariant_restrict (fun _ _ _ ho hm hs => step_once hs hm ho) ho).safe

theorem rigged_of_moved (r : Rig) (m : Move) (r' : Rig) (h : moved 20 r m = some r') : rigged.step r m r' := ⟨20, h⟩

/-- The condition is met where one callback submits another session and that of the other closes the connection. -/
theorem reentrant_safe_run :
    ∃ r, (rigged.restrict fun r m => m.Harmless r).Run (.opened true 0 .stateNone {})
        [{ op := .syncConnect { ret := true } },
          { op := .startQuery { id := 1, query := [115] } [{}, { err := 1064 }, {}, { err := 1064 }, {}, {}, {}]
            scripts := [[.startQuery { id := 2, query := [115] }], [.close]] }] r ∧
      invocations r.trail = [2, 1] ∧ Safe r := by
  exact Lts.exists_restrict_run_of_exec (P := fun r : Rig => invocations r.trail = [2, 1]) rigged_of_moved (by decide)
    fun r hr hi => ⟨hi, reentrant_safe hr⟩

/-- **A callback that calls `SyncClose`** is invoked again by the `clean_up` it runs, and `HandleState`, which had called
it, goes on and puts the closed connection back to `CONNECTION_IDLE`. -/
theorem closed_by_callback :
    ∃ r, rigged.Run (.opened true 0 .stateNone {})
        [{ op := .syncConnect { ret := true } },
          { op := .startQuery { id := 1, query := [115] } [{}, { err := 1064 }, {}], scripts := [[.syncClose], []] }] r ∧
      r.conn.currentState = .connectionIdle ∧ invocations r.trail = [1, 1] ∧ ¬ Safe r := by
  refine Lts.exists_run_of_exec_imp (P := fun r : Rig => r.conn.currentState = .connectionIdle ∧
    invocations r.trail = [1, 1]) rigged_of_moved (by decide) ?_
  rintro r - ⟨hs, hi⟩
  exact ⟨hs, hi, fun h => by simpa [hi] using h.once⟩

/-! ## A `SyncClose` in a callback is never safe -/

/-- What every function leaves behind: nothing of the record is lost, no node comes back from the free store. -/
structure Grows (r r' : Rig) : Prop where
  trail   : r.trail <:+ r'.trail
  scripts : r'.scripts <:+ r.scripts
  freed   : r.freed ≤ r'.freed
  nodes   : r.freed + r.conn.queryList.length ≤ r'.freed + r'.conn.queryList.length

namespace Grows

variable {r r₁ r' : Rig}

theorem refl (r : Rig) : Grows r r := ⟨List.suffix_rfl, List.suffix_rfl, Nat.le_refl _, Nat.le_refl _⟩

theorem trans (h : Grows r r₁) (h' : Grows r₁ r') : Grows r r' :=
  ⟨h.trail.trans h'.trail, h'.scripts.trans h.scripts, Nat.le_trans h.freed h'.freed,
    Nat.le_trans h.nodes h'.nodes⟩

theorem on {f : Conn → Conn} (hf : r.conn.queryList.length ≤ (f r.conn).queryList.length) : Grows r (r.on f) :=
  ⟨List.suffix_rfl, List.suffix_rfl, Nat.le_refl _, Nat.add_le_add_left hf _⟩

theorem feed (as : List Answer) (r : Rig) : Grows r (r.feed as) :=
  ⟨List.suffix_rfl, List.suffix_rfl, Nat.le_refl _, Nat.le_refl _⟩

theorem mark (m : Mark) (r : Rig) : Grows r (r.mark m) := ⟨List.suffix_cons m r.trail, List.suffix_rfl, Nat.le_refl _, Nat.le_refl _⟩

theorem returned (x : Act) (r : Rig) : Grows r (r.returned x) := by
  cases x with
  | syncClose => exact mark .closed r
  | startQuery | close => exact refl r

theorem pass (as : List Answer) (c : Conn) (r : Rig) : Grows r ((r.feed as).pass c) := by
  refine ⟨?_, List.suffix_rfl, ?_, ?_⟩
  · simp only [Rig.pass_trail, Rig.feed_trail]
    split
    · exact List.suffix_cons _ _
    · exact List.suffix_rfl
  · simp
  · simp only [Rig.pass_freed, Rig.pass_conn, Rig.feed_freed, Rig.feed_conn]
    omega

end Grows

theorem Returns.grows {j : Job} {r r' : Rig} (h : Returns j r r') : Grows r r' := by
  induction h with
  | passed _ _ _ _ _ ih => exact (Grows.pass _ _ _).trans ((Grows.mark _ _).trans ih)
  | rested => exact (Grows.pass _ _ _).trans (Grows.mark _ _)
  | completed _ _ _ _ _ ih ih' =>
    exact (Grows.pass _ _ _).trans (ih.trans ((Grows.on (Nat.le_refl _)).trans ((Grows.mark _ _).trans ih')))
  | closeDone _ _ _ ih =>
    have h1 := (Grows.feed _ _).trans ((Grows.on (Nat.le_refl _)).trans ih)
    exact h1.trans ((Grows.on (by simp [reportClosed_queryList])).trans (Grows.mark _ _))
  | pushed => exact Grows.on (by simp)
  | kicked _ _ _ ih => exact (Grows.on (by simp)).trans ih
  | noted => exact Grows.on (Nat.le_refl _)
  | closeKicked _ _ _ ih => exact (Grows.on (Nat.le_refl _)).trans ih
  | syncClosed _ ih => exact ih.trans (Grows.on (Nat.le_refl _))
  | silent => exact Grows.on (Nat.le_refl _)
  | @invoked r r₁ q l ls _ hl _ ih =>
    exact ⟨(List.suffix_cons _ _).trans ih.trail, ih.scripts.trans (hl ▸ List.suffix_cons l ls), ih.freed, ih.nodes⟩
  | nil r => exact .refl r
  | cons _ _ ih ih' => exact ih.trans ((Grows.returned _ _).trans ih')
  | cleanedIdle _ _ ih => exact (Grows.on (Nat.le_refl _)).trans ih
  | cleaned _ _ _ ih ih' => exact (Grows.on (Nat.le_refl _)).trans (ih.trans ((Grows.on (Nat.le_refl _)).trans ih'))
  | flushed => exact ⟨List.suffix_rfl, List.suffix_rfl, by simp, by simp⟩
  | flush _ _ _ _ ih ih' => exact (Grows.on (by simp)).trans (ih.trans ih')

/-- Some callback has been invoked more than once. -/
def Twice (r : Rig) : Prop := ¬ (invocations r.trail).Nodup

theorem Grows.twice {r r' : Rig} (h : Grows r r') (ht : Twice r) : Twice r' :=
  fun hn => ht ((h.trail.filterMap _).sublist.nodup hn)

theorem twice_of_mem {r r' : Rig} {id : Nat} (h : Grows (r.mark (.invoke id)) r') (hi : id ∈ invocations r.trail) :
    Twice r' :=
  h.twice fun hn => (List.nodup_cons.1 hn).1 hi

/-- **`SyncClose` in the callback of the session in process invokes it again.** -/
theorem Returns.twice {l : List Act} {r r' : Rig} {q : Session} (h : Returns (.callback l) r r')
    (hp : r.conn.inProcess = some q) (hq : r.pending q) (hi : q.id ∈ invocations r.trail) (hl : .syncClose ∈ l) :
    Twice r' := by
  induction l generalizing r with
  | nil => simp at hl
  | cons x l ih =>
    cases h with
    | @cons _ r₁ _ _ _ hx h =>
      by_cases hs : x = .syncClose
      · subst hs
        refine ((Grows.returned _ _).trans h.grows).twice ?_
        cases hx with
        | syncClosed hc =>
          refine (Grows.on (Nat.le_refl _)).twice ?_
          cases hc with
          | cleanedIdle hn => rw [hp] at hn; cases hn
          | cleaned hp' hd hf =>
            obtain rfl := Option.some.inj (hp.symm.trans hp')
            refine ((Grows.on (Nat.le_refl _)).trans hf.grows).twice ?_
            cases hd with
            | silent hq' => exact (hq' hq).elim
            | invoked _ _ hd => exact (twice_of_mem hd.grows hi : Twice _)
      · have hn := hx.leavesNote hs (.inl (.inl (by simp [hp])))
        have hr : r₁.returned x = r₁ := by cases x <;> first | rfl | exact (hs rfl).elim
        rw [hr, hn.rest] at h
        refine ih h ?_ hq hi (by simpa [Ne.symm hs] using hl)
        exact hn.inProcess.trans hp

/-- `clean_up` leaves the queue empty. -/
theorem Returns.queryList_nil {j : Job} {r r' : Rig} (h : Returns j r r') :
    (j = .cleanUp ∨ ∃ i, j = .flush i) → r'.conn.queryList = [] := by
  induction h with
  | cleanedIdle _ _ ih => exact fun _ => ih (.inr ⟨0, rfl⟩)
  | cleaned _ _ _ _ ih => exact fun _ => ih (.inr ⟨0, rfl⟩)
  | flushed => exact fun _ => rfl
  | flush _ _ _ _ _ ih => exact fun _ => ih (.inr ⟨_, rfl⟩)
  | _ => simp

/-- `SyncClose` in a callback frees every node of the queue. -/
theorem Returns.freed {l : List Act} {r r' : Rig} (h : Returns (.callback l) r r') (hl : .syncClose ∈ l) :
    r.freed + r.conn.queryList.length ≤ r'.freed := by
  induction l generalizing r with
  | nil => simp at hl
  | cons x l ih =>
    cases h with
    | @cons _ r₁ _ _ _ hx h =>
      have hg := hx.grows.nodes
      by_cases hs : x = .syncClose
      · subst hs
        have hf := h.grows.freed
        cases hx with
        | syncClosed hc =>
          have he : (closeLibrary _).queryList = [] := hc.queryList_nil (.inl rfl)
          simp only [Rig.on_conn, he, List.length_nil, Nat.add_zero] at hg
          exact Nat.le_trans hg hf
      · have hr : r₁.returned x = r₁ := by cases x <;> first | rfl | exact (hs rfl).elim
        rw [hr] at h
        exact Nat.le_trans hg (ih h (by simpa [Ne.symm hs] using hl))

/-- The callbacks invoked from `r` to `r'` call no `SyncClose`, or one of them has been invoked twice. -/
def Exposes (r r' : Rig) : Prop := Twice r' ∨ ∃ ls, r.scripts = ls ++ r'.scripts ∧ Modest ls

namespace Exposes

variable {r r₁ r' : Rig}

theorem of_scripts (h : r'.scripts = r.scripts) : Exposes r r' := .inr ⟨[], by simp [h], by simp [Modest]⟩

theorem trans (h : Exposes r r₁) (h' : Exposes r₁ r') (hg : Grows r₁ r') : Exposes r r' := by
  rcases h' with ht | ⟨ls', hs', hm'⟩
  · exact .inl ht
  · refine h.imp hg.twice ?_
    rintro ⟨ls, hs, hm⟩
    refine ⟨ls ++ ls', by rw [hs, hs', List.append_assoc], fun l hl => ?_⟩
    exact (List.mem_append.1 hl).elim (hm l) (hm' l)

end Exposes

/-- What is shown of a function. `OnQueryDone` is called on the session in process, or it returns to the loop of
`clean_up`, which does not survive the loss of all its nodes. -/
def Exposing (r r' : Rig) : Job → Prop
  | .onQueryDone q => r.conn.inProcess = some q ∨ r'.freed < r.freed + r.conn.queryList.length → Exposes r r'
  | _ => Exposes r r'

theorem Returns.exposes {j : Job} {r r' : Rig} (h : Returns j r r') : Exposing r r' j := by
  induction h with
  | passed _ _ _ _ _ ih => exact ih
  | rested | pushed | noted | nil | flushed => exact Exposes.of_scripts rfl
  | silent => exact fun _ => Exposes.of_scripts rfl
  | @completed _ r₁ r' _ _ _ _ _ _ _ _ hc _ h ih ih' =>
    have h1 := ih (.inl (completing_spec hc).1)
    have h2 : Exposes r₁ r' := ih'
    exact h1.trans h2 ((Grows.on (Nat.le_refl _)).trans ((Grows.mark _ _).trans h.grows))
  | closeDone _ _ _ ih => exact ih
  | kicked _ _ _ ih | closeKicked _ _ _ ih | syncClosed _ ih | cleanedIdle _ _ ih => exact ih
  | @invoked r r₁ q l ls hq hl h ih =>
    intro hc
    by_cases hs : .syncClose ∈ l
    · rcases hc with hp | hf
      · exact .inl (h.twice hp hq List.mem_cons_self hs)
      · have := h.freed hs
        exact absurd this (by simpa using hf)
    · refine ih.imp id ?_
      rintro ⟨ls', hls, hm⟩
      refine ⟨l :: ls', by rw [hl, List.cons_append]; exact congrArg (l :: ·) hls, ?_⟩
      exact List.forall_mem_cons.2 ⟨hs, hm⟩
  | @cons r r₁ r' x _ _ h ih ih' =>
    have h2 : Exposes r₁ r' := by cases x <;> exact ih'
    exact Exposes.trans ih h2 ((Grows.returned _ _).trans h.grows)
  | cleaned _ _ h ih ih' => exact (ih (.inl rfl)).trans ih' ((Grows.on (Nat.le_refl _)).trans h.grows)
  | @flush r r₁ r' i q hq _ hi h ih ih' =>
    have hlt : i < r.conn.queryList.length := (List.getElem?_eq_some_iff.1 hq).1
    exact (ih (.inr (by simp; omega))).trans ih' h.grows

/-- **A step in which a callback calls `SyncClose` is not safe.** -/
theorem safe_modest {r r' : Rig} {m : Move} (h : rigged.step r m r') (hs : Safe r') : Modest m.scripts := by
  obtain ⟨n, h⟩ := h
  obtain ⟨-, d, hd, hnil, rfl⟩ := moved_operated h
  have he : Exposes (r.begun m) d := by
    cases hd with
    | other => exact Exposes.of_scripts rfl
    | called hj _ h =>
      have hx := h.exposes
      rcases Op.job_cases hj with ⟨ev, rfl⟩ | ⟨x, rfl⟩ <;> exact hx
  rcases he with ht | ⟨ls, hls, hm⟩
  · exact (ht hs.once).elim
  · rw [hnil, List.append_nil] at hls
    have hscripts : m.scripts = ls := hls
    exact hscripts ▸ hm

end LtApp.Mysql
