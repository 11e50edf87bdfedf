import LtApp.Mysql.Submits
import LtApp.Mysql.Teardown

/-!
# The client that is gone is called

A connection calls its client back through `client_`, a raw pointer that nobody clears (`ResetClient` has no caller).
After `Close` and the end of the client the connections live on until their `SyncClose` has run, and whatever drives
`HandleState` until then may come to `CONNECT_DONE` or `CLOSE_DONE` and call the client that is gone. `Hushed` says when
nothing can, where the loop runs its tasks in the order of posting: no connection has an fd event in the pump, and none
that is idle has a `StartQuery` before its first `SyncClose` (`orphan_not_called_iff`).
-/

namespace LtApp.Mysql

/-- A call through `client_`. -/
def Ev.toClient : Ev → Bool
  | .onConnectReady | .onConnectionClosed => true
  | _ => false

/-- How often the connection has called its client. -/
def clientCalls (c : Conn) : Nat := c.log.countP Ev.toClient

/-- `HandleState` can be brought to call the client. -/
def CanCall (ev : WaitStatus) (c : Conn) : Prop := ∃ as c', handleState as ev c = .ok c' ∧ clientCalls c < clientCalls c'

section
variable {a : Answer} {as : List Answer} {ev : WaitStatus} {c d : Conn} {op : Op}

theorem clientCalls_le (h : Appends c d) : clientCalls c ≤ clientCalls d := by
  obtain ⟨es, hes, -⟩ := h
  rw [clientCalls, clientCalls, hes, List.countP_append]
  omega

/-! ## `HandleState` can be brought to `CLOSE_DONE` -/

theorem CanCall.of_pass (hp : handleStatePass a ev c = .goOn d) (h : CanCall ev d) : CanCall ev c := by
  obtain ⟨as, c', hh, hlt⟩ := h
  have hpass : Pass a ev c (.goOn d) := hp ▸ handleStatePass_pass
  refine ⟨a :: as, c', by simp only [handleState, hp, hh], ?_⟩
  exact Nat.lt_of_le_of_lt (clientCalls_le (pass_appends (.inl hpass))) hlt

theorem canCall_closeDone (hs : c.currentState = .closeDone) (hcl : c.client = true) : CanCall ev c := by
  have hp : handleStatePass {} ev c = .rest (closed c) := by
    simp [handleStatePass, handleStateConnect, hs, closed, cleanUp_eq, hcl, Conn.setReady, Conn.emit, Conn.toState]
  refine ⟨[{}], closed c, by simp only [handleState, hp], ?_⟩
  simp only [clientCalls, closed_log, hcl, if_true, List.countP_append, cleaned_log, Conn.setReady_log,
    List.countP_cons, List.countP_nil, Ev.toClient]
  omega

theorem canCall_closeStart (hs : c.currentState = .closeStart) (hcl : c.client = true) : CanCall ev c := by
  have hp : ∃ d, handleStatePass {} ev c = .goOn d ∧ d.currentState = .closeDone ∧ d.client = true := by
    simp [handleStatePass, handleStateConnect, hs, goNextState, WaitStatus.isZero, Conn.toState, Conn.call, hcl]
  obtain ⟨d, hp, hd, hdc⟩ := hp
  exact .of_pass hp (canCall_closeDone hd hdc)

/-- The library has lost the server. -/
def lost : Answer := { err := 2006, errno := 2006 }

/-- A session in process can fail for good. -/
theorem canCall_failed {q : Session} (hp : handleStatePass lost ev c = .goOn (failed lost 2006 q d))
    (hcl : d.client = true) : CanCall ev c :=
  .of_pass hp (canCall_closeStart rfl hcl)

/-- From the idle state with a close scheduled: the first session that is sent fails, or there is none. -/
theorem canCall_idle (hs : c.currentState = .connectionIdle) (hp : c.inProcess = none) (hsc : c.scheduleClose = true)
    (hcl : c.client = true) : CanCall ev c := by
  generalize hq : c.queryList = w
  induction w generalizing c with
  | nil =>
    have hpass : ∃ d, handleStatePass {} ev c = .goOn d ∧ d.currentState = .closeStart ∧ d.client = true := by
      simp [handleStatePass, handleStateIDLE, hs, hq, hsc, Conn.toState, Conn.emit, hcl]
    obtain ⟨d, hpass, hd, hdc⟩ := hpass
    exact .of_pass hpass (canCall_closeStart hd hdc)
  | cons q w ih =>
    have htake : handleStatePass {} ev c = .goOn (taken q w c) := by
      simp only [handleStatePass, handleStateIDLE, hs, hq, hp]
      rfl
    refine .of_pass htake ?_
    cases hn : needsSelect c q with
    | true =>
      refine canCall_failed (d := (taken q w c).call (.selectDbStart (cStr q.dbName)) lost) (q := q) ?_ hcl
      simp [handleStatePass, handleStateSelectDB, hn, lost, failQuery_eq (c := (taken q w c).call _ _) (q := q) rfl]
    | false =>
      cases he : q.query.isEmpty with
      | false =>
        refine canCall_failed (d := (taken q w c).call (.realQueryStart q) lost) (q := q) ?_ hcl
        simp [handleStatePass, hn, he, lost, failQuery_eq (c := (taken q w c).call _ _) (q := q) rfl]
      | true =>
        have hskip : handleStatePass {} ev (taken q w c) = .goOn (skipped {} (-9999) "empty query" q (taken q w c)) := by
          rw [← skipped_eq rfl]
          simp [handleStatePass, hn, he]
        exact .of_pass hskip (ih rfl rfl hsc hcl rfl)

/-- From a state in which an operation waits. -/
theorem canCall_wait (h : Sited c) (hs : c.currentState.isWait = true) (hsc : c.scheduleClose = true)
    (hcl : c.client = true) : CanCall ev c := by
  have hin := h.inProcess
  cases hst : c.currentState with
  | connectWait =>
    have hpass : ∃ d, handleStatePass {} ev c = .goOn d ∧ d.currentState = .connectDone ∧ d.mysqlRet = false ∧
        d.client = true := by
      simp [handleStatePass, handleStateConnect, hst, goNextState, WaitStatus.isZero, storeRet, Conn.toState, Conn.call,
        hcl]
    obtain ⟨d, hpass, hd, hret, hdc⟩ := hpass
    have hpass' : ∃ d', handleStatePass {} ev d = .goOn d' ∧ d'.currentState = .closeStart ∧ d'.client = true := by
      simp [handleStatePass, handleStateConnect, hd, hret, Conn.toState, Conn.setReady, hdc]
    obtain ⟨d', hpass', hd', hdc'⟩ := hpass'
    exact .of_pass hpass (.of_pass hpass' (canCall_closeStart hd' hdc'))
  | closeWait =>
    have hpass : ∃ d, handleStatePass {} ev c = .goOn d ∧ d.currentState = .closeDone ∧ d.client = true := by
      simp [handleStatePass, handleStateConnect, hst, goNextState, WaitStatus.isZero, Conn.toState, Conn.call, hcl]
    obtain ⟨d, hpass, hd, hdc⟩ := hpass
    exact .of_pass hpass (canCall_closeDone hd hdc)
  | selectDbWait =>
    obtain ⟨q, hq⟩ : ∃ q, c.inProcess = some q := Option.isSome_iff_exists.1 (by rw [hin, hst]; rfl)
    refine canCall_failed (d := c.call (.selectDbCont ev) lost) (q := q) ?_ hcl
    simp [handleStatePass, handleStateSelectDB, hst, hq, lost, failQuery_eq (c := c.call _ _) (q := q) hq]
  | queryWait =>
    obtain ⟨q, hq⟩ : ∃ q, c.inProcess = some q := Option.isSome_iff_exists.1 (by rw [hin, hst]; rfl)
    by_cases he : c.errNo = 0
    · have hpass : ∃ d, handleStatePass {} ev c = .goOn d ∧ d.currentState = .queryResultReady ∧
          d.inProcess = some q ∧ d.client = true := by
        simp [handleStatePass, hst, hq, he, goNextState, WaitStatus.isZero, Conn.toState, Conn.call, hcl]
      obtain ⟨d, hpass, hd, hdq, hdc⟩ := hpass
      refine .of_pass hpass ?_
      have hfail : ∃ e, handleStatePass lost ev d = .goOn e ∧ e.currentState = .closeStart ∧ e.client = true := by
        simp [handleStatePass, hd, hdq, lost, failQuery, hdc, doneCurrentQuery, Conn.toState, Conn.call, isFatalError]
      obtain ⟨e, hfail, hes, hec⟩ := hfail
      exact .of_pass hfail (canCall_closeStart hes hec)
    · refine canCall_failed (d := c.call (.realQueryCont ev) lost) (q := q) ?_ hcl
      simp [handleStatePass, hst, hq, he, lost, failQuery_eq (c := c.call _ _) (q := q) hq]
  | fetchRowWait =>
    obtain ⟨q, hq⟩ : ∃ q, c.inProcess = some q := Option.isSome_iff_exists.1 (by rw [hin, hst]; rfl)
    obtain ⟨r, hr⟩ : ∃ r, c.result = some r := Option.isSome_iff_exists.1 (h.result (by rw [hst]; rfl))
    have hpass : ∃ d, handleStatePass {} ev c = .goOn d ∧ d.currentState = .fetchRowResultReady ∧ d.resultRow = none ∧
        d.inProcess = some q ∧ d.result = some r ∧ d.scheduleClose = true ∧ d.client = true := by
      simp [handleStatePass, hst, goNextState, WaitStatus.isZero, storeRow, Conn.toState, Conn.call, hq, hr, hsc, hcl]
    obtain ⟨d, hpass, hd, hrow, hdq, hdr, hdsc, hdc⟩ := hpass
    have hend : handleStatePass {} ev d = .goOn (fetchEnded {} q r d) := by
      simp [handleStatePass, hd, hrow, hdq, hdr, fetchEnd_eq]
    exact .of_pass hpass (.of_pass hend (canCall_idle rfl rfl hdsc hdc))
  | _ => simp [hst, State.isWait] at hs

/-! ## A pooled connection -/

/-- Between two handlers of a pooled connection. -/
structure Rooted (c : Conn) : Prop extends Sited c where
  client  : c.client = true
  checker : c.checker = true

theorem Rooted.of_eq (h : Rooted c) (hs : d.currentState = c.currentState) (hp : d.inProcess = c.inProcess)
    (hr : d.result = c.result) (hcl : d.client = c.client) (hch : d.checker = c.checker) : Rooted d :=
  ⟨h.toSited.of_eq hs hp hr, hcl ▸ h.client, hch ▸ h.checker⟩

theorem pass_rooted (h : Rooted c) (hp : Pass a ev c (.goOn d) ∨ Pass a ev c (.rest d)) : Rooted d := by
  have hsame : d.client = c.client ∧ d.checker = c.checker := by
    rcases hp with hp | hp
    · cases hp with
      | @finish k => cases k <;> exact ⟨rfl, rfl⟩
      | _ => exact ⟨rfl, rfl⟩
    · cases hp <;> exact ⟨rfl, rfl⟩
  have hsited : Sited d := by
    rcases hp with hp | hp
    · exact h.toSited.pass hp
    · exact h.toSited.rest hp
  exact ⟨hsited, hsame.1.trans h.client, hsame.2.trans h.checker⟩

theorem handleState_rooted (h : Rooted c) (hh : handleState as ev c = .ok d) : Rooted d :=
  handleState_induct (P := Rooted) (Q := Rooted) (fun _ _ _ _ hc hp => pass_rooted hc (.inl hp))
    (fun _ _ _ _ hc hp => pass_rooted hc (.inr hp)) h hh

theorem Rooted.step (h : Rooted c) (hop : op.connects = false) (hst : lts.step c op d) : Rooted d := by
  cases lts_stepped hst with
  | init | connect | syncRefused | syncConnected => simp [Op.connects] at hop
  | pendingQuery | clientClose | pushed | close | checked => exact h.of_eq rfl rfl rfl rfl rfl
  | @kicked op q c' ht hs hp hh =>
    exact handleState_rooted (c := pushQuery q (op.target c)) (h.of_eq rfl rfl rfl rfl rfl) hh
  | handled ht hh => exact handleState_rooted (c := op.target c) (h.of_eq rfl rfl rfl rfl rfl) hh
  | syncClosed => exact ⟨.of_none rfl rfl (by simp), h.client, h.checker⟩
  | closeKicked hp hs hh => exact handleState_rooted (c := { c with scheduleClose := true }) (h.of_eq rfl rfl rfl rfl rfl) hh
  | @woken op e ev c' hw hf hh => exact handleState_rooted (c := disarmed e c) (h.of_eq rfl rfl rfl rfl rfl) hh

theorem Pooled.rooted (h : Pooled c) : Rooted c := by
  obtain ⟨d, ops, ⟨errNo, st, opt, a, ha, rfl⟩, hr⟩ := h
  refine hr.invariant_restrict (P := Rooted) (fun _ _ _ hc hop hst => hc.step hop hst) ?_
  exact ⟨.of_none rfl rfl (by simp), rfl, rfl⟩

theorem pushed_of_step {q : Session} (h : lts.step c (.startQuery q as) d) (hs : c.currentState ≠ .connectionIdle) :
    d = pushQuery q c := by
  cases lts_stepped h with
  | pushed ht =>
    cases ht
    rfl
  | kicked ht hi => exact absurd hi hs
  | handled ht | syncClosed ht | woken ht => cases ht

theorem checked_of_step (h : lts.step c (.connectionCheck a) d) : d = checked a c := by
  cases lts_stepped h with
  | checked => rfl
  | pushed ht | kicked ht | handled ht | syncClosed ht | woken ht => cases ht

/-- A pooled connection whose fd event is in the pump can be brought to call the client, once it is to be closed. -/
theorem Pooled.canCall {e : FdEvent} (h : Pooled c) (hf : c.fdEvent = some e) (hsc : c.scheduleClose = true) :
    CanCall ev (disarmed e c) := by
  have hr := h.rooted
  have hsited : Sited (disarmed e c) := hr.toSited.of_eq rfl rfl rfl
  cases hw : c.currentState.isWait with
  | true => exact canCall_wait hsited hw hsc hr.client
  | false =>
    have hs : c.currentState = .connectionIdle := by
      rcases h.lifetime.tended.handled.closed hw with hs | hn
      · exact hs
      · rw [hf] at hn
        cases hn
    exact canCall_idle hs (hr.phased.none (by rw [hs]; rfl)) hsc hr.client

end

namespace Client

/-- No connection has an fd event in the pump, and none that is idle is given a session before it is closed. -/
def Hushed (s : Client) : Prop :=
  ∀ i c, s.conn? i = some c → c.fdEvent = none ∧
    (c.currentState = .connectionIdle → Fenced (LoopTask.Owns i) (LoopTask.Uses i) s.loop)

/-- The same of a client that is gone, with the calls made so far. -/
structure Muted (calls : Nat → Nat) (s : Client) : Prop extends Secure s where
  still   : ∀ i c, s.conn? i = some c → i ∉ s.freed → c.fdEvent = none ∧
    (c.currentState = .connectionIdle → Fenced (LoopTask.Owns i) (LoopTask.Uses i) s.loop)
  uncalled : ∀ i c, s.conn? i = some c → clientCalls c = calls i

section
variable {order : LoopOrder LoopTask} {s t : Client} {n i j : Nat} {c d : Conn} {as : List Answer} {calls : Nat → Nat}

theorem clientCalls_syncClosed : clientCalls (syncClosed c) = clientCalls c := by
  simp [clientCalls, Ev.toClient, List.countP_append, Function.comp_def]

theorem clientCalls_destroyed : clientCalls (destroyed c) = clientCalls c := by
  simp [clientCalls, Ev.toClient, List.countP_append, Function.comp_def]

/-- What freeing adds to the queue uses no connection. -/
theorem fenced_append_cleanFn {l : List LoopTask} (h : Fenced (LoopTask.Owns i) (LoopTask.Uses i) l) (gone : List Nat) :
    Fenced (LoopTask.Owns i) (LoopTask.Uses i) (l ++ gone.map .cleanFn) := by
  refine h.append (.of_not_uses fun y hy => ?_)
  obtain ⟨k, -, rfl⟩ := List.mem_map.1 hy
  rintro ⟨q, hq⟩
  cases hq

/-- With no fd event there is no wake-up either. -/
theorem not_wakes {op : Op} (h : Pooled c) (hf : c.fdEvent = none) (hen : enabled c op) : op.wakes = false := by
  cases op with
  | fdWake => simp [enabled, hf] at hen
  | timerWake =>
    have ht : c.watched.timeout = true := hen
    have htended := h.lifetime.tended
    cases hw : c.currentState.isWait with
    | true =>
      have hsome := htended.handled.event hw
      simp [hf] at hsome
    | false =>
      rw [htended.watched hw] at ht
      cases ht
  | _ => rfl

/-- What one task leaves for the others. -/
theorem Muted.others {x : LoopTask} {rest : List LoopTask} (h : Muted calls s) (hl : s.loop = x :: rest)
    (hc : s.conn? j = some c) (hj : j ∉ s.freed) (hx : x.conn ≠ j) : c.fdEvent = none ∧
      (c.currentState = .connectionIdle → Fenced (LoopTask.Owns j) (LoopTask.Uses j) rest) := by
  obtain ⟨hf, hi⟩ := h.still j c hc hj
  refine ⟨hf, fun hs => ?_⟩
  have hfence := hi hs
  rw [hl] at hfence
  refine hfence.tail ?_
  rintro rfl
  exact hx rfl

/-- A task about one connection has run and has not left it idle. -/
theorem Muted.next {x : LoopTask} {rest : List LoopTask} (h : Muted calls s) (hl : s.loop = x :: rest)
    (hc : s.conn? x.conn = some c) (hd : x.conn ∉ s.freed → d.fdEvent = none ∧ d.currentState ≠ .connectionIdle)
    (hcalls : clientCalls d = clientCalls c) :
    ∀ j e, (({ s with loop := rest } : Client).setConn x.conn d).conn? j = some e →
      (j ∉ s.freed → e.fdEvent = none ∧
        (e.currentState = .connectionIdle → Fenced (LoopTask.Owns j) (LoopTask.Uses j) rest)) ∧
      clientCalls e = calls j := by
  intro j e he
  have hc' : ({ s with loop := rest } : Client).conn? x.conn = some c := hc
  by_cases hj : x.conn = j
  · rw [← hj, conn?_setConn_self hc'] at he
    obtain rfl := Option.some.inj he
    rw [← hj]
    refine ⟨fun hi => ⟨(hd hi).1, fun hs => absurd hs (hd hi).2⟩, ?_⟩
    exact hcalls.trans (h.uncalled _ c hc)
  · rw [conn?_setConn_ne hj] at he
    exact ⟨fun hi => h.others hl he hi hj, h.uncalled j e he⟩

/-- **Every step leaves the client that is gone uncalled.** -/
theorem Muted.step {op : ClientOp} (h : Muted calls s) (hf : order.Fifo) (hs : (lts order).step s op t) :
    Muted calls t := by
  have hno : s.held ≠ true := by simp [h.gone]
  have hsec := h.toSecure.step hf hs
  cases lts_stepped hs with
  | refused hh | given hh | close hh | reset hh => exact absurd hh hno
  | @started n i q rest as c c' hl hi hc hst =>
    have hl := hl.eq_cons hf
    obtain ⟨hfd, hfence⟩ := h.still i c hc hi
    have hidle : c.currentState ≠ .connectionIdle := by
      intro hidle
      have hfenced := hfence hidle
      rw [hl] at hfenced
      exact hfenced.not_uses (by simp [LoopTask.Owns]) ⟨q, rfl⟩
    obtain rfl := pushed_of_step hst hidle
    have hnext := h.next hl hc (d := pushQuery q c) (fun _ => ⟨hfd, hidle⟩) rfl
    exact ⟨hsec, fun j e he hj => (hnext j e he).1 hj, fun j e he => (hnext j e he).2⟩
  | @removed n i rest as c hl hc =>
    have hl := hl.eq_cons hf
    have hi : i ∈ s.freed := h.cleans i (by simp [hl])
    have hnext := h.next hl hc (d := LtApp.Mysql.cleanFn c) (fun hn => absurd hi hn) rfl
    exact ⟨hsec, fun j e he hj => (hnext j e he).1 hj, fun j e he => (hnext j e he).2⟩
  | @closed n i rest as c hl hc =>
    have hnext := h.next (hl.eq_cons hf) hc (d := LtApp.Mysql.syncClosed c) (fun _ => ⟨rfl, by simp⟩)
      clientCalls_syncClosed
    have hconn : ∀ j e, (({ s with loop := rest } : Client).setConn i (LtApp.Mysql.syncClosed c)).collect.conn? j = some e →
        ∃ d, (({ s with loop := rest } : Client).setConn i (LtApp.Mysql.syncClosed c)).conn? j = some d ∧
          clientCalls e = clientCalls d ∧ e.fdEvent = d.fdEvent ∧ e.currentState = d.currentState := by
      intro j e he
      rw [Client.collect, conn?_free] at he
      obtain ⟨d, hd, rfl⟩ := Option.map_eq_some_iff.1 he
      refine ⟨d, hd, ?_⟩
      split
      · exact ⟨clientCalls_destroyed, rfl, rfl⟩
      · exact ⟨rfl, rfl, rfl⟩
    refine ⟨hsec, fun j e he hj => ?_, fun j e he => ?_⟩
    · obtain ⟨d, hd, -, hf, hst⟩ := hconn j e he
      obtain ⟨hfd, hi⟩ := (hnext j d hd).1 fun hm => hj (List.mem_append_left _ hm)
      refine ⟨hf.trans hfd, fun hidle => ?_⟩
      exact fenced_append_cleanFn (hi (hst ▸ hidle)) _
    · obtain ⟨d, hd, hcalls, -⟩ := hconn j e he
      exact hcalls.trans (hnext j d hd).2
  | @event i op c c' hop hi hc hst =>
    obtain ⟨hf, hfence⟩ := h.still i c hc hi
    have hwakes := not_wakes (h.pooled i c hc hi) hf hst.1
    have hsame : c'.fdEvent = none ∧ c'.currentState = c.currentState ∧ clientCalls c' = clientCalls c := by
      cases op with
      | connectionCheck a =>
        obtain rfl := checked_of_step hst
        exact ⟨hf, rfl, by simp [clientCalls, Ev.toClient]⟩
      | fdWake | timerWake => cases hwakes
      | _ => cases hop
    obtain ⟨hf', hs', hcalls⟩ := hsame
    refine ⟨hsec, fun j e he hj => ?_, fun j e he => ?_⟩
    · by_cases hij : i = j
      · subst hij
        rw [conn?_setConn_self hc] at he
        obtain rfl := Option.some.inj he
        exact ⟨hf', fun hidle => hfence (hs' ▸ hidle)⟩
      · rw [conn?_setConn_ne hij] at he
        exact h.still j e he hj
    · by_cases hij : i = j
      · subst hij
        rw [conn?_setConn_self hc] at he
        obtain rfl := Option.some.inj he
        exact hcalls.trans (h.uncalled i c hc)
      · rw [conn?_setConn_ne hij] at he
        exact h.uncalled j e he

/-! ## The client that is gone is called -/

/-- A failed check has the connection closed. -/
theorem Secure.check {u : Client} (h : Secure u) (hf : order.Fifo) (hc : u.conn? i = some c) (hi : i ∉ u.freed) :
    (lts order).step u (.event i (.connectionCheck { err := 1 })) (u.setConn i (checked { err := 1 } c)) := by
  refine ⟨⟨rfl, c, hc, (h.pooled i c hc hi).rooted.checker⟩, h.not_dangles hf _, ?_⟩
  show u.handle i (fun c => .ok (doConnectionCheck _ c)) = _
  simp only [handle, hc, doConnectionCheck_eq, Except.map]

theorem Secure.wake {u : Client} {e : FdEvent} (h : Secure u) (hf : order.Fifo) (hc : u.conn? i = some c)
    (hi : i ∉ u.freed) (hfd : c.fdEvent = some e) (hsc : c.scheduleClose = true) :
    ∃ op t d, (lts order).step u op t ∧ t.conn? i = some d ∧ clientCalls c < clientCalls d := by
  obtain ⟨as, d, hh, hlt⟩ : CanCall (ltEvToMysqlStatus {}) (disarmed e c) := (h.pooled i c hc hi).canCall hfd hsc
  refine ⟨.event i (.fdWake {} as), u.setConn i d, d, ⟨⟨rfl, c, hc, ?_⟩, h.not_dangles hf _, ?_⟩,
    conn?_setConn_self hc, hlt⟩
  · show c.fdEvent.isSome = true
    rw [hfd]
    rfl
  · show u.handle i (fun c => onWaitEventInvoked {} as c) = _
    simp only [handle, hc, onWaitEventInvoked, resetWaitEvent_some hfd, hh, Except.map]

/-- A task about another connection leaves one alone that is still owned. -/
theorem conn?_runTask {x : LoopTask} {rest : List LoopTask} (hf : order.Fifo)
    (hs : (lts order).step s (.runTask n as) t) (hl : s.loop = x :: rest) (hx : x.conn ≠ i) (ho : .syncClose i ∈ rest) : t.conn? i = s.conn? i := by
  cases lts_stepped hs with
  | started hl' =>
    obtain ⟨rfl, rfl⟩ := List.cons.inj (hl.symm.trans (hl'.eq_cons hf))
    exact conn?_setConn_ne hx
  | removed hl' =>
    obtain ⟨rfl, rfl⟩ := List.cons.inj (hl.symm.trans (hl'.eq_cons hf))
    exact conn?_setConn_ne hx
  | @closed _ j rest' _ c hl' hc =>
    obtain ⟨rfl, rfl⟩ := List.cons.inj (hl.symm.trans (hl'.eq_cons hf))
    have hu : i ∉ (({ s with loop := rest } : Client).setConn j (LtApp.Mysql.syncClosed c)).unowned :=
      fun hm => (useCount_eq_zero.1 (mem_unowned.1 hm).2.1).2 ho
    have hx : j ≠ i := hx
    rw [Client.collect, conn?_free, conn?_setConn_ne hx]
    simp only [if_neg hu, Option.map_id']
    rfl

/-- A queue that is worked off comes to the `StartQuery` of a connection that is to be closed. -/
theorem Secure.exists_called {q : Session} {l₁ l₂ : List LoopTask} (h : Secure s) (hf : order.Fifo)
    (hc : s.conn? i = some c) (hs : c.currentState = .connectionIdle) (hsc : c.scheduleClose = true) (hi : i ∉ s.freed)
    (hl : s.loop = l₁ ++ .startQuery i q :: l₂) (ho : .syncClose i ∈ l₂) (hl₁ : ∀ y ∈ l₁, y.conn ≠ i) :
    ∃ ops t d, (lts order).Run s ops t ∧ t.conn? i = some d ∧ clientCalls c < clientCalls d := by
  induction l₁ generalizing s l₂ with
  | nil =>
    have hr := (h.pooled i c hc hi).rooted
    have hn : c.inProcess = none := hr.phased.none (by rw [hs]; rfl)
    obtain ⟨as, d, hh, hlt⟩ : CanCall {} (pushQuery q c) := canCall_idle hs hn hsc hr.client
    have hstart : startQuery q as c = .ok d := by simp [startQuery, hs, hn, hh]
    have hc' : ({ s with loop := l₂ } : Client).conn? i = some c := hc
    refine ⟨[.runTask 0 as], ({ s with loop := l₂ } : Client).setConn i d, d, .single ⟨?_, h.not_dangles hf _, ?_⟩,
      conn?_setConn_self hc', hlt⟩
    · exact ⟨by simp [hl], (hf _ 0).2 rfl⟩
    · have hl : s.loop = .startQuery i q :: l₂ := hl
      simp only [Client.step, Client.runTask, hl, List.getElem?_cons_zero, List.eraseIdx_cons_zero, handle, hc', hstart,
        Except.map]
  | cons x l₁ ih =>
    obtain ⟨hx, hl₁⟩ := List.forall_mem_cons.1 hl₁
    have hl' : s.loop = x :: (l₁ ++ .startQuery i q :: l₂) := hl
    obtain ⟨as, t, hst, -, ⟨gone, hloop⟩, -⟩ := h.toTidy.exists_step hf hl' fun as => h.not_dangles hf _
    have hsec : Secure t := h.step hf hst
    have hct : t.conn? i = some c := (conn?_runTask hf hst hl' hx (by simp [ho])).trans hc
    rw [List.append_assoc, List.cons_append] at hloop
    have hit : i ∉ t.freed := by
      intro hit
      refine (useCount_eq_zero.1 (hsec.toTidy.freed i hit)).2 ?_
      simp [hloop, ho]
    obtain ⟨ops, u, d, hr, hd, hlt⟩ := ih hsec hct hit hloop (by simp [ho]) hl₁
    exact ⟨_ :: ops, u, d, .cons hst hr, hd, hlt⟩

theorem conn?_reset : s.reset.conn? i = (s.conn? i).map fun c =>
    if i ∈ ({ s with held := false } : Client).unowned then destroyed c else c := by
  rw [reset, collect, conn?_free]
  rfl

/-- A connection with a `SyncClose` posted is owned when the client has gone: it is as it was, and its next check can
fail. -/
theorem exists_checked (hfifo : order.Fifo) (hsec : Secure s.reset) (hf : s.freed = []) (hc : s.conn? i = some c)
    (ho : .syncClose i ∈ s.loop) : ∃ ops u, (lts order).Run s.reset ops u ∧ Secure u ∧
      u.conn? i = some (checked { err := 1 } c) ∧ i ∉ u.freed ∧
      ∃ gone : List Nat, u.loop = s.loop ++ gone.map .cleanFn := by
  have hu : i ∉ ({ s with held := false } : Client).unowned := fun hm =>
    (useCount_eq_zero.1 (mem_unowned.1 hm).2.1).2 ho
  have hc' : s.reset.conn? i = some c := by rw [conn?_reset, hc, Option.map_some, if_neg hu]
  have hi : i ∉ s.reset.freed := by
    intro hm
    rcases List.mem_append.1 hm with hm | hm
    · simp [hf] at hm
    · exact hu hm
  have hst := hsec.check hfifo hc' hi
  exact ⟨_, _, .single hst, hsec.step hfifo hst, conn?_setConn_self hc', hi, _, rfl⟩

theorem clientCalls_checked {a : Answer} : clientCalls (checked a c) = clientCalls c := by
  simp [clientCalls, Ev.toClient]

/-- A connection that never calls the client that is gone has no fd event: a failed check would have it closed by the
next. -/
theorem fdEvent_none_of_uncalled (hfifo : order.Fifo) (hsec : Secure s.reset) (hf : s.freed = []) (hcov : Covered s)
    (hc : s.conn? i = some c)
    (hsafe : ∀ ops t d, (lts order).Run s.reset ops t → t.conn? i = some d → clientCalls d = clientCalls c) :
    c.fdEvent = none := by
  cases hfd : c.fdEvent with
  | none => rfl
  | some e =>
    have ho : LoopTask.syncClose i ∈ s.loop := by
      by_contra ho
      rw [((hcov i c hc).2 ho).1] at hfd
      cases hfd
    obtain ⟨ops, u, hr, hu, hcu, hi, -⟩ := exists_checked hfifo hsec hf hc ho
    obtain ⟨op, t, d, hst, hd, hlt⟩ := hu.wake hfifo hcu hi hfd (by simp)
    have heq := hsafe _ t d (hr.append (.single hst)) hd
    rw [clientCalls_checked] at hlt
    omega

/-- If it is idle, then the queue comes to its `SyncClose` before it comes to a `StartQuery`. -/
theorem fenced_of_uncalled (hfifo : order.Fifo) (h : Tidy s) (hsec : Secure s.reset) (hf : s.freed = [])
    (hcov : Covered s) (hc : s.conn? i = some c) (hidle : c.currentState = .connectionIdle)
    (hsafe : ∀ ops t d, (lts order).Run s.reset ops t → t.conn? i = some d → clientCalls d = clientCalls c) :
    Fenced (LoopTask.Owns i) (LoopTask.Uses i) s.loop := by
  by_contra hn
  obtain ⟨l₁, x, l₂, hl, ⟨q, rfl⟩, hl₁⟩ := exists_of_not_fenced hn
  have hsh := (hcov i c hc).1
  rw [hl] at hsh
  have ho : LoopTask.syncClose i ∈ l₂ := by
    obtain ⟨y, hy, rfl⟩ := hsh.of_append.owner ⟨q, rfl⟩
    exact hy
  obtain ⟨ops, u, hr, hu, hcu, hi, gone, hloop⟩ := exists_checked hfifo hsec hf hc (by simp [hl, ho])
  rw [hl, List.append_assoc, List.cons_append] at hloop
  have hother : ∀ y ∈ l₁, y.conn ≠ i := by
    intro y hy he
    subst he
    obtain ⟨hown, huse⟩ := hl₁ y hy
    cases y with
    | startQuery j q => exact huse ⟨q, rfl⟩
    | syncClose j => exact hown rfl
    | cleanFn j =>
      have hj := h.cleans j (by simp [hl, hy])
      simp [hf] at hj
  obtain ⟨ops', t, d, hr', hd, hlt⟩ := hu.exists_called hfifo hcu hidle (by simp) hi hloop (by simp [ho]) hother
  have heq := hsafe _ t d (hr.append hr') hd
  rw [clientCalls_checked] at hlt
  omega

theorem Hushed.muted (h : Hushed s) (hsec : Secure s.reset) :
    Muted (fun i => ((s.conn? i).map clientCalls).getD 0) s.reset := by
  refine ⟨hsec, fun i d hd hi => ?_, fun i d hd => ?_⟩
  · rw [conn?_reset] at hd
    obtain ⟨c, hc, rfl⟩ := Option.map_eq_some_iff.1 hd
    obtain ⟨hfd, hfence⟩ := h i c hc
    have hu : i ∉ ({ s with held := false } : Client).unowned := fun hm => hi (List.mem_append_right _ hm)
    rw [if_neg hu]
    exact ⟨hfd, fun hidle => fenced_append_cleanFn (hfence hidle) _⟩
  · rw [conn?_reset] at hd
    obtain ⟨c, hc, rfl⟩ := Option.map_eq_some_iff.1 hd
    simp only [hc, Option.map_some, Option.getD_some]
    split
    · exact clientCalls_destroyed
    · rfl

/-- **When the client that is gone is called.** If the loop runs its tasks in the order of posting: a client that can go
is called by none of its connections afterwards, however the run goes on, exactly if no connection has an fd event in the
pump and none that is idle has a `StartQuery` before its first `SyncClose`. -/
theorem orphan_not_called_iff (order : LoopOrder LoopTask) (hfifo : order.Fifo) (s : Client) (h : s.Reachable order)
    (hheld : s.held = true) (hcov : Covered s) :
    (∀ ops t, (lts order).Run s.reset ops t → ∀ i c d, s.conn? i = some c → t.conn? i = some d →
      clientCalls d = clientCalls c) ↔ Hushed s := by
  have hsec : Secure s.reset := covered_secure h.tidy hheld hcov
  have hf : s.freed = [] := h.tidy.freed_nil hheld
  constructor
  · intro hsafe i c hc
    have hthis : ∀ ops t d, (lts order).Run s.reset ops t → t.conn? i = some d → clientCalls d = clientCalls c :=
      fun ops t d hr hd => hsafe ops t hr i c d hc hd
    exact ⟨fdEvent_none_of_uncalled hfifo hsec hf hcov hc hthis,
      fun hidle => fenced_of_uncalled hfifo h.tidy hsec hf hcov hc hidle hthis⟩
  · intro hhush ops t hr i c d hc hd
    have hend := (hr.invariant (fun _ _ _ hm hst => Muted.step hm hfifo hst) (hhush.muted hsec)).uncalled i d hd
    simpa [hc] using hend

end

/-- **A client that is closed with a query posted** can be called after it has gone: the connection fails on the query
before its `SyncClose` runs. -/
theorem orphan_called_asking : ∃ s : Client, s.Reachable .front ∧ s.held = true ∧ Covered s ∧
    ¬ ∀ ops t, (lts .front).Run s.reset ops t → ∀ i c d, s.conn? i = some c → t.conn? i = some d →
      clientCalls d = clientCalls c := by
  obtain ⟨s, hr, hl, hheld, c, hc, hidle⟩ : ∃ s : Client, (lts .front).Run (start (twoConnections 0)) asking s ∧
      s.loop = [.startQuery 1 { id := 1, query := [115] }] ∧ s.held = true ∧
      ∃ c, s.conn? 1 = some c ∧ c.currentState = .connectionIdle := by
    refine Lts.exists_run_of_exec_imp (P := fun s : Client => s.loop = [.startQuery 1 { id := 1, query := [115] }] ∧
      s.held = true ∧ ((s.conn? 1).any fun c => decide (c.currentState = .connectionIdle)) = true)
      (tryStep_step .front) (by decide) ?_
    rintro s - ⟨hl, hheld, hc⟩
    refine ⟨hl, hheld, ?_⟩
    simpa [Option.any_eq_true] using hc
  have hreach : s.close.Reachable .front :=
    ⟨{}, _, 2, 0, _, _, initWithOption_two 0, hr.append (.single (close_step hheld))⟩
  refine ⟨s.close, hreach, hheld, covered_close s, fun hsafe => ?_⟩
  have hhush := (orphan_not_called_iff .front LoopOrder.front_fifo s.close hreach hheld (covered_close s)).1 hsafe
  have hfence := (hhush 1 c hc).2 hidle
  have hloop : s.close.loop = .startQuery 1 { id := 1, query := [115] } ::
      (List.range s.pool.connections.length).map .syncClose := by simp [Client.close, hl]
  rw [hloop] at hfence
  exact hfence.not_uses (by simp [LoopTask.Owns]) ⟨_, rfl⟩

end Client

end LtApp.Mysql
