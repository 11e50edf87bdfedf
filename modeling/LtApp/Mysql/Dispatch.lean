import LtApp.Mysql.Client
import LtApp.Mysql.Closing

/-!
# Where a client's sessions are

A session passed to `PendingQuery` is refused, or it is given to one connection and is from then on in one place: in a
posted `StartQuery`, in the queue of the connection, in process, or completed, whatever the order in which the loop runs
what is posted to it. Each connection is a first-in first-out server (`Conservation`): if the loop is one as well, the
sessions given to one connection stay in the order of the calls from end to end (`sessions_accounted`).
-/

namespace LtApp.Mysql

/-! ## What a connection takes in -/

theorem Op.submits_of_fromPump {c : Conn} {op : Op} (h : op.fromPump = true) : op.submits c = none := by
  cases op <;> first | rfl | cases h

theorem destroyed_serves (c : Conn) : Serves c (destroyed c) := by
  have hb : books (destroyed c) = books (cleaned c) := rfl
  exact serves_frame (cleaned_serves c) rfl hb

theorem destroyed_accepted (c : Conn) : accepted (destroyed c).log = accepted c.log := by
  have hdone : accepted (((unfinished c).map fun q => Ev.done (q.setCode (-1) "closed")).reverse) = [] :=
    accepted_of_fromOp (by simp +contextual [Ev.fromOp])
  simp [hdone]

/-! ## The places -/

/-- The sessions given to a connection, in the order of the calls of `PendingQuery`. -/
def givenTo (i : Nat) (asked : List (Nat × Option Nat)) : List Nat :=
  asked.filterMap fun x => if x.2 = some i then some x.1 else none

/-- The sessions given to no connection. -/
def givenToNone (asked : List (Nat × Option Nat)) : List Nat :=
  asked.filterMap fun x => if x.2 = none then some x.1 else none

/-- The session a task carries to a connection. -/
def LoopTask.carries (i : Nat) : LoopTask → Option Nat
  | .startQuery j q => if j = i then some q.id else none
  | _ => none

/-- The sessions on their way to a connection. -/
def posted (i : Nat) (loop : List LoopTask) : List Nat := loop.filterMap (LoopTask.carries i)

section
variable {i : Nat} {asked : List (Nat × Option Nat)} {loop loop' : List LoopTask} {t : LoopTask}

@[simp] theorem givenTo_append (l : List (Nat × Option Nat)) : givenTo i (asked ++ l) = givenTo i asked ++ givenTo i l := by
  simp [givenTo]

@[simp] theorem posted_append : posted i (loop ++ loop') = posted i loop ++ posted i loop' := by simp [posted]

@[simp] theorem posted_cons : posted i (t :: loop) = (t.carries i).toList ++ posted i loop := by
  cases h : t.carries i <;> simp [posted, h]

@[simp] theorem posted_nil : posted i [] = [] := rfl

theorem posted_map {f : Nat → LoopTask} (h : ∀ j, (f j).carries i = none) (l : List Nat) : posted i (l.map f) = [] := by
  simp [posted, List.filterMap_map, h]

end

namespace Client

/-- The connection has taken in what it was given, but for what is on its way. -/
structure Served (order : LoopOrder LoopTask) (s : Client) (i : Nat) (c : Conn) : Prop where
  given : order.Alike (givenTo i s.asked) (accepted c.log ++ posted i s.loop)
  books : (books c).Conserved

structure Accounts (order : LoopOrder LoopTask) (s : Client) : Prop where
  served  : ∀ i c, s.conn? i = some c → Served order s i c
  refused : s.pool.refused.map (·.id) = givenToNone s.asked
  known   : ∀ q i, (q, some i) ∈ s.asked → ∃ c, s.conn? i = some c

section
variable {order : LoopOrder LoopTask} {s t : Client} {n i j : Nat} {c d : Conn}

theorem Accounts.free (h : Accounts order s) (gone : List Nat) : Accounts order (s.free gone) := by
  have hpost : ∀ i, posted i (s.free gone).loop = posted i s.loop := by
    intro i
    show posted i (s.loop ++ gone.map _) = _
    rw [posted_append, posted_map (fun _ => rfl), List.append_nil]
  refine ⟨fun i c hc => ?_, h.refused, fun q i hq => (exists_conn?_free gone).2 (h.known q i hq)⟩
  rw [conn?_free] at hc
  obtain ⟨d, hd, rfl⟩ := Option.map_eq_some_iff.1 hc
  obtain ⟨hg, hb⟩ := h.served i d hd
  split
  · exact ⟨by rw [hpost, destroyed_accepted]; exact hg, (destroyed_serves d).conserved hb⟩
  · exact ⟨by rw [hpost]; exact hg, hb⟩

/-- A task has been taken, and its connection has taken in what the task carries. -/
theorem Accounts.run {x : LoopTask} {rest : List LoopTask} (h : Accounts order s) (hl : Taken order s.loop n x rest)
    (hc : s.conn? i = some c) (hx : x.conn = i) (hd : (LtApp.Mysql.books d).Conserved)
    (ha : accepted d.log = accepted c.log ++ (x.carries i).toList) :
    Accounts order (({ s with loop := rest } : Client).setConn i d) := by
  have hc' : ({ s with loop := rest } : Client).conn? i = some c := hc
  have htask : ∀ k, order.Alike (posted k s.loop) ((x.carries k).toList ++ posted k rest) := fun k =>
    hl.alike_filterMap (LoopTask.carries k)
  refine ⟨fun j e he => ?_, h.refused, fun q j hq => (exists_conn?_setConn hc').2 (h.known q j hq)⟩
  by_cases hij : i = j
  · subst hij
    obtain rfl : d = e := Option.some.inj ((conn?_setConn_self hc').symm.trans he)
    have hg := (h.served i c hc).given.trans ((htask i).append_left (accepted c.log))
    rw [← List.append_assoc, ← ha] at hg
    exact ⟨hg, hd⟩
  · rw [conn?_setConn_ne hij] at he
    obtain ⟨hg, hb⟩ := h.served j e he
    have hnone : x.carries j = none := by
      cases x with
      | startQuery k q => exact if_neg (by rintro rfl; exact hij hx.symm)
      | _ => rfl
    have hrest := htask j
    rw [hnone] at hrest
    exact ⟨hg.trans (hrest.append_left (accepted e.log)), hb⟩

/-- **Every step keeps account of the sessions.** -/
theorem Accounts.step {op : ClientOp} (h : Accounts order s) (hs : (lts order).step s op t) : Accounts order t := by
  cases lts_stepped hs with
  | @refused q useIndex hh =>
    refine ⟨fun i c hc => ?_, by simp [h.refused, givenToNone, Session.setCode], fun r i hr => ?_⟩
    · obtain ⟨hg, hb⟩ := h.served i c hc
      exact ⟨by simpa [givenTo] using hg, hb⟩
    · exact h.known r i (by simpa using hr)
  | @given q useIndex k c hh hk =>
    refine ⟨fun i d hd => ?_, by simp [h.refused, givenToNone], fun r i hr => ?_⟩
    · obtain ⟨hg, hb⟩ := h.served i d hd
      refine ⟨?_, hb⟩
      show order.Alike (givenTo i (s.asked ++ [(q.id, some k)]))
        (accepted d.log ++ posted i (s.loop ++ [.startQuery k q]))
      have hnew : givenTo i [(q.id, some k)] = posted i [.startQuery k q] := by
        by_cases hki : k = i <;> simp [givenTo, LoopTask.carries, hki]
      rw [givenTo_append, posted_append, ← List.append_assoc, hnew]
      exact hg.append_right _
    · rcases List.mem_append.1 hr with hr | hr
      · exact h.known r i hr
      · simp only [List.mem_singleton, Prod.mk.injEq, Option.some.injEq] at hr
        exact ⟨c, hr.2 ▸ hk⟩
  | close =>
    refine ⟨fun i c hc => ?_, h.refused, h.known⟩
    obtain ⟨hg, hb⟩ := h.served i c hc
    refine ⟨?_, hb⟩
    show order.Alike (givenTo i s.asked) (_ ++ posted i (s.loop ++ _))
    rw [posted_append, posted_map (fun _ => rfl), List.append_nil]
    exact hg
  | reset =>
    have hs' : Accounts order ({ s with held := false } : Client) :=
      ⟨fun i c hc => ⟨(h.served i c hc).given, (h.served i c hc).books⟩, h.refused, h.known⟩
    exact hs'.free _
  | @started n i q rest as c c' hl hi hc hst =>
    refine h.run hl hc rfl ((step_refines hst).conserved (h.served i c hc).books) ?_
    rw [step_accepted hst]
    simp [Op.submits, Op.task, LoopTask.carries]
  | @closed n i rest as c hl hc =>
    have hst : LtApp.Mysql.lts.step c .syncClose (syncClosed c) := ⟨trivial, congrArg Except.ok (syncClose_eq c)⟩
    refine (h.run hl hc rfl ((step_refines hst).conserved (h.served i c hc).books) ?_).free _
    exact step_accepted hst
  | @removed n i rest as c hl hc =>
    exact h.run hl hc rfl (h.served i c hc).books (by simp [LoopTask.carries])
  | @event i op c c' hop hi hc hst =>
    refine ⟨fun j e he => ?_, h.refused, fun q j hq => (exists_conn?_setConn hc).2 (h.known q j hq)⟩
    by_cases hij : i = j
    · subst hij
      obtain rfl : c' = e := Option.some.inj ((conn?_setConn_self hc).symm.trans he)
      obtain ⟨hg, hb⟩ := h.served i c hc
      refine ⟨?_, (step_refines hst).conserved hb⟩
      rw [step_accepted hst, Op.submits_of_fromPump hop]
      simpa using hg
    · rw [conn?_setConn_ne hij] at he
      exact ⟨(h.served j e he).given, (h.served j e he).books⟩

theorem accounts_start {p : Pool} (hr : p.refused = []) (h : ∀ c ∈ p.connections, Fresh c) :
    Accounts order (start p) := by
  refine ⟨fun i c hc => ?_, by simp [start, hr, givenToNone], by simp [start]⟩
  obtain ⟨errNo, st, opt, a, -, rfl⟩ := h c (List.mem_of_getElem? hc)
  exact ⟨.of_eq rfl, rfl⟩

theorem Reachable.accounts (h : s.Reachable order) : Accounts order s := by
  obtain ⟨opt, bs, count, useIndex, p, ops, hp, hr⟩ := h
  obtain ⟨href, hfresh⟩ := initWithOption_fresh hp
  exact hr.invariant (fun _ _ _ ha hs => ha.step hs) (accounts_start href hfresh)

/-- **Where the sessions are.** In every state a client reaches, and for each of its connections, the sessions
`PendingQuery` has given to the connection are those it has completed, the one in process, those in its queue and those
posted to it, each once; in this order, and in that of the calls, if the loop runs what is posted in order. The other
sessions have been refused, in order. -/
theorem sessions_accounted (order : LoopOrder LoopTask) (s : Client) (h : s.Reachable order) :
    (∀ i c, s.conn? i = some c → order.Alike (givenTo i s.asked)
      (completed c.log ++ (c.inProcess.map (·.id)).toList ++ c.queryList.map (·.id) ++ posted i s.loop)) ∧
    s.pool.refused.map (·.id) = givenToNone s.asked ∧
    ∀ q i, (q, some i) ∈ s.asked → ∃ c, s.conn? i = some c := by
  have ha := h.accounts
  refine ⟨fun i c hc => ?_, ha.refused, ha.known⟩
  obtain ⟨hg, hb⟩ := ha.served i c hc
  have hb : accepted c.log = completed c.log ++ (c.inProcess.map (·.id)).toList ++ c.queryList.map (·.id) := hb
  rwa [← hb]

end

/-- Two connections, the first of which has a ping fail: of three sessions one is refused, and one is in process when
the client is closed. -/
theorem sessions_accounted_run : ∃ s : Client, s.Reachable .front ∧ s.asked = [(1, some 1), (2, none), (3, some 1)] ∧
    (∀ i c, s.conn? i = some c → givenTo i s.asked =
      completed c.log ++ (c.inProcess.map (·.id)).toList ++ c.queryList.map (·.id) ++ posted i s.loop) ∧
    s.pool.refused.map (·.id) = givenToNone s.asked ∧
    ∀ q i, (q, some i) ∈ s.asked → ∃ c, s.conn? i = some c := by
  obtain ⟨s, hr, hs⟩ : ∃ s : Client, (lts .front).Run (start (twoConnections 0))
      [.event 0 (.connectionCheck { err := 1 }), .pendingQuery { id := 1, query := [115] }, .pendingQuery { id := 2 }, .pendingQuery { id := 3 }, .close,
      .runTask 0 [{}, { status := { read := true } }], .runTask 0 [{}], .runTask 0 [{}]] s ∧
      s.asked = [(1, some 1), (2, none), (3, some 1)] :=
    Lts.exists_run_of_exec_imp (P := fun s : Client => s.asked = [(1, some 1), (2, none), (3, some 1)])
      (tryStep_step .front) (by decide) fun _ _ h => h
  have hreach : s.Reachable .front := ⟨{}, _, 2, 0, _, _, initWithOption_two 0, hr⟩
  obtain ⟨halike, hrest⟩ := sessions_accounted .front s hreach
  exact ⟨s, hreach, hs, fun i c hc => (halike i c hc).2 LoopOrder.front_fifo, hrest⟩

end Client
end LtApp.Mysql
