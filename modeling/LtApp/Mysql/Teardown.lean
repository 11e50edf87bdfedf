import Mathlib.Algebra.GroupWithZero.Nat
import LtApp.Base.Borrow
import LtApp.Mysql.Dispatch

/-!
# A client goes

`PendingQuery` posts a raw pointer to the connection, and the pump holds raw pointers to it in the fd event and the
timer. What keeps the connection alive is the client, and after that the `SyncClose`s that `Close` has posted. So it
depends on what has been posted and is armed when the client goes whether a connection can still be reached after it
has been freed: `Covered` says when not (`teardown_safe_iff`). A client that is closed and then let go is covered, and
all of its sessions are completed (`close_then_reset`). All of this is for a loop that runs its tasks in the order of
posting: another could run the `SyncClose` before a `StartQuery` posted earlier.
-/

namespace LtApp.Mysql

def LoopTask.Owns (i : Nat) (t : LoopTask) : Prop := t = .syncClose i

def LoopTask.Uses (i : Nat) (t : LoopTask) : Prop := ∃ q, t = .startQuery i q

namespace Client

/-- Each `StartQuery` posted to a connection is followed by a `SyncClose`, and a connection without one has nothing in
the pump. -/
def Covered (s : Client) : Prop :=
  ∀ i c, s.conn? i = some c → Shielded (LoopTask.Owns i) (LoopTask.Uses i) s.loop ∧
    (LoopTask.syncClose i ∉ s.loop → c.fdEvent = none ∧ c.timeout.attached = false)

/-- The client is gone, and nothing points to a connection that has been freed, or will. -/
structure Secure (s : Client) : Prop extends Tidy s where
  gone    : s.held = false
  guarded : ∀ i c, s.conn? i = some c → Shielded (LoopTask.Owns i) (LoopTask.Uses i) s.loop
  quiet   : ∀ i c, s.conn? i = some c → i ∈ s.freed → c.fdEvent = none ∧ c.timeout.attached = false ∧ c.checker = false

section
variable {order : LoopOrder LoopTask} {s t : Client} {i j : Nat} {c d : Conn}

/-! ## Nothing dangles -/

theorem Secure.not_dangles (h : Secure s) (hf : order.Fifo) (op : ClientOp) : ¬ s.Dangles order op := by
  rintro ⟨he, i, hi, hif⟩
  have hz := useCount_eq_zero.1 (h.freed i hif)
  cases op with
  | runTask n as =>
    simp only [reaches] at hi
    split at hi
    · rename_i j q hx
      obtain rfl : j = i := Option.some.inj hi
      have hl : s.loop = .startQuery j q :: s.loop.eraseIdx n := Taken.eq_cons ⟨he.2, hx, rfl⟩ hf
      obtain ⟨c, hc⟩ := h.named (.startQuery j q) (List.mem_of_getElem? hx)
      have hg := h.guarded j c hc
      rw [hl] at hg
      obtain ⟨y, hy, rfl⟩ := hg.owner ⟨q, rfl⟩
      exact hz.2 (by rw [hl]; exact List.mem_cons_of_mem _ hy)
    · cases hi
  | event j op =>
    obtain rfl : j = i := Option.some.inj hi
    obtain ⟨hop, c, hc, hen⟩ := he
    obtain ⟨hfd, ht, hch⟩ := h.quiet j c hc hif
    cases op with
    | fdWake => simp [enabled, hfd] at hen
    | timerWake => simp [enabled, ht] at hen
    | connectionCheck => simp [enabled, hch] at hen
    | _ => cases hop
  | _ => cases hi

/-- What freeing adds to the queue uses no connection. -/
theorem guarded_free {gone : List Nat} (h : Shielded (LoopTask.Owns i) (LoopTask.Uses i) s.loop) :
    Shielded (LoopTask.Owns i) (LoopTask.Uses i) (s.free gone).loop := by
  refine h.append (.of_not_uses fun y hy => ?_)
  obtain ⟨j, -, rfl⟩ := List.mem_map.1 hy
  rintro ⟨q, hq⟩
  cases hq

/-- What is no longer pointed to is freed, and its destructor leaves nothing behind that reaches it. -/
theorem Loose.secure (h : Loose s) (hgone : s.held = false)
    (hg : ∀ i c, s.conn? i = some c → Shielded (LoopTask.Owns i) (LoopTask.Uses i) s.loop)
    (hq : ∀ i c, s.conn? i = some c → i ∈ s.freed → c.fdEvent = none ∧ c.timeout.attached = false ∧ c.checker = false)
    (hu : ∀ i c, s.conn? i = some c → i ∈ s.unowned → c.fdEvent = none ∧ c.timeout.attached = false) :
    Secure s.collect := by
  have hconn : ∀ i c, s.collect.conn? i = some c →
      ∃ d, s.conn? i = some d ∧ c = if i ∈ s.unowned then destroyed d else d := by
    intro i c hc
    rw [Client.collect, conn?_free] at hc
    obtain ⟨d, hd, rfl⟩ := Option.map_eq_some_iff.1 hc
    exact ⟨d, hd, rfl⟩
  refine ⟨h.collect, hgone, fun i c hc => ?_, fun i c hc hi => ?_⟩
  · obtain ⟨d, hd, -⟩ := hconn i c hc
    exact guarded_free (hg i d hd)
  · obtain ⟨d, hd, rfl⟩ := hconn i c hc
    by_cases hiu : i ∈ s.unowned
    · rw [if_pos hiu]
      obtain ⟨hfd, ht⟩ := hu i d hd hiu
      exact ⟨hfd, ht, rfl⟩
    · rw [if_neg hiu]
      rcases List.mem_append.1 hi with hi | hi
      · exact hq i d hd hi
      · exact absurd hi hiu

/-- One connection has changed; it has not been freed, or has nothing in the pump. -/
theorem quiet_setConn (hc : s.conn? i = some c)
    (h : ∀ j d, s.conn? j = some d → j ∈ s.freed → d.fdEvent = none ∧ d.timeout.attached = false ∧ d.checker = false)
    (hd : i ∈ s.freed → d.fdEvent = none ∧ d.timeout.attached = false ∧ d.checker = false) :
    ∀ j e, (s.setConn i d).conn? j = some e → j ∈ s.freed →
      e.fdEvent = none ∧ e.timeout.attached = false ∧ e.checker = false := by
  intro j e he hj
  by_cases hij : i = j
  · subst hij
    rw [conn?_setConn_self hc] at he
    exact Option.some.inj he ▸ hd hj
  · rw [conn?_setConn_ne hij] at he
    exact h j e he hj

theorem guarded_setConn (hc : s.conn? i = some c)
    (h : ∀ j d, s.conn? j = some d → Shielded (LoopTask.Owns j) (LoopTask.Uses j) s.loop) :
    ∀ j e, (s.setConn i d).conn? j = some e → Shielded (LoopTask.Owns j) (LoopTask.Uses j) s.loop := by
  intro j e he
  obtain ⟨e', he'⟩ := (exists_conn?_setConn hc).1 ⟨e, he⟩
  exact h j e' he'

/-- **Every step keeps what has been freed out of reach.** -/
theorem Secure.step {op : ClientOp} (h : Secure s) (hf : order.Fifo) (hs : (lts order).step s op t) : Secure t := by
  have hno : s.held ≠ true := by simp [h.gone]
  have htail : ∀ {n x rest}, Taken order s.loop n x rest →
      ∀ j d, s.conn? j = some d → Shielded (LoopTask.Owns j) (LoopTask.Uses j) rest := by
    intro n x rest hl j d hd
    have hg := h.guarded j d hd
    rw [hl.eq_cons hf] at hg
    exact hg.tail
  have htidy := h.toTidy.step hs
  cases lts_stepped hs with
  | refused hh | given hh | close hh | reset hh => exact absurd hh hno
  | @started n i q rest as c c' hl hi hc hst =>
    have hc' : ({ s with loop := rest } : Client).conn? i = some c := hc
    exact ⟨htidy, h.gone, guarded_setConn hc' (htail hl), quiet_setConn hc' h.quiet fun hm => absurd hm hi⟩
  | @removed n i rest as c hl hc =>
    have hc' : ({ s with loop := rest } : Client).conn? i = some c := hc
    refine ⟨htidy, h.gone, guarded_setConn hc' (htail hl), quiet_setConn hc' h.quiet fun hm => ?_⟩
    exact ⟨rfl, rfl, (h.quiet i c hc hm).2.2⟩
  | @event i op c c' hop hi hc hst =>
    exact ⟨htidy, h.gone, guarded_setConn hc h.guarded, quiet_setConn hc h.quiet fun hm => absurd hm hi⟩
  | @closed n i rest as c hl hc =>
    have hc' : ({ s with loop := rest } : Client).conn? i = some c := hc
    obtain ⟨hi, hloose⟩ := h.syncClosed hl hc
    refine hloose.secure h.gone (guarded_setConn hc' (htail hl)) (quiet_setConn hc' h.quiet fun hm => absurd hm hi) ?_
    intro j d hd hj
    obtain ⟨-, hz, hjf⟩ := mem_unowned.1 hj
    by_cases hij : i = j
    · subst hij
      obtain rfl : syncClosed c = d := Option.some.inj ((conn?_setConn_self hc').symm.trans hd)
      have hw : (cleaned c).watched = {} := (h.pooled i c hc hi).lifetime.tended.cleaned_watched
      exact ⟨rfl, congrArg WaitStatus.timeout hw⟩
    · -- it had no owner before, and has been freed then
      rw [conn?_setConn_ne hij] at hd
      obtain ⟨hheld, hmem⟩ := useCount_eq_zero.1 hz
      refine absurd (h.kept j d hd (useCount_eq_zero.2 ⟨hheld, ?_⟩)) hjf
      rw [hl.mem_iff, not_or]
      exact ⟨by simpa using Ne.symm hij, hmem⟩

theorem covered_secure (h : Tidy s) (hheld : s.held = true) (hc : Covered s) : Secure s.reset := by
  have hf := h.freed_nil hheld
  have hloose : Loose ({ s with held := false } : Client) := ⟨by simp [hf], h.pooled, h.dead, h.named, h.cleans⟩
  refine hloose.secure rfl (fun i c hi => (hc i c hi).1) (fun i c _ hi => ?_) fun i c hi hu => ?_
  · simp [hf] at hi
  · exact (hc i c hi).2 (useCount_eq_zero.1 (mem_unowned.1 hu).2.1).2

theorem run_secure (h : Secure s) (hf : order.Fifo) {ops : List ClientOp} (hr : (lts order).Run s ops t) : Secure t :=
  hr.invariant (fun _ _ _ hs hst => hs.step hf hst) h

end
end Client

/-! ## The loop goes on -/

/-- What libmysql answers to have the connection wait. -/
def blocked : Answer := { status := { read := true } }

/-- From the idle state `HandleState` can return: it waits for the first session that needs an answer. -/
theorem exists_handleState {c : Conn} (hs : c.currentState = .connectionIdle) (hp : c.inProcess = none) (ev : WaitStatus) :
    ∃ as c', handleState as ev c = .ok c' := by
  generalize hq : c.queryList = w
  induction w generalizing c with
  | nil =>
    cases hsc : c.scheduleClose with
    | false => exact ⟨[{}], c, by simp [handleState, handleStatePass, handleStateIDLE, hs, hq, hsc]⟩
    | true =>
      refine ⟨[{}, blocked], ?_⟩
      simp [handleState, handleStatePass, handleStateIDLE, handleStateConnect, hs, hq, hsc, goNextState, blocked,
        WaitStatus.isZero, Conn.toState]
  | cons q w ih =>
    have htake : handleStatePass {} ev c = .goOn (taken q w c) := by
      simp only [handleStatePass, handleStateIDLE, hs, hq, hp]
      rfl
    cases hn : needsSelect c q with
    | true =>
      refine ⟨[{}, blocked], ?_⟩
      simp only [handleState, htake]
      simp [handleStatePass, handleStateSelectDB, hn, goNextState, blocked, WaitStatus.isZero]
    | false =>
      cases he : q.query.isEmpty with
      | false =>
        refine ⟨[{}, blocked], ?_⟩
        simp only [handleState, htake]
        simp [handleStatePass, hn, he, goNextState, blocked, WaitStatus.isZero]
      | true =>
        have hskip : handleStatePass {} ev (taken q w c) = .goOn (skipped {} (-9999) "empty query" q (taken q w c)) := by
          rw [← skipped_eq rfl]
          simp [handleStatePass, hn, he]
        obtain ⟨as, c', hc'⟩ := ih (c := skipped {} (-9999) "empty query" q (taken q w c)) rfl rfl rfl
        exact ⟨{} :: {} :: as, c', by simp only [handleState, htake, hskip, hc']⟩

/-- `StartQuery` can return. -/
theorem exists_startQuery (q : Session) (c : Conn) : ∃ as c', startQuery q as c = .ok c' := by
  by_cases hk : c.currentState = .connectionIdle ∧ c.inProcess = none
  · obtain ⟨as, c', hc'⟩ := exists_handleState (c := pushQuery q c) hk.1 hk.2 {}
    refine ⟨as, c', ?_⟩
    simp [startQuery, hk.1, hk.2, hc']
  · refine ⟨[], pushQuery q c, ?_⟩
    simp only [startQuery, pushQuery_currentState, pushQuery_inProcess, Option.isNone_iff_eq_none, if_neg hk]

namespace Client

section
variable {order : LoopOrder LoopTask} {s t : Client} {i j : Nat} {c d : Conn}

/-- How much the loop has to do: a `SyncClose` may post a `clean_fn` for each connection. -/
def toDo (s : Client) : Nat :=
  (s.loop.map fun t => if t = .syncClose t.conn then s.pool.connections.length + 1 else 1).sum

theorem toDo_free (gone : List Nat) : (s.free gone).toDo = s.toDo + gone.length := by
  have hlen : (s.free gone).pool.connections.length = s.pool.connections.length := by simp [Client.free]
  have hgone : ∀ n, ((gone.map LoopTask.cleanFn).map fun t => if t = .syncClose t.conn then n + 1 else 1).sum = gone.length := by
    intro n
    simp [List.map_map, Function.comp_def]
  simp only [toDo, hlen, free_loop, List.map_append, List.sum_append, hgone]

theorem unowned_length_le : s.unowned.length ≤ s.pool.connections.length := by
  have h := List.length_filter_le (fun i => decide (s.useCount i = 0 ∧ i ∉ s.freed)) (List.range s.pool.connections.length)
  rwa [List.length_range] at h

/-- **The loop can take its next task**, unless that uses a connection that has been freed. All that is added to the
queue is what freeing adds, and there is less to do. -/
theorem Tidy.exists_step {x : LoopTask} {rest : List LoopTask} (h : Tidy s) (hf : order.Fifo) (hl : s.loop = x :: rest)
    (hd : ∀ as, ¬ s.Dangles order (.runTask 0 as)) : ∃ as t, (lts order).step s (.runTask 0 as) t ∧ t.held = s.held ∧
      (∃ gone : List Nat, t.loop = rest ++ gone.map .cleanFn) ∧ t.toDo < s.toDo := by
  obtain ⟨i, hi⟩ : ∃ i, x.conn = i := ⟨_, rfl⟩
  obtain ⟨c, hc⟩ := h.named x (by simp [hl])
  rw [hi] at hc
  have he : ∀ as, s.Enabled order (.runTask 0 as) := fun as => ⟨by simp [hl], (hf _ 0).2 rfl⟩
  have hrest : ∀ d : Conn, (({ s with loop := rest } : Client).setConn i d).toDo +
      (if x = .syncClose i then s.pool.connections.length + 1 else 1) = s.toDo := by
    intro d
    have hlen : (({ s with loop := rest } : Client).setConn i d).pool.connections.length = s.pool.connections.length := by
      simp
    simp only [toDo, hlen, setConn_loop, hl, List.map_cons, List.sum_cons, hi]
    omega
  have hhandle : ∀ {f : Conn → Except Stop Conn} {d : Conn}, f c = .ok d →
      handle i f { s with loop := rest } = .ok (({ s with loop := rest } : Client).setConn i d) := by
    intro f d hf
    have hc' : ({ s with loop := rest } : Client).conn? i = some c := hc
    simp only [handle, hc', hf, Except.map]
  cases x with
  | startQuery j q =>
    obtain rfl : j = i := hi
    obtain ⟨as, d, hq⟩ := exists_startQuery q c
    refine ⟨as, ({ s with loop := rest } : Client).setConn j d, ⟨he as, hd as, ?_⟩, rfl,
      ⟨[], (List.append_nil rest).symm⟩, ?_⟩
    · simp only [Client.step, Client.runTask, hl, List.getElem?_cons_zero, List.eraseIdx_cons_zero]
      exact hhandle hq
    · have hless := hrest d
      rw [if_neg (by simp)] at hless
      omega
  | cleanFn j =>
    obtain rfl : j = i := hi
    refine ⟨[], ({ s with loop := rest } : Client).setConn j (LtApp.Mysql.cleanFn c), ⟨he [], hd [], ?_⟩, rfl,
      ⟨[], (List.append_nil rest).symm⟩, ?_⟩
    · simp only [Client.step, Client.runTask, hl, List.getElem?_cons_zero, List.eraseIdx_cons_zero]
      exact hhandle rfl
    · have hless := hrest (LtApp.Mysql.cleanFn c)
      rw [if_neg (by simp)] at hless
      omega
  | syncClose j =>
    obtain rfl : j = i := hi
    refine ⟨[], (({ s with loop := rest } : Client).setConn j (syncClose c)).collect, ⟨he [], hd [], ?_⟩, rfl,
      ⟨_, rfl⟩, ?_⟩
    · simp only [Client.step, Client.runTask, hl, List.getElem?_cons_zero, List.eraseIdx_cons_zero]
      rw [hhandle (f := fun c => .ok (syncClose c)) rfl]
      rfl
    · have hle := unowned_length_le (s := ({ s with loop := rest } : Client).setConn j (syncClose c))
      have hlen : (({ s with loop := rest } : Client).setConn j (syncClose c)).pool.connections.length =
          s.pool.connections.length := by simp
      have hless := hrest (syncClose c)
      rw [if_pos rfl] at hless
      rw [collect, toDo_free]
      omega

/-- A queue that is worked off comes to a `StartQuery` with no `SyncClose` behind it: the connection has been freed by
then, if no other is used too late before it. -/
theorem Tidy.exists_dangles {q : Session} {l₁ l₂ : List LoopTask} (h : Tidy s) (hf : order.Fifo)
    (hgone : s.held = false) (hl : s.loop = l₁ ++ .startQuery i q :: l₂) (hn : .syncClose i ∉ l₂) :
    ∃ ops t op, (lts order).Run s ops t ∧ t.Dangles order op := by
  induction l₁ generalizing s l₂ with
  | nil =>
    obtain ⟨c, hc⟩ := h.named (.startQuery i q) (by simp [hl])
    have hz : s.useCount i = 0 := useCount_eq_zero.2 ⟨hgone, by simpa [hl] using hn⟩
    refine ⟨[], s, .runTask 0 [], .nil s, ⟨by simp [hl], (hf _ 0).2 rfl⟩, i, ?_, h.kept i c hc hz⟩
    simp [reaches, hl]
  | cons x l₁ ih =>
    by_cases hd : ∃ as, s.Dangles order (.runTask 0 as)
    · obtain ⟨as, hd⟩ := hd
      exact ⟨[], s, .runTask 0 as, .nil s, hd⟩
    · have hl' : s.loop = x :: (l₁ ++ .startQuery i q :: l₂) := hl
      obtain ⟨as, t, hst, hheld, ⟨gone, hloop⟩, -⟩ := h.exists_step hf hl' fun as has => hd ⟨as, has⟩
      rw [List.append_assoc, List.cons_append] at hloop
      obtain ⟨ops, u, op, hr, hu⟩ := ih (h.step hst) (hheld.trans hgone) hloop (by simp [hn])
      exact ⟨_ :: ops, u, op, .cons hst hr, hu⟩

theorem reset_step (hheld : s.held = true) : (lts order).step s .reset s.reset := by
  refine ⟨hheld, ?_, rfl⟩
  rintro ⟨-, i, hi, -⟩
  cases hi

theorem close_step (hheld : s.held = true) : (lts order).step s .close s.close := by
  refine ⟨hheld, ?_, rfl⟩
  rintro ⟨-, i, hi, -⟩
  cases hi

/-- **When a client can go.** If the loop runs its tasks in the order of posting: in every state the client reaches,
letting it go never leads to the use of a connection that has been freed exactly if each `StartQuery` in the queue has a
`SyncClose` of the same connection behind it, and the connections without one have nothing in the pump. -/
theorem teardown_safe_iff (order : LoopOrder LoopTask) (hfifo : order.Fifo) (s : Client) (h : s.Reachable order)
    (hheld : s.held = true) :
    (∀ ops t, (lts order).Run s.reset ops t → ∀ op, ¬ t.Dangles order op) ↔ Covered s := by
  have hreset : (lts order).step s .reset s.reset := reset_step hheld
  have htidy : Tidy s.reset := h.tidy.step hreset
  have hf := h.tidy.freed_nil hheld
  have hloop : ∃ gone : List Nat, s.reset.loop = s.loop ++ gone.map .cleanFn := ⟨_, rfl⟩
  constructor
  · intro hsafe i c hc
    constructor
    · by_contra hg
      obtain ⟨l₁, x, l₂, hl, ⟨q, rfl⟩, hn⟩ := exists_of_not_shielded hg
      obtain ⟨gone, hgone⟩ := hloop
      rw [hl, List.append_assoc, List.cons_append] at hgone
      have hn' : LoopTask.syncClose i ∉ l₂ ++ gone.map .cleanFn := by
        simpa using fun hm => hn _ hm rfl
      obtain ⟨ops, t, op, hr, hd⟩ := htidy.exists_dangles hfifo rfl hgone hn'
      exact hsafe ops t hr op hd
    · intro hn
      have hu : i ∈ ({ s with held := false } : Client).unowned :=
        mem_unowned.2 ⟨⟨c, hc⟩, useCount_eq_zero.2 ⟨rfl, hn⟩, by simp [hf]⟩
      have hfreed : i ∈ s.reset.freed := List.mem_append_right _ hu
      have hconn : s.reset.conn? i = some (destroyed c) := by
        have hc' : ({ s with held := false } : Client).conn? i = some c := hc
        rw [reset, collect, conn?_free, hc', Option.map_some, if_pos hu]
      constructor
      · cases hfd : c.fdEvent with
        | none => rfl
        | some e =>
          refine absurd ?_ (hsafe [] _ (.nil _) (.event i (.fdWake {} [])))
          exact ⟨⟨rfl, destroyed c, hconn, by simp [enabled, hfd]⟩, i, rfl, hfreed⟩
      · cases ht : c.timeout.attached with
        | false => rfl
        | true =>
          refine absurd ?_ (hsafe [] _ (.nil _) (.event i (.timerWake [])))
          exact ⟨⟨rfl, destroyed c, hconn, by simp [enabled, ht]⟩, i, rfl, hfreed⟩
  · intro hcov ops t hr op
    exact (run_secure (covered_secure h.tidy hheld hcov) hfifo hr).not_dangles hfifo op

/-! ## A client that is closed -/

/-- `Close` posts a `SyncClose` for each connection behind everything posted before. -/
theorem covered_close (s : Client) : Covered s.close := by
  intro i c hc
  have hi : i < s.pool.connections.length := (List.getElem?_eq_some_iff.1 hc).1
  have hmem : LoopTask.syncClose i ∈ (List.range s.pool.connections.length).map LoopTask.syncClose :=
    List.mem_map_of_mem (List.mem_range.2 hi)
  refine ⟨.append_of_owner (.of_not_uses fun y hy => ?_) ⟨_, hmem, rfl⟩, fun hn => ?_⟩
  · obtain ⟨j, -, rfl⟩ := List.mem_map.1 hy
    rintro ⟨q, hq⟩
    cases hq
  · exact absurd (List.mem_append_right _ hmem) hn

/-- Once the client is gone nobody submits anything. -/
theorem asked_of_gone {ops : List ClientOp} (hgone : s.held = false) (hr : (lts order).Run s ops t) :
    t.held = false ∧ t.asked = s.asked := by
  refine hr.invariant (P := fun t => t.held = false ∧ t.asked = s.asked) ?_ ⟨hgone, rfl⟩
  rintro u op v ⟨hheld, hasked⟩ hst
  have hno : u.held ≠ true := by simp [hheld]
  cases lts_stepped hst with
  | refused hh | given hh | close hh | reset hh => exact absurd hh hno
  | started | closed | removed | event => exact ⟨hheld, hasked⟩

/-- The loop can be worked off. -/
theorem Secure.exists_drained (h : Secure s) (hf : order.Fifo) : ∃ ops t, (lts order).Run s ops t ∧ t.loop = [] := by
  generalize hn : s.toDo = n
  induction n using Nat.strongRecOn generalizing s with
  | ind n ih =>
    cases hl : s.loop with
    | nil => exact ⟨[], s, .nil s, hl⟩
    | cons x rest =>
      obtain ⟨as, t, hst, -, -, hless⟩ := h.toTidy.exists_step hf hl fun as => h.not_dangles hf _
      obtain ⟨ops, u, hr, hu⟩ := ih t.toDo (by omega) (h.step hf hst) rfl
      exact ⟨_ :: ops, u, .cons hst hr, hu⟩

/-- **A client that is closed and then let go.** If the loop runs its tasks in the order of posting, then whatever
happens no connection is used that has been freed; the loop can always be worked off; and once it has been, every
connection has been freed, nothing in the pump is left of it, and it has completed every session it was ever given, each
once and in the order of the calls. -/
theorem close_then_reset (order : LoopOrder LoopTask) (hfifo : order.Fifo) (s : Client) (h : s.Reachable order)
    (hheld : s.held = true) (ops : List ClientOp) (t : Client) (hr : (lts order).Run s.close.reset ops t) :
    (∀ op, ¬ t.Dangles order op) ∧ (∃ ops' u, (lts order).Run t ops' u ∧ u.loop = []) ∧
    (t.loop = [] → ∀ i c, t.conn? i = some c → i ∈ t.freed ∧ c.fdEvent = none ∧ c.timeout.attached = false ∧
      completed c.log = givenTo i s.asked) := by
  have hclose : (lts order).step s .close s.close := close_step hheld
  have hclosed : Tidy s.close := h.tidy.step hclose
  have hsec : Secure t := run_secure (covered_secure hclosed hheld (covered_close s)) hfifo hr
  refine ⟨hsec.not_dangles hfifo, hsec.exists_drained hfifo, fun hl i c hc => ?_⟩
  obtain ⟨hgone, hasked⟩ := asked_of_gone rfl hr
  have hf : i ∈ t.freed := hsec.kept i c hc (useCount_eq_zero.2 ⟨hgone, by simp [hl]⟩)
  obtain ⟨hfd, ht, -⟩ := hsec.quiet i c hc hf
  refine ⟨hf, hfd, ht, ?_⟩
  have hacc : Accounts order t := by
    refine hr.invariant (fun _ _ _ ha hst => ha.step hst) ?_
    exact (h.accounts.step (close_step hheld)).step (reset_step hheld)
  obtain ⟨hg, hb⟩ := hacc.served i c hc
  obtain ⟨hp, hq⟩ : c.inProcess = none ∧ c.queryList = [] := by
    have hu : c.inProcess.toList ++ c.queryList = [] := hsec.dead i c hc hf
    simpa using hu
  have hb : accepted c.log = completed c.log ++ (c.inProcess.map (·.id)).toList ++ c.queryList.map (·.id) := hb
  have hasked : t.asked = s.asked := hasked
  simpa [hl, hp, hq, hb, hasked] using (hg.2 hfifo).symm

end

/-- A query has been submitted. -/
def asking : List ClientOp := [.pendingQuery { id := 1, query := [115] }]

/-- **A client that goes with a `StartQuery` posted** leaves the loop with a pointer to a connection that has been
freed. -/
theorem teardown_unsafe_asking : ∃ s : Client, s.Reachable .front ∧
    s.loop = [.startQuery 1 { id := 1, query := [115] }] ∧
    ¬ ∀ ops t, (lts .front).Run s.reset ops t → ∀ op, ¬ t.Dangles .front op := by
  obtain ⟨s, hr, hl, hheld, hc⟩ : ∃ s : Client, (lts .front).Run (start (twoConnections 0)) asking s ∧
      s.loop = [.startQuery 1 { id := 1, query := [115] }] ∧ s.held = true ∧ (s.conn? 1).isSome = true :=
    Lts.exists_run_of_exec_imp (P := fun s : Client => s.loop = [.startQuery 1 { id := 1, query := [115] }] ∧
      s.held = true ∧ (s.conn? 1).isSome = true) (tryStep_step .front) (by decide) fun _ _ h => h
  have hreach : s.Reachable .front := ⟨{}, _, 2, 0, _, _, initWithOption_two 0, hr⟩
  refine ⟨s, hreach, hl, fun hsafe => ?_⟩
  have hcov := (teardown_safe_iff .front LoopOrder.front_fifo s hreach hheld).1 hsafe
  obtain ⟨c, hc⟩ := Option.isSome_iff_exists.1 hc
  have hg := (hcov 1 c hc).1
  rw [hl] at hg
  obtain ⟨y, hy, -⟩ := hg.owner ⟨_, rfl⟩
  cases hy

/-- A query that has been sent is completed when the loop comes to the `SyncClose`. -/
theorem close_then_reset_asking : ∃ s t : Client, s.Reachable .front ∧ (lts .front).Run s.close.reset
      [.runTask 0 [{}, blocked], .runTask 0 [], .runTask 0 [], .runTask 0 [], .runTask 0 []] t ∧ t.loop = [] ∧
    (∀ op, ¬ t.Dangles .front op) ∧ ∀ i c, t.conn? i = some c → i ∈ t.freed ∧ c.fdEvent = none ∧
      c.timeout.attached = false ∧ completed c.log = givenTo i s.asked := by
  obtain ⟨t, hr, hl⟩ : ∃ t : Client, (lts .front).Run (start (twoConnections 0)) (asking ++ [.close, .reset,
      .runTask 0 [{}, blocked], .runTask 0 [], .runTask 0 [], .runTask 0 [], .runTask 0 []]) t ∧ t.loop = [] :=
    Lts.exists_run_of_exec_imp (P := fun t : Client => t.loop = []) (tryStep_step .front) (by decide) fun _ _ h => h
  obtain ⟨s, hs, hr⟩ := hr.split
  have hreach : s.Reachable .front := ⟨{}, _, 2, 0, _, _, initWithOption_two 0, hs⟩
  cases hr with
  | cons hclose hr =>
    cases hr with
    | cons hreset hr =>
      obtain ⟨hheld, -, hclose⟩ := hclose
      obtain rfl := Except.ok.inj hclose
      obtain rfl := Except.ok.inj hreset.2.2
      obtain ⟨hsafe, -, hdone⟩ := close_then_reset .front LoopOrder.front_fifo s hreach hheld _ t hr
      exact ⟨s, t, hreach, hr, hl, hsafe, hdone hl⟩

end Client
end LtApp.Mysql
