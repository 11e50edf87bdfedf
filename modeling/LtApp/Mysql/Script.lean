import Mathlib.Algebra.GroupWithZero.Nat
import LtApp.Base.Iterate
import LtApp.Mysql.Phase

/-!
# Playing a connection against a scripted library

A `Script` fixes what the library will do: for each non-blocking operation its final result, and the waits
before it. `playNext` is one pass of the `HandleState` loop under the script. A pass that returns in a
`*_WAIT` state is followed by the wake-up the script has for it, `OnWaitEventInvoked` or `OnTimeOut`.

| here | there |
| --- | --- |
| `Wait`      | a `*_start` or `*_cont` call that returns a nonzero status, and the event that ends the wait |
| `Script`    | what is left for the library to do, and what the operation that finished last has left in `mysql_` |
| `playNext`  | one turn of `while (st_continue)` (`mysql_async_con.cc:241`), or the return and the next wake-up |

`play_isSome` proves that every script is played to its end, `play_run` that what is played is a run of the
system.
-/

namespace LtApp.Mysql

/-- A call that blocks, and what wakes the connection up: an fd event, or the timer (`none`). -/
structure Wait where
  answer : Answer
  wake   : Option LtEvent := some {}
deriving DecidableEq, Repr

structure Script where
  /-- The operations still to come: the waits of each and its final result. -/
  ops : List (List Wait × Answer)
  /-- What the last operation to finish has left for the calls that read it. -/
  cur : Answer := {}
deriving DecidableEq, Repr

/-- A call that blocks reports a nonzero status and no error; the timer ends a wait that asked for it. -/
structure Wait.Sound (w : Wait) : Prop where
  blocks : w.answer.status.isZero = false
  err    : w.answer.err = 0
  timed  : w.wake = none → w.answer.status.timeout = true

/-- A final result comes with the status 0. After a failed query `mysql_use_result` yields nothing and
`mysql_errno` is the error. -/
structure Answer.Final (f : Answer) : Prop where
  done  : f.status.isZero = true
  res   : f.err ≠ 0 → f.res = none
  errno : f.err ≠ 0 → f.errno = f.err

def Script.Sound (s : Script) : Prop := ∀ o ∈ s.ops, (∀ w ∈ o.1, w.Sound) ∧ o.2.Final

/-- The pass makes a `*_start` or `*_cont` call. -/
def Conn.calls (c : Conn) : Bool :=
  match c.currentState with
  | .queryStart => c.inProcess.any fun q => !q.query.isEmpty
  | .selectDbStart | .selectDbWait | .queryWait => c.inProcess.isSome
  | .connectStart | .connectWait | .fetchRowStart | .fetchRowWait | .closeStart | .closeWait => true
  | _ => false

/-- The answer to the pass, the wake-up should it block, and the script after it; `none` when the library is
asked for more than the script has. -/
def Script.feed (s : Script) (c : Conn) : Option (Answer × Option LtEvent × Script) :=
  if c.calls then
    match s.ops with
    | [] => none
    | (w :: ws, f) :: ops => some (w.answer, w.wake, { s with ops := (ws, f) :: ops })
    | ([], f) :: ops => some (f, none, ⟨ops, f⟩)
  else some (s.cur, none, s)

def wakeStatus : Option LtEvent → WaitStatus
  | some e => ltEvToMysqlStatus e
  | none => { timeout := true }

/-- In the middle of a handler: the script, the event the handler was given, the connection. -/
structure Playing where
  script : Script
  event  : WaitStatus := {}
  conn   : Conn
deriving DecidableEq, Repr

/-- How a play ends. -/
inductive End
  /-- The script has no result for the call to be made. -/
  | stopped (c : Conn)
  /-- The handler has returned, and not to wait for the library. -/
  | rested (c : Conn)
  | aborted
deriving DecidableEq, Repr

def playNext (p : Playing) : Playing ⊕ End :=
  match p.script.feed p.conn with
  | none => .inr (.stopped p.conn)
  | some (a, wake, s) =>
    match handleStatePass a p.event p.conn with
    | .goOn c => .inl ⟨s, p.event, c⟩
    | .rest c =>
      if c.currentState.isWait then
        match resetWaitEvent c with
        | none => .inr .aborted
        | some d => .inl ⟨s, wakeStatus wake, d⟩
      else .inr (.rested c)
    | .checkFailed => .inr .aborted

theorem playNext_goOn {p : Playing} {a : Answer} {w : Option LtEvent} {s : Script} {c : Conn}
    (hf : p.script.feed p.conn = some (a, w, s)) (hc : handleStatePass a p.event p.conn = .goOn c) :
    playNext p = .inl ⟨s, p.event, c⟩ := by
  simp [playNext, hf, hc]

/-- The loop goes round, or the handler returns to wait and is woken up. -/
theorem playNext_inl {p p' : Playing} (h : playNext p = .inl p') :
    ∃ a w s, p.script.feed p.conn = some (a, w, s) ∧
      ((∃ c, handleStatePass a p.event p.conn = .goOn c ∧ p' = ⟨s, p.event, c⟩) ∨
       (∃ c d, handleStatePass a p.event p.conn = .rest c ∧ c.currentState.isWait = true ∧
         resetWaitEvent c = some d ∧ p' = ⟨s, wakeStatus w, d⟩)) := by
  unfold playNext at h
  split at h
  · simp at h
  · rename_i a w s hf
    refine ⟨a, w, s, hf, ?_⟩
    split at h
    · rename_i c hc
      exact .inl ⟨c, hc, (Sum.inl.inj h).symm⟩
    · rename_i c hc
      split at h
      · rename_i hw
        split at h
        · simp at h
        · rename_i d hd
          exact .inr ⟨c, d, hc, hw, hd, (Sum.inl.inj h).symm⟩
      · simp at h
    · simp at h

theorem playNext_rested {p : Playing} {c : Conn} (h : playNext p = .inr (.rested c)) :
    ∃ a w s, p.script.feed p.conn = some (a, w, s) ∧ handleStatePass a p.event p.conn = .rest c := by
  unfold playNext at h
  split at h
  · simp at h
  · rename_i a w s hf
    split at h
    · simp at h
    · rename_i d hd
      split at h
      · split at h <;> simp at h
      · simp only [Sum.inr.injEq, End.rested.injEq] at h
        exact ⟨a, w, s, hf, h ▸ hd⟩
    · simp at h

/-! ## Every script is played to its end -/

/-- How far a state is from the next call or the next session. -/
def State.rank : State → Nat
  | .selectDbDone => 3
  | .queryStart | .connectDone | .queryResultReady | .fetchRowResultReady => 2
  | .connectionIdle => 1
  | _ => 0

/-- The calls the script has left. -/
def Script.size (s : Script) : Nat := (s.ops.map fun o => o.1.length + 1).sum

def Conn.left (c : Conn) : Nat := 3 * c.queryList.length + c.currentState.rank

/-- The passes that can still follow. -/
def Playing.budget (p : Playing) : Nat := 5 * p.script.size + p.conn.left

def play (p : Playing) : Option End := iterate playNext (p.budget + 1) p

theorem State.rank_le (s : State) : s.rank ≤ 3 := by cases s <;> simp [State.rank]

theorem Issues.calls {c : Conn} {ev : WaitStatus} {k : Kind} {l : LibCall} (h : Issues c ev k l) :
    c.calls = true := by
  cases h <;> simp_all [Conn.calls]

theorem exists_issues {c : Conn} (h : c.calls = true) (ev : WaitStatus) : ∃ k l, Issues c ev k l := by
  cases hs : c.currentState <;> simp only [Conn.calls, hs, Bool.false_eq_true] at h
  case connectStart => exact ⟨_, _, .connectStart hs⟩
  case connectWait => exact ⟨_, _, .connectCont hs⟩
  case fetchRowStart => exact ⟨_, _, .fetchRowStart hs⟩
  case fetchRowWait => exact ⟨_, _, .fetchRowCont hs⟩
  case closeStart => exact ⟨_, _, .closeStart hs⟩
  case closeWait => exact ⟨_, _, .closeCont hs⟩
  all_goals cases hp : c.inProcess <;> simp only [hp, Option.any_none, Option.any_some, Option.isSome_none,
    Bool.false_eq_true, Bool.not_eq_true'] at h
  case selectDbStart.some => exact ⟨_, _, .selectDbStart hs hp⟩
  case selectDbWait.some => exact ⟨_, _, .selectDbCont hs hp⟩
  case queryStart.some => exact ⟨_, _, .queryStart hs hp h⟩
  case queryWait.some => exact ⟨_, _, .queryCont hs hp⟩

/-- A pass that makes a call, in closed form. -/
theorem Issues.pass {c : Conn} {ev : WaitStatus} {k : Kind} {l : LibCall} (h : Issues c ev k l) (a : Answer) :
    handleStatePass a ev c =
      if c.reports a l then failQuery a a.err (c.call l a)
      else if a.status.isZero then .goOn ((k.store a (c.call l a)).toState k.finished)
      else .rest (armed a a.status ((c.call l a).toState k.wait)) := by
  cases hz : a.status.isZero <;> cases h <;>
    simp [handleStatePass, handleStateConnect, handleStateSelectDB, goNextState, waitMysqlStatus_eq, Conn.reports,
      storeRet, storeRow, Kind.store, Kind.finished, Kind.wait, *]

theorem Script.feed_calls {s s' : Script} {c : Conn} {a : Answer} {w : Option LtEvent} (hc : c.calls = true)
    (h : s.feed c = some (a, w, s')) : s'.size + 1 = s.size := by
  unfold Script.feed at h
  rw [if_pos hc] at h
  split at h
  · simp at h
  · rename_i w ws f ops hops
    simp only [Option.some.injEq, Prod.mk.injEq] at h
    obtain ⟨-, -, rfl⟩ := h
    simp only [Script.size, hops, List.map_cons, List.sum_cons, List.length_cons]
    omega
  · rename_i f ops hops
    simp only [Option.some.injEq, Prod.mk.injEq] at h
    obtain ⟨-, -, rfl⟩ := h
    simp only [Script.size, hops, List.map_cons, List.sum_cons, List.length_nil]
    omega

theorem Script.feed_reads {s s' : Script} {c : Conn} {a : Answer} {w : Option LtEvent} (hc : c.calls = false)
    (h : s.feed c = some (a, w, s')) : a = s.cur ∧ s' = s := by
  unfold Script.feed at h
  simp only [hc, Bool.false_eq_true, if_false, Option.some.injEq, Prod.mk.injEq] at h
  exact ⟨h.1.symm, h.2.2.symm⟩

theorem pass_queryList {a : Answer} {ev : WaitStatus} {c c' : Conn} (h : Pass a ev c (.goOn c')) :
    c'.queryList.length ≤ c.queryList.length := by
  cases h with
  | @finish k => cases k <;> exact Nat.le_refl _
  | take _ hq => simp [hq]
  | _ => exact Nat.le_refl _

/-- A pass that calls nothing gets closer to the next call, or takes a session. -/
theorem pass_left {a : Answer} {ev : WaitStatus} {c c' : Conn} (hn : c.calls = false)
    (h : Pass a ev c (.goOn c')) : c'.left < c.left := by
  have hi : ∀ {k l}, Issues c ev k l → False := fun hi => by simp [hi.calls] at hn
  cases h with
  | finish h | fail h => exact (hi h).elim
  | refused hs | connected hs | closing hs | switched hs | selected hs | emptyQuery hs | gotResult hs
  | rowEnd hs | row hs => simp [Conn.left, hs, State.rank]
  | take hs hq =>
    simp only [Conn.left, taken_queryList, taken_currentState, hs, hq, List.length_cons]
    split <;> simp only [State.rank] <;> omega
  | noResult hs =>
    simp only [Conn.left, failed_queryList, failed_currentState, hs]
    split <;> simp only [State.rank] <;> omega

theorem playNext_budget (p p' : Playing) (h : playNext p = .inl p') : p'.budget < p.budget := by
  obtain ⟨a, w, s, hf, h⟩ := playNext_inl h
  have hp : Pass a p.event p.conn (handleStatePass a p.event p.conn) := handleStatePass_pass
  rcases h with ⟨d, hd, rfl⟩ | ⟨d, e, hd, hw, he, rfl⟩
  · rw [hd] at hp
    cases hc : p.conn.calls with
    | true =>
      have h1 := Script.feed_calls hc hf
      have h2 := pass_queryList hp
      have h3 := d.currentState.rank_le
      simp only [Playing.budget, Conn.left]
      omega
    | false =>
      obtain ⟨-, rfl⟩ := Script.feed_reads hc hf
      have h1 := pass_left hc hp
      simp only [Playing.budget]
      omega
  · rw [hd] at hp
    obtain ⟨fd, -, rfl⟩ := resetWaitEvent_eq he
    cases hp with
    | @wait k l hi hr hz =>
      have h1 := Script.feed_calls hi.calls hf
      have h2 := k.wait.rank_le
      simp only [Playing.budget, Conn.left, disarmed_queryList, disarmed_currentState, armed_queryList,
        armed_currentState, Conn.toState_queryList, Conn.toState_currentState, Conn.call_queryList]
      omega
    | closed => simp [State.isWait] at hw
    | idle hs => simp [hs, State.isWait] at hw

/-- **Every script is played to its end.** -/
theorem play_isSome (p : Playing) : (play p).isSome = true :=
  iterate_isSome playNext_budget (Nat.lt_succ_self _)

/-! ## What is played is a run of the system -/

/-- The wake-up handler, as an operation. -/
def wakeOp (wake : Option LtEvent) (as : List Answer) : Op :=
  match wake with
  | some e => .fdWake e as
  | none => .timerWake as

theorem step_wakeOp {c d e : Conn} {wake : Option LtEvent} {as : List Answer} (hd : resetWaitEvent c = some d)
    (ht : wake = none → c.timeout.attached = true) (h : handleState as (wakeStatus wake) d = .ok e) :
    lts.step c (wakeOp wake as) e := by
  obtain ⟨fd, hf, -⟩ := resetWaitEvent_eq hd
  cases wake with
  | some x => exact ⟨by simp [wakeOp, enabled, hf], by simpa [wakeOp, step, onWaitEventInvoked, hd, wakeStatus] using h⟩
  | none => exact ⟨ht rfl, by simpa [wakeOp, step, onTimeOut, hd, wakeStatus] using h⟩

theorem Script.Sound.feed {s s' : Script} {c : Conn} {a : Answer} {w : Option LtEvent} (hs : s.Sound)
    (h : s.feed c = some (a, w, s')) :
    s'.Sound ∧ (c.calls = true → a.status.isZero = false → w = none → a.status.timeout = true) := by
  cases hc : c.calls with
  | false =>
    obtain ⟨-, rfl⟩ := Script.feed_reads hc h
    exact ⟨hs, by simp⟩
  | true =>
    unfold Script.feed at h
    rw [if_pos hc] at h
    split at h
    · simp at h
    · rename_i w ws f ops hops
      simp only [Option.some.injEq, Prod.mk.injEq] at h
      obtain ⟨rfl, rfl, rfl⟩ := h
      have ho := hs (w :: ws, f) (by simp [hops])
      refine ⟨fun o hmem => ?_, fun _ _ => (ho.1 w (by simp)).timed⟩
      rcases List.mem_cons.1 hmem with rfl | hmem
      · exact ⟨fun x hx => ho.1 x (by simp [hx]), ho.2⟩
      · exact hs o (by simp [hops, hmem])
    · rename_i f ops hops
      simp only [Option.some.injEq, Prod.mk.injEq] at h
      obtain ⟨rfl, rfl, rfl⟩ := h
      refine ⟨fun o hmem => hs o (by simp [hops, hmem]), fun _ hz => ?_⟩
      simp [(hs ([], f) (by simp [hops])).2.done] at hz

/-- **What is played is a run of the system**: a play that comes to rest is a handler that returns, followed by
wake-ups. -/
theorem play_run {n : Nat} {p : Playing} {c' : Conn} (hp : p.script.Sound)
    (h : iterate playNext n p = some (.rested c')) :
    ∃ as d ops, handleState as p.event p.conn = .ok d ∧ lts.Run d ops c' := by
  induction n generalizing p with
  | zero => simp [iterate] at h
  | succ n ih =>
    cases hn : playNext p with
    | inr r =>
      rw [iterate_of_inr hn, Option.some.injEq] at h
      subst h
      obtain ⟨a, w, s, hf, hd⟩ := playNext_rested hn
      exact ⟨[a], c', [], by simp [handleState, hd], .nil _⟩
    | inl p' =>
      rw [iterate_of_inl hn] at h
      obtain ⟨a, w, s, hf, hn⟩ := playNext_inl hn
      obtain ⟨hs, hw⟩ := hp.feed hf
      rcases hn with ⟨d, hd, rfl⟩ | ⟨d, d', hd, hwait, hd', rfl⟩
      · obtain ⟨as, e, ops, he, hr⟩ := ih (p := ⟨s, p.event, d⟩) hs h
        exact ⟨a :: as, e, ops, by simp [handleState, hd, he], hr⟩
      · obtain ⟨as, e, ops, he, hr⟩ := ih (p := ⟨s, wakeStatus w, d'⟩) hs h
        have hpass : Pass a p.event p.conn (.rest d) := hd ▸ handleStatePass_pass
        have hatt : w = none → d.timeout.attached = true := by
          intro hnone
          cases hpass with
          | wait hi hrep hz => simp [hw hi.calls hz hnone]
          | closed => simp [State.isWait] at hwait
          | idle hidle => simp [hidle, State.isWait] at hwait
        exact ⟨[a], d, wakeOp w as :: ops, by simp [handleState, hd], .cons (step_wakeOp hd' hatt he) hr⟩

end LtApp.Mysql
