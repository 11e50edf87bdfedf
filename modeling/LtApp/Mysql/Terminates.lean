import Mathlib.Algebra.GroupWithZero.Nat
import LtApp.Mysql.Submits

/-!
# `HandleState` returns

The loop comes back to `CONNECTION_IDLE` with every session and to `FETCH_ROW_START` with every row. A pass that goes on
gets closer to the next session or takes it (`Conn.weight`), or it fetches a row of those that are left (`Supplied`):
`pass_descends`. What the callbacks will submit is counted from the start (`yetToCome`), and in `CLOSE_DONE` the loop of
`clean_up` runs over it (`exists_flush`). `comes` puts this together; `Returns.performed` is what ties it to `perform`.
-/

namespace LtApp.Mysql

/-! ## What is assumed of the answers, and what is to be shown -/

/-- The answer ends the fetching of rows: there is none left, or it has to be waited for. -/
def Ends (a : Answer) : Prop := a.row = none ∨ a.status.isZero = false

/-- Rows fetched from the `i`-th pass on come to an end. A row takes two passes, of which the first fetches it. -/
def FetchEnds (a : Nat → Answer) (i : Nat) : Prop := ∃ k, Ends (a (i + 2 * k))

/-- Each result set has finitely many rows: the one that is being fetched, and each that `mysql_use_result` yields. -/
structure FiniteRows (a : Nat → Answer) (c : Conn) : Prop where
  fetched : c.currentState.fetching = true → FetchEnds a 0
  yielded : ∀ i r, (a i).res = some r → FetchEnds a (i + 1)

/-- Where `HandleState` may return: in a `*_WAIT` state, idle with nothing to do, or as `CLOSE_DONE` leaves the
connection. -/
def AtRest (c : Conn) : Prop :=
  c.currentState.isWait = true ∨
  (c.currentState = .connectionIdle ∧ c.queryList = [] ∧ c.inProcess = none ∧ c.scheduleClose = false) ∨
  (c.currentState = .connectDone ∧ c.queryList = [] ∧ c.inProcess = none ∧ c.fdEvent = none ∧ c.ready = false)

theorem Rested.atRest {as : List Answer} {c : Conn} (h : Rested as c) : AtRest c := by
  cases h with
  | @waiting k a ha hs => exact .inl (by rw [hs]; exact k.isWait_wait)
  | idle hs hp hq hsc => exact .inr (.inl ⟨hs, hq, hp, hsc⟩)
  | closed hs hp hq hf hr => exact .inr (.inr ⟨hs, hq, hp, hf, hr⟩)

/-! ## What returns is performed, whatever the depth -/

theorem deep_of_succ {P : Nat → Prop} (h : ∃ N, ∀ n, N ≤ n → P (n + 1)) : ∃ N, ∀ n, N ≤ n → P n := by
  obtain ⟨N, hN⟩ := h
  refine ⟨N + 1, fun n hn => ?_⟩
  obtain ⟨m, rfl⟩ : ∃ m, n = m + 1 := ⟨n - 1, by omega⟩
  exact hN m (by omega)

/-- **A function that returns is performed**, for every depth that is large enough. -/
theorem Returns.performed {j : Job} {r r' : Rig} (h : Returns j r r') : ∃ N, ∀ n, N ≤ n → perform n j r = .ok r' := by
  induction h with
  | passed ha hs hc hp _ ih =>
    obtain ⟨N, hN⟩ := ih
    exact deep_of_succ ⟨N, fun n hn => by simp only [perform, ha, Rig.feed_conn, hs, if_false, hc, hp, hN n hn]⟩
  | rested ha hs hc hp =>
    exact deep_of_succ ⟨0, fun n _ => by simp only [perform, ha, Rig.feed_conn, hs, if_false, hc, hp]⟩
  | completed ha hs hc _ _ ih ih' =>
    obtain ⟨N, hN⟩ := ih
    obtain ⟨N', hN'⟩ := ih'
    refine deep_of_succ ⟨max N N', fun n hn => ?_⟩
    simp only [perform, ha, Rig.feed_conn, hs, if_false, hc, hN n (by omega), Except.bind, hN' n (by omega)]
  | closeDone ha hs _ ih =>
    obtain ⟨N, hN⟩ := ih
    refine deep_of_succ ⟨N, fun n hn => ?_⟩
    simp only [perform, ha, Rig.feed_conn, hs, if_true, hN n hn, Except.bind]
  | pushed hb => exact deep_of_succ ⟨0, fun n _ => by simp only [perform]; exact if_neg hb⟩
  | kicked hs hp _ ih =>
    obtain ⟨N, hN⟩ := ih
    refine deep_of_succ ⟨N, fun n hn => ?_⟩
    simp only [perform]
    rw [if_pos ⟨hs, hp⟩, hN n hn]
  | noted hb => exact deep_of_succ ⟨0, fun n _ => by simp only [perform]; exact if_neg hb⟩
  | closeKicked hp hs _ ih =>
    obtain ⟨N, hN⟩ := ih
    refine deep_of_succ ⟨N, fun n hn => ?_⟩
    simp only [perform]
    rw [if_pos ⟨hp, hs⟩, hN n hn]
  | syncClosed _ ih =>
    obtain ⟨N, hN⟩ := ih
    exact deep_of_succ ⟨N, fun n hn => by simp only [perform, hN n hn, Except.bind]⟩
  | silent hq => exact deep_of_succ ⟨0, fun n _ => by simp only [perform]; exact if_neg hq⟩
  | @invoked r r₁ q l ls hq hl _ ih =>
    obtain ⟨N, hN⟩ := ih
    refine deep_of_succ ⟨N, fun n hn => ?_⟩
    have hq' : (r.on (·.onQueryDone q)).pending q := hq
    simp only [perform]
    rw [if_pos hq']
    simp only [Rig.on_scripts, hl, hN n hn, Except.bind]
  | nil => exact deep_of_succ ⟨0, fun n _ => by simp only [perform]⟩
  | cons _ _ ih ih' =>
    obtain ⟨N, hN⟩ := ih
    obtain ⟨N', hN'⟩ := ih'
    refine deep_of_succ ⟨max N N', fun n hn => ?_⟩
    simp only [perform, hN n (by omega), Except.bind, hN' n (by omega)]
  | cleanedIdle hp _ ih =>
    obtain ⟨N, hN⟩ := ih
    refine deep_of_succ ⟨N, fun n hn => ?_⟩
    simp only [perform, Rig.on_conn, removeEvents_inProcess, hp, hN n hn]
  | cleaned hp _ _ ih ih' =>
    obtain ⟨N, hN⟩ := ih
    obtain ⟨N', hN'⟩ := ih'
    refine deep_of_succ ⟨max N N', fun n hn => ?_⟩
    simp only [perform, Rig.on_conn, removeEvents_inProcess, hp]
    have hd := congrArg (Except.bind · fun r => perform n (.flush 0) (r.on resetInProcess)) (hN n (by omega))
    exact hd.trans (hN' n (by omega))
  | flushed hq => exact deep_of_succ ⟨0, fun n _ => by simp only [perform, hq]⟩
  | flush hq _ hi _ ih ih' =>
    obtain ⟨N, hN⟩ := ih
    obtain ⟨N', hN'⟩ := ih'
    refine deep_of_succ ⟨max N N', fun n hn => ?_⟩
    simp only [perform, hq, hN n (by omega), Except.bind, hi, if_false, hN' n (by omega)]

/-! ## Streams -/

/-- The members `i`, `i + 1`, ..., `k - 1` of a stream. -/
def between {α : Type} (f : Nat → α) (i k : Nat) : List α := (List.range' i (k - i)).map f

@[simp] theorem between_self {α : Type} (f : Nat → α) (i : Nat) : between f i i = [] := by simp [between]

theorem between_cons {α : Type} (f : Nat → α) {i k : Nat} (h : i < k) : between f i k = f i :: between f (i + 1) k := by
  obtain ⟨n, rfl⟩ : ∃ n, k = i + 1 + n := ⟨k - (i + 1), by omega⟩
  have h1 : i + 1 + n - i = n + 1 := by omega
  have h2 : i + 1 + n - (i + 1) = n := by omega
  simp only [between, h1, h2, List.range'_succ, List.map_cons]

theorem between_of_le {α : Type} (f : Nat → α) {i k : Nat} (h : k ≤ i) : between f i k = [] := by
  simp [between, Nat.sub_eq_zero_of_le h]

theorem mem_between {α : Type} {f : Nat → α} {i k : Nat} {x : α} (h : x ∈ between f i k) : ∃ n, x = f n := by
  obtain ⟨n, -, rfl⟩ := List.mem_map.1 h
  exact ⟨n, rfl⟩

/-- What the callbacks call that submit the sessions of the stream. -/
def submitting (s : Nat → List Session) (n : Nat) : List Act := (s n).map .startQuery

theorem submitting_submits (s : Nat → List Session) (i k : Nat) : Submitting (between (submitting s) i k) := by
  intro l hl
  obtain ⟨n, rfl⟩ := mem_between hl
  intro x hx
  obtain ⟨q, -, rfl⟩ := List.mem_map.1 hx
  exact ⟨q, rfl⟩

/-- How many sessions the callbacks submit from the `j`-th invocation on, where the last that submits any comes
before the `J`-th. -/
def yetToCome (s : Nat → List Session) (J j : Nat) : Nat := ((between s j J).map List.length).sum

theorem yetToCome_succ {s : Nat → List Session} {J : Nat} (hs : ∀ n, J ≤ n → s n = []) (j : Nat) :
    yetToCome s J j = (s j).length + yetToCome s J (j + 1) := by
  unfold yetToCome
  by_cases hj : j < J
  · rw [between_cons s hj]
    simp
  · rw [between_of_le s (by omega), between_of_le s (by omega), hs j (by omega)]
    rfl

/-! ## Callbacks -/

/-- The connection with what is left of the streams. -/
@[simps] def Rig.given (as : List Answer) (ls : List (List Act)) (r : Rig) : Rig := { r with answers := as, scripts := ls }

/-- A callback has submitted `qs`. -/
@[simps] def pushAll (qs : List Session) (c : Conn) : Conn :=
  { c with queryList := c.queryList ++ qs, log := (qs.map Ev.accept).reverse ++ c.log }

theorem returns_submitting {qs : List Session} {r : Rig} (hb : r.Busy) :
    Returns (.callback (qs.map .startQuery)) r (r.on (pushAll qs)) := by
  induction qs generalizing r with
  | nil =>
    have hr : r.on (pushAll []) = r := by simp [Rig.on, pushAll]
    rw [hr]
    exact .nil r
  | cons q qs ih =>
    have hrest : r.on (pushAll (q :: qs)) = (r.on (pushQuery q)).on (pushAll qs) := by
      simp [Rig.on, pushAll, pushQuery]
    rw [hrest]
    apply Returns.cons (.pushed _) (ih hb)
    rintro ⟨hs, hp⟩
    exact hb.elim (· hp) (· hs)

section
variable {s : Nat → List Session} {J : Nat}

/-- `OnQueryDone` returns, and its callback has submitted what the stream has for it. -/
theorem exists_done (hs : ∀ n, J ≤ n → s n = []) {r : Rig} (hb : r.Busy) (q : Session) (j : Nat) :
    ∃ (r₁ : Rig) (j₁ : Nat) (qs : List Session), j ≤ j₁ ∧ r₁.conn = pushAll qs (r.conn.onQueryDone q) ∧
      r₁.freed = r.freed ∧ yetToCome s J j = qs.length + yetToCome s J j₁ ∧
      ∀ as k, j₁ ≤ k → Returns (.onQueryDone q) (r.given as (between (submitting s) j k))
        (r₁.given as (between (submitting s) j₁ k)) := by
  by_cases hq : r.pending q
  · refine ⟨{ r with conn := pushAll (s j) (r.conn.onQueryDone q), cleared := q.id :: r.cleared
                     trail := .invoke q.id :: r.trail }, j + 1, s j, by omega, rfl, rfl, yetToCome_succ hs j, ?_⟩
    intro as k hk
    have hb' : ({ (r.given as (between (submitting s) j k)).on (·.onQueryDone q) with
        scripts := between (submitting s) (j + 1) k }.mark (.invoke q.id)).Busy := hb
    exact .invoked (r := r.given as (between (submitting s) j k)) hq (between_cons _ hk) (returns_submitting hb')
  · refine ⟨r.on (·.onQueryDone q), j, [], by omega, ?_, rfl, by simp, fun as k _ => .silent hq⟩
    simp [pushAll, Conn.onQueryDone]

/-- The loop of `clean_up` comes to the end of the queue: the callbacks add to it what is yet to come. -/
theorem exists_flush (hs : ∀ n, J ≤ n → s n = []) {r : Rig} (hb : r.Busy) (i j : Nat) :
    ∃ (r₁ : Rig) (j₁ : Nat), j ≤ j₁ ∧ ∀ as k, j₁ ≤ k →
      Returns (.flush i) (r.given as (between (submitting s) j k)) (r₁.given as (between (submitting s) j₁ k)) := by
  induction hn : r.conn.queryList.length - i + yetToCome s J j using Nat.strongRecOn generalizing r i j with
  | _ n ih =>
    cases hq : r.conn.queryList[i]? with
    | none =>
      refine ⟨{ r.on (fun c => { c with queryList := [] }) with freed := r.freed + r.conn.queryList.length }, j,
        Nat.le_refl _, fun as k _ => ?_⟩
      exact .flushed hq
    | some q =>
      have hlt : i < r.conn.queryList.length := (List.getElem?_eq_some_iff.1 hq).1
      have hb' : (r.on fun c => { c with queryList := c.queryList.set i (q.setCode (-1) "closed") }).Busy := hb
      obtain ⟨r₁, j₁, qs, hj, hconn, hfreed, hyet, hret⟩ := exists_done hs hb' (q.setCode (-1) "closed") j
      have hb₁ : r₁.Busy := by
        unfold Rig.Busy
        rw [hconn]
        exact hb
      have hlen : r₁.conn.queryList.length = r.conn.queryList.length + qs.length := by
        rw [hconn]
        simp
      obtain ⟨r₂, j₂, hj₂, hret₂⟩ := ih _ (by omega) hb₁ (i + 1) j₁ rfl
      refine ⟨r₂, j₂, by omega, fun as k hk => ?_⟩
      have hfreed : r₁.freed - r.freed = 0 := by
        rw [hfreed]
        exact Nat.sub_self _
      refine .flush hq (hret as k (by omega)) ?_ ?_
      · rw [Rig.given_freed, Rig.given_freed, hfreed]
        omega
      · rw [Rig.given_freed, Rig.given_freed, hfreed]
        exact hret₂ as k hk

/-- `clean_up` returns. -/
theorem exists_cleanUp (hs : ∀ n, J ≤ n → s n = []) {r : Rig} (hi : r.conn.currentState ≠ .connectionIdle) (j : Nat) :
    ∃ (r₁ : Rig) (j₁ : Nat), j ≤ j₁ ∧ ∀ as k, j₁ ≤ k →
      Returns .cleanUp (r.given as (between (submitting s) j k)) (r₁.given as (between (submitting s) j₁ k)) := by
  cases hp : r.conn.inProcess with
  | none =>
    have hb : (r.on removeEvents).Busy := .inr hi
    obtain ⟨r₁, j₁, hj, hret⟩ := exists_flush hs hb 0 j
    exact ⟨r₁, j₁, hj, fun as k hk => .cleanedIdle hp (hret as k hk)⟩
  | some q =>
    have hb : (r.on fun c => { removeEvents c with inProcess := some (q.setCode (-1) "closed") }).Busy := .inr hi
    obtain ⟨r₁, j₁, qs, hj, hconn, -, -, hret⟩ := exists_done hs hb (q.setCode (-1) "closed") j
    have hb₁ : (r₁.on resetInProcess).Busy := by
      apply Or.inr
      show r₁.conn.currentState ≠ .connectionIdle
      rw [hconn]
      exact hi
    obtain ⟨r₂, j₂, hj₂, hret₂⟩ := exists_flush hs hb₁ 0 j₁
    exact ⟨r₂, j₂, by omega, fun as k hk => .cleaned hp (hret as k (by omega)) (hret₂ as k hk)⟩

end

/-! ## One pass gets closer to the end -/

/-- How many states are still to come before the next session is taken, or the handler returns. -/
def State.height : State → Nat
  | .selectDbStart | .selectDbWait => 7
  | .selectDbDone => 6
  | .queryStart | .queryWait => 5
  | .queryResultReady | .connectStart | .connectWait => 4
  | .fetchRowStart | .fetchRowWait | .fetchRowResultReady | .connectDone => 3
  | .connectionIdle => 2
  | .closeStart | .closeWait => 1
  | .closeDone | .stateNone | .connectInit => 0

/-- The sessions first, then the states. -/
def Conn.weight (c : Conn) : Nat := 8 * c.queryList.length + c.currentState.height

/-- At most `m` passes from the `i`-th on fetch rows of the result set that is being fetched. -/
def Supplied (a : Nat → Answer) (i m : Nat) (c : Conn) : Prop :=
  match c.currentState with
  | .fetchRowStart | .fetchRowWait => ∃ k, 2 * k < m ∧ Ends (a (i + 2 * k))
  | .fetchRowResultReady => c.resultRow = none ∨ ∃ k, 2 * k + 1 < m ∧ Ends (a (i + 1 + 2 * k))
  | _ => True

theorem supplied_of_not {a : Nat → Answer} {i m : Nat} {c : Conn} (h : c.currentState.fetching = false) :
    Supplied a i m c := by
  unfold Supplied
  split <;> first | trivial | (rename_i hs; rw [hs] at h; cases h)

theorem Kind.finished_height (k : Kind) (hk : k ≠ .fetchRow) : k.finished.height < k.wait.height := by
  cases k <;> first | decide | exact absurd rfl hk

theorem Issues.height {c : Conn} {ev : WaitStatus} {k : Kind} {l : LibCall} (h : Issues c ev k l) :
    c.currentState.height = k.wait.height := by
  rcases h.state with hs | hs
  · rw [hs]; cases k <;> rfl
  · rw [hs]

theorem failed_height (a : Answer) (code : Int) (q : Session) (c : Conn) :
    (failed a code q c).currentState.height ≤ 2 ∧ (failed a code q c).currentState.fetching = false := by
  rw [failed_currentState]
  split <;> decide

/-- Only sessions are reported to have failed. -/
theorem Issues.height_of_reports {c : Conn} {ev : WaitStatus} {k : Kind} {l : LibCall} {a : Answer}
    (h : Issues c ev k l) (hr : c.reports a l = true) : 5 ≤ c.currentState.height := by
  cases h with
  | selectDbStart hs | selectDbCont hs | queryStart hs | queryCont hs => rw [hs]; decide
  | connectStart | connectCont | fetchRowStart | fetchRowCont | closeStart | closeCont => cases hr

/-- Where a row is fetched, the fetches that are left get fewer. -/
theorem supplied_fetched {a : Nat → Answer} {i m : Nat} {ev : WaitStatus} {c d : Conn} {l : LibCall}
    (hi : Issues c ev .fetchRow l) (hz : (a i).status.isZero = true) (hm : Supplied a i m c)
    (hd : d.currentState = .fetchRowResultReady) (hrow : d.resultRow = (a i).row) :
    ∃ m', m' < m ∧ Supplied a (i + 1) m' d := by
  obtain ⟨k, hk, he⟩ : ∃ k, 2 * k < m ∧ Ends (a (i + 2 * k)) := by
    rcases hi.state with hs | hs <;> simpa [Supplied, hs, Kind.start, Kind.wait] using hm
  refine ⟨m - 1, by omega, ?_⟩
  simp only [Supplied, hd, hrow]
  cases k with
  | zero =>
    rcases he with he | he
    · exact .inl he
    · rw [Nat.mul_zero, Nat.add_zero, hz] at he
      cases he
  | succ k =>
    refine .inr ⟨k, by omega, ?_⟩
    have hpos : i + 1 + 1 + 2 * k = i + 2 * (k + 1) := by omega
    rwa [hpos]

/-- **A pass that goes on gets closer to the end**: with the sessions and the states, or with the rows. -/
theorem pass_descends {a : Nat → Answer} {i m : Nat} {ev : WaitStatus} {c d : Conn}
    (hres : ∀ i r, (a i).res = some r → FetchEnds a (i + 1)) (hm : Supplied a i m c)
    (h : Pass (a i) ev c (.goOn d)) :
    (d.weight < c.weight ∧ ∃ m', Supplied a (i + 1) m' d) ∨
      (d.weight = c.weight ∧ ∃ m', m' < m ∧ Supplied a (i + 1) m' d) := by
  cases h with
  | @finish k l hi hr hz =>
    by_cases hk : k = .fetchRow
    · subst hk
      refine .inr ⟨?_, supplied_fetched hi hz hm rfl rfl⟩
      simp only [Conn.weight, hi.height]
      rfl
    · have hh := k.finished_height hk
      rw [← hi.height] at hh
      refine .inl ⟨?_, 0, supplied_of_not ?_⟩
      · cases k <;> simp only [Conn.weight, Kind.store, Conn.toState, Conn.call] <;> omega
      · cases k <;> first | rfl | exact absurd rfl hk
  | @fail k l q hi hr hq =>
    have hh := hi.height_of_reports hr
    obtain ⟨hf, hs⟩ := failed_height (a i) (a i).err q (c.call l (a i))
    refine .inl ⟨?_, 0, supplied_of_not hs⟩
    simp only [Conn.weight, failed_queryList, Conn.call_queryList]
    omega
  | @noResult q hs hq hr =>
    obtain ⟨hf, hs'⟩ := failed_height (a i) (a i).errno q
      { c with result := none, log := .call .errno (a i) :: .call .useResult (a i) :: c.log }
    refine .inl ⟨?_, 0, supplied_of_not hs'⟩
    have hh : c.currentState.height = 4 := by rw [hs]; rfl
    simp only [Conn.weight, failed_queryList]
    omega
  | take hs hq =>
    refine .inl ⟨?_, 0, supplied_of_not ?_⟩
    · simp only [Conn.weight, taken_queryList, taken_currentState, hs, hq, List.length_cons]
      split <;> simp only [State.height] <;> omega
    · rw [taken_currentState]
      split <;> rfl
  | refused hs | connected hs | closing hs | switched hs | selected hs | emptyQuery hs | rowEnd hs =>
    exact .inl ⟨by simp [Conn.weight, hs, State.height], 0, supplied_of_not rfl⟩
  | @gotResult q r hs hq hr =>
    obtain ⟨k, hk⟩ := hres i r hr
    exact .inl ⟨by simp [Conn.weight, hs, State.height], 2 * k + 1, k, by omega, hk⟩
  | @row q r row hs hq hr hrow =>
    obtain ⟨k, hk, he⟩ : ∃ k, 2 * k + 1 < m ∧ Ends (a (i + 1 + 2 * k)) := by
      simpa [Supplied, hs, hrow] using hm
    exact .inr ⟨by simp [Conn.weight, hs, State.height], m - 1, by omega, k, by omega, he⟩

/-! ## The loop -/

/-- From the `i`-th pass and the `j`-th callback on `HandleState` returns. -/
def Comes (a : Nat → Answer) (s : Nat → List Session) (ev : WaitStatus) (i j : Nat) (r : Rig) : Prop :=
  ∃ (K S : Nat) (r' : Rig), i ≤ K ∧ j ≤ S ∧
    Returns (.handleState ev) (r.given (between a i K) (between (submitting s) j S)) (r'.given [] [])

section
variable {a : Nat → Answer} {s : Nat → List Session} {J : Nat} {ev : WaitStatus}

/-- One pass: the handler returns, or the loop goes round, with what a callback has submitted in the queue. -/
theorem comes_or_goes (hs : ∀ n, J ≤ n → s n = []) {r : Rig} (hr : Sited r.conn) (i j : Nat) :
    Comes a s ev i j r ∨ ∃ (r₁ : Rig) (j₁ : Nat) (qs : List Session) (d : Conn), Pass (a i) ev r.conn (.goOn d) ∧
      r₁.conn = { d with queryList := d.queryList ++ qs, log := r₁.conn.log } ∧
      yetToCome s J j = qs.length + yetToCome s J j₁ ∧ (Comes a s ev (i + 1) j₁ r₁ → Comes a s ev i j r) := by
  have hpass : Pass (a i) ev r.conn (handleStatePass (a i) ev r.conn) := handleStatePass_pass
  by_cases hd : r.conn.currentState = .closeDone
  · -- `CLOSE_DONE` returns
    have hi : (r.on (·.setReady false)).conn.currentState ≠ .connectionIdle := by simp [hd]
    obtain ⟨r₁, j₁, hj, hret⟩ := exists_cleanUp hs hi j
    refine .inl ⟨i + 1, j₁, (r₁.on reportClosed).assigned, by omega, hj, ?_⟩
    have hret := hret [] j₁ (Nat.le_refl _)
    rw [between_self] at hret
    rw [between_cons a (by omega), between_self]
    exact .closeDone (r := r.given [a i] (between (submitting s) j j₁)) rfl hd hret
  · cases hc : completing (a i) ev r.conn with
    | some x =>
      obtain ⟨q, c, next⟩ := x
      obtain ⟨hq, ht⟩ := completing_spec hc
      rw [ht] at hpass
      have hb : (r.pass c).Busy := .inl (by simp [hq])
      obtain ⟨r₁, j₁, qs, hj, hconn, -, hyet, hret⟩ := exists_done hs hb q j
      refine .inr ⟨(r₁.on fun c => (resetInProcess c).toState next).assigned, j₁, qs, settled q next c, hpass, ?_, hyet, ?_⟩
      · simp only [Rig.assigned_conn, Rig.on_conn, hconn]
        rfl
      · rintro ⟨K, S, r', hK, hS, hret'⟩
        refine ⟨K, S, r', by omega, by omega, ?_⟩
        rw [between_cons a (by omega)]
        exact .completed (r := r.given (a i :: between a (i + 1) K) (between (submitting s) j S)) rfl hd hc
          (hret (between a (i + 1) K) S hS) hret'
    | none =>
      cases ht : handleStatePass (a i) ev r.conn with
      | checkFailed => exact absurd ht (hr.checks (a i) ev)
      | rest d =>
        refine .inl ⟨i + 1, j, (r.pass d).assigned, by omega, Nat.le_refl _, ?_⟩
        rw [between_cons a (by omega), between_self, between_self]
        exact .rested (r := r.given [a i] []) rfl hd hc ht
      | goOn d =>
        rw [ht] at hpass
        refine .inr ⟨(r.pass d).assigned, j, [], d, hpass, by simp, by simp, ?_⟩
        rintro ⟨K, S, r', hK, hS, hret⟩
        refine ⟨K, S, r', by omega, hS, ?_⟩
        rw [between_cons a (by omega)]
        exact .passed (r := r.given (a i :: between a (i + 1) K) (between (submitting s) j S)) rfl hd hc ht hret

/-- **The loop ends.** The weight of the connection and of the sessions that are yet to come decides, and while rows are
fetched the rows that are left. -/
theorem comes (hs : ∀ n, J ≤ n → s n = []) (hres : ∀ i r, (a i).res = some r → FetchEnds a (i + 1)) (w : Nat) :
    ∀ (m : Nat) (r : Rig) (i j : Nat), Sited r.conn → r.conn.weight + 8 * yetToCome s J j = w →
      Supplied a i m r.conn → Comes a s ev i j r := by
  induction w using Nat.strongRecOn with
  | _ w ihw =>
    intro m
    induction m using Nat.strongRecOn with
    | _ m ihm =>
      intro r i j hr hw hm
      rcases comes_or_goes hs hr i j with hc | ⟨r₁, j₁, qs, d, hpass, hconn, hyet, hcomes⟩
      · exact hc
      · apply hcomes
        have hsited : Sited r₁.conn := (hr.pass hpass).of_eq (by rw [hconn]) (by rw [hconn]) (by rw [hconn])
        have hsupplied : ∀ m', Supplied a (i + 1) m' d → Supplied a (i + 1) m' r₁.conn := by
          intro m' h
          rw [hconn]
          exact h
        have hweight : r₁.conn.weight = d.weight + 8 * qs.length := by
          rw [hconn]
          simp only [Conn.weight, List.length_append]
          omega
        rcases pass_descends hres hm hpass with ⟨hlt, m', hm'⟩ | ⟨heq, m', hlt, hm'⟩
        · exact ihw _ (by omega) m' r₁ (i + 1) j₁ hsited rfl (hsupplied m' hm')
        · exact ihm m' hlt r₁ (i + 1) j₁ hsited (by omega) (hsupplied m' hm')

end

/-- Where `HandleState` is entered, the rows it fetches are bounded. -/
theorem FiniteRows.supplied {a : Nat → Answer} {c : Conn} (h : FiniteRows a c) (hc : c.currentState.isRest = true) :
    ∃ m, Supplied a 0 m c := by
  by_cases hf : c.currentState.fetching = true
  · obtain ⟨k, hk⟩ := h.fetched hf
    refine ⟨2 * k + 1, ?_⟩
    cases hs : c.currentState <;> rw [hs] at hf hc <;> simp only [Supplied, hs] <;>
      first | exact ⟨k, by omega, hk⟩ | exact absurd hf (by decide) | exact absurd hc (by decide)
  · exact ⟨0, supplied_of_not (by simpa using hf)⟩

/-- **`HandleState` returns, fails no `CHECK` and rests where it should.** In every lifetime whose callbacks submit
sessions, wherever `HandleState` is entered, with every event and every stream of answers in which each result set has
finitely many rows, if the callbacks it invokes submit finitely many sessions: some number of answers and callbacks is what
it takes. The lifetime is the first of its object: no task is left over from an earlier one. -/
theorem handleState_returns {r : Rig} {d : Conn} (hr : r.Lifetime) (hd : Enters r.conn d) (ev : WaitStatus)
    (a : Nat → Answer) (s : Nat → List Session) (ha : FiniteRows a d) (hs : ∃ J, ∀ n, J ≤ n → s n = []) :
    ∃ (K S : Nat) (r' : Rig),
      (∃ N, ∀ n, N ≤ n → perform n (.handleState ev)
        { r with conn := d, answers := (List.range K).map a
                 scripts := (List.range S).map fun i => (s i).map Act.startQuery } = .ok r') ∧
      r'.answers = [] ∧ r'.scripts = [] ∧ AtRest r'.conn := by
  obtain ⟨J, hs⟩ := hs
  obtain ⟨hsited, -⟩ := hr.resting.enters hd
  obtain ⟨m, hm⟩ := ha.supplied (hd.state ▸ hr.resting.rest)
  have hcomes : Comes a s ev 0 0 (r.on fun _ => d) := comes hs ha.yielded _ m _ 0 0 hsited rfl hm
  obtain ⟨K, S, r', -, -, hret⟩ := hcomes
  refine ⟨K, S, r'.given [] [], ?_, rfl, rfl, ?_⟩
  · obtain ⟨N, hN⟩ := hret.performed
    refine ⟨N, fun n hn => ?_⟩
    have hp := hN n hn
    simp only [between, Nat.sub_zero, ← List.range_eq_range'] at hp
    exact hp
  · obtain ⟨⟨as, hrest⟩, -⟩ := hret.keeps hsited (submitting_submits s 0 S)
    exact hrest.atRest

/-- The answers to one query with one row, and then to queries that yield no result set. -/
def rowThenNone (n : Nat) : Answer :=
  if n = 2 then { res := some ⟨1, []⟩ } else if n = 3 then { row := some [] } else {}

/-- The callback of the first session submits another. -/
def another (n : Nat) : List Session := if n = 0 then [{ id := 2, query := [115] }] else []

theorem rowThenNone_finite : FiniteRows rowThenNone (pushQuery { id := 1, query := [115] }
    (syncConnected { ret := true } (opened true 0 .stateNone {}))) := by
  constructor
  case fetched =>
    intro hf
    cases hf
  case yielded =>
    intro i r hr
    have hi : i = 2 := by
      by_contra hne
      simp only [rowThenNone, hne, if_false] at hr
      split at hr <;> cases hr
    exact ⟨1, .inl (by rw [hi]; rfl)⟩

theorem handleState_returns_submitted :
    ∃ (K S : Nat) (r' : Rig),
      (∃ N, ∀ n, N ≤ n → perform n (.handleState {})
        { conn := pushQuery { id := 1, query := [115] } (syncConnected { ret := true } (opened true 0 .stateNone {}))
          trail := [.finished], answers := (List.range K).map rowThenNone
          scripts := (List.range S).map fun i => (another i).map Act.startQuery } = .ok r') ∧
      r'.answers = [] ∧ r'.scripts = [] ∧ AtRest r'.conn := by
  have hopen : rigged.step (Rig.opened true 0 .stateNone {}) { op := .syncConnect { ret := true } }
      { conn := syncConnected { ret := true } (opened true 0 .stateNone {}), trail := [.finished] } :=
    ⟨1, by decide⟩
  have hlife := Rig.Lifetime.run rfl hopen (.nil _)
  have hin := @Enters.submitted (syncConnected { ret := true } (opened true 0 .stateNone {}))
    (.startQuery { id := 1, query := [115] } []) { id := 1, query := [115] } rfl rfl rfl
  refine handleState_returns hlife hin {} rowThenNone another rowThenNone_finite ⟨1, fun n hn => ?_⟩
  simp only [another]
  rw [if_neg (by omega)]

end LtApp.Mysql
