import LtApp.Base.Custody
import LtApp.Mysql.Phase
import LtApp.Mysql.Reentrant

/-!
# Result sets are released once

The result set `mysql_use_result` has returned is held in `result_`, which is never reset: what says that one is held
is the state, a `FETCH_ROW_*` one (`holding`). Every path of `HandleState` out of these states goes through the one
branch that frees it, errors included, and a close that was asked for waits for it. `SyncClose` does not: it leaves
`FETCH_ROW_WAIT` without looking at `result_`, and so does a connect.

The runs are those of `rigged`: finish callbacks may call the connection back.
-/

namespace LtApp.Mysql

open Dealing

/-- What a call does with a result set. A query and a close must find none held. -/
def Ev.dealing : Ev → Option (Dealing MysqlRes)
  | .call .useResult a => a.res.map .take
  | .call (.fetchRowStart r) _ | .call (.fetchRowCont r _) _ => r.map .use
  | .call (.numRows r) _ | .call (.numFields r) _ | .call (.fetchField r) _ => some (.use r)
  | .call (.freeResult r) _ => some (.free r)
  | .call (.realQueryStart _) _ | .call .closeStart _ | .call .close _ => some .bare
  | _ => none

def dealings (log : List Ev) : List (Dealing MysqlRes) := log.filterMap Ev.dealing

/-- The result set that is being read. -/
def holding (c : Conn) : Option MysqlRes := if c.currentState.fetching then c.result else none

/-- The dealings so far release every result set once, and the state knows the one that is held. -/
def Custodial (c : Conn) : Prop := custody.Stands (dealings c.log) (holding c)

theorem holding_of_not {c : Conn} (h : c.currentState.fetching = false) : holding c = none := by simp [holding, h]

theorem holding_eq {c : Conn} (h : c.currentState.fetching = true) : holding c = c.result := by simp [holding, h]

theorem dealings_skip {es log : List Ev} (h : ∀ e ∈ es, e.dealing = none) : dealings (es ++ log) = dealings log := by
  unfold dealings
  rw [List.filterMap_append, List.filterMap_eq_nil_iff.2 h, List.nil_append]

section
variable {a : Answer} {ev : WaitStatus} {c c' : Conn}

/-- What is no dealing changes nothing. -/
theorem Custodial.frame {w : List Ev} (h : Custodial c) (hl : c'.log = w ++ c.log) (hes : ∀ e ∈ w, e.dealing = none)
    (hh : holding c' = holding c) : Custodial c' := by
  unfold Custodial
  rw [hl, dealings_skip hes, hh]
  exact h

theorem Custodial.leave {w : List Ev} (h : Custodial c) (hl : c'.log = w ++ c.log) (hes : ∀ e ∈ w, e.dealing = none)
    (hs : c.currentState.fetching = false) (hs' : c'.currentState.fetching = false) : Custodial c' :=
  h.frame hl hes ((holding_of_not hs').trans (holding_of_not hs).symm)

theorem armLog_dealing {st : WaitStatus} : ∀ e ∈ armLog a st c, e.dealing = none :=
  armLog_forall (P := fun e => e.dealing = none) rfl rfl st c

/-! ## Passes -/

/-- The call of a non-blocking operation leaves the result set held, or finds none. -/
theorem Issues.keeps {k : Kind} {l : LibCall} (hi : Issues c ev k l) (h : Custodial c) :
    custody.Stands (dealings (.call l a :: c.log)) (holding c) := by
  have hbare : c.currentState.fetching = false → custody.Stands (.bare :: dealings c.log) (holding c) := by
    intro hs
    apply h.ignore
    exact ⟨holding_of_not hs, rfl⟩
  have huse : c.currentState.fetching = true →
      custody.Stands ((c.result.map Dealing.use).toList ++ dealings c.log) (holding c) := by
    intro hs
    apply h.append
    intro e he
    rw [holding_eq hs]
    cases hr : c.result with
    | none => simp [hr] at he
    | some r =>
      obtain rfl : e = .use r := by simpa [hr] using he
      exact ⟨rfl, rfl⟩
  cases hi with
  | queryStart hs => exact hbare (by rw [hs]; rfl)
  | closeStart hs => exact hbare (by rw [hs]; rfl)
  | fetchRowStart hs | fetchRowCont hs =>
    have h' := huse (by rw [hs]; rfl)
    cases hr : c.result with
    | none =>
      rw [hr] at h'
      exact h'
    | some r =>
      rw [hr] at h'
      exact h'
  | _ => exact h

/-- Only a selection or a query is taken to have failed. -/
theorem Issues.fetching_of_reports {k : Kind} {l : LibCall} (hi : Issues c ev k l) (hr : c.reports a l = true) :
    c.currentState.fetching = false := by
  rw [hi.fetching]
  cases hi <;> first | rfl | simp [Conn.reports] at hr

theorem pass_custodial (h : Custodial c) (hp : Pass a ev c (.goOn c') ∨ Pass a ev c (.rest c')) : Custodial c' := by
  rcases hp with hp | hp
  · cases hp with
    | @finish k l hi hr hz =>
      have hs : custody.Stands (dealings (.call l a :: c.log)) (holding c) := hi.keeps h
      have hh : holding ((k.store a (c.call l a)).toState k.finished) = holding c := by
        have hf := hi.fetching
        unfold holding
        rw [Conn.toState_currentState, k.finished_fetching, hf]
        cases k <;> rfl
      unfold Custodial
      rw [hh]
      cases k <;> exact hs
    | @fail k l q hi hr hq =>
      have hs : custody.Stands (dealings (.call l a :: c.log)) (holding c) := hi.keeps h
      rw [holding_of_not (hi.fetching_of_reports hr)] at hs
      have hh : holding (failed a a.err q (c.call l a)) = none := by
        apply holding_of_not
        simp only [failed_currentState]
        split <;> rfl
      unfold Custodial
      rw [hh]
      exact hs
    | refused hs => exact h.leave (w := [.ready false]) rfl (by simp [Ev.dealing]) (by rw [hs]; rfl) rfl
    | connected hs hr =>
      refine h.leave (w := (if c.client then [.onConnectReady] else []) ++ [.ready true]) (by simp) ?_ (by rw [hs]; rfl) rfl
      cases c.client <;> simp [Ev.dealing]
    | closing hs => exact h.leave (w := [.closing]) rfl (by simp [Ev.dealing]) (by rw [hs]; rfl) rfl
    | take hs =>
      refine h.leave (w := []) rfl (by simp) (by rw [hs]; rfl) ?_
      rw [taken_currentState]
      split <;> rfl
    | switched hs | emptyQuery hs =>
      refine h.leave (w := [.done _, .call .affectedRows a]) rfl (by simp [Ev.dealing]) (by rw [hs]; rfl) rfl
    | selected hs => exact h.leave (w := []) rfl (by simp) (by rw [hs]; rfl) rfl
    | noResult hs hq hres =>
      refine h.leave (w := [.done _, .call .affectedRows a, .call .error a, .call .errno a, .call .useResult a]) rfl ?_
        (by rw [hs]; rfl) ?_
      · simp [Ev.dealing, hres]
      · simp only [failed_currentState]
        split <;> rfl
    | @gotResult q r hs hq hres =>
      have hn : holding c = none := holding_of_not (by rw [hs]; rfl)
      have hd : dealings (.call .useResult a :: c.log) = .take r :: dealings c.log := by
        simp [dealings, Ev.dealing, hres]
      unfold Custodial at h ⊢
      rw [hn] at h
      rw [hd]
      exact h.cons (e := Dealing.take r) rfl
    | @rowEnd q r hs hq hr hrow =>
      have hh : holding c = some r := (holding_eq (by rw [hs]; rfl)).trans hr
      have hd : dealings (fetchEnded a q r c).log = .free r :: .use r :: dealings c.log := by
        by_cases he : a.errno = 0
        · simp only [fetchEnded_log, fetchEndLog, he, ne_eq, not_true_eq_false, if_false]
          rfl
        · simp only [fetchEnded_log, fetchEndLog, he, ne_eq, not_false_eq_true, if_true]
          rfl
      unfold Custodial at h ⊢
      rw [hh] at h
      rw [hd]
      exact (h.ignore (e := Dealing.use r) ⟨rfl, rfl⟩).cons (e := Dealing.free r) rfl
    | @row q r row hs hq hr hrow =>
      have hh : holding c = some r := (holding_eq (by rw [hs]; rfl)).trans hr
      have hd : ∃ es, dealings (rowFetched a q r row c).log = es ++ dealings c.log ∧ ∀ e ∈ es, e = .use r := by
        cases hcol : q.columNames.isEmpty with
        | true => exact ⟨[.use r, .use r], by simp [dealings, fetchRowLog, hcol, Ev.dealing], by simp⟩
        | false => exact ⟨[.use r], by simp [dealings, fetchRowLog, hcol, Ev.dealing], by simp⟩
      obtain ⟨es, hd, hes⟩ := hd
      have hh' : holding (rowFetched a q r row c) = some r := (holding_eq rfl).trans hr
      unfold Custodial at h ⊢
      rw [hh] at h
      rw [hd, hh']
      apply h.append
      intro e he
      rw [hes e he]
      exact ⟨rfl, rfl⟩
  · cases hp with
    | @wait k l hi hr hz =>
      have hs : custody.Stands (dealings (.call l a :: c.log)) (holding c) := hi.keeps h
      have hh : holding (armed a a.status ((c.call l a).toState k.wait)) = holding c := by
        simp only [holding, armed_currentState, Conn.toState_currentState, hi.fetching]
        rfl
      unfold Custodial
      rw [hh, armed_log, dealings_skip armLog_dealing]
      exact hs
    | closed hs =>
      show Custodial (closed c)
      refine h.leave (w := (if c.client then [.onConnectionClosed] else []) ++
        (((unfinished (c.setReady false)).map fun q => Ev.done (q.setCode (-1) "closed")).reverse ++ [.ready false]))
        (by simp) ?_ (by rw [hs]; rfl) rfl
      cases c.client <;> simp +contextual [Ev.dealing, or_imp]
    | idle => exact h

theorem handleState_custodial {as : List Answer} (h : Custodial c) (hh : handleState as ev c = .ok c') : Custodial c' :=
  handleState_induct (P := Custodial) (Q := Custodial) (fun _ _ _ _ hd hp => pass_custodial hd (.inl hp))
    (fun _ _ _ _ hd hp => pass_custodial hd (.inr hp)) h hh

end

/-! ## Steps -/

/-- The operation leaves the state the machine is in, whatever it is: `SyncClose`, and a connect. -/
def Op.leaves (c : Conn) : Op → Bool
  | .initConnection _ | .connect => true
  | .syncConnect a => a.ret
  | op => op.task c = some .syncClose

/-- No `SyncClose` runs while a row fetch waits, and no connect is made then. -/
def Op.SparesFetch (c : Conn) (op : Op) : Prop := c.currentState = .fetchRowWait → op.leaves c = false

instance (c : Conn) (op : Op) : Decidable (op.SparesFetch c) := by unfold Op.SparesFetch; infer_instance

theorem fetching_of_isRest {s : State} (hr : s.isRest = true) (hs : s ≠ .fetchRowWait) : s.fetching = false := by
  cases s <;> simp_all [State.isRest, State.isWait, State.fetching]

theorem step_custodial {c c' : Conn} {op : Op} (h : Custodial c) (hr : c.currentState.isRest = true)
    (hop : op.SparesFetch c) (hst : lts.step c op c') : Custodial c' := by
  have hfree : op.leaves c = true → c.currentState.fetching = false := by
    intro hl
    apply fetching_of_isRest hr
    intro hs
    rw [hop hs] at hl
    cases hl
  cases lts_stepped hst with
  | init opt => exact h.leave (w := [_, _]) rfl (by simp [Ev.dealing]) (hfree rfl) rfl
  | connect => exact h.leave (w := [_]) rfl (by simp [Ev.dealing]) (hfree rfl) rfl
  | syncRefused => exact h.frame (w := [_]) rfl (by simp [Ev.dealing]) rfl
  | syncConnected ha => exact h.leave (w := [_, _]) rfl (by simp [Ev.dealing]) (hfree ha) rfl
  | pendingQuery | clientClose | close => exact h.frame (w := []) rfl (by simp) rfl
  | pushed => exact h.frame (w := [_]) rfl (by simp [Ev.dealing]) rfl
  | checked => exact h.frame (w := [_, _]) rfl (by simp [Ev.dealing]) rfl
  | @kicked op q c' ht hs hp hh =>
    have hd : Custodial (pushQuery q (op.target c)) := h.frame (w := [_]) rfl (by simp [Ev.dealing]) rfl
    exact handleState_custodial hd hh
  | handled ht hh => exact handleState_custodial (c := op.target c) h hh
  | @closeKicked as c' hp hs hh => exact handleState_custodial (c := { c with scheduleClose := true }) h hh
  | @woken op e ev c' hw hf hh => exact handleState_custodial (c := disarmed e c) h hh
  | syncClosed ht =>
    have hs : c.currentState.fetching = false := by
      apply hfree
      cases op with
      | initConnection | connect | syncConnect => simp [Op.task] at ht
      | _ => simp [Op.leaves, ht]
    have hd : Custodial (cleaned (op.target c)) := by
      refine h.leave (cleaned_log _) ?_ hs hs
      simp +contextual [Ev.dealing]
    unfold Custodial at hd ⊢
    rw [holding_of_not (c := cleaned (op.target c)) hs] at hd
    exact hd.ignore (e := Dealing.bare) ⟨rfl, rfl⟩

/-! ## Callbacks that call back

A callback invoked while a session is completed, or while `clean_up` runs, finds no result set held. It may close the
connection, but a `HandleState` it started could fetch again.
-/

/-- A callback has closed the connection at most. -/
structure Inner (r r' : Rig) : Prop where
  dealt : ∃ n, dealings r'.conn.log = List.replicate n .bare ++ dealings r.conn.log
  state : r'.conn.currentState = r.conn.currentState ∨ r'.conn.currentState = .closeDone

namespace Inner

variable {r r₁ r' : Rig}

theorem of_skip {w : List Ev} (hl : r'.conn.log = w ++ r.conn.log) (hes : ∀ e ∈ w, e.dealing = none)
    (hs : r'.conn.currentState = r.conn.currentState) : Inner r r' :=
  ⟨⟨0, by rw [hl, dealings_skip hes]; rfl⟩, .inl hs⟩

theorem trans (h : Inner r r₁) (h' : Inner r₁ r') : Inner r r' := by
  obtain ⟨n, hn⟩ := h.dealt
  obtain ⟨n', hn'⟩ := h'.dealt
  refine ⟨⟨n' + n, ?_⟩, ?_⟩
  · rw [hn', hn, ← List.append_assoc, List.replicate_append_replicate]
  · rcases h'.state with hs | hs
    · rw [hs]; exact h.state
    · exact .inr hs

theorem stands (h : Inner r r') (hs : custody.Stands (dealings r.conn.log) none) :
    custody.Stands (dealings r'.conn.log) none := by
  obtain ⟨n, hn⟩ := h.dealt
  rw [hn]
  apply hs.append
  intro e he
  obtain rfl := List.eq_of_mem_replicate he
  exact ⟨rfl, rfl⟩

theorem ne_idle (h : Inner r r') (hs : r.conn.currentState ≠ .connectionIdle) :
    r'.conn.currentState ≠ .connectionIdle := by
  rcases h.state with h | h <;> rw [h]
  · exact hs
  · simp

end Inner

/-- In `CONNECTION_IDLE` with nothing in process no callback may call `StartQuery`. -/
def Guarded (r : Rig) : Job → Prop
  | .handleState _ => False
  | .act x => r.conn.currentState = .connectionIdle → AllStill r.scripts ∧ (r.conn.inProcess = none → Still [x])
  | .callback l => r.conn.currentState = .connectionIdle → AllStill r.scripts ∧ (r.conn.inProcess = none → Still l)
  | .onQueryDone q => r.conn.currentState = .connectionIdle →
    AllStill r.scripts ∨ (r.conn.inProcess ≠ none ∧ (r.pending q → AllStill r.scripts.tail))
  | .cleanUp => r.Closable
  | .flush _ => r.conn.currentState = .connectionIdle → AllStill r.scripts

theorem Rig.queueScripts_suffix (r : Rig) : r.queueScripts <:+ r.scripts := by
  unfold Rig.queueScripts
  split
  · split
    · exact List.tail_suffix _
    · exact List.suffix_rfl
  · exact List.suffix_rfl

/-- `OnQueryDone` invokes the next callback if the session has one. -/
theorem Returns.scripts_suffix {q : Session} {r r' : Rig} (h : Returns (.onQueryDone q) r r') :
    r'.scripts <:+ if r.pending q then r.scripts.tail else r.scripts := by
  cases h with
  | silent hp => rw [if_neg hp]; exact List.suffix_rfl
  | @invoked r r₁ q l ls hp hl h =>
    rw [if_pos hp, hl]
    exact h.grows.scripts

/-- What is shown of a function a callback may be the caller or the callee of. -/
def StaysInner (r r' : Rig) (j : Job) : Prop :=
  Guarded r j → Inner r r' ∧ match j with
    | .cleanUp | .flush _ => True
    | _ => r'.conn.currentState = .connectionIdle → r'.conn.inProcess = r.conn.inProcess

theorem Returns.inner {j : Job} {r r' : Rig} (h : Returns j r r') : StaysInner r r' j := by
  induction h with
  | passed | rested | completed | closeDone => exact fun hg => hg.elim
  | pushed => exact fun _ => ⟨.of_skip (w := [_]) rfl (by simp [Ev.dealing]) rfl, fun _ => rfl⟩
  | kicked hs hp =>
    intro hg
    exact ((hg hs).2 hp _ (List.mem_singleton.2 rfl)).elim
  | noted => exact fun _ => ⟨.of_skip (w := []) rfl (by simp) rfl, fun _ => rfl⟩
  | closeKicked hp hs h _ => exact (Returns.not_queryStart (by exact hs) (by exact hp) h).elim
  | @syncClosed r r₁ _ ih =>
    intro hg
    obtain ⟨hi, -⟩ := ih fun hs => (hg hs).1.suffix r.queueScripts_suffix
    obtain ⟨n, hn⟩ := hi.dealt
    refine ⟨⟨⟨n + 1, ?_⟩, .inr rfl⟩, fun hs => by cases hs⟩
    rw [List.replicate_succ, List.cons_append, ← hn]
    rfl
  | silent => exact fun _ => ⟨.of_skip (w := [_]) rfl (by simp [Ev.dealing]) rfl, fun _ => rfl⟩
  | @invoked r r₁ q l ls hp hl _ ih =>
    intro hg
    have hcall : Guarded ({ r.on (·.onQueryDone q) with scripts := ls }.mark (.invoke q.id)) (.callback l) := by
      intro hs
      rcases hg hs with hall | ⟨hin, htail⟩
      · rw [hl] at hall
        exact ⟨fun x hx => hall x (List.mem_cons_of_mem _ hx), fun _ => hall l (by simp)⟩
      · have htail := htail hp
        rw [hl] at htail
        exact ⟨htail, fun hn => (hin hn).elim⟩
    obtain ⟨hi, hproc⟩ := ih hcall
    have hfirst : Inner r ({ r.on (·.onQueryDone q) with scripts := ls }.mark (.invoke q.id)) :=
      .of_skip (w := [_]) rfl (by simp [Ev.dealing]) rfl
    exact ⟨hfirst.trans ⟨hi.dealt, hi.state⟩, hproc⟩
  | nil r => exact fun _ => ⟨.of_skip (w := []) rfl (by simp) rfl, fun _ => rfl⟩
  | @cons r r₁ r' x l hx _ ih ih' =>
    intro hg
    obtain ⟨hi, hproc⟩ := ih fun hs => ⟨(hg hs).1, fun hn => fun q hq => (hg hs).2 hn q (by simp_all)⟩
    have hret : (r₁.returned x).conn = r₁.conn ∧ (r₁.returned x).scripts = r₁.scripts := by cases x <;> exact ⟨rfl, rfl⟩
    have hrest : Guarded (r₁.returned x) (.callback l) := by
      intro hs
      rw [hret.1] at hs
      have hs0 : r.conn.currentState = .connectionIdle := by
        by_contra hne
        exact hi.ne_idle hne hs
      rw [hret.1, hret.2, hproc hs]
      exact ⟨(hg hs0).1.suffix hx.grows.scripts, fun hn q hq => (hg hs0).2 hn q (by simp [hq])⟩
    obtain ⟨hi', hproc'⟩ := ih' hrest
    refine ⟨hi.trans ⟨?_, ?_⟩, fun hs => ?_⟩
    · rw [← hret.1]; exact hi'.dealt
    · rw [← hret.1]; exact hi'.state
    · have h1 : r₁.conn.currentState = .connectionIdle := by
        by_contra hne
        exact hi'.ne_idle (by rw [hret.1]; exact hne) hs
      rw [hproc' hs, hret.1, hproc h1]
  | @cleanedIdle r r' hp _ ih =>
    intro hg
    obtain ⟨hi, -⟩ := ih fun hs => by simpa [Rig.queueScripts, hp] using hg hs
    exact ⟨⟨hi.dealt, hi.state⟩, trivial⟩
  | @cleaned r r₁ r' q hp hd _ ih ih' =>
    intro hg
    have hdone : Guarded (r.on fun c => { removeEvents c with inProcess := some (q.setCode (-1) "closed") })
        (.onQueryDone (q.setCode (-1) "closed")) := by
      intro hs
      have hq : AllStill r.queueScripts := hg hs
      simp only [Rig.queueScripts, hp] at hq
      refine .inr ⟨by simp, fun hpend => ?_⟩
      rwa [if_pos (show r.pending q from hpend)] at hq
    obtain ⟨hi, -⟩ := ih hdone
    have hflush : Guarded (r₁.on resetInProcess) (.flush 0) := by
      intro hs
      have hs0 : r.conn.currentState = .connectionIdle := by
        by_contra hne
        exact hi.ne_idle hne hs
      have hq : AllStill r.queueScripts := hg hs0
      simp only [Rig.queueScripts, hp] at hq
      exact hq.suffix hd.scripts_suffix
    obtain ⟨hi', -⟩ := ih' hflush
    exact ⟨(⟨hi.dealt, hi.state⟩ : Inner r r₁).trans ⟨hi'.dealt, hi'.state⟩, trivial⟩
  | flushed => exact fun _ => ⟨.of_skip (w := []) rfl (by simp) rfl, trivial⟩
  | @flush r r₁ r' i q hq hd hi _ ih ih' =>
    intro hg
    obtain ⟨h1, -⟩ := ih fun hs => .inl (hg hs)
    have hflush : Guarded r₁ (.flush (i + 1 - (r₁.freed - r.freed))) := by
      intro hs
      have hs0 : r.conn.currentState = .connectionIdle := by
        by_contra hne
        exact h1.ne_idle hne hs
      exact (hg hs0).suffix hd.grows.scripts
    obtain ⟨h2, -⟩ := ih' hflush
    exact ⟨(⟨h1.dealt, h1.state⟩ : Inner r r₁).trans h2, trivial⟩

section
variable {a : Answer} {ev : WaitStatus} {c d : Conn} {q : Session} {next n : State} {code : Int} {m : Option String}

theorem handOver_place (h : handOver a code m next c = some (q, d, n)) : d.currentState = c.currentState ∧ n = next := by
  obtain ⟨q₀, -, h⟩ := Option.map_eq_some_iff.1 h
  simp only [Prod.mk.injEq] at h
  obtain ⟨-, rfl, rfl⟩ := h
  exact ⟨rfl, rfl⟩

theorem handOverFailed_place (h : handOverFailed a code c = some (q, d, n)) :
    d.currentState = c.currentState ∧ n.fetching = false := by
  obtain ⟨hd, rfl⟩ := handOver_place h
  refine ⟨hd, ?_⟩
  split <;> rfl

/-- A session is completed in a state of its own, and the state assigned then is no `FETCH_ROW_*`. -/
theorem completing_place (h : completing a ev c = some (q, d, n)) :
    d.currentState ≠ .connectionIdle ∧ n.fetching = false := by
  have hfailed : ∀ {c' code}, c'.currentState ≠ .connectionIdle → handOverFailed a code c' = some (q, d, n) →
      d.currentState ≠ .connectionIdle ∧ n.fetching = false := by
    intro c' code hs h
    obtain ⟨hd, hn⟩ := handOverFailed_place h
    exact ⟨hd ▸ hs, hn⟩
  unfold completing at h
  split at h
  case h_1 q₀ hs _ =>
    split at h
    · exact hfailed (by simp [hs]) h
    · cases h
  case h_2 q₀ hs _ =>
    split at h
    · exact hfailed (by simp [hs]) h
    · cases h
  case h_3 q₀ hs _ =>
    split at h
    · obtain ⟨hd, rfl⟩ := handOver_place h
      exact ⟨by rw [hd]; simp [hs], rfl⟩
    · cases h
  case h_4 q₀ hs _ =>
    split at h
    · obtain ⟨hd, rfl⟩ := handOver_place h
      exact ⟨by rw [hd]; simp [hs], rfl⟩
    · split at h
      · exact hfailed (by simp [hs]) h
      · cases h
  case h_5 q₀ hs _ =>
    split at h
    · exact hfailed (by simp [hs]) h
    · cases h
  case h_6 q₀ hs _ =>
    split at h
    · exact hfailed (by simp [hs]) h
    · cases h
  case h_7 q₀ hs _ =>
    split at h
    · obtain ⟨hd, rfl⟩ := handOver_place h
      refine ⟨?_, rfl⟩
      rw [hd]
      simp only [Conn.call_currentState]
      split <;> simp [hs]
    · cases h
  case h_8 => cases h

end

theorem Custodial.stands {c : Conn} (h : Custodial c) (hs : c.currentState.fetching = false) :
    custody.Stands (dealings c.log) none := holding_of_not hs ▸ h

theorem custodial_of_stands {c : Conn} (h : custody.Stands (dealings c.log) none) (hs : c.currentState.fetching = false) :
    Custodial c := by
  unfold Custodial
  rw [holding_of_not hs]
  exact h

/-- **`HandleState` keeps to the custody**, whatever the callbacks do. -/
theorem Returns.custodial {ev : WaitStatus} {r r' : Rig} (h : Returns (.handleState ev) r r') (hc : Custodial r.conn) :
    Custodial r'.conn ∧ r'.conn.currentState.isRest = true := by
  generalize hj : Job.handleState ev = j at h
  induction h with
  | @passed r r' a as ev c _ _ _ hp _ ih =>
    cases hj
    exact ih (pass_custodial hc (.inl (hp ▸ handleStatePass_pass))) rfl
  | @rested r a as ev c _ _ _ hp =>
    cases hj
    have hpass : Pass a ev r.conn (.rest c) := hp ▸ handleStatePass_pass
    exact ⟨pass_custodial hc (.inr hpass), pass_isRest hpass⟩
  | @completed r r₁ r' a as ev q c next _ hs hcom hd _ _ ih =>
    cases hj
    obtain ⟨hidle, hnext⟩ := completing_place hcom
    have hsettled : Custodial (settled q next c) :=
      pass_custodial hc (.inl ((completing_spec hcom).2 ▸ handleStatePass_pass))
    have hstands : custody.Stands (dealings c.log) none := hsettled.stands hnext
    obtain ⟨hi, -⟩ := hd.inner fun hs => (hidle hs).elim
    exact ih (custodial_of_stands (hi.stands hstands) hnext) rfl
  | @closeDone r r₁ a as ev _ hs hd _ =>
    have hstands : custody.Stands (dealings r.conn.log) none := hc.stands (by rw [hs]; rfl)
    obtain ⟨hi, -⟩ := hd.inner fun hidle => absurd (hs.symm.trans hidle) (by simp)
    have hr : Custodial (reportClosed r₁.conn) := by
      have h₁ := hi.stands hstands
      unfold reportClosed
      split
      · exact custodial_of_stands h₁ rfl
      · exact custodial_of_stands h₁ rfl
    refine ⟨hr, ?_⟩
    show (reportClosed r₁.conn).currentState.isRest = true
    unfold reportClosed
    split <;> rfl
  | _ => cases hj

theorem Op.entry_cases {c d : Conn} {op : Op} (h : op.entry c = .ok d) : (∃ e, d = disarmed e c) ∨ d = op.target c := by
  unfold Op.entry at h
  split at h
  · split at h
    · cases h
    · rename_i u hu
      obtain ⟨e, -, rfl⟩ := resetWaitEvent_eq hu
      exact .inl ⟨e, (Except.ok.inj h).symm⟩
  · exact .inr (Except.ok.inj h).symm

/-! ## Runs -/

/-- No `SyncClose` runs while a row fetch waits and no connect is made then; and where a `SyncClose` empties the queue of
a connection in `CONNECTION_IDLE`, no callback calls `StartQuery`. -/
structure Move.SparesFetch (r : Rig) (m : Move) : Prop where
  fetch    : m.op.SparesFetch r.conn
  closable : m.op.job r.conn = some (.act .syncClose) → (r.begun m).Closable

instance (r : Rig) (m : Move) : Decidable (m.SparesFetch r) :=
  decidable_of_iff (m.op.SparesFetch r.conn ∧ (m.op.job r.conn = some (.act .syncClose) → (r.begun m).Closable))
    ⟨fun h => ⟨h.1, h.2⟩, fun h => ⟨h.1, h.2⟩⟩

/-- An operation that calls `SyncClose` leaves the state it finds. -/
theorem Op.leaves_of_job {c : Conn} {op : Op} (h : op.job c = some (.act .syncClose)) : op.leaves c = true := by
  cases op <;> simp [Op.job, Op.leaves, Op.task] at h ⊢
  case runTask i as =>
    obtain ⟨t, ht, hj⟩ := h
    cases t <;> simp_all [Task.job]

/-- What holds between the operations. -/
structure Keeping (r : Rig) : Prop where
  custodial : Custodial r.conn
  rest      : r.conn.currentState.isRest = true

theorem step_keeping {r r' : Rig} {m : Move} (h : rigged.step r m r') (hm : m.SparesFetch r) (hk : Keeping r) :
    Keeping r' := by
  obtain ⟨n, h⟩ := h
  obtain ⟨he, d, hd, -, rfl⟩ := moved_operated h
  suffices hsuf : Keeping d from ⟨hsuf.custodial, hsuf.rest⟩
  cases hd with
  | @other c _ hst =>
    have hst : lts.step r.conn m.op c := ⟨he, hst⟩
    exact ⟨step_custodial hk.custodial hk.rest hm.fetch hst, step_isRest hk.rest hst⟩
  | @called j c r' hj hc hret =>
    have hcc : Custodial c ∧ c.currentState = r.conn.currentState := by
      rcases Op.entry_cases hc with ⟨e, rfl⟩ | rfl
      · exact ⟨hk.custodial, rfl⟩
      · exact ⟨hk.custodial, rfl⟩
    obtain ⟨hcust, hstate⟩ := hcc
    rcases Op.job_cases hj with ⟨ev, rfl⟩ | ⟨x, rfl⟩
    · obtain ⟨h1, h2⟩ := hret.custodial hcust
      exact ⟨h1, h2⟩
    · cases hret with
      | pushed => exact ⟨hcust.frame (w := [_]) rfl (by simp [Ev.dealing]) rfl, hstate ▸ hk.rest⟩
      | kicked _ _ hret =>
        obtain ⟨h1, h2⟩ := hret.custodial (hcust.frame (w := [_]) rfl (by simp [Ev.dealing]) rfl)
        exact ⟨h1, h2⟩
      | noted => exact ⟨hcust, hstate ▸ hk.rest⟩
      | closeKicked _ _ hret =>
        obtain ⟨h1, h2⟩ := hret.custodial hcust
        exact ⟨h1, h2⟩
      | @syncClosed _ r₁ hret =>
        obtain rfl := Op.entry_of_act hj hc
        have hs : r.conn.currentState.fetching = false := by
          apply fetching_of_isRest hk.rest
          intro hs
          have hleaves : m.op.leaves r.conn = true := Op.leaves_of_job hj
          rw [hm.fetch hs] at hleaves
          cases hleaves
        obtain ⟨hi, -⟩ := hret.inner (hm.closable hj)
        have h₁ : custody.Stands (dealings r₁.conn.log) none := hi.stands (hcust.stands hs)
        exact ⟨custodial_of_stands (h₁.ignore (e := Dealing.bare) ⟨rfl, rfl⟩) rfl, rfl⟩

/-- **Result sets are released once**, whatever the callbacks call back: in a run in which no `SyncClose` and no connect
comes while a row fetch waits, every result set is freed once, before the next query and before a close, and not used
after that; and while no row fetch waits none is left to be freed. -/
theorem results_released_once (client : Bool) (errNo : Int) (st : State) (opt : MysqlOptions) (ms : List Move) (r : Rig)
    (h : (rigged.restrict fun r m => m.SparesFetch r).Run (.opened client errNo st opt) ms r) :
    ReleasedOnce (dealings r.conn.log) ∧ (r.conn.currentState ≠ .fetchRowWait → AllFreed (dealings r.conn.log)) := by
  have hk : Keeping r := by
    refine h.invariant_restrict (fun _ _ _ hk hm hs => step_keeping hs hm hk) ⟨?_, rfl⟩
    exact (Monitor.stands_nil : custody.Stands [] none)
  refine ⟨accepts_iff.1 hk.custodial.accepts, fun hs => ?_⟩
  exact allFreed_of_none (hk.custodial.stands (fetching_of_isRest hk.rest hs))

/-- A query whose first row is being waited for. -/
def fetching : List Move :=
  [{ op := .syncConnect { ret := true } },
   { op := .startQuery { id := 0, query := [1] } [{}, {}, { res := some ⟨0, [[97]]⟩ }, { status := { read := true } }] }]

/-- The row and the end of the rows come in, and the callback submits the next query. -/
def fetched : List Move :=
  fetching ++
    [{ op := .fdWake { read := true } [{ row := some [none] }, {}, {}, {}, {}, {}, { res := none }, {}]
       scripts := [[.startQuery { id := 1, query := [2], finishCallback := false }]] }]

theorem fetched_released_once :
    ∃ r, (rigged.restrict fun r m => m.SparesFetch r).Run (.opened true 0 .stateNone {}) fetched r ∧
      dealings r.conn.log ≠ [] ∧ ReleasedOnce (dealings r.conn.log) := by
  exact Lts.exists_restrict_run_of_exec (P := fun r : Rig => dealings r.conn.log ≠ []) rigged_of_moved (by decide)
    fun r hr hne => ⟨hne, (results_released_once _ _ _ _ _ _ hr).1⟩

/-- **`SyncClose` closes the connection over a result set.** -/
theorem closed_while_fetching :
    ∃ r, rigged.Run (.opened true 0 .stateNone {}) (fetching ++ [{ op := .syncClose, scripts := [[]] }]) r ∧
      ¬ ReleasedOnce (dealings r.conn.log) := by
  exact Lts.exists_run_of_exec_imp rigged_of_moved (by decide) fun _ _ h => h

end LtApp.Mysql
