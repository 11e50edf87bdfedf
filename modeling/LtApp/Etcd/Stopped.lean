import LtApp.Base.Monitor
import LtApp.Etcd.Order

/-!
# After `StopWatch`

`StopWatch` asks the server to cancel the watch, sets a flag that the loop reads after it has handed on its next
response, and returns `true`; with a `watch_id_` of 0, which `Start` accepts, it returns `true` without doing anything.
What has been received by then and what still comes is handed on, so that `handler_` is called no more only where
nothing of either kind is left (`Op.Hushed`).
-/

namespace LtApp.Etcd

variable {ε : Type}

/-- `handler_` is called. -/
def WatchEv.calls : WatchEv ε → Bool
  | .handled _ => true
  | _ => false

/-- `StopWatch` returns `true`. -/
def WatchEv.stops : WatchEv ε → Bool
  | .stopReturned _ b => b
  | _ => false

/-- Its state: `StopWatch` has returned `true`. -/
def silence : Monitor (WatchEv ε) Bool := ⟨false, fun b e => b || e.stops, fun b e => e.calls = true → b = false⟩

instance silence.decidableAllows (b : Bool) (e : WatchEv ε) : Decidable (silence.Allows b e) :=
  inferInstanceAs (Decidable (e.calls = true → b = false))

/-- The place is the last of `StopWatch`. -/
def Site.last : Site → Bool
  | .finish _ => true
  | _ => false

namespace WatchContext

/-- The coroutine is a call of `StopWatch` about to return `true`. -/
def returning (c : WatchContext ε) (a : Co) : Bool :=
  (c.waits.frame a).any fun f => f.point.site.last && c.writeCtx.success

/-- The step is a return of `StopWatch` with `true`. -/
def Op.returns (c : WatchContext ε) : Op ε → Bool
  | .stopWatch => c.watchId ≤ 0
  | .go a => c.returning a
  | _ => false

/-- `StopWatch` returns `true` once every event received has been passed to `handler_`, and no events are received
after that. -/
def Op.Hushed (c : WatchContext ε) (op : Op ε) : Prop :=
  (op.returns c = true → c.backlog.flatten = []) ∧
    (silence.after c.log = true → (op.given.getD []).isEmpty = true)

instance Op.decidableHushed (c : WatchContext ε) (op : Op ε) : Decidable (op.Hushed c) := by
  unfold Op.Hushed
  infer_instance

section
variable {c c' : WatchContext ε} {op : Op ε} {w : Waits Side Co Site}

/-- The events are not calls of `handler_`, nor returns of `StopWatch` but that of the step. -/
def Logged (c : WatchContext ε) (op : Op ε) (l : List (WatchEv ε)) : Prop :=
  ∃ es, l = es ++ c.log ∧ ∀ e ∈ es, e.calls = false ∧ (e.stops = true → op.returns c = true)

theorem note_logged {o : Waits.Op Co Site} {r : WatchResponse ε} : Logged c op (note o r { c with waits := w }).log := by
  obtain ⟨es, hes, hon⟩ := note_events o r { c with waits := w }
  refine ⟨es, hes, fun e he => ?_⟩
  have hs := hon e he
  cases e with
  | started | reported | received => simp [WatchEv.calls, WatchEv.stops]
  | _ => cases hs

theorem went_logged {s : Site} (h : Went c s c')
    (hlast : s.last = true → c.writeCtx.success = true → op.returns c = true) : Logged c op c'.log := by
  cases h with
  | createFailed | createdFailed | began =>
    exact ⟨[.startReturned _], rfl, by simp [WatchEv.calls, WatchEv.stops]⟩
  | cancelFailed => exact ⟨[.stopReturned _ false], rfl, by simp [WatchEv.calls, WatchEv.stops]⟩
  | finished =>
    refine ⟨[.stopReturned _ c.writeCtx.success], rfl, ?_⟩
    simpa [WatchEv.calls, WatchEv.stops] using hlast rfl
  | createWritten | readFailed | canceled | lastSpawned | spawned | cancelWritten => exact ⟨[], rfl, by simp⟩

/-- What a step other than a call of `handler_` writes to the log. -/
theorem step_logged (hop : op ≠ .invoke) (h : lts.step c op c') : Logged c op c'.log := by
  cases lts_stepped h with
  | wait => exact note_logged
  | @go a f c' hf hst hw =>
    refine went_logged hw fun hl hs => ?_
    simp [Op.returns, returning, hf, hl, hs]
  | stopAtOnce _ _ hw =>
    refine ⟨[.stopReturned _ true], rfl, ?_⟩
    simpa [WatchEv.calls, WatchEv.stops, Op.returns] using hw
  | invoke => exact absurd rfl hop
  | done =>
    refine ⟨[.done], rfl, ?_⟩
    simp [WatchEv.calls, WatchEv.stops]
  | stopBegun | enter | leave | finish | copy | drop => exact ⟨[], rfl, by simp⟩

/-- Nothing has been called since `StopWatch` returned `true`, and nothing is left to be. -/
structure Silent (c : WatchContext ε) : Prop where
  accepts : silence.Accepts c.log
  empty   : silence.after c.log = true → c.backlog.flatten = []

theorem after_append {es l : List (WatchEv ε)} (h : silence.after (es ++ l) = true) :
    silence.after l = true ∨ ∃ e ∈ es, e.stops = true := by
  induction es with
  | nil => exact .inl h
  | cons e es ih =>
    rcases Bool.or_eq_true_iff.1 h with h | he
    · rcases ih h with h | ⟨x, hx, hxs⟩
      · exact .inl h
      · exact .inr ⟨x, List.mem_cons_of_mem _ hx, hxs⟩
    · exact .inr ⟨e, List.mem_cons_self, he⟩

theorem accepts_append {es l : List (WatchEv ε)} (hes : ∀ e ∈ es, e.calls = false) (hl : silence.Accepts l) :
    silence.Accepts (es ++ l) := by
  induction es with
  | nil => exact hl
  | cons e es ih =>
    obtain ⟨he, hes⟩ := List.forall_mem_cons.1 hes
    refine Monitor.accepts_cons.2 ⟨fun hc => ?_, ih hes⟩
    rw [he] at hc
    cases hc

/-- Who calls `handler_` has had something left. -/
theorem Silent.invoke {j : Nat} {g : Handler ε} {e : ε} {es : List ε} (hc : Silent c) (hrun : c.running j g)
    (hrest : g.rest = e :: es) : silence.after c.log = false := by
  cases hs : silence.after c.log with
  | false => rfl
  | true =>
    have hmem : g.rest ∈ c.backlog :=
      List.mem_append_left _ (List.mem_map_of_mem (List.mem_iff_getElem?.2 ⟨j, hrun.2⟩))
    rw [List.flatten_eq_nil_iff.1 (hc.empty hs) _ hmem] at hrest
    cases hrest

theorem step_silent (hr : Reads c.waits) (hc : Silent c) (hop : op.Hushed c) (h : lts.step c op c') : Silent c' := by
  by_cases hinv : op = .invoke
  · subst hinv
    cases lts_stepped h with
    | @invoke j g e es hrun hrest =>
      have hs := hc.invoke hrun hrest
      refine ⟨Monitor.accepts_cons.2 ⟨fun _ => hs, hc.accepts⟩, fun hs' => ?_⟩
      have hsame : silence.after (.handled e :: c.log) = silence.after c.log := Bool.or_false _
      rw [emit_log, setHandler_log, hsame, hs] at hs'
      cases hs'
  · obtain ⟨es, hlog, hes⟩ := step_logged hinv h
    refine ⟨hlog ▸ accepts_append (fun e he => (hes e he).1) hc.accepts, fun hs => ?_⟩
    rw [hlog] at hs
    have hcases : silence.after c.log = true ∨ op.returns c = true :=
      (after_append hs).imp_right fun ⟨e, he, hst⟩ => (hes e he).2 hst
    have hempty : c.backlog.flatten = [] := hcases.elim hc.empty hop.1
    cases step_flow hr h with
    | idle _ heq =>
      have hback : c'.backlog = c.backlog := congrArg Lanes.left heq
      rw [hback, hempty]
    | @fed o d l hg hst =>
      have hreturns : op.returns c = false := by
        cases op with
        | wait => rfl
        | _ => cases hg
      have hl : l = [] := by
        have := hop.2 (by simpa [hreturns] using hcases)
        simpa [hg] using this
      have hback : c'.backlog = c.backlog ++ [l] := hst.left_feed
      rw [hback, List.flatten_append, hempty, hl]
      rfl
    | taken => exact absurd rfl hinv

theorem watch_silent : Silent (watch : WatchContext ε) := ⟨Monitor.accepts_nil, nofun⟩

end

/-- **No event after `StopWatch`.** -/
theorem no_event_after_stop {ops : List (Op ε)} {c : WatchContext ε}
    (h : (lts.restrict fun c op => op.Hushed c).Run watch ops c) : silence.Accepts c.log := by
  have hstep : ∀ (c : WatchContext ε) (op : Op ε) (c' : WatchContext ε), (Reads c.waits ∧ Silent c) → op.Hushed c →
      lts.step c op c' → Reads c'.waits ∧ Silent c' :=
    fun _ _ _ hI hop hs => ⟨step_reads hI.1 hs, step_silent hI.1 hI.2 hop hs⟩
  exact (h.invariant_restrict hstep ⟨watch_reads, watch_silent⟩).2.accepts

/-- A watch whose only response has been dealt with when `StopWatch` writes the cancel request. -/
theorem no_event_after_stop_run :
    ∃ c : WatchContext Nat, (lts.restrict fun c op => op.Hushed c).Run watch
        (Op.whole .create 0 {} ++ Op.whole .created 1 { watchId := 1, created := true } ++
          Op.whole .next 2 { events := [7] } ++ [.enter 0, .invoke, .finish, .stopWatch] ++
          Op.whole (.cancel 0) 4 {} ++ Op.whole (.finish 0) 5 {} ++ Op.whole .next 3 { canceled := true }) c ∧
      (∃ i, .stopReturned i true ∈ c.log) ∧ silence.Accepts c.log := by
  exact Lts.exists_restrict_run_of_exec (P := fun c : WatchContext Nat => .stopReturned 0 true ∈ c.log)
    (fun _ _ _ h => h) (by decide +kernel) fun c hr hs => ⟨⟨0, hs⟩, no_event_after_stop hr⟩

/-- **An event after `StopWatch`**: the response has been read and its coroutine spawned before `StopWatch` is called, and
runs after it has returned. -/
theorem event_after_stop :
    ∃ c : WatchContext Nat, lts.Run watch
        (Op.whole .create 0 {} ++ Op.whole .created 1 { watchId := 1, created := true } ++
          Op.whole .next 2 { events := [7] } ++ [.stopWatch] ++
          Op.whole (.cancel 0) 4 {} ++ Op.whole (.finish 0) 5 {} ++ [.enter 0, .invoke]) c ∧
      c.started = true ∧ ¬ silence.Accepts c.log := by
  exact Lts.exists_run_of_exec_imp (fun _ _ _ h => h) (by decide +kernel) fun _ _ h => h

end WatchContext
end LtApp.Etcd
