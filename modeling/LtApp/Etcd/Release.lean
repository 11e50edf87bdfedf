import LtApp.Base.Measure
import LtApp.Etcd.Cancelled

/-!
# The end of a watch

A watch holds itself: the loop and each coroutine spawned by it have a `refctx`. Once `read_ctx_` is cancelled, by
`StopWatch` or `OnDone`, these references come to an end, in whatever order the coroutines and gRPC take their steps:
each step makes `work` less (`step_work`), and where there is none left nobody has been left waiting
(`stuck_released`).

| here | there |
| --- | --- |
| `Op.own` | not a step of a holder of the context, who may call `StopWatch`, copy its reference or let go of it |
| `work` | the loop tests `read_ctx_` after each response (`watch_context.cc:71`), so that it goes round once more at most |
| `CheckFails` | `CHECK(response.created())` fails (`watch_context.cc:36`), which ends the process |

`handler_` returns without having yielded.
-/

namespace LtApp.Etcd

/-- The steps a coroutine takes from the stage on, up to the next place. The report of its operation and the call of the
resumer are among them until it is started, and `pending` after that. -/
def Stage.left : Stage → Nat
  | .lock => 6
  | .start => 5
  | .yield => 2
  | .parked | .woken => 1

theorem Stage.left_pos (g : Stage) : 0 < g.left := by cases g <;> decide

namespace Waits

variable {κ α σ : Type}

/-- What is still to be reported, and to be resumed. -/
def pending (w : Waits κ α σ) : Nat := 2 * w.inFlight.length + w.calling.length

def stageLeft (a : α) (w : Waits κ α σ) : Nat := (w.frame a).elim 0 fun f => f.stage.left

section
variable [DecidableEq κ] [DecidableEq α] [DecidableEq σ] {on : σ → κ} {of : σ → α} {w w' : Waits κ α σ} {a b : α}
  {f g : Frame σ} {p : Suspension σ}

omit [DecidableEq κ] [DecidableEq σ] in
theorem stageLeft_update {v : Waits κ α σ} (hf : w.frame a = some f) (hv : v.frame = Function.update w.frame a (some g))
    (hg : g.stage.left ≤ f.stage.left) (b : α) : v.stageLeft b ≤ w.stageLeft b := by
  unfold stageLeft
  rw [hv]
  by_cases hb : b = a
  · subst hb
    simpa [hf] using hg
  · simp [hb]

/-- A step of a coroutine: the others are where they were. -/
theorem step_stageLeft {op : Op α σ} (hop : op = .lock a ∨ op = .yield a) (h : w.step on of op = some w') :
    w'.stageLeft a < w.stageLeft a ∧ (∀ b ≠ a, w'.stageLeft b = w.stageLeft b) ∧ w'.pending = w.pending := by
  rcases hop with rfl | rfl
  · cases step_stepped on of h with
    | lock hf hst =>
      exact ⟨by simp [stageLeft, lock, hf, hst, Stage.left], fun b hb => by simp [stageLeft, lock, hb], rfl⟩
  · cases step_stepped on of h with
    | @yield _ f hf hst =>
      refine ⟨?_, fun b hb => by simp [stageLeft, yield, hb], rfl⟩
      by_cases hc : f.called = true <;> simp [stageLeft, yield, hf, hst, hc, Stage.left]

theorem start_stageLeft (h : w.step on of (.start a) = some w') :
    w'.stageLeft a + 3 = w.stageLeft a ∧ (∀ b ≠ a, w'.stageLeft b = w.stageLeft b) ∧ w'.pending = w.pending + 2 := by
  cases step_stepped on of h with
  | start hf hst =>
    refine ⟨by simp [stageLeft, start, hf, hst, Stage.left], fun b hb => by simp [stageLeft, start, hb], ?_⟩
    simp only [pending, start, setStage_calling, List.length_cons]
    omega

/-- A report, or a call of a resumer: one thing less is pending. -/
theorem step_pending {op : Op α σ} (hop : (∃ ok, op = .report p ok) ∨ op = .fire p) (h : w.step on of op = some w') :
    (∀ b, w'.stageLeft b ≤ w.stageLeft b) ∧ w'.pending < w.pending := by
  rcases hop with ⟨ok, rfl⟩ | rfl
  · cases step_stepped on of h with
    | report hp =>
      refine ⟨fun b => Nat.le_refl _, ?_⟩
      have hlen := List.length_erase_add_one hp
      simp only [pending, report, List.length_cons]
      omega
  · cases step_stepped on of h with
    | fire hp =>
      have hlen := List.length_erase_add_one hp
      rcases fire_cases on of p w with he | ⟨a, f, f', hf, -, hst, he⟩ <;> rw [he]
      · refine ⟨fun b => Nat.le_refl _, ?_⟩
        simp only [pending]
        omega
      · refine ⟨stageLeft_update hf rfl ?_, ?_⟩
        · rcases hst with hst | hst
          · exact Nat.le_of_eq (congrArg Stage.left hst)
          · rw [hst]
            exact f.stage.left_pos
        · simp only [pending]
          omega

end
end Waits

variable {ε : Type}

/-- The most there is to come after the place, with `n` events in a response at most. -/
def Site.toCome (n : Nat) : Site → Nat
  | .create => n + 14
  | .created => n + 8
  | .next => n + 2
  | .cancel _ => 6
  | .finish _ => 0

def Handler.left (h : Handler ε) : Nat := if h.ended then 0 else h.rest.length + 2

namespace WatchContext

/-- No holder of the context takes the step, and `handler_` does not yield. There are `n` events in a response at
most. -/
def Op.own (n : Nat) : Op ε → Bool
  | .wait (.report _ _) r => r.events.length ≤ n
  | .wait _ _ | .go _ | .enter _ | .invoke | .finish | .done => true
  | .stopWatch | .leave | .copy | .drop => false

def ownLts (ε : Type) (n : Nat) : Lts (WatchContext ε) (Op ε) := lts.restrict fun _ op => op.own n = true

/-- The coroutines there have been, but for those that call `handler_`. -/
def cos (c : WatchContext ε) : List Co := .start :: .loop :: (List.range c.stops).map .stop

/-- What a coroutine has before it, up to its end. -/
def coLeft (n : Nat) (w : Waits Side Co Site) (a : Co) : Nat :=
  w.stageLeft a + (w.frame a).elim 0 fun f => f.point.site.toCome n

/-- What the coroutines of the loop have before them; the one that runs has been switched to. -/
def handlersLeft (c : WatchContext ε) : Nat :=
  (c.handlers.map Handler.left).sum - if c.current.isSome then 1 else 0

def work (n : Nat) (c : WatchContext ε) : Nat :=
  (c.cos.map (coLeft n c.waits)).sum + c.waits.pending + c.handlersLeft + if c.live then 1 else 0

def CheckFails (c : WatchContext ε) : Prop :=
  ∃ f, c.waits.frame .start = some f ∧ f.stage = .woken ∧ f.point.site = .created ∧ c.readCtx.success = true ∧
    c.response.created = false

/-- Nobody waits but those there have been. -/
def Crewed (c : WatchContext ε) : Prop := ∀ a, c.waits.frame a ≠ none → a ∈ c.cos

section
variable {c c' : WatchContext ε} {w w' : Waits Side Co Site} {o : Waits.Op Co Site} {r : WatchResponse ε} {op : Op ε}
  {n : Nat} {a b : Co} {s : Site} {f : Frame Site}

/-! ## Who waits -/

theorem cos_nodup : c.cos.Nodup := by
  have hstops : ((List.range c.stops).map Co.stop).Nodup := List.nodup_range.map fun i j h => by simpa using h
  simp [cos, hstops]

theorem went_stops (h : Went c s c') : c'.stops = c.stops := by cases h <;> rfl

theorem went_crewed (hc : Crewed c) (hf : c.waits.frame s.co ≠ none) (h : Went c s c') : Crewed c' := by
  intro b hb
  rw [cos, went_stops h]
  by_cases hl : b = .loop
  · simp [hl]
  · refine hc b fun hn => ?_
    have hne : b ≠ s.co := by
      rintro rfl
      exact hf hn
    revert hb
    cases h <;> simp_all [startReturns, stopReturns, began, Site.co]

theorem step_crewed (hr : Reads c.waits) (hc : Crewed c) (h : lts.step c op c') : Crewed c' := by
  cases lts_stepped h with
  | wait hw =>
    intro b hb
    rw [note_waits] at hb
    have hmem := hc b fun hn => hb ((Waits.frame_none_iff hw b).2 hn)
    simpa [cos] using hmem
  | @go a f c' hf _ hw =>
    obtain rfl := hr.placed a f hf
    exact went_crewed hc (by simp [hf]) hw
  | stopAtOnce =>
    intro b hb
    have hmem := hc b hb
    simp only [cos, emit_stops, List.range_succ, List.map_append]
    exact List.mem_append_left _ hmem
  | stopBegun =>
    intro b hb
    simp only [cos, goto_stops, List.range_succ, List.map_append]
    by_cases hs : b = .stop c.stops
    · subst hs
      simp
    · exact List.mem_append_left _ (hc b (by simpa [Site.co, hs] using hb))
  | enter | invoke | leave | finish | done | copy | drop => exact hc

theorem run_crewed {ops : List (Op ε)} (h : lts.Run watch ops c) : Crewed c := by
  have hinv : Reads c.waits ∧ Crewed c := by
    refine h.invariant (P := fun c => Reads c.waits ∧ Crewed c) ?_ ⟨watch_reads, fun b hb => ?_⟩
    · exact fun _ _ _ hc hs => ⟨step_reads hc.1 hs, step_crewed hc.1 hc.2 hs⟩
    · by_cases hs : b = .start
      · simp [hs, cos]
      · simp [watch, Site.co, hs] at hb
  exact hinv.2

/-! ## The coroutines -/

theorem coLeft_step (h : w.step Site.side Site.co o = some w') (b : Co) :
    coLeft n w' b = w'.stageLeft b + (w.frame b).elim 0 fun f => f.point.site.toCome n := by
  have hp := Waits.step_point h b
  unfold coLeft
  cases hf : w.frame b with
  | none =>
    have hf' : w'.frame b = none := by simpa [hf] using hp
    rw [hf']
  | some f =>
    obtain ⟨f', hf', hpoint⟩ : ∃ f', w'.frame b = some f' ∧ f'.point = f.point := by simpa [hf] using hp
    simp [hf', hpoint]

theorem coLeft_woken (hf : w.frame a = some f) (hst : f.stage = .woken) : coLeft n w a = 1 + f.point.site.toCome n := by
  simp [coLeft, Waits.stageLeft, hf, hst, Stage.left]

theorem coLeft_none (hf : w.frame a = none) : coLeft n w a = 0 := by simp [coLeft, Waits.stageLeft, hf]

/-- A coroutine comes to its end. -/
theorem coLeft_leave {l : List Co} (hl : l.Nodup) (ha : a ∈ l) :
    (l.map (coLeft n (w.leave a))).sum + coLeft n w a = (l.map (coLeft n w)).sum := by
  have hsum := sum_map_update (f := coLeft n w) (g := coLeft n (w.leave a)) (a := a)
    (fun b hb => by simp [coLeft, Waits.stageLeft, hb]) hl ha
  rwa [coLeft_none (w := w.leave a) (a := a) (by simp), Nat.add_zero] at hsum

/-- It goes to a place. -/
theorem coLeft_enter {l : List Co} (hl : l.Nodup) (ha : a ∈ l) :
    (l.map (coLeft n (w.enter a s .lock))).sum + coLeft n w a = (l.map (coLeft n w)).sum + (6 + s.toCome n) := by
  have hsum := sum_map_update (f := coLeft n w) (g := coLeft n (w.enter a s .lock)) (a := a)
    (fun b hb => by simp [coLeft, Waits.stageLeft, hb]) hl ha
  rwa [show coLeft n (w.enter a s .lock) a = 6 + s.toCome n by simp [coLeft, Waits.stageLeft, Stage.left]] at hsum

theorem wait_work (hc : Crewed c) (h : c.waits.step Site.side Site.co o = some w) :
    (note o r { c with waits := w }).work n < c.work n := by
  have hh : (note o r { c with waits := w }).handlersLeft = c.handlersLeft := by simp [handlersLeft]
  have hcos : (note o r { c with waits := w }).cos = c.cos := by simp [cos]
  simp only [work, hh, hcos, note_waits, note_live]
  -- the step of a coroutine at a place
  have hone : ∀ a, 0 < c.waits.stageLeft a → (∀ b ≠ a, w.stageLeft b = c.waits.stageLeft b) →
      (c.cos.map (coLeft n w)).sum + c.waits.stageLeft a = (c.cos.map (coLeft n c.waits)).sum + w.stageLeft a := by
    intro a ha hother
    have hmem : a ∈ c.cos := by
      refine hc a fun hn => ?_
      simp [Waits.stageLeft, hn] at ha
    have hsum := sum_map_update (f := coLeft n c.waits) (g := coLeft n w) (a := a)
      (fun b hb => by rw [coLeft_step h, hother b hb, coLeft]) cos_nodup hmem
    rw [coLeft_step h, coLeft] at hsum
    omega
  have hall : (∀ b, w.stageLeft b ≤ c.waits.stageLeft b) →
      (c.cos.map (coLeft n w)).sum ≤ (c.cos.map (coLeft n c.waits)).sum := by
    intro hle
    refine sum_map_le (fun b => ?_) _
    rw [coLeft_step h, coLeft]
    exact Nat.add_le_add_right (hle b) _
  cases o with
  | lock a =>
    obtain ⟨hlt, hother, hp⟩ := Waits.step_stageLeft (.inl rfl) h
    have hsum := hone a (by omega) hother
    omega
  | yield a =>
    obtain ⟨hlt, hother, hp⟩ := Waits.step_stageLeft (.inr rfl) h
    have hsum := hone a (by omega) hother
    omega
  | start a =>
    obtain ⟨hlt, hother, hp⟩ := Waits.start_stageLeft h
    have hsum := hone a (by omega) hother
    omega
  | report p ok =>
    obtain ⟨hle, hlt⟩ := Waits.step_pending (.inl ⟨ok, rfl⟩) h
    have hsum := hall hle
    omega
  | fire p =>
    obtain ⟨hle, hlt⟩ := Waits.step_pending (.inr rfl) h
    have hsum := hall hle
    omega

theorem handlersLeft_spawn (es : List ε) : (spawn es c).handlersLeft ≤ c.handlersLeft + (es.length + 2) := by
  simp only [handlersLeft, spawn_handlers, spawn_current, List.map_append, List.sum_append, List.map_singleton,
    List.sum_singleton, Handler.left]
  simp only [Bool.false_eq_true, if_false]
  omega

/-- Where `read_ctx_` is cancelled the loop does not go round again. -/
theorem went_work (hr : Reads c.waits) (hc : Crewed c) (hcan : c.readCtx.canceled = true)
    (hn : c.response.events.length ≤ n) (hf : c.waits.frame a = some f) (hst : f.stage = .woken)
    (h : Went c f.point.site c') : c'.work n < c.work n := by
  have hleft := coLeft_woken (n := n) hf hst
  have hmem := hc a (by simp [hf])
  have hleave := coLeft_leave (n := n) (w := c.waits) cos_nodup hmem
  have henter := fun s => coLeft_enter (n := n) (w := c.waits) (s := s) cos_nodup hmem
  obtain rfl := hr.placed a f hf
  generalize f.point.site = s at h hleft hleave henter hf
  cases h with
  | createFailed | createdFailed | readFailed | canceled | cancelFailed | finished =>
    show (c.cos.map (coLeft n (c.waits.leave _))).sum + c.waits.pending + c.handlersLeft + (if c.live then 1 else 0) <
      c.work n
    simp only [work, Site.co] at hleave hleft ⊢
    omega
  | createWritten =>
    have hnext := henter .created
    show (c.cos.map (coLeft n (c.waits.enter .start .created .lock))).sum + c.waits.pending + c.handlersLeft +
      (if c.live then 1 else 0) < c.work n
    simp only [work, Site.co, Site.toCome] at hnext hleft ⊢
    omega
  | began =>
    -- the loop begins where `Start` ends
    have hf : c.waits.frame .start = some f := hf
    have hnone : coLeft n c.waits .loop = 0 := coLeft_none (hr.loop (by simp [hf]))
    have hmem : .loop ∈ c.cos := by simp [cos]
    have hnext := coLeft_enter (n := n) (w := c.waits) (s := .next) cos_nodup hmem
    have hend := coLeft_leave (n := n) (w := c.waits.enter .loop .next .lock) cos_nodup (hc .start (by simp [hf]))
    have hsame : coLeft n (c.waits.enter .loop .next .lock) .start = coLeft n c.waits .start := by
      simp [coLeft, Waits.stageLeft]
    show (c.cos.map (coLeft n ((c.waits.enter .loop .next .lock).leave .start))).sum + c.waits.pending +
      c.handlersLeft + (if c.live then 1 else 0) < c.work n
    simp only [work, Site.co, Site.toCome] at hnext hleft ⊢
    omega
  | lastSpawned =>
    have hh := handlersLeft_spawn (c := c) c.response.events
    show (c.cos.map (coLeft n (c.waits.leave .loop))).sum + c.waits.pending + (spawn c.response.events c).handlersLeft +
      (if c.live then 1 else 0) < c.work n
    simp only [work, Site.co, Site.toCome] at hleave hleft ⊢
    omega
  | spawned _ _ hc =>
    rw [hcan] at hc
    cases hc
  | @cancelWritten i =>
    have hnext := henter (.finish i)
    show (c.cos.map (coLeft n (c.waits.enter (.stop i) (.finish i) .lock))).sum + c.waits.pending + c.handlersLeft +
      (if c.live then 1 else 0) < c.work n
    simp only [work, Site.co, Site.toCome] at hnext hleft ⊢
    omega

/-! ## The coroutines of the loop -/

/-- The loop switches to one of its coroutines, or the one that runs goes on. -/
def Op.ofHandler : Op ε → Bool
  | .enter _ | .invoke | .finish => true
  | _ => false

theorem handler_left (hs : Staffed c) (hop : op.ofHandler = true) (h : lts.step c op c') :
    c'.handlersLeft < c.handlersLeft ∧ c'.waits = c.waits ∧ c'.response = c.response ∧ c'.stops = c.stops ∧
      c'.live = c.live ∧ c'.caller = c.caller := by
  cases lts_stepped h with
  | @enter j g hcur hj he =>
    have hsum := sum_map_set Handler.left (y := { g with begun := true }) hj
    have hsame : Handler.left { g with begun := true } = g.left := rfl
    have hle := le_sum_map Handler.left hj
    have hpos : 0 < g.left := by simp [Handler.left, he]
    have hlt : handlersLeft { setHandler j { g with begun := true } c with current := some j } < c.handlersLeft := by
      simp only [handlersLeft, setHandler_handlers, hcur, Option.isSome_some, Option.isSome_none, if_true,
        Bool.false_eq_true, if_false]
      omega
    exact ⟨hlt, rfl, rfl, rfl, rfl, rfl⟩
  | @invoke j g e es hrun hrest =>
    obtain ⟨x, hx, he⟩ := hs.current j hrun.1
    obtain rfl := Option.some.inj (hrun.2.symm.trans hx)
    have hsum := sum_map_set Handler.left (y := { g with rest := es, inCall := true }) hrun.2
    have hold : g.left = es.length + 3 := by simp [Handler.left, he, hrest]
    have hnew : Handler.left { g with rest := es, inCall := true } = es.length + 2 := by simp [Handler.left, he]
    have hle := le_sum_map Handler.left hrun.2
    have hlt : (emit (.handled e) (setHandler j { g with rest := es, inCall := true } c)).handlersLeft <
        c.handlersLeft := by
      simp only [handlersLeft, emit_handlers, emit_current, setHandler_handlers, setHandler_current, hrun.1,
        Option.isSome_some, if_true]
      omega
    exact ⟨hlt, rfl, rfl, rfl, rfl, rfl⟩
  | @finish j g hrun hrest =>
    obtain ⟨x, hx, he⟩ := hs.current j hrun.1
    obtain rfl := Option.some.inj (hrun.2.symm.trans hx)
    have hsum := sum_map_set Handler.left (y := { g with inCall := false, ended := true }) hrun.2
    have hold : g.left = 2 := by simp [Handler.left, he, hrest]
    have hnew : Handler.left { g with inCall := false, ended := true } = 0 := rfl
    have hlt : handlersLeft { setHandler j { g with inCall := false, ended := true } c with current := none } <
        c.handlersLeft := by
      simp only [handlersLeft, setHandler_handlers, hrun.1, Option.isSome_some, Option.isSome_none, if_true,
        Bool.false_eq_true, if_false]
      omega
    exact ⟨hlt, rfl, rfl, rfl, rfl, rfl⟩
  | wait | go | stopAtOnce | stopBegun | leave | done | copy | drop => cases hop

theorem handler_work (hs : Staffed c) (hop : op.ofHandler = true) (h : lts.step c op c') :
    c'.work n < c.work n ∧ c'.waits = c.waits ∧ c'.response = c.response := by
  obtain ⟨hlt, hw, hres, hstops, hlive, -⟩ := handler_left hs hop h
  refine ⟨?_, hw, hres⟩
  simp only [work, cos, hw, hstops, hlive]
  omega

/-! ## Every step -/

theorem note_response_cases :
    (note o r c).response = c.response ∨ (∃ p, o = .report p true) ∧ (note o r c).response = r := by
  cases o with
  | report p ok =>
    rcases p with ⟨s, m⟩
    cases s <;> cases ok <;> simp [note]
  | start a =>
    left
    simp only [note]
    split <;> rfl
  | lock a | yield a | fire p => exact .inl rfl

theorem went_kept (hcan : c.readCtx.canceled = true) (hn : c.response.events.length ≤ n) (h : Went c s c') :
    c'.readCtx.canceled = true ∧ c'.response.events.length ≤ n := by
  cases h with
  | began => exact ⟨hcan, Nat.zero_le n⟩
  | cancelWritten =>
    refine ⟨?_, hn⟩
    simp [readCtx]
  | _ => exact ⟨hcan, hn⟩

/-- **Every step of its own brings a cancelled watch nearer to its end.** -/
theorem step_work (hr : Reads c.waits) (hc : Crewed c) (hs : Staffed c) (hcan : c.readCtx.canceled = true)
    (hn : c.response.events.length ≤ n) (hop : op.own n = true) (h : lts.step c op c') :
    c'.work n < c.work n ∧ c'.readCtx.canceled = true ∧ c'.response.events.length ≤ n := by
  have hhandler : op.ofHandler = true →
      c'.work n < c.work n ∧ c'.readCtx.canceled = true ∧ c'.response.events.length ≤ n := by
    intro ho
    obtain ⟨hlt, hw, hres⟩ := handler_work hs ho h
    exact ⟨hlt, by rw [readCtx, hw]; exact hcan, by rw [hres]; exact hn⟩
  cases lts_stepped h with
  | @wait o r w hw =>
    refine ⟨wait_work hc hw, ?_, ?_⟩
    · rw [readCtx, note_waits]
      exact (Waits.step_canceled hw .read).trans hcan
    · rcases note_response_cases (o := o) (r := r) (c := { c with waits := w }) with he | ⟨⟨p, rfl⟩, he⟩
      · rw [he]
        exact hn
      · rw [he]
        simpa [Op.own] using hop
  | @go a f c' hf hst hwent => exact ⟨went_work hr hc hcan hn hf hst hwent, went_kept hcan hn hwent⟩
  | enter | invoke | finish => exact hhandler rfl
  | done hlive =>
    refine ⟨?_, by simp [readCtx, onDone], hn⟩
    show (c.cos.map (coLeft n c.waits)).sum + c.waits.pending + c.handlersLeft + 0 < c.work n
    simp [work, hlive]
  | stopAtOnce | stopBegun | leave | copy | drop => simp [Op.own] at hop

/-! ## Nobody is stranded -/

/-- The coroutine that runs has begun, and so has each that has ended. -/
structure Attended (c : WatchContext ε) : Prop where
  current : ∀ j, c.current = some j → ∃ g, c.handlers[j]? = some g ∧ g.begun = true
  ended   : ∀ (i : Nat) (h : Handler ε), c.handlers[i]? = some h → h.ended = true → h.begun = true

/-- A coroutine that has begun changes, and runs or does not. -/
theorem Attended.set {j : Nat} {g : Handler ε} (hc : Attended c) (hj : j < c.handlers.length) (hg : g.begun = true)
    (hh : c'.handlers = c.handlers.set j g) (hcur : c'.current = some j ∨ c'.current = none) : Attended c' := by
  refine ⟨fun k hk => ?_, fun i h hi he => ?_⟩
  · rcases hcur with hcur | hcur <;> rw [hcur] at hk
    · obtain rfl := Option.some.inj hk
      exact ⟨g, by simp [hh, hj], hg⟩
    · cases hk
  · rw [hh] at hi
    rcases getElem?_set_cases hi with ⟨-, rfl⟩ | ⟨-, hi⟩
    · exact hg
    · exact hc.ended i h hi he

theorem step_attended (hc : Attended c) (h : lts.step c op c') : Attended c' := by
  have hlt : ∀ {j g}, c.handlers[j]? = some g → j < c.handlers.length := fun hg => (List.getElem?_eq_some_iff.1 hg).1
  have hbegun : ∀ {j g}, c.running j g → g.begun = true := by
    intro j g hrun
    obtain ⟨x, hx, hb⟩ := hc.current j hrun.1
    rwa [Option.some.inj (hrun.2.symm.trans hx)]
  cases step_ran h with
  | idle hh hcur => exact ⟨by rw [hh, hcur]; exact hc.current, by rw [hh]; exact hc.ended⟩
  | spawned es hh hcur =>
    refine ⟨fun j hj => ?_, fun i h hi he => ?_⟩
    · rw [hcur] at hj
      obtain ⟨g, hg, hb⟩ := hc.current j hj
      exact ⟨g, by rw [hh, List.getElem?_append_left (hlt hg), hg], hb⟩
    · rw [hh] at hi
      rcases getElem?_spawn_cases hi with ⟨-, rfl⟩ | ⟨-, hi⟩
      · cases he
      · exact hc.ended i h hi he
  | entered _ hg _ _ hh hcur => exact hc.set (hlt hg) rfl hh (.inl hcur)
  | called hrun _ hh hcur =>
    have hb := hbegun hrun
    refine hc.set (hlt hrun.2) ?_ hh (.inl hcur)
    exact hb
  | left hh hcur => exact ⟨by simp [hcur], by rw [hh]; exact hc.ended⟩
  | finished hrun _ hh hcur =>
    have hb := hbegun hrun
    refine hc.set (hlt hrun.2) ?_ hh (.inr hcur)
    exact hb

theorem run_attended {ops : List (Op ε)} (h : lts.Run watch ops c) : Attended c :=
  h.invariant (fun _ _ _ hc hs => step_attended hc hs) ⟨nofun, nofun⟩

/-- Where a coroutine of the loop has not ended, one of them can go on. -/
theorem handler_enabled (hc : Attended c) (hs : Staffed c) (h : 0 < c.alive ∨ c.current ≠ none) :
    ∃ op c', op.ofHandler = true ∧ lts.step c op c' := by
  cases hcur : c.current with
  | some j =>
    obtain ⟨g, hg, -⟩ := hs.current j hcur
    cases hrest : g.rest with
    | nil => exact ⟨.finish, _, rfl, by simp [lts, step, finish, hcur, hg, hrest]; rfl⟩
    | cons e es => exact ⟨.invoke, _, rfl, by simp [lts, step, invoke, hcur, hg, hrest]; rfl⟩
  | none =>
    have hpos : 0 < c.alive := h.resolve_right fun hn => hn hcur
    obtain ⟨x, hx, he⟩ : ∃ x ∈ c.handlers, x.ended = false := by simpa [alive, List.countP_pos_iff] using hpos
    -- the first that has not ended: those before it have begun
    have hlt : c.handlers.findIdx (fun h => !h.ended) < c.handlers.length :=
      List.findIdx_lt_length_of_exists ⟨x, hx, by simp [he]⟩
    generalize hj : c.handlers.findIdx (fun h => !h.ended) = j at hlt
    have hended : c.handlers[j].ended = false := by
      subst hj
      simpa using List.findIdx_getElem (w := hlt)
    have hbefore : ∀ g ∈ c.handlers.take j, g.begun = true := by
      refine forall_take.2 fun i g hi hg => hc.ended i g hg ?_
      obtain ⟨hil, rfl⟩ := List.getElem?_eq_some_iff.1 hg
      subst hj
      simpa using List.not_of_lt_findIdx hi
    have hstep : enter j c = some { setHandler j { c.handlers[j] with begun := true } c with current := some j } := by
      have hmay : c.handlers[j].begun = true ∨ ∀ g ∈ c.handlers.take j, g.begun = true := .inr hbefore
      simp only [enter, hlt, getElem?_pos, hcur, hended, true_and, Option.bind_eq_bind, Option.bind_some, guard,
        if_pos hmay]
      rfl
    exact ⟨.enter j, _, rfl, hstep⟩

theorem wait_enabled (h : c.waits.step Site.side Site.co o = some w) :
    lts.step c (.wait o r) (note o r { c with waits := w }) := by
  show (c.waits.step Site.side Site.co o).map _ = _
  rw [h]
  rfl

/-- The stream is done with where nothing is left to be reported. -/
theorem stream_enabled (h : c.live = true ∨ c.waits.inFlight ≠ [] ∨ c.waits.calling ≠ []) :
    ∃ op c', op.own n = true ∧ lts.step c op c' := by
  by_cases hi : c.waits.inFlight = []
  · by_cases hcall : c.waits.calling = []
    · have hlive : c.live = true := by simpa [hi, hcall] using h
      exact ⟨.done, onDone c, rfl, by simp [lts, step, hlive, hi, hcall]⟩
    · obtain ⟨p, hp⟩ := List.exists_mem_of_ne_nil _ hcall
      exact ⟨.wait (.fire p) {}, _, rfl, wait_enabled (by simp only [Waits.step, if_pos hp]; rfl)⟩
  · obtain ⟨p, hp⟩ := List.exists_mem_of_ne_nil _ hi
    exact ⟨.wait (.report p true) {}, _, by simp [Op.own], wait_enabled (by simp only [Waits.step, if_pos hp]; rfl)⟩

/-- The coroutine takes a step, or its operation is reported with `ok`, or its resumer called. -/
def Op.advances (a : Co) (ok : Bool) : Op ε → Prop
  | .wait (.lock b) _ | .wait (.start b) _ | .wait (.yield b) _ => b = a
  | .wait (.report _ b) r => b = ok ∧ r.events = []
  | .wait (.fire _) _ => True
  | _ => False

/-- A coroutine that nobody gets in the way of can go on, or what it waits for is yet to come. -/
theorem co_enabled (ok : Bool) (hw : c.waits.Lone Site.side Site.co f.point.site.side) (hf : c.waits.frame a = some f)
    (hst : f.stage ≠ .woken) : ∃ op c', op.advances a ok ∧ lts.step c op c' := by
  have hat : ∀ g, f.stage = g → c.waits.at? a g = some f := by
    rintro g rfl
    simp [Waits.at?, hf]
  cases hg : f.stage with
  | lock => exact ⟨.wait (.lock a) {}, _, rfl, wait_enabled (by simp only [Waits.step, hat _ hg]; rfl)⟩
  | start => exact ⟨.wait (.start a) {}, _, rfl, wait_enabled (by simp only [Waits.step, hat _ hg]; rfl)⟩
  | yield => exact ⟨.wait (.yield a) {}, _, rfl, wait_enabled (by simp only [Waits.step, hat _ hg]; rfl)⟩
  | parked =>
    have hsuits := hw.side.sound.suits a f (Waits.side_frame_eq.2 ⟨hf, rfl⟩)
    simp only [Waits.Suits, hg] at hsuits
    rcases hsuits.2 with hp | hp
    · have hp := (Waits.mem_side_inFlight.1 hp).1
      exact ⟨.wait (.report f.point ok) {}, _, ⟨rfl, rfl⟩, wait_enabled (by simp only [Waits.step, if_pos hp]; rfl)⟩
    · have hp := (Waits.mem_side_calling.1 hp).1
      exact ⟨.wait (.fire f.point) {}, _, trivial, wait_enabled (by simp only [Waits.step, if_pos hp]; rfl)⟩
  | woken => exact absurd hg hst

theorem Op.advances.own {ok : Bool} (h : op.advances a ok) : op.own n = true := by
  cases op with
  | wait o r =>
    cases o with
    | report p b =>
      have hr : r.events = [] := h.2
      simp [Op.own, hr]
    | lock | start | yield | fire => rfl
  | _ => cases h

theorem Op.own_of_ofHandler (h : op.ofHandler = true) : op.own n = true := by
  cases op <;> first | rfl | cases h

/-- One that has been resumed goes on, unless its `CHECK` fails. -/
theorem woken_enabled (hr : Reads c.waits) (hcheck : ¬ c.CheckFails) (hf : c.waits.frame a = some f)
    (hst : f.stage = .woken) : ∃ op c', op.own n = true ∧ lts.step c op c' := by
  have hgo : ∀ c', after f.point.site c = some c' → ∃ op c', op.own n = true ∧ lts.step c op c' := by
    intro c' hc'
    refine ⟨.go a, c', rfl, ?_⟩
    show (c.waits.at? a .woken).bind _ = some c'
    rw [Waits.at?, hf, Option.filter_some_pos (by simpa using hst)]
    exact hc'
  cases hs : f.point.site with
  | created =>
    have hco := hr.placed a f hf
    rw [hs] at hco
    subst hco
    cases hsu : c.readCtx.success with
    | false => exact hgo (startReturns false c) (by simp [hs, after, afterCreated, hsu])
    | true =>
      cases hcr : c.response.created with
      | false => exact absurd ⟨f, hf, hst, hs, hsu, hcr⟩ hcheck
      | true => exact hgo (began c) (by simp [hs, after, afterCreated, hsu, hcr, began])
  | create | next | cancel _ | finish _ => exact hgo _ (by rw [hs]; rfl)

/-- What has been started remains so. -/
theorem step_started (hr : Reads c.waits) (hs : Starting c) (h : lts.step c op c') (hc : c.started = true) :
    c'.started = true := by
  cases lts_stepped h with
  | @go a f c' hf _ hw =>
    obtain rfl := hr.placed a f hf
    have hnone : ∀ s : Site, f.point.site = s → s.co = .start → False := by
      intro s hs' hco
      have hstart : c.waits.frame .start ≠ none := by simp [← hco, ← hs', hf]
      rw [(hs hstart).1] at hc
      cases hc
    generalize f.point.site = s at hw hnone
    cases hw with
    | createFailed | createdFailed | began => exact (hnone _ rfl rfl).elim
    | _ => exact hc
  | _ => simpa [onDone] using hc

/-- `StopWatch` is not called before `Start` has returned. -/
theorem run_not_stopped {ops : List (Op ε)} (h : lts.Run watch ops c) (hstart : c.waits.frame .start ≠ none) :
    .stopWatch ∉ ops := by
  have hhist : lts.Run watch ops c ∧ (c.started = false → .stopWatch ∉ ops) := by
    refine h.history (P := fun ops c => lts.Run watch ops c ∧ (c.started = false → .stopWatch ∉ ops)) ?_
      ⟨.nil _, fun _ => by simp⟩
    rintro ops c op c' ⟨hrun, hno⟩ hst
    refine ⟨hrun.append (.single hst), fun hs' => ?_⟩
    have hfalse : c.started = false := by
      by_contra ht
      rw [step_started (run_reads hrun) (run_starting hrun) hst (by simpa using ht)] at hs'
      cases hs'
    have hne : op ≠ .stopWatch := by
      rintro rfl
      cases lts_stepped hst with
      | stopAtOnce ht | stopBegun ht =>
        rw [hfalse] at ht
        cases ht
    simp [hno hfalse, Ne.symm hne]
  exact hhist.2 (run_starting h hstart).1

/-- So the writes of `Start` are the only ones. -/
theorem run_start_lone {ops : List (Op ε)} (h : lts.Run watch ops c) (hstart : c.waits.frame .start ≠ none) :
    c.waits.Lone Site.side Site.co .write := by
  have hnever : (lts.restrict fun _ op => op ≠ .stopWatch).Run watch ops c :=
    h.restrict_forall fun op hop ho => run_not_stopped h hstart (ho ▸ hop)
  have hsole : (lts.restrict fun c op => op.Sole c).Run watch ops c := by
    refine hnever.restrict_imp (I := fun _ => True) (fun _ _ _ _ _ _ => trivial) ?_ trivial
    intro c op _ hop _ _
    cases op with
    | stopWatch => exact absurd rfl hop
    | _ => trivial
  exact (run_course hsole).stopping.writes

/-- A coroutine that has its context to itself is not left where nothing can happen any more. -/
theorem stuck_gone (hstuck : (ownLts ε n).Stuck c) (hr : Reads c.waits) (hcheck : ¬ c.CheckFails)
    (hw : ∀ f, c.waits.frame a = some f → c.waits.Lone Site.side Site.co f.point.site.side) :
    c.waits.frame a = none := by
  by_contra hne
  obtain ⟨f, hf⟩ := Option.ne_none_iff_exists'.1 hne
  obtain ⟨op, c', hop, hs⟩ : ∃ op c', op.own n = true ∧ lts.step c op c' := by
    by_cases hst : f.stage = .woken
    · exact woken_enabled hr hcheck hf hst
    · obtain ⟨op, c', hop, hs⟩ := co_enabled true (hw f hf) hf hst
      exact ⟨op, c', hop.own, hs⟩
  exact hstuck op c' ⟨hs, hop⟩

/-- Where nothing can happen any more the stream is done, and the watch is held by its caller alone. -/
theorem stuck_released {ops : List (Op ε)} (h : lts.Run watch ops c) (hstuck : (ownLts ε n).Stuck c)
    (hcheck : ¬ c.CheckFails) : c.live = false ∧ c.waits.frame .start = none ∧ c.refs = c.caller := by
  have hr := run_reads h
  have hnot : ¬ ∃ op c', op.own n = true ∧ lts.step c op c' := by
    rintro ⟨op, c', hop, hs⟩
    exact hstuck op c' ⟨hs, hop⟩
  have hlive : c.live = false := by
    by_contra hne
    exact hnot (stream_enabled (.inl (by simpa using hne)))
  have hstart : c.waits.frame .start = none := by
    refine stuck_gone hstuck hr hcheck fun f hf => ?_
    cases f.point.site.side with
    | read => exact hr.lone
    | write => exact run_start_lone h (by simp [hf])
  have hloop : c.waits.frame .loop = none := by
    refine stuck_gone hstuck hr hcheck fun f hf => ?_
    have hco := hr.placed _ f hf
    have hside : f.point.site.side = .read := by
      cases hs : f.point.site <;> simp_all [Site.co, Site.side]
    rw [hside]
    exact hr.lone
  have halive : c.alive = 0 := by
    by_contra hne
    obtain ⟨op, c', hop, hs⟩ := handler_enabled (run_attended h) (run_staffed h) (.inl (Nat.pos_of_ne_zero hne))
    exact hnot ⟨op, c', Op.own_of_ofHandler hop, hs⟩
  exact ⟨hlive, hstart, by simp [refs, halive, hloop]⟩

end

/-- A watch of which nothing is left cannot go on. -/
theorem stuck_of_work {ops : List (Op ε)} {c : WatchContext ε} {n : Nat} (h : lts.Run watch ops c)
    (hcan : c.readCtx.canceled = true) (hn : c.response.events.length ≤ n) (hw : c.work n = 0) :
    (ownLts ε n).Stuck c := by
  rintro op c' ⟨hst, hop⟩
  have hlt := (step_work (run_reads h) (run_crewed h) (run_staffed h) hcan hn hop hst).1
  omega

end WatchContext
end LtApp.Etcd
