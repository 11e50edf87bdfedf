import LtApp.Etcd.Watch

/-!
# Resumed exactly once

The functions of `EtcdClientV3` that wait have a context of their own each, so that nothing can go wrong but the order
of the lines: `Put`, `Range` and `LeaseGrant` call `LockContext` before the RPC is started, `TimeToAlive` does not
call it at all. A `WatchContext` has two contexts for five places. Those that read follow one another; those that
write do as well, unless `StopWatch` is called while another call of it waits.

| here | there |
| --- | --- |
| `Unary`, `Unary.lines` | `Put`, `Range`, `LeaseGrant`, `TimeToAlive` (`etcd_client.cc:56`, `:79`, `:118`, `:145`): their lines that touch the context |
-/

namespace LtApp.Etcd

/-! ## RPCs -/

inductive Unary
  | put | range | leaseGrant | timeToAlive
deriving DecidableEq, Repr

inductive Line
  | lockContext
  /-- The call of `async()`. -/
  | async
  | coYield
deriving DecidableEq, Repr

def Unary.lines : Unary → List Line
  | .put | .range | .leaseGrant => [.lockContext, .async, .coYield]
  | .timeToAlive => [.async, .coYield]

/-- Where the function begins. -/
def Unary.first (u : Unary) : Stage := if u.lines.head? = some .lockContext then .lock else .start

/-- The one coroutine and the one context of a call. -/
abbrev UnaryCall := Waits Unit Unit Unary

namespace Unary

def begin (u : Unary) : UnaryCall := Waits.enter () u u.first {}

def lts : Lts UnaryCall (Waits.Op Unit Unary) :=
  ⟨fun w o w' => w.step (fun _ => ()) (fun _ => ()) o = some w'⟩

/-- The callback calls `resumer_`. -/
def fires : Waits.Op Unit Unary → Bool
  | .fire _ => true
  | _ => false

section
variable {u : Unary} {w w' : UnaryCall} {op : Waits.Op Unit Unary}

/-- `LockContext`, where it is still to come, finds no resumer. -/
structure Locks (w : UnaryCall) : Prop where
  sound : w.Sound (fun _ => ()) (fun _ => ())
  fresh : ∀ f, w.frame () = some f → f.stage = .lock → (w.ctx ()).resumer = none

theorem begin_locks (hu : u ≠ .timeToAlive) : Locks u.begin := by
  have hfirst : u.first = .lock := by cases u <;> simp_all [first, lines]
  unfold begin
  rw [hfirst]
  exact ⟨Waits.sound_nil.enter rfl (by simp), fun _ _ _ => rfl⟩

theorem step_locks (hw : Locks w) (h : lts.step w op w') : Locks w' := by
  have hs : w.step (fun _ => ()) (fun _ => ()) op = some w' := h
  refine ⟨Waits.step_sound hw.sound ?_ hs, fun f' hf' hl => ?_⟩
  · cases Waits.step_stepped _ _ hs with
    | lock hf hst => simp [Waits.Op.Clear, hf, Waits.Free, hw.fresh _ hf hst]
    | _ => trivial
  · obtain ⟨f, hf, hst⟩ := (Waits.step_frame hs ()).2 f' hf' hl
    have hop : ∀ a, op ≠ .lock a := by
      rintro a rfl
      cases Waits.step_stepped _ _ hs with
      | lock hf _ =>
        -- having called `LockContext` the coroutine is past it
        simp [Waits.lock] at hf'
        simp [← hf'] at hl
    rw [Waits.step_resumer hs hop]
    exact hw.fresh f hf hst

/-- A call without `LockContext`, up to its callback. -/
def Unlocked (w : UnaryCall) : Prop :=
  w.resumed = [] ∧ (w.ctx ()).resumer = none ∧ ∃ f, w.frame () = some f ∧ f.called = false ∧
    (f.stage = .start ∨ ((f.stage = .yield ∨ f.stage = .parked) ∧ (f.point ∈ w.inFlight ∨ f.point ∈ w.calling)))

theorem Unlocked.exact (hw : Unlocked w) : w.Exact := by
  obtain ⟨hr, -, f, hf, -, hst⟩ := hw
  refine ⟨by simp [hr], by simp [hr], fun a g hg hs => ?_, fun a g hg hs => ?_⟩
  all_goals
    obtain rfl : f = g := Option.some.inj (hf.symm.trans hg)
    simp_all

theorem step_unlocked (hw : Unlocked w) (h : lts.step w op w') :
    if fires op then ¬ w'.Exact else Unlocked w' := by
  obtain ⟨hr, hctx, f, hf, hc, hst⟩ := hw
  have hs : w.step (fun _ => ()) (fun _ => ()) op = some w' := h
  cases Waits.step_stepped _ _ hs with
  | lock hf' hst' => simp_all
  | start hf' hst' =>
    obtain rfl : f = _ := Option.some.inj (hf.symm.trans hf')
    exact ⟨hr, hctx, { f with stage := .yield }, by simp [Waits.start], hc, .inr ⟨.inl rfl, by simp [Waits.start]⟩⟩
  | yield hf' hst' =>
    obtain rfl : f = _ := Option.some.inj (hf.symm.trans hf')
    have hway : f.point ∈ w.inFlight ∨ f.point ∈ w.calling := by simpa [hst'] using hst
    exact ⟨hr, hctx, { f with stage := .parked }, by simp [Waits.yield, hc], hc, .inr ⟨.inr rfl, hway⟩⟩
  | @report p ok hp =>
    exact ⟨hr, (Waits.report_resumer p ok ()).trans hctx, f, hf, hc,
      hst.imp_right fun hst => ⟨hst.1, (Waits.mem_report hp ok).2 hst.2⟩⟩
  | @fire p hp =>
    -- there is no resumer to call
    intro hexact
    have hmem : (p, none) ∈ (w.fire (fun _ => ()) (fun _ => ()) p).resumed := by
      rcases Waits.fire_cases (fun _ => ()) (fun _ => ()) p w with h | ⟨_, _, _, _, _, _, h⟩ <;>
        simp [h, hctx]
    exact absurd (hexact.own p none hmem) (by simp)

/-- The step of a call without `LockContext` is exact unless it is the callback. -/
theorem unlocked_iff (hw : Unlocked w) (h : lts.step w op w') :
    (w'.Exact ↔ fires op = false) ∧ (Unlocked w' ↔ fires op = false) := by
  have hstep := step_unlocked hw h
  cases hf : fires op with
  | true =>
    rw [hf, if_pos rfl] at hstep
    exact ⟨by simp [hstep], by simpa using fun hu : Unlocked w' => hstep hu.exact⟩
  | false =>
    rw [hf] at hstep
    have hu : Unlocked w' := by simpa using hstep
    exact ⟨by simp [hu.exact], by simp [hu]⟩

/-- **An RPC that waits is resumed exactly once**, unless it is that of `TimeToAlive`, which is never resumed once it
has been called back. -/
theorem exact_iff (u : Unary) (ops : List (Waits.Op Unit Unary)) (w : UnaryCall) :
    (lts.within Waits.Exact).Run u.begin ops w ↔
      (lts.restrict fun _ op => u = .timeToAlive → fires op = false).Run u.begin ops w := by
  by_cases hu : u = .timeToAlive
  · subst hu
    have hbegin : Unlocked (begin .timeToAlive) := ⟨rfl, rfl, _, rfl, rfl, .inl rfl⟩
    rw [Lts.Run.within_congr (I := fun _ => True) (Q := Unlocked) (fun _ _ _ _ _ => trivial)
      (fun _ _ _ _ hs hst => (unlocked_iff hs hst).1.trans (unlocked_iff hs hst).2.symm) trivial hbegin]
    exact Lts.Run.within_iff_restrict (I := fun _ => True) (fun _ _ _ _ _ => trivial)
      (fun _ _ _ _ hs hst => by simpa using (unlocked_iff hs hst).2) trivial hbegin
  · have hbegin := begin_locks hu
    exact Lts.Run.within_iff_restrict (I := Locks) (fun _ _ _ hs hst => step_locks hs hst)
      (fun _ _ _ hs _ hst => by simp [(step_locks hs hst).sound.exact, hu]) hbegin hbegin.sound.exact

end

end Unary

/-! ## Watches -/

namespace WatchContext

variable {ε : Type}

/-- `LockContext` is called on a context nobody uses. -/
def Op.Clear (c : WatchContext ε) : Op ε → Prop
  | .wait o _ => o.Clear Site.side c.waits
  | _ => True

instance (c : WatchContext ε) : (op : Op ε) → Decidable (op.Clear c)
  | .wait o _ => inferInstanceAs (Decidable (o.Clear Site.side c.waits))
  | .go _ | .stopWatch | .enter _ | .invoke | .leave | .finish | .done | .copy | .drop => isTrue trivial

/-- Which coroutines there are. -/
structure Manned (c : WatchContext ε) : Prop where
  /-- The loop is spawned as `Start` comes to its end. -/
  loop : c.waits.frame .start ≠ none → c.waits.frame .loop = none
  stop : ∀ i, c.stops ≤ i → c.waits.frame (.stop i) = none

structure Orderly (c : WatchContext ε) : Prop extends Manned c where
  sound : c.waits.Sound Site.side Site.co

section
variable {c c' : WatchContext ε} {op : Op ε}

theorem Manned.congr (hc : Manned c) (h : ∀ a, (c'.waits.frame a).isSome = (c.waits.frame a).isSome)
    (hs : c'.stops = c.stops) : Manned c' := by
  have hnone : ∀ a, c'.waits.frame a = none ↔ c.waits.frame a = none := by
    intro a
    rw [← Option.not_isSome_iff_eq_none, ← Option.not_isSome_iff_eq_none, h]
  refine ⟨fun hn => (hnone _).2 (hc.loop fun h => hn ((hnone _).2 h)), fun i hi => (hnone _).2 (hc.stop i (hs ▸ hi))⟩

/-- A coroutine that has been resumed comes to its end. -/
theorem Orderly.leave {a : Co} (hc : Orderly c) (hw : ∀ f, c.waits.frame a = some f → f.stage = .woken)
    (hwaits : c'.waits = c.waits.leave a) (hs : c'.stops = c.stops) : Orderly c' := by
  have hnone : ∀ b, c.waits.frame b = none → c'.waits.frame b = none := by
    intro b hb
    rw [hwaits]
    by_cases hba : b = a
    · simp [hba]
    · simpa [hba] using hb
  have hsome : ∀ b, c'.waits.frame b ≠ none → c.waits.frame b ≠ none := fun b hb hn => hb (hnone b hn)
  exact ⟨⟨fun hn => hnone _ (hc.loop (hsome _ hn)), fun i hi => hnone _ (hc.stop i (hs ▸ hi))⟩,
    hwaits ▸ hc.sound.leave hw⟩

/-- It goes on to the next place that yields. -/
theorem Orderly.enter {s : Site} (hc : Orderly c) (hw : ∀ f, c.waits.frame s.co = some f → f.stage = .woken)
    (hwaits : c'.waits = c.waits.enter s.co s .lock) (hstops : c.stops ≤ c'.stops)
    (hstart : s.co = .start → c.waits.frame .loop = none) (hloop : s.co = .loop → c.waits.frame .start = none)
    (hstop : ∀ i, s.co = .stop i → i < c'.stops) : Orderly c' := by
  have hframe : ∀ b, b ≠ s.co → c'.waits.frame b = c.waits.frame b := by
    intro b hb
    rw [hwaits]
    simp [hb]
  refine ⟨⟨fun hn => ?_, fun i hi => ?_⟩, hwaits ▸ hc.sound.enter rfl hw⟩
  · by_cases hl : s.co = .loop
    · rw [hframe .start (by simp [hl]), hloop hl] at hn
      exact absurd rfl hn
    · rw [hframe .loop (Ne.symm hl)]
      by_cases hst : s.co = .start
      · exact hstart hst
      · exact hc.loop (by rwa [hframe .start (Ne.symm hst)] at hn)
  · have hne : .stop i ≠ s.co := by
      intro he
      have := hstop i he.symm
      omega
    rw [hframe _ hne]
    exact hc.stop i (by omega)

/-- `Start` spawns the loop and returns. -/
theorem Orderly.began (hc : Orderly c) {f : Frame Site} (hf : c.waits.frame .start = some f) (hst : f.stage = .woken) :
    Orderly (began c) := by
  have hnone : c.waits.frame .loop = none := hc.loop (by simp [hf])
  have hsound : (c.waits.enter .loop .next .lock).Sound Site.side Site.co := hc.sound.enter rfl (by simp [hnone])
  refine ⟨⟨fun hn => ?_, fun i hi => ?_⟩, hsound.leave fun g hg => ?_⟩
  · simp [WatchContext.began, startReturns, goto] at hn
  · simpa [WatchContext.began, startReturns, goto, Site.co] using hc.stop i hi
  · have hg : c.waits.frame .start = some g := by simpa [Site.co] using hg
    rw [← Option.some.inj (hf.symm.trans hg)]
    exact hst

theorem Orderly.cancelRead (hc : Orderly c) : Orderly (cancelRead c) :=
  ⟨⟨hc.loop, hc.stop⟩, hc.sound.setCtx rfl⟩

theorem Orderly.stop_lt (hc : Orderly c) {i : Nat} {f : Frame Site} (hf : c.waits.frame (.stop i) = some f) :
    i < c.stops := by
  by_contra hi
  simp [hc.stop i (by omega)] at hf

theorem went_orderly (hc : Orderly c) {s : Site} {f : Frame Site} (hf : c.waits.frame s.co = some f)
    (hst : f.stage = .woken) (h : Went c s c') : Orderly c' := by
  have hw : ∀ g, c.waits.frame s.co = some g → g.stage = .woken := by
    intro g hg
    rw [← Option.some.inj (hf.symm.trans hg)]
    exact hst
  have hsome : c.waits.frame s.co ≠ none := by simp [hf]
  cases h with
  | createFailed | createdFailed => exact hc.leave hw rfl rfl
  | createWritten => exact hc.enter (s := .created) hw rfl (Nat.le_refl _) (fun _ => hc.loop hsome) nofun nofun
  | began => exact hc.began hf hst
  | readFailed | canceled => exact hc.leave hw rfl rfl
  | lastSpawned => exact hc.leave hw rfl rfl
  | spawned =>
    refine hc.enter (s := .next) hw rfl (Nat.le_refl _) nofun (fun _ => ?_) nofun
    by_contra hn
    exact hsome (hc.loop hn)
  | cancelFailed | finished => exact hc.leave hw rfl rfl
  | @cancelWritten i =>
    refine hc.cancelRead.enter (s := .finish i) hw rfl (Nat.le_refl _) nofun nofun fun j hj => ?_
    obtain rfl : i = j := by simpa [Site.co] using hj
    exact hc.stop_lt hf

theorem step_orderly (hc : Orderly c) (hop : op.Clear c) (h : lts.step c op c') : Orderly c' := by
  cases lts_stepped h with
  | @wait o r w hw =>
    refine ⟨hc.congr (fun a => by simpa using (Waits.step_frame hw a).1) (by simp), ?_⟩
    simpa using Waits.step_sound hc.sound hop hw
  | @go a f c' hf hst hw =>
    have ha := hc.sound.placed a f hf
    subst ha
    exact went_orderly hc hf hst hw
  | stopAtOnce => exact ⟨⟨hc.loop, fun i hi => hc.stop i (Nat.le_of_succ_le hi)⟩, hc.sound⟩
  | stopBegun =>
    have hnone := hc.stop c.stops (Nat.le_refl _)
    refine hc.enter (s := .cancel c.stops) (by simp [Site.co, hnone]) rfl (Nat.le_succ _) nofun nofun fun i hi => ?_
    obtain rfl : c.stops = i := by simpa [Site.co] using hi
    exact Nat.lt_succ_self _
  | enter | invoke | leave | finish | copy | drop => exact ⟨⟨hc.loop, hc.stop⟩, hc.sound⟩
  | done => exact ⟨⟨hc.loop, hc.stop⟩, hc.sound.setCtx rfl⟩

theorem watch_orderly : Orderly (watch : WatchContext ε) := by
  refine ⟨⟨fun _ => rfl, fun i _ => rfl⟩, Waits.sound_nil.enter rfl (by simp)⟩

end

/-- **Every wait on a watch is resumed exactly once**, in every run in which `LockContext` is only called on a context
nobody uses. -/
theorem watch_exact {ops : List (Op ε)} {c : WatchContext ε}
    (h : (lts.restrict fun c op => op.Clear c).Run watch ops c) : c.waits.Exact :=
  (h.invariant_restrict (fun _ _ _ hc hg hs => step_orderly hc hg hs) watch_orderly).sound.exact

end WatchContext

/-- **Every yielding operation is resumed exactly once**: an RPC in exactly the runs in which no `TimeToAlive` is called
back, a watch in every run in which `LockContext` is only called on a context nobody uses. -/
theorem resumed_exactly_once (ε : Type) :
    (∀ (u : Unary) (ops : List (Waits.Op Unit Unary)) (w : UnaryCall),
      (Unary.lts.within Waits.Exact).Run u.begin ops w ↔
        (Unary.lts.restrict fun _ op => u = .timeToAlive → Unary.fires op = false).Run u.begin ops w) ∧
      ∀ (ops : List (WatchContext.Op ε)) (c : WatchContext ε),
        (WatchContext.lts.restrict fun c op => op.Clear c).Run WatchContext.watch ops c → c.waits.Exact :=
  ⟨Unary.exact_iff, fun _ _ => WatchContext.watch_exact⟩

/-- The condition is met by a watch whose create request is reported before the coroutine yields. -/
theorem resumed_exactly_once_run :
    ∃ c : WatchContext Nat, (WatchContext.lts.restrict fun c op => op.Clear c).Run WatchContext.watch
        [.wait (.lock .start) {}, .wait (.start .start) {}, .wait (.report ⟨.create, 0⟩ true) {},
          .wait (.fire ⟨.create, 0⟩) {}, .wait (.yield .start) {}, .go .start] c ∧ c.waits.Exact := by
  exact Lts.exists_restrict_run_of_exec (P := fun c : WatchContext Nat => c.waits.resumed.length = 1) (fun _ _ _ h => h)
    (by decide) fun c hr _ => (resumed_exactly_once Nat).2 _ c hr

/-- **`TimeToAlive` is never resumed**: the RPC succeeds, and its callback finds no resumer. -/
theorem never_resumed :
    ∃ w, Unary.lts.Run (Unary.begin .timeToAlive)
        [.start (), .yield (), .report ⟨.timeToAlive, 0⟩ true, .fire ⟨.timeToAlive, 0⟩] w ∧
      w.inFlight = [] ∧ w.calling = [] ∧ ¬ w.Exact := by
  refine Lts.exists_run_of_exec_imp (P := fun w : UnaryCall => w.inFlight = [] ∧ w.calling = [] ∧
    w.resumed = [(⟨.timeToAlive, 0⟩, none)]) (fun _ _ _ h => h) (by decide) ?_
  rintro w - ⟨hi, hc, hw⟩
  refine ⟨hi, hc, fun hexact => ?_⟩
  exact absurd (hexact.own ⟨.timeToAlive, 0⟩ none (by simp [hw])) (by simp)

end LtApp.Etcd
