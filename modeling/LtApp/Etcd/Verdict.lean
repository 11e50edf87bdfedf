import LtApp.Etcd.KeepAlive

/-!
# `Wait` beside the callbacks of a keepalive stream

`KeepAlive` runs a callback in one step; here `ResumeContext` and `Wait` run on two threads, one atomic step at a time.

| here | there |
| --- | --- |
| `Resuming` | the stores, the locked section and the end of `ResumeContext` (`call_context.cc:8`) |
| `Waiting` | `LockContext` and `CO_YIELD` in `Wait` (`call_context.cc:19`, `keepalive_ctx.cc:41`) |
| `Op.resumes` | the callbacks that call `ResumeContext` (`keepalive_ctx.cc:53`, `:61`, `:78`), and with what |
| `before`, `rest` | what such a callback does before the call and after it |

gRPC delivers the callbacks of the stream one after another. A resumer called before its coroutine has yielded takes
effect when it yields. `Wait` is called once, at any moment.
-/

namespace LtApp.Etcd

/-- The next atomic step of `ResumeContext`. -/
inductive Resuming
  | storeSuccess (ok : Bool)
  | storeDone
  | callResumer
  /-- What the callback does after it. -/
  | rest
deriving DecidableEq, Repr

/-- Where `Wait` is. -/
inductive Waiting
  | uncalled
  /-- `resumer_` is set, and `done_` is to be read. -/
  | installed
  /-- `done_` was false: before `CO_YIELD`. -/
  | yielding
  | yielded
  | resumed
  /-- `done_` was true: `Wait` has returned without yielding. -/
  | returned
deriving DecidableEq, Repr

/-- `Wait` yields, or has. -/
def Waiting.yields : Waiting → Bool
  | .yielding | .yielded | .resumed => true
  | .uncalled | .installed | .returned => false

namespace KeepAliveContext

/-- The verdict a callback passes to `ResumeContext`. -/
def Op.resumes : Op → Option Bool
  | .done ok => some ok
  | .readDone false | .writeDone false => some false
  | .readDone true | .writeDone true | .writesDoneDone _ | .delayed | .cancel => none

/-- The operation is a callback of gRPC. -/
def Op.callback : Op → Bool
  | .writeDone _ | .readDone _ | .writesDoneDone _ | .done _ => true
  | .delayed | .cancel => false

/-- A callback up to its `ResumeContext`. -/
def before (c : KeepAliveContext) : Op → KeepAliveContext
  | .done ok => { c with live := false, log := .done ok :: c.log }
  | .readDone ok => readReported ok c
  | .writeDone ok => writeReported ok c
  | .writesDoneDone _ | .delayed | .cancel => c

/-- A callback after its `ResumeContext`. -/
def rest (c : KeepAliveContext) : Op → KeepAliveContext
  | .readDone _ => if c.call.canceled then startWritesDone c else postDelayTask c
  | .writeDone _ | .writesDoneDone _ | .done _ | .delayed | .cancel => c

/-- A callback that nothing comes between is one step of the stream. -/
theorem step_eq_rest {c : KeepAliveContext} {op : Op} {ok : Bool} (h : op.resumes = some ok) :
    step c op = rest (resumeContext ok (before c op)) op := by
  cases op with
  | done b =>
    obtain rfl : b = ok := by simpa [Op.resumes] using h
    rfl
  | readDone b =>
    cases b with
    | true => cases h
    | false =>
      obtain rfl : false = ok := by simpa [Op.resumes] using h
      rfl
  | writeDone b =>
    cases b with
    | true => cases h
    | false =>
      obtain rfl : false = ok := by simpa [Op.resumes] using h
      rfl
  | writesDoneDone | delayed | cancel => cases h

end KeepAliveContext

namespace KeepAliveContext

variable {c : KeepAliveContext} {op : Op}

theorem Op.callback_of_resumes {ok : Bool} (h : op.resumes = some ok) : op.callback = true := by
  cases op with
  | delayed | cancel => cases h
  | _ => rfl

@[simp] theorem before_call : (before c op).call = c.call := by cases op <;> rfl

@[simp] theorem rest_call : (rest c op).call = c.call := by
  cases op with
  | readDone ok =>
    simp only [rest]
    split <;> rfl
  | _ => rfl

@[simp] theorem rest_live : (rest c op).live = c.live := by
  cases op with
  | readDone ok =>
    simp only [rest]
    split <;> rfl
  | _ => rfl

/-- A step without `ResumeContext` leaves what it stores alone, and does not end the stream. -/
structure Unresumed (c d : KeepAliveContext) : Prop where
  success : d.call.success = c.call.success
  done    : d.call.done = c.call.done
  resumer : d.call.resumer = c.call.resumer
  live    : d.live = c.live

theorem step_unresumed (h : op.resumes = none) : Unresumed c (step c op) := by
  cases op with
  | done ok => cases h
  | writeDone ok =>
    cases ok with
    | true => exact ⟨rfl, rfl, rfl, rfl⟩
    | false => cases h
  | readDone ok =>
    cases ok with
    | true =>
      simp only [step, onReadDone]
      split <;> exact ⟨rfl, rfl, rfl, rfl⟩
    | false => cases h
  | writesDoneDone | delayed | cancel => exact ⟨rfl, rfl, rfl, rfl⟩

end KeepAliveContext

structure Awaited where
  ctx      : KeepAliveContext
  /-- The callback that is inside `ResumeContext`. -/
  callback : Option (KeepAliveContext.Op × Resuming) := none
  wait     : Waiting := .uncalled
  /-- How often the resumer of `Wait` has been called. -/
  calls    : Nat := 0
  /-- What `Success()` was when `Done()` became true. -/
  verdict  : Option Bool := none
deriving DecidableEq, Repr

namespace Awaited

inductive Act
  /-- gRPC begins a callback, the delayed closure runs, or the owner calls `Cancel`. -/
  | stream (op : KeepAliveContext.Op)
  /-- The next step of the callback. -/
  | resume
  /-- The next step of `Wait`. -/
  | wait
deriving DecidableEq, Repr

/-- The stream after `Start`. -/
def started (lease interval : Int) : Awaited := { ctx := KeepAliveContext.start lease interval {} }

@[simps] def setCall (x : CallContext Nat) (s : Awaited) : Awaited := { s with ctx := { s.ctx with call := x } }

/-- `success_ = ok`. -/
@[simps!] def storeSuccess (ok : Bool) (s : Awaited) : Awaited := setCall { s.ctx.call with success := ok } s

/-- `done_.store(true)`. -/
@[simps!] def storeDone (s : Awaited) : Awaited :=
  setCall { s.ctx.call with done := true } { s with verdict := s.verdict.or (some s.ctx.call.success) }

/-- The resumer is called: it schedules the coroutine, once it has yielded. -/
@[simps] def callResumer (s : Awaited) : Awaited :=
  { s with calls := s.calls + 1, wait := if s.wait = .yielded then .resumed else s.wait }

def stream (s : Awaited) (op : KeepAliveContext.Op) : Option Awaited :=
  if s.ctx.enabled op = true ∧ (op.callback = true → s.callback = none) then
    match op.resumes with
    | some ok => some { s with ctx := s.ctx.before op, callback := some (op, .storeSuccess ok) }
    | none => some { s with ctx := s.ctx.step op }
  else none

def resume (s : Awaited) : Option Awaited :=
  match s.callback with
  | none => none
  | some (op, .storeSuccess ok) => some (storeSuccess ok { s with callback := some (op, .storeDone) })
  | some (op, .storeDone) => some (storeDone { s with callback := some (op, .callResumer) })
  | some (op, .callResumer) =>
    let s := { s with callback := some (op, .rest) }
    some (if s.ctx.call.resumer.isSome then callResumer s else s)
  | some (op, .rest) => some { s with ctx := s.ctx.rest op, callback := none }

def waitNext (s : Awaited) : Option Awaited :=
  match s.wait with
  | .uncalled => some { setCall (s.ctx.call.lockContext 0) s with wait := .installed }
  | .installed => some { s with wait := if s.ctx.call.done then .returned else .yielding }
  | .yielding => some { s with wait := if 0 < s.calls then .resumed else .yielded }
  | .yielded | .resumed | .returned => none

def step (s : Awaited) : Act → Option Awaited
  | .stream op => s.stream op
  | .resume => s.resume
  | .wait => s.waitNext

def lts : Lts Awaited Act := ⟨fun s a s' => step s a = some s'⟩

/-! ## The end of a run -/

/-- `Wait` has been called and can do nothing more by itself, and the stream is over. -/
structure Over (s : Awaited) : Prop where
  live     : s.ctx.live = false
  callback : s.callback = none
  waited   : s.wait = .yielded ∨ s.wait = .resumed ∨ s.wait = .returned

/-! ## The cases of a step -/

/-- Everything a step can do. -/
inductive Stepped (s : Awaited) : Act → Awaited → Prop
  | plain {op} : op.resumes = none → s.ctx.enabled op = true → Stepped s (.stream op) { s with ctx := s.ctx.step op }
  | begun {op ok} : op.resumes = some ok → s.callback = none → s.ctx.enabled op = true →
    Stepped s (.stream op) { s with ctx := s.ctx.before op, callback := some (op, .storeSuccess ok) }
  | success {op ok} : s.callback = some (op, .storeSuccess ok) →
    Stepped s .resume (storeSuccess ok { s with callback := some (op, .storeDone) })
  | done {op} : s.callback = some (op, .storeDone) →
    Stepped s .resume (storeDone { s with callback := some (op, .callResumer) })
  | called {op r} : s.callback = some (op, .callResumer) → s.ctx.call.resumer = some r →
    Stepped s .resume (callResumer { s with callback := some (op, .rest) })
  | unheard {op} : s.callback = some (op, .callResumer) → s.ctx.call.resumer = none →
    Stepped s .resume { s with callback := some (op, .rest) }
  | rest {op} : s.callback = some (op, .rest) →
    Stepped s .resume { s with ctx := s.ctx.rest op, callback := none }
  | install : s.wait = .uncalled →
    Stepped s .wait { setCall (s.ctx.call.lockContext 0) s with wait := .installed }
  | returned : s.wait = .installed → s.ctx.call.done = true → Stepped s .wait { s with wait := .returned }
  | yielding : s.wait = .installed → s.ctx.call.done = false → Stepped s .wait { s with wait := .yielding }
  | resumedAtOnce : s.wait = .yielding → 0 < s.calls → Stepped s .wait { s with wait := .resumed }
  | yielded : s.wait = .yielding → s.calls = 0 → Stepped s .wait { s with wait := .yielded }

theorem lts_stepped {s s' : Awaited} {a : Act} (h : lts.step s a s') : Stepped s a s' := by
  have h : step s a = some s' := h
  cases a with
  | stream op =>
    simp only [step, stream] at h
    split at h
    · rename_i hen
      cases hr : op.resumes with
      | none =>
        rw [hr] at h
        exact Option.some.inj h ▸ .plain hr hen.1
      | some ok =>
        rw [hr] at h
        exact Option.some.inj h ▸ .begun hr (hen.2 (KeepAliveContext.Op.callback_of_resumes hr)) hen.1
    · cases h
  | resume =>
    simp only [step, resume] at h
    split at h
    · cases h
    · exact Option.some.inj h ▸ .success ‹_›
    · exact Option.some.inj h ▸ .done ‹_›
    · rename_i hcb
      obtain rfl := Option.some.inj h
      cases hr : s.ctx.call.resumer with
      | none => simpa [hr] using Stepped.unheard hcb hr
      | some r => simpa [hr] using Stepped.called hcb hr
    · exact Option.some.inj h ▸ .rest ‹_›
  | wait =>
    simp only [step, waitNext] at h
    split at h
    · exact Option.some.inj h ▸ .install ‹_›
    · rename_i hw
      obtain rfl := Option.some.inj h
      cases hd : s.ctx.call.done with
      | true => simpa using Stepped.returned hw hd
      | false => simpa using Stepped.yielding hw hd
    · rename_i hw
      obtain rfl := Option.some.inj h
      by_cases hc : 0 < s.calls
      · simpa [hc] using Stepped.resumedAtOnce hw hc
      · simpa [hc] using Stepped.yielded hw (by omega)
    all_goals cases h

/-! ## What holds in every run -/

/-- Once the stream is over `Done()` is true, or about to be. -/
def Reports (s : Awaited) : Prop :=
  s.ctx.live = false → s.ctx.call.done = true ∨ ∃ op r, s.callback = some (op, r) ∧ r ≠ .rest ∧ r ≠ .callResumer

structure Paired (s : Awaited) : Prop where
  verdict  : s.ctx.call.done = true ↔ s.verdict.isSome = true
  resumer  : s.ctx.call.resumer = none ↔ s.wait = .uncalled
  uncalled : s.wait = .uncalled ∨ s.wait = .yielded → s.calls = 0
  resumed  : s.wait = .resumed → 0 < s.calls
  /-- Who is about to wait, or waits, will be called. -/
  parked   : s.wait = .yielding ∨ s.wait = .yielded → s.calls = 0 →
    s.ctx.call.done = false ∨ ∃ op, s.callback = some (op, .callResumer)
  ended    : s.ctx.live = false → s.ctx.call.done = true ∨ ∃ op r, s.callback = some (op, r) ∧ r ≠ .rest ∧ r ≠ .callResumer

section
variable {s s' : Awaited} {a : Act}

theorem Reports.over_done (hs : Reports s) (hl : s.ctx.live = false) {op : KeepAliveContext.Op} {r : Resuming}
    (hcb : s.callback = some (op, r)) (hr : r = .rest ∨ r = .callResumer) : s.ctx.call.done = true := by
  rcases hs hl with hd | ⟨op', r', hcb', hrest, hcall⟩
  · exact hd
  · obtain ⟨rfl, rfl⟩ : op = op' ∧ r = r' := by simpa [hcb] using hcb'
    exact absurd hr (not_or.2 ⟨hrest, hcall⟩)

/-- The stream is over, and no callback runs. -/
theorem Reports.done (hs : Reports s) (hl : s.ctx.live = false) (hcb : s.callback = none) : s.ctx.call.done = true := by
  rcases hs hl with hd | ⟨op, r, hop, -⟩
  · exact hd
  · rw [hcb] at hop
    cases hop

theorem step_reports (hs : Reports s) (h : lts.step s a s') : Reports s' := by
  cases lts_stepped h with
  | plain hr =>
    obtain ⟨-, hd, -, hl⟩ := KeepAliveContext.step_unresumed (c := s.ctx) hr
    unfold Reports
    rw [hd, hl]
    exact hs
  | @begun op => exact fun _ => .inr ⟨op, _, rfl, nofun, nofun⟩
  | @success op => exact fun _ => .inr ⟨op, _, rfl, nofun, nofun⟩
  | done => exact fun _ => .inl rfl
  | called hcb | unheard hcb => exact fun hl => .inl (hs.over_done hl hcb (.inr rfl))
  | rest hcb =>
    intro hl
    rw [KeepAliveContext.rest_live] at hl
    rw [KeepAliveContext.rest_call]
    exact .inl (hs.over_done hl hcb (.inl rfl))
  | install | returned | yielding | resumedAtOnce | yielded => exact hs

theorem started_paired (lease interval : Int) : Paired (started lease interval) :=
  ⟨by simp [started], by simp [started], fun _ => rfl, nofun, nofun, nofun⟩

theorem step_paired (hs : Paired s) (h : lts.step s a s') : Paired s' := by
  have hended := step_reports hs.ended h
  cases lts_stepped h with
  | plain hr =>
    obtain ⟨hsu, hd, hre, hl⟩ := KeepAliveContext.step_unresumed (c := s.ctx) hr
    exact ⟨by rw [hd]; exact hs.verdict, by rw [hre]; exact hs.resumer, hs.uncalled, hs.resumed,
      by rw [hd]; exact hs.parked, hended⟩
  | @begun op ok hr hcb =>
    refine ⟨by simpa using hs.verdict, by simpa using hs.resumer, hs.uncalled, hs.resumed, fun hw hc => ?_, hended⟩
    rcases hs.parked hw hc with hd | ⟨op, hop⟩
    · exact .inl (by simpa using hd)
    · rw [hcb] at hop
      cases hop
  | @success op ok hcb =>
    refine ⟨hs.verdict, hs.resumer, hs.uncalled, hs.resumed, fun hw hc => ?_, hended⟩
    rcases hs.parked hw hc with hd | ⟨op, hop⟩
    · exact .inl hd
    · rw [hcb] at hop
      cases hop
  | @done op hcb =>
    exact ⟨by simp, hs.resumer, hs.uncalled, hs.resumed, fun _ _ => .inr ⟨op, rfl⟩, hended⟩
  | @called op r hcb hr =>
    have hw : s.wait ≠ .uncalled := fun hw => by simp [hs.resumer.2 hw] at hr
    refine ⟨hs.verdict, ?_, fun hw' => ?_, fun _ => Nat.succ_pos _, fun _ hc => absurd hc (Nat.succ_ne_zero _), hended⟩
    · rw [callResumer_ctx, hr, callResumer_wait]
      split <;> simp [hw]
    · rw [callResumer_wait] at hw'
      split at hw' <;> simp_all
  | unheard hcb hr =>
    have hw := hs.resumer.1 hr
    refine ⟨hs.verdict, hs.resumer, hs.uncalled, hs.resumed, fun hw' _ => ?_, hended⟩
    rw [hw] at hw'
    simp at hw'
  | rest hcb =>
    refine ⟨by simpa using hs.verdict, by simpa using hs.resumer, hs.uncalled, hs.resumed, fun hw hc => ?_, hended⟩
    rcases hs.parked hw hc with hd | ⟨op, hop⟩
    · exact .inl (by simpa using hd)
    · rw [hcb] at hop
      cases hop
  | install hw => exact ⟨hs.verdict, by simp, fun _ => hs.uncalled (.inl hw), nofun, nofun, hended⟩
  | returned hw hd => exact ⟨hs.verdict, by simpa [hw] using hs.resumer, nofun, nofun, nofun, hended⟩
  | yielding hw hd => exact ⟨hs.verdict, by simpa [hw] using hs.resumer, nofun, nofun, fun _ _ => .inl hd, hended⟩
  | resumedAtOnce hw hc => exact ⟨hs.verdict, by simpa [hw] using hs.resumer, nofun, fun _ => hc, nofun, hended⟩
  | yielded hw hc =>
    exact ⟨hs.verdict, by simpa [hw] using hs.resumer, fun _ => hc, nofun, fun _ => hs.parked (.inl hw), hended⟩

theorem run_paired {lease interval : Int} {as : List Act} (h : lts.Run (started lease interval) as s) : Paired s :=
  h.invariant (P := Paired) (fun _ _ _ hs hst => step_paired hs hst) (started_paired lease interval)

/-- Once the stream is over and `Wait` is, it has returned without yielding or been resumed. -/
theorem Over.ended (h : Over s) (hp : Paired s) : (s.wait = .returned ∨ s.wait = .resumed ∧ 0 < s.calls) := by
  have hd := Reports.done hp.ended h.live h.callback
  rcases h.waited with hw | hw | hw
  · -- its resumer is yet to be called, by a callback that is under way
    rcases hp.parked (.inr hw) (hp.uncalled (.inr hw)) with hnot | ⟨op, hcb⟩
    · simp [hd] at hnot
    · rw [h.callback] at hcb
      cases hcb
  · exact .inr ⟨hw, hp.resumed hw⟩
  · exact .inl hw

end

/-! ## Runs -/

/-- In every run, `Wait` is not left waiting once the stream is over. -/
theorem not_left_waiting {lease interval : Int} {as : List Act} {s : Awaited} (h : lts.Run (started lease interval) as s)
    (ho : Over s) : s.wait = .returned ∨ s.wait = .resumed ∧ 0 < s.calls := ho.ended (run_paired h)

end Awaited
end LtApp.Etcd
