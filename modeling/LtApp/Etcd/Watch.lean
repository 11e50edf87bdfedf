import Mathlib.Data.Option.Basic
import LtApp.Base.Lts
import LtApp.Etcd.Await

/-!
# `WatchContext` and `EtcdWatcher::Watch`

| here | there |
| --- | --- |
| `WatchResponse` | the fields of the message that are read (`rpc.proto:561`); the events are handed on unread |
| `WatchContext` | the members (`watch_context.h:45`), the coroutines that run on it, what gRPC holds, the references, the history |
| `Site` | the five places that yield (`watch_context.cc:20`, `:29`, `:55`, `:87`, `:96`) |
| `watch` | `EtcdWatcher::Watch` (`etcd_watcher.cc:39`) up to the first `LockContext` of `Start` |
| `afterCreate`, `afterCreated`, `afterNext`, `afterCancel`, `afterFinish` | what `Start`, `watch_change_loop` and `StopWatch` do between one yield and the next |
| `stopWatch` | a call of `StopWatch` |
| `invoke`, `leave`, `enter`, `finish` | a coroutine of the loop: the next call of `handler_`, a yield inside it, the coroutine being switched to, its end |
| `onDone` | `OnDone` (`watch_context.cc:124`) |

`OnReadDone`, `OnWriteDone` and `OnWritesDoneDone` are `ResumeContext` on the context of the operation
(`Waits.report`, `Waits.fire`). gRPC reports each operation once; `OnDone` comes once, at any moment at which no
operation is under way. The coroutines of the loop are started in the order in which they were spawned, and one gives
way to another only where `handler_` yields. `StopWatch` may be called any number of times by whoever holds the
context.
-/

namespace LtApp.Etcd

variable {ε : Type}

structure WatchResponse (ε : Type) where
  watchId  : Int := 0
  created  : Bool := false
  canceled : Bool := false
  events   : List ε := []
deriving DecidableEq, Repr

/-- The two contexts. -/
inductive Side
  | read | write
deriving DecidableEq, Repr

/-- The coroutines that wait. -/
inductive Co
  | start | loop
  /-- The `i`-th call of `StopWatch`. -/
  | stop (i : Nat)
deriving DecidableEq, Repr

/-- The places that yield. -/
inductive Site
  | create | created
  | next
  | cancel (i : Nat) | finish (i : Nat)
deriving DecidableEq, Repr

/-- The context the place waits on. -/
def Site.side : Site → Side
  | .created | .next => .read
  | .create | .cancel _ | .finish _ => .write

def Site.co : Site → Co
  | .create | .created => .start
  | .next => .loop
  | .cancel i | .finish i => .stop i

/-- What is started on the stream. -/
inductive StreamCall
  | startWriteCreate
  | startWriteCancel (watchId : Int)
  | startRead
  | startWritesDone
deriving DecidableEq, Repr

def Site.call (watchId : Int) : Site → StreamCall
  | .create => .startWriteCreate
  | .created | .next => .startRead
  | .cancel _ => .startWriteCancel watchId
  | .finish _ => .startWritesDone

/-- History events. -/
inductive WatchEv (ε : Type)
  | started (s : Site) (call : StreamCall)
  | reported (s : Site) (ok : Bool)
  /-- `watch_change_loop` has been given a response. -/
  | received (r : WatchResponse ε)
  /-- `handler_` is called. -/
  | handled (e : ε)
  | startReturned (b : Bool)
  | stopReturned (i : Nat) (b : Bool)
  | done
deriving DecidableEq, Repr

/-- The event is about an operation on the stream. -/
def WatchEv.onStream : WatchEv ε → Bool
  | .started _ _ | .reported _ _ | .received _ => true
  | _ => false

/-- A coroutine spawned for a response. -/
structure Handler (ε : Type) where
  /-- The events `handler_` has not been called with. -/
  rest   : List ε
  begun  : Bool := false
  /-- Inside a call of `handler_`. -/
  inCall : Bool := false
  ended  : Bool := false
deriving DecidableEq, Repr

structure WatchContext (ε : Type) where
  waits    : Waits Side Co Site
  watchId  : Int := -1
  /-- `StartCall` has been called, and `OnDone` is yet to come. -/
  live     : Bool := true
  /-- `Start` has returned `true`. -/
  started  : Bool := false
  /-- The local `response` of the coroutine that reads. -/
  response : WatchResponse ε := {}
  stops    : Nat := 0
  handlers : List (Handler ε) := []
  /-- The coroutine of the loop that is running. -/
  current  : Option Nat := none
  /-- References held by the caller, the frame of `Watch` included. -/
  caller   : Nat := 1
  log      : List (WatchEv ε) := []

namespace WatchContext

abbrev readCtx (c : WatchContext ε) : CallContext (Suspension Site) := c.waits.ctx .read

abbrev writeCtx (c : WatchContext ε) : CallContext (Suspension Site) := c.waits.ctx .write

@[simps] def emit (e : WatchEv ε) (c : WatchContext ε) : WatchContext ε := { c with log := e :: c.log }

/-- `read_ctx_.Cancel()`. -/
@[simps] def cancelRead (c : WatchContext ε) : WatchContext ε :=
  { c with waits := c.waits.setCtx .read c.readCtx.cancel }

/-- The coroutine goes on to `LockContext` at the place. -/
@[simps] def goto (s : Site) (c : WatchContext ε) : WatchContext ε :=
  { c with waits := c.waits.enter s.co s .lock }

/-- The coroutine is at its end. -/
@[simps] def quit (a : Co) (c : WatchContext ε) : WatchContext ε := { c with waits := c.waits.leave a }

/-! ## The coroutines -/

/-- `EtcdWatcher::Watch`: the context is made, and `Start` runs up to its first `LockContext`. -/
def watch : WatchContext ε := goto .create { waits := {} }

/-- `Start` returns. With `false`, `Watch` lets go of the context and returns null. -/
def startReturns (b : Bool) (c : WatchContext ε) : WatchContext ε :=
  emit (.startReturned b) { quit .start c with started := b, caller := if b then c.caller else c.caller - 1 }

/-- `Start` after the create request. -/
def afterCreate (c : WatchContext ε) : WatchContext ε :=
  if c.writeCtx.success then goto .created c else startReturns false c

/-- `Start` after the first read; `none` is a failed `CHECK`. -/
def afterCreated (c : WatchContext ε) : Option (WatchContext ε) :=
  if c.readCtx.success = false then some (startReturns false c)
  else if c.response.created = false then none
  else
    let c := { c with watchId := c.response.watchId }
    -- the loop has a `response` of its own
    let c := goto .next { c with response := {} }
    some (startReturns (0 ≤ c.watchId) c)

/-- `CO_GO` on a copy of the response. -/
@[simps] def spawn (es : List ε) (c : WatchContext ε) : WatchContext ε :=
  { c with handlers := c.handlers ++ [{ rest := es }] }

/-- `watch_change_loop` after a read. -/
def afterNext (c : WatchContext ε) : WatchContext ε :=
  if c.readCtx.success = false then quit .loop c
  else if c.response.canceled then quit .loop c
  else
    let c := spawn c.response.events c
    if c.readCtx.canceled then quit .loop c else goto .next c

def stopReturns (i : Nat) (b : Bool) (c : WatchContext ε) : WatchContext ε :=
  emit (.stopReturned i b) (quit (.stop i) c)

/-- `StopWatch` up to its first `LockContext`. -/
def stopWatch (c : WatchContext ε) : WatchContext ε :=
  let i := c.stops
  let c := { c with stops := i + 1 }
  if c.watchId ≤ 0 then emit (.stopReturned i true) c else goto (.cancel i) c

/-- `StopWatch` after the cancel request. -/
def afterCancel (i : Nat) (c : WatchContext ε) : WatchContext ε :=
  if c.writeCtx.success = false then stopReturns i false c else goto (.finish i) (cancelRead c)

/-- `StopWatch` after `StartWritesDone`. -/
def afterFinish (i : Nat) (c : WatchContext ε) : WatchContext ε := stopReturns i c.writeCtx.success c

def after : Site → WatchContext ε → Option (WatchContext ε)
  | .create, c => some (afterCreate c)
  | .created, c => afterCreated c
  | .next, c => some (afterNext c)
  | .cancel i, c => some (afterCancel i c)
  | .finish i, c => some (afterFinish i c)

/-! ## Handlers -/

@[simps] def setHandler (j : Nat) (h : Handler ε) (c : WatchContext ε) : WatchContext ε :=
  { c with handlers := c.handlers.set j h }

/-- The loop switches to the `j`-th coroutine; it starts one only after those spawned before it. -/
def enter (j : Nat) (c : WatchContext ε) : Option (WatchContext ε) := do
  let h ← c.handlers[j]?
  guard (c.current = none ∧ h.ended = false ∧ (h.begun = true ∨ ∀ g ∈ c.handlers.take j, g.begun = true))
  return { setHandler j { h with begun := true } c with current := some j }

/-- The running coroutine calls `handler_` with its next event. -/
def invoke (c : WatchContext ε) : Option (WatchContext ε) := do
  let j ← c.current
  let h ← c.handlers[j]?
  match h.rest with
  | [] => none
  | e :: es => return emit (.handled e) (setHandler j { h with rest := es, inCall := true } c)

/-- `handler_` yields. -/
def leave (c : WatchContext ε) : Option (WatchContext ε) := do
  let j ← c.current
  let h ← c.handlers[j]?
  guard (h.inCall = true)
  return { c with current := none }

/-- The running coroutine is at its end. -/
def finish (c : WatchContext ε) : Option (WatchContext ε) := do
  let j ← c.current
  let h ← c.handlers[j]?
  guard (h.rest.isEmpty = true)
  return { setHandler j { h with inCall := false, ended := true } c with current := none }

/-! ## Runs -/

/-- `OnDone`. -/
def onDone (c : WatchContext ε) : WatchContext ε := emit .done (cancelRead { c with live := false })

inductive Op (ε : Type)
  /-- Something happens to those that wait; `r` is what the server has sent, where a read succeeds. -/
  | wait (o : Waits.Op Co Site) (r : WatchResponse ε)
  /-- A coroutine that has been resumed goes on. -/
  | go (a : Co)
  | stopWatch
  | enter (j : Nat)
  | invoke
  | leave
  | finish
  | done
  /-- The caller copies its reference, or lets go of it. -/
  | copy
  | drop
deriving DecidableEq, Repr

/-- A wait from end to end: the operation is reported once the coroutine has yielded, and the coroutine goes on. -/
def Op.whole (s : Site) (n : Nat) (r : WatchResponse ε) : List (Op ε) :=
  [.wait (.lock s.co) r, .wait (.start s.co) r, .wait (.yield s.co) r, .wait (.report ⟨s, n⟩ true) r,
    .wait (.fire ⟨s, n⟩) r, .go s.co]

/-- What is started on the stream, and what a report brings: a read that succeeds fills in the response. -/
def note (o : Waits.Op Co Site) (r : WatchResponse ε) (c : WatchContext ε) : WatchContext ε :=
  match o with
  | .start a =>
    match c.waits.frame a with
    | some f => emit (.started f.point.site (f.point.site.call c.watchId)) c
    | none => c
  | .report p ok =>
    match p.site, ok with
    | .next, true => emit (.received r) (emit (.reported .next true) { c with response := r })
    | .created, true => emit (.reported .created true) { c with response := r }
    | s, ok => emit (.reported s ok) c
  | _ => c

def step (c : WatchContext ε) : Op ε → Option (WatchContext ε)
  | .wait o r => (c.waits.step Site.side Site.co o).map fun w => note o r { c with waits := w }
  | .go a => (c.waits.at? a .woken).bind fun f => after f.point.site c
  | .stopWatch => if c.started = true ∧ 0 < c.caller then some (stopWatch c) else none
  | .enter j => enter j c
  | .invoke => invoke c
  | .leave => leave c
  | .finish => finish c
  | .done =>
    if c.live = true ∧ c.waits.inFlight = [] ∧ c.waits.calling = [] then some (onDone c) else none
  | .copy => if c.started = true ∧ 0 < c.caller then some { c with caller := c.caller + 1 } else none
  | .drop => if c.started = true ∧ 0 < c.caller then some { c with caller := c.caller - 1 } else none

def lts : Lts (WatchContext ε) (Op ε) := ⟨fun c op c' => step c op = some c'⟩

/-! ## The cases of a step -/

section
variable (o : Waits.Op Co Site) (r : WatchResponse ε) (c : WatchContext ε)

/-- What a note leaves alone. -/
structure Noted (c d : WatchContext ε) : Prop where
  waits    : d.waits = c.waits
  watchId  : d.watchId = c.watchId
  live     : d.live = c.live
  started  : d.started = c.started
  stops    : d.stops = c.stops
  handlers : d.handlers = c.handlers
  current  : d.current = c.current
  caller   : d.caller = c.caller

theorem note_noted : Noted c (note o r c) := by
  unfold note
  split
  · split <;> exact ⟨rfl, rfl, rfl, rfl, rfl, rfl, rfl, rfl⟩
  · split <;> exact ⟨rfl, rfl, rfl, rfl, rfl, rfl, rfl, rfl⟩
  · exact ⟨rfl, rfl, rfl, rfl, rfl, rfl, rfl, rfl⟩

@[simp] theorem note_waits : (note o r c).waits = c.waits := (note_noted o r c).waits
@[simp] theorem note_live : (note o r c).live = c.live := (note_noted o r c).live
@[simp] theorem note_started : (note o r c).started = c.started := (note_noted o r c).started
@[simp] theorem note_stops : (note o r c).stops = c.stops := (note_noted o r c).stops
@[simp] theorem note_handlers : (note o r c).handlers = c.handlers := (note_noted o r c).handlers
@[simp] theorem note_current : (note o r c).current = c.current := (note_noted o r c).current
@[simp] theorem note_caller : (note o r c).caller = c.caller := (note_noted o r c).caller

theorem note_events : ∃ es, (note o r c).log = es ++ c.log ∧ ∀ e ∈ es, e.onStream = true := by
  cases o with
  | lock | yield | fire => exact ⟨[], rfl, by simp⟩
  | start a =>
    simp only [note]
    split
    · exact ⟨[.started _ _], rfl, by simp [WatchEv.onStream]⟩
    · exact ⟨[], rfl, by simp⟩
  | report p ok =>
    rcases p with ⟨s, n⟩
    cases s <;> cases ok
    case next.true => exact ⟨[.received r, .reported .next true], rfl, by simp [WatchEv.onStream]⟩
    all_goals exact ⟨[.reported _ _], rfl, by simp [WatchEv.onStream]⟩

end

/-- The handler that is running. -/
def running (c : WatchContext ε) (j : Nat) (h : Handler ε) : Prop := c.current = some j ∧ c.handlers[j]? = some h

/-- The context as `Start` leaves it once it has been created. -/
def began (c : WatchContext ε) : WatchContext ε :=
  startReturns (0 ≤ c.response.watchId) (goto .next { c with watchId := c.response.watchId, response := {} })

/-- Everything a coroutine can do between one yield and the next. -/
inductive Went (c : WatchContext ε) : Site → WatchContext ε → Prop
  | createFailed : c.writeCtx.success = false → Went c .create (startReturns false c)
  | createWritten : c.writeCtx.success = true → Went c .create (goto .created c)
  | createdFailed : c.readCtx.success = false → Went c .created (startReturns false c)
  | began : c.readCtx.success = true → c.response.created = true → Went c .created (began c)
  | readFailed : c.readCtx.success = false → Went c .next (quit .loop c)
  | canceled : c.readCtx.success = true → c.response.canceled = true → Went c .next (quit .loop c)
  | lastSpawned : c.readCtx.success = true → c.response.canceled = false → c.readCtx.canceled = true →
    Went c .next (quit .loop (spawn c.response.events c))
  | spawned : c.readCtx.success = true → c.response.canceled = false → c.readCtx.canceled = false →
    Went c .next (goto .next (spawn c.response.events c))
  | cancelFailed {i} : c.writeCtx.success = false → Went c (.cancel i) (stopReturns i false c)
  | cancelWritten {i} : c.writeCtx.success = true → Went c (.cancel i) (goto (.finish i) (cancelRead c))
  | finished {i} : Went c (.finish i) (stopReturns i c.writeCtx.success c)

theorem after_went {c c' : WatchContext ε} {s : Site} (h : after s c = some c') : Went c s c' := by
  cases s with
  | create =>
    obtain rfl := Option.some.inj h
    unfold afterCreate
    cases hs : c.writeCtx.success with
    | true => exact .createWritten hs
    | false => exact .createFailed hs
  | created =>
    simp only [after, afterCreated] at h
    cases hs : c.readCtx.success with
    | false => exact Option.some.inj (by simpa only [hs, if_true] using h) ▸ .createdFailed hs
    | true =>
      cases hcr : c.response.created with
      | false => simp [hs, hcr] at h
      | true =>
        have hc' : began c = c' := by simpa [hs, hcr, WatchContext.began] using h
        exact hc' ▸ .began hs hcr
  | next =>
    obtain rfl := Option.some.inj h
    unfold afterNext
    cases hs : c.readCtx.success with
    | false => exact .readFailed hs
    | true =>
      cases hc : c.response.canceled with
      | true => exact .canceled hs hc
      | false =>
        have hread : (spawn c.response.events c).readCtx.canceled = c.readCtx.canceled := rfl
        cases hr : c.readCtx.canceled with
        | true => simpa [hread, hr] using Went.lastSpawned hs hc hr
        | false => simpa [hread, hr] using Went.spawned hs hc hr
  | cancel i =>
    obtain rfl := Option.some.inj h
    unfold afterCancel
    cases hs : c.writeCtx.success with
    | false => exact .cancelFailed hs
    | true => exact .cancelWritten hs
  | finish i => exact Option.some.inj h ▸ .finished

/-- Everything a step can do. -/
inductive Stepped (c : WatchContext ε) : Op ε → WatchContext ε → Prop
  | wait {o r w} : c.waits.step Site.side Site.co o = some w →
    Stepped c (.wait o r) (note o r { c with waits := w })
  | go {a f c'} : c.waits.frame a = some f → f.stage = .woken → Went c f.point.site c' → Stepped c (.go a) c'
  | stopAtOnce : c.started = true → 0 < c.caller → c.watchId ≤ 0 →
    Stepped c .stopWatch (emit (.stopReturned c.stops true) { c with stops := c.stops + 1 })
  | stopBegun : c.started = true → 0 < c.caller → 0 < c.watchId →
    Stepped c .stopWatch (goto (.cancel c.stops) { c with stops := c.stops + 1 })
  | enter {j h} : c.current = none → c.handlers[j]? = some h → h.ended = false →
    (h.begun = true ∨ ∀ g ∈ c.handlers.take j, g.begun = true) →
    Stepped c (.enter j) { setHandler j { h with begun := true } c with current := some j }
  | invoke {j h e es} : c.running j h → h.rest = e :: es →
    Stepped c .invoke (emit (.handled e) (setHandler j { h with rest := es, inCall := true } c))
  | leave {j h} : c.running j h → h.inCall = true → Stepped c .leave { c with current := none }
  | finish {j h} : c.running j h → h.rest = [] →
    Stepped c .finish { setHandler j { h with inCall := false, ended := true } c with current := none }
  | done : c.live = true → c.waits.inFlight = [] → c.waits.calling = [] → Stepped c .done (onDone c)
  | copy : c.started = true → 0 < c.caller → Stepped c .copy { c with caller := c.caller + 1 }
  | drop : c.started = true → 0 < c.caller → Stepped c .drop { c with caller := c.caller - 1 }

theorem lts_stepped {c c' : WatchContext ε} {op : Op ε} (h : lts.step c op c') : Stepped c op c' := by
  have h : step c op = some c' := h
  cases op with
  | wait o r =>
    obtain ⟨w, hw, rfl⟩ := Option.map_eq_some_iff.1 h
    exact .wait hw
  | go a =>
    obtain ⟨f, hf, ha⟩ := Option.bind_eq_some_iff.1 h
    obtain ⟨hf, hs⟩ := Waits.at?_eq hf
    exact .go hf hs (after_went ha)
  | stopWatch =>
    simp only [step] at h
    split at h
    · rename_i hc
      obtain rfl := Option.some.inj h
      by_cases hw : c.watchId ≤ 0
      · simpa [WatchContext.stopWatch, hw] using Stepped.stopAtOnce hc.1 hc.2 hw
      · simpa [WatchContext.stopWatch, hw] using Stepped.stopBegun hc.1 hc.2 (by omega)
    · cases h
  | enter j =>
    simp only [step, WatchContext.enter, Option.bind_eq_bind, Option.bind_eq_some_iff, Option.guard_eq_some'] at h
    obtain ⟨g, hg, ⟨⟩, ⟨hc, he, hb⟩, h⟩ := h
    exact Option.some.inj h ▸ .enter hc hg he hb
  | invoke =>
    simp only [step, WatchContext.invoke, Option.bind_eq_bind, Option.bind_eq_some_iff] at h
    obtain ⟨j, hj, g, hg, h⟩ := h
    split at h
    · cases h
    · exact Option.some.inj h ▸ .invoke ⟨hj, hg⟩ ‹_›
  | leave =>
    simp only [step, WatchContext.leave, Option.bind_eq_bind, Option.bind_eq_some_iff, Option.guard_eq_some'] at h
    obtain ⟨j, hj, g, hg, ⟨⟩, hc, h⟩ := h
    exact Option.some.inj h ▸ .leave ⟨hj, hg⟩ hc
  | finish =>
    simp only [step, WatchContext.finish, Option.bind_eq_bind, Option.bind_eq_some_iff, Option.guard_eq_some'] at h
    obtain ⟨j, hj, g, hg, ⟨⟩, hr, h⟩ := h
    exact Option.some.inj h ▸ .finish ⟨hj, hg⟩ (by simpa using hr)
  | done =>
    simp only [step] at h
    split at h
    · rename_i hc
      exact Option.some.inj h ▸ .done hc.1 hc.2.1 hc.2.2
    · cases h
  | copy =>
    simp only [step] at h
    split at h
    · rename_i hc
      exact Option.some.inj h ▸ .copy hc.1 hc.2
    · cases h
  | drop =>
    simp only [step] at h
    split at h
    · rename_i hc
      exact Option.some.inj h ▸ .drop hc.1 hc.2
    · cases h

end WatchContext
end LtApp.Etcd
