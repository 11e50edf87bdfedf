import LtApp.Base.Lts
import LtApp.Etcd.CallContext

/-!
# `KeepAliveContext`

| here | there |
| --- | --- |
| `KeepAliveContext` | the members that are read (`keepalive_ctx.h:46`), what gRPC and the loop hold for it, the history |
| `start`, `onDone`, `onReadDone`, `onWriteDone`, `onWritesDoneDone` | `keepalive_ctx.cc:25`, `:50`, `:56`, `:74`, `:81` |
| `onDelayed` | the closure `next` that `OnReadDone` posts |
| `Op`, `enabled`, `step`, `lts` | what gRPC, the loop and the owner may do after `Start` |

gRPC reports each operation once. `OnDone` comes once, at any moment at which no operation is in flight: the server
may end the stream. `loop_` runs each posted closure once.
-/

namespace LtApp.Etcd

/-- History events of a stream. -/
inductive StreamEv
  | startWrite (leaseId : Int)
  | startRead
  | startWritesDone
  | writeDone (ok : Bool)
  | readDone (ok : Bool)
  | writesDoneDone (ok : Bool)
  | done (ok : Bool)
deriving DecidableEq, Repr

structure KeepAliveContext where
  call     : CallContext Nat := {}
  /-- `lease_id_`, which is also the id in `request_`: `Start` alone sets the two. -/
  leaseId  : Int := 0
  interval : Int := 0
  /-- `StartCall` has been called, and `OnDone` is yet to come. -/
  live     : Bool := false
  /-- Writes, reads and `StartWritesDone`s in flight. -/
  writing  : Nat := 0
  reading  : Nat := 0
  closing  : Nat := 0
  /-- Closures posted to `loop_` that have not run. -/
  delayed  : Nat := 0
  log      : List StreamEv := []
deriving DecidableEq, Repr

namespace KeepAliveContext

/-! ## The stream -/

@[simps] def startWrite (c : KeepAliveContext) : KeepAliveContext :=
  { c with writing := c.writing + 1, log := .startWrite c.leaseId :: c.log }

@[simps] def startRead (c : KeepAliveContext) : KeepAliveContext :=
  { c with reading := c.reading + 1, log := .startRead :: c.log }

@[simps] def startWritesDone (c : KeepAliveContext) : KeepAliveContext :=
  { c with closing := c.closing + 1, log := .startWritesDone :: c.log }

@[simps] def resumeContext (ok : Bool) (c : KeepAliveContext) : KeepAliveContext := { c with call := c.call.report ok }

/-- `loop_->PostDelayTask(NewClosure(next), interval_)`. -/
@[simps] def postDelayTask (c : KeepAliveContext) : KeepAliveContext := { c with delayed := c.delayed + 1 }

/-! ## The functions of the class -/

/-- `Start`: a new stream, and the first write. -/
@[simps!] def start (leaseId interval : Int) (c : KeepAliveContext) : KeepAliveContext :=
  startWrite { c with leaseId := leaseId, interval := interval, live := true }

/-- `Cancel`. -/
@[simps] def cancel (c : KeepAliveContext) : KeepAliveContext := { c with call := c.call.cancel }

/-- `OnDone`. -/
@[simps!] def onDone (ok : Bool) (c : KeepAliveContext) : KeepAliveContext :=
  resumeContext ok { c with live := false, log := .done ok :: c.log }

/-- gRPC has a read to report. -/
@[simps] def readReported (ok : Bool) (c : KeepAliveContext) : KeepAliveContext :=
  { c with reading := c.reading - 1, log := .readDone ok :: c.log }

/-- `OnReadDone` up to its first `if`, which does not return. -/
def readNoted (ok : Bool) (c : KeepAliveContext) : KeepAliveContext :=
  if ok then readReported ok c else resumeContext false (readReported ok c)

/-- `OnReadDone`. -/
def onReadDone (ok : Bool) (c : KeepAliveContext) : KeepAliveContext :=
  let c := readNoted ok c
  if c.call.canceled then startWritesDone c else postDelayTask c

/-- gRPC has a write to report. -/
@[simps] def writeReported (ok : Bool) (c : KeepAliveContext) : KeepAliveContext :=
  { c with writing := c.writing - 1, log := .writeDone ok :: c.log }

/-- `OnWriteDone`. -/
def onWriteDone (ok : Bool) (c : KeepAliveContext) : KeepAliveContext :=
  if ok then startRead c else resumeContext false c

/-- `OnWritesDoneDone`. -/
@[simps] def onWritesDoneDone (ok : Bool) (c : KeepAliveContext) : KeepAliveContext :=
  { c with closing := c.closing - 1, log := .writesDoneDone ok :: c.log }

/-- `loop_` runs the closure `next`. -/
@[simps!] def onDelayed (c : KeepAliveContext) : KeepAliveContext := startWrite { c with delayed := c.delayed - 1 }

/-! ## Runs -/

inductive Op
  | writeDone (ok : Bool)
  | readDone (ok : Bool)
  | writesDoneDone (ok : Bool)
  | done (ok : Bool)
  | delayed
  | cancel
deriving DecidableEq, Repr

def enabled (c : KeepAliveContext) : Op → Bool
  | .writeDone _ => 0 < c.writing
  | .readDone _ => 0 < c.reading
  | .writesDoneDone _ => 0 < c.closing
  | .done _ => c.live && c.writing + c.reading + c.closing = 0
  | .delayed => 0 < c.delayed
  | .cancel => true

def step (c : KeepAliveContext) : Op → KeepAliveContext
  | .writeDone ok => onWriteDone ok (writeReported ok c)
  | .readDone ok => onReadDone ok c
  | .writesDoneDone ok => onWritesDoneDone ok c
  | .done ok => onDone ok c
  | .delayed => onDelayed c
  | .cancel => cancel c

def lts : Lts KeepAliveContext Op := ⟨fun c op c' => enabled c op = true ∧ step c op = c'⟩

/-- The step, where the operation can happen. -/
def tryStep (c : KeepAliveContext) (op : Op) : Option KeepAliveContext := if enabled c op then some (step c op) else none

theorem tryStep_step (c : KeepAliveContext) (op : Op) (c' : KeepAliveContext) (h : tryStep c op = some c') :
    lts.step c op c' := by
  unfold tryStep at h
  split at h
  · exact ⟨‹_›, Option.some.inj h⟩
  · cases h

/-! ## The cases of a step -/

section
variable (ok : Bool) (c : KeepAliveContext)

@[simp] theorem readNoted_canceled : (readNoted ok c).call.canceled = c.call.canceled := by cases ok <;> rfl
@[simp] theorem readNoted_live : (readNoted ok c).live = c.live := by cases ok <;> rfl
@[simp] theorem readNoted_writing : (readNoted ok c).writing = c.writing := by cases ok <;> rfl
@[simp] theorem readNoted_reading : (readNoted ok c).reading = c.reading - 1 := by cases ok <;> rfl
@[simp] theorem readNoted_delayed : (readNoted ok c).delayed = c.delayed := by cases ok <;> rfl
@[simp] theorem readNoted_log : (readNoted ok c).log = .readDone ok :: c.log := by cases ok <;> rfl

end

/-- Everything a step can do. -/
inductive Stepped (c : KeepAliveContext) : Op → KeepAliveContext → Prop
  | written : 0 < c.writing → Stepped c (.writeDone true) (startRead (writeReported true c))
  | writeFailed : 0 < c.writing → Stepped c (.writeDone false) (resumeContext false (writeReported false c))
  | halfClosed {ok : Bool} : 0 < c.reading → c.call.canceled = true →
    Stepped c (.readDone ok) (startWritesDone (readNoted ok c))
  | posted {ok : Bool} : 0 < c.reading → c.call.canceled = false →
    Stepped c (.readDone ok) (postDelayTask (readNoted ok c))
  | writesDoneDone {ok : Bool} : 0 < c.closing → Stepped c (.writesDoneDone ok) (onWritesDoneDone ok c)
  | done {ok : Bool} : c.live = true → c.writing = 0 → c.reading = 0 → Stepped c (.done ok) (onDone ok c)
  | delayed : 0 < c.delayed → Stepped c .delayed (onDelayed c)
  | cancel : Stepped c .cancel (cancel c)

theorem lts_stepped {c c' : KeepAliveContext} {op : Op} (h : lts.step c op c') : Stepped c op c' := by
  obtain ⟨he, rfl⟩ := h
  cases op with
  | writeDone ok =>
    have hw : 0 < c.writing := by simpa [enabled] using he
    cases ok with
    | true => exact .written hw
    | false => exact .writeFailed hw
  | readDone ok =>
    have hr : 0 < c.reading := by simpa [enabled] using he
    have hstep : step c (.readDone ok) =
        if c.call.canceled then startWritesDone (readNoted ok c) else postDelayTask (readNoted ok c) := by
      simp [step, onReadDone]
    rw [hstep]
    cases hc : c.call.canceled with
    | true => exact .halfClosed hr hc
    | false => exact .posted hr hc
  | writesDoneDone ok => exact .writesDoneDone (by simpa [enabled] using he)
  | done ok =>
    obtain ⟨hl, hz⟩ : c.live = true ∧ c.writing + c.reading + c.closing = 0 := by simpa [enabled] using he
    exact .done hl (by omega) (by omega)
  | delayed => exact .delayed (by simpa [enabled] using he)
  | cancel => exact .cancel

end KeepAliveContext
end LtApp.Etcd
