import LtApp.Base.Lts
import LtApp.AsyncQueries.Machine

/-!
# `async_queries`: `main` and the event loop

| here | there |
| --- | --- |
| `Program`           | the static variables, `sds`, and where `main` stands (`mysql_async_offcial.cc:360`) |
| `Op.boot`           | one turn of the `for` loop: the first call of the handler, by hand (`:408-421`) |
| `Op.dispatch`       | `event_dispatch` is entered (`:423`); it clears the break flag |
| `Op.wake`           | the event of a connection fires |
| `Program.Ended`     | `event_dispatch` returns: the loop has been broken, or no event is pending |

`sds` is allocated and not cleared: a boot finds there what it finds. Which event fires next, and with which of the
flags it waits for, is open; a handler runs to its end. An event without flags and timeout is never delivered.
-/

namespace LtApp.AsyncQueries

open Mysql (Bytes Answer)

structure Program where
  optConnections : Nat
  globals        : Globals := {}
  /-- The connections that have been booted. -/
  sds            : List StateData := []
  dispatching    : Bool := false
deriving DecidableEq, Repr

/-- `main` has read its queries. -/
def Program.start (optConnections : Nat) (l : QueryList) : Program :=
  { optConnections, globals := { queryList := l.queryList } }

inductive Op
  /-- The memory of the connection, as it is found. -/
  | boot (sd : StateData) (as : List Answer)
  | dispatch
  | wake (i : Nat) (event : EvFlags) (as : List Answer)
deriving DecidableEq, Repr

/-- The event is in one of libevent's queues. -/
def Event.pending (e : Event) : Bool := e.read || e.write || e.timeout.isSome

/-- The event can be delivered with these flags. -/
def Event.Fires (e : Event) (f : EvFlags) : Prop :=
  (f.read ∨ f.write ∨ f.timeout) ∧ (f.read → e.read) ∧ (f.write → e.write) ∧ (f.timeout → e.timeout.isSome)

instance (e : Event) (f : EvFlags) : Decidable (e.Fires f) := by unfold Event.Fires; infer_instance

/-- The flags of `-1`. -/
def allFlags : EvFlags := ⟨true, true, true⟩

/-- What a boot makes of the memory it finds. -/
@[simps] def StateData.boot (sd : StateData) : StateData := { sd with st := .st0, evMysql := none, log := [] }

/-- libevent takes a one-shot event out before it calls the handler. -/
@[simps] def StateData.fired (sd : StateData) : StateData := { sd with evMysql := none }

namespace Program

/-- The handler runs on a connection. -/
def handle (i : Nat) (event : EvFlags) (as : List Answer) (f : StateData → StateData) (s : Program) :
    Except Stop Program :=
  match s.sds[i]? with
  | none => .error .aborted
  | some sd => (stateMachineHandler as event s.globals (f sd)).map fun r =>
      { s with globals := r.1, sds := s.sds.set i r.2 }

/-- The number of active connections goes up. -/
@[simps] def activate (g : Globals) : Globals := { g with numActiveConnections := g.numActiveConnections + 1 }

def step (s : Program) : Op → Except Stop Program
  | .boot sd as =>
    { s with globals := activate s.globals, sds := s.sds ++ [sd.boot] }.handle s.sds.length allFlags as id
  | .dispatch => .ok { s with dispatching := true, globals := { s.globals with eventBreak := false } }
  | .wake i event as => s.handle i event as StateData.fired

def Enabled (s : Program) : Op → Prop
  | .boot _ _ => s.dispatching = false ∧ s.sds.length < s.optConnections
  | .dispatch => s.dispatching = false ∧ s.sds.length = s.optConnections
  | .wake i event _ => s.dispatching = true ∧ s.globals.eventBreak = false ∧
      ∃ e, (s.sds[i]?.bind (·.evMysql)) = some e ∧ e.Fires event

def lts : Lts Program Op := ⟨fun s op t => s.Enabled op ∧ s.step op = .ok t⟩

/-- `event_dispatch` returns. -/
def Ended (s : Program) : Prop :=
  s.dispatching = true ∧ (s.globals.eventBreak = true ∨ ∀ sd ∈ s.sds, ∀ e, sd.evMysql = some e → e.pending = false)

/-- Any number of connections and any steps, on the queries of a file and of the command line. -/
def Reachable (file : Option Bytes) (args : List Bytes) (s : Program) : Prop :=
  ∃ optConnections ops, lts.Run (start optConnections (givenQueries file args)) ops s

instance (s : Program) (i : Nat) (event : EvFlags) :
    Decidable (∃ e, (s.sds[i]?.bind (·.evMysql)) = some e ∧ e.Fires event) :=
  decidable_of_iff ((s.sds[i]?.bind (·.evMysql)).any fun e => decide (e.Fires event)) (by simp [Option.any_eq_true])

instance (s : Program) (op : Op) : Decidable (s.Enabled op) := by cases op <;> unfold Enabled <;> infer_instance

/-- The step, where the operation can happen and returns. -/
def tryStep (s : Program) (op : Op) : Option Program := if s.Enabled op then (s.step op).toOption else none

theorem tryStep_step (s : Program) (op : Op) (t : Program) (h : tryStep s op = some t) : lts.step s op t := by
  unfold tryStep at h
  by_cases he : s.Enabled op
  · rw [if_pos he] at h
    cases hs : s.step op with
    | error e => simp [hs, Except.toOption] at h
    | ok u => exact ⟨he, by simpa [hs, Except.toOption] using h⟩
  · simp [he] at h

/-! ## The cases of a step -/

/-- Everything a step can do. -/
inductive Stepped (s : Program) : Op → Program → Prop
  | boot {sd sd' : StateData} {as : List Answer} {g' : Globals} : s.dispatching = false →
    s.sds.length < s.optConnections →
    stateMachineHandler as allFlags (activate s.globals) sd.boot = .ok (g', sd') →
    Stepped s (.boot sd as) { s with globals := g', sds := s.sds ++ [sd'] }
  | dispatch : s.dispatching = false → s.sds.length = s.optConnections →
    Stepped s .dispatch { s with dispatching := true, globals := { s.globals with eventBreak := false } }
  | wake {i : Nat} {event : EvFlags} {as : List Answer} {sd sd' : StateData} {e : Event} {g' : Globals} :
    s.dispatching = true → s.globals.eventBreak = false → s.sds[i]? = some sd → sd.evMysql = some e → e.Fires event →
    stateMachineHandler as event s.globals sd.fired = .ok (g', sd') →
    Stepped s (.wake i event as) { s with globals := g', sds := s.sds.set i sd' }

theorem handle_ok {s t : Program} {i : Nat} {event : EvFlags} {as : List Answer} {f : StateData → StateData}
    (h : s.handle i event as f = .ok t) : ∃ sd g' sd', s.sds[i]? = some sd ∧
      stateMachineHandler as event s.globals (f sd) = .ok (g', sd') ∧
      t = { s with globals := g', sds := s.sds.set i sd' } := by
  unfold handle at h
  cases hi : s.sds[i]? with
  | none => simp [hi] at h
  | some sd =>
    simp only [hi] at h
    cases hh : stateMachineHandler as event s.globals (f sd) with
    | error e => simp [hh, Except.map] at h
    | ok r =>
      simp only [hh, Except.map, Except.ok.injEq] at h
      exact ⟨sd, r.1, r.2, rfl, hh, h.symm⟩

theorem lts_stepped {s t : Program} {op : Op} (h : lts.step s op t) : Stepped s op t := by
  obtain ⟨he, h⟩ := h
  cases op with
  | dispatch => exact Except.ok.inj h ▸ .dispatch he.1 he.2
  | boot sd as =>
    obtain ⟨sd₁, g', sd', hi, hh, rfl⟩ := handle_ok h
    obtain rfl : sd.boot = sd₁ := by simpa using hi
    have hs : Stepped s (.boot sd as) _ := .boot he.1 he.2 hh
    simpa using hs
  | wake i event as =>
    obtain ⟨sd, g', sd', hi, hh, rfl⟩ := handle_ok h
    obtain ⟨hd, hb, e, hev, hf⟩ := he
    rw [hi] at hev
    exact .wake hd hb hi hev hf hh

/-- The handler on connection `i`, with the others beside it. -/
theorem Stepped.rule {s t : Program} {op : Op} {P : Globals → List StateData → Prop} (h : Stepped s op t)
    (hP : P s.globals s.sds) (hboot : ∀ sd : StateData, P s.globals s.sds → P (activate s.globals) (s.sds ++ [sd.boot]))
    (hfire : ∀ (i : Nat) (sd : StateData), s.sds[i]? = some sd → P s.globals s.sds → P s.globals (s.sds.set i sd.fired))
    (hbreak : P s.globals s.sds → P { s.globals with eventBreak := false } s.sds)
    (hpass : ∀ (a : Answer) event sds i g sd t g' sd', sds[i]? = some sd → P g sds → Passed a event g sd t →
      t.Leaves g' sd' → P g' (sds.set i sd')) :
    P t.globals t.sds := by
  have hrun : ∀ {sds : List StateData} {i sd event as g g' sd'}, sds[i]? = some sd → P g sds →
      stateMachineHandler as event g sd = .ok (g', sd') → P g' (sds.set i sd') := by
    intro sds i sd event as g g' sd' hi hg hh
    have hlt : i < sds.length := (List.getElem?_eq_some_iff.1 hi).1
    have hget : ∀ x, (sds.set i x)[i]? = some x := fun x => by simp [hlt]
    refine handler_rule (I := fun g sd => P g (sds.set i sd)) (Q := fun g sd => P g (sds.set i sd)) ?_ ?_ hh ?_
    · intro a g sd g' sd' hI hp
      simpa using hpass a event _ i g sd _ g' sd' (hget sd) hI hp (.inl rfl)
    · intro a g sd g' sd' hI hp
      simpa using hpass a event _ i g sd _ g' sd' (hget sd) hI hp (.inr rfl)
    · have hself : sds.set i sd = sds := by
        obtain ⟨-, rfl⟩ := List.getElem?_eq_some_iff.1 hi
        exact List.set_getElem_self hlt
      rwa [hself]
  cases h with
  | dispatch => exact hbreak hP
  | @boot sd sd' as g' _ _ hh =>
    have hget : (s.sds ++ [sd.boot])[s.sds.length]? = some sd.boot := by simp
    have hr := hrun hget (hboot sd hP) hh
    simpa using hr
  | @wake i event as sd sd' e g' _ _ hi _ _ hh =>
    have hlt : i < s.sds.length := (List.getElem?_eq_some_iff.1 hi).1
    have hget : (s.sds.set i sd.fired)[i]? = some sd.fired := by simp [hlt]
    have hr := hrun hget (hfire i sd hi hP) hh
    simpa using hr

end Program
end LtApp.AsyncQueries
