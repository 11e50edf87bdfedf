import LtApp.Base.Custody
import LtApp.Base.Handle
import LtApp.AsyncQueries.Ending

/-!
# What a connection does with its handle and its memory

The history of a connection, read in four ways: as uses of one handle that carries one operation at a time (`uses`); as
what becomes of the query entries (`entries`) and of the result sets (`results`); and for what each `*_cont` call is
told has happened (`asked`). The state says how far each of them has come (`Handled`), so every history is one that
keeps to the rules of the client library and frees what it has been given once (`handled_well`).
-/

namespace LtApp.AsyncQueries

open Dealing
open Mysql (Bytes MysqlRes WaitStatus Answer)

/-- How a call ends. A fetch that yields no row is the end of the rows. -/
def outcome (op : LibOp) (a : Answer) : Outcome :=
  if a.status.isZero then
    match op with
    | .fetchRow _ => if a.row.isSome then .finished else .drained
    | _ => .finished
  else .blocked

def Ev.use : Ev → Option (Use LibOp)
  | .start op a => some (.start op (outcome op a))
  | .cont op _ a => some (.cont op (outcome op a))
  | .useResult a => a.res.map fun r => .opens (.fetchRow (some r))
  | .freeResult _ => some .other
  | .takeQuery _ | .freeQuery _ => none

/-- What is done with an entry. The library reads the query from it until the query has been sent. -/
def Ev.entry : Ev → Option (Dealing QueryEntry)
  | .takeQuery e => some (.take e)
  | .start (.query e) _ | .cont (.query e) _ _ => e.map .use
  | .freeQuery e => some (.free e)
  | .start .close _ => some .bare
  | _ => none

/-- What is done with a result set. A query and a close must find none held. -/
def Ev.resultSet : Ev → Option (Dealing MysqlRes)
  | .useResult a => a.res.map .take
  | .start (.fetchRow r) _ | .cont (.fetchRow r) _ _ => r.map .use
  | .freeResult r => r.map .free
  | .start (.query _) _ | .start .close _ => some .bare
  | _ => none

def uses (log : List Ev) : List (Use LibOp) := log.filterMap Ev.use
def entries (log : List Ev) : List (Dealing QueryEntry) := log.filterMap Ev.entry
def results (log : List Ev) : List (Dealing MysqlRes) := log.filterMap Ev.resultSet

/-- Something has happened, and nothing that was not asked for. -/
def Within (ready w : WaitStatus) : Prop :=
  (ready.read ∨ ready.write ∨ ready.timeout) ∧ (ready.read → w.read) ∧ (ready.write → w.write) ∧
    (ready.timeout → w.timeout) ∧ ready.except = false

/-- What the last call has asked to wait for. A `*_cont` call is told of that. -/
def asked : Monitor Ev (Option WaitStatus) where
  init := none
  next
    | _, .start _ a | _, .cont _ _ a => if a.status.isZero then none else some a.status
    | s, _ => s
  Allows
    | s, .start _ _ => s = none
    | s, .cont _ ready _ => ∃ w, s = some w ∧ Within ready w
    | _, _ => True

/-! ## What the state says -/

namespace StateData

/-- What the handle is committed to. -/
def commitment (sd : StateData) : Handle LibOp :=
  match sd.st with
  | .st1 => { pending := some .connect }
  | .st11 => { pending := some (.query sd.queryElement) }
  | .st30 => { reading := some (.fetchRow sd.result) }
  | .st31 => { pending := some (.fetchRow sd.result), reading := some (.fetchRow sd.result) }
  | .st39 => { reading := if sd.row.isSome then some (.fetchRow sd.result) else none }
  | .st41 => { pending := some .close }
  | _ => {}

/-- The entry that is held. -/
def entry (sd : StateData) : Option QueryEntry :=
  match sd.st with
  | .st11 | .st20 => sd.queryElement
  | _ => none

/-- The result set that is held. -/
def resultSet (sd : StateData) : Option MysqlRes :=
  match sd.st with
  | .st30 | .st31 | .st39 => sd.result
  | _ => none

end StateData

/-- The history so far keeps to the rules, and the state knows how far it has come. -/
structure Handled (w : Option WaitStatus) (sd : StateData) : Prop where
  disciplined : Disciplined (uses sd.log)
  committed   : handle (uses sd.log) = sd.commitment
  entries     : custody.Stands (entries sd.log) sd.entry
  results     : custody.Stands (results sd.log) sd.resultSet
  asked       : asked.Stands sd.log w

section
variable {a : Answer} {as : List Answer} {event : EvFlags} {g g' : Globals} {sd sd' : StateData} {op : LibOp} {e : Ev}
  {w : Option WaitStatus} {t : Turn}

@[simp] theorem store_log : (store op a sd).log = sd.log := by
  unfold store
  cases op <;> split <;> rfl

@[simp] theorem store_result : (store op a sd).result = sd.result := by
  unfold store
  cases op <;> split <;> rfl

/-- What is told in each of the four ways of an event that has happened. -/
theorem Handled.cons (h : Handled w sd) (hlog : sd'.log = e :: sd.log)
    (huse : ∀ u, e.use = some u → sd.commitment.Allows u)
    (hcommit : sd'.commitment = (e.use.map sd.commitment.next).getD sd.commitment)
    (hentry : ∀ d, e.entry = some d → custody.Allows sd.entry d)
    (hentry' : sd'.entry = (e.entry.map (custody.next sd.entry)).getD sd.entry)
    (hres : ∀ d, e.resultSet = some d → custody.Allows sd.resultSet d)
    (hres' : sd'.resultSet = (e.resultSet.map (custody.next sd.resultSet)).getD sd.resultSet)
    (hasked : AsyncQueries.asked.Allows w e) : Handled (AsyncQueries.asked.next w e) sd' := by
  constructor
  case disciplined =>
    rw [hlog]
    cases hu : e.use with
    | none => simpa [uses, hu] using h.disciplined
    | some u =>
      have ha := huse u hu
      rw [← h.committed] at ha
      have hl : uses (e :: sd.log) = u :: uses sd.log := List.filterMap_cons_some hu
      rw [hl]
      exact ⟨ha, h.disciplined⟩
  case committed =>
    rw [hlog, hcommit]
    cases hu : e.use with
    | none => simpa [uses, hu] using h.committed
    | some u =>
      rw [← h.committed]
      simp [uses, hu, handle]
  case entries =>
    rw [hlog, hentry']
    cases hd : e.entry with
    | none => simpa [AsyncQueries.entries, hd] using h.entries
    | some d => simpa [AsyncQueries.entries, hd] using h.entries.cons (hentry d hd)
  case results =>
    rw [hlog, hres']
    cases hd : e.resultSet with
    | none => simpa [AsyncQueries.results, hd] using h.results
    | some d => simpa [AsyncQueries.results, hd] using h.results.cons (hres d hd)
  case asked =>
    rw [hlog]
    exact h.asked.cons hasked

/-- Nothing has happened that the history tells of. -/
theorem Handled.frame (h : Handled w sd) (hlog : sd'.log = sd.log) (hc : sd'.commitment = sd.commitment)
    (he : sd'.entry = sd.entry) (hr : sd'.resultSet = sd.resultSet) : Handled w sd' :=
  ⟨hlog ▸ h.disciplined, hlog ▸ hc ▸ h.committed, hlog ▸ he ▸ h.entries, hlog ▸ hr ▸ h.results, hlog ▸ h.asked⟩

/-! ## A pass -/

/-- What a call leaves of the connection. -/
theorem Called.shape (h : Called op e a g sd t) (ht : t.Leaves g' sd') :
    sd'.log = e :: sd.log ∧ sd'.result = sd.result ∧ sd'.queryElement = sd.queryElement ∧
    ((a.status.isZero = true ∧ sd'.st = op.next ∧ ∀ r, op = .fetchRow r → sd'.row = a.row) ∨
      (a.status.isZero = false ∧ sd'.st = op.wait)) := by
  cases h with
  | ended hz =>
    obtain ⟨-, rfl⟩ : g = g' ∧ (store op a (sd.emit e)).goto op.next = sd' := by simpa [Turn.Leaves] using ht
    refine ⟨by simp, by simp, by simp, .inl ⟨hz, rfl, ?_⟩⟩
    rintro r rfl
    simp [store, hz]
  | waits hz =>
    obtain ⟨-, rfl⟩ : g = g' ∧ nextEvent op.wait a (sd.emit e) = sd' := by simpa [Turn.Leaves] using ht
    exact ⟨rfl, rfl, rfl, .inr ⟨hz, rfl⟩⟩

section
attribute [local simp] Ev.use Ev.entry Ev.resultSet StateData.commitment StateData.entry StateData.resultSet
  LibOp.first LibOp.next LibOp.wait outcome Handle.next Handle.Allows custody Dealing.next Dealing.Allows
  Use.Reads Use.Continues

/-- An operation is started and ends, or waits. -/
theorem Called.start_handled (h : Called op (.start op a) a g sd t) (ht : t.Leaves g' sd') (hH : Handled none sd)
    (hst : sd.st = op.first) (hne : sd.st ≠ .st10) (hop : sd.op = some op) :
    Handled (asked.next none (.start op a)) sd' := by
  obtain ⟨hlog, hr, hq, hst'⟩ := h.shape ht
  cases op with
  | query q => exact absurd hst hne
  | connect | close =>
    rcases hst' with ⟨hz, hst', hrow⟩ | ⟨hz, hst'⟩ <;> refine hH.cons hlog ?_ ?_ ?_ ?_ ?_ ?_ rfl
    all_goals simp_all
  | fetchRow r =>
    obtain rfl : sd.result = r := by simpa [StateData.op, hst] using hop
    rcases hst' with ⟨hz, hst', hrow⟩ | ⟨hz, hst'⟩ <;> refine hH.cons hlog ?_ ?_ ?_ ?_ ?_ ?_ rfl
    all_goals cases hres : sd.result <;> cases ha : a.row <;> simp_all

/-- An operation that has been waiting ends, or waits again. -/
theorem Called.cont_handled {ready w : WaitStatus} (h : Called op (.cont op ready a) a g sd t) (ht : t.Leaves g' sd')
    (hH : Handled (some w) sd) (hw : Within ready w) (hst : sd.st = op.wait) (hop : sd.op = some op) :
    Handled (asked.next (some w) (.cont op ready a)) sd' := by
  obtain ⟨hlog, hr, hq, hst'⟩ := h.shape ht
  have hasked : asked.Allows (some w) (.cont op ready a) := ⟨w, rfl, hw⟩
  cases op with
  | connect | close =>
    rcases hst' with ⟨hz, hst', hrow⟩ | ⟨hz, hst'⟩ <;> refine hH.cons hlog ?_ ?_ ?_ ?_ ?_ ?_ hasked
    all_goals simp_all
  | query q =>
    obtain rfl : sd.queryElement = q := by simpa [StateData.op, hst] using hop
    rcases hst' with ⟨hz, hst', hrow⟩ | ⟨hz, hst'⟩ <;> refine hH.cons hlog ?_ ?_ ?_ ?_ ?_ ?_ hasked
    all_goals cases hel : sd.queryElement <;> simp_all
  | fetchRow r =>
    obtain rfl : sd.result = r := by simpa [StateData.op, hst] using hop
    rcases hst' with ⟨hz, hst', hrow⟩ | ⟨hz, hst'⟩ <;> refine hH.cons hlog ?_ ?_ ?_ ?_ ?_ ?_ hasked
    all_goals cases hres : sd.result <;> cases ha : a.row <;> simp_all

/-- The entry taken off the list is held, and its query is sent. -/
theorem Called.take_handled {q : QueryEntry}
    (h : Called (.query (some q)) (.start (.query (some q)) a) a g
      { sd.emit (.takeQuery q) with queryElement := some q, index := q.index } t)
    (ht : t.Leaves g' sd') (hH : Handled none sd) (hst : sd.st = .st10) :
    Handled (asked.next none (.start (.query (some q)) a)) sd' := by
  obtain ⟨hlog, hr, hq, hst'⟩ := h.shape ht
  -- the state of one who holds the entry, and has nothing under way
  have htaken : Handled none { sd.emit (.takeQuery q) with queryElement := some q, st := .st20 } := by
    refine hH.cons (e := .takeQuery q) rfl ?_ ?_ ?_ ?_ ?_ ?_ trivial
    all_goals simp_all
  rcases hst' with ⟨hz, hst', hrow⟩ | ⟨hz, hst'⟩ <;> refine htaken.cons hlog ?_ ?_ ?_ ?_ ?_ ?_ rfl
  all_goals simp_all

theorem freed_handled {q : QueryEntry} (hH : Handled none sd) (hst : sd.st = .st20) (hq : sd.queryElement = some q) :
    Handled none ((sd.emit (.freeQuery q)).goto .st10) := by
  refine hH.cons (e := .freeQuery q) rfl ?_ ?_ ?_ ?_ ?_ ?_ trivial
  all_goals simp_all

end

/-- The states in which an operation waits. -/
def St.waits : St → Bool
  | .st1 | .st11 | .st31 | .st41 => true
  | _ => false

theorem LibOp.wait_waits (op : LibOp) : op.wait.waits = true := by cases op <;> rfl

theorem LibOp.first_waits (op : LibOp) : op.first.waits = false := by cases op <;> rfl

theorem LibOp.next_waits (op : LibOp) : op.next.waits = false := by cases op <;> rfl

/-- Between the passes: what an operation that waits has asked for is what has happened. -/
structure Listening (event : EvFlags) (sd : StateData) (w : Option WaitStatus) : Prop where
  handled : Handled w sd
  waits   : sd.st.waits = true → ∃ w', w = some w' ∧ Within (mysqlStatus event) w'
  goes    : sd.st.waits = false → w = none

theorem Listening.of_none (h : Handled none sd) (hst : sd.st.waits = false) : Listening event sd none :=
  ⟨h, fun hw => absurd hw (by simp [hst]), fun _ => rfl⟩

theorem Listening.free (h : Listening event sd w) {s : St} (hst : sd.st = s) (hs : s.waits = false) :
    Handled none sd := by
  have hw := h.goes (hst ▸ hs)
  exact hw ▸ h.handled

theorem Called.ended_status {op : LibOp} (h : Called op e a g sd (.again g' sd')) : a.status.isZero = true := by
  cases h with
  | ended hz => exact hz

/-- **A pass that goes round again keeps to the rules.** -/
theorem again_handled (h : Passed a event g sd (.again g' sd')) (hw : Listening event sd w) :
    Listening event sd' none := by
  cases h with
  | @start op _ hst hne hop hc =>
    have hH := hc.start_handled (.inl rfl) (hw.free hst op.first_waits) hst hne hop
    have hz := hc.ended_status
    simp only [asked, hz, if_true] at hH
    exact .of_none hH (by rw [hc.again_spec.2.1, op.next_waits])
  | @cont op _ hst hop hc =>
    obtain ⟨w', rfl, hwithin⟩ := hw.waits (by rw [hst, op.wait_waits])
    have hH := hc.cont_handled (.inl rfl) hw.handled hwithin hst hop
    have hz := hc.ended_status
    simp only [asked, hz, if_true] at hH
    exact .of_none hH (by rw [hc.again_spec.2.1, op.next_waits])
  | @take q rest _ hst hq hc =>
    have hH := hc.take_handled (.inl rfl) (hw.free hst rfl) hst
    have hz := hc.ended_status
    simp only [asked, hz, if_true] at hH
    exact .of_none hH (by rw [hc.again_spec.2.1, LibOp.next_waits])
  | connected hst hr =>
    have hH := hw.free hst rfl
    refine .of_none (hH.frame rfl ?_ ?_ ?_) rfl
    all_goals simp [StateData.commitment, StateData.entry, StateData.resultSet, hst]
  | noMore hst hq =>
    have hH := hw.free hst rfl
    refine .of_none (hH.frame rfl ?_ ?_ ?_) rfl
    all_goals simp [StateData.commitment, StateData.entry, StateData.resultSet, hst]
  | failed hst he herr => exact .of_none (freed_handled (hw.free hst rfl) hst he) rfl
  | opened hst he herr hres =>
    have hH := freed_handled (hw.free hst rfl) hst he
    refine .of_none (hH.cons (e := .useResult a) rfl ?_ ?_ ?_ ?_ ?_ ?_ trivial) rfl
    all_goals simp [Ev.use, Ev.entry, Ev.resultSet, StateData.commitment, StateData.entry, StateData.resultSet, hres,
      Handle.next, Handle.Allows, custody, Dealing.next, Dealing.Allows]
  | row hst hrow hr =>
    have hH := hw.free hst rfl
    refine .of_none (hH.frame rfl ?_ ?_ ?_) rfl
    all_goals simp [StateData.commitment, StateData.entry, StateData.resultSet, hst, hrow]
  | rowsEnded hst hrow hl =>
    have hH := hw.free hst rfl
    refine .of_none (hH.cons (e := .freeResult sd.result) rfl ?_ ?_ ?_ ?_ ?_ ?_ trivial) rfl
    all_goals cases hres : sd.result <;> simp [Ev.use, Ev.entry, Ev.resultSet, StateData.commitment, StateData.entry,
      StateData.resultSet, hst, hrow, hres, Handle.next, Handle.Allows, custody, Dealing.next, Dealing.Allows]

/-- Between two calls of the handler: nothing is asked for, or what the event waits for. -/
structure Handled.AtRest (sd : StateData) (w : Option WaitStatus) : Prop where
  handled : Handled w sd
  rests   : (sd.st = .st50 ∧ w = none ∧ sd.evMysql = none) ∨
    (sd.st.waits = true ∧ ∃ a, w = some a.status ∧ sd.evMysql = some (waitEvent a))

theorem rest_handled (h : Passed a event g sd (.rest g' sd')) (hw : Listening event sd w) (hev : sd.evMysql = none) :
    ∃ w', Handled.AtRest sd' w' := by
  cases h with
  | @start op _ hst hne hop hc =>
    have hH := hc.start_handled (.inr rfl) (hw.free hst op.first_waits) hst hne hop
    obtain ⟨-, hst', hz, hev', -⟩ := hc.rest_spec
    simp only [asked, hz, Bool.false_eq_true, if_false] at hH
    exact ⟨_, hH, .inr ⟨by rw [hst', op.wait_waits], a, rfl, hev'⟩⟩
  | @cont op _ hst hop hc =>
    obtain ⟨w', rfl, hwithin⟩ := hw.waits (by rw [hst, op.wait_waits])
    have hH := hc.cont_handled (.inr rfl) hw.handled hwithin hst hop
    obtain ⟨-, hst', hz, hev', -⟩ := hc.rest_spec
    simp only [asked, hz, Bool.false_eq_true, if_false] at hH
    exact ⟨_, hH, .inr ⟨by rw [hst', op.wait_waits], a, rfl, hev'⟩⟩
  | @take q rest _ hst hq hc =>
    have hH := hc.take_handled (.inr rfl) (hw.free hst rfl) hst
    obtain ⟨-, hst', hz, hev', -⟩ := hc.rest_spec
    simp only [asked, hz, Bool.false_eq_true, if_false] at hH
    exact ⟨_, hH, .inr ⟨by rw [hst', LibOp.wait_waits], a, rfl, hev'⟩⟩
  | done hst => exact ⟨none, hw.free hst rfl, .inl ⟨hst, rfl, hev⟩⟩

/-- An event that fires tells of what was asked for. -/
theorem within_of_fires {a : Answer} {f : EvFlags} (h : (waitEvent a).Fires f) : Within (mysqlStatus f) a.status := by
  obtain ⟨hsome, hr, hw, ht⟩ := h
  refine ⟨hsome, hr, hw, fun hf => ?_, rfl⟩
  have hto := ht hf
  unfold waitEvent at hto
  by_contra hn
  simp [hn] at hto

/-- **A call of the handler keeps to the rules.** -/
theorem handler_handled (h : stateMachineHandler as event g sd = .ok (g', sd')) (hw : Listening event sd w)
    (hev : sd.evMysql = none) : ∃ w', Handled.AtRest sd' w' := by
  refine handler_rule (I := fun _ sd => (∃ w, Listening event sd w) ∧ sd.evMysql = none)
    (Q := fun _ sd => ∃ w, Handled.AtRest sd w) ?_ ?_ h ⟨⟨w, hw⟩, hev⟩
  · rintro a g sd g' sd' ⟨⟨w, hw⟩, hev⟩ hp
    refine ⟨⟨none, again_handled hp hw⟩, ?_⟩
    cases hp with
    | start _ _ _ hc | cont _ _ hc | take _ _ hc => exact hc.again_spec.2.2.1.trans hev
    | connected | noMore | failed | opened | row | rowsEnded => exact hev
  · rintro a g sd g' sd' ⟨⟨w, hw⟩, hev⟩ hp
    exact rest_handled hp hw hev

end

/-! ## Any run -/

namespace Program

variable {s t : Program} {op : Op} {file : Option Bytes} {args : List Bytes}

theorem boot_listening (sd : StateData) : Listening allFlags sd.boot none := by
  refine .of_none ⟨trivial, rfl, ?_, ?_, ?_⟩ rfl
  all_goals exact Monitor.stands_nil

theorem step_handled (h : ∀ sd ∈ s.sds, ∃ w, Handled.AtRest sd w) (hs : lts.step s op t) :
    ∀ sd ∈ t.sds, ∃ w, Handled.AtRest sd w := by
  cases lts_stepped hs with
  | dispatch hd hlen => exact h
  | boot hd hlt hh =>
    intro x hx
    rcases List.mem_append.1 hx with hx | hx
    · exact h x hx
    · exact List.mem_singleton.1 hx ▸ handler_handled hh (boot_listening _) rfl
  | @wake i event as sd sd' e g' hd hb hi hev hf hh =>
    intro x hx
    rcases List.mem_or_eq_of_mem_set hx with hx | rfl
    · exact h x hx
    · obtain ⟨w, hH, ⟨-, -, hnone⟩ | ⟨hst, a, rfl, hev'⟩⟩ := h sd (List.mem_of_getElem? hi)
      · rw [hnone] at hev
        cases hev
      · obtain rfl : waitEvent a = e := Option.some.inj (hev'.symm.trans hev)
        have hfired : Handled (some a.status) sd.fired := hH.frame rfl rfl rfl rfl
        refine handler_handled hh ⟨hfired, fun _ => ⟨_, rfl, within_of_fires hf⟩, fun hno => ?_⟩ rfl
        rw [StateData.fired_st, hst] at hno
        cases hno

/-- **Every connection keeps to the rules of the client library, and frees what it has been given once.** In every
state the program reaches: a connection carries one operation at a time and reads a result set to its end; each
`*_cont` call is told of something its operation waits for, and of nothing else; each query entry and each result set
is freed once and not used after that, and when the connection is at state 50 all of them have been freed. -/
theorem handled_well (file : Option Bytes) (args : List Bytes) (s : Program) (h : s.Reachable file args) :
    ∀ sd ∈ s.sds, Exclusive (uses sd.log) ∧ asked.Accepts sd.log ∧ ReleasedOnce (entries sd.log) ∧
      ReleasedOnce (results sd.log) ∧ (sd.st = .st50 → AllFreed (entries sd.log) ∧ AllFreed (results sd.log)) := by
  intro sd hsd
  obtain ⟨n, ops, hr⟩ := h
  have hall : ∀ sd ∈ s.sds, ∃ w, Handled.AtRest sd w :=
    hr.invariant (P := fun s => ∀ sd ∈ s.sds, ∃ w, Handled.AtRest sd w) (fun _ _ _ hs hst => step_handled hs hst)
      (fun sd hsd => by cases hsd)
  obtain ⟨w, hH, -⟩ := hall sd hsd
  refine ⟨exclusive_iff.2 hH.disciplined, hH.asked.accepts, accepts_iff.1 hH.entries.accepts,
    accepts_iff.1 hH.results.accepts, fun hst => ⟨?_, ?_⟩⟩
  · have hnone : sd.entry = none := by simp [StateData.entry, hst]
    exact allFreed_of_none (hnone ▸ hH.entries)
  · have hnone : sd.resultSet = none := by simp [StateData.resultSet, hst]
    exact allFreed_of_none (hnone ▸ hH.results)

theorem handled_well_workedOff : ∃ s : Program, s.Reachable none twoQueries ∧ (∃ sd ∈ s.sds, sd.log ≠ []) ∧
    ∀ sd ∈ s.sds, Exclusive (uses sd.log) ∧ asked.Accepts sd.log ∧ ReleasedOnce (entries sd.log) ∧
      ReleasedOnce (results sd.log) ∧ (sd.st = .st50 → AllFreed (entries sd.log) ∧ AllFreed (results sd.log)) := by
  obtain ⟨s, hr, hl⟩ : ∃ s : Program, lts.Run (start 2 (givenQueries none twoQueries)) workedOff s ∧
      ∃ sd ∈ s.sds, sd.log ≠ [] :=
    Lts.exists_run_of_exec_imp (P := fun s : Program => ∃ sd ∈ s.sds, sd.log ≠ []) tryStep_step (by decide)
      fun _ _ h => h
  have hreach : s.Reachable none twoQueries := ⟨2, workedOff, hr⟩
  exact ⟨s, hreach, hl, handled_well none twoQueries s hreach⟩

end Program
end LtApp.AsyncQueries
