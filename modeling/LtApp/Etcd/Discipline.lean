import LtApp.Base.Monitor
import LtApp.Etcd.KeepAlive

/-!
# The discipline of a keepalive stream

At most one of a write in flight, a read in flight, a delayed write pending and `StartWritesDone` issued, and nothing
started once a write or a read has failed or the stream is done (`Disciplined`).

The first half always holds. The second breaks in two ways, both by what `OnReadDone` leaves behind: after a failed
read it goes on, to `StartWritesDone` where the context is canceled and to the delayed closure where it is not; and
the closure writes without asking what has become of the stream.
-/

namespace LtApp.Etcd

/-- An operation is started. -/
def StreamEv.starts : StreamEv → Bool
  | .startWrite _ | .startRead | .startWritesDone => true
  | _ => false

/-- Nothing may be started after this. -/
def StreamEv.ends : StreamEv → Bool
  | .writeDone ok | .readDone ok => !ok
  | .done _ => true
  | _ => false

/-- Its state: a write or a read has failed, or the stream is done. -/
def lifetime : Monitor StreamEv Bool := ⟨false, fun b e => b || e.ends, fun b e => e.starts = true → b = false⟩

instance lifetime.decidableAllows (b : Bool) (e : StreamEv) : Decidable (lifetime.Allows b e) :=
  inferInstanceAs (Decidable (e.starts = true → b = false))

namespace KeepAliveContext

/-- How many of the four there are. -/
def busy (c : KeepAliveContext) : Nat :=
  c.writing + c.reading + c.delayed + if .startWritesDone ∈ c.log then 1 else 0

structure Disciplined (c : KeepAliveContext) : Prop where
  single : c.busy ≤ 1
  sequel : lifetime.Accepts c.log

/-- No read fails on a canceled context, and the delayed closure runs on a stream that has neither failed nor ended. -/
def Op.Spared (c : KeepAliveContext) : Op → Prop
  | .readDone ok => ok = true ∨ c.call.canceled = false
  | .delayed => lifetime.after c.log = false
  | _ => True

instance (c : KeepAliveContext) : (op : Op) → Decidable (op.Spared c)
  | .readDone ok => inferInstanceAs (Decidable (ok = true ∨ c.call.canceled = false))
  | .delayed => inferInstanceAs (Decidable (lifetime.after c.log = false))
  | .writeDone _ | .writesDoneDone _ | .done _ | .cancel => isTrue trivial

/-! ## One step -/

/-- Disciplined, with nothing in flight on a stream that has failed or ended. -/
structure Calm (c : KeepAliveContext) : Prop extends Disciplined c where
  still : lifetime.after c.log = true → c.writing = 0 ∧ c.reading = 0

section
variable {c c' : KeepAliveContext} {op : Op} {ok : Bool}

theorem accepts_started {e : StreamEv} {l : List StreamEv} (he : e.starts = true) :
    lifetime.Accepts (e :: l) ↔ lifetime.after l = false ∧ lifetime.Accepts l := by
  rw [Monitor.accepts_cons]
  exact and_congr_left' ⟨fun h => h he, fun h _ => h⟩

theorem accepts_reported {e : StreamEv} {l : List StreamEv} (he : e.starts = false) :
    lifetime.Accepts (e :: l) ↔ lifetime.Accepts l := by
  rw [Monitor.accepts_cons]
  exact ⟨fun h => h.2, fun h => ⟨fun hs => by simp [he] at hs, h⟩⟩

theorem after_cons (e : StreamEv) (l : List StreamEv) : lifetime.after (e :: l) = (lifetime.after l || e.ends) := rfl

/-- What is in flight tells that nothing has failed or ended. -/
theorem Calm.sound (hc : Calm c) (hf : 0 < c.writing ∨ 0 < c.reading) : lifetime.after c.log = false := by
  cases hq : lifetime.after c.log with
  | false => rfl
  | true =>
    obtain ⟨hw, hr⟩ := hc.still hq
    omega

/-- **Exactly the spared steps keep a stream disciplined.** -/
theorem step_spared (h : lts.step c op c') (hd : Disciplined c') : op.Spared c := by
  cases lts_stepped h with
  | written | writeFailed | writesDoneDone | done | cancel => trivial
  | posted _ hcan => exact .inr hcan
  | @halfClosed ok =>
    have hq : lifetime.after (.readDone ok :: c.log) = false := by
      simpa using ((accepts_started rfl).1 hd.sequel).1
    rw [after_cons] at hq
    exact .inl (by cases ok <;> simp_all [StreamEv.ends])
  | delayed => exact ((accepts_started rfl).1 hd.sequel).1

/-- One thing leads to one other. -/
theorem step_single (hb : c.busy ≤ 1) (h : lts.step c op c') : c'.busy ≤ 1 := by
  unfold busy at hb
  cases lts_stepped h with
  | written hw =>
    simp only [busy, startRead, writeReported, List.mem_cons, reduceCtorEq, false_or]
    omega
  | writeFailed hw =>
    simp only [busy, resumeContext, writeReported, List.mem_cons, reduceCtorEq, false_or]
    omega
  | halfClosed hr hcan =>
    simp only [busy, startWritesDone, readNoted_writing, readNoted_reading, readNoted_delayed, List.mem_cons, true_or,
      if_true]
    split at hb <;> omega
  | posted hr hcan =>
    simp only [busy, postDelayTask, readNoted_writing, readNoted_reading, readNoted_delayed, readNoted_log,
      List.mem_cons, reduceCtorEq, false_or]
    omega
  | writesDoneDone | done => simpa [busy] using hb
  | delayed hdel =>
    simp only [busy, onDelayed, startWrite, List.mem_cons, reduceCtorEq, false_or]
    omega
  | cancel => exact hb

theorem step_calm (hc : Calm c) (h : lts.step c op c') (hg : op.Spared c) : Calm c' := by
  have hb : c.writing + c.reading + c.delayed + (if .startWritesDone ∈ c.log then 1 else 0) ≤ 1 := hc.single
  have hsingle := step_single hc.single h
  cases lts_stepped h with
  | written hw =>
    have hq := hc.sound (.inl hw)
    refine ⟨⟨hsingle, ?_⟩, by simp [after_cons, hq, StreamEv.ends]⟩
    exact (accepts_started rfl).2 ⟨by simp [after_cons, hq, StreamEv.ends], (accepts_reported rfl).2 hc.sequel⟩
  | writeFailed hw =>
    refine ⟨⟨hsingle, (accepts_reported rfl).2 hc.sequel⟩, fun _ => ?_⟩
    show c.writing - 1 = 0 ∧ c.reading = 0
    omega
  | @halfClosed ok hr hcan =>
    have hq := hc.sound (.inr hr)
    obtain rfl : ok = true := by simpa [Op.Spared, hcan] using hg
    refine ⟨⟨hsingle, ?_⟩, by simp [after_cons, hq, StreamEv.ends]⟩
    exact (accepts_started rfl).2 ⟨by simp [after_cons, hq, StreamEv.ends], (accepts_reported rfl).2 hc.sequel⟩
  | @posted ok hr hcan =>
    refine ⟨⟨hsingle, ?_⟩, fun _ => ?_⟩
    · rw [postDelayTask_log, readNoted_log]
      exact (accepts_reported rfl).2 hc.sequel
    · simp only [postDelayTask, readNoted_writing, readNoted_reading]
      omega
  | writesDoneDone hcl =>
    exact ⟨⟨hsingle, (accepts_reported rfl).2 hc.sequel⟩, by simpa [after_cons, StreamEv.ends] using hc.still⟩
  | done hl hw hr => exact ⟨⟨hsingle, (accepts_reported rfl).2 hc.sequel⟩, fun _ => ⟨hw, hr⟩⟩
  | delayed hdel =>
    have hq : lifetime.after c.log = false := hg
    exact ⟨⟨hsingle, (accepts_started rfl).2 ⟨hq, hc.sequel⟩⟩, by simp [after_cons, hq, StreamEv.ends]⟩
  | cancel => exact ⟨⟨hsingle, hc.sequel⟩, hc.still⟩

end

/-! ## Runs -/

theorem start_calm (leaseId interval : Int) : Calm (start leaseId interval {}) :=
  ⟨⟨by simp [busy], (accepts_started rfl).2 ⟨rfl, Monitor.accepts_nil⟩⟩, by simp [StreamEv.ends, lifetime, Monitor.after]⟩

/-- Whatever happens, there is at most one of the four at a time. -/
theorem run_single {leaseId interval : Int} {ops : List Op} {c : KeepAliveContext}
    (h : lts.Run (start leaseId interval {}) ops c) : c.busy ≤ 1 :=
  h.invariant (P := fun c => c.busy ≤ 1) (fun _ _ _ hb hs => step_single hb hs) (start_calm leaseId interval).single

/-- **A keepalive stream is disciplined in exactly the runs whose steps are all spared**: those in which no read fails
on a canceled context, and the delayed closure never runs after a failure or after `OnDone`. -/
theorem disciplined_iff_spared (leaseId interval : Int) (ops : List Op) (c : KeepAliveContext) :
    (lts.within Disciplined).Run (start leaseId interval {}) ops c ↔
      (lts.restrict fun c op => op.Spared c).Run (start leaseId interval {}) ops c := by
  have hcalm := start_calm leaseId interval
  rw [Lts.Run.within_congr (I := fun _ => True) (Q := Calm) (fun _ _ _ _ _ => trivial)
    (fun s a t _ hs hst => ⟨fun hd => step_calm hs hst (step_spared hst hd), fun ht => ht.toDisciplined⟩) trivial hcalm]
  exact Lts.Run.within_iff_restrict (I := fun _ => True) (fun _ _ _ _ _ => trivial)
    (fun s a t _ hs hst => ⟨fun ht => step_spared hst ht.toDisciplined, step_calm hs hst⟩) trivial hcalm

/-- **After a failed read the delayed closure still writes.** -/
theorem write_after_failed_read :
    ∃ c, (lts.restrict fun _ _ => True).Run (start 7 5000 {}) [.writeDone true, .readDone false, .delayed] c ∧
      ¬ lifetime.Accepts c.log :=
  Lts.exists_run_of_exec tryStep_step (by decide)

end KeepAliveContext
end LtApp.Etcd
