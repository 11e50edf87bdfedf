import LtApp.Etcd.Rpc

/-!
# The grain of `Resume`

`Resume` takes `LockContext` for one step of the coroutine and `ResumeContext` for two of the callback; `Rpc` takes the
lock and gives it back. An operation as `Rpc` has it is one as `Resume` has it, with the steps left out that nobody
else can see.

| `Rpc` | `Resume` |
| --- | --- |
| the installation of the resumer | `lock` |
| `done_.store(true)` | `report` |
| the look for the resumer | `fire` |
-/

namespace LtApp.Etcd.Operation

variable {Q R α : Type}

/-- How far the RPC and its callback have come. -/
inductive Way
  | idle | flying | calling | over
deriving DecidableEq, Repr

def wayOf : Completing → Way
  | .storeSuccess | .storeDone => .flying
  | .acquire | .callResumer => .calling
  | .release | .returned => .over

def way (o : Operation Q R α) : Way :=
  match o.rpc with
  | .unstarted => .idle
  | .inFlight _ | .received => .flying
  | .calledBack =>
    match o.meet.completions with
    | [] => .flying
    | c :: _ => wayOf c.next

/-- Where `Resume` has the coroutine. -/
def stage (o : Operation Q R α) : Stage :=
  match o.place with
  | .running (.lockContext :: _) => if o.meet.call.resumer = none then .lock else .start
  | .running (.async :: _) => .start
  | .running (.coYield :: _) => .yield
  | .suspended _ => if o.meet.scheduled = true then .woken else .parked
  | .running [] | .returned _ => .woken

/-- The one suspension of the operation. -/
def point (u : UnaryRpc Q R α) : Suspension Unary := ⟨u.kind, 0⟩

structure Matches (u : UnaryRpc Q R α) (o : Operation Q R α) (w : UnaryCall) : Prop where
  frame    : ∃ called, w.frame () = some ⟨point u, o.stage, called⟩ ∧
    ∀ l ls, o.place = .running (l :: ls) → called = o.meet.scheduled
  resumer  : (w.ctx ()).resumer = o.meet.call.resumer.map fun _ => point u
  done     : (w.ctx ()).done = o.meet.call.done
  success  : o.meet.call.done = true → (w.ctx ()).success = o.meet.call.success
  flying   : o.way = .flying → o.meet.call.done = false
  inFlight : w.inFlight = if o.way = .flying then [point u] else []
  calling  : w.calling = if o.way = .calling then [point u] else []
  resumed  : w.resumed = if o.way = .over then [(point u, some (point u))] else []

section
variable {u : UnaryRpc Q R α} {out : Outcome R} {o o' : Operation Q R α} {a : Act} {w : UnaryCall}

/-- A step that `Resume` does not have. -/
theorem Matches.stutter (hm : Matches u o w) (hstage : o'.stage = o.stage) (hway : o'.way = o.way)
    (hcall : o'.meet.call.resumer = o.meet.call.resumer ∧ o'.meet.call.done = o.meet.call.done ∧
      (o.meet.call.done = true → o'.meet.call.success = o.meet.call.success))
    (hrun : ∀ l ls, o'.place = .running (l :: ls) →
      o'.meet.scheduled = o.meet.scheduled ∧ ∃ l ls, o.place = .running (l :: ls)) :
    ∃ bs w', Unary.lts.Run w bs w' ∧ Matches u o' w' := by
  obtain ⟨called, hf, hcalled⟩ := hm.frame
  obtain ⟨hres, hdone, hsuc⟩ := hcall
  refine ⟨[], w, .nil _, ⟨called, hstage ▸ hf, fun l ls hp => ?_⟩, ?_, ?_, fun hd => ?_, ?_, ?_, ?_, ?_⟩
  · obtain ⟨hsched, l', ls', hp'⟩ := hrun l ls hp
    exact (hcalled l' ls' hp').trans hsched.symm
  · rw [hres, hm.resumer]
  · rw [hdone, hm.done]
  · rw [hdone] at hd
    rw [hsuc hd]
    exact hm.success hd
  · rw [hway, hdone]
    exact hm.flying
  · rw [hway, hm.inFlight]
  · rw [hway, hm.calling]
  · rw [hway, hm.resumed]

/-- The installation of the resumer. -/
theorem Matches.lock (hm : Matches u o w) {m : Rendezvous Unit} {ls : List Line} (hp : o.place = .running (.lockContext :: ls))
    (hrpc : o.rpc = .unstarted) (hr : o.meet.call.resumer = none) (hcall : m.call = o.meet.call.lockContext ())
    (hsched : m.scheduled = o.meet.scheduled) :
    ∃ bs w', Unary.lts.Run w bs w' ∧ Matches u { o with meet := m, place := .running (.lockContext :: ls) } w' := by
  obtain ⟨called, hf, hcalled⟩ := hm.frame
  have hstage : o.stage = .lock := by simp [stage, hp, hr]
  rw [hstage] at hf
  refine ⟨[.lock ()], w.lock (fun _ => ()) () ⟨point u, .lock, called⟩, .single ?_, ⟨called, ?_, fun _ _ _ => ?_⟩, ?_, ?_,
    ?_, ?_, ?_, ?_, ?_⟩
  · simp [Unary.lts, Waits.step, Waits.at?, hf]
  · simp [Waits.lock, stage, hcall]
  · rw [hcalled _ _ hp, hsched]
  · simp [Waits.lock, hcall]
  · simp [Waits.lock, hcall, hm.done]
  · intro hd
    simpa [Waits.lock, hcall] using hm.success (by simpa [hcall] using hd)
  · simp [way, hrpc]
  · simp [Waits.lock, way, hrpc, hm.inFlight]
  · simp [Waits.lock, way, hrpc, hm.calling]
  · simp [Waits.lock, way, hrpc, hm.resumed]

/-- The RPC is started. -/
theorem Matches.start (hm : Matches u o w) {ls : List Line} (hp : o.place = .running (.async :: ls))
    (hrpc : o.rpc = .unstarted) (hd : o.meet.call.done = false) :
    ∃ bs w', Unary.lts.Run w bs w' ∧ Matches u { o with rpc := .inFlight u.request, place := .running [.coYield] } w' := by
  obtain ⟨called, hf, hcalled⟩ := hm.frame
  have hstage : o.stage = .start := by simp [stage, hp]
  have hway : o.way = .idle := by simp [way, hrpc]
  obtain ⟨hin, hcl, hov⟩ : w.inFlight = [] ∧ w.calling = [] ∧ w.resumed = [] := by
    rw [hm.inFlight, hm.calling, hm.resumed, hway]
    simp
  rw [hstage] at hf
  refine ⟨[.start ()], w.start () ⟨point u, .start, called⟩, .single ?_, ⟨called, ?_, fun _ _ _ => hcalled _ _ hp⟩,
    hm.resumer, hm.done, hm.success, fun _ => hd, ?_, ?_, ?_⟩
  · simp [Unary.lts, Waits.step, Waits.at?, hf]
  · simp [Waits.start, stage]
  · simp [Waits.start, way, hin]
  · simp [Waits.start, way, hcl]
  · simp [Waits.start, way, hov]

/-- `CO_YIELD`. -/
theorem Matches.yield (hm : Matches u o w) (hp : o.place = .running [.coYield]) :
    ∃ bs w', Unary.lts.Run w bs w' ∧ Matches u { o with place := .suspended [] } w' := by
  obtain ⟨called, hf, hcalled⟩ := hm.frame
  have hstage : o.stage = .yield := by simp [stage, hp]
  rw [hstage] at hf
  refine ⟨[.yield ()], w.yield () ⟨point u, .yield, called⟩, .single ?_, ⟨called, ?_, fun _ _ h => by cases h⟩,
    hm.resumer, hm.done, hm.success, hm.flying, hm.inFlight, hm.calling, hm.resumed⟩
  · simp [Unary.lts, Waits.step, Waits.at?, hf]
  · simp [Waits.yield, stage, hcalled _ _ hp]

/-- `done_.store(true)`. -/
theorem Matches.report (hm : Matches u o w) {m : Rendezvous Unit} (hway : o.way = .flying)
    (hway' : way { o with meet := m } = .calling) (hcall : m.call = o.meet.call.storeDone)
    (hsched : m.scheduled = o.meet.scheduled) : ∃ bs w', Unary.lts.Run w bs w' ∧ Matches u { o with meet := m } w' := by
  obtain ⟨called, hf, hcalled⟩ := hm.frame
  have hin : w.inFlight = [point u] := by simp [hm.inFlight, hway]
  have hstage : stage { o with meet := m } = o.stage := by simp [stage, hcall, hsched]
  refine ⟨[.report (point u) o.meet.call.success], w.report (fun _ => ()) (point u) o.meet.call.success, .single ?_,
    ⟨called, ?_, fun l ls hp => ?_⟩, ?_, ?_, ?_, ?_, ?_, ?_, ?_⟩
  · simp [Unary.lts, Waits.step, hin]
  · simp [Waits.report, hstage, hf]
  · rw [hcalled l ls hp, hsched]
  · simp [Waits.report, hcall, hm.resumer]
  · simp [Waits.report, hcall]
  · simp [Waits.report, hcall]
  · simp [hway']
  · simp [Waits.report, hway', hin]
  · simp [Waits.report, hway', hm.calling, hway]
  · simp [Waits.report, hway', hm.resumed, hway]

/-- The resumer is called, of a coroutine that waits or is about to. -/
theorem Matches.fire (hm : Matches u o w) {m : Rendezvous Unit} (hway : o.way = .calling)
    (hway' : way { o with meet := m } = .over) (hcall : m.call = o.meet.call) (hr : o.meet.call.resumer = some ())
    (hplace : o.place = .running [.coYield] ∨ o.place = .suspended []) (hnot : o.meet.scheduled = false)
    (hsched : m.scheduled = true) : ∃ bs w', Unary.lts.Run w bs w' ∧ Matches u { o with meet := m } w' := by
  obtain ⟨called, hf, hcalled⟩ := hm.frame
  obtain ⟨hin, hcl, hov⟩ : w.inFlight = [] ∧ w.calling = [point u] ∧ w.resumed = [] := by
    rw [hm.inFlight, hm.calling, hm.resumed, hway]
    simp
  have hres : (w.ctx ()).resumer = some (point u) := by simp [hm.resumer, hr]
  obtain ⟨called', hfire, hcalled'⟩ : ∃ called', w.fire (fun _ => ()) (fun _ => ()) (point u) =
      { w with
        frame := Function.update w.frame () (some ⟨point u, stage { o with meet := m }, called'⟩)
        calling := []
        resumed := [(point u, some (point u))] } ∧ ∀ l ls, o.place = .running (l :: ls) → called' = true := by
    rcases hplace with hp | hp
    · -- not yet suspended: it will not be
      exact ⟨true, by simp [Waits.fire, Waits.wake, hres, hf, hcl, hov, stage, hp], fun _ _ _ => rfl⟩
    · refine ⟨called, by simp [Waits.fire, Waits.wake, Waits.setStage, hres, hf, hcl, hov, stage, hp, hnot, hsched], ?_⟩
      intro l ls h
      rw [hp] at h
      cases h
  refine ⟨[.fire (point u)], w.fire (fun _ => ()) (fun _ => ()) (point u), .single ?_, ?_⟩
  · simp [Unary.lts, Waits.step, hcl]
  · rw [hfire]
    refine ⟨⟨called', by simp, fun l ls hp => (hcalled' l ls hp).trans hsched.symm⟩, ?_, ?_, ?_, ?_, ?_, ?_, ?_⟩
    · rw [hcall]
      exact hm.resumer
    · rw [hcall]
      exact hm.done
    · rw [hcall]
      exact hm.success
    · simp [hway']
    · simp [hway', hin]
    · simp [hway']
    · simp [hway']

theorem Placed.lines {l : Line} {ls : List Line} {p : RpcStage Q} {m : Rendezvous Unit}
    (hp : Placed u out (.running (l :: ls)) p m) : (l = .lockContext ∧ ls = [.async, .coYield] ∧ p = .unstarted) ∨
      (l = .async ∧ ls = [.coYield] ∧ p = .unstarted) ∨ (l = .coYield ∧ ls = []) := by
  cases hp <;> simp

theorem Placed.suspended_nil {ls : List Line} {p : RpcStage Q} {m : Rendezvous Unit}
    (hp : Placed u out (.suspended ls) p m) : ls = [] := by
  cases hp
  rfl

variable [Inhabited R]

theorem begin_matches (hu : u.kind ≠ .timeToAlive) : Matches u (begin u) u.kind.begin := by
  have hlines := Unary.lines_of_ne hu
  refine ⟨⟨false, ?_, fun _ _ _ => rfl⟩, rfl, rfl, (fun h => by cases h), (fun h => by cases h), rfl, rfl, rfl⟩
  simp [stage, begin, Unary.begin, Unary.first, hlines, point, Waits.enter]

/-- Until the coroutine is scheduled it waits, or is about to. -/
theorem Kept.waiting (hs : Kept u out o) (hback : o.rpc = .calledBack) (hnot : o.meet.scheduled = false) :
    (o.place = .running [.coYield] ∨ o.place = .suspended []) ∧ o.meet.locking = .returned false := by
  have hp := hs.placed
  rw [hback] at hp
  generalize o.place = pl at hp
  cases hp with
  | yielding hl => exact ⟨.inl rfl, hl⟩
  | suspended hl => exact ⟨.inr rfl, hl⟩
  | woken _ hsched | returned _ hsched =>
    rw [hnot] at hsched
    cases hsched

/-- **A step of the operation** is one of `Resume`, or none. -/
theorem step_matches (hs : Kept u out o) (hm : Matches u o w) (h : (lts u out).step o a o') :
    ∃ bs w', Unary.lts.Run w bs w' ∧ Matches u o' w' := by
  obtain ⟨called, hf, hcalled⟩ := hm.frame
  have hplaced := hs.placed
  cases lts_stepped h with
  | @locked ls m hp hst =>
    rw [hp] at hplaced
    obtain ⟨-, rfl, hrpc⟩ | ⟨hl, -⟩ | ⟨hl, -⟩ := hplaced.lines
    · cases Rendezvous.step_stepped hst with
      | acquired hl =>
        exact hm.stutter (by simp [stage, hp, Locking.over]) rfl ⟨rfl, rfl, fun _ => rfl⟩ fun _ _ _ => ⟨rfl, _, _, hp⟩
      | installed hl => exact hm.lock hp hrpc (hs.meet.ordered.install.2 (.inr hl)) rfl rfl
      | released hl =>
        exact hm.stutter (by simp [stage, hp, Locking.over]) rfl ⟨rfl, rfl, fun _ => rfl⟩ fun _ _ _ => ⟨rfl, _, _, hp⟩
      | loaded hl =>
        have hsome : o.meet.call.resumer ≠ none := by simp [hs.meet.ordered.install, hl]
        exact hm.stutter (by simp [stage, hp, Locking.over, hsome]) rfl ⟨rfl, rfl, fun _ => rfl⟩
          fun _ _ _ => ⟨rfl, _, _, hp⟩
    · cases hl
    · cases hl
  | @started ls hp =>
    rw [hp] at hplaced
    obtain ⟨hl, -⟩ | ⟨-, rfl, hrpc⟩ | ⟨hl, -⟩ := hplaced.lines
    · cases hl
    · exact hm.start hp hrpc (hs.called.before (by simp [hrpc])).2
    · cases hl
  | @yielded ls hp =>
    rw [hp] at hplaced
    obtain ⟨hl, -⟩ | ⟨hl, -⟩ | ⟨-, rfl⟩ := hplaced.lines
    · cases hl
    · cases hl
    · exact hm.yield hp
  | @woken ls hp hsched =>
    rw [hp] at hplaced
    obtain rfl := hplaced.suspended_nil
    exact hm.stutter (by simp [stage, hp, hsched]) rfl ⟨rfl, rfl, fun _ => rfl⟩ fun _ _ h => by cases h
  | returned hp => exact hm.stutter (by simp [stage, hp]) rfl ⟨rfl, rfl, fun _ => rfl⟩ fun _ _ h => by cases h
  | received hr =>
    exact hm.stutter rfl (by simp [way, hr]) ⟨rfl, rfl, fun _ => rfl⟩ fun l ls hp => ⟨rfl, l, ls, hp⟩
  | calledBack hr hst =>
    obtain ⟨hnil, -⟩ := hs.called.before (by simp [hr])
    cases Rendezvous.step_stepped hst with
    | begun =>
      exact hm.stutter rfl (by simp [way, hr, hnil, wayOf]) ⟨rfl, rfl, fun _ => rfl⟩ fun l ls hp => ⟨rfl, l, ls, hp⟩
  | @resumed m hst =>
    cases Rendezvous.step_stepped hst with
    | @resumed _ c _ hc hr =>
      have hmem : c ∈ o.meet.completions := List.mem_of_getElem? hc
      obtain ⟨hback, hone⟩ := hs.called_once hmem
      have hway : o.way = wayOf c.next := by simp [way, hback, hone]
      have hway' : ∀ n, way { o with meet := o.meet.setNext 0 c n } = wayOf n := by simp [way, hback, hone]
      cases hr with
      | success hn =>
        have hd : o.meet.call.done = false := hm.flying (by rw [hway, hn]; rfl)
        refine hm.stutter rfl ((hway' .storeDone).trans ?_) ⟨rfl, rfl, fun h => ?_⟩ fun l ls hp => ⟨rfl, l, ls, hp⟩
        · rw [hway, hn]
          rfl
        · rw [hd] at h
          cases h
      | done hn => exact hm.report (by rw [hway, hn]; rfl) (hway' .acquire) rfl rfl
      | acquired hn =>
        refine hm.stutter rfl ((hway' .callResumer).trans ?_) ⟨rfl, rfl, fun _ => rfl⟩ fun l ls hp => ⟨rfl, l, ls, hp⟩
        rw [hway, hn]
        rfl
      | called hn =>
        have hnot : o.meet.scheduled = false := by
          by_contra hsched
          have hthrough := hs.through hmem (by simpa using hsched)
          simp [hn, Completing.Through] at hthrough
        obtain ⟨hplace, hl⟩ := hs.waiting hback hnot
        have hres := hs.meet.ordered.resumer_of_returned hl
        exact hm.fire (by rw [hway, hn]; rfl) (hway' .release) rfl hres hplace hnot
          (by simp [Rendezvous.scheduled, hres])
      | released hn =>
        refine hm.stutter rfl ((hway' .returned).trans ?_) ⟨rfl, rfl, fun _ => rfl⟩ fun l ls hp => ⟨rfl, l, ls, hp⟩
        rw [hway, hn]
        rfl

/-- **The operation, lock by lock, refines the one of `Resume`.** -/
theorem refines (hu : u.kind ≠ .timeToAlive) {as : List Act} (h : (lts u out).Run (begin u) as o) :
    ∃ bs w, Unary.lts.Run u.kind.begin bs w ∧ Matches u o w := by
  suffices hsuf : ∃ bs w, Unary.lts.Run u.kind.begin bs w ∧ Kept u out o ∧ Matches u o w by
    obtain ⟨bs, w, hr, -, hm⟩ := hsuf
    exact ⟨bs, w, hr, hm⟩
  refine h.refines (R := fun o w => Kept u out o ∧ Matches u o w) ?_ _ ⟨begin_kept hu, begin_matches hu⟩
  rintro o a o' w ⟨hs, hm⟩ hst
  obtain ⟨bs, w', hr, hm'⟩ := step_matches hs hm hst
  exact ⟨bs, w', hr, step_kept hs hst, hm'⟩

/-- Whoever is suspended, and not scheduled, has a callback to come that has not looked for the resumer. -/
theorem suspended_under_way (hu : u.kind ≠ .timeToAlive) {as : List Act} (h : (lts u out).Run (begin u) as o)
    {ls : List Line} (hp : o.place = .suspended ls) (hnot : o.meet.scheduled = false) :
    o.way = .flying ∨ o.way = .calling := by
  obtain ⟨bs, w, hr, hm⟩ := refines hu h
  have hlocks : Unary.Locks w :=
    hr.invariant (P := Unary.Locks) (fun _ _ _ hs hst => Unary.step_locks hs hst) (Unary.begin_locks hu)
  obtain ⟨called, hf, -⟩ := hm.frame
  have hstage : o.stage = .parked := by simp [stage, hp, hnot]
  rw [hstage] at hf
  rcases hlocks.sound.exact.parked () _ hf rfl with hmem | hmem
  · rw [hm.inFlight] at hmem
    exact .inl (by_contra fun hw => by simp [hw] at hmem)
  · rw [hm.calling] at hmem
    exact .inr (by_contra fun hw => by simp [hw] at hmem)

end

/-- `Put` has yielded before the server has answered. -/
theorem suspended_under_way_put : ∃ o ls, (lts (EtcdClientV3.put ⟨[0x61], [0x62], 0⟩) ⟨{}, {}⟩).Run
    (begin (EtcdClientV3.put ⟨[0x61], [0x62], 0⟩)) (List.replicate 6 .coroutine) o ∧ o.place = .suspended ls ∧
      (o.way = .flying ∨ o.way = .calling) := by
  obtain ⟨o, hr, hp, hs⟩ : ∃ o, (lts (EtcdClientV3.put ⟨[0x61], [0x62], 0⟩) ⟨{}, {}⟩).Run
      (begin (EtcdClientV3.put ⟨[0x61], [0x62], 0⟩)) (List.replicate 6 .coroutine) o ∧ o.place = .suspended [] ∧
        o.meet.scheduled = false :=
    Lts.exists_run_of_exec_imp (P := fun o : Operation PutRequest PutResponse Int => o.place = .suspended [] ∧
      o.meet.scheduled = false) (fun _ _ _ h => h) (by decide) fun _ _ h => h
  exact ⟨o, [], hr, hp, suspended_under_way (by decide) hr hp hs⟩

end LtApp.Etcd.Operation
