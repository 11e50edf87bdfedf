import LtApp.Etcd.Discipline

/-!
# What a cancelled keepalive still does

`Cancel` sets a flag that `OnReadDone` alone looks at. Whatever is under way when it is set goes on to the next read:
a write and a read at once, a delayed write by one more request. Then `StartWritesDone` takes the place of the next
delay, and there is nothing left that could start anything. All of it rests on `busy`: the write, the read, the delay
and `StartWritesDone` are one token.
-/

namespace LtApp.Etcd

def StreamEv.isWrite : StreamEv → Bool
  | .startWrite _ => true
  | _ => false

/-- Its state: `StartWritesDone` has been issued. -/
def halfClose : Monitor StreamEv Bool :=
  ⟨false, fun b e => b || e = .startWritesDone, fun b e => e.starts = true → b = false⟩

theorem halfClose_after (l : List StreamEv) : halfClose.after l = true ↔ .startWritesDone ∈ l := by
  induction l with
  | nil => simp [Monitor.after, halfClose]
  | cons e l ih =>
    have hcons : halfClose.after (e :: l) = (halfClose.after l || decide (e = .startWritesDone)) := rfl
    rw [hcons, Bool.or_eq_true, ih, decide_eq_true_iff, List.mem_cons, or_comm, eq_comm]

/-- Nothing is started after `StartWritesDone`, not even a second one. -/
theorem halfClose_last {l later earlier : List StreamEv} (h : halfClose.Accepts l)
    (hl : l = later ++ .startWritesDone :: earlier) : ∀ e ∈ later, e.starts = false := by
  intro e he
  obtain ⟨l₁, l₂, rfl⟩ := List.append_of_mem he
  have hallow := h l₁ e (l₂ ++ .startWritesDone :: earlier) (by simp [hl])
  have hclosed : halfClose.after (l₂ ++ .startWritesDone :: earlier) = true := (halfClose_after _).2 (by simp)
  cases hs : e.starts with
  | false => rfl
  | true =>
    have hopen := hallow hs
    rw [hclosed] at hopen
    cases hopen

theorem halfClose_once {l : List StreamEv} (h : halfClose.Accepts l) : l.count .startWritesDone ≤ 1 := by
  induction l with
  | nil => simp
  | cons e l ih =>
    obtain ⟨he, hl⟩ := Monitor.accepts_cons.1 h
    by_cases hs : e = .startWritesDone
    · subst hs
      have hnone : .startWritesDone ∉ l := by
        rw [← halfClose_after, he rfl]
        simp
      simp [List.count_eq_zero.2 hnone]
    · rw [List.count_cons_of_ne hs]
      exact ih hl

theorem halfClose_started {e : StreamEv} {l : List StreamEv} (he : e.starts = true) :
    halfClose.Accepts (e :: l) ↔ .startWritesDone ∉ l ∧ halfClose.Accepts l := by
  rw [Monitor.accepts_cons, ← halfClose_after, Bool.not_eq_true]
  exact and_congr_left' ⟨fun h => h he, fun h _ => h⟩

theorem halfClose_reported {e : StreamEv} {l : List StreamEv} (he : e.starts = false) :
    halfClose.Accepts (e :: l) ↔ halfClose.Accepts l := by
  rw [Monitor.accepts_cons]
  exact ⟨fun h => h.2, fun h => ⟨fun hs => by simp [he] at hs, h⟩⟩

namespace KeepAliveContext

/-- What holds of a stream at any time. -/
structure Tokened (leaseId : Int) (c : KeepAliveContext) : Prop where
  single : c.busy ≤ 1
  leased : c.leaseId = leaseId
  writes : ∀ id, .startWrite id ∈ c.log → id = leaseId
  closes : halfClose.Accepts c.log

section
variable {c c' : KeepAliveContext} {op : Op} {leaseId : Int}

/-- What is in flight or delayed tells that the stream has not been half-closed. -/
theorem not_closed_of_busy (hb : c.busy ≤ 1) (h : 0 < c.writing ∨ 0 < c.reading ∨ 0 < c.delayed) :
    .startWritesDone ∉ c.log := by
  unfold busy at hb
  intro hm
  rw [if_pos hm] at hb
  omega

theorem step_tokened (hc : Tokened leaseId c) (h : lts.step c op c') : Tokened leaseId c' := by
  have hsingle := step_single hc.single h
  have hopen := not_closed_of_busy hc.single
  cases lts_stepped h with
  | written hw =>
    refine ⟨hsingle, hc.leased, by simpa using hc.writes, ?_⟩
    exact (halfClose_started rfl).2 ⟨by simpa using hopen (.inl hw), (halfClose_reported rfl).2 hc.closes⟩
  | writeFailed => exact ⟨hsingle, hc.leased, by simpa using hc.writes, (halfClose_reported rfl).2 hc.closes⟩
  | @halfClosed ok hr =>
    refine ⟨hsingle, ?_, by simpa using hc.writes, ?_⟩
    · cases ok <;> exact hc.leased
    · rw [startWritesDone_log, readNoted_log]
      exact (halfClose_started rfl).2 ⟨by simpa using hopen (.inr (.inl hr)), (halfClose_reported rfl).2 hc.closes⟩
  | @posted ok hr =>
    refine ⟨hsingle, ?_, by simpa using hc.writes, ?_⟩
    · cases ok <;> exact hc.leased
    · rw [postDelayTask_log, readNoted_log]
      exact (halfClose_reported rfl).2 hc.closes
  | writesDoneDone | done => exact ⟨hsingle, hc.leased, by simpa using hc.writes, (halfClose_reported rfl).2 hc.closes⟩
  | delayed hd =>
    refine ⟨hsingle, hc.leased, ?_, (halfClose_started rfl).2 ⟨hopen (.inr (.inr hd)), hc.closes⟩⟩
    intro id hid
    rcases List.mem_cons.1 hid with hid | hid
    · rw [StreamEv.startWrite.inj hid]
      exact hc.leased
    · exact hc.writes id hid
  | cancel => exact ⟨hsingle, hc.leased, hc.writes, hc.closes⟩

theorem start_tokened (leaseId interval : Int) : Tokened leaseId (start leaseId interval {}) :=
  ⟨(start_calm leaseId interval).single, rfl, by simp, (halfClose_started rfl).2 ⟨by simp, Monitor.accepts_nil⟩⟩

/-! ## Before `Cancel`, and after it -/

/-- The flag is set by `Cancel`, and the stream half-closed because of the flag. -/
structure Uncancelled (c : KeepAliveContext) : Prop where
  flag   : c.call.canceled = false
  closes : .startWritesDone ∉ c.log

theorem step_uncancelled (hc : Uncancelled c) (h : lts.step c op c') (hop : op ≠ .cancel) : Uncancelled c' := by
  cases lts_stepped h with
  | halfClosed hr hcan =>
    rw [hc.flag] at hcan
    cases hcan
  | posted hr hcan => exact ⟨by simpa using hcan, by simpa using hc.closes⟩
  | cancel => exact absurd rfl hop
  | _ => exact ⟨hc.flag, by simpa using hc.closes⟩

/-- Of a canceled stream the writes still to come are those delayed. -/
structure Cancelled (n : Nat) (c : KeepAliveContext) : Prop where
  flag   : c.call.canceled = true
  writes : c.log.countP StreamEv.isWrite + c.delayed ≤ n

theorem step_cancelled {n : Nat} (hc : Cancelled n c) (h : lts.step c op c') : Cancelled n c' := by
  have hn := hc.writes
  cases lts_stepped h with
  | halfClosed hr hcan => exact ⟨by simpa using hcan, by simpa [StreamEv.isWrite] using hn⟩
  | posted hr hcan =>
    -- the flag is set
    rw [hc.flag] at hcan
    cases hcan
  | delayed hd =>
    refine ⟨hc.flag, ?_⟩
    simp only [onDelayed_log, onDelayed_delayed, List.countP_cons, StreamEv.isWrite, if_true]
    omega
  | cancel => exact ⟨rfl, hn⟩
  | _ => exact ⟨hc.flag, by simpa [StreamEv.isWrite] using hn⟩

end

/-! ## Runs -/

theorem lts_unique (c : KeepAliveContext) (op : Op) (d d' : KeepAliveContext) (h : lts.step c op d)
    (h' : lts.step c op d') : d = d' := h.2.symm.trans h'.2

/-- Without `Cancel`, no `StartWritesDone`. -/
theorem run_uncancelled {leaseId interval : Int} {ops : List Op} {c : KeepAliveContext}
    (h : lts.Run (start leaseId interval {}) ops c) (hops : .cancel ∉ ops) : Uncancelled c := by
  have hgo : (lts.restrict fun _ op => op ≠ .cancel).Run (start leaseId interval {}) ops c :=
    h.restrict_forall (P := fun op => op ≠ .cancel) fun op hop he => hops (he ▸ hop)
  exact hgo.invariant_restrict (fun _ _ _ hc hg hs => step_uncancelled hc hs hg) ⟨rfl, by simp⟩

/-- **A cancelled keepalive comes to its end.** Every request carries the lease of `Start`; `StartWritesDone` is issued
once at most, only after `Cancel`, and nothing is started after it; and after a `Cancel`, whenever it comes, at most
one more request is written. -/
theorem cancel_bounded (leaseId interval : Int) (ops : List Op) (c : KeepAliveContext)
    (h : lts.Run (start leaseId interval {}) ops c) :
    (∀ id, .startWrite id ∈ c.log → id = leaseId) ∧ c.log.count .startWritesDone ≤ 1 ∧
      (∀ later earlier, c.log = later ++ .startWritesDone :: earlier → ∀ e ∈ later, e.starts = false) ∧
      (.cancel ∉ ops → .startWritesDone ∉ c.log) ∧
      ∀ before after c₀, ops = before ++ .cancel :: after → lts.Run (start leaseId interval {}) before c₀ →
        c.log.countP StreamEv.isWrite ≤ c₀.log.countP StreamEv.isWrite + 1 := by
  have hkept : ∀ {ops c}, lts.Run (start leaseId interval {}) ops c → Tokened leaseId c := fun h =>
    h.invariant (P := Tokened leaseId) (fun _ _ _ hc hs => step_tokened hc hs) (start_tokened leaseId interval)
  have hc := hkept h
  refine ⟨hc.writes, halfClose_once hc.closes, fun _ _ hl => halfClose_last hc.closes hl,
    fun hops => (run_uncancelled h hops).closes, ?_⟩
  rintro before after c₀ rfl h₀
  obtain ⟨c₁, hbefore, hafter⟩ := h.split
  obtain rfl := h₀.unique lts_unique hbefore
  cases hafter with
  | cons hcancel hafter =>
    have hone : c₀.delayed ≤ 1 := by
      have hb := (hkept h₀).single
      unfold busy at hb
      omega
    obtain rfl := hcancel.2
    have hstart : Cancelled (c₀.log.countP StreamEv.isWrite + 1) (cancel c₀) :=
      ⟨rfl, Nat.add_le_add_left hone _⟩
    have hend := hafter.invariant (P := Cancelled _) (fun _ _ _ hc hs => step_cancelled hc hs) hstart
    exact Nat.le_trans (Nat.le_add_right _ _) hend.writes

/-- Cancelled during the delay: one more request, and the end. -/
theorem cancel_bounded_run : ∃ c, lts.Run (start 7 1000 {})
    [.writeDone true, .readDone true, .cancel, .delayed, .writeDone true, .readDone true, .writesDoneDone true, .done true] c ∧
    c.log.countP StreamEv.isWrite = 2 ∧ (∀ id, .startWrite id ∈ c.log → id = 7) ∧
      c.log.count .startWritesDone ≤ 1 := by
  refine Lts.exists_run_of_exec_imp (P := fun c : KeepAliveContext => c.log.countP StreamEv.isWrite = 2) tryStep_step
    (by decide) fun c hr hw => ?_
  have hall := cancel_bounded 7 1000 _ c hr
  exact ⟨hw, hall.1, hall.2.1⟩

end KeepAliveContext
end LtApp.Etcd
