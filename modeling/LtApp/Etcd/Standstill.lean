import LtApp.Etcd.Verdict

/-!
# Where a keepalive comes to rest

A keepalive goes round: a write, a read, the delay. It stops on account of a failed write or of `StartWritesDone` alone
(`Beating`); then `OnDone` comes, and `Wait` is not left waiting (`stuck_over`). After `Cancel` there are 16 steps left
at most, of gRPC, the loop, `ResumeContext` and `Wait` together (`Beating.left_le`).

| here | there |
| --- | --- |
| `left` | the longest way from each place to the end, which is by a failed read (`keepalive_ctx.cc:61`) |
| `Beating` | what `OnWriteDone`, `OnReadDone` and the closure hand on to one another (`:56`, `:70`, `:74`) |
-/

namespace LtApp.Etcd

def Resuming.left : Resuming → Nat
  | .storeSuccess _ => 4
  | .storeDone => 3
  | .callResumer => 2
  | .rest => 1

def Waiting.left : Waiting → Nat
  | .uncalled => 3
  | .installed => 2
  | .yielding => 1
  | .yielded | .resumed | .returned => 0

namespace KeepAliveContext

/-- What the callback starts after its `ResumeContext` on a cancelled context: `OnReadDone` goes on. -/
def Op.sequel : Op → Nat
  | .readDone _ => 1
  | .writeDone _ | .writesDoneDone _ | .done _ | .delayed | .cancel => 0

/-- The most steps that are left to a cancelled stream. -/
def left (c : KeepAliveContext) : Nat :=
  8 * c.delayed + 7 * c.writing + 6 * c.reading + c.closing + if c.live then 5 else 0

section
variable {c : KeepAliveContext} {op : Op} {ok : Bool}

theorem step_canceled (hop : op ≠ .cancel) : (step c op).call.canceled = c.call.canceled := by
  cases op with
  | cancel => exact absurd rfl hop
  | writeDone ok => cases ok <;> rfl
  | readDone ok =>
    simp only [step, onReadDone]
    split <;> simp
  | writesDoneDone | done | delayed => rfl

/-- A step without `ResumeContext`. -/
theorem step_left (hcan : c.call.canceled = true) (hr : op.resumes = none) (hop : op ≠ .cancel)
    (he : c.enabled op = true) : (step c op).left < c.left := by
  cases op with
  | cancel => exact absurd rfl hop
  | done ok => cases hr
  | writeDone ok =>
    cases ok with
    | false => cases hr
    | true =>
      have hw : 0 < c.writing := by simpa [enabled] using he
      simp only [step, onWriteDone, if_true, left, startRead_delayed, startRead_writing, startRead_reading,
        startRead_closing, startRead_live, writeReported_delayed, writeReported_writing, writeReported_reading,
        writeReported_closing, writeReported_live]
      omega
  | readDone ok =>
    cases ok with
    | false => cases hr
    | true =>
      have hrd : 0 < c.reading := by simpa [enabled] using he
      have hstep : step c (.readDone true) = startWritesDone (readReported true c) := by
        simp [step, onReadDone, readNoted, hcan]
      simp only [hstep, left, startWritesDone_delayed, startWritesDone_writing, startWritesDone_reading,
        startWritesDone_closing, startWritesDone_live, readReported_delayed, readReported_writing,
        readReported_reading, readReported_closing, readReported_live]
      omega
  | writesDoneDone ok =>
    have hc : 0 < c.closing := by simpa [enabled] using he
    simp only [step, left, onWritesDoneDone_delayed, onWritesDoneDone_writing, onWritesDoneDone_reading,
      onWritesDoneDone_closing, onWritesDoneDone_live]
    omega
  | delayed =>
    have hd : 0 < c.delayed := by simpa [enabled] using he
    simp only [step, left, onDelayed_delayed, onDelayed_writing, onDelayed_reading, onDelayed_closing, onDelayed_live]
    omega

/-- A callback that calls `ResumeContext` has four steps before it, and what it starts. -/
theorem before_left (hr : op.resumes = some ok) (he : c.enabled op = true) :
    (before c op).left + (4 + op.sequel) < c.left := by
  cases op with
  | writesDoneDone | delayed | cancel => cases hr
  | done b =>
    have hl : c.live = true := by
      simp only [enabled, Bool.and_eq_true] at he
      exact he.1
    simp only [before, left, Op.sequel, hl, Bool.false_eq_true, if_false, if_true]
    omega
  | readDone b =>
    have hrd : 0 < c.reading := by simpa [enabled] using he
    simp only [before, left, Op.sequel, readReported_delayed, readReported_writing, readReported_reading,
      readReported_closing, readReported_live]
    omega
  | writeDone b =>
    have hw : 0 < c.writing := by simpa [enabled] using he
    simp only [before, left, Op.sequel, writeReported_delayed, writeReported_writing, writeReported_reading,
      writeReported_closing, writeReported_live]
    omega

theorem rest_left (hcan : c.call.canceled = true) : (rest c op).left = c.left + op.sequel := by
  cases op with
  | readDone b =>
    simp only [rest, hcan, if_true, left, Op.sequel, startWritesDone_delayed, startWritesDone_writing,
      startWritesDone_reading, startWritesDone_closing, startWritesDone_live]
    omega
  | _ => rfl

end
end KeepAliveContext

namespace Awaited

def callbackLeft (s : Awaited) : Nat := s.callback.elim 0 fun p => p.2.left + p.1.sequel

def left (s : Awaited) : Nat := s.ctx.left + s.callbackLeft + s.wait.left

/-- Nobody calls `Cancel`. -/
def quietLts : Lts Awaited Act := lts.restrict fun _ a => a ≠ .stream .cancel

section
variable {s t : Awaited} {a : Act}

/-! ## After `Cancel` -/

/-- **Every step brings a cancelled keepalive nearer to its end.** -/
theorem step_left (hcan : s.ctx.call.canceled = true) (ha : a ≠ .stream .cancel) (h : lts.step s a t) :
    t.left < s.left ∧ t.ctx.call.canceled = true := by
  cases lts_stepped h with
  | @plain op hr he =>
    have hop : op ≠ .cancel := fun hop => ha (by rw [hop])
    have hlt := KeepAliveContext.step_left hcan hr hop he
    refine ⟨?_, (KeepAliveContext.step_canceled hop).trans hcan⟩
    show (s.ctx.step op).left + s.callbackLeft + s.wait.left < s.left
    simp only [left]
    omega
  | @begun op ok hr hcb he =>
    have hlt := KeepAliveContext.before_left hr he
    refine ⟨?_, by simpa using hcan⟩
    simp only [left, callbackLeft, hcb, Option.elim_some, Option.elim_none, Resuming.left]
    omega
  | success hcb =>
    refine ⟨?_, hcan⟩
    show s.ctx.left + _ + s.wait.left < s.left
    simp [left, callbackLeft, hcb, Resuming.left]
  | done hcb =>
    refine ⟨?_, hcan⟩
    show s.ctx.left + _ + s.wait.left < s.left
    simp [left, callbackLeft, hcb, Resuming.left]
  | called hcb hr =>
    have hw : (if s.wait = .yielded then Waiting.resumed else s.wait).left = s.wait.left := by
      by_cases hy : s.wait = .yielded
      · simp [hy, Waiting.left]
      · simp [hy]
    refine ⟨?_, hcan⟩
    simp only [left, callResumer_ctx, callResumer_wait, hw]
    simp [callbackLeft, hcb, Resuming.left]
  | unheard hcb hr =>
    refine ⟨?_, hcan⟩
    simp [left, callbackLeft, hcb, Resuming.left]
  | @rest op hcb =>
    have hrest : (s.ctx.rest op).left = s.ctx.left + op.sequel := KeepAliveContext.rest_left hcan
    refine ⟨?_, by simpa using hcan⟩
    simp only [left, callbackLeft, hcb, Option.elim_some, Option.elim_none, Resuming.left, hrest]
    omega
  | install hw =>
    refine ⟨?_, hcan⟩
    show s.ctx.left + s.callbackLeft + 2 < s.left
    simp [left, hw, Waiting.left]
  | returned hw | yielding hw | resumedAtOnce hw | yielded hw =>
    exact ⟨by simp [left, callbackLeft, hw, Waiting.left], hcan⟩

/-! ## What goes round -/

/-- The callback that is inside `ResumeContext`. -/
def under (s : Awaited) : Option KeepAliveContext.Op := s.callback.map (·.1)

/-- It has a write or a read to go on from. -/
def carries : Option KeepAliveContext.Op → Nat
  | none | some (.done _) => 0
  | some _ => 1

/-- The stream has been half-closed, or a write has failed. -/
def Stopped (s : Awaited) : Prop := .startWritesDone ∈ s.ctx.log ∨ .writeDone false ∈ s.ctx.log

/-- One thing goes round at a time, and it is there until the stream is stopped. -/
structure Beating (s : Awaited) : Prop where
  single : s.ctx.delayed + s.ctx.writing + s.ctx.reading + s.ctx.closing + carries s.under ≤ 1
  ended  : ∀ ok, s.under = some (.done ok) → s.ctx.live = false
  beats  : 0 < s.ctx.delayed + s.ctx.writing + s.ctx.reading ∨ (∃ ok, s.under = some (.readDone ok)) ∨ s.Stopped

theorem started_beating (lease interval : Int) : Beating (started lease interval) :=
  ⟨by simp [started, under, carries], nofun, .inl (by simp [started])⟩

/-- A step of `ResumeContext`, or of `Wait`. -/
theorem Beating.congr (hs : Beating s) (hctx : { t.ctx with call := s.ctx.call } = s.ctx) (hu : t.under = s.under) :
    Beating t := by
  have hd : t.ctx.delayed = s.ctx.delayed := congrArg (·.delayed) hctx
  have hw : t.ctx.writing = s.ctx.writing := congrArg (·.writing) hctx
  have hr : t.ctx.reading = s.ctx.reading := congrArg (·.reading) hctx
  have hc : t.ctx.closing = s.ctx.closing := congrArg (·.closing) hctx
  have hl : t.ctx.live = s.ctx.live := congrArg (·.live) hctx
  have hlog : t.ctx.log = s.ctx.log := congrArg (·.log) hctx
  constructor
  case single =>
    rw [hd, hw, hr, hc, hu]
    exact hs.single
  case ended =>
    rw [hu, hl]
    exact hs.ended
  case beats =>
    rw [hd, hw, hr, hu, Stopped, hlog]
    exact hs.beats

/-- What the stream does without `ResumeContext`. -/
theorem Beating.plain {op : KeepAliveContext.Op} {c : KeepAliveContext} (hs : Beating s) (hr : op.resumes = none)
    (h : KeepAliveContext.lts.step s.ctx op c) : Beating { s with ctx := c } := by
  have hsingle := hs.single
  cases KeepAliveContext.lts_stepped h with
  | writeFailed | done => cases hr
  | written hw =>
    refine ⟨?_, hs.ended, .inl ?_⟩
    · show s.ctx.delayed + (s.ctx.writing - 1) + (s.ctx.reading + 1) + s.ctx.closing + carries s.under ≤ 1
      omega
    · show 0 < s.ctx.delayed + (s.ctx.writing - 1) + (s.ctx.reading + 1)
      omega
  | @halfClosed ok hrd =>
    cases ok with
    | false => cases hr
    | true =>
      refine ⟨?_, hs.ended, .inr (.inr (.inl (List.mem_cons_self)))⟩
      show s.ctx.delayed + s.ctx.writing + (s.ctx.reading - 1) + (s.ctx.closing + 1) + carries s.under ≤ 1
      omega
  | @posted ok hrd =>
    cases ok with
    | false => cases hr
    | true =>
      refine ⟨?_, hs.ended, .inl ?_⟩
      · show s.ctx.delayed + 1 + s.ctx.writing + (s.ctx.reading - 1) + s.ctx.closing + carries s.under ≤ 1
        omega
      · show 0 < s.ctx.delayed + 1 + s.ctx.writing + (s.ctx.reading - 1)
        omega
  | writesDoneDone hc =>
    refine ⟨?_, hs.ended, ?_⟩
    · show s.ctx.delayed + s.ctx.writing + s.ctx.reading + (s.ctx.closing - 1) + carries s.under ≤ 1
      omega
    · exact hs.beats.imp_right (Or.imp_right (Or.imp (List.mem_cons_of_mem _) (List.mem_cons_of_mem _)))
  | delayed hd =>
    refine ⟨?_, hs.ended, .inl ?_⟩
    · show s.ctx.delayed - 1 + (s.ctx.writing + 1) + s.ctx.reading + s.ctx.closing + carries s.under ≤ 1
      omega
    · show 0 < s.ctx.delayed - 1 + (s.ctx.writing + 1) + s.ctx.reading
      omega
  | cancel => exact hs.congr rfl rfl

/-- A callback comes to its `ResumeContext`. -/
theorem Beating.begun {op : KeepAliveContext.Op} {ok : Bool} (hs : Beating s) (hr : op.resumes = some ok)
    (hcb : s.callback = none) (he : s.ctx.enabled op = true) :
    Beating { s with ctx := s.ctx.before op, callback := some (op, .storeSuccess ok) } := by
  have hu : s.under = none := by simp [under, hcb]
  have hsingle := hs.single
  simp only [hu, carries] at hsingle
  cases op with
  | writesDoneDone | delayed | cancel => cases hr
  | done b =>
    refine ⟨?_, fun _ _ => rfl, ?_⟩
    · show s.ctx.delayed + s.ctx.writing + s.ctx.reading + s.ctx.closing + 0 ≤ 1
      omega
    · simpa [Stopped, under, hcb, KeepAliveContext.before] using hs.beats
  | readDone b =>
    have hrd : 0 < s.ctx.reading := by simpa [KeepAliveContext.enabled] using he
    refine ⟨?_, by simp [under], .inr (.inl ⟨b, rfl⟩)⟩
    show s.ctx.delayed + s.ctx.writing + (s.ctx.reading - 1) + s.ctx.closing + 1 ≤ 1
    omega
  | writeDone b =>
    have hw : 0 < s.ctx.writing := by simpa [KeepAliveContext.enabled] using he
    cases b with
    | true => cases hr
    | false =>
      refine ⟨?_, by simp [under], .inr (.inr (.inr List.mem_cons_self))⟩
      show s.ctx.delayed + (s.ctx.writing - 1) + s.ctx.reading + s.ctx.closing + 1 ≤ 1
      omega

/-- It goes on after it. -/
theorem Beating.rest {op : KeepAliveContext.Op} (hs : Beating s) (hcb : s.callback = some (op, .rest)) :
    Beating { s with ctx := s.ctx.rest op, callback := none } := by
  have hu : s.under = some op := by simp [under, hcb]
  have hsingle := hs.single
  cases op with
  | readDone b =>
    simp only [hu, carries] at hsingle
    cases hcan : s.ctx.call.canceled with
    | true =>
      have hrest : s.ctx.rest (.readDone b) = s.ctx.startWritesDone := by simp [KeepAliveContext.rest, hcan]
      rw [hrest]
      refine ⟨?_, by simp [under], .inr (.inr (.inl List.mem_cons_self))⟩
      show s.ctx.delayed + s.ctx.writing + s.ctx.reading + (s.ctx.closing + 1) + 0 ≤ 1
      omega
    | false =>
      have hrest : s.ctx.rest (.readDone b) = s.ctx.postDelayTask := by simp [KeepAliveContext.rest, hcan]
      rw [hrest]
      refine ⟨?_, by simp [under], .inl ?_⟩
      · show s.ctx.delayed + 1 + s.ctx.writing + s.ctx.reading + s.ctx.closing + 0 ≤ 1
        omega
      · show 0 < s.ctx.delayed + 1 + s.ctx.writing + s.ctx.reading
        omega
  | writeDone | writesDoneDone | done | delayed | cancel =>
    have hbeats := hs.beats
    simp only [hu, Option.some.injEq, reduceCtorEq, exists_false, false_or] at hbeats
    refine ⟨?_, by simp [under], hbeats.imp_right .inr⟩
    show s.ctx.delayed + s.ctx.writing + s.ctx.reading + s.ctx.closing + 0 ≤ 1
    omega

theorem step_beating (hs : Beating s) (h : lts.step s a t) : Beating t := by
  cases lts_stepped h with
  | plain hr he => exact hs.plain hr ⟨he, rfl⟩
  | begun hr hcb he => exact hs.begun hr hcb he
  | rest hcb => exact hs.rest hcb
  | success hcb | done hcb | called hcb | unheard hcb => exact hs.congr rfl (by simp [under, hcb])
  | install | returned | yielding | resumedAtOnce | yielded => exact hs.congr rfl rfl

theorem run_beating {lease interval : Int} {as : List Act} (h : lts.Run (started lease interval) as s) : Beating s :=
  h.invariant (P := Beating) (fun _ _ _ hs hst => step_beating hs hst) (started_beating lease interval)

/-- The longest way to the end begins with the delay. -/
theorem Beating.left_le (hs : Beating s) : s.left ≤ 16 := by
  have hsingle := hs.single
  have hwait : s.wait.left ≤ 3 := by cases s.wait <;> decide
  have hresuming : ∀ r : Resuming, r.left ≤ 4 := fun r => by cases r <;> simp [Resuming.left]
  simp only [left, callbackLeft, KeepAliveContext.left]
  cases hcb : s.callback with
  | none =>
    simp only [Option.elim_none]
    split <;> omega
  | some p =>
    obtain ⟨op, r⟩ := p
    have hu : s.under = some op := by simp [under, hcb]
    have hr := hresuming r
    simp only [Option.elim_some]
    cases op with
    | done ok =>
      have hl := hs.ended ok hu
      simp only [hl, Bool.false_eq_true, if_false, KeepAliveContext.Op.sequel]
      omega
    | writeDone | readDone | writesDoneDone | delayed | cancel =>
      simp only [hu, carries] at hsingle
      simp only [KeepAliveContext.Op.sequel]
      split <;> omega

/-! ## Where nothing is left -/

theorem resume_enabled (h : s.callback ≠ none) : ∃ t, lts.step s .resume t := by
  obtain ⟨⟨op, r⟩, hcb⟩ := Option.ne_none_iff_exists'.1 h
  cases r <;> exact ⟨_, by simp only [lts, step, resume, hcb]; rfl⟩

theorem stream_enabled {op : KeepAliveContext.Op} (hcb : s.callback = none) (he : s.ctx.enabled op = true) :
    ∃ t, lts.step s (.stream op) t := by
  have hen : s.ctx.enabled op = true ∧ (op.callback = true → s.callback = none) := ⟨he, fun _ => hcb⟩
  cases hr : op.resumes with
  | none => exact ⟨_, by simp only [lts, step, stream, if_pos hen, hr]; rfl⟩
  | some ok => exact ⟨_, by simp only [lts, step, stream, if_pos hen, hr]; rfl⟩

theorem wait_enabled (h : s.wait = .uncalled ∨ s.wait = .installed ∨ s.wait = .yielding) : ∃ t, lts.step s .wait t := by
  rcases h with hw | hw | hw <;> exact ⟨_, by simp only [lts, step, waitNext, hw]; rfl⟩

/-- A keepalive that nobody does anything with any more is over, and has been stopped. -/
theorem stuck_over (hb : Beating s) (hstuck : quietLts.Stuck s) : Over s ∧ s.ctx.delayed = 0 ∧ s.Stopped := by
  have hnot : ∀ a, a ≠ .stream .cancel → ¬ ∃ t, lts.step s a t := by
    rintro a ha ⟨t, ht⟩
    exact hstuck a t ⟨ht, ha⟩
  have hcb : s.callback = none := by
    by_contra hne
    exact hnot .resume (by simp) (resume_enabled hne)
  have hno : ∀ op, op ≠ .cancel → ¬ s.ctx.enabled op = true := fun op hop he =>
    hnot (.stream op) (by simpa using hop) (stream_enabled hcb he)
  have hd : s.ctx.delayed = 0 := by simpa [KeepAliveContext.enabled] using hno .delayed (by simp)
  have hw : s.ctx.writing = 0 := by simpa [KeepAliveContext.enabled] using hno (.writeDone true) (by simp)
  have hr : s.ctx.reading = 0 := by simpa [KeepAliveContext.enabled] using hno (.readDone true) (by simp)
  have hc : s.ctx.closing = 0 := by simpa [KeepAliveContext.enabled] using hno (.writesDoneDone true) (by simp)
  have hl : s.ctx.live = false := by simpa [KeepAliveContext.enabled, hw, hr, hc] using hno (.done true) (by simp)
  refine ⟨⟨hl, hcb, ?_⟩, hd, ?_⟩
  · have hwait := fun h => hnot .wait (by simp) (wait_enabled h)
    cases hst : s.wait <;> simp_all
  · have hu : s.under = none := by simp [under, hcb]
    rcases hb.beats with hpos | ⟨ok, hread⟩ | hstop
    · omega
    · rw [hu] at hread
      cases hread
    · exact hstop

end

end Awaited
end LtApp.Etcd
