import LtApp.Etcd.Verdict

/-!
# One verdict, and one call of the resumer

`ResumeContext` neither clears `resumer_` nor looks at `done_`, so that it is up to gRPC and to the caller of `Wait` that
the verdict is final and the resumer called once. What it takes is `Act.Orderly`, which is about the order and the verdicts
of the callbacks and the moment at which `Wait` is called.

| here | there |
| --- | --- |
| `told` | what `OnDone` and the failed `OnReadDone`, `OnWriteDone` have passed on (`keepalive_ctx.cc:53`, `:61`, `:78`) |
| `settled` | of these, what those have brought that have stored `done_` (`call_context.cc:10`) |
| `Doomed` | the callback under way will change the verdict, or call a resumer that is not to be called |

An orderly step is safe (`step_orderly`), one that is not dooms the callback (`step_doomed`), and that lasts until the
verdict is not final or the resumer called wrongly (`doomed_step`).
-/

namespace LtApp.Etcd

/-- `done_` is yet to be stored. -/
def Resuming.early : Resuming → Bool
  | .storeSuccess _ | .storeDone => true
  | .callResumer | .rest => false

/-- What the callback brings that has been reported, if it calls `ResumeContext`. -/
def StreamEv.verdict : StreamEv → Option Bool
  | .done ok => some ok
  | .readDone false | .writeDone false => some false
  | .readDone true | .writeDone true | .writesDoneDone _ | .startWrite _ | .startRead | .startWritesDone => none

namespace Awaited

/-! ## What is asked of a run, and what it takes -/

/-- The resumer of `Wait` is called once at most, and only if `Wait` yields; and `Success()` is what it was when `Done()`
became true. -/
structure Final (s : Awaited) : Prop where
  once    : s.calls ≤ 1
  yields  : 0 < s.calls → s.wait.yields = true
  verdict : ∀ v, s.verdict = some v → s.ctx.call.success = v

/-- What the callbacks that call `ResumeContext` have brought so far, the last one first. -/
def told (s : Awaited) : List Bool := s.ctx.log.filterMap StreamEv.verdict

/-- The callbacks bring one verdict, and `Wait` keeps clear of them: once it has been called none follows on the first;
it is not called during one, unless the first is yet to store `done_`; and that does not come between the two steps of
`LockContext`. -/
def Act.Orderly (s : Awaited) : Act → Prop
  | .stream op => ∀ ok ∈ op.resumes, ∀ v ∈ s.told, v = ok ∧ s.wait = .uncalled
  | .wait => s.wait = .uncalled → ∀ r ∈ s.callback.map (·.2), r = .rest ∨ (s.told.length = 1 ∧ r ≠ .callResumer)
  | .resume => s.callback.map (·.2) = some .storeDone → s.wait ≠ .installed

instance Act.decidableOrderly (s : Awaited) (a : Act) : Decidable (a.Orderly s) := by
  unfold Act.Orderly
  split <;> infer_instance

section
variable {s s' : Awaited} {a : Act}

/-! ## What the callbacks have brought -/

/-- What those have brought that have stored `done_`. -/
def settled (s : Awaited) : List Bool := if s.callback.any fun x => x.2.early then s.told.tail else s.told

/-- What has been brought while the verdict has been final is that verdict. -/
structure Tracked (s : Awaited) : Prop where
  settled  : ∀ v ∈ s.settled, s.verdict = some v
  fresh    : s.settled = [] → s.verdict = none
  storing  : ∀ op ok, s.callback = some (op, .storeSuccess ok) → s.told.head? = some ok
  stored   : ∀ op, s.callback = some (op, .storeDone) → s.told.head? = some s.ctx.call.success
  calling  : ∀ op, s.callback = some (op, .callResumer) → s.ctx.call.done = true
  called   : 0 < s.calls → s.ctx.call.done = true
  returned : s.wait = .returned → s.ctx.call.done = true

theorem told_step {c : KeepAliveContext} {op : KeepAliveContext.Op} (h : op.resumes = none) :
    (KeepAliveContext.step c op).log.filterMap StreamEv.verdict = c.log.filterMap StreamEv.verdict := by
  cases op with
  | done ok => cases h
  | writeDone ok =>
    cases ok with
    | true => rfl
    | false => cases h
  | readDone ok =>
    cases ok with
    | true =>
      simp only [KeepAliveContext.step, KeepAliveContext.onReadDone]
      split <;> rfl
    | false => cases h
  | writesDoneDone | delayed | cancel => rfl

theorem told_before {c : KeepAliveContext} {op : KeepAliveContext.Op} {ok : Bool} (h : op.resumes = some ok) :
    (c.before op).log.filterMap StreamEv.verdict = ok :: c.log.filterMap StreamEv.verdict := by
  cases op with
  | done b =>
    obtain rfl : b = ok := by simpa [KeepAliveContext.Op.resumes] using h
    rfl
  | writeDone b | readDone b =>
    cases b with
    | true => cases h
    | false =>
      obtain rfl : false = ok := by simpa [KeepAliveContext.Op.resumes] using h
      rfl
  | writesDoneDone | delayed | cancel => cases h

theorem told_rest (c : KeepAliveContext) (op : KeepAliveContext.Op) :
    (c.rest op).log.filterMap StreamEv.verdict = c.log.filterMap StreamEv.verdict := by
  cases op with
  | readDone ok =>
    simp only [KeepAliveContext.rest]
    split <;> rfl
  | _ => rfl

theorem started_tracked (lease interval : Int) : Tracked (started lease interval) :=
  ⟨by simp [Awaited.settled, told, started, StreamEv.verdict], fun _ => rfl, nofun, nofun, nofun, nofun, nofun⟩

theorem settled_none (h : s.callback = none) : s.settled = s.told := by simp [settled, h]

theorem step_tracked (hs : Tracked s) (h : lts.step s a s') (hf : Final s') : Tracked s' := by
  cases lts_stepped h with
  | @plain op hr =>
    obtain ⟨hsu, hd, -, -⟩ := KeepAliveContext.step_unresumed (c := s.ctx) hr
    have htold : told { s with ctx := s.ctx.step op } = s.told := told_step hr
    have hset : settled { s with ctx := s.ctx.step op } = s.settled := by simp only [settled, htold]
    exact ⟨by rw [hset]; exact hs.settled, by rw [hset]; exact hs.fresh, by rw [htold]; exact hs.storing,
      by rw [htold, hsu]; exact hs.stored, by rw [hd]; exact hs.calling, by rw [hd]; exact hs.called,
      by rw [hd]; exact hs.returned⟩
  | @begun op ok hr hcb =>
    have htold : told { s with ctx := s.ctx.before op, callback := some (op, .storeSuccess ok) } = ok :: s.told :=
      told_before hr
    have hset : settled { s with ctx := s.ctx.before op, callback := some (op, .storeSuccess ok) } = s.settled := by
      rw [settled_none hcb, settled, htold]
      rfl
    refine ⟨by rw [hset]; exact hs.settled, by rw [hset]; exact hs.fresh, fun op' ok' hop => ?_, nofun, nofun,
      by simpa using hs.called, by simpa using hs.returned⟩
    obtain ⟨-, rfl⟩ : op = op' ∧ ok = ok' := by simpa using hop
    rw [htold]
    rfl
  | @success op ok hcb =>
    have hset : settled (storeSuccess ok { s with callback := some (op, .storeDone) }) = s.settled := by
      simp [settled, hcb, told, Resuming.early]
    refine ⟨by rw [hset]; exact hs.settled, by rw [hset]; exact hs.fresh, nofun, fun _ _ => ?_, nofun, hs.called,
      hs.returned⟩
    exact hs.storing op ok hcb
  | @done op hcb =>
    obtain ⟨l, hl⟩ : ∃ l, s.told = s.ctx.call.success :: l := by
      have hhead := hs.stored op hcb
      cases ht : s.told with
      | nil => simp [ht] at hhead
      | cons v l => exact ⟨l, by simpa [ht] using hhead⟩
    have hold : s.settled = l := by simp [settled, hcb, Resuming.early, hl]
    have hset : settled (storeDone { s with callback := some (op, .callResumer) }) = s.ctx.call.success :: l := hl
    refine ⟨fun v hv => ?_, fun hn => ?_, nofun, nofun, fun _ _ => rfl, fun _ => rfl, fun _ => rfl⟩
    · rw [hset] at hv
      show s.verdict.or (some s.ctx.call.success) = some v
      cases hver : s.verdict with
      | none =>
        rcases List.mem_cons.1 hv with rfl | hv
        · rfl
        · rw [hs.settled v (hold ▸ hv)] at hver
          cases hver
      | some u =>
        have hsu : s.ctx.call.success = u := hf.verdict u (by simp [hver])
        rcases List.mem_cons.1 hv with rfl | hv
        · rw [hsu]
          rfl
        · rw [← hver, hs.settled v (hold ▸ hv)]
          rfl
    · rw [hset] at hn
      cases hn
  | @called op r hcb hr =>
    have hset : settled (callResumer { s with callback := some (op, .rest) }) = s.settled := by
      simp [settled, hcb, told, Resuming.early]
    have hd := hs.calling op hcb
    exact ⟨by rw [hset]; exact hs.settled, by rw [hset]; exact hs.fresh, nofun, nofun, nofun, fun _ => hd, fun _ => hd⟩
  | @unheard op hcb hr =>
    have hset : settled { s with callback := some (op, .rest) } = s.settled := by
      simp [settled, hcb, told, Resuming.early]
    exact ⟨by rw [hset]; exact hs.settled, by rw [hset]; exact hs.fresh, nofun, nofun, nofun, hs.called, hs.returned⟩
  | @rest op hcb =>
    have htold : told { s with ctx := s.ctx.rest op, callback := none } = s.told := told_rest s.ctx op
    have hset : settled { s with ctx := s.ctx.rest op, callback := none } = s.settled := by
      rw [settled_none rfl, htold]
      simp [settled, hcb, Resuming.early]
    exact ⟨by rw [hset]; exact hs.settled, by rw [hset]; exact hs.fresh, nofun, nofun, nofun, by simpa using hs.called,
      by simpa using hs.returned⟩
  | install => exact ⟨hs.settled, hs.fresh, hs.storing, hs.stored, hs.calling, hs.called, nofun⟩
  | returned _ hd => exact ⟨hs.settled, hs.fresh, hs.storing, hs.stored, hs.calling, hs.called, fun _ => hd⟩
  | yielding | resumedAtOnce | yielded =>
    exact ⟨hs.settled, hs.fresh, hs.storing, hs.stored, hs.calling, hs.called, nofun⟩

/-! ## One step -/

/-- The callback that is under way will change the verdict, or call a resumer that is not to be called. -/
def Doomed (s : Awaited) : Prop :=
  ∃ op r, s.callback = some (op, r) ∧
    ((∃ ok v, r = .storeSuccess ok ∧ s.verdict = some v ∧ v ≠ ok) ∨
      (r ≠ .rest ∧ s.wait ≠ .uncalled ∧ (0 < s.calls ∨ s.wait.yields = false ∧ s.ctx.call.done = true)))

theorem started_final (lease interval : Int) : Final (started lease interval) := ⟨Nat.zero_le _, nofun, nofun⟩

theorem not_doomed (h : s.callback = none) : ¬ Doomed s := by
  rintro ⟨op, r, hcb, -⟩
  rw [h] at hcb
  cases hcb

theorem Tracked.done_of_settled (ht : Tracked s) (hp : Paired s) (h : s.settled ≠ []) : s.ctx.call.done = true := by
  obtain ⟨v, hv⟩ := List.exists_mem_of_ne_nil _ h
  exact hp.verdict.2 (by simp [ht.settled v hv])

/-- The resumer of a `Wait` that has read `done_` as true is not to be called, nor one that has been. -/
theorem spent (hp : Paired s) (hcb : s.callback = none) (hd : s.ctx.call.done = true) (hw : s.wait ≠ .uncalled) :
    0 < s.calls ∨ s.wait.yields = false ∧ s.ctx.call.done = true := by
  by_cases hc : 0 < s.calls
  · exact .inl hc
  · refine .inr ⟨?_, hd⟩
    have hparked : ¬ (s.wait = .yielding ∨ s.wait = .yielded) := by
      intro hy
      rcases hp.parked hy (by omega) with hn | ⟨op, hop⟩
      · rw [hd] at hn
        cases hn
      · rw [hcb] at hop
        cases hop
    cases hs : s.wait with
    | uncalled => exact absurd hs hw
    | yielding => exact absurd (.inl hs) hparked
    | yielded => exact absurd (.inr hs) hparked
    | resumed => exact absurd (hp.resumed hs) hc
    | installed | returned => rfl

/-- **An orderly step is safe**, and leaves nothing to come. -/
theorem step_orderly (hp : Paired s) (ht : Tracked s) (hf : Final s) (hn : ¬ Doomed s) (ho : a.Orderly s)
    (h : lts.step s a s') : Final s' ∧ ¬ Doomed s' := by
  cases lts_stepped h with
  | plain hr =>
    obtain ⟨hsu, hd, -, -⟩ := KeepAliveContext.step_unresumed (c := s.ctx) hr
    refine ⟨⟨hf.once, hf.yields, by simpa only [hsu] using hf.verdict⟩, fun hn' => hn ?_⟩
    simpa only [Doomed, hd] using hn'
  | @begun op ok hr hcb =>
    refine ⟨⟨hf.once, hf.yields, by simpa using hf.verdict⟩, ?_⟩
    have htold : ∀ v ∈ s.told, v = ok ∧ s.wait = .uncalled := ho ok hr
    -- what has been brought before is the verdict
    have hverdict : ∀ v, s.verdict = some v → v ∈ s.told := by
      intro v hv
      rw [← settled_none hcb]
      obtain ⟨u, hu⟩ : ∃ u, u ∈ s.settled := List.exists_mem_of_ne_nil _ fun hnil => by simp [ht.fresh hnil] at hv
      obtain rfl : u = v := by simpa [hv] using (ht.settled u hu).symm
      exact hu
    rintro ⟨op', r, hop, ⟨ok', v, rfl, hv, hne⟩ | ⟨-, hw, hspent⟩⟩
    · obtain ⟨-, rfl⟩ : op = op' ∧ ok = ok' := by simpa using hop
      exact hne (htold v (hverdict v hv)).1
    · have hdone : s.ctx.call.done = true := by
        rcases hspent with hc | ⟨-, hd⟩
        · exact ht.called hc
        · simpa using hd
      obtain ⟨v, hv⟩ := Option.isSome_iff_exists.1 (hp.verdict.1 hdone)
      exact hw (htold v (hverdict v hv)).2
  | @success op ok hcb =>
    constructor
    · refine ⟨hf.once, hf.yields, fun v hv => ?_⟩
      by_contra hne
      exact hn ⟨op, _, hcb, .inl ⟨ok, v, rfl, hv, Ne.symm hne⟩⟩
    · rintro ⟨op', r, hop, ⟨ok', v, rfl, -⟩ | ⟨-, hw, hspent⟩⟩
      · simp at hop
      · exact hn ⟨op, _, hcb, .inr ⟨nofun, hw, hspent⟩⟩
  | @done op hcb =>
    constructor
    · refine ⟨hf.once, hf.yields, fun v hv => ?_⟩
      cases hs : s.verdict with
      | none =>
        have hv : s.ctx.call.success = v := by simpa [hs] using hv
        exact hv
      | some u =>
        obtain rfl : u = v := by simpa [hs] using hv
        exact hf.verdict u hs
    · rintro ⟨op', r, hop, ⟨ok', v, rfl, -⟩ | ⟨-, hw, hspent⟩⟩
      · simp at hop
      · have hspent' : 0 < s.calls ∨ s.wait.yields = false ∧ s.ctx.call.done = true := by
          refine hspent.imp id fun hy => ⟨hy.1, ?_⟩
          have hy : s.wait.yields = false := hy.1
          cases hs : s.wait with
          | returned => exact ht.returned hs
          | uncalled => exact absurd hs hw
          | installed => exact absurd hs (ho (by simp [hcb]))
          | yielding | yielded | resumed =>
            rw [hs] at hy
            cases hy
        exact hn ⟨op, _, hcb, .inr ⟨nofun, hw, hspent'⟩⟩
  | @called op r hcb hr =>
    have hw : s.wait ≠ .uncalled := fun hw => by simp [hp.resumer.2 hw] at hr
    have hspent : ¬ (0 < s.calls ∨ s.wait.yields = false ∧ s.ctx.call.done = true) := fun hs =>
      hn ⟨op, _, hcb, .inr ⟨nofun, hw, hs⟩⟩
    have hyields : s.wait.yields = true := by
      by_contra hy
      exact hspent (.inr ⟨by simpa using hy, ht.calling op hcb⟩)
    constructor
    · refine ⟨?_, fun _ => ?_, hf.verdict⟩
      · show s.calls + 1 ≤ 1
        omega
      · rw [callResumer_wait]
        split
        · rfl
        · exact hyields
    · rintro ⟨op', r, hop, ⟨ok', v, rfl, -⟩ | ⟨hrest, -⟩⟩
      · simp at hop
      · obtain ⟨-, rfl⟩ : op = op' ∧ .rest = r := by simpa using hop
        exact hrest rfl
  | @unheard op hcb hr =>
    refine ⟨⟨hf.once, hf.yields, hf.verdict⟩, ?_⟩
    rintro ⟨op', r, hop, ⟨ok', v, rfl, -⟩ | ⟨hrest, -⟩⟩
    · simp at hop
    · obtain ⟨-, rfl⟩ : op = op' ∧ .rest = r := by simpa using hop
      exact hrest rfl
  | rest hcb => exact ⟨⟨hf.once, hf.yields, by simpa using hf.verdict⟩, not_doomed rfl⟩
  | install hw =>
    have hc := hp.uncalled (.inl hw)
    refine ⟨⟨hf.once, fun hpos => by simp [hc] at hpos, hf.verdict⟩, ?_⟩
    rintro ⟨op, r, hcb, hver | ⟨hrest, -, hspent⟩⟩
    · exact hn ⟨op, r, hcb, .inl hver⟩
    · have hcb : s.callback = some (op, r) := hcb
      obtain ⟨hlen, hcall⟩ := (ho hw r (by simp [hcb])).resolve_left hrest
      -- the first callback is yet to store `done_`
      have hearly : r.early = true := by cases r <;> simp_all [Resuming.early]
      have hset : s.settled = [] := by
        rw [settled, hcb, Option.any_some, if_pos hearly]
        exact List.eq_nil_of_length_eq_zero (by simp [hlen])
      rcases hspent with hpos | ⟨-, hd⟩
      · exact absurd (show 0 < s.calls from hpos) (by omega)
      · have hsome := hp.verdict.1 hd
        simp [ht.fresh hset] at hsome
  | returned hw hd =>
    refine ⟨⟨hf.once, fun hpos => by simpa [hw, Waiting.yields] using hf.yields hpos, hf.verdict⟩, ?_⟩
    rintro ⟨op, r, hcb, hver | ⟨hrest, -, -⟩⟩
    · exact hn ⟨op, r, hcb, .inl hver⟩
    · exact hn ⟨op, r, hcb, .inr ⟨hrest, by simp [hw], .inr ⟨by simp [hw, Waiting.yields], hd⟩⟩⟩
  | yielding hw _ | resumedAtOnce hw _ | yielded hw _ =>
    refine ⟨⟨hf.once, fun _ => rfl, hf.verdict⟩, ?_⟩
    rintro ⟨op, r, hcb, hver | ⟨hrest, -, hpos | ⟨hy, -⟩⟩⟩
    · exact hn ⟨op, r, hcb, .inl hver⟩
    · exact hn ⟨op, r, hcb, .inr ⟨hrest, by simp [hw], .inl hpos⟩⟩
    · cases hy

structure Safe (s : Awaited) : Prop where
  paired  : Paired s
  tracked : Tracked s
  final   : Final s
  spared  : ¬ Doomed s

theorem started_safe (lease interval : Int) : Safe (started lease interval) :=
  ⟨started_paired lease interval, started_tracked lease interval, started_final lease interval, not_doomed rfl⟩

theorem step_safe (hs : Safe s) (ho : a.Orderly s) (h : lts.step s a s') : Safe s' := by
  obtain ⟨hf, hn⟩ := step_orderly hs.paired hs.tracked hs.final hs.spared ho h
  exact ⟨step_paired hs.paired h, step_tracked hs.tracked h hf, hf, hn⟩

/-- A step that is not orderly dooms the callback under way. -/
theorem step_doomed (hp : Paired s) (ht : Tracked s) (ho : ¬ a.Orderly s) (h : lts.step s a s') : Doomed s' := by
  cases lts_stepped h with
  | plain hr => exact absurd (fun ok hok => by simp [hr] at hok) ho
  | @begun op ok hr hcb =>
    obtain ⟨v, hv, hbad⟩ : ∃ v ∈ s.told, v = ok → s.wait ≠ .uncalled := by
      by_contra hall
      refine ho fun ok' hok v hv => ?_
      obtain rfl := Option.some.inj (hr.symm.trans hok)
      by_contra hne
      exact hall ⟨v, hv, fun he hw => hne ⟨he, hw⟩⟩
    have hver : s.verdict = some v := ht.settled v (by rwa [settled_none hcb])
    refine ⟨op, _, rfl, ?_⟩
    by_cases hne : v = ok
    · have hd : s.ctx.call.done = true := hp.verdict.2 (by simp [hver])
      exact .inr ⟨nofun, hbad hne, by simpa using spent hp hcb hd (hbad hne)⟩
    · exact .inl ⟨ok, v, rfl, hver, hne⟩
  | @done op hcb =>
    have hw : s.wait = .installed := by simpa [Act.Orderly, hcb] using ho
    exact ⟨op, _, rfl, .inr ⟨nofun, by simp [hw], .inr ⟨by simp [hw, Waiting.yields], rfl⟩⟩⟩
  | success hcb | called hcb | unheard hcb | rest hcb => exact absurd (fun hop => by simp [hcb] at hop) ho
  | install hw =>
    obtain ⟨r, ⟨op, hcb⟩, hrest, hlen⟩ : ∃ r, (∃ op, s.callback = some (op, r)) ∧ r ≠ .rest ∧
        (s.told.length = 1 → r = .callResumer) := by
      simpa [Act.Orderly, hw] using ho
    refine ⟨op, r, hcb, .inr ⟨hrest, nofun, .inr ⟨rfl, ?_⟩⟩⟩
    show s.ctx.call.done = true
    -- one that has come before it has stored `done_`
    have hsecond : r.early = true → s.told.head?.isSome = true → r ≠ .callResumer → s.ctx.call.done = true := by
      intro hearly hhead hcall
      refine ht.done_of_settled hp ?_
      rw [settled, hcb, Option.any_some, if_pos hearly]
      cases htold : s.told with
      | nil => simp [htold] at hhead
      | cons v l =>
        rintro rfl
        exact hcall (hlen (by simp [htold]))
    cases r with
    | rest => exact absurd rfl hrest
    | callResumer => exact ht.calling op hcb
    | storeSuccess ok => exact hsecond rfl (by simp [ht.storing op ok hcb]) nofun
    | storeDone => exact hsecond rfl (by simp [ht.stored op hcb]) nofun
  | returned hw | yielding hw | resumedAtOnce hw | yielded hw => exact absurd (fun hun => by simp [hw] at hun) ho

/-- What is doomed stays so until the verdict is not final any more. -/
theorem doomed_step (hp : Paired s) (hn : Doomed s) (h : lts.step s a s') (hf : Final s') : Doomed s' := by
  obtain ⟨op, r, hcb, hdoom⟩ := hn
  cases lts_stepped h with
  | plain hr =>
    have hd := (KeepAliveContext.step_unresumed (c := s.ctx) hr).done
    exact ⟨op, r, hcb, by simpa only [hd] using hdoom⟩
  | begun _ hnone =>
    rw [hnone] at hcb
    cases hcb
  | @success op' ok hop =>
    obtain ⟨rfl, rfl⟩ : op' = op ∧ .storeSuccess ok = r := by simpa [hop] using hcb
    rcases hdoom with ⟨ok', v, hok, hv, hne⟩ | ⟨-, hw, hspent⟩
    · obtain rfl : ok = ok' := by simpa using hok
      exact absurd (hf.verdict v hv).symm hne
    · exact ⟨op', _, rfl, .inr ⟨nofun, hw, hspent⟩⟩
  | @done op' hop =>
    obtain ⟨rfl, rfl⟩ : op' = op ∧ .storeDone = r := by simpa [hop] using hcb
    rcases hdoom with ⟨ok', v, hok, -⟩ | ⟨-, hw, hspent⟩
    · cases hok
    · exact ⟨op', _, rfl, .inr ⟨nofun, hw, hspent.imp id fun hy => ⟨hy.1, rfl⟩⟩⟩
  | @called op' r' hop hr =>
    obtain ⟨rfl, rfl⟩ : op' = op ∧ .callResumer = r := by simpa [hop] using hcb
    rcases hdoom with ⟨ok', v, hok, -⟩ | ⟨-, -, hpos | ⟨hy, -⟩⟩
    · cases hok
    · have honce : s.calls + 1 ≤ 1 := hf.once
      omega
    · have hyields := hf.yields (Nat.succ_pos _)
      rw [callResumer_wait] at hyields
      split at hyields
      · rename_i hw
        rw [show s.wait = .yielded from hw] at hy
        cases hy
      · rw [show s.wait.yields = true from hyields] at hy
        cases hy
  | @unheard op' hop hr =>
    obtain ⟨rfl, rfl⟩ : op' = op ∧ .callResumer = r := by simpa [hop] using hcb
    rcases hdoom with ⟨ok', v, hok, -⟩ | ⟨-, hw, -⟩
    · cases hok
    · exact absurd (hp.resumer.1 hr) hw
  | @rest op' hop =>
    obtain ⟨rfl, rfl⟩ : op' = op ∧ .rest = r := by simpa [hop] using hcb
    rcases hdoom with ⟨ok', v, hok, -⟩ | ⟨hrest, -⟩
    · cases hok
    · exact absurd rfl hrest
  | install hun =>
    rcases hdoom with hver | ⟨-, hw, -⟩
    · exact ⟨op, r, hcb, .inl hver⟩
    · exact absurd hun hw
  | returned hw hd =>
    rcases hdoom with hver | ⟨hrest, -, -⟩
    · exact ⟨op, r, hcb, .inl hver⟩
    · exact ⟨op, r, hcb, .inr ⟨hrest, nofun, .inr ⟨rfl, hd⟩⟩⟩
  | yielding hw hd =>
    rcases hdoom with hver | ⟨hrest, -, hpos | ⟨-, hdone⟩⟩
    · exact ⟨op, r, hcb, .inl hver⟩
    · exact ⟨op, r, hcb, .inr ⟨hrest, nofun, .inl hpos⟩⟩
    · rw [hd] at hdone
      cases hdone
  | resumedAtOnce hw hpos =>
    rcases hdoom with hver | ⟨hrest, -, -⟩
    · exact ⟨op, r, hcb, .inl hver⟩
    · exact ⟨op, r, hcb, .inr ⟨hrest, nofun, .inl hpos⟩⟩
  | yielded hw hc =>
    rcases hdoom with hver | ⟨hrest, -, hpos | ⟨hy, -⟩⟩
    · exact ⟨op, r, hcb, .inl hver⟩
    · omega
    · rw [hw] at hy
      cases hy

end

/-! ## Runs -/

/-- **A keepalive wait is resumed once, with a final verdict**, in every run whose steps are all orderly; once the stream
is over, `Wait` has then returned and its resumer has not been called, or been resumed by the one call of it. Of the
runs that do not end inside a callback, these are the only ones. -/
theorem resumed_once_iff_orderly (lease interval : Int) (as : List Act) (s : Awaited) :
    ((lts.restrict fun s a => a.Orderly s).Run (started lease interval) as s →
      (lts.within Final).Run (started lease interval) as s ∧
        (Over s → s.wait = .returned ∧ s.calls = 0 ∨ s.wait = .resumed ∧ s.calls = 1)) ∧
    (s.callback = none → (lts.within Final).Run (started lease interval) as s →
      (lts.restrict fun s a => a.Orderly s).Run (started lease interval) as s) := by
  constructor
  · intro h
    have hsafe := started_safe lease interval
    refine ⟨h.within_of_restrict (fun _ _ _ => step_safe) (fun _ hs => hs.final) hsafe, fun ho => ?_⟩
    have hf : Final s := (h.invariant_restrict (fun _ _ _ => step_safe) hsafe).final
    have honce := hf.once
    rcases not_left_waiting h.of_restrict ho with hw | ⟨hw, hc⟩
    · have hzero : ¬ 0 < s.calls := fun hc => by simpa [hw, Waiting.yields] using hf.yields hc
      exact .inl ⟨hw, by omega⟩
    · exact .inr ⟨hw, by omega⟩
  · intro hcb h
    exact (h.restrict_of_within (I := fun s => Paired s ∧ Tracked s)
      (fun _ _ _ hi hst hf => ⟨step_paired hi.1 hst, step_tracked hi.2 hst hf⟩)
      (fun _ _ _ hi hst _ ho => step_doomed hi.1 hi.2 ho hst) (fun _ _ _ hi hn hst hf => doomed_step hi.1 hn hst hf)
      ⟨started_paired lease interval, started_tracked lease interval⟩ (not_doomed hcb)).2

/-- `Wait` yields, and the stream ends without a failure before. -/
theorem resumed_once_run : ∃ s, (lts.within Final).Run (started 7 1000)
    [.wait, .wait, .wait, .stream (.writeDone true), .stream (.readDone true), .stream (.done true),
      .resume, .resume, .resume, .resume] s ∧ s.wait = .resumed ∧ s.calls = 1 := by
  obtain ⟨s, hr, hl, hcb, hw⟩ : ∃ s, (lts.restrict fun s a => a.Orderly s).Run (started 7 1000)
      [.wait, .wait, .wait, .stream (.writeDone true), .stream (.readDone true), .stream (.done true),
        .resume, .resume, .resume, .resume] s ∧ s.ctx.live = false ∧ s.callback = none ∧ s.wait = .resumed :=
    Lts.exists_run_of_exec (fun _ _ _ h => h) (by decide)
  obtain ⟨hwithin, hend⟩ := (resumed_once_iff_orderly 7 1000 _ s).1 hr
  refine ⟨s, hwithin, ?_⟩
  rcases hend ⟨hl, hcb, .inr (.inl hw)⟩ with ⟨hret, -⟩ | hres
  · rw [hw] at hret
    cases hret
  · exact hres

/-- **Resumed twice**, and told two verdicts: a read fails, and the stream then ends with the status OK. -/
theorem resumed_twice : ∃ s, lts.Run (started 7 1000)
    [.wait, .wait, .wait, .stream (.writeDone true), .stream (.readDone false), .resume, .resume, .resume, .resume,
      .stream (.done true), .resume, .resume, .resume, .resume] s ∧
      s.calls = 2 ∧ s.verdict = some false ∧ s.ctx.call.success = true ∧ ¬ Final s := by
  refine Lts.exists_run_of_exec_imp (P := fun s : Awaited => s.calls = 2 ∧ s.verdict = some false ∧
    s.ctx.call.success = true) (fun _ _ _ h => h) (by decide) ?_
  rintro s - ⟨hc, hv, hs⟩
  refine ⟨hc, hv, hs, fun hf => ?_⟩
  have honce := hf.once
  omega

/-- A single failure is enough: the resumer is called between the two steps of `LockContext`, and `Wait` returns without
yielding. -/
theorem called_without_yield : ∃ s, lts.Run (started 7 1000)
    [.wait, .stream (.writeDone false), .resume, .resume, .resume, .wait] s ∧
      s.wait = .returned ∧ s.calls = 1 ∧ ¬ Final s := by
  refine Lts.exists_run_of_exec_imp (P := fun s : Awaited => s.wait = .returned ∧ s.calls = 1) (fun _ _ _ h => h)
    (by decide) ?_
  rintro s - ⟨hw, hc⟩
  refine ⟨hw, hc, fun hf => ?_⟩
  simpa [hw, Waiting.yields] using hf.yields (by omega)

end Awaited
end LtApp.Etcd
