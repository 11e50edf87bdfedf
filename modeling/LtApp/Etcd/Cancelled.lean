import LtApp.Base.Monitor
import LtApp.Etcd.Opening
import LtApp.Etcd.Owner

/-!
# What a `true` from `StopWatch` means

| here | there |
| --- | --- |
| `Cancelled w i c` | the `i`-th call of `StopWatch` has had the cancel request for the watch `w` written, the stream half-closed and `read_ctx_` cancelled (`watch_context.cc:84`) |
| `winding` | `watch_change_loop` takes one more response at most (`:71`) |

`Start` takes an id of 0 for that of a watch, and `StopWatch` does not: it returns `true` without a word to the server.
Where the id is another, and one call of `StopWatch` runs at a time, a `true` means what it says.
-/

namespace LtApp.Etcd

variable {ε : Type}

/-- Its state: `StopWatch` has returned `true`, and the loop has been given a response since. -/
def winding : Monitor (WatchEv ε) (Option Bool) where
  init := none
  next
    | none, .stopReturned _ true => some false
    | some _, .received _ => some true
    | s, _ => s
  Allows
    | some true, .received _ | some true, .started .next _ => False
    | _, _ => True

namespace WatchContext

structure Cancelled (w : Int) (i : Nat) (c : WatchContext ε) : Prop where
  requested  : .started (.cancel i) (.startWriteCancel w) ∈ c.log
  written    : .reported (.cancel i) true ∈ c.log
  ending     : .started (.finish i) .startWritesDone ∈ c.log
  halfClosed : .reported (.finish i) true ∈ c.log
  canceled   : c.readCtx.canceled = true

/-- `StopWatch` is called where `watch_id_` is not 0, and no call of it is under way. -/
def Op.Sole (c : WatchContext ε) : Op ε → Prop
  | .stopWatch => c.watchId ≠ 0 ∧ ∀ i < c.stops, c.waits.frame (.stop i) = none
  | _ => True

instance Op.decidableSole (c : WatchContext ε) : (op : Op ε) → Decidable (op.Sole c)
  | .stopWatch => inferInstanceAs (Decidable (c.watchId ≠ 0 ∧ ∀ i < c.stops, c.waits.frame (.stop i) = none))
  | .wait _ _ | .go _ | .enter _ | .invoke | .leave | .finish | .done | .copy | .drop => isTrue trivial

/-- What a call of `StopWatch` has got to. -/
structure Asked (i : Nat) (f : Frame Site) (c : WatchContext ε) : Prop where
  started  : f.point ∈ c.waits.ops → .started f.point.site (f.point.site.call c.watchId) ∈ c.log
  reported : c.waits.Reported f.point → .reported f.point.site c.writeCtx.success ∈ c.log
  finish   : f.point.site = .finish i → .started (.cancel i) (.startWriteCancel c.watchId) ∈ c.log ∧
    .reported (.cancel i) true ∈ c.log ∧ c.readCtx.canceled = true

structure Stopping (c : WatchContext ε) : Prop where
  writes : c.waits.Lone Site.side Site.co .write
  opened : ∀ i, c.waits.frame (.stop i) ≠ none → c.started = true
  later  : ∀ i, c.stops ≤ i → c.waits.frame (.stop i) = none
  asked  : ∀ i f, c.waits.frame (.stop i) = some f → Asked i f c
  done   : ∀ i, .stopReturned i true ∈ c.log → c.started = true ∧ Cancelled c.watchId i c

section
variable {c c' : WatchContext ε} {op : Op ε} {i : Nat} {f : Frame Site}

theorem Asked.mono (h : Asked i f c) (hops : f.point ∈ c'.waits.ops → f.point ∈ c.waits.ops)
    (hreported : c'.waits.Reported f.point → c.waits.Reported f.point) (hsuccess : c'.writeCtx.success = c.writeCtx.success)
    (hid : c'.watchId = c.watchId) (hlog : ∀ e ∈ c.log, e ∈ c'.log)
    (hcan : c.readCtx.canceled = true → c'.readCtx.canceled = true) : Asked i f c' := by
  refine ⟨fun ho => ?_, fun hr => ?_, fun hf => ?_⟩
  · rw [hid]
    exact hlog _ (h.started (hops ho))
  · rw [hsuccess]
    exact hlog _ (h.reported (hreported hr))
  · obtain ⟨hs, hr, hc⟩ := h.finish hf
    rw [hid]
    exact ⟨hlog _ hs, hlog _ hr, hcan hc⟩

theorem Cancelled.mono {w : Int} (h : Cancelled w i c) (hlog : ∀ e ∈ c.log, e ∈ c'.log)
    (hcan : c.readCtx.canceled = true → c'.readCtx.canceled = true) : Cancelled w i c' :=
  ⟨hlog _ h.requested, hlog _ h.written, hlog _ h.ending, hlog _ h.halfClosed, hcan h.canceled⟩

/-- `StopWatch` waits for writes. -/
theorem site_of_stop {s : Site} (h : s.co = .stop i) : s = .cancel i ∨ s = .finish i := by
  cases s <;> simp_all [Site.co]

theorem side_of_stop {s : Site} (h : s.co = .stop i) : s.side = .write := by
  rcases site_of_stop h with rfl | rfl <;> rfl

/-- One call of `StopWatch` at a time is under way. -/
theorem Stopping.one (hc : Stopping c) {j : Nat} {g : Frame Site} (hf : c.waits.frame (.stop i) = some f)
    (hg : c.waits.frame (.stop j) = some g) : i = j := by
  have hfi := hc.writes.placed _ _ hf
  have hgj := hc.writes.placed _ _ hg
  have heq := hc.writes.one _ _ _ _ hf hg (side_of_stop hfi) (side_of_stop hgj)
  simpa using heq

/-! ## The steps -/

/-- A step that is not one of `StopWatch`, nor of a wait. -/
theorem Stopping.aside (hc : Stopping c) (hwrites : c'.waits.Lone Site.side Site.co .write)
    (hframe : ∀ i, c'.waits.frame (.stop i) = c.waits.frame (.stop i)) (hops : c'.waits.ops = c.waits.ops)
    (hreported : ∀ p, c'.waits.Reported p ↔ c.waits.Reported p) (hsuccess : c'.writeCtx.success = c.writeCtx.success)
    (hid : c.started = true → c'.started = true ∧ c'.watchId = c.watchId) (hstops : c.stops ≤ c'.stops)
    (hlog : ∃ es, c'.log = es ++ c.log ∧ ∀ i, .stopReturned i true ∉ es)
    (hcan : c.readCtx.canceled = true → c'.readCtx.canceled = true) : Stopping c' := by
  obtain ⟨es, hes, hret⟩ := hlog
  have hmem : ∀ e ∈ c.log, e ∈ c'.log := by
    intro e he
    rw [hes]
    exact List.mem_append_right _ he
  constructor
  case writes => exact hwrites
  case opened =>
    intro i hi
    rw [hframe] at hi
    exact (hid (hc.opened i hi)).1
  case later =>
    intro i hi
    rw [hframe]
    exact hc.later i (Nat.le_trans hstops hi)
  case asked =>
    intro i f hf
    rw [hframe] at hf
    have hs := hid (hc.opened i (by simp [hf]))
    exact (hc.asked i f hf).mono (by rw [hops]; exact id) (hreported _).1 hsuccess hs.2 hmem hcan
  case done =>
    intro i hi
    rw [hes, List.mem_append, or_iff_right (hret i)] at hi
    obtain ⟨hs, hdone⟩ := hc.done i hi
    rw [(hid hs).2]
    exact ⟨(hid hs).1, hdone.mono hmem hcan⟩

theorem mem_note_started {o : Waits.Op Co Site} {r : WatchResponse ε} {b : Co} (ho : o = .start b)
    (hf : c.waits.frame b = some f) : .started f.point.site (f.point.site.call c.watchId) ∈ (note o r c).log := by
  subst ho
  simp [note, hf]

theorem mem_note_reported {o : Waits.Op Co Site} {r : WatchResponse ε} {p : Suspension Site} {ok : Bool}
    (ho : o = .report p ok) : .reported p.site ok ∈ (note o r c).log := by
  subst ho
  rcases p with ⟨s, n⟩
  cases s <;> cases ok <;> simp [note]

theorem note_returned {o : Waits.Op Co Site} {r : WatchResponse ε} : ∃ es, (note o r c).log = es ++ c.log ∧
    ∀ i b, .stopReturned i b ∉ es := by
  obtain ⟨es, hes, hon⟩ := note_events o r c
  exact ⟨es, hes, fun i b hi => by cases hon _ hi⟩

theorem wait_asked {o : Waits.Op Co Site} {r : WatchResponse ε} {w : Waits Side Co Site} (hc : Stopping c)
    (hw : c.waits.step Site.side Site.co o = some w) {g : Frame Site} (hg : w.frame (.stop i) = some g) :
    Asked i g (note o r { c with waits := w }) := by
  obtain ⟨f, hf, hp⟩ := Waits.frame_before hw hg
  have hasked := hc.asked i f hf
  obtain ⟨es, hes, -⟩ := note_returned (c := { c with waits := w }) (o := o) (r := r)
  have hmem : ∀ e ∈ c.log, e ∈ (note o r { c with waits := w }).log := by
    intro e he
    rw [hes]
    exact List.mem_append_right _ he
  have hid : (note o r { c with waits := w }).watchId = c.watchId := (note_noted o r { c with waits := w }).watchId
  have hside : f.point.site.side = .write := side_of_stop (hc.writes.placed _ _ hf)
  refine ⟨fun hops => ?_, fun hr => ?_, fun hfin => ?_⟩
  · rw [note_waits] at hops
    rw [hid]
    rcases (Waits.step_ops hw g.point).1 hops with hops | ⟨b, f', ho, hf', hp'⟩
    · rw [← hp] at hops ⊢
      exact hmem _ (hasked.started hops)
    · obtain rfl : Co.stop i = b := by
        have hb := hc.writes.placed b f' hf'
        rw [hp', ← hp, hc.writes.placed _ _ hf] at hb
        exact hb
      exact mem_note_started (c := { c with waits := w }) ho hg
  · rw [note_waits] at hr
    have hsuccess : (note o r { c with waits := w }).writeCtx.success = (w.ctx .write).success := by simp [writeCtx]
    rw [hsuccess]
    by_cases ho : ∃ p ok, o = .report p ok ∧ p.site.side = .write
    · obtain ⟨p, ok, rfl, hk⟩ := ho
      obtain ⟨hin, rfl⟩ : p ∈ c.waits.inFlight ∧ w = c.waits.report Site.side p ok := by
        cases Waits.step_stepped _ _ hw with
        | report hin => exact ⟨hin, rfl⟩
      -- the write reported is the one this call waits for
      obtain ⟨f', hf', rfl⟩ := (hc.writes.inFlight hin hk).1
      have heq := hc.writes.one _ _ _ _ hf hf' hside hk
      obtain rfl : f = f' := by
        rw [← heq] at hf'
        exact Option.some.inj (hf.symm.trans hf')
      have hok : ((c.waits.report Site.side f.point ok).ctx .write).success = ok := by simp [Waits.report, hside]
      rw [hok, ← hp]
      exact mem_note_reported rfl
    · have ho : ∀ p ok, o = .report p ok → p.site.side ≠ .write := fun p ok hop hk => ho ⟨p, ok, hop, hk⟩
      rw [Waits.step_success hw ho]
      rcases (Waits.step_reported hw g.point).1 hr with hr | ⟨ok, hop⟩
      · rw [← hp] at hr ⊢
        exact hmem _ (hasked.reported hr)
      · exact absurd hside (by rw [hp]; exact ho _ _ hop)
  · obtain ⟨hs, hr, hcan⟩ := hasked.finish (hp ▸ hfin)
    rw [hid]
    refine ⟨hmem _ hs, hmem _ hr, ?_⟩
    simpa [readCtx, Waits.step_canceled hw] using hcan

theorem wait_stopping {o : Waits.Op Co Site} {r : WatchResponse ε} {w : Waits Side Co Site} (hc : Stopping c)
    (hw : c.waits.step Site.side Site.co o = some w) : Stopping (note o r { c with waits := w }) := by
  obtain ⟨es, hes, hret⟩ := note_returned (c := { c with waits := w }) (o := o) (r := r)
  have hid : (note o r { c with waits := w }).watchId = c.watchId := (note_noted o r { c with waits := w }).watchId
  constructor
  case writes =>
    rw [note_waits]
    exact hc.writes.step hw
  case opened =>
    intro i hi
    rw [note_waits] at hi
    rw [note_started]
    exact hc.opened i ((Waits.frame_none_iff hw _).not.1 hi)
  case later =>
    intro i hi
    rw [note_waits, Waits.frame_none_iff hw]
    exact hc.later i (by simpa using hi)
  case asked =>
    intro i g hg
    rw [note_waits] at hg
    exact wait_asked hc hw hg
  case done =>
    intro i hi
    rw [hes, List.mem_append, or_iff_right (hret i true)] at hi
    obtain ⟨hs, hdone⟩ := hc.done i hi
    rw [hid]
    refine ⟨by simpa using hs, hdone.mono (fun e he => ?_) fun hcan => ?_⟩
    · rw [hes]
      exact List.mem_append_right _ he
    · simpa [readCtx, Waits.step_canceled hw] using hcan

/-- Who waits, as far as the writes go. -/
theorem went_writes {s : Site} (hr : Reads c.waits) (hc : Stopping c) (hf : c.waits.frame s.co = some f)
    (hst : f.stage = .woken) (h : Went c s c') : c'.waits.Lone Site.side Site.co .write := by
  have hw : ∀ g, c.waits.frame s.co = some g → g.point.site.side = .write → g.stage = .woken := by
    intro g hg _
    rw [← Option.some.inj (hf.symm.trans hg)]
    exact hst
  cases h with
  | createFailed | createdFailed | readFailed | canceled | lastSpawned | cancelFailed | finished =>
    exact hc.writes.leave hw
  | createWritten => exact hc.writes.enter (s := .created) hw (by simp [Site.side])
  | began =>
    have hl : c.waits.frame .loop = none := hr.loop (by simp [show c.waits.frame .start = some f from hf])
    have hleft := (hc.writes.leave hw).enter (s := .next) (by simp [Site.co, hl]) (by simp [Site.side])
    have hcomm : (began c).waits = (c.waits.leave Site.created.co).enter .loop .next .lock := by
      simp [WatchContext.began, startReturns, goto, Waits.enter, Waits.leave, Site.co, Function.update_comm]
    rw [hcomm]
    exact hleft
  | spawned => exact hc.writes.enter (s := .next) hw (by simp [Site.side])
  | @cancelWritten i =>
    have hk : f.point.site.side = .write := side_of_stop (hc.writes.placed _ _ hf)
    have hset : (c.waits.setCtx .read c.readCtx.cancel).Lone Site.side Site.co .write := hc.writes.setCtx rfl
    refine hset.enter (s := Site.finish i) hw fun _ b g hg hgk => ?_
    exact hc.writes.one b _ g f hg hf hgk hk

/-- Where `Start` runs, `StopWatch` does not. -/
theorem Stopping.idle (hc : Stopping c) (hs : Starting c) (hstart : c.waits.frame .start ≠ none) (i : Nat) :
    c.waits.frame (.stop i) = none ∧ .stopReturned i true ∉ c.log := by
  have hfalse := (hs hstart).1
  refine ⟨?_, fun hi => ?_⟩
  · by_contra hn
    simp [hc.opened i hn] at hfalse
  · simp [(hc.done i hi).1] at hfalse

/-- A call of `StopWatch` comes to its end. -/
theorem Stopping.returned (hc : Stopping c) {b : Bool} (hwrites : (stopReturns i b c).waits.Lone Site.side Site.co .write)
    (hb : b = true → c.started = true ∧ Cancelled c.watchId i c) : Stopping (stopReturns i b c) := by
  have hmem : ∀ e ∈ c.log, e ∈ (stopReturns i b c).log := fun e he => List.mem_cons_of_mem _ he
  constructor
  case writes => exact hwrites
  case opened =>
    intro j hj
    have hframe : (c.waits.leave (.stop i)).frame (.stop j) ≠ none := hj
    obtain ⟨g, hg⟩ := Option.ne_none_iff_exists'.1 hframe
    exact hc.opened j (by simp [(Waits.Lone.frame_leave hg).2])
  case later =>
    intro j hj
    have hnone := hc.later j hj
    by_cases hij : j = i
    · subst hij
      simp [stopReturns]
    · simp [stopReturns, hij, hnone]
  case asked =>
    intro j g hg
    exact (hc.asked j g (Waits.Lone.frame_leave hg).2).mono id id rfl rfl hmem id
  case done =>
    intro j hj
    rcases List.mem_cons.1 hj with heq | hj
    · obtain ⟨rfl, hsu⟩ : j = i ∧ true = b := by simpa using heq
      exact ⟨(hb hsu.symm).1, (hb hsu.symm).2.mono hmem id⟩
    · exact ⟨(hc.done j hj).1, (hc.done j hj).2.mono hmem id⟩

theorem went_stopping {s : Site} (hr : Reads c.waits) (hs : Starting c) (hc : Stopping c)
    (hf : c.waits.frame s.co = some f) (hsite : f.point.site = s) (hst : f.stage = .woken) (h : Went c s c') :
    Stopping c' := by
  have hwrites := went_writes hr hc hf hst h
  -- what `Start` does
  have hstart : s.co = .start → (∀ i, c'.waits.frame (.stop i) = c.waits.frame (.stop i)) → c'.stops = c.stops →
      (∀ i, .stopReturned i true ∈ c'.log → .stopReturned i true ∈ c.log) → Stopping c' := by
    intro hco hframe hstops hlog
    have hidle := hc.idle hs (by rw [← hco, hf]; simp)
    constructor
    case writes => exact hwrites
    case opened => exact fun i hi => absurd ((hframe i).trans (hidle i).1) hi
    case later => exact fun i _ => (hframe i).trans (hidle i).1
    case asked =>
      intro i g hg
      rw [hframe, (hidle i).1] at hg
      cases hg
    case done => exact fun i hi => absurd (hlog i hi) (hidle i).2
  -- what `StopWatch` has been told by the callback
  have htold : ∀ i, s.co = .stop i → Asked i f c ∧ f.point ∈ c.waits.ops ∧ c.waits.Reported f.point := by
    intro i hco
    rw [hco] at hf
    have hover := hc.writes.calledBack hf (side_of_stop (hc.writes.placed _ _ hf)) hst
    exact ⟨hc.asked i f hf, Waits.mem_ops.2 (.inr hover), .inr hover⟩
  cases h with
  | createFailed | createdFailed =>
    exact hstart rfl (fun i => by simp [startReturns]) rfl (fun i hi => by simpa [startReturns] using hi)
  | createWritten => exact hstart rfl (fun i => by simp [Site.co]) rfl fun i hi => hi
  | began =>
    exact hstart rfl (fun i => by simp [WatchContext.began, startReturns, goto, Site.co]) rfl
      (fun i hi => by simpa [WatchContext.began, startReturns, goto] using hi)
  | readFailed | canceled | lastSpawned =>
    exact hc.aside hwrites (fun i => by simp) rfl (fun _ => Iff.rfl) rfl (fun h => ⟨h, rfl⟩) (Nat.le_refl _)
      ⟨[], rfl, by simp⟩ id
  | spawned =>
    exact hc.aside hwrites (fun i => by simp [Site.co]) rfl (fun _ => Iff.rfl) rfl (fun h => ⟨h, rfl⟩) (Nat.le_refl _)
      ⟨[], rfl, by simp⟩ id
  | @cancelFailed i => exact hc.returned hwrites (by simp)
  | @finished i =>
    obtain ⟨hasked, hops, hreported⟩ := htold i rfl
    refine hc.returned hwrites fun hsu => ?_
    obtain ⟨hwrote, hok, hcan⟩ := hasked.finish hsite
    have hbegun := hasked.started hops
    have hended := hasked.reported hreported
    rw [hsite] at hbegun hended
    rw [hsu] at hended
    exact ⟨hc.opened i (by simp [show c.waits.frame (.stop i) = some f from hf]), hwrote, hok, hbegun, hended, hcan⟩
  | @cancelWritten i hsu =>
    obtain ⟨hasked, hops, hreported⟩ := htold i rfl
    have hbegun := hasked.started hops
    have hended := hasked.reported hreported
    rw [hsite] at hbegun hended
    rw [hsu] at hended
    have hcan : (goto (.finish i) (cancelRead c)).readCtx.canceled = true := by simp [readCtx]
    constructor
    case writes => exact hwrites
    case opened =>
      intro j hj
      obtain ⟨g, hg⟩ := Option.ne_none_iff_exists'.1 hj
      rcases Waits.Lone.frame_enter hg with ⟨hij, -⟩ | ⟨-, hg⟩
      · obtain rfl : j = i := by simpa [Site.co] using hij
        exact hc.opened j (by simp [show c.waits.frame (.stop j) = some f from hf])
      · exact hc.opened j (by simp [show c.waits.frame (.stop j) = some g from hg])
    case later =>
      intro j hj
      by_cases hij : j = i
      · subst hij
        have hnone := hc.later j hj
        rw [show c.waits.frame (.stop j) = some f from hf] at hnone
        cases hnone
      · simpa [Site.co, hij] using hc.later j hj
    case asked =>
      intro j g hg
      rcases Waits.Lone.frame_enter hg with ⟨hij, rfl⟩ | ⟨-, hg⟩
      · obtain rfl : j = i := by simpa [Site.co] using hij
        have hfresh : (⟨.finish j, c.waits.serial⟩ : Suspension Site) ∉ c.waits.ops := hc.writes.fresh rfl
        refine ⟨fun ho => absurd ho hfresh, fun hr => absurd hr (hc.writes.not_reported rfl), fun _ => ?_⟩
        exact ⟨hbegun, hended, hcan⟩
      · exact (hc.asked j g hg).mono id id rfl rfl (fun e he => he) fun _ => hcan
    case done =>
      intro j hj
      obtain ⟨hs, hdone⟩ := hc.done j hj
      exact ⟨hs, hdone.mono (fun e he => he) fun _ => hcan⟩

/-- The watch is known to its caller by an id that is not negative. -/
def Named (a : Option (WatchResponse ε)) (c : WatchContext ε) : Prop :=
  c.started = true → ∃ r, a = some r ∧ c.watchId = r.watchId ∧ 0 ≤ r.watchId

theorem went_named {a : Option (WatchResponse ε)} {s : Site} (hr : Reads c.waits) (ho : Opening a c) (hc : Named a c)
    (hf : c.waits.frame s.co = some f) (hs : f.point.site = s) (hst : f.stage = .woken) (h : Went c s c') :
    Named a c' := by
  cases h with
  | createFailed | createdFailed =>
    intro hstarted
    cases hstarted
  | began hsu hcr =>
    have hreported : c.waits.Reported f.point := .inr (hr.calledBack hf (by rw [hs]; rfl) hst)
    have ha := (ho.running f hf).2.2
    rw [if_pos ⟨hs, hreported, hsu⟩] at ha
    intro hstarted
    exact ⟨c.response, ha, rfl, by simpa [WatchContext.began, startReturns] using hstarted⟩
  | createWritten | readFailed | canceled | lastSpawned | spawned | cancelFailed | cancelWritten | finished => exact hc

theorem step_named {a : Option (WatchResponse ε)} (hr : Reads c.waits) (ho : Opening a c) (hc : Named a c)
    (h : lts.step c op c') : Named (a.or op.answered) c' := by
  have hkeep : Named a c' → Named (a.or op.answered) c' := by
    intro hc' hs
    obtain ⟨r, rfl, hw, hz⟩ := hc' hs
    exact ⟨r, rfl, hw, hz⟩
  apply hkeep
  cases lts_stepped h with
  | wait hw =>
    intro hs
    rw [note_started] at hs
    rw [(note_noted _ _ _).watchId]
    exact hc hs
  | @go b f c' hf hst hw =>
    obtain rfl := hr.placed b f hf
    exact went_named hr ho hc hf rfl hst hw
  | stopAtOnce | stopBegun | enter | invoke | leave | finish | done | copy | drop => exact hc

theorem step_stopping {a : Option (WatchResponse ε)} (hr : Reads c.waits) (hs : Starting c) (hn : Named a c)
    (hc : Stopping c) (hop : op.Sole c) (h : lts.step c op c') : Stopping c' := by
  cases lts_stepped h with
  | wait hw => exact wait_stopping hc hw
  | @go b f c' hf hst hw =>
    obtain rfl := hr.placed b f hf
    exact went_stopping hr hs hc hf rfl hst hw
  | stopAtOnce hstarted _ hid =>
    obtain ⟨r, -, hw, hz⟩ := hn hstarted
    have hne := hop.1
    omega
  | stopBegun hstarted =>
    have hnone : ∀ i, c.waits.frame (.stop i) = none := by
      intro i
      by_cases hi : i < c.stops
      · exact hop.2 i hi
      · exact hc.later i (by omega)
    have hstart : c.waits.frame .start = none := by
      by_contra hne
      simp [(hs hne).1] at hstarted
    have hframe : ∀ {j g}, (c.waits.enter (.stop c.stops) (.cancel c.stops) .lock).frame (.stop j) = some g →
        j = c.stops ∧ g = ⟨⟨.cancel c.stops, c.waits.serial⟩, .lock, false⟩ := by
      intro j g hg
      rcases Waits.Lone.frame_enter hg with ⟨hj, rfl⟩ | ⟨-, hg⟩
      · exact ⟨by simpa using hj, rfl⟩
      · simp [hnone] at hg
    constructor
    case writes =>
      refine hc.writes.enter (s := Site.cancel c.stops) (by simp [Site.co, hnone]) fun _ b g hg hk => ?_
      have hco := hc.writes.placed b g hg
      subst hco
      -- nobody else is there to wait for a write
      cases hgs : g.point.site with
      | create | created =>
        rw [hgs] at hg
        exact absurd (hstart.symm.trans hg) (by simp)
      | next =>
        rw [hgs] at hk
        cases hk
      | cancel i | finish i =>
        rw [hgs] at hg
        exact absurd ((hnone i).symm.trans hg) (by simp)
    case opened => exact fun _ _ => hstarted
    case later =>
      intro j hj
      have hj : c.stops < j := hj
      simp [Site.co, hnone, Nat.ne_of_gt hj]
    case asked =>
      intro j g hg
      obtain ⟨rfl, rfl⟩ := hframe hg
      exact ⟨fun ho => absurd ho (hc.writes.fresh rfl), fun hr => absurd hr (hc.writes.not_reported rfl),
        fun ht => by cases ht⟩
    case done => exact fun j hj => ⟨(hc.done j hj).1, (hc.done j hj).2.mono (fun _ he => he) id⟩
  | invoke =>
    exact hc.aside hc.writes (fun _ => rfl) rfl (fun _ => Iff.rfl) rfl (fun h => ⟨h, rfl⟩) (Nat.le_refl _)
      ⟨[.handled _], rfl, by simp⟩ id
  | done =>
    refine hc.aside (hc.writes.setCtx rfl) (fun _ => rfl) rfl (fun _ => Iff.rfl) ?_ (fun h => ⟨h, rfl⟩) (Nat.le_refl _)
      ⟨[.done], rfl, by simp⟩ fun _ => by simp [onDone, readCtx]
    simp [onDone, writeCtx]
  | enter | leave | finish | copy | drop =>
    exact hc.aside hc.writes (fun _ => rfl) rfl (fun _ => Iff.rfl) rfl (fun h => ⟨h, rfl⟩) (Nat.le_refl _)
      ⟨[], rfl, by simp⟩ id

/-! ## The last response -/

/-- The event is not a response of the loop, nor the start of a read of it. -/
def Idle (e : WatchEv ε) : Prop := (∀ r, e ≠ .received r) ∧ ∀ call, e ≠ .started .next call

theorem winding_idle {e : WatchEv ε} {l : List (WatchEv ε)} (he : Idle e) :
    winding.Allows (winding.after l) e ∧ (winding.after (e :: l) = some true ↔ winding.after l = some true) := by
  show winding.Allows (winding.after l) e ∧ (winding.next (winding.after l) e = some true ↔ winding.after l = some true)
  cases hs : winding.after l with
  | none =>
    cases e with
    | stopReturned i b => cases b <;> simp [winding]
    | _ => simp [winding]
  | some b =>
    cases e with
    | received r => exact absurd rfl (he.1 r)
    | started s call =>
      have hne : s ≠ .next := by
        rintro rfl
        exact he.2 call rfl
      cases s with
      | next => exact absurd rfl hne
      | _ => cases b <;> simp [winding]
    | _ => cases b <;> simp [winding]

/-- Until the loop has been given its last response everything is allowed. -/
theorem winding_allows {e : WatchEv ε} {l : List (WatchEv ε)} (h : winding.after l ≠ some true) :
    winding.Allows (winding.after l) e := by
  cases hs : winding.after l with
  | none => trivial
  | some b =>
    cases b with
    | true => exact absurd hs h
    | false => trivial

theorem after_started {s : Site} {call : StreamCall} {l : List (WatchEv ε)} :
    winding.after (.started s call :: l) = winding.after l := by
  show winding.next (winding.after l) (.started s call) = winding.after l
  cases winding.after l with
  | none => rfl
  | some b => rfl

theorem exists_returned {l : List (WatchEv ε)} (h : winding.after l ≠ none) : ∃ i, .stopReturned i true ∈ l := by
  induction l with
  | nil => exact absurd rfl h
  | cons e l ih =>
    by_cases hl : winding.after l = none
    · have h : winding.next (winding.after l) e ≠ none := h
      rw [hl] at h
      cases e with
      | stopReturned i b =>
        cases b with
        | true => exact ⟨i, List.mem_cons_self⟩
        | false => simp [winding] at h
      | _ => simp [winding] at h
    · obtain ⟨i, hi⟩ := ih hl
      exact ⟨i, List.mem_cons_of_mem _ hi⟩

structure Winding (c : WatchContext ε) : Prop where
  accepts : winding.Accepts c.log
  /-- A loop that has been given its last response has not begun another read. -/
  last    : winding.after c.log = some true → ∀ f, c.waits.frame .loop = some f → c.waits.Reported f.point

theorem Winding.aside (hc : Winding c) (hlog : c'.log = c.log ∨ ∃ e, c'.log = e :: c.log ∧ Idle e)
    (hlast : winding.after c.log = some true → ∀ f, c'.waits.frame .loop = some f → c'.waits.Reported f.point) :
    Winding c' := by
  rcases hlog with hlog | ⟨e, hlog, he⟩
  · exact ⟨hlog ▸ hc.accepts, hlog ▸ hlast⟩
  · obtain ⟨hallow, hafter⟩ := winding_idle (l := c.log) he
    refine ⟨?_, ?_⟩
    · rw [hlog, Monitor.accepts_cons]
      exact ⟨hallow, hc.accepts⟩
    · rw [hlog, hafter]
      exact hlast

theorem wait_winding {o : Waits.Op Co Site} {r : WatchResponse ε} {w : Waits Side Co Site} (hr : Reads c.waits)
    (hc : Winding c) (hw : c.waits.step Site.side Site.co o = some w) : Winding (note o r { c with waits := w }) := by
  have hlast : winding.after c.log = some true → ∀ f, w.frame .loop = some f → w.Reported f.point := by
    intro hs g hg
    obtain ⟨f, hf, hp⟩ := Waits.frame_before hw hg
    rw [← hp, Waits.step_reported hw]
    exact .inl (hc.last hs f hf)
  cases o with
  | lock | yield | fire => exact hc.aside (.inl rfl) hlast
  | start b =>
    obtain ⟨f, hf, hst⟩ : ∃ f, c.waits.frame b = some f ∧ f.stage = .start := by
      cases Waits.step_stepped _ _ hw with
      | start hf hst => exact ⟨_, hf, hst⟩
    obtain ⟨g, hg⟩ : ∃ g, w.frame b = some g := by
      rw [← Option.ne_none_iff_exists', ne_eq, Waits.frame_none_iff hw]
      simp [hf]
    have hlog : (note (.start b) r { c with waits := w }).log =
        .started g.point.site (g.point.site.call c.watchId) :: c.log := by simp [note, hg]
    by_cases hs : g.point.site = .next
    · -- who begins a read has not been given a response
      have hp : f.point = g.point := by
        obtain ⟨f', hf', hp⟩ := Waits.frame_before hw hg
        rw [Option.some.inj (hf.symm.trans hf'), hp]
      have hb : b = .loop := by
        rw [← hr.placed b f hf, hp, hs]
        rfl
      subst hb
      have hnot : winding.after c.log ≠ some true := by
        intro hs'
        have hreported := hc.last hs' f hf
        exact hr.lone.not_started hf (by rw [hp, hs]; rfl) hst (Waits.mem_ops.2 (hreported.imp_left .inr))
      refine ⟨?_, ?_⟩
      · rw [hlog, Monitor.accepts_cons]
        exact ⟨winding_allows hnot, hc.accepts⟩
      · rw [hlog, after_started]
        exact fun h => absurd h hnot
    · exact hc.aside (.inr ⟨_, hlog, by simp, fun call he => hs (WatchEv.started.inj he).1⟩) (by simpa using hlast)
  | report p ok =>
    by_cases hp : p.site = .next ∧ ok = true
    · obtain ⟨hs, rfl⟩ := hp
      have hin : p ∈ c.waits.inFlight := by
        cases Waits.step_stepped _ _ hw with
        | report hin => exact hin
      obtain ⟨⟨f, hf, rfl⟩, hnot⟩ := hr.inFlight hin (by rw [hs]; rfl)
      have hl : c.waits.frame .loop = some f := by rwa [hs] at hf
      have hstate : winding.after c.log ≠ some true := fun h => hnot (hc.last h f hl)
      have hlog : (note (.report f.point true) r { c with waits := w }).log =
          .received r :: .reported .next true :: c.log := by simp [note, hs]
      have hmid := winding_idle (e := .reported .next true) (l := c.log) ⟨by simp, by simp⟩
      have hmid' : winding.after (.reported .next true :: c.log) ≠ some true := hmid.2.not.2 hstate
      constructor
      · rw [hlog, Monitor.accepts_cons, Monitor.accepts_cons]
        exact ⟨winding_allows hmid', hmid.1, hc.accepts⟩
      · intro _ g hg
        rw [note_waits] at hg ⊢
        obtain ⟨f', hf', hp⟩ := Waits.frame_before hw hg
        obtain rfl : f = f' := Option.some.inj (hl.symm.trans hf')
        rw [← hp, Waits.step_reported hw]
        exact .inr ⟨true, rfl⟩
    · have hlog : (note (.report p ok) r { c with waits := w }).log = .reported p.site ok :: c.log := by
        rcases p with ⟨s, n⟩
        cases s <;> cases ok <;> simp_all [note]
      exact hc.aside (.inr ⟨_, hlog, by simp, by simp⟩) (by simpa using hlast)

theorem went_winding {s : Site} (hs : Starting c) (hst : Stopping c) (hc : Winding c)
    (hf : c.waits.frame s.co = some f) (h : Went c s c') : Winding c' := by
  have hkeep : (c'.log = c.log ∨ ∃ e, c'.log = e :: c.log ∧ Idle e) →
      c'.waits.frame .loop = c.waits.frame .loop → c'.waits.calling = c.waits.calling →
      c'.waits.resumed = c.waits.resumed → Winding c' := by
    intro hlog hframe hcalling hresumed
    refine hc.aside hlog fun ha g hg => ?_
    rw [Waits.Reported, hcalling, hresumed]
    exact hc.last ha g (hframe ▸ hg)
  cases h with
  | createFailed | createdFailed =>
    exact hkeep (.inr ⟨_, rfl, by simp, by simp⟩) (by simp [startReturns]) rfl rfl
  | createWritten | cancelWritten => exact hkeep (.inl rfl) (by simp [Site.co]) rfl rfl
  | began =>
    -- nobody has called `StopWatch`
    refine hc.aside (.inr ⟨_, rfl, by simp, by simp⟩) fun ha => ?_
    obtain ⟨i, hi⟩ := exists_returned (l := c.log) (by simp [ha])
    exact absurd hi (hst.idle hs (by rw [show c.waits.frame .start = some f from hf]; simp) i).2
  | readFailed | canceled | lastSpawned => exact hc.aside (.inl rfl) fun _ g hg => by simp at hg
  | spawned _ _ hcan =>
    refine hc.aside (.inl rfl) fun ha => ?_
    obtain ⟨i, hi⟩ := exists_returned (l := c.log) (by simp [ha])
    simp [(hst.done i hi).2.canceled] at hcan
  | cancelFailed | finished => exact hkeep (.inr ⟨_, rfl, by simp, by simp⟩) (by simp [stopReturns]) rfl rfl

theorem step_winding (hr : Reads c.waits) (hs : Starting c) (hst : Stopping c) (hc : Winding c)
    (h : lts.step c op c') : Winding c' := by
  cases lts_stepped h with
  | wait hw => exact wait_winding hr hc hw
  | @go b f c' hf _ hw =>
    obtain rfl := hr.placed b f hf
    exact went_winding hs hst hc hf hw
  | stopAtOnce | done | invoke => exact hc.aside (.inr ⟨_, rfl, by simp, by simp⟩) hc.last
  | stopBegun =>
    refine hc.aside (.inl rfl) fun ha g hg => hc.last ha g ?_
    simpa [Site.co] using hg
  | enter | leave | finish | copy | drop => exact hc.aside (.inl rfl) hc.last

/-! ## Runs -/

/-- What is known of a run, and of what the server has answered in it. -/
structure Course (a : Option (WatchResponse ε)) (c : WatchContext ε) : Prop where
  reads    : Reads c.waits
  starting : Starting c
  opening  : Opening a c
  named    : Named a c
  stopping : Stopping c
  winding  : Winding c

theorem watch_course : Course none (watch : WatchContext ε) := by
  have hwrites : (watch : WatchContext ε).waits.Lone Site.side Site.co .write :=
    Waits.Lone.nil.enter (s := Site.create) (by simp) (by simp)
  have hstop : ∀ i, (watch : WatchContext ε).waits.frame (.stop i) = none := fun i => by simp [watch, Site.co]
  refine ⟨watch_reads, fun _ => ⟨rfl, rfl⟩, watch_opening, (by intro h; cases h), ⟨hwrites, fun i hi => absurd (hstop i) hi,
    fun i _ => hstop i, fun i f hf => ?_, by simp [watch]⟩, Monitor.accepts_nil, (by intro h; cases h)⟩
  rw [hstop] at hf
  cases hf

theorem step_course {a : Option (WatchResponse ε)} (hc : Course a c) (hop : op.Sole c) (h : lts.step c op c') :
    Course (a.or op.answered) c' where
  reads := step_reads hc.reads h
  starting := step_starting hc.reads hc.starting h
  opening := step_opening hc.reads hc.opening h
  named := step_named hc.reads hc.opening hc.named h
  stopping := step_stopping hc.reads hc.starting hc.named hc.stopping hop h
  winding := step_winding hc.reads hc.starting hc.stopping hc.winding h

theorem run_course {ops : List (Op ε)} (h : (lts.restrict fun c op => op.Sole c).Run watch ops c) :
    Course (answer ops) c := by
  refine h.history (P := fun ops c => Course (answer ops) c) ?_ watch_course
  rintro as s op t hc ⟨hs, hop⟩
  rw [answer_append]
  exact step_course hc hop hs

end

/-- **A `true` from `StopWatch` means cancelled**: a cancel request with the id the server has given the watch has been
written, the stream has been half-closed and `read_ctx_` cancelled, and the loop takes one more response at most. -/
theorem stop_means_cancelled {ops : List (Op ε)} {c : WatchContext ε}
    (h : (lts.restrict fun c op => op.Sole c).Run watch ops c) :
    (∀ i, .stopReturned i true ∈ c.log → ∃ r, answer ops = some r ∧ Cancelled r.watchId i c) ∧
      winding.Accepts c.log := by
  have hc := run_course h
  refine ⟨fun i hi => ?_, hc.winding.accepts⟩
  obtain ⟨hstarted, hdone⟩ := hc.stopping.done i hi
  obtain ⟨r, hr, hw, -⟩ := hc.named hstarted
  exact ⟨r, hr, hw ▸ hdone⟩

/-- A watch with the id 3 is stopped while its loop waits; one more response comes. -/
theorem stop_means_cancelled_run : ∃ c : WatchContext Nat, (lts.restrict fun c op => op.Sole c).Run watch
    (Op.whole .create 0 {} ++ Op.whole .created 1 { watchId := 3, created := true } ++ [.stopWatch] ++
      Op.whole (.cancel 0) 3 {} ++ Op.whole (.finish 0) 4 {} ++ Op.whole .next 2 { events := [7] }) c ∧
      Cancelled 3 0 c ∧ winding.Accepts c.log := by
  refine Lts.exists_restrict_run_of_exec (P := fun c : WatchContext Nat => .stopReturned 0 true ∈ c.log)
    (fun _ _ _ h => h) (by decide +kernel) fun c hr hs => ?_
  obtain ⟨hcan, hacc⟩ := stop_means_cancelled hr
  obtain ⟨r, hans, hdone⟩ := hcan 0 hs
  obtain rfl := Option.some.inj hans
  exact ⟨hdone, hacc⟩

/-- **A `true` that means nothing**: the server gives the watch the id 0, and `StopWatch` returns at once. -/
theorem stopped_without_request : ∃ c : WatchContext Nat, lts.Run watch
    (Op.whole .create 0 {} ++ Op.whole .created 1 { watchId := 0, created := true } ++ [.stopWatch]) c ∧
      .startReturned true ∈ c.log ∧ .stopReturned 0 true ∈ c.log ∧ ¬ Cancelled 0 0 c := by
  refine Lts.exists_run_of_exec_imp (P := fun c : WatchContext Nat => .startReturned true ∈ c.log ∧
    .stopReturned 0 true ∈ c.log ∧ .started (.cancel 0) (.startWriteCancel 0) ∉ c.log)
    (fun _ _ _ h => h) (by decide +kernel) ?_
  rintro c - ⟨hstart, hstop, hreq⟩
  exact ⟨hstart, hstop, fun h => hreq h.requested⟩

/-- Where two calls of `StopWatch` overlap, the second takes the callback of the first for its own, and returns `true`
before the stream has been half-closed. -/
theorem overlapping_stop : ∃ c : WatchContext Nat, lts.Run watch
    (Op.whole .create 0 {} ++ Op.whole .created 1 { watchId := 3, created := true } ++
      [.stopWatch, .stopWatch,
        .wait (.lock (.stop 0)) {}, .wait (.start (.stop 0)) {}, .wait (.yield (.stop 0)) {},
        .wait (.lock (.stop 1)) {}, .wait (.start (.stop 1)) {}, .wait (.yield (.stop 1)) {},
        .wait (.report ⟨.cancel 0, 3⟩ true) {}, .wait (.fire ⟨.cancel 0, 3⟩) {}, .go (.stop 1),
        .wait (.lock (.stop 1)) {}, .wait (.start (.stop 1)) {}, .wait (.yield (.stop 1)) {},
        .wait (.report ⟨.cancel 1, 4⟩ true) {}, .wait (.fire ⟨.cancel 1, 4⟩) {}, .go (.stop 1)]) c ∧
      .stopReturned 1 true ∈ c.log ∧ ¬ Cancelled 3 1 c := by
  refine Lts.exists_run_of_exec_imp (P := fun c : WatchContext Nat => .stopReturned 1 true ∈ c.log ∧
    .reported (.finish 1) true ∉ c.log) (fun _ _ _ h => h) (by decide +kernel) ?_
  rintro c - ⟨hstop, hfin⟩
  exact ⟨hstop, fun h => hfin h.halfClosed⟩

end WatchContext
end LtApp.Etcd
