import LtApp.Etcd.Delivery

/-!
# What `Start` tells its caller

| here | there |
| --- | --- |
| `answer` | the answer of the server to the create request, where it has been read (`watch_context.cc:29`) |
| `WatchResponse.Live` | the watch exists at the server |
| `LoopSpawned` | `watch_change_loop` has been spawned (`:40`) |
| `startReturned b` | `Start` has returned `b` (`:24`, `:33`, `:42`) |

`Start` spawns the loop before it looks at the id of the watch, and does not look at `canceled`. So where the answer is
not that of a live watch it tells its caller the wrong thing, or the right one with a loop that reads on
(`start_honest_iff`).
-/

namespace LtApp.Etcd

variable {ε : Type}

structure WatchResponse.Live (r : WatchResponse ε) : Prop where
  created  : r.created = true
  canceled : r.canceled = false
  watchId  : 0 ≤ r.watchId

namespace WatchContext

/-- The answer a step brings. -/
def Op.answered : Op ε → Option (WatchResponse ε)
  | .wait (.report p ok) r => if p.site = .created ∧ ok = true then some r else none
  | _ => none

def answer (ops : List (Op ε)) : Option (WatchResponse ε) := ops.findSome? Op.answered

/-- The coroutine of the loop is there, or has begun a read. -/
def LoopSpawned (c : WatchContext ε) : Prop :=
  c.waits.frame .loop ≠ none ∨ .started .next .startRead ∈ c.log

/-- Nothing runs for the watch, and nothing has. -/
structure Clean (c : WatchContext ε) : Prop where
  loop     : ¬ c.LoopSpawned
  handlers : c.handlers = []
  handled  : handled c.log = []

/-- `Start` returns `true` exactly if the answer is that of a live watch, and where it returns `false` it leaves nothing
behind. -/
structure Honest (a : Option (WatchResponse ε)) (c : WatchContext ε) : Prop where
  returns : ∀ b, .startReturned b ∈ c.log → (b = true ↔ ∃ r, a = some r ∧ r.Live)
  nothing : .startReturned false ∈ c.log → Clean c

/-- What has become of `Start`, given the answer. -/
def Told (a : Option (WatchResponse ε)) (c : WatchContext ε) : Prop :=
  match a with
  | none => (∀ b, .startReturned b ∈ c.log ↔ b = false) ∧ Clean c
  | some r => r.created = true ∧ (∀ b, .startReturned b ∈ c.log ↔ b = decide (0 ≤ r.watchId)) ∧ c.LoopSpawned

structure Opening (a : Option (WatchResponse ε)) (c : WatchContext ε) : Prop where
  running  : ∀ f, c.waits.frame .start = some f → (∀ b, .startReturned b ∉ c.log) ∧ Clean c ∧
    a = if f.point.site = .created ∧ c.waits.Reported f.point ∧ c.readCtx.success = true then some c.response else none
  returned : c.waits.frame .start = none → Told a c
  reading  : ∀ f, c.waits.frame .loop = some f → f.point ∈ c.waits.ops → .started .next .startRead ∈ c.log

section
variable {c c' : WatchContext ε} {op : Op ε} {a : Option (WatchResponse ε)} {ops : List (Op ε)}

theorem answer_append : answer (ops ++ [op]) = (answer ops).or op.answered := by
  simp [answer, List.findSome?_append]

/-- A step that is neither of `Start`, nor of the loop, nor of the read `Start` waits for. -/
structure Aside (c c' : WatchContext ε) : Prop where
  start    : c'.waits.frame .start = c.waits.frame .start
  loop     : c'.waits.frame .loop = c.waits.frame .loop
  inFlight : c'.waits.inFlight = c.waits.inFlight
  calling  : c'.waits.calling = c.waits.calling
  resumed  : c'.waits.resumed = c.waits.resumed
  success  : c'.readCtx.success = c.readCtx.success
  response : c'.response = c.response
  handlers : c.handlers = [] → c'.handlers = [] ∧ handled c'.log = handled c.log
  log      : ∃ es, c'.log = es ++ c.log ∧ .started .next .startRead ∉ es ∧ ∀ b, .startReturned b ∉ es

theorem Aside.reported (h : Aside c c') (p : Suspension Site) : c'.waits.Reported p ↔ c.waits.Reported p := by
  unfold Waits.Reported
  rw [h.calling, h.resumed]

theorem Aside.spawned (h : Aside c c') : c'.LoopSpawned ↔ c.LoopSpawned := by
  obtain ⟨es, hes, hread, -⟩ := h.log
  simp [LoopSpawned, h.loop, hes, hread]

theorem Aside.clean (h : Aside c c') (hc : Clean c) : Clean c' := by
  obtain ⟨hh, hd⟩ := h.handlers hc.handlers
  exact ⟨h.spawned.not.2 hc.loop, hh, hd.trans hc.handled⟩

theorem Aside.returned (h : Aside c c') (b : Bool) : .startReturned b ∈ c'.log ↔ .startReturned b ∈ c.log := by
  obtain ⟨es, hes, -, hret⟩ := h.log
  simp [hes, hret]

theorem Opening.aside (hc : Opening a c) (h : Aside c c') : Opening a c' := by
  constructor
  case running =>
    intro f hf
    obtain ⟨hret, hclean, ha⟩ := hc.running f (h.start ▸ hf)
    refine ⟨fun b => (h.returned b).not.2 (hret b), h.clean hclean, ?_⟩
    rw [ha, h.success, h.response]
    simp only [h.reported]
  case returned =>
    intro hn
    have ht := hc.returned (h.start ▸ hn)
    cases a with
    | none => exact ⟨fun b => (h.returned b).trans (ht.1 b), h.clean ht.2⟩
    | some r => exact ⟨ht.1, fun b => (h.returned b).trans (ht.2.1 b), h.spawned.2 ht.2.2⟩
  case reading =>
    intro f hf hops
    obtain ⟨es, hes, -, -⟩ := h.log
    rw [Waits.ops, h.inFlight, h.calling, h.resumed] at hops
    rw [hes]
    exact List.mem_append_right _ (hc.reading f (h.loop ▸ hf) hops)

/-! ## The steps -/

/-- What a step of those that wait writes to the log. -/
theorem note_log (o : Waits.Op Co Site) (r : WatchResponse ε) : ∃ es, (note o r c).log = es ++ c.log ∧
    (∀ b, .startReturned b ∉ es) ∧
      (.started .next .startRead ∈ es ↔ ∃ b f, o = .start b ∧ c.waits.frame b = some f ∧ f.point.site = .next) := by
  cases o with
  | lock | yield | fire => exact ⟨[], rfl, by simp, by simp⟩
  | start b =>
    simp only [note]
    split
    · rename_i f hf
      refine ⟨[.started f.point.site (f.point.site.call c.watchId)], rfl, by simp, ?_⟩
      rcases hs : f.point.site with _ | _ | _ | _ | _ <;> simp [Site.call, hf, hs]
    · rename_i hf
      exact ⟨[], rfl, by simp, by simp [hf]⟩
  | report p ok =>
    rcases p with ⟨s, n⟩
    cases s <;> cases ok
    case next.true => exact ⟨[.received r, .reported .next true], rfl, by simp, by simp⟩
    all_goals exact ⟨[.reported _ _], rfl, by simp, by simp⟩

/-- A read of the loop is started by the loop. -/
theorem spawned_wait {o : Waits.Op Co Site} {r : WatchResponse ε} {w : Waits Side Co Site} (hr : Reads c.waits)
    (hw : c.waits.step Site.side Site.co o = some w) : (note o r { c with waits := w }).LoopSpawned ↔ c.LoopSpawned := by
  obtain ⟨es, hes, -, hread⟩ := note_log (c := { c with waits := w }) o r
  have hloop : (note o r { c with waits := w }).waits.frame .loop ≠ none ↔ c.waits.frame .loop ≠ none := by
    rw [note_waits]
    exact (Waits.frame_none_iff hw .loop).not
  unfold LoopSpawned
  rw [hloop, hes, List.mem_append, hread]
  constructor
  · rintro (hl | ⟨b, f, -, hf, hs⟩ | hlog)
    · exact .inl hl
    · have hb := (hr.step hw).placed b f hf
      rw [hs] at hb
      obtain rfl : Co.loop = b := hb
      exact .inl (hloop.1 (by simp [show w.frame .loop = some f from hf]))
    · exact .inr hlog
  · rintro (hl | hlog)
    · exact .inl hl
    · exact .inr (.inr hlog)

/-- The answer is that of the one read `Start` makes. -/
theorem answered_wait {o : Waits.Op Co Site} {r : WatchResponse ε} {w : Waits Side Co Site} {f g : Frame Site}
    (hr : Reads c.waits) (hw : c.waits.step Site.side Site.co o = some w) (hf : c.waits.frame .start = some f)
    (hg : w.frame .start = some g)
    (ha : a = if f.point.site = .created ∧ c.waits.Reported f.point ∧ c.readCtx.success = true then some c.response
      else none) :
    a.or (Op.answered (.wait o r)) =
      if g.point.site = .created ∧ w.Reported g.point ∧ (w.ctx .read).success = true then
        some (note o r { c with waits := w }).response else none := by
  have hpoint : g.point = f.point := by
    obtain ⟨f', hf', hp⟩ := Waits.frame_before hw hg
    rw [← hp, Option.some.inj (hf.symm.trans hf')]
  have hreported := Waits.step_reported hw f.point
  have hloop : c.waits.frame .loop = none := hr.loop (by simp [hf])
  rw [hpoint]
  by_cases ho : ∃ p ok, o = .report p ok ∧ p.site.side = .read
  · obtain ⟨p, ok, rfl, hk⟩ := ho
    obtain ⟨hp, rfl⟩ : p ∈ c.waits.inFlight ∧ w = c.waits.report Site.side p ok := by
      cases Waits.step_stepped _ _ hw with
      | report hp => exact ⟨hp, rfl⟩
    obtain ⟨⟨f', hf', rfl⟩, hnot⟩ := hr.inFlight hp hk
    rcases hs : f'.point.site with _ | _ | _ | _ | _ <;> simp only [hs, Site.side, reduceCtorEq] at hk
    · rw [hs] at hf'
      obtain rfl : f = f' := Option.some.inj (hf.symm.trans hf')
      have hnow : (c.waits.report Site.side f.point ok).Reported f.point := .inl (by simp [Waits.report])
      have hsuccess : ((c.waits.report Site.side f.point ok).ctx .read).success = ok := by
        simp [Waits.report, hs, Site.side]
      cases ok <;> simp [ha, hnot, Op.answered, hs, hnow, hsuccess, note]
    · rw [hs] at hf'
      exact absurd hf' (by simp [Site.co, hloop])
  · have ho : ∀ p ok, o = .report p ok → p.site.side ≠ .read := fun p ok hop hk => ho ⟨p, ok, hop, hk⟩
    have hanswered : Op.answered (.wait o r) = none := by
      cases o with
      | report p ok =>
        have hp : p.site ≠ .created := fun hp => ho p ok rfl (by rw [hp]; rfl)
        simp [Op.answered, hp]
      | lock | start | yield | fire => rfl
    have hsame : f.point.site = .created → (w.Reported f.point ↔ c.waits.Reported f.point) := by
      intro hs
      rw [hreported, or_iff_left_iff_imp]
      rintro ⟨ok, hop⟩
      exact absurd (by rw [hs]; rfl) (ho _ ok hop)
    rw [hanswered, Option.or_none, ha, note_response ho, Waits.step_success hw ho]
    by_cases hs : f.point.site = .created
    · simp only [hsame hs]
    · simp [hs]

theorem wait_opening {o : Waits.Op Co Site} {r : WatchResponse ε} {w : Waits Side Co Site} (hr : Reads c.waits)
    (hc : Opening a c) (hw : c.waits.step Site.side Site.co o = some w) :
    Opening (a.or (Op.answered (.wait o r))) (note o r { c with waits := w }) := by
  obtain ⟨es, hes, hret, hread⟩ := note_log (c := { c with waits := w }) o r
  have hreturned : ∀ b, .startReturned b ∈ (note o r { c with waits := w }).log ↔ .startReturned b ∈ c.log := by
    intro b
    rw [hes, List.mem_append, or_iff_right (hret b)]
  have hspawned := spawned_wait (r := r) hr hw
  have hclean : Clean c → Clean (note o r { c with waits := w }) := by
    intro h
    refine ⟨hspawned.not.2 h.loop, by simp [h.handlers], ?_⟩
    rw [(note_fed o r).2]
    exact h.handled
  constructor
  case running =>
    intro g hg
    rw [note_waits] at hg
    obtain ⟨f, hf, -⟩ := Waits.frame_before hw hg
    obtain ⟨hret, hcl, ha⟩ := hc.running f hf
    refine ⟨fun b => (hreturned b).not.2 (hret b), hclean hcl, ?_⟩
    simpa [readCtx] using answered_wait (r := r) hr hw hf hg ha
  case returned =>
    rw [note_waits, Waits.frame_none_iff hw]
    intro hn
    have hanswered : Op.answered (.wait o r) = none := by
      cases o with
      | report p ok =>
        simp only [Op.answered, ite_eq_right_iff, reduceCtorEq, imp_false, not_and]
        intro hs
        have hp : p ∈ c.waits.inFlight := by
          cases Waits.step_stepped _ _ hw with
          | report hp => exact hp
        -- nobody waits for a read of this kind
        obtain ⟨f, hf, -⟩ := (hr.inFlight hp (by rw [hs]; rfl)).1
        rw [hs] at hf
        exact absurd hf (by simp [Site.co, hn])
      | lock | start | yield | fire => rfl
    rw [hanswered, Option.or_none]
    have ht := hc.returned hn
    cases a with
    | none => exact ⟨fun b => (hreturned b).trans (ht.1 b), hclean ht.2⟩
    | some r => exact ⟨ht.1, fun b => (hreturned b).trans (ht.2.1 b), hspawned.2 ht.2.2⟩
  case reading =>
    intro g hg hops
    rw [note_waits] at hg hops
    obtain ⟨f, hf, hpoint⟩ := Waits.frame_before hw hg
    rw [hes, List.mem_append, hread]
    rcases (Waits.step_ops hw g.point).1 hops with hops | ⟨b, f', hop, hf', hp⟩
    · exact .inr (hc.reading f hf (hpoint.symm ▸ hops))
    · have hb : f'.point.site.co = b := hr.placed b f' hf'
      have hl : g.point.site.co = .loop := (hr.step hw).placed _ g hg
      rw [hp, hl] at hb
      subst hb
      refine .inl ⟨.loop, g, hop, hg, ?_⟩
      rcases hs : g.point.site with _ | _ | _ | _ | _ <;> simp_all [Site.co]

theorem went_opening {s : Site} {f : Frame Site} (hr : Reads c.waits) (hc : Opening a c)
    (hf : c.waits.frame s.co = some f) (hs : f.point.site = s) (hst : f.stage = .woken) (h : Went c s c') :
    Opening a c' := by
  have hsome : c.waits.frame s.co ≠ none := by simp [hf]
  -- the loop has read before it comes to its end
  have hend : s = .next → a ≠ none ∧ .started .next .startRead ∈ c.log := by
    rintro rfl
    have hl : c.waits.frame .loop = some f := hf
    have hstart : c.waits.frame .start = none := by
      by_contra hn
      exact hsome (hr.loop hn)
    have hover := hr.calledBack hf (by rw [hs]; rfl) hst
    refine ⟨fun ha => ?_, hc.reading f hl (Waits.mem_ops.2 (.inr hover))⟩
    have ht := hc.returned hstart
    rw [ha] at ht
    exact ht.2.loop (.inl hsome)
  have hloop : s = .next → c'.waits.frame .start = c.waits.frame .start → c'.log = c.log → Opening a c' := by
    intro hn hstart hlog
    obtain ⟨ha, hread⟩ := hend hn
    subst hn
    have hnone : c.waits.frame .start = none := by
      by_contra hn
      exact hsome (hr.loop hn)
    refine ⟨fun g hg => ?_, fun _ => ?_, fun _ _ _ => hlog ▸ hread⟩
    · rw [hstart, hnone] at hg
      cases hg
    · have ht := hc.returned hnone
      cases a with
      | none => exact absurd rfl ha
      | some r => exact ⟨ht.1, hlog ▸ ht.2.1, .inr (hlog ▸ hread)⟩
  -- `Start` gives up, having spawned nothing
  have hfail : s.co = .start → a = none → Opening a (startReturns false c) := by
    intro hco ha
    rw [hco] at hf
    obtain ⟨hret, hcl, -⟩ := hc.running f hf
    have hl : c.waits.frame .loop = none := hr.loop (by simp [hf])
    subst ha
    refine ⟨fun g hg => by simp [startReturns] at hg, fun _ => ⟨fun b => ?_, ?_, ?_, ?_⟩, fun g hg => ?_⟩
    · cases b <;> simp [startReturns, hret]
    · simpa [LoopSpawned, startReturns] using hcl.loop
    · exact hcl.handlers
    · simpa [startReturns, WatchEv.out] using hcl.handled
    · simp [startReturns, hl] at hg
  cases h with
  | createFailed hsu =>
    apply hfail rfl
    simpa [hs] using (hc.running f hf).2.2
  | createWritten hsu =>
    obtain ⟨hret, hcl, ha⟩ := hc.running f hf
    have hl : c.waits.frame .loop = none := hr.loop hsome
    have hfresh : ¬ c.waits.Reported ⟨.created, c.waits.serial⟩ := hr.fresh rfl
    refine ⟨fun g hg => ?_, fun hn => by simp [goto, Site.co] at hn, fun g hg => by simp [Site.co, hl] at hg⟩
    obtain rfl : Frame.mk ⟨.created, c.waits.serial⟩ .lock false = g := by simpa [goto, Site.co] using hg
    refine ⟨hret, ⟨by simpa [LoopSpawned, Site.co, hl] using hcl.loop, hcl.handlers, hcl.handled⟩, ?_⟩
    rw [ha, if_neg (by simp [hs]), if_neg (fun h => hfresh h.2.1)]
  | createdFailed hsu =>
    apply hfail rfl
    simpa [hsu] using (hc.running f hf).2.2
  | began hsu hcr =>
    obtain ⟨hret, -, ha⟩ := hc.running f hf
    have hl : c.waits.frame .loop = none := hr.loop hsome
    have hreported : c.waits.Reported f.point := .inr (hr.calledBack hf (by rw [hs]; rfl) hst)
    rw [if_pos ⟨hs, hreported, hsu⟩] at ha
    subst ha
    have hfresh : (⟨.next, c.waits.serial⟩ : Suspension Site) ∉ c.waits.ops := hr.lone.fresh rfl
    refine ⟨fun g hg => ?_, fun _ => ⟨hcr, fun b => ?_, .inl ?_⟩, fun g hg hops => ?_⟩
    · simp [WatchContext.began, startReturns] at hg
    · simp [WatchContext.began, startReturns, goto, hret]
    · simp [WatchContext.began, startReturns, goto, Site.co]
    · obtain rfl : Frame.mk ⟨.next, c.waits.serial⟩ .lock false = g := by
        simpa [WatchContext.began, startReturns, goto, Site.co] using hg
      exact absurd hops hfresh
  | readFailed | canceled | lastSpawned => exact hloop rfl (by simp) rfl
  | spawned => exact hloop rfl (by simp [Site.co]) rfl
  | @cancelFailed i =>
    refine hc.aside ⟨by simp [stopReturns], by simp [stopReturns], rfl, rfl, rfl, rfl, rfl, fun hh => ⟨hh, ?_⟩, ?_⟩
    · simp [stopReturns, WatchEv.out]
    · exact ⟨[.stopReturned i false], rfl, by simp, by simp⟩
  | @finished i =>
    refine hc.aside ⟨by simp [stopReturns], by simp [stopReturns], rfl, rfl, rfl, rfl, rfl, fun hh => ⟨hh, ?_⟩, ?_⟩
    · simp [stopReturns, WatchEv.out]
    · exact ⟨[.stopReturned i _], rfl, by simp, by simp⟩
  | cancelWritten =>
    exact hc.aside ⟨by simp [Site.co], by simp [Site.co], rfl, rfl, rfl, by simp [readCtx], rfl, fun hh => ⟨hh, rfl⟩,
      [], rfl, by simp, by simp⟩

theorem step_opening (hr : Reads c.waits) (hc : Opening a c) (h : lts.step c op c') :
    Opening (a.or op.answered) c' := by
  have hkeep : op.answered = none → Opening a c' → Opening (a.or op.answered) c' := by
    intro hn hc'
    rwa [hn, Option.or_none]
  cases lts_stepped h with
  | wait hw => exact wait_opening hr hc hw
  | @go b f c' hf hst hw =>
    obtain rfl := hr.placed b f hf
    apply hkeep rfl
    exact went_opening hr hc hf rfl hst hw
  | stopAtOnce =>
    apply hkeep rfl
    exact hc.aside ⟨rfl, rfl, rfl, rfl, rfl, rfl, rfl, fun hh => ⟨hh, by simp [WatchEv.out]⟩, [.stopReturned _ true], rfl,
      by simp, by simp⟩
  | stopBegun =>
    apply hkeep rfl
    exact hc.aside ⟨by simp [Site.co], by simp [Site.co], rfl, rfl, rfl, rfl, rfl, fun hh => ⟨hh, rfl⟩, [], rfl, by simp,
      by simp⟩
  | enter _ hj | finish hj =>
    apply hkeep rfl
    refine hc.aside ⟨rfl, rfl, rfl, rfl, rfl, rfl, rfl, fun hh => ?_, [], rfl, by simp, by simp⟩
    simp [hh, running] at hj
  | @invoke j g e es hj =>
    apply hkeep rfl
    refine hc.aside ⟨rfl, rfl, rfl, rfl, rfl, rfl, rfl, fun hh => ?_, [.handled e], rfl, by simp, by simp⟩
    simp [hh, running] at hj
  | done =>
    apply hkeep rfl
    exact hc.aside ⟨rfl, rfl, rfl, rfl, rfl, by simp [onDone, readCtx], rfl,
      fun hh => ⟨hh, by simp [onDone, WatchEv.out]⟩, [.done], rfl, by simp, by simp⟩
  | leave | copy | drop =>
    apply hkeep rfl
    exact hc.aside ⟨rfl, rfl, rfl, rfl, rfl, rfl, rfl, fun hh => ⟨hh, rfl⟩, [], rfl, by simp, by simp⟩

/-! ## Runs -/

theorem watch_opening : Opening none (watch : WatchContext ε) := by
  refine ⟨fun f hf => ?_, fun hn => by simp [watch, goto, Site.co] at hn, fun f hf => by simp [watch, Site.co] at hf⟩
  obtain rfl : Frame.mk ⟨.create, 0⟩ .lock false = f := by simpa [watch, goto, Site.co] using hf
  exact ⟨by simp [watch], ⟨by simp [LoopSpawned, watch, Site.co], rfl, rfl⟩, by simp⟩

theorem run_opening (h : lts.Run watch ops c) : Reads c.waits ∧ Opening (answer ops) c := by
  refine h.history (P := fun ops c => Reads c.waits ∧ Opening (answer ops) c) ?_ ⟨watch_reads, watch_opening⟩
  rintro as s op t ⟨hr, hc⟩ hs
  rw [answer_append]
  exact ⟨step_reads hr hs, step_opening hr hc hs⟩

/-- **`Start` is honest exactly if the answer to the create request, where it has read one, neither cancels the watch nor
gives it a negative id.** -/
theorem start_honest_iff (h : lts.Run watch ops c) {b : Bool} (hb : .startReturned b ∈ c.log) :
    Honest (answer ops) c ↔ ∀ r, answer ops = some r → r.canceled = false ∧ 0 ≤ r.watchId := by
  have hc := (run_opening h).2
  have hnone : c.waits.frame .start = none := by
    cases hf : c.waits.frame .start with
    | none => rfl
    | some f => exact absurd hb ((hc.running f hf).1 b)
  have ht := hc.returned hnone
  cases ha : answer ops with
  | none =>
    rw [ha] at ht
    refine ⟨nofun, fun _ => ⟨fun b hb => ?_, fun _ => ht.2⟩⟩
    obtain rfl := (ht.1 b).1 hb
    simp
  | some r =>
    rw [ha] at ht
    obtain ⟨hcr, hret, hspawned⟩ := ht
    constructor
    · rintro ⟨hreturns, hnothing⟩ _ ⟨⟩
      have hid : 0 ≤ r.watchId := by
        by_contra hid
        have hfalse : .startReturned false ∈ c.log := (hret false).2 (by simp [hid])
        exact (hnothing hfalse).loop hspawned
      obtain ⟨_, ⟨⟩, hlive⟩ := (hreturns true ((hret true).2 (by simp [hid]))).1 rfl
      exact ⟨hlive.canceled, hid⟩
    · intro hok
      obtain ⟨hcan, hid⟩ := hok r rfl
      refine ⟨fun b hb => ?_, fun hf => ?_⟩
      · obtain rfl : b = true := by simpa [hid] using (hret b).1 hb
        simpa using ⟨hcr, hcan, hid⟩
      · simpa [hid] using (hret false).1 hf

end

/-- The server creates the watch, with the id 3. -/
theorem start_honest_run : ∃ c : WatchContext Nat, lts.Run watch
    (Op.whole .create 0 {} ++ Op.whole .created 1 { watchId := 3, created := true }) c ∧
      Honest (some { watchId := 3, created := true }) c := by
  refine Lts.exists_run_of_exec_imp (P := fun c : WatchContext Nat => .startReturned true ∈ c.log) (fun _ _ _ h => h)
    (by decide +kernel) fun c hr hb => (start_honest_iff hr hb).2 ?_
  rintro r ⟨⟩
  decide

/-- **A handler without a watch**: the id is -1, so `Start` returns `false`. The loop it has spawned reads on, and
`handler_` is called. -/
theorem handler_without_watch : ∃ c : WatchContext Nat, lts.Run watch
    (Op.whole .create 0 {} ++ Op.whole .created 1 { watchId := -1, created := true } ++
      Op.whole .next 2 { watchId := -1, events := [7] } ++ [.enter 0, .invoke]) c ∧
      .startReturned false ∈ c.log ∧ .handled 7 ∈ c.log ∧ ¬ Honest (some { watchId := -1, created := true }) c := by
  refine Lts.exists_run_of_exec_imp (P := fun c : WatchContext Nat => .startReturned false ∈ c.log ∧ .handled 7 ∈ c.log)
    (fun _ _ _ h => h) (by decide +kernel) ?_
  rintro c - ⟨hb, he⟩
  refine ⟨hb, he, fun h => ?_⟩
  have hmem : 7 ∈ handled c.log := List.mem_flatMap.2 ⟨_, List.mem_reverse.2 he, List.mem_singleton.2 rfl⟩
  simp [(h.nothing hb).handled] at hmem

/-- **A watch that is not live**: the server creates it and cancels it with the same answer, and `Start` returns
`true`. -/
theorem canceled_watch_returned : ∃ c : WatchContext Nat, lts.Run watch
    (Op.whole .create 0 {} ++ Op.whole .created 1 { watchId := 3, created := true, canceled := true }) c ∧
      .startReturned true ∈ c.log ∧ ¬ Honest (some { watchId := 3, created := true, canceled := true }) c := by
  refine Lts.exists_run_of_exec_imp (P := fun c : WatchContext Nat => .startReturned true ∈ c.log) (fun _ _ _ h => h)
    (by decide +kernel) fun c _ hb => ⟨hb, fun h => ?_⟩
  obtain ⟨_, ⟨⟩, hlive⟩ := (h.returns true hb).1 rfl
  exact absurd hlive.canceled (by decide)

end WatchContext
end LtApp.Etcd
