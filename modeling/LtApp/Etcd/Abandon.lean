import LtApp.Etcd.Release

/-!
# A watch that nobody holds

The loop and its coroutines hold the watch while they run, and nothing makes them run until `OnDone`: a read that fails
ends the loop, and the stream is done with only after that. So somebody else has to hold the context from `Start` on.

| here | there |
| --- | --- |
| `Refused` | what `Start` returns `false` on (`watch_context.cc:22`, `:32`, `:42`); `Watch` lets go then (`etcd_watcher.cc:44`) |
| `Op.Keeps` | no holder lets go of the context before `OnDone` but for a copy |
| `Op.adrift` | the loop, its coroutines and gRPC go on: what is yet to be reported fails, and `OnDone` does not come |

`Op.Keeps` is enough for a live stream to have an owner in every run, and a step that does not meet it is all it takes:
the rest is up to gRPC and the loop (`abandoned`).
-/

namespace LtApp.Etcd
namespace WatchContext

variable {ε : Type}

/-- `Start` has been told of a failure of its write or of its read, or that the watch has a negative id. -/
def Refused (c : WatchContext ε) : Prop :=
  .reported .create false ∈ c.log ∨ .reported .created false ∈ c.log ∨
    (.reported .created true ∈ c.log ∧ c.response.watchId < 0)

/-- The holders keep a reference until `OnDone`: the caller, and `Watch`, which lets go of the context where `Start` has
been told of a failure. -/
def Op.Keeps (c : WatchContext ε) : Op ε → Prop
  | .go .start => c.Refused → c.live = false
  | .drop => c.live = true → 1 < c.caller
  | _ => True

instance Refused.decidable [DecidableEq ε] (c : WatchContext ε) : Decidable c.Refused := by
  unfold Refused
  infer_instance

instance Op.decidableKeeps [DecidableEq ε] (c : WatchContext ε) (op : Op ε) : Decidable (op.Keeps c) := by
  unfold Op.Keeps
  split <;> infer_instance

/-- Neither `Start` nor a holder takes the step, a report is that of a failure, and the stream is not done with. -/
def Op.adrift : Op ε → Bool
  | .wait (.report _ ok) _ => !ok
  | .wait (.fire _) _ => true
  | .wait (.lock a) _ | .wait (.start a) _ | .wait (.yield a) _ | .go a => a = .loop
  | .enter _ | .invoke | .finish => true
  | .stopWatch | .leave | .done | .copy | .drop => false

def adriftLts (ε : Type) : Lts (WatchContext ε) (Op ε) := lts.restrict fun _ op => op.adrift = true

section
variable {c c' : WatchContext ε} {w : Waits Side Co Site} {o : Waits.Op Co Site} {r : WatchResponse ε} {op : Op ε}
  {f : Frame Site} {s : Site} {ok : Bool}

/-! ## What `Start` has been told -/

/-- The log has what has been reported to `Start`. -/
structure Heard (c : WatchContext ε) : Prop where
  told    : ∀ f, c.waits.frame .start = some f → ∀ ok, .reported f.point.site ok ∈ c.log ↔
    c.waits.Reported f.point ∧ (c.waits.ctx f.point.site.side).success = ok
  create  : ∀ f, c.waits.frame .start = some f → f.point.site = .create → ∀ ok, .reported .created ok ∉ c.log
  created : ∀ f, c.waits.frame .start = some f → f.point.site = .created → .reported .create false ∉ c.log

theorem watch_heard : Heard (watch : WatchContext ε) := by
  have hf : ∀ f, (watch : WatchContext ε).waits.frame .start = some f → f.point = ⟨.create, 0⟩ := by
    intro f hf
    obtain rfl : Frame.mk ⟨.create, 0⟩ .lock false = f := by simpa [watch, goto, Site.co] using hf
    rfl
  refine ⟨fun f h ok => ?_, fun f h _ ok => by simp [watch], fun f h _ => by simp [watch]⟩
  simp [hf f h, watch, Waits.Reported]

/-- The start of an operation, and the call of a resumer, report nothing. -/
theorem note_reported : .reported s ok ∈ (note o r c).log ↔
    .reported s ok ∈ c.log ∨ ∃ p, o = .report p ok ∧ p.site = s := by
  cases o with
  | lock | yield | fire => simp [note]
  | start a =>
    simp only [note]
    split <;> simp
  | report p b =>
    rcases p with ⟨t, n⟩
    cases t <;> cases b <;> cases ok <;> simp [note, eq_comm, or_comm]

/-- Nothing is in flight for `Start` but the operation it waits for. -/
theorem start_inFlight (hl : ∀ k, c.waits.Lone Site.side Site.co k) (hf : c.waits.frame .start = some f)
    {p : Suspension Site} (hp : p ∈ c.waits.inFlight) (hs : p.site.side = f.point.site.side ∨ p.site.co = .start) :
    p = f.point ∧ ¬ c.waits.Reported p := by
  obtain ⟨⟨g, hg, rfl⟩, hnot⟩ := (hl p.site.side).inFlight hp rfl
  have hco : g.point.site.co = .start := by
    rcases hs with hs | hs
    · exact (hl _).one _ _ g f hg hf rfl hs.symm
    · exact hs
  rw [hco, hf] at hg
  exact ⟨by rw [Option.some.inj hg], hnot⟩

theorem wait_heard (hc : Heard c) (hl : c.waits.frame .start ≠ none → ∀ k, c.waits.Lone Site.side Site.co k)
    (hw : c.waits.step Site.side Site.co o = some w) : Heard (note o r { c with waits := w }) := by
  have hbefore : ∀ g, w.frame .start = some g → ∃ f, c.waits.frame .start = some f ∧ f.point = g.point :=
    fun g hg => Waits.frame_before hw hg
  have hflight : ∀ p b, o = .report p b → p ∈ c.waits.inFlight := by
    rintro p b rfl
    cases Waits.step_stepped _ _ hw with
    | report hp => exact hp
  constructor
  case told =>
    intro g hg ok
    rw [note_waits] at hg ⊢
    obtain ⟨f, hf, hp⟩ := hbefore g hg
    rw [← hp, note_reported, Waits.step_reported hw]
    have htold := hc.told f hf ok
    by_cases ho : ∃ p b, o = .report p b ∧ p.site.side = f.point.site.side
    · obtain ⟨p, b, rfl, hside⟩ := ho
      obtain ⟨rfl, hnot⟩ := start_inFlight (hl (by simp [hf])) hf (hflight p b rfl) (.inl hside)
      have hsuccess : (w.ctx f.point.site.side).success = b := by
        cases Waits.step_stepped _ _ hw with
        | report hp => simp [Waits.report]
      rw [htold, hsuccess]
      simp [hnot]
    · have hother : ∀ p b, o = .report p b → p.site.side ≠ f.point.site.side := fun p b hop hs => ho ⟨p, b, hop, hs⟩
      have hnone : ¬ ∃ p, o = .report p ok ∧ p.site = f.point.site := by
        rintro ⟨p, hop, hs⟩
        exact hother p ok hop (by rw [hs])
      have hsame : ¬ ∃ b, o = .report f.point b := by
        rintro ⟨b, hop⟩
        exact hother _ b hop rfl
      rw [or_iff_left hnone, or_iff_left hsame, htold, Waits.step_success hw hother]
  case create =>
    intro g hg hs ok
    rw [note_waits] at hg
    obtain ⟨f, hf, hp⟩ := hbefore g hg
    rw [← hp] at hs
    rw [note_reported]
    rintro (h | ⟨p, rfl, hsite⟩)
    · exact hc.create f hf hs ok h
    · obtain ⟨rfl, -⟩ := start_inFlight (hl (by simp [hf])) hf (hflight p ok rfl) (.inr (by rw [hsite]; rfl))
      rw [hs] at hsite
      cases hsite
  case created =>
    intro g hg hs
    rw [note_waits] at hg
    obtain ⟨f, hf, hp⟩ := hbefore g hg
    rw [← hp] at hs
    rw [note_reported]
    rintro (h | ⟨p, rfl, hsite⟩)
    · exact hc.created f hf hs h
    · obtain ⟨rfl, -⟩ := start_inFlight (hl (by simp [hf])) hf (hflight p false rfl) (.inr (by rw [hsite]; rfl))
      rw [hs] at hsite
      cases hsite

/-- What is neither a step of `Start` nor of gRPC. -/
theorem Heard.congr (hc : Heard c) (hf : c'.waits.frame .start = c.waits.frame .start)
    (hcall : c'.waits.calling = c.waits.calling) (hres : c'.waits.resumed = c.waits.resumed)
    (hs : ∀ k, (c'.waits.ctx k).success = (c.waits.ctx k).success)
    (hlog : ∃ es, c'.log = es ++ c.log ∧ ∀ s ok, .reported s ok ∉ es) : Heard c' := by
  obtain ⟨es, hes, hno⟩ := hlog
  have hmem : ∀ s ok, .reported s ok ∈ c'.log ↔ .reported s ok ∈ c.log := by
    intro s ok
    rw [hes, List.mem_append, or_iff_right (hno s ok)]
  constructor
  case told =>
    intro f h ok
    rw [hmem, hc.told f (hf ▸ h), Waits.Reported, Waits.Reported, hcall, hres, hs]
  case create =>
    intro f h hsite ok
    rw [hmem]
    exact hc.create f (hf ▸ h) hsite ok
  case created =>
    intro f h hsite
    rw [hmem]
    exact hc.created f (hf ▸ h) hsite

theorem went_heard (hr : Reads c.waits) (hc : Heard c) (hf : c.waits.frame s.co = some f) (hs : f.point.site = s)
    (h : Went c s c') : Heard c' := by
  have hsome : c.waits.frame s.co ≠ none := by simp [hf]
  -- `Start` is at its end
  have hend : c'.waits.frame .start = none → Heard c' := fun hn =>
    ⟨fun g hg => by simp [hn] at hg, fun g hg => by simp [hn] at hg, fun g hg => by simp [hn] at hg⟩
  have hloop : s.co = .loop → c.waits.frame .start = none := by
    intro hco
    rw [hco] at hsome
    by_contra hn
    exact hsome (hr.loop hn)
  cases h with
  | createFailed | createdFailed | began => exact hend (by simp [startReturns, WatchContext.began])
  | readFailed | canceled | lastSpawned | spawned => exact hend (by simp [hloop rfl, Site.co])
  | createWritten hsu =>
    have htold := hc.told f hf
    have hfresh : ¬ c.waits.Reported ⟨.created, c.waits.serial⟩ := hr.fresh rfl
    have hnew : ∀ g, (goto .created c).waits.frame .start = some g → g.point = ⟨.created, c.waits.serial⟩ := by
      intro g hg
      obtain rfl : Frame.mk ⟨.created, c.waits.serial⟩ .lock false = g := by simpa [goto, Site.co] using hg
      rfl
    refine ⟨fun g hg ok => ?_, fun g hg hsite => ?_, fun g _ _ => ?_⟩
    · rw [hnew g hg]
      exact iff_of_false (hc.create f hf hs ok) fun h => hfresh h.1
    · rw [hnew g hg] at hsite
      cases hsite
    · show .reported .create false ∉ c.log
      rw [← hs, htold, hs]
      rintro ⟨-, h⟩
      rw [show (c.waits.ctx Site.create.side).success = true from hsu] at h
      cases h
  | @cancelFailed i =>
    exact hc.congr (by simp [stopReturns]) rfl rfl (fun _ => rfl) ⟨[.stopReturned i false], rfl, by simp⟩
  | @finished i =>
    exact hc.congr (by simp [stopReturns]) rfl rfl (fun _ => rfl) ⟨[.stopReturned i _], rfl, by simp⟩
  | cancelWritten =>
    refine hc.congr (by simp [Site.co]) rfl rfl (fun k => ?_) ⟨[], rfl, by simp⟩
    cases k <;> simp [readCtx]

theorem step_heard (hr : Reads c.waits) (hc : Heard c)
    (hl : c.waits.frame .start ≠ none → ∀ k, c.waits.Lone Site.side Site.co k) (h : lts.step c op c') : Heard c' := by
  cases lts_stepped h with
  | wait hw => exact wait_heard hc hl hw
  | @go a f c' hf hst hw =>
    obtain rfl := hr.placed a f hf
    exact went_heard hr hc hf rfl hw
  | stopAtOnce => exact hc.congr rfl rfl rfl (fun _ => rfl) ⟨[.stopReturned _ true], rfl, by simp⟩
  | stopBegun => exact hc.congr (by simp [Site.co]) rfl rfl (fun _ => rfl) ⟨[], rfl, by simp⟩
  | @invoke j g e => exact hc.congr rfl rfl rfl (fun _ => rfl) ⟨[.handled e], rfl, by simp⟩
  | done =>
    refine hc.congr rfl rfl rfl (fun k => ?_) ⟨[.done], rfl, by simp⟩
    cases k <;> simp [onDone, readCtx]
  | enter | finish | leave | copy | drop => exact hc.congr rfl rfl rfl (fun _ => rfl) ⟨[], rfl, by simp⟩

/-- While `Start` waits, it has either context to itself. -/
theorem run_lone {ops : List (Op ε)} (h : lts.Run watch ops c) (hf : c.waits.frame .start ≠ none) (k : Side) :
    c.waits.Lone Site.side Site.co k := by
  cases k with
  | read => exact (run_reads h).lone
  | write => exact run_start_lone h hf

theorem run_heard {ops : List (Op ε)} (h : lts.Run watch ops c) : Heard c := by
  have hhist : lts.Run watch ops c ∧ Heard c := by
    refine h.history (P := fun ops c => lts.Run watch ops c ∧ Heard c) ?_ ⟨.nil _, watch_heard⟩
    rintro ops c op c' ⟨hrun, hc⟩ hs
    exact ⟨hrun.append (.single hs), step_heard (run_reads hrun) hc (run_lone hrun) hs⟩
  exact hhist.2

/-! ## Who holds the context -/

theorem went_live (h : Went c s c') : c'.live = c.live := by cases h <;> rfl

/-- `Watch` lets go of the context exactly where `Start` has been told of a failure. -/
theorem went_caller (hr : Reads c.waits) (hc : Heard c) (hl : ∀ k, c.waits.Lone Site.side Site.co k)
    (hf : c.waits.frame .start = some f) (hst : f.stage = .woken) (h : Went c f.point.site c') :
    (c.Refused → c'.waits.frame .start = none ∧ c'.caller = c.caller - 1) ∧ (¬ c.Refused → c'.caller = c.caller) := by
  have htold : ∀ ok, .reported f.point.site ok ∈ c.log ↔ (c.waits.ctx f.point.site.side).success = ok := by
    intro ok
    rw [hc.told f hf, and_iff_right (.inr ((hl _).calledBack hf rfl hst))]
  have hco := hr.placed _ f hf
  have hcreate := hc.create f hf
  have hcreated := hc.created f hf
  generalize f.point.site = s at h htold hco hcreate hcreated
  cases h with
  | createFailed hsu =>
    have hrefused : c.Refused := .inl ((htold false).2 hsu)
    exact ⟨fun _ => ⟨by simp [startReturns], rfl⟩, fun hn => absurd hrefused hn⟩
  | createWritten hsu =>
    have hnot : ¬ c.Refused := by
      rintro (h | h | ⟨h, -⟩)
      · rw [htold, show (c.waits.ctx Site.create.side).success = true from hsu] at h
        cases h
      · exact hcreate rfl _ h
      · exact hcreate rfl _ h
    exact ⟨fun h => absurd h hnot, fun _ => rfl⟩
  | createdFailed hsu =>
    have hrefused : c.Refused := .inr (.inl ((htold false).2 hsu))
    exact ⟨fun _ => ⟨by simp [startReturns], rfl⟩, fun hn => absurd hrefused hn⟩
  | began hsu =>
    have htrue : .reported .created true ∈ c.log := (htold true).2 hsu
    have hiff : c.Refused ↔ c.response.watchId < 0 := by
      constructor
      · rintro (h | h | ⟨-, h⟩)
        · exact absurd h (hcreated rfl)
        · rw [htold, show (c.waits.ctx Site.created.side).success = true from hsu] at h
          cases h
        · exact h
      · exact fun h => .inr (.inr ⟨htrue, h⟩)
    rw [hiff]
    constructor
    · intro hneg
      refine ⟨by simp [WatchContext.began, startReturns], ?_⟩
      simp [WatchContext.began, startReturns, show ¬ 0 ≤ c.response.watchId by omega]
    · intro hpos
      simp [WatchContext.began, startReturns, show 0 ≤ c.response.watchId by omega]
  | readFailed | canceled | lastSpawned | spawned | cancelFailed | cancelWritten | finished => cases hco

/-- No other coroutine has the reference of a holder. -/
theorem went_caller_other (hs : s.co ≠ .start) (h : Went c s c') : c'.caller = c.caller := by
  cases h with
  | createFailed | createWritten | createdFailed | began => exact absurd rfl hs
  | readFailed | canceled | lastSpawned | spawned | cancelFailed | cancelWritten | finished => rfl

/-- A holder has the context until `OnDone`. -/
def Minded (c : WatchContext ε) : Prop := c.live = true → 0 < c.caller

theorem Minded.owned (h : c.Minded) : c.Owned := by
  intro hl
  have hpos := h hl
  simp only [refs]
  omega

theorem step_minded {ops : List (Op ε)} (hrun : lts.Run watch ops c) (hm : c.Minded) (hk : op.Keeps c)
    (h : lts.step c op c') : c'.Minded := by
  intro hl
  cases lts_stepped h with
  | wait => simpa using hm (by simpa using hl)
  | @go a f c' hf hst hw =>
    have hlive : c.live = true := (went_live hw).symm.trans hl
    obtain rfl := (run_reads hrun).placed a f hf
    by_cases hs : f.point.site.co = .start
    · rw [hs] at hf hk
      have hnot : ¬ c.Refused := by
        intro hr
        rw [hk hr] at hlive
        cases hlive
      have hcaller := (went_caller (run_reads hrun) (run_heard hrun) (run_lone hrun (by simp [hf])) hf hst hw).2 hnot
      rw [hcaller]
      exact hm hlive
    · rw [went_caller_other hs hw]
      exact hm hlive
  | stopAtOnce | stopBegun | enter | invoke | leave | finish => exact hm hl
  | done => cases hl
  | copy => exact Nat.succ_pos _
  | drop =>
    have hc := hk hl
    show 0 < c.caller - 1
    omega

theorem run_minded {ops : List (Op ε)} (h : (lts.restrict fun c op => op.Keeps c).Run watch ops c) : c.Minded := by
  have hhist : lts.Run watch ops c ∧ c.Minded := by
    refine h.history (P := fun ops c => lts.Run watch ops c ∧ c.Minded) ?_ ⟨.nil _, fun _ => Nat.one_pos⟩
    rintro ops c op c' ⟨hrun, hm⟩ ⟨hs, hk⟩
    exact ⟨hrun.append (.single hs), step_minded hrun hm hk hs⟩
  exact hhist.2

/-! ## Adrift -/

/-- What the loop and its coroutines have before them, if each read from now on fails. -/
def drift (c : WatchContext ε) : Nat :=
  c.waits.stageLeft .loop + c.waits.pending + c.handlersLeft + c.hand.elim 0 fun es => es.length + 10

/-- Nobody but the loop and its coroutines has the live stream. -/
structure Adrift (c : WatchContext ε) : Prop where
  reads    : Reads c.waits
  staffed  : Staffed c
  attended : Attended c
  start    : c.waits.frame .start = none
  live     : c.live = true
  caller   : c.caller = 0

theorem wait_drift (hr : Reads c.waits) (hop : (Op.wait o r).adrift = true)
    (hw : c.waits.step Site.side Site.co o = some w) : (note o r { c with waits := w }).drift < c.drift := by
  have hgiven : Op.given (.wait o r) = none := by
    cases o with
    | report p ok =>
      obtain rfl : ok = false := by simpa [Op.adrift] using hop
      simp [Op.given]
    | lock | start | yield | fire => rfl
  have hhand : (note o r { c with waits := w }).hand = c.hand := by
    have hback := wait_backlog (r := r) hr hw
    rw [hgiven, Option.toList_none, List.append_nil, backlog, backlog, note_handlers] at hback
    simpa using congrArg List.head? (List.append_cancel_left hback)
  have hh : (note o r { c with waits := w }).handlersLeft = c.handlersLeft := by simp [handlersLeft]
  simp only [drift, hhand, hh, note_waits]
  cases o with
  | lock a =>
    obtain rfl : a = .loop := by simpa [Op.adrift] using hop
    obtain ⟨hlt, -, hp⟩ := Waits.step_stageLeft (.inl rfl) hw
    omega
  | yield a =>
    obtain rfl : a = .loop := by simpa [Op.adrift] using hop
    obtain ⟨hlt, -, hp⟩ := Waits.step_stageLeft (.inr rfl) hw
    omega
  | start a =>
    obtain rfl : a = .loop := by simpa [Op.adrift] using hop
    obtain ⟨hlt, -, hp⟩ := Waits.start_stageLeft hw
    omega
  | report p ok =>
    obtain ⟨hle, hlt⟩ := Waits.step_pending (.inl ⟨ok, rfl⟩) hw
    have := hle .loop
    omega
  | fire p =>
    obtain ⟨hle, hlt⟩ := Waits.step_pending (.inr rfl) hw
    have := hle .loop
    omega

/-- The loop goes round once more only for a response it has been given. -/
theorem went_drift (hr : Reads c.waits) (hf : c.waits.frame .loop = some f) (hst : f.stage = .woken)
    (h : Went c f.point.site c') :
    c'.drift < c.drift ∧ c'.caller = c.caller ∧ (c.waits.frame .start = none → c'.waits.frame .start = none) := by
  have hleft : c.waits.stageLeft .loop = 1 := by simp [Waits.stageLeft, hf, hst, Stage.left]
  have hco := hr.placed _ f hf
  have hgiven := hand_given hr hf
  have hquit : ∀ d : WatchContext ε, (quit .loop d).waits.stageLeft .loop = 0 := fun d => by simp [Waits.stageLeft]
  generalize f.point.site = s at h hco hgiven
  cases h with
  | createFailed | createWritten | createdFailed | began | cancelFailed | cancelWritten | finished => cases hco
  | readFailed | canceled =>
    have hhand : (quit .loop c).hand = none := hand_none (by simp)
    refine ⟨?_, rfl, fun hn => by simp [hn]⟩
    show (quit .loop c).waits.stageLeft .loop + c.waits.pending + c.handlersLeft + (quit .loop c).hand.elim 0 _ < c.drift
    rw [hhand, hquit]
    simp only [drift, hleft, Option.elim_none]
    omega
  | lastSpawned hsu hcan =>
    have hhand : (quit .loop (spawn c.response.events c)).hand = none := hand_none (by simp)
    have hh := handlersLeft_spawn (c := c) c.response.events
    refine ⟨?_, rfl, fun hn => by simp [hn]⟩
    show (quit .loop c).waits.stageLeft .loop + c.waits.pending + (spawn c.response.events c).handlersLeft +
      (quit .loop (spawn c.response.events c)).hand.elim 0 _ < c.drift
    rw [hhand, hquit]
    simp only [drift, hleft, hgiven rfl hst hsu hcan, Option.elim_none, Option.elim_some]
    omega
  | spawned hsu hcan =>
    have hhand : (goto .next (spawn c.response.events c)).hand = none := hand_fresh hr (by simp [Site.co]) rfl rfl
    have hh := handlersLeft_spawn (c := c) c.response.events
    have hnew : (goto .next c).waits.stageLeft .loop = 6 := by simp [Waits.stageLeft, Site.co, Stage.left]
    refine ⟨?_, rfl, fun hn => by simp [hn, Site.co]⟩
    show (goto .next c).waits.stageLeft .loop + c.waits.pending + (spawn c.response.events c).handlersLeft +
      (goto .next (spawn c.response.events c)).hand.elim 0 _ < c.drift
    rw [hhand, hnew]
    simp only [drift, hleft, hgiven rfl hst hsu hcan, Option.elim_none, Option.elim_some]
    omega

theorem step_adrift (hc : Adrift c) (h : (adriftLts ε).step c op c') : c'.drift < c.drift ∧ Adrift c' := by
  obtain ⟨hs, hop⟩ := h
  suffices hkept : c'.drift < c.drift ∧ c'.waits.frame .start = none ∧ c'.live = c.live ∧ c'.caller = c.caller by
    obtain ⟨hlt, hstart, hlive, hcaller⟩ := hkept
    exact ⟨hlt, step_reads hc.reads hs, step_staffed hc.staffed hs, step_attended hc.attended hs, hstart,
      hlive.trans hc.live, hcaller.trans hc.caller⟩
  have hhandler : op.ofHandler = true →
      c'.drift < c.drift ∧ c'.waits.frame .start = none ∧ c'.live = c.live ∧ c'.caller = c.caller := by
    intro ho
    obtain ⟨hlt, hw, hres, -, hlive, hcaller⟩ := handler_left hc.staffed ho hs
    have hhand : c'.hand = c.hand := hand_eq (by rw [hw]) (by rw [hw]) (by rw [hw]) (by rw [readCtx, hw]) hres
    refine ⟨?_, by rw [hw, hc.start], hlive, hcaller⟩
    simp only [drift, hw, hhand]
    omega
  cases lts_stepped hs with
  | wait hw =>
    refine ⟨wait_drift hc.reads hop hw, ?_, by simp, by simp⟩
    rw [note_waits, Waits.frame_none_iff hw]
    exact hc.start
  | @go a f c' hf hst hw =>
    obtain rfl : a = .loop := by simpa [Op.adrift] using hop
    obtain ⟨hlt, hcaller, hstart⟩ := went_drift hc.reads hf hst hw
    exact ⟨hlt, hstart hc.start, went_live hw, hcaller⟩
  | enter | invoke | finish => exact hhandler rfl
  | stopAtOnce | stopBegun | leave | done | copy | drop => cases hop

theorem Op.advances.adrift (h : op.advances .loop false) : op.adrift = true := by
  cases op with
  | wait o r =>
    cases o with
    | lock a | start a | yield a =>
      obtain rfl : a = .loop := h
      rfl
    | report p b =>
      obtain ⟨rfl, -⟩ : b = false ∧ _ := h
      rfl
    | fire => rfl
  | _ => cases h

theorem Op.adrift_of_ofHandler (h : op.ofHandler = true) : op.adrift = true := by
  cases op <;> first | rfl | cases h

/-- Adrift, the loop and its coroutines come to their end, and nobody has the context. -/
theorem stuck_adrift (hc : Adrift c) (hstuck : (adriftLts ε).Stuck c) : ¬ c.Owned := by
  have hloop : c.waits.frame .loop = none := by
    by_contra hne
    obtain ⟨f, hf⟩ := Option.ne_none_iff_exists'.1 hne
    have hco := hc.reads.placed _ f hf
    have hsite : f.point.site = .next := by
      cases hs : f.point.site <;> rw [hs] at hco <;> first | rfl | cases hco
    by_cases hst : f.stage = .woken
    · refine hstuck (.go .loop) (afterNext c) ⟨?_, rfl⟩
      show (c.waits.at? .loop .woken).bind _ = _
      rw [Waits.at?, hf, Option.filter_some_pos (by simpa using hst), Option.bind_some, hsite]
      rfl
    · obtain ⟨op, c', hop, hs⟩ := co_enabled false (by rw [hsite]; exact hc.reads.lone) hf hst
      exact hstuck op c' ⟨hs, hop.adrift⟩
  have halive : c.alive = 0 := by
    by_contra hne
    obtain ⟨op, c', hop, hs⟩ := handler_enabled hc.attended hc.staffed (.inl (Nat.pos_of_ne_zero hne))
    exact hstuck op c' ⟨hs, Op.adrift_of_ofHandler hop⟩
  intro ho
  have hpos := ho hc.live
  simp [refs, halive, hloop, hc.caller] at hpos

/-- **A watch that nobody holds is lost**: the loop and gRPC need only go on. -/
theorem Adrift.lost (hc : Adrift c) : ∃ os t, (adriftLts ε).Run c os t ∧ ¬ t.Owned := by
  obtain ⟨os, t, hrun, hstuck, ht⟩ := Lts.exists_stuck_of (fun _ _ _ hc hs => step_adrift hc hs) c hc
  exact ⟨os, t, hrun, stuck_adrift ht hstuck⟩

/-- A step by which the last holder lets go of a live stream leaves it adrift. -/
theorem abandoned {ops : List (Op ε)} (hrun : lts.Run watch ops c) (h : lts.step c op c') (hk : ¬ op.Keeps c) :
    Adrift c' := by
  have hrun' := hrun.append (.single h)
  have hstarting := run_starting hrun
  suffices hleft : c'.waits.frame .start = none ∧ c'.live = true ∧ c'.caller = 0 by
    exact ⟨run_reads hrun', run_staffed hrun', run_attended hrun', hleft.1, hleft.2.1, hleft.2.2⟩
  cases lts_stepped h with
  | @go a f c' hf hst hw =>
    cases a with
    | start =>
      obtain ⟨hrefused, hlive⟩ : c.Refused ∧ c.live = true := by simpa [Op.Keeps] using hk
      have hsome : c.waits.frame .start ≠ none := by simp [hf]
      obtain ⟨hnone, hcaller⟩ :=
        (went_caller (run_reads hrun) (run_heard hrun) (run_lone hrun hsome) hf hst hw).1 hrefused
      exact ⟨hnone, (went_live hw).trans hlive, by rw [hcaller, (hstarting hsome).2]⟩
    | loop | stop => exact absurd trivial hk
  | drop hs =>
    obtain ⟨hlive, hcaller⟩ : c.live = true ∧ c.caller ≤ 1 := by simpa [Op.Keeps] using hk
    refine ⟨?_, hlive, ?_⟩
    · by_contra hn
      have hstarted : c.waits.frame .start ≠ none := hn
      rw [(hstarting hstarted).1] at hs
      cases hs
    · show c.caller - 1 = 0
      omega
  | wait | stopAtOnce | stopBegun | enter | invoke | leave | finish | done | copy => exact absurd trivial hk

end
end WatchContext

/-- **A live stream has an owner** in every run in which the holders keep a reference until `OnDone`; and any step by
which they do not is enough to lose it, with nothing more than the steps that are then under way. -/
theorem live_stream_owned (ε : Type) :
    (∀ (lease interval : Int) (as : List Held.Act) (s : Held),
      (Held.lts.restrict fun s a => a.Keeps s).Run (Held.leaseKeepalive lease interval) as s →
        s.Owned ∧ ∀ a s', Held.lts.step s a s' → ¬ a.Keeps s →
          ∃ n t, Held.lts.Run s' (List.replicate n (.ctx .delayed)) t ∧ ¬ t.Owned) ∧
      ∀ (ops : List (WatchContext.Op ε)) (c : WatchContext ε),
        (WatchContext.lts.restrict fun c op => op.Keeps c).Run WatchContext.watch ops c →
          c.Owned ∧ ∀ op c', WatchContext.lts.step c op c' → ¬ op.Keeps c →
            ∃ os t, (WatchContext.adriftLts ε).Run c' os t ∧ ¬ t.Owned :=
  ⟨fun _ _ _ _ h => ⟨Held.run_owned h, fun _ _ hs hk => Held.dropped_lost hs hk⟩,
    fun _ _ h => ⟨(WatchContext.run_minded h).owned, fun _ _ hs hk => (WatchContext.abandoned h.of_restrict hs hk).lost⟩⟩

/-- The caller lets go of a keepalive, and of a watch, once `OnDone` has come. -/
theorem live_stream_owned_run :
    (∃ s, (Held.lts.restrict fun s a => a.Keeps s).Run (Held.leaseKeepalive 7 5000)
      [.ctx (.writeDone true), .copy, .drop, .ctx .cancel, .ctx (.readDone true), .ctx (.writesDoneDone true),
        .ctx (.done true), .drop] s ∧ s.Owned) ∧
      ∃ c : WatchContext Nat, (WatchContext.lts.restrict fun c op => op.Keeps c).Run WatchContext.watch
        (WatchContext.Op.whole .create 0 {} ++ WatchContext.Op.whole .created 1 { watchId := 3, created := true } ++
          [.copy, .drop, .wait (.lock .loop) {}, .wait (.start .loop) {}, .wait (.yield .loop) {},
            .wait (.report ⟨.next, 2⟩ false) {}, .wait (.fire ⟨.next, 2⟩) {}, .done, .drop]) c ∧ c.Owned := by
  constructor
  · exact Lts.exists_restrict_run_of_exec (P := fun _ => True) (fun _ _ _ h => h) (by decide)
      fun s h _ => ((live_stream_owned Nat).1 7 5000 _ s h).1
  · exact Lts.exists_restrict_run_of_exec (P := fun _ => True) (fun _ _ _ h => h) (by decide +kernel)
      fun c h _ => ((live_stream_owned Nat).2 _ c h).1

/-- **A keepalive whose only holder lets go of it**, and a watch whose create request fails. -/
theorem live_stream_abandoned :
    (∃ s, Held.lts.Run (Held.leaseKeepalive 7 5000) [.ctx (.writeDone true), .drop] s ∧ ¬ s.Owned) ∧
      ∃ c : WatchContext Nat, WatchContext.lts.Run WatchContext.watch
        [.wait (.lock .start) {}, .wait (.start .start) {}, .wait (.yield .start) {},
          .wait (.report ⟨.create, 0⟩ false) {}, .wait (.fire ⟨.create, 0⟩) {}, .go .start] c ∧ ¬ c.Owned := by
  constructor
  · exact Lts.exists_run_of_exec_imp (fun _ _ _ h => h) (by decide) fun _ _ h => h
  · exact Lts.exists_run_of_exec_imp (fun _ _ _ h => h) (by decide) fun _ _ h => h

end LtApp.Etcd
