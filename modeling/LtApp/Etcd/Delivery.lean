import LtApp.Base.Lanes
import LtApp.Etcd.Reads

/-!
# What `handler_` is called with

| here | there |
| --- | --- |
| `responses` | the events of the responses `watch_change_loop` has read and not broken off at (`watch_context.cc:59`, `:63`) |
| `handled` | the calls of `handler_` |
| `hand` | the response between the callback of the read and `CO_GO` |
| `backlog` | what each coroutine spawned has still to call `handler_` with, then `hand` |

Each response is a lane (`lanes`): it is fed when the read is reported and drained by the coroutine spawned for it. So
nothing is lost, repeated, or out of order within a response. Between responses the order is that of the coroutines,
which overtake one another where `handler_` yields.
-/

namespace LtApp.Etcd

variable {ε : Type}

/-- The events that are handed on. -/
def WatchResponse.changes (r : WatchResponse ε) : Option (List ε) := if r.canceled then none else some r.events

/-- The response it brings. -/
def WatchEv.fed : WatchEv ε → List (List ε)
  | .received r => r.changes.toList
  | _ => []

/-- The call of `handler_` it is. -/
def WatchEv.out : WatchEv ε → List ε
  | .handled e => [e]
  | _ => []

namespace WatchContext

/-! ## Lanes -/

/-- The events of the responses received, in order. -/
def responses (l : List (WatchEv ε)) : List (List ε) := l.reverse.flatMap WatchEv.fed

/-- The events `handler_` has been called with, in order. -/
def handled (l : List (WatchEv ε)) : List ε := l.reverse.flatMap WatchEv.out

def hand (c : WatchContext ε) : Option (List ε) :=
  (c.waits.frame .loop).bind fun f =>
    if c.waits.Reported f.point ∧ c.readCtx.success = true then c.response.changes else none

def backlog (c : WatchContext ε) : List (List ε) := c.handlers.map (·.rest) ++ c.hand.toList

@[simps] def lanes (c : WatchContext ε) : Lanes ε := ⟨responses c.log, c.backlog, handled c.log⟩

/-- The response a step brings. -/
def Op.given : Op ε → Option (List ε)
  | .wait (.report p ok) r => if p.site = .next ∧ ok = true then r.changes else none
  | _ => none

section
variable {c c' : WatchContext ε} {op : Op ε} {e : WatchEv ε} {l : List (WatchEv ε)}

@[simp] theorem responses_cons : responses (e :: l) = responses l ++ e.fed := by simp [responses]

@[simp] theorem handled_cons : handled (e :: l) = handled l ++ e.out := by simp [handled]

theorem hand_congr (hp : (c'.waits.frame .loop).map (·.point) = (c.waits.frame .loop).map (·.point))
    (hr : ∀ p, (c.waits.frame .loop).map (·.point) = some p → (c'.waits.Reported p ↔ c.waits.Reported p))
    (hs : c'.readCtx.success = c.readCtx.success) (h : c'.response = c.response) : c'.hand = c.hand := by
  unfold hand
  cases hf : c.waits.frame .loop with
  | none =>
    have : c'.waits.frame .loop = none := by simpa [hf] using hp
    simp [this]
  | some f =>
    obtain ⟨g, hg, hgp⟩ : ∃ g, c'.waits.frame .loop = some g ∧ g.point = f.point := by simpa [hf] using hp
    simp only [hg, Option.bind_some, hgp, hs, h, hr f.point (by simp [hf])]

/-- The log of a step that waits. -/
theorem note_fed (o : Waits.Op Co Site) (r : WatchResponse ε) :
    responses (note o r c).log = responses c.log ++ (Op.given (.wait o r)).toList ∧
      handled (note o r c).log = handled c.log := by
  cases o with
  | lock | yield | fire => simp [note, Op.given]
  | start a =>
    simp only [note, Op.given, Option.toList_none, List.append_nil]
    split <;> simp [WatchEv.fed, WatchEv.out]
  | report p ok =>
    rcases p with ⟨s, n⟩
    cases s <;> cases ok <;> simp [note, Op.given, WatchEv.fed, WatchEv.out]

theorem note_response {o : Waits.Op Co Site} {r : WatchResponse ε}
    (ho : ∀ p ok, o = .report p ok → p.site.side ≠ .read) : (note o r c).response = c.response := by
  cases o with
  | lock | yield | fire => rfl
  | start a =>
    simp only [note]
    split <;> rfl
  | report p ok =>
    have hp := ho p ok rfl
    rcases p with ⟨s, n⟩
    cases s <;> simp_all [note, Site.side]

/-- A step that waits. -/
theorem wait_backlog (hc : Reads c.waits) {o : Waits.Op Co Site} {r : WatchResponse ε} {w : Waits Side Co Site}
    (h : c.waits.step Site.side Site.co o = some w) :
    (note o r { c with waits := w }).backlog = c.backlog ++ (Op.given (.wait o r)).toList := by
  suffices hhand : (note o r { c with waits := w }).hand.toList = c.hand.toList ++ (Op.given (.wait o r)).toList by
    simp only [backlog, note_handlers, hhand, List.append_assoc]
  by_cases ho : ∃ p ok, o = .report p ok ∧ p.site.side = .read
  · obtain ⟨p, ok, rfl, hk⟩ := ho
    obtain ⟨hp, rfl⟩ : p ∈ c.waits.inFlight ∧ w = c.waits.report Site.side p ok := by
      cases Waits.step_stepped _ _ h with
      | report hp => exact ⟨hp, rfl⟩
    obtain ⟨⟨f, hf, rfl⟩, hr⟩ := hc.inFlight hp hk
    rcases hs : f.point.site with _ | _ | _ | _ | _ <;> simp only [hs, Site.side, reduceCtorEq] at hk
    · -- the loop is yet to be spawned
      have hco : f.point.site.co = .start := by rw [hs]; rfl
      have hl : c.waits.frame .loop = none := hc.loop (by simp [← hco, hf])
      simp [hand, Op.given, hs, hl, Waits.report]
    · have hl : c.waits.frame .loop = some f := by rwa [hs] at hf
      have hnone : c.hand = none := by simp [hand, hl, hr]
      have hreported : (c.waits.report Site.side f.point ok).Reported f.point := .inl (by simp [Waits.report])
      have hframe : (c.waits.report Site.side f.point ok).frame .loop = some f := hl
      have hsuccess : ((c.waits.report Site.side f.point ok).ctx .read).success = ok := by
        simp [Waits.report, hs, Site.side]
      rw [hnone, Option.toList_none, List.nil_append]
      cases ok with
      | true => simp [hand, readCtx, hframe, hreported, hsuccess, note, Op.given, hs]
      | false => simp [hand, readCtx, hframe, hsuccess, Op.given]
  · have ho : ∀ p ok, o = .report p ok → p.site.side ≠ .read := fun p ok hop hk => ho ⟨p, ok, hop, hk⟩
    have hgiven : Op.given (.wait o r) = none := by
      cases o with
      | report p ok =>
        have hp : p.site ≠ .next := fun hp => ho p ok rfl (by rw [hp]; rfl)
        simp [Op.given, hp]
      | lock | start | yield | fire => rfl
    rw [hgiven, Option.toList_none, List.append_nil]
    congr 1
    refine hand_congr (by simpa using Waits.step_point h .loop) (fun p hp => ?_) ?_ (note_response ho)
    · rw [note_waits, Waits.step_reported h]
      obtain ⟨f, hf, rfl⟩ := Option.map_eq_some_iff.1 hp
      have hco := hc.placed _ f hf
      simp only [or_iff_left_iff_imp]
      rintro ⟨ok, hop⟩
      have hk := ho _ ok hop
      rcases hs : f.point.site with _ | _ | _ | _ | _ <;> simp_all [Site.co, Site.side]
    · simpa [readCtx] using Waits.step_success h ho

/-- Where the loop is not waiting for a callback that has come, it holds nothing. -/
theorem hand_none (h : ∀ f, c.waits.frame .loop = some f → ¬ c.waits.Reported f.point) : c.hand = none := by
  unfold hand
  cases hf : c.waits.frame .loop with
  | none => rfl
  | some f => simp [h f hf]

/-- A coroutine other than the loop goes on. -/
theorem hand_eq (hframe : c'.waits.frame .loop = c.waits.frame .loop) (hc : c'.waits.calling = c.waits.calling)
    (hr : c'.waits.resumed = c.waits.resumed) (hs : c'.readCtx.success = c.readCtx.success)
    (h : c'.response = c.response) : c'.hand = c.hand :=
  hand_congr (by rw [hframe]) (fun p _ => by rw [Waits.Reported, Waits.Reported, hc, hr]) hs h

/-- The loop has gone to `LockContext`. -/
theorem hand_fresh (hc : Reads c.waits) (hf : c'.waits.frame .loop = some ⟨⟨.next, c.waits.serial⟩, .lock, false⟩)
    (hcall : c'.waits.calling = c.waits.calling) (hres : c'.waits.resumed = c.waits.resumed) : c'.hand = none := by
  refine hand_none fun g hg => ?_
  obtain rfl := Option.some.inj (hf.symm.trans hg)
  rw [Waits.Reported, hcall, hres]
  exact hc.fresh (s := .next) rfl

/-- The loop has been given a response. -/
theorem hand_given (hc : Reads c.waits) {f : Frame Site} (hf : c.waits.frame .loop = some f) (hs : f.point.site = .next)
    (hst : f.stage = .woken) (hsu : c.readCtx.success = true) (hcan : c.response.canceled = false) :
    c.hand = some c.response.events := by
  have hreported : c.waits.Reported f.point := .inr (hc.calledBack hf (by rw [hs]; rfl) hst)
  simp [hand, hf, hreported, hsu, WatchResponse.changes, hcan]

theorem went_log {s : Site} (h : Went c s c') :
    responses c'.log = responses c.log ∧ handled c'.log = handled c.log := by
  cases h <;> simp [startReturns, stopReturns, WatchContext.began, WatchEv.fed, WatchEv.out]

theorem went_backlog {s : Site} (hc : Reads c.waits) {f : Frame Site} (hf : c.waits.frame s.co = some f)
    (hs : f.point.site = s) (hst : f.stage = .woken) (h : Went c s c') : c'.backlog = c.backlog := by
  have hstay : ∀ {d : WatchContext ε}, d.handlers = c.handlers → d.hand = c.hand → d.backlog = c.backlog := by
    intro d hh hd
    rw [backlog, hh, hd, backlog]
  have hsome : c.waits.frame s.co ≠ none := by simp [hf]
  cases h with
  | createFailed | createWritten | createdFailed | cancelFailed | finished =>
    exact hstay rfl (hand_eq (by simp [startReturns, stopReturns, goto, Site.co]) rfl rfl rfl rfl)
  | cancelWritten =>
    refine hstay rfl (hand_eq ?_ rfl rfl ?_ rfl)
    · simp [goto, Site.co]
    · simp [goto, readCtx]
  | began =>
    have hl : c.waits.frame .loop = none := hc.loop hsome
    have hnone : c.hand = none := hand_none (by simp [hl])
    have hbegan : (began c).hand = none :=
      hand_fresh hc (by simp [WatchContext.began, startReturns, goto, Site.co]) rfl rfl
    exact hstay rfl (hbegan.trans hnone.symm)
  | readFailed hsu =>
    have hnone : c.hand = none := by simp [hand, hsu]
    refine hstay rfl ((hand_none ?_).trans hnone.symm)
    simp
  | canceled hsu hcan =>
    have hnone : c.hand = none := by simp [hand, WatchResponse.changes, hcan]
    refine hstay rfl ((hand_none ?_).trans hnone.symm)
    simp
  | lastSpawned hsu hcan =>
    have hnone : (quit .loop (spawn c.response.events c)).hand = none := hand_none (by simp)
    simp [backlog, hnone, hand_given hc hf hs hst hsu hcan]
  | spawned hsu hcan =>
    have hnone : (goto .next (spawn c.response.events c)).hand = none := hand_fresh hc (by simp [Site.co]) rfl rfl
    simp [backlog, hnone, hand_given hc hf hs hst hsu hcan]

theorem backlog_congr (hh : c'.handlers.map (·.rest) = c.handlers.map (·.rest)) (hd : c'.hand = c.hand) :
    c'.backlog = c.backlog := by
  rw [backlog, hh, hd, backlog]

/-- What a step does to the lanes. -/
inductive Flow (c : WatchContext ε) : Op ε → WatchContext ε → Prop
  | idle {o d} : Op.given o = none → d.lanes = c.lanes → Flow c o d
  | fed {o d l} : Op.given o = some l → Lanes.Step c.lanes (.feed l) d.lanes → Flow c o d
  | taken {j h d} : c.running j h → Lanes.Step c.lanes (.take j) d.lanes → Flow c .invoke d

theorem map_rest_set {j : Nat} {h g : Handler ε} (hj : c.handlers[j]? = some h) (hg : g.rest = h.rest) :
    (c.handlers.set j g).map (·.rest) = c.handlers.map (·.rest) := by
  apply List.ext_getElem?
  intro i
  by_cases hi : i = j
  · subst hi
    have hlt : i < c.handlers.length := (List.getElem?_eq_some_iff.1 hj).1
    rw [List.getElem?_map, List.getElem?_map, List.getElem?_set_self hlt, hj, Option.map_some, Option.map_some, hg]
  · rw [List.getElem?_map, List.getElem?_map, List.getElem?_set_ne (Ne.symm hi)]

/-- **Each step feeds a lane, takes from one, or leaves them alone.** -/
theorem step_flow (hc : Reads c.waits) (h : lts.step c op c') : Flow c op c' := by
  cases lts_stepped h with
  | @wait o r w hw =>
    obtain ⟨hfed, hout⟩ := note_fed (c := { c with waits := w }) o r
    have hback := wait_backlog (r := r) hc hw
    cases hg : Op.given (.wait o r) with
    | none =>
      rw [hg, Option.toList_none, List.append_nil] at hfed hback
      exact .idle hg (Lanes.ext hfed hback hout)
    | some l =>
      rw [hg, Option.toList_some] at hfed hback
      refine .fed hg ?_
      have hlanes : (note o r { c with waits := w }).lanes =
          { c.lanes with fed := c.lanes.fed ++ [l], left := c.lanes.left ++ [l] } := Lanes.ext hfed hback hout
      rw [hlanes]
      exact .feed _ _
  | @go a f c' hf hst hw =>
    obtain rfl := hc.placed a f hf
    obtain ⟨hfed, hout⟩ := went_log hw
    exact .idle rfl (Lanes.ext hfed (went_backlog hc hf rfl hst hw) hout)
  | stopAtOnce =>
    exact .idle rfl (Lanes.ext (by simp [WatchEv.fed]) (backlog_congr rfl (hand_eq rfl rfl rfl rfl rfl))
      (by simp [WatchEv.out]))
  | stopBegun =>
    exact .idle rfl (Lanes.ext rfl (backlog_congr rfl (hand_eq (by simp [Site.co]) rfl rfl rfl rfl)) rfl)
  | enter hcur hj =>
    exact .idle rfl (Lanes.ext rfl (backlog_congr (map_rest_set hj rfl) (hand_eq rfl rfl rfl rfl rfl)) rfl)
  | @invoke j g e es hrun hrest =>
    have hlt : j < c.handlers.length := (List.getElem?_eq_some_iff.1 hrun.2).1
    have hleft : c.lanes.left[j]? = some (e :: es) := by
      rw [lanes_left, backlog, List.getElem?_append_left (by simpa using hlt), List.getElem?_map, hrun.2, Option.map_some,
        hrest]
    refine .taken hrun ?_
    have hlanes : (emit (.handled e) (setHandler j { g with rest := es, inCall := true } c)).lanes =
        { c.lanes with left := c.lanes.left.set j es, out := c.lanes.out ++ [e] } := by
      refine Lanes.ext (by simp [WatchEv.fed]) ?_ (by simp [WatchEv.out])
      simp only [lanes_left, backlog, emit_handlers, setHandler_handlers, List.map_set]
      rw [List.set_append_left _ _ (by simpa using hlt)]
      rfl
    rw [hlanes]
    exact .take hleft
  | leave => exact .idle rfl (Lanes.ext rfl (backlog_congr rfl (hand_eq rfl rfl rfl rfl rfl)) rfl)
  | finish hrun hrest =>
    exact .idle rfl (Lanes.ext rfl (backlog_congr (map_rest_set hrun.2 rfl) (hand_eq rfl rfl rfl rfl rfl)) rfl)
  | done =>
    refine .idle rfl (Lanes.ext (by simp [onDone, WatchEv.fed]) (backlog_congr rfl ?_) (by simp [onDone, WatchEv.out]))
    exact hand_eq rfl rfl rfl (by simp [onDone, readCtx]) rfl
  | copy | drop => exact .idle rfl (Lanes.ext rfl (backlog_congr rfl (hand_eq rfl rfl rfl rfl rfl)) rfl)

end

end WatchContext
end LtApp.Etcd
