import LtApp.Etcd.Lone
import LtApp.Etcd.Watch

/-!
# The reads of a watch

`Start` reads the answer to the create request, and spawns the loop that reads everything after it. So nobody calls
`LockContext` on `read_ctx_` while another coroutine waits there, and in every run the reads are sound, whatever
becomes of the writes (`step_reads`).
-/

namespace LtApp.Etcd

/-- One coroutine reads, and the resumer in `read_ctx_` is its own or one that is over. -/
structure Reads (w : Waits Side Co Site) : Prop where
  side   : w.SoundAt Site.side Site.co .read
  placed : ∀ a f, w.frame a = some f → f.point.site.co = a
  /-- The loop is spawned as `Start` comes to its end. -/
  loop   : w.frame .start ≠ none → w.frame .loop = none
  slot   : ∀ r, (w.ctx .read).resumer = some r →
    r ∈ w.resumed.map (·.1) ∨ ∃ a f, w.frame a = some f ∧ f.point = r ∧ f.stage ≠ .lock

namespace Reads

variable {w w' : Waits Side Co Site} {a : Co} {f : Frame Site} {s : Site}

theorem co_of_read (h : s.side = .read) : s.co = .start ∨ s.co = .loop := by
  cases s <;> simp_all [Site.side, Site.co]

/-- There is one reader. -/
theorem reader_eq (hw : Reads w) {b : Co} {g : Frame Site} (hf : w.frame a = some f) (hg : w.frame b = some g)
    (hfk : f.point.site.side = .read) (hgk : g.point.site.side = .read) : a = b := by
  have ha := hw.placed a f hf
  have hb := hw.placed b g hg
  rcases co_of_read hfk with hfc | hfc <;> rcases co_of_read hgk with hgc | hgc <;> rw [ha] at hfc <;> rw [hb] at hgc <;>
    subst hfc <;> subst hgc
  · rfl
  · exact absurd (hw.loop (by simp [hf])) (by simp [hg])
  · exact absurd (hw.loop (by simp [hg])) (by simp [hf])
  · rfl

theorem lone (hw : Reads w) : w.Lone Site.side Site.co .read :=
  ⟨hw.side, hw.placed, fun _ _ _ _ hf hg => hw.reader_eq hf hg, hw.slot⟩

theorem of_lone (h : w.Lone Site.side Site.co .read) (hl : w.frame .start ≠ none → w.frame .loop = none) : Reads w :=
  ⟨h.side, h.placed, hl, h.slot⟩

/-- What a reader has been resumed from has been called back. -/
theorem calledBack (hw : Reads w) (hf : w.frame a = some f) (hk : f.point.site.side = .read) (hs : f.stage = .woken) :
    f.point ∈ w.resumed.map (·.1) := hw.lone.calledBack hf hk hs

theorem nil : Reads ({} : Waits Side Co Site) := of_lone Waits.Lone.nil (fun h => absurd rfl h)

/-- A coroutine that has been resumed, if it was from a read, comes to its end. -/
theorem leave (hw : Reads w) (ha : ∀ f, w.frame a = some f → f.point.site.side = .read → f.stage = .woken) :
    Reads (w.leave a) := by
  refine of_lone (hw.lone.leave ha) fun hn => ?_
  obtain ⟨f, hf⟩ := Option.ne_none_iff_exists'.1 hn
  have hl := hw.loop (by simp [(Waits.Lone.frame_leave hf).2])
  cases hl' : (w.leave a).frame .loop with
  | none => rfl
  | some g => simp [(Waits.Lone.frame_leave hl').2] at hl

/-- It goes on to the next place that yields. -/
theorem enter (hw : Reads w) (ha : ∀ f, w.frame s.co = some f → f.point.site.side = .read → f.stage = .woken)
    (hstart : s.co = .start → w.frame .loop = none) (hloop : s.co = .loop → w.frame .start = none) :
    Reads (w.enter s.co s .lock) := by
  refine of_lone (hw.lone.enter ha fun hs b g hg hk => ?_) fun hn => ?_
  · have hb := hw.placed b g hg
    rcases co_of_read hk with hgc | hgc <;> rcases co_of_read hs with hsc | hsc <;> rw [hb] at hgc <;> subst hgc
    · exact hsc.symm
    · simp [hloop hsc] at hg
    · simp [hstart hsc] at hg
    · exact hsc.symm
  · by_cases hl : s.co = .loop
    · simp [hl, hloop hl] at hn
    · by_cases hst : s.co = .start
      · simp [hst, hstart hst]
      · simpa [Ne.symm hl] using hw.loop (by simpa [Ne.symm hst] using hn)

theorem cancel (hw : Reads w) : Reads (w.setCtx .read (w.ctx .read).cancel) := of_lone (hw.lone.setCtx rfl) hw.loop

theorem step {op : Waits.Op Co Site} (hw : Reads w) (h : w.step Site.side Site.co op = some w') : Reads w' := by
  have hnone := Waits.frame_none_iff h
  exact of_lone (hw.lone.step h) fun hn => (hnone _).2 (hw.loop fun hs => hn ((hnone _).2 hs))

/-- A read in flight is that of its coroutine, and not reported. -/
theorem inFlight (hw : Reads w) {p : Suspension Site} (hp : p ∈ w.inFlight) (hk : p.site.side = .read) :
    (∃ f, w.frame p.site.co = some f ∧ f.point = p) ∧ ¬ w.Reported p := hw.lone.inFlight hp hk

/-- A read that is yet to be started has not been reported. -/
theorem fresh (hw : Reads w) (hk : s.side = .read) : ¬ w.Reported ⟨s, w.serial⟩ := hw.lone.not_reported hk

end Reads

namespace WatchContext

variable {ε : Type} {c c' : WatchContext ε} {op : Op ε}

theorem watch_reads : Reads (watch : WatchContext ε).waits := Reads.nil.enter (by simp) (fun _ => rfl) nofun

theorem went_reads {s : Site} {f : Frame Site} (hc : Reads c.waits) (hf : c.waits.frame s.co = some f)
    (hst : f.stage = .woken) (h : Went c s c') : Reads c'.waits := by
  have hw : ∀ g, c.waits.frame s.co = some g → g.point.site.side = .read → g.stage = .woken := by
    intro g hg _
    rw [← Option.some.inj (hf.symm.trans hg)]
    exact hst
  have hsome : c.waits.frame s.co ≠ none := by simp [hf]
  cases h with
  | createFailed | createdFailed | readFailed | canceled | lastSpawned | cancelFailed | finished => exact hc.leave hw
  | createWritten => exact hc.enter (s := .created) hw (fun _ => hc.loop hsome) (by simp [Site.co])
  | began =>
    have hleft := (hc.leave hw).enter (s := .next) (by simp [Site.co, hc.loop hsome]) (by simp [Site.co])
      (by simp [Site.co])
    have hcomm : (began c).waits = (c.waits.leave Site.created.co).enter .loop .next .lock := by
      simp [WatchContext.began, startReturns, goto, Waits.enter, Waits.leave, Site.co, Function.update_comm]
    rw [hcomm]
    exact hleft
  | spawned =>
    refine hc.enter (s := .next) hw (by simp [Site.co]) fun _ => ?_
    by_contra hn
    exact hsome (hc.loop hn)
  | @cancelWritten i => exact hc.cancel.enter (s := .finish i) hw (by simp [Site.co]) (by simp [Site.co])

/-- **The reads are sound in every run.** -/
theorem step_reads (hc : Reads c.waits) (h : lts.step c op c') : Reads c'.waits := by
  cases lts_stepped h with
  | wait hw => simpa using hc.step hw
  | @go a f c' hf hst hw =>
    obtain rfl := hc.placed a f hf
    exact went_reads hc hf hst hw
  | stopBegun =>
    refine hc.enter (s := .cancel c.stops) (fun f hf hk => ?_) (by simp [Site.co]) (by simp [Site.co])
    -- a call of `StopWatch` never reads
    have hco := hc.placed _ f hf
    rcases Reads.co_of_read hk with h | h <;> rw [h] at hco <;> cases hco
  | stopAtOnce | enter | invoke | leave | finish | copy | drop => exact hc
  | done => exact hc.cancel

theorem run_reads {ops : List (Op ε)} (h : lts.Run watch ops c) : Reads c.waits :=
  h.invariant (P := fun c => Reads c.waits) (fun _ _ _ hc hs => step_reads hc hs) watch_reads

end WatchContext
end LtApp.Etcd
