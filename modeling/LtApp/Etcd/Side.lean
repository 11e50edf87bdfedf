import Mathlib.Data.List.Basic
import LtApp.Etcd.Await

/-!
# One context among several

What happens on one context is a `Waits` of its own: the frames, the operations and the calls of resumers at the
places that wait on it (`side`). A step is a step of the side it is on, and no other side sees it
(`step_side`), so that the soundness of one context does not depend on how the others are used.
-/

namespace LtApp.Etcd
namespace Waits

variable {κ α σ : Type} [DecidableEq κ]

/-- What belongs to the context `k`. -/
@[simps] def side (on : σ → κ) (k : κ) (w : Waits κ α σ) : Waits κ α σ where
  ctx j    := if j = k then w.ctx k else {}
  frame a  := (w.frame a).filter fun f => on f.point.site = k
  inFlight := w.inFlight.filter fun p => on p.site = k
  calling  := w.calling.filter fun p => on p.site = k
  resumed  := w.resumed.filter fun r => on r.1.site = k
  serial   := w.serial

/-- Every resumer is of a place that waits on the context it is in. -/
def Housed (on : σ → κ) (w : Waits κ α σ) : Prop := ∀ k r, (w.ctx k).resumer = some r → on r.site = k

/-- The side a step is on. -/
def Op.At (on : σ → κ) (k : κ) (w : Waits κ α σ) : Op α σ → Prop
  | .lock a | .start a | .yield a => ∃ f, w.frame a = some f ∧ on f.point.site = k
  | .report p _ | .fire p => on p.site = k

section
variable {on : σ → κ} {of : σ → α} {w w' : Waits κ α σ} {k : κ} {a : α} {f : Frame σ} {p : Suspension σ}

theorem side_frame_eq : (w.side on k).frame a = some f ↔ w.frame a = some f ∧ on f.point.site = k := by
  simp [Option.filter_eq_some_iff]

theorem mem_side_inFlight : p ∈ (w.side on k).inFlight ↔ p ∈ w.inFlight ∧ on p.site = k := by simp

theorem mem_side_calling : p ∈ (w.side on k).calling ↔ p ∈ w.calling ∧ on p.site = k := by simp

theorem mem_side_resumed : p ∈ (w.side on k).resumed.map (·.1) ↔ p ∈ w.resumed.map (·.1) ∧ on p.site = k := by
  simp only [side_resumed, List.mem_map, List.mem_filter, decide_eq_true_eq]
  constructor
  · rintro ⟨r, ⟨hr, hk⟩, rfl⟩
    exact ⟨⟨r, hr, rfl⟩, hk⟩
  · rintro ⟨⟨r, hr, rfl⟩, hk⟩
    exact ⟨r, ⟨hr, hk⟩, rfl⟩

/-! ## Updates of a side -/

/-- The context of the side changes. -/
theorem ctx_update_self {x : CallContext (Suspension σ)} :
    (fun j => if j = k then x else {}) = Function.update (fun j => if j = k then w.ctx k else {}) k x := by
  ext1 j
  by_cases hj : j = k
  · simp [hj]
  · simp [hj]

/-- Another context changes. -/
theorem ctx_update_other {i : κ} {x : CallContext (Suspension σ)} (hi : i ≠ k) :
    (fun j => if j = k then Function.update w.ctx i x k else {}) = fun j => if j = k then w.ctx k else {} := by
  rw [Function.update_of_ne (Ne.symm hi)]

theorem side_setCtx_self {x : CallContext (Suspension σ)} : (w.setCtx k x).side on k = (w.side on k).setCtx k x := by
  simpa [side, setCtx] using ctx_update_self (w := w)

theorem side_setCtx_other {i : κ} {x : CallContext (Suspension σ)} (hi : i ≠ k) :
    (w.setCtx i x).side on k = w.side on k := by
  simp only [side, setCtx, Waits.mk.injEq, and_self, and_true]
  exact ctx_update_other hi

variable [DecidableEq α]

/-- A frame of the side changes. -/
theorem filter_update_self (hf : on f.point.site = k) :
    (fun b => (Function.update w.frame a (some f) b).filter fun f => on f.point.site = k) =
      Function.update (fun b => (w.frame b).filter fun f => on f.point.site = k) a (some f) := by
  ext1 b
  by_cases hb : b = a
  · subst hb
    simp [hf]
  · simp [hb]

/-- A frame of another side changes. -/
theorem filter_update_other {o : Option (Frame σ)} (ho : ∀ f, o = some f → on f.point.site ≠ k)
    (ha : ∀ f, w.frame a = some f → on f.point.site ≠ k) :
    (fun b => (Function.update w.frame a o b).filter fun f => on f.point.site = k) =
      fun b => (w.frame b).filter fun f => on f.point.site = k := by
  ext1 b
  by_cases hb : b = a
  · subst hb
    have hnone : ∀ x : Option (Frame σ), (∀ f, x = some f → on f.point.site ≠ k) →
        (x.filter fun f => on f.point.site = k) = none := by
      intro x hx
      rw [Option.filter_eq_none_iff]
      intro f hf
      simpa using hx f hf
    rw [Function.update_self, hnone o ho, hnone _ ha]
  · simp [hb]

theorem side_setStage_self {g : Stage} (hk : on f.point.site = k) :
    (w.setStage a f g).side on k = (w.side on k).setStage a f g := by
  simp only [side, setStage, Waits.mk.injEq, and_self, and_true, true_and]
  exact filter_update_self (f := { f with stage := g }) hk

theorem side_setStage_other {g : Stage} (hf : w.frame a = some f) (hk : on f.point.site ≠ k) :
    (w.setStage a f g).side on k = w.side on k := by
  simp only [side, setStage, Waits.mk.injEq, and_self, and_true, true_and]
  apply filter_update_other
  · rintro _ ⟨⟩
    exact hk
  · intro f' hf'
    obtain rfl : f = f' := Option.some.inj (hf.symm.trans hf')
    exact hk

theorem side_enter_self {s : σ} {g : Stage} (hk : on s = k) : (w.enter a s g).side on k = (w.side on k).enter a s g := by
  simp only [side, enter, Waits.mk.injEq, and_self, and_true, true_and]
  exact filter_update_self hk

theorem side_leave : (w.leave a).side on k = (w.side on k).leave a := by
  simp only [side, leave, Waits.mk.injEq, and_self, and_true, true_and]
  ext1 b
  by_cases hb : b = a
  · subst hb
    simp
  · simp [hb]

/-- Going to a place on another side is leaving this one. -/
theorem side_enter_other {s : σ} {g : Stage} (hk : on s ≠ k) :
    (w.enter a s g).side on k = { (w.side on k).leave a with serial := w.serial + 1 } := by
  simp only [side, enter, leave, Waits.mk.injEq, and_self, and_true, true_and]
  ext1 b
  by_cases hb : b = a
  · subst hb
    simp [hk]
  · simp [hb]

/-! ## Steps -/

theorem side_lock_self (hk : on f.point.site = k) : (w.lock on a f).side on k = (w.side on k).lock on a f := by
  subst hk
  unfold lock
  rw [side_setStage_self rfl, side_setCtx_self]
  simp

theorem side_lock_other (hf : w.frame a = some f) (hk : on f.point.site ≠ k) :
    (w.lock on a f).side on k = w.side on k := by
  unfold lock
  rw [side_setStage_other (by exact hf) hk, side_setCtx_other hk]

theorem side_start_self (hk : on f.point.site = k) : (w.start a f).side on k = (w.side on k).start a f := by
  have h := side_setStage_self (w := w) (a := a) (g := .yield) hk
  simp only [side, start, setStage, Waits.mk.injEq] at h ⊢
  simp [h.2.1, hk]

theorem side_start_other (hf : w.frame a = some f) (hk : on f.point.site ≠ k) :
    (w.start a f).side on k = w.side on k := by
  have h := side_setStage_other (g := .yield) hf hk
  simp only [side, start, setStage, Waits.mk.injEq] at h ⊢
  simp [h.2.1, hk]

variable [DecidableEq σ]

theorem filter_erase_other {l : List (Suspension σ)} (hk : on p.site ≠ k) :
    (l.erase p).filter (fun q => on q.site = k) = l.filter fun q => on q.site = k := by
  rw [← List.erase_filter, List.erase_of_not_mem]
  simp [hk]

omit [DecidableEq α] in
theorem side_report_self (hk : on p.site = k) (ok : Bool) :
    (w.report on p ok).side on k = (w.side on k).report on p ok := by
  subst hk
  simp only [side, report, setCtx, Waits.mk.injEq, true_and]
  exact ⟨by simpa using ctx_update_self (w := w), by simp [List.erase_filter], by simp⟩

omit [DecidableEq α] in
theorem side_report_other (hk : on p.site ≠ k) (ok : Bool) : (w.report on p ok).side on k = w.side on k := by
  simp only [side, report, setCtx, Waits.mk.injEq, true_and]
  exact ⟨ctx_update_other hk, filter_erase_other hk, by simp [hk]⟩

omit [DecidableEq κ] in
/-- A resumer nobody waits on has no effect. -/
theorem wake_over {r : Suspension σ} (h : ∀ f, w.frame (of r.site) = some f → f.point ≠ r) : w.wake of r = w := by
  unfold wake
  split
  · rfl
  · rename_i f hf
    rw [if_neg (h f hf)]

theorem side_wake_self {r : Suspension σ} (hr : on r.site = k) :
    (w.wake of r).side on k = (w.side on k).wake of r := by
  by_cases h : ∃ f, w.frame (of r.site) = some f ∧ f.point = r
  · obtain ⟨f, hf, rfl⟩ := h
    have hs : (w.side on k).frame (of f.point.site) = some f := side_frame_eq.2 ⟨hf, hr⟩
    simp only [wake, hf, hs, if_true]
    split
    · exact side_setStage_self hr
    · simp only [side, Waits.mk.injEq, and_self, and_true, true_and]
      exact filter_update_self (f := { f with called := true }) hr
  · have hne : ∀ f, w.frame (of r.site) = some f → f.point ≠ r := fun f hf hp => h ⟨f, hf, hp⟩
    rw [wake_over hne, wake_over fun f hf => hne f (side_frame_eq.1 hf).1]

theorem side_wake_other {r : Suspension σ} (hr : on r.site ≠ k) : (w.wake of r).side on k = w.side on k := by
  by_cases h : ∃ f, w.frame (of r.site) = some f ∧ f.point = r
  · obtain ⟨f, hf, rfl⟩ := h
    simp only [wake, hf, if_true]
    split
    · exact side_setStage_other hf hr
    · simp only [side, Waits.mk.injEq, and_self, and_true, true_and]
      refine filter_update_other ?_ fun g hg => ?_
      · rintro _ ⟨⟩
        exact hr
      · rwa [← Option.some.inj (hf.symm.trans hg)]
  · rw [wake_over fun f hf hp => h ⟨f, hf, hp⟩]

theorem side_fire_self (hh : w.Housed on) (hk : on p.site = k) :
    (w.fire on of p).side on k = (w.side on k).fire on of p := by
  subst hk
  have hw : ∀ r, side on (on p.site) { w with calling := w.calling.erase p, resumed := (p, r) :: w.resumed } =
      { w.side on (on p.site) with
        calling := (w.side on (on p.site)).calling.erase p
        resumed := (p, r) :: (w.side on (on p.site)).resumed } := by
    intro r
    simp [side, List.erase_filter]
  unfold fire
  simp only [side_ctx, if_true]
  cases hr : (w.ctx (on p.site)).resumer with
  | none => exact hw none
  | some r =>
    simp only
    rw [side_wake_self (hh _ r hr), hw]

theorem side_fire_other (hh : w.Housed on) (hk : on p.site ≠ k) : (w.fire on of p).side on k = w.side on k := by
  have hw : ∀ r, side on k { w with calling := w.calling.erase p, resumed := (p, r) :: w.resumed } = w.side on k := by
    intro r
    simp [side, filter_erase_other hk, hk]
  unfold fire
  cases hr : (w.ctx (on p.site)).resumer with
  | none => exact hw none
  | some r =>
    have hrk : on r.site ≠ k := by rwa [hh _ r hr]
    simp only
    rw [side_wake_other hrk, hw]

/-- **A step is a step of the side it is on**, and no other side sees it. -/
theorem step_side {op : Op α σ} (hh : w.Housed on) (h : w.step on of op = some w') (k : κ) :
    (op.At on k w ∧ (w.side on k).step on of op = some (w'.side on k)) ∨ (¬ op.At on k w ∧ w'.side on k = w.side on k) := by
  have hat : ∀ {a f g}, w.frame a = some f → f.stage = g → on f.point.site = k → (w.side on k).at? a g = some f := by
    intro a f g hf hg hk
    rw [at?, side_frame_eq.2 ⟨hf, hk⟩, Option.filter_some_pos (by simpa using hg)]
  have hother : ∀ {a f}, w.frame a = some f → on f.point.site ≠ k → ¬ ∃ g, w.frame a = some g ∧ on g.point.site = k := by
    rintro a f hf hk ⟨g, hg, hgk⟩
    exact hk (by rwa [Option.some.inj (hf.symm.trans hg)])
  cases step_stepped on of h with
  | @lock a f hf hst =>
    by_cases hk : on f.point.site = k
    · exact .inl ⟨⟨f, hf, hk⟩, by simp only [step, hat hf hst hk, Option.map_some, side_lock_self hk]⟩
    · exact .inr ⟨hother hf hk, side_lock_other hf hk⟩
  | @start a f hf hst =>
    by_cases hk : on f.point.site = k
    · exact .inl ⟨⟨f, hf, hk⟩, by simp only [step, hat hf hst hk, Option.map_some, side_start_self hk]⟩
    · exact .inr ⟨hother hf hk, side_start_other hf hk⟩
  | @yield a f hf hst =>
    by_cases hk : on f.point.site = k
    · refine .inl ⟨⟨f, hf, hk⟩, ?_⟩
      simp only [step, hat hf hst hk, Option.map_some, Waits.yield, side_setStage_self hk]
    · exact .inr ⟨hother hf hk, side_setStage_other hf hk⟩
  | @report p ok hp =>
    by_cases hk : on p.site = k
    · exact .inl ⟨hk, by simp only [step, if_pos (mem_side_inFlight.2 ⟨hp, hk⟩), side_report_self hk]⟩
    · exact .inr ⟨hk, side_report_other hk ok⟩
  | @fire p hp =>
    by_cases hk : on p.site = k
    · exact .inl ⟨hk, by simp only [step, if_pos (mem_side_calling.2 ⟨hp, hk⟩), side_fire_self hh hk]⟩
    · exact .inr ⟨hk, side_fire_other hh hk⟩

theorem step_housed {op : Op α σ} (hh : w.Housed on) (h : w.step on of op = some w') : w'.Housed on := by
  intro k r hr
  cases step_stepped on of h with
  | @lock a f hf hst =>
    by_cases hk : k = on f.point.site
    · subst hk
      obtain rfl : f.point = r := by simpa [lock] using hr
      rfl
    · exact hh k r (by simpa [lock, hk] using hr)
  | start | yield => exact hh k r hr
  | report hp => exact hh k r (by rwa [report_resumer] at hr)
  | fire hp => exact hh k r (by rwa [step_resumer h (by simp)] at hr)

/-! ## Soundness of a side -/

/-- One side is sound, whatever the others are. -/
structure SoundAt (on : σ → κ) (of : σ → α) (k : κ) (w : Waits κ α σ) : Prop where
  housed : w.Housed on
  sound  : (w.side on k).Sound on of

theorem SoundAt.step {op : Op α σ} (hw : w.SoundAt on of k) (hc : op.At on k w → op.Clear on (w.side on k))
    (h : w.step on of op = some w') : w'.SoundAt on of k := by
  refine ⟨step_housed hw.housed h, ?_⟩
  rcases step_side hw.housed h k with ⟨hat, hs⟩ | ⟨-, hs⟩
  · exact step_sound hw.sound (hc hat) hs
  · rw [hs]
    exact hw.sound

omit [DecidableEq κ] [DecidableEq α] [DecidableEq σ] in
/-- A serial number is left out. -/
theorem Sound.skip (h : w.Sound on of) : Sound on of { w with serial := w.serial + 1 } :=
  ⟨h.own, h.once, h.placed, h.suits, h.slot, h.framed, fun p hp => Nat.lt_succ_of_lt (h.fresh p hp),
    fun a f hf => Nat.lt_succ_of_lt (h.dated a f hf)⟩

omit [DecidableEq σ] in
theorem SoundAt.enter {s : σ} (hw : w.SoundAt on of k) (hs : of s = a)
    (ha : ∀ f, w.frame a = some f → on f.point.site = k → f.stage = .woken) : (w.enter a s .lock).SoundAt on of k := by
  have hside : ∀ f, (w.side on k).frame a = some f → f.stage = .woken := by
    intro f hf
    obtain ⟨hf, hk⟩ := side_frame_eq.1 hf
    exact ha f hf hk
  refine ⟨hw.housed, ?_⟩
  by_cases hk : on s = k
  · rw [side_enter_self hk]
    exact hw.sound.enter hs hside
  · rw [side_enter_other hk]
    exact (hw.sound.leave hside).skip

omit [DecidableEq σ] in
theorem SoundAt.leave (hw : w.SoundAt on of k)
    (ha : ∀ f, w.frame a = some f → on f.point.site = k → f.stage = .woken) : (w.leave a).SoundAt on of k := by
  refine ⟨hw.housed, ?_⟩
  rw [side_leave]
  refine hw.sound.leave fun f hf => ?_
  obtain ⟨hf, hk⟩ := side_frame_eq.1 hf
  exact ha f hf hk

omit [DecidableEq α] [DecidableEq σ] in
theorem SoundAt.setCtx (hw : w.SoundAt on of k) {i : κ} {x : CallContext (Suspension σ)}
    (hx : x.resumer = (w.ctx i).resumer) : (w.setCtx i x).SoundAt on of k := by
  refine ⟨fun j r hr => ?_, ?_⟩
  · by_cases hj : j = i
    · subst hj
      exact hw.housed j r (by simpa [hx] using hr)
    · exact hw.housed j r (by simpa [hj] using hr)
  · by_cases hi : i = k
    · subst hi
      rw [side_setCtx_self]
      exact hw.sound.setCtx (by simpa using hx)
    · rw [side_setCtx_other hi]
      exact hw.sound

end

end Waits
end LtApp.Etcd
