import Mathlib.Logic.Function.Basic
import Mathlib.Data.List.Nodup
import LtApp.Etcd.CallContext

/-!
# Coroutines that wait for a callback

`LockContext`, the start of an operation and `CO_YIELD` are written out at every place that waits; the callback of the
operation calls `ResumeContext`. `Waits` is the state of all coroutines, contexts and operations that meet this way:
`α` are the coroutines, `κ` the contexts, `σ` the places in the code, and a suspension is one visit to a place.

`ResumeContext` runs on another thread, in two steps (`report`, `fire`). A resumer that is called before its coroutine
has yielded takes effect when it yields; one of a suspension that is over has no effect.

`Exact` says what waiting is for: each callback has called the resumer of its own suspension, none twice, and whoever
is suspended has an operation under way. It is kept wherever `LockContext` is called on a context nobody uses
(`step_sound`).
-/

namespace LtApp.Etcd

/-- One visit to a place that yields. -/
structure Suspension (σ : Type) where
  site   : σ
  serial : Nat
deriving DecidableEq, Repr

inductive Stage
  /-- Before `LockContext`. -/
  | lock
  /-- Before the operation is started. -/
  | start
  /-- Before `CO_YIELD`. -/
  | yield
  | parked
  /-- Resumed. -/
  | woken
deriving DecidableEq, Repr

/-- Where a coroutine is. -/
structure Frame (σ : Type) where
  point  : Suspension σ
  stage  : Stage
  /-- The resumer has been called before the yield. -/
  called : Bool := false
deriving DecidableEq, Repr

structure Waits (κ α σ : Type) where
  ctx      : κ → CallContext (Suspension σ) := fun _ => {}
  frame    : α → Option (Frame σ) := fun _ => none
  /-- Operations started and not reported, and those whose `ResumeContext` is about to call `resumer_`. -/
  inFlight : List (Suspension σ) := []
  calling  : List (Suspension σ) := []
  /-- History: each operation that has been reported, and the resumer its callback has called. -/
  resumed  : List (Suspension σ × Option (Suspension σ)) := []
  serial   : Nat := 0

namespace Waits

variable {κ α σ : Type} (on : σ → κ) (of : σ → α)

section
variable [DecidableEq κ] [DecidableEq α] [DecidableEq σ]

/-- The coroutine comes to the place. -/
@[simps] def enter (a : α) (s : σ) (g : Stage) (w : Waits κ α σ) : Waits κ α σ :=
  { w with frame := Function.update w.frame a (some ⟨⟨s, w.serial⟩, g, false⟩), serial := w.serial + 1 }

/-- The coroutine waits no more. -/
@[simps] def leave (a : α) (w : Waits κ α σ) : Waits κ α σ := { w with frame := Function.update w.frame a none }

@[simps] def setStage (a : α) (f : Frame σ) (g : Stage) (w : Waits κ α σ) : Waits κ α σ :=
  { w with frame := Function.update w.frame a (some { f with stage := g }) }

@[simps] def setCtx (k : κ) (x : CallContext (Suspension σ)) (w : Waits κ α σ) : Waits κ α σ :=
  { w with ctx := Function.update w.ctx k x }

/-- `LockContext`. -/
def lock (a : α) (f : Frame σ) (w : Waits κ α σ) : Waits κ α σ :=
  (w.setCtx (on f.point.site) ((w.ctx (on f.point.site)).lockContext f.point)).setStage a f .start

/-- The operation is started. -/
def start (a : α) (f : Frame σ) (w : Waits κ α σ) : Waits κ α σ :=
  { w.setStage a f .yield with inFlight := f.point :: w.inFlight }

/-- `CO_YIELD`. -/
def yield (a : α) (f : Frame σ) (w : Waits κ α σ) : Waits κ α σ :=
  w.setStage a f (if f.called then .woken else .parked)

/-- The operation is reported: the first half of `ResumeContext`. -/
def report (p : Suspension σ) (ok : Bool) (w : Waits κ α σ) : Waits κ α σ :=
  { w.setCtx (on p.site) ((w.ctx (on p.site)).report ok) with
    inFlight := w.inFlight.erase p, calling := p :: w.calling }

/-- The resumer of `r` is called. -/
def wake (r : Suspension σ) (w : Waits κ α σ) : Waits κ α σ :=
  match w.frame (of r.site) with
  | none => w
  | some f =>
    if f.point = r then
      if f.stage = .parked then w.setStage (of r.site) f .woken
      else { w with frame := Function.update w.frame (of r.site) (some { f with called := true }) }
    else w

/-- The second half of `ResumeContext`. -/
def fire (p : Suspension σ) (w : Waits κ α σ) : Waits κ α σ :=
  let r := (w.ctx (on p.site)).resumer
  let w := { w with calling := w.calling.erase p, resumed := (p, r) :: w.resumed }
  match r with
  | none => w
  | some r => wake of r w

inductive Op (α σ : Type)
  | lock (a : α)
  | start (a : α)
  | yield (a : α)
  | report (p : Suspension σ) (ok : Bool)
  | fire (p : Suspension σ)
deriving DecidableEq, Repr

/-- The frame of the coroutine, where it is at the stage. -/
def at? (a : α) (g : Stage) (w : Waits κ α σ) : Option (Frame σ) := (w.frame a).filter fun f => f.stage = g

def step (w : Waits κ α σ) : Op α σ → Option (Waits κ α σ)
  | .lock a => (w.at? a .lock).map fun f => lock on a f w
  | .start a => (w.at? a .start).map fun f => start a f w
  | .yield a => (w.at? a .yield).map fun f => yield a f w
  | .report p ok => if p ∈ w.inFlight then some (report on p ok w) else none
  | .fire p => if p ∈ w.calling then some (fire on of p w) else none

/-- Everything a step can do. -/
inductive Stepped (w : Waits κ α σ) : Op α σ → Waits κ α σ → Prop
  | lock {a f} : w.frame a = some f → f.stage = .lock → Stepped w (.lock a) (w.lock on a f)
  | start {a f} : w.frame a = some f → f.stage = .start → Stepped w (.start a) (w.start a f)
  | yield {a f} : w.frame a = some f → f.stage = .yield → Stepped w (.yield a) (w.yield a f)
  | report {p ok} : p ∈ w.inFlight → Stepped w (.report p ok) (w.report on p ok)
  | fire {p} : p ∈ w.calling → Stepped w (.fire p) (w.fire on of p)

omit [DecidableEq κ] [DecidableEq α] [DecidableEq σ] in
theorem at?_eq {w : Waits κ α σ} {a : α} {f : Frame σ} {g : Stage} (h : w.at? a g = some f) :
    w.frame a = some f ∧ f.stage = g := by
  simpa [at?, Option.filter_eq_some_iff] using h

theorem step_stepped {w w' : Waits κ α σ} {op : Op α σ} (h : w.step on of op = some w') : Stepped on of w op w' := by
  cases op with
  | lock a =>
    obtain ⟨f, hf, rfl⟩ := Option.map_eq_some_iff.1 h
    exact .lock (at?_eq hf).1 (at?_eq hf).2
  | start a =>
    obtain ⟨f, hf, rfl⟩ := Option.map_eq_some_iff.1 h
    exact .start (at?_eq hf).1 (at?_eq hf).2
  | yield a =>
    obtain ⟨f, hf, rfl⟩ := Option.map_eq_some_iff.1 h
    exact .yield (at?_eq hf).1 (at?_eq hf).2
  | report p ok =>
    simp only [step] at h
    split at h
    · exact Option.some.inj h ▸ .report ‹_›
    · cases h
  | fire p =>
    simp only [step] at h
    split at h
    · exact Option.some.inj h ▸ .fire ‹_›
    · cases h

end

/-! ## Exactly once -/

/-- The operations started so far. -/
def ops (w : Waits κ α σ) : List (Suspension σ) := w.inFlight ++ w.calling ++ w.resumed.map (·.1)

/-- Each callback has called the resumer of its own suspension, and no suspension has had two; who is suspended has
an operation under way, and who has been resumed has been by the callback of its own. -/
structure Exact (w : Waits κ α σ) : Prop where
  own    : ∀ p r, (p, r) ∈ w.resumed → r = some p
  once   : (w.resumed.map (·.1)).Nodup
  parked : ∀ a f, w.frame a = some f → f.stage = .parked → f.point ∈ w.inFlight ∨ f.point ∈ w.calling
  woken  : ∀ a f, w.frame a = some f → f.stage = .woken → f.point ∈ w.resumed.map (·.1)

/-- The resumer in the context is of a suspension that is over. -/
def Free (k : κ) (w : Waits κ α σ) : Prop :=
  match (w.ctx k).resumer with
  | some r => r ∈ w.resumed.map (·.1)
  | none => True

/-- `LockContext` is called on a context nobody uses. -/
def Op.Clear (w : Waits κ α σ) : Op α σ → Prop
  | .lock a =>
    match w.frame a with
    | some f => w.Free (on f.point.site)
    | none => True
  | _ => True

instance Free.decidable [DecidableEq σ] (k : κ) (w : Waits κ α σ) : Decidable (w.Free k) := by
  unfold Free; split <;> infer_instance

instance Op.decidableClear [DecidableEq σ] (w : Waits κ α σ) (op : Op α σ) : Decidable (op.Clear on w) := by
  unfold Op.Clear; split
  · split <;> infer_instance
  · infer_instance

/-- The callback of the operation has come. -/
def Reported (w : Waits κ α σ) (p : Suspension σ) : Prop := p ∈ w.calling ∨ p ∈ w.resumed.map (·.1)

instance Reported.decidable [DecidableEq σ] (w : Waits κ α σ) (p : Suspension σ) : Decidable (w.Reported p) := by
  unfold Reported
  infer_instance

/-- What its stage says of a frame's operation. -/
def Suits (w : Waits κ α σ) (f : Frame σ) : Prop :=
  match f.stage with
  | .lock => f.called = false ∧ f.point ∉ w.ops
  | .start => f.called = false ∧ f.point ∉ w.ops ∧ (w.ctx (on f.point.site)).resumer = some f.point
  | .yield =>
    if f.called then f.point ∈ w.resumed.map (·.1) else f.point ∈ w.inFlight ∨ f.point ∈ w.calling
  | .parked => f.called = false ∧ (f.point ∈ w.inFlight ∨ f.point ∈ w.calling)
  | .woken => f.point ∈ w.resumed.map (·.1)

structure Sound (w : Waits κ α σ) : Prop where
  own    : ∀ p r, (p, r) ∈ w.resumed → r = some p
  once   : w.ops.Nodup
  placed : ∀ a f, w.frame a = some f → of f.point.site = a
  suits  : ∀ a f, w.frame a = some f → w.Suits on f
  slot   : ∀ p, p ∈ w.inFlight ∨ p ∈ w.calling → (w.ctx (on p.site)).resumer = some p
  framed : ∀ p, p ∈ w.inFlight ∨ p ∈ w.calling → ∃ f, w.frame (of p.site) = some f ∧ f.point = p
  fresh  : ∀ p ∈ w.ops, p.serial < w.serial
  dated  : ∀ a f, w.frame a = some f → f.point.serial < w.serial

section
variable {on of} {w w' : Waits κ α σ} {a : α} {f : Frame σ} {p : Suspension σ}

theorem mem_ops : p ∈ w.ops ↔ (p ∈ w.inFlight ∨ p ∈ w.calling) ∨ p ∈ w.resumed.map (·.1) := by
  simp [ops, or_assoc]

theorem Sound.exact (h : w.Sound on of) : w.Exact where
  own := h.own
  once := (List.nodup_append.1 h.once).2.1
  parked a f hf hs := by
    have := h.suits a f hf
    simp only [Suits, hs] at this
    exact this.2
  woken a f hf hs := by simpa only [Suits, hs] using h.suits a f hf

theorem sound_nil : Sound on of ({} : Waits κ α σ) := by
  constructor <;> simp [ops]

theorem Free.over {k : κ} (h : w.Free k) (hp : (w.ctx k).resumer = some p) : p ∈ w.resumed.map (·.1) := by
  simpa only [Free, hp] using h

/-- An operation under way has not been called back. -/
theorem Sound.apart (h : w.Sound on of) (hp : p ∈ w.inFlight ∨ p ∈ w.calling) : p ∉ w.resumed.map (·.1) := by
  intro hr
  have hd := (List.nodup_append.1 h.once).2.2
  exact hd p (List.mem_append.2 hp) p hr rfl

/-- Coroutines are at different suspensions. -/
theorem Sound.point_ne (h : w.Sound on of) {b : α} {g : Frame σ} (hf : w.frame a = some f) (hg : w.frame b = some g)
    (hb : b ≠ a) : g.point ≠ f.point := by
  intro he
  have hfa := h.placed a f hf
  have hgb := h.placed b g hg
  rw [he] at hgb
  exact hb (hgb.symm.trans hfa)

/-- Who is awake has nothing under way. -/
theorem Sound.idle (h : w.Sound on of) (ha : ∀ f, w.frame a = some f → f.stage = .woken)
    (hp : p ∈ w.inFlight ∨ p ∈ w.calling) : of p.site ≠ a := by
  rintro rfl
  obtain ⟨f, hf, rfl⟩ := h.framed p hp
  have hs := h.suits _ f hf
  simp only [Suits, ha f hf] at hs
  exact h.apart hp hs

/-- What a frame's stage says stays true where its own operation stays what it is. -/
theorem Suits.congr (h : w.Suits on f) (hops : f.point ∉ w.ops → f.point ∉ w'.ops)
    (hway : f.point ∈ w.inFlight ∨ f.point ∈ w.calling → f.point ∈ w'.inFlight ∨ f.point ∈ w'.calling)
    (hover : f.point ∈ w.resumed.map (·.1) → f.point ∈ w'.resumed.map (·.1))
    (hslot : f.point ∉ w.ops → (w.ctx (on f.point.site)).resumer = some f.point →
      (w'.ctx (on f.point.site)).resumer = some f.point) : w'.Suits on f := by
  unfold Suits at h ⊢
  cases hs : f.stage <;> simp only [hs] at h ⊢
  · exact ⟨h.1, hops h.2⟩
  · exact ⟨h.1, hops h.2.1, hslot h.2.1 h.2.2⟩
  · cases hc : f.called with
    | true => exact hover (by simpa only [hc, if_true] using h)
    | false => exact hway (by simpa only [hc, Bool.false_eq_true, if_false] using h)
  · exact ⟨h.1, hway h.2⟩
  · exact hover h

variable [DecidableEq α]

theorem Sound.enter (h : w.Sound on of) {s : σ} (hs : of s = a) (ha : ∀ f, w.frame a = some f → f.stage = .woken) :
    (w.enter a s .lock).Sound on of where
  own := h.own
  once := h.once
  placed b f hf := by
    by_cases hb : b = a
    · subst hb
      obtain rfl : Frame.mk ⟨s, w.serial⟩ .lock false = f := by simpa using hf
      exact hs
    · exact h.placed b f (by simpa [hb] using hf)
  suits b f hf := by
    by_cases hb : b = a
    · subst hb
      obtain rfl : Frame.mk ⟨s, w.serial⟩ .lock false = f := by simpa using hf
      refine ⟨rfl, fun hm => ?_⟩
      have := h.fresh _ hm
      simp at this
    · exact h.suits b f (by simpa [hb] using hf)
  slot := h.slot
  framed p hp := by
    obtain ⟨f, hf, hfp⟩ := h.framed p hp
    exact ⟨f, by simpa [h.idle ha hp] using hf, hfp⟩
  fresh p hp := Nat.lt_succ_of_lt (h.fresh p hp)
  dated b f hf := by
    by_cases hb : b = a
    · subst hb
      obtain rfl : Frame.mk ⟨s, w.serial⟩ .lock false = f := by simpa using hf
      exact Nat.lt_succ_self _
    · exact Nat.lt_succ_of_lt (h.dated b f (by simpa [hb] using hf))

theorem Sound.leave (h : w.Sound on of) (ha : ∀ f, w.frame a = some f → f.stage = .woken) :
    (w.leave a).Sound on of := by
  have hother : ∀ b f, (w.leave a).frame b = some f → w.frame b = some f := by
    intro b f hf
    by_cases hb : b = a
    · simp [hb] at hf
    · simpa [hb] using hf
  refine ⟨h.own, h.once, fun b f hf => h.placed b f (hother b f hf), fun b f hf => h.suits b f (hother b f hf), h.slot,
    fun p hp => ?_, h.fresh, fun b f hf => h.dated b f (hother b f hf)⟩
  obtain ⟨f, hf, hfp⟩ := h.framed p hp
  exact ⟨f, by simpa [h.idle ha hp] using hf, hfp⟩

/-- A coroutine goes to its next stage. -/
theorem frame_setStage {g : Stage} {b : α} {f' : Frame σ} (hf : (w.setStage a f g).frame b = some f') :
    (b = a ∧ f' = { f with stage := g }) ∨ (b ≠ a ∧ w.frame b = some f') := by
  by_cases hb : b = a
  · subst hb
    exact .inl ⟨rfl, by simpa using hf.symm⟩
  · exact .inr ⟨hb, by simpa [hb] using hf⟩

theorem framed_setStage {g : Stage} (hf : w.frame a = some f) {q : Suspension σ}
    (h : ∃ f, w.frame (of q.site) = some f ∧ f.point = q) :
    ∃ f', (w.setStage a f g).frame (of q.site) = some f' ∧ f'.point = q := by
  obtain ⟨f', hf', rfl⟩ := h
  by_cases hb : of f'.point.site = a
  · rw [hb, hf, Option.some.injEq] at hf'
    exact ⟨{ f with stage := g }, by rw [hb]; simp, by rw [hf']⟩
  · exact ⟨f', by simpa [hb] using hf', rfl⟩

theorem Sound.yield (h : w.Sound on of) (hf : w.frame a = some f) (hs : f.stage = .yield) :
    (w.yield a f).Sound on of where
  own := h.own
  once := h.once
  placed b g hg := by
    rcases frame_setStage hg with ⟨rfl, rfl⟩ | ⟨-, hg⟩
    · exact h.placed b f hf
    · exact h.placed b g hg
  suits b g hg := by
    rcases frame_setStage hg with ⟨rfl, rfl⟩ | ⟨-, hg⟩
    · have hsuits := h.suits b f hf
      simp only [Suits, hs] at hsuits
      cases hc : f.called with
      | true =>
        simp only [hc, if_true] at hsuits
        exact hsuits
      | false =>
        simp only [hc, Bool.false_eq_true, if_false] at hsuits
        exact ⟨rfl, hsuits⟩
    · exact h.suits b g hg
  slot := h.slot
  framed p hp := framed_setStage hf (h.framed p hp)
  fresh := h.fresh
  dated b g hg := by
    rcases frame_setStage hg with ⟨rfl, rfl⟩ | ⟨-, hg⟩
    · exact h.dated b f hf
    · exact h.dated b g hg

theorem Sound.start (h : w.Sound on of) (hf : w.frame a = some f) (hs : f.stage = .start) :
    (w.start a f).Sound on of := by
  have hsuits := h.suits a f hf
  simp only [Suits, hs] at hsuits
  obtain ⟨hcalled, hnew, hslot⟩ := hsuits
  have hmem : ∀ {q : Suspension σ}, q ∈ (w.start a f).inFlight ∨ q ∈ (w.start a f).calling ↔
      q = f.point ∨ (q ∈ w.inFlight ∨ q ∈ w.calling) := by simp [Waits.start, or_assoc]
  constructor
  case own => exact h.own
  case once => exact List.nodup_cons.2 ⟨hnew, h.once⟩
  case placed =>
    intro b g hg
    rcases frame_setStage hg with ⟨rfl, rfl⟩ | ⟨-, hg⟩
    · exact h.placed b f hf
    · exact h.placed b g hg
  case suits =>
    intro b g hg
    rcases frame_setStage hg with ⟨rfl, rfl⟩ | ⟨hb, hg⟩
    · simp [Suits, hcalled, Waits.start]
    · have hne := h.point_ne hf hg hb
      refine (h.suits b g hg).congr (fun hn hm => ?_) (fun hw => hmem.2 (.inr hw)) id fun _ hr => hr
      rcases List.mem_cons.1 hm with hm | hm
      · exact hne hm
      · exact hn hm
  case slot =>
    intro p hp
    rcases hmem.1 hp with rfl | hp
    · exact hslot
    · exact h.slot p hp
  case framed =>
    intro p hp
    rcases hmem.1 hp with rfl | hp
    · exact framed_setStage (w := { w with inFlight := _ }) hf ⟨f, by rw [h.placed a f hf]; exact hf, rfl⟩
    · exact framed_setStage (w := { w with inFlight := _ }) hf (h.framed p hp)
  case fresh =>
    intro p hp
    rcases List.mem_cons.1 hp with rfl | hp
    · exact h.dated a f hf
    · exact h.fresh p hp
  case dated =>
    intro b g hg
    rcases frame_setStage hg with ⟨rfl, rfl⟩ | ⟨-, hg⟩
    · exact h.dated b f hf
    · exact h.dated b g hg

variable [DecidableEq κ]

theorem Sound.lock (h : w.Sound on of) (hf : w.frame a = some f) (hs : f.stage = .lock)
    (hfree : w.Free (on f.point.site)) : (w.lock on a f).Sound on of where
  own := h.own
  once := h.once
  placed b g hg := by
    rcases frame_setStage hg with ⟨rfl, rfl⟩ | ⟨-, hg⟩
    · exact h.placed b f hf
    · exact h.placed b g hg
  suits b g hg := by
    rcases frame_setStage hg with ⟨rfl, rfl⟩ | ⟨-, hg⟩
    · have hsuits := h.suits b f hf
      simp only [Suits, hs] at hsuits
      exact ⟨hsuits.1, hsuits.2, by simp [Waits.lock]⟩
    · refine (h.suits b g hg).congr id id id fun hn hr => ?_
      by_cases hk : on g.point.site = on f.point.site
      · -- its resumer would be of a suspension that is over
        have hover := hfree.over (by rw [← hk]; exact hr)
        exact absurd (mem_ops.2 (.inr hover)) hn
      · simpa [Waits.lock, hk] using hr
  slot p hp := by
    by_cases hk : on p.site = on f.point.site
    · have hover := hfree.over (by rw [← hk]; exact h.slot p hp)
      exact absurd hover (h.apart hp)
    · simpa [Waits.lock, hk] using h.slot p hp
  framed p hp := framed_setStage (w := w.setCtx _ _) hf (h.framed p hp)
  fresh := h.fresh
  dated b g hg := by
    rcases frame_setStage hg with ⟨rfl, rfl⟩ | ⟨-, hg⟩
    · exact h.dated b f hf
    · exact h.dated b g hg

variable [DecidableEq σ]

variable (on) in
omit [DecidableEq α] in
theorem report_perm (hp : p ∈ w.inFlight) (ok : Bool) : (w.report on p ok).ops.Perm w.ops := by
  refine List.Perm.append_right _ ?_
  exact List.perm_middle.trans (List.Perm.append_right w.calling (List.perm_cons_erase hp).symm)

omit [DecidableEq α] in
/-- A report leaves the operation under way. -/
theorem mem_report (hp : p ∈ w.inFlight) (ok : Bool) {q : Suspension σ} :
    q ∈ (w.report on p ok).inFlight ∨ q ∈ (w.report on p ok).calling ↔ q ∈ w.inFlight ∨ q ∈ w.calling := by
  have hperm := List.perm_middle.trans (List.Perm.append_right w.calling (List.perm_cons_erase hp).symm)
  simpa [Waits.report] using hperm.mem_iff (a := q)

omit [DecidableEq α] in
theorem report_resumer (p : Suspension σ) (ok : Bool) (k : κ) :
    ((w.report on p ok).ctx k).resumer = (w.ctx k).resumer := by
  by_cases hk : k = on p.site
  · subst hk
    simp [Waits.report]
  · simp [Waits.report, hk]

omit [DecidableEq α] in
theorem Sound.report (h : w.Sound on of) (hp : p ∈ w.inFlight) (ok : Bool) : (w.report on p ok).Sound on of := by
  have hperm := report_perm on hp ok
  constructor
  case own => exact h.own
  case once => exact hperm.nodup_iff.2 h.once
  case placed => exact h.placed
  case suits =>
    intro b g hg
    refine (h.suits b g hg).congr (fun hn hm => hn (hperm.mem_iff.1 hm)) (mem_report hp ok).2 id fun _ hr => ?_
    rw [report_resumer]
    exact hr
  case slot =>
    intro q hq
    rw [report_resumer]
    exact h.slot q ((mem_report hp ok).1 hq)
  case framed => exact fun q hq => h.framed q ((mem_report hp ok).1 hq)
  case fresh => exact fun q hq => h.fresh q (hperm.mem_iff.1 hq)
  case dated => exact h.dated

omit [DecidableEq κ] in
/-- A callback calls the resumer of its own suspension, whose coroutine is suspended or about to be. -/
theorem Sound.fire_eq (h : w.Sound on of) (hp : p ∈ w.calling) :
    ∃ f', f'.point = p ∧ (f'.stage = .woken ∨ (f'.stage = .yield ∧ f'.called = true)) ∧
      w.fire on of p =
        { w with
          frame := Function.update w.frame (of p.site) (some f')
          calling := w.calling.erase p
          resumed := (p, some p) :: w.resumed } := by
  obtain ⟨f, hf, hfp⟩ := h.framed p (.inr hp)
  have hslot := h.slot p (.inr hp)
  have hover : p ∉ w.resumed.map (·.1) := h.apart (.inr hp)
  have hops : p ∈ w.ops := mem_ops.2 (.inl (.inr hp))
  have hsuits := h.suits _ f hf
  rw [← hfp] at hover hops
  unfold Suits at hsuits
  cases hs : f.stage <;> simp only [hs] at hsuits
  · exact absurd hops hsuits.2
  · exact absurd hops hsuits.2.1
  · exact ⟨{ f with called := true }, hfp, .inr ⟨hs, rfl⟩, by simp [fire, hslot, wake, hf, hfp, hs]⟩
  · exact ⟨{ f with stage := .woken }, hfp, .inl rfl, by simp [fire, hslot, wake, hf, hfp, hs, setStage]⟩
  · exact absurd hsuits hover

omit [DecidableEq κ] in
theorem Sound.fire (h : w.Sound on of) (hp : p ∈ w.calling) : (w.fire on of p).Sound on of := by
  obtain ⟨f', hfp, hs, heq⟩ := h.fire_eq hp
  rw [heq]
  have hcalling := List.perm_cons_erase hp
  have hperm : (w.inFlight ++ w.calling.erase p ++ p :: w.resumed.map (·.1)).Perm w.ops := by
    refine List.perm_middle.trans ?_
    rw [← List.cons_append]
    refine List.Perm.append_right _ (List.perm_middle.symm.trans ?_)
    exact List.Perm.append_left _ hcalling.symm
  have hother : ∀ {b g}, Function.update w.frame (of p.site) (some f') b = some g →
      (b = of p.site ∧ g = f') ∨ (b ≠ of p.site ∧ w.frame b = some g ∧ g.point ≠ p) := by
    intro b g hg
    by_cases hb : b = of p.site
    · subst hb
      exact .inl ⟨rfl, by simpa using hg.symm⟩
    · have hg : w.frame b = some g := by simpa [hb] using hg
      exact .inr ⟨hb, hg, fun he => hb (by rw [← he, h.placed b g hg])⟩
  have hway : ∀ {q}, q ∈ w.inFlight ∨ q ∈ w.calling.erase p → (q ∈ w.inFlight ∨ q ∈ w.calling) :=
    fun hq => hq.imp_right List.mem_of_mem_erase
  have hne : ∀ {q}, q ≠ p → q ∈ w.inFlight ∨ q ∈ w.calling → q ∈ w.inFlight ∨ q ∈ w.calling.erase p :=
    fun hq hm => hm.imp_right (List.mem_erase_of_ne hq).2
  have hnodup : (w.inFlight ++ w.calling.erase p ++ p :: w.resumed.map (·.1)).Nodup := hperm.nodup_iff.2 h.once
  constructor
  case own =>
    intro q r hq
    rcases List.mem_cons.1 hq with hq | hq
    · obtain ⟨rfl, rfl⟩ := Prod.mk.inj hq
      rfl
    · exact h.own q r hq
  case once => exact hnodup
  case placed =>
    intro b g hg
    rcases hother hg with ⟨rfl, rfl⟩ | ⟨-, hg, -⟩
    · rw [hfp]
    · exact h.placed b g hg
  case suits =>
    intro b g hg
    rcases hother hg with ⟨rfl, rfl⟩ | ⟨-, hg, hne'⟩
    · rcases hs with hs | ⟨hs, hc⟩
      · simp [Suits, hs, hfp]
      · simp [Suits, hs, hc, hfp]
    · exact (h.suits b g hg).congr (fun hn hm => hn (hperm.mem_iff.1 hm)) (hne hne') (List.mem_cons_of_mem _)
        fun _ hr => hr
  case slot => exact fun q hq => h.slot q (hway hq)
  case framed =>
    intro q hq
    have hqp : q ≠ p := by
      rintro rfl
      exact (List.nodup_append.1 hnodup).2.2 q (List.mem_append.2 hq) q List.mem_cons_self rfl
    obtain ⟨g, hg, hgq⟩ := h.framed q (hway hq)
    have hb : of q.site ≠ of p.site := by
      intro hb
      obtain ⟨f, hf, hfp'⟩ := h.framed p (.inr hp)
      rw [hb, hf, Option.some.injEq] at hg
      exact hqp (by rw [← hgq, ← hg, hfp'])
    exact ⟨g, by simpa [hb] using hg, hgq⟩
  case fresh => exact fun q hq => h.fresh q (hperm.mem_iff.1 hq)
  case dated =>
    intro b g hg
    rcases hother hg with ⟨rfl, rfl⟩ | ⟨-, hg, -⟩
    · exact hfp ▸ h.fresh p (mem_ops.2 (.inl (.inr hp)))
    · exact h.dated b g hg

omit [DecidableEq α] [DecidableEq σ] in
/-- A context whose resumer stays is as good as before. -/
theorem Sound.setCtx (h : w.Sound on of) {k : κ} {x : CallContext (Suspension σ)}
    (hx : x.resumer = (w.ctx k).resumer) : (w.setCtx k x).Sound on of := by
  have hctx : ∀ j, ((w.setCtx k x).ctx j).resumer = (w.ctx j).resumer := by
    intro j
    by_cases hj : j = k
    · subst hj
      simpa using hx
    · simp [hj]
  refine ⟨h.own, h.once, h.placed, fun b g hg => ?_, fun q hq => ?_, h.framed, h.fresh, h.dated⟩
  · refine (h.suits b g hg).congr id id id fun _ hr => ?_
    rw [hctx]
    exact hr
  · rw [hctx]
    exact h.slot q hq

variable (on of) in
omit [DecidableEq κ] in
/-- What calling a resumer does: to one frame, or to none. -/
theorem fire_cases (p : Suspension σ) (w : Waits κ α σ) :
    w.fire on of p = { w with
        calling := w.calling.erase p
        resumed := (p, (w.ctx (on p.site)).resumer) :: w.resumed } ∨
      ∃ a f f', w.frame a = some f ∧ f'.point = f.point ∧ (f'.stage = f.stage ∨ f'.stage = .woken) ∧
        w.fire on of p = { w with
          frame := Function.update w.frame a (some f')
          calling := w.calling.erase p
          resumed := (p, (w.ctx (on p.site)).resumer) :: w.resumed } := by
  unfold Waits.fire wake
  cases (w.ctx (on p.site)).resumer with
  | none => exact .inl rfl
  | some r =>
    simp only
    split
    · exact .inl rfl
    · rename_i f hf
      split
      · split
        · exact .inr ⟨_, f, { f with stage := .woken }, hf, rfl, .inr rfl, rfl⟩
        · exact .inr ⟨_, f, { f with called := true }, hf, rfl, .inl rfl, rfl⟩
      · exact .inl rfl

/-- Nobody begins or ceases to wait, or comes back to `LockContext`. -/
theorem step_frame {op : Op α σ} (hs : w.step on of op = some w') (b : α) :
    (w'.frame b).isSome = (w.frame b).isSome ∧
      ∀ f', w'.frame b = some f' → f'.stage = .lock → ∃ f, w.frame b = some f ∧ f.stage = .lock := by
  have hset : ∀ {v : Waits κ α σ} {a : α} {f f' : Frame σ}, v.frame a = some f →
      (f'.stage = .lock → f.stage = .lock) →
      (Function.update v.frame a (some f') b).isSome = (v.frame b).isSome ∧
        ∀ g, Function.update v.frame a (some f') b = some g → g.stage = .lock →
          ∃ f, v.frame b = some f ∧ f.stage = .lock := by
    intro v a f f' hf hl
    by_cases hb : b = a
    · subst hb
      refine ⟨by simp [hf], fun g hg hgl => ⟨f, hf, hl ?_⟩⟩
      obtain rfl : f' = g := by simpa using hg
      exact hgl
    · refine ⟨by simp [hb], fun g hg hgl => ⟨g, by simpa [hb] using hg, hgl⟩⟩
  cases step_stepped on of hs with
  | lock hf hst => exact hset hf (by simp)
  | start hf hst => exact hset hf (by simp)
  | yield hf hst => exact hset hf (by split <;> simp)
  | report => exact ⟨rfl, fun f hf hl => ⟨f, hf, hl⟩⟩
  | @fire p hp =>
    rcases fire_cases on of p w with h | ⟨a, f, f', hf, -, hst, h⟩ <;> rw [h]
    · exact ⟨rfl, fun f hf hl => ⟨f, hf, hl⟩⟩
    · refine hset hf fun hl => ?_
      rcases hst with hst | hst
      · rw [← hst, hl]
      · rw [hst] at hl
        cases hl

/-- Nobody goes to another place. -/
theorem step_point {op : Op α σ} (hs : w.step on of op = some w') (b : α) :
    (w'.frame b).map (·.point) = (w.frame b).map (·.point) := by
  have hset : ∀ {a : α} {f f' : Frame σ}, w.frame a = some f → f'.point = f.point →
      (Function.update w.frame a (some f') b).map (·.point) = (w.frame b).map (·.point) := by
    intro a f f' hf hp
    by_cases hb : b = a
    · subst hb
      simp [hf, hp]
    · simp [hb]
  cases step_stepped on of hs with
  | lock hf => exact hset hf rfl
  | start hf => exact hset hf rfl
  | yield hf => exact hset hf rfl
  | report => rfl
  | @fire p hp =>
    rcases fire_cases on of p w with h | ⟨a, f, f', hf, hpt, -, h⟩ <;> rw [h]
    exact hset hf hpt

/-- Who waits after a step has waited before it, at the same place. -/
theorem frame_before {op : Op α σ} (hs : w.step on of op = some w') {b : α} {g : Frame σ} (hg : w'.frame b = some g) :
    ∃ f, w.frame b = some f ∧ f.point = g.point := by
  have hp := step_point hs b
  rw [hg, Option.map_some] at hp
  obtain ⟨f, hf, hfp⟩ := Option.map_eq_some_iff.1 hp.symm
  exact ⟨f, hf, hfp⟩

theorem frame_none_iff {op : Op α σ} (hs : w.step on of op = some w') (b : α) :
    w'.frame b = none ↔ w.frame b = none := by
  rw [← Option.map_eq_none_iff (f := (·.point)), step_point hs b, Option.map_eq_none_iff]

/-- Only `LockContext` changes a resumer. -/
theorem step_resumer {op : Op α σ} (hs : w.step on of op = some w') (hop : ∀ a, op ≠ .lock a) (k : κ) :
    (w'.ctx k).resumer = (w.ctx k).resumer := by
  cases step_stepped on of hs with
  | lock => exact absurd rfl (hop _)
  | start | yield => rfl
  | report => exact report_resumer _ _ _
  | @fire p hp => rcases fire_cases on of p w with h | ⟨_, _, _, _, _, _, h⟩ <;> rw [h]

theorem step_resumed {op : Op α σ} (hs : w.step on of op = some w') : ∃ l, w'.resumed = l ++ w.resumed := by
  cases step_stepped on of hs with
  | lock | start | yield | report => exact ⟨[], rfl⟩
  | @fire p hp =>
    rcases fire_cases on of p w with h | ⟨_, _, _, _, _, _, h⟩ <;> rw [h] <;> exact ⟨[_], rfl⟩

theorem step_reported {op : Op α σ} (h : w.step on of op = some w') (q : Suspension σ) :
    w'.Reported q ↔ w.Reported q ∨ ∃ ok, op = .report q ok := by
  cases step_stepped on of h with
  | lock | start | yield => simp [Reported, lock, start, Waits.yield]
  | @report p ok hp =>
    simp only [Reported, report, List.mem_cons, setCtx_resumed, Op.report.injEq, exists_and_left, exists_eq', and_true]
    rw [eq_comm (a := q), or_assoc, or_comm]
  | @fire p hp =>
    have hmem : q ∈ w.calling.erase p ∨ q = p ↔ q ∈ w.calling := by
      by_cases hq : q = p
      · simp [hq, hp]
      · simp [List.mem_erase_of_ne hq, hq]
    rcases fire_cases on of p w with h | ⟨_, _, _, _, _, _, h⟩ <;> rw [h] <;>
      simp only [Reported, List.map_cons, List.mem_cons, ← or_assoc, hmem, reduceCtorEq, exists_false, or_false]

/-- What has been started is what had been, and what the step starts. -/
theorem step_ops {op : Op α σ} (h : w.step on of op = some w') (q : Suspension σ) :
    q ∈ w'.ops ↔ q ∈ w.ops ∨ ∃ a f, op = .start a ∧ w.frame a = some f ∧ f.point = q := by
  cases step_stepped on of h with
  | lock | yield => simp [ops, lock, Waits.yield]
  | @start a f hf hst =>
    simp only [ops, start, setStage_calling, setStage_resumed, List.cons_append, List.mem_cons, Op.start.injEq]
    constructor
    · rintro (rfl | hq)
      · exact .inr ⟨a, f, rfl, hf, rfl⟩
      · exact .inl hq
    · rintro (hq | ⟨_, g, rfl, hg, rfl⟩)
      · exact .inr hq
      · rw [Option.some.inj (hf.symm.trans hg)]
        exact .inl rfl
  | @report p ok hp => simp [(report_perm on hp ok).mem_iff]
  | @fire p hp =>
    have hmem : q ∈ w.calling.erase p ∨ q = p ↔ q ∈ w.calling := by
      by_cases hq : q = p
      · simp [hq, hp]
      · simp [List.mem_erase_of_ne hq, hq]
    rcases fire_cases on of p w with h | ⟨_, _, _, _, _, _, h⟩ <;> rw [h, mem_ops, mem_ops] <;>
      simp only [List.map_cons, List.mem_cons, ← or_assoc, or_assoc (a := q ∈ w.inFlight) (b := q ∈ w.calling.erase p),
        hmem, reduceCtorEq, false_and, exists_false, or_false]

/-- Only a report on the context changes `success_`. -/
theorem step_success {op : Op α σ} (h : w.step on of op = some w') {k : κ}
    (hop : ∀ p ok, op = .report p ok → on p.site ≠ k) : (w'.ctx k).success = (w.ctx k).success := by
  cases step_stepped on of h with
  | @lock a f hf =>
    by_cases hk : k = on f.point.site
    · subst hk
      simp [lock]
    · simp [lock, hk]
  | start | yield => rfl
  | @report p ok => simp [report, Ne.symm (hop p ok rfl)]
  | @fire p hp => rcases fire_cases on of p w with h | ⟨_, _, _, _, _, _, h⟩ <;> rw [h]

theorem step_canceled {op : Op α σ} (h : w.step on of op = some w') (k : κ) :
    (w'.ctx k).canceled = (w.ctx k).canceled := by
  cases step_stepped on of h with
  | @lock a f hf =>
    by_cases hk : k = on f.point.site
    · subst hk
      simp [lock]
    · simp [lock, hk]
  | start | yield => rfl
  | @report p ok =>
    by_cases hk : k = on p.site
    · subst hk
      simp [report]
    · simp [report, hk]
  | @fire p hp => rcases fire_cases on of p w with h | ⟨_, _, _, _, _, _, h⟩ <;> rw [h]

/-- **Exactly once.** Where `LockContext` is only called on a context nobody uses, every step keeps it that each
callback calls the resumer of its own suspension. -/
theorem step_sound {op : Op α σ} (h : w.Sound on of) (hc : op.Clear on w) (hs : w.step on of op = some w') :
    w'.Sound on of := by
  cases step_stepped on of hs with
  | lock hf hst => exact h.lock hf hst (by simpa only [Op.Clear, hf] using hc)
  | start hf hst => exact h.start hf hst
  | yield hf hst => exact h.yield hf hst
  | report hp => exact h.report hp _
  | fire hp => exact h.fire hp

end

end Waits
end LtApp.Etcd
