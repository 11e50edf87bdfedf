import LtApp.Etcd.KeepAlive
import LtApp.Etcd.Order

/-!
# Who owns a live stream

gRPC keeps a raw pointer to the context of a stream, so that somebody else has to hold it until `OnDone`.

| here | there |
| --- | --- |
| `Held` | a `KeepAliveContext` and the references that `LeaseKeepalive` has returned (`etcd_client.cc:137`) and their copies |
| `Held.refs` | these, and `ref_this` of each closure posted (`keepalive_ctx.cc:69`) |
| `WatchContext.refs` | the reference of the frame of `Watch`, then those it has returned; `refctx` of the loop and of each coroutine spawned by it (`watch_context.cc:49`, `:68`) |

A keepalive holds itself only while a closure is posted, and a watch only while its loop or a coroutine of it runs. So
whoever has been given the reference is to keep one until `OnDone` (`Held.Act.Keeps`): where it does not, a stream that is
live loses its owner without anybody doing anything more (`Held.dropped_lost`).
-/

namespace LtApp.Etcd

structure Held where
  ctx    : KeepAliveContext
  caller : Nat := 1
deriving DecidableEq, Repr

namespace Held

inductive Act
  | ctx (op : KeepAliveContext.Op)
  /-- A holder copies its reference, or lets go of it. -/
  | copy
  | drop
deriving DecidableEq, Repr

/-- `LeaseKeepalive`. -/
def leaseKeepalive (lease interval : Int) : Held := { ctx := KeepAliveContext.start lease interval {} }

def refs (s : Held) : Nat := s.caller + s.ctx.delayed

/-- `Cancel` is called through a reference. -/
def enabled (s : Held) : Act → Bool
  | .ctx .cancel | .copy | .drop => 0 < s.caller
  | .ctx op => s.ctx.enabled op

def act (s : Held) : Act → Held
  | .ctx op => { s with ctx := s.ctx.step op }
  | .copy => { s with caller := s.caller + 1 }
  | .drop => { s with caller := s.caller - 1 }

def step (s : Held) (a : Act) : Option Held := if s.enabled a then some (s.act a) else none

def lts : Lts Held Act := ⟨fun s a s' => s.step a = some s'⟩

def Owned (s : Held) : Prop := s.ctx.live = true → 0 < s.refs

/-- The holders keep a reference until `OnDone`. -/
def Act.Keeps (s : Held) (a : Act) : Prop := a = .drop → s.ctx.live = true → 1 < s.caller

instance Owned.decidable (s : Held) : Decidable s.Owned := by unfold Owned; infer_instance

instance Act.decidableKeeps (s : Held) (a : Act) : Decidable (a.Keeps s) := by unfold Act.Keeps; infer_instance

/-- A holder has the context until `OnDone`. -/
def Minded (s : Held) : Prop := s.ctx.live = true → 0 < s.caller

theorem Minded.owned {s : Held} (h : s.Minded) : s.Owned := fun hl => Nat.add_pos_left (h hl) _

/-- No callback brings the stream to life. -/
theorem live_of_step {c c' : KeepAliveContext} {op : KeepAliveContext.Op} (h : KeepAliveContext.lts.step c op c')
    (hl : c'.live = true) : c.live = true := by
  cases KeepAliveContext.lts_stepped h with
  | done => cases hl
  | written | writeFailed | halfClosed | posted | writesDoneDone | delayed | cancel => simpa using hl

theorem lts_act {s s' : Held} {a : Act} (h : lts.step s a s') : s.enabled a = true ∧ s' = s.act a := by
  have h : s.step a = some s' := h
  simp only [step] at h
  split at h
  · exact ⟨‹_›, (Option.some.inj h).symm⟩
  · cases h

theorem step_minded {s s' : Held} {a : Act} (hs : s.Minded) (hk : a.Keeps s) (h : lts.step s a s') : s'.Minded := by
  obtain ⟨he, rfl⟩ := lts_act h
  intro hl
  cases a with
  | ctx op =>
    have hen : s.ctx.enabled op = true := by
      cases op with
      | cancel => rfl
      | _ => exact he
    exact hs (live_of_step ⟨hen, rfl⟩ hl)
  | copy => exact Nat.succ_pos _
  | drop =>
    have hc := hk rfl hl
    show 0 < s.caller - 1
    omega

/-- A closure that runs lets go of the context. -/
theorem delayed_step {s : Held} (hd : 0 < s.ctx.delayed) :
    lts.step s (.ctx .delayed) { s with ctx := KeepAliveContext.onDelayed s.ctx } := by
  show s.step (.ctx .delayed) = _
  rw [step, if_pos (by simpa [enabled, KeepAliveContext.enabled] using hd)]
  rfl

/-- Where nobody holds a live stream any more, it is left without an owner once the closures have run. -/
theorem lost (n : Nat) : ∀ s : Held, s.ctx.delayed = n → s.ctx.live = true → s.caller = 0 →
    ∃ t, lts.Run s (List.replicate n (.ctx .delayed)) t ∧ ¬ t.Owned := by
  induction n with
  | zero =>
    intro s hd hl hc
    refine ⟨s, .nil _, fun ho => ?_⟩
    have hpos := ho hl
    rw [refs, hd, hc] at hpos
    exact absurd hpos (Nat.lt_irrefl 0)
  | succ n ih =>
    intro s hd hl hc
    have hstep := delayed_step (s := s) (by omega)
    obtain ⟨t, hrun, ht⟩ := ih { s with ctx := KeepAliveContext.onDelayed s.ctx }
      (by rw [KeepAliveContext.onDelayed_delayed, hd, Nat.add_sub_cancel]) hl hc
    exact ⟨t, .cons hstep hrun, ht⟩

/-- A keepalive stream has an owner wherever the holders keep a reference until `OnDone`. -/
theorem run_owned {lease interval : Int} {as : List Act} {s : Held}
    (h : (lts.restrict fun s a => a.Keeps s).Run (leaseKeepalive lease interval) as s) : s.Owned :=
  (h.invariant_restrict (fun _ _ _ hs hk hst => step_minded hs hk hst) fun _ => Nat.one_pos : s.Minded).owned

/-- **A keepalive that is dropped before `OnDone` is lost**: `loop_` need only run the closures that are posted. -/
theorem dropped_lost {s s' : Held} {a : Act} (h : lts.step s a s') (hk : ¬ a.Keeps s) :
    ∃ n t, lts.Run s' (List.replicate n (.ctx .delayed)) t ∧ ¬ t.Owned := by
  obtain ⟨rfl, hl, hc⟩ : a = .drop ∧ s.ctx.live = true ∧ s.caller ≤ 1 := by simpa [Act.Keeps] using hk
  obtain ⟨-, rfl⟩ := lts_act h
  refine ⟨s.ctx.delayed, lost s.ctx.delayed _ rfl hl ?_⟩
  show s.caller - 1 = 0
  omega

end Held

namespace WatchContext

variable {ε : Type}

/-- The coroutines of the loop that have not ended. -/
def alive (c : WatchContext ε) : Nat := c.handlers.countP fun h => !h.ended

def refs (c : WatchContext ε) : Nat := c.caller + (if (c.waits.frame .loop).isSome then 1 else 0) + c.alive

def Owned (c : WatchContext ε) : Prop := c.live = true → 0 < c.refs

instance Owned.decidable (c : WatchContext ε) : Decidable c.Owned := by unfold Owned; infer_instance

/-- `Watch` holds the one reference there is until `Start` returns. -/
def Starting (c : WatchContext ε) : Prop := c.waits.frame .start ≠ none → c.started = false ∧ c.caller = 1

section
variable {c c' : WatchContext ε} {op : Op ε}

theorem Starting.congr (hc : Starting c) (hf : (c'.waits.frame .start).isSome = (c.waits.frame .start).isSome)
    (hs : c'.started = c.started) (hcal : c'.caller = c.caller) : Starting c' := by
  intro hn
  rw [hs, hcal]
  refine hc ?_
  rwa [← Option.isSome_iff_ne_none, ← hf, Option.isSome_iff_ne_none]

theorem went_starting {s : Site} (hc : Starting c) (hf : c.waits.frame s.co ≠ none) (h : Went c s c') :
    Starting c' := by
  cases h with
  | createFailed | createdFailed | began =>
    intro hn
    simp [startReturns, WatchContext.began] at hn
  | createWritten => exact fun _ => hc hf
  | readFailed | canceled | lastSpawned | spawned | cancelFailed | cancelWritten | finished =>
    exact hc.congr (by simp [stopReturns, Site.co]) rfl rfl

theorem step_starting (hr : Reads c.waits) (hc : Starting c) (h : lts.step c op c') : Starting c' := by
  have hstarted : c.started = true → c.waits.frame .start = none := by
    intro hs
    by_contra hn
    have hf := (hc hn).1
    rw [hs] at hf
    cases hf
  cases lts_stepped h with
  | wait hw => exact hc.congr (by simpa using (Waits.step_frame hw .start).1) (by simp) (by simp)
  | @go a f c' hf hst hw =>
    obtain rfl := hr.placed a f hf
    exact went_starting hc (by simp [hf]) hw
  | copy hs => exact fun hn => absurd (hstarted hs) hn
  | drop hs => exact fun hn => absurd (hstarted hs) hn
  | stopBegun => exact hc.congr (by simp [Site.co]) rfl rfl
  | stopAtOnce | enter | invoke | leave | finish | done => exact hc

theorem run_starting {ops : List (Op ε)} (h : lts.Run watch ops c) : Starting c := by
  have hinv : Reads c.waits ∧ Starting c :=
    h.invariant (P := fun c => Reads c.waits ∧ Starting c)
      (fun _ _ _ hc hs => ⟨step_reads hc.1 hs, step_starting hc.1 hc.2 hs⟩) ⟨watch_reads, fun _ => ⟨rfl, rfl⟩⟩
  exact hinv.2

end

end WatchContext
end LtApp.Etcd
