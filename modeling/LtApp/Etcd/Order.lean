import LtApp.Etcd.Delivery

/-!
# In the order of the stream

Each event received is passed to `handler_` once, and those of one response in their order, whatever happens
(`delivered`). In the order of the stream they are passed where the loop switches to a coroutine only while those
spawned before it have nothing left, as it does where `handler_` never yields.
-/

namespace LtApp.Etcd
namespace WatchContext

variable {ε : Type}

/-- The loop switches to a coroutine while those spawned before it have nothing left. -/
def Op.InTurn (c : WatchContext ε) : Op ε → Prop
  | .enter j => ∀ h ∈ c.handlers.take j, h.rest = []
  | _ => True

/-- Every coroutine of the loop has ended, and no response is about to be given one. -/
def Settled (c : WatchContext ε) : Prop := (∀ h ∈ c.handlers, h.ended = true) ∧ c.hand = none

instance Settled.decidable (c : WatchContext ε) : Decidable c.Settled :=
  decidable_of_iff ((∀ h ∈ c.handlers, h.ended = true) ∧ c.hand.isNone = true) (by rw [Option.isNone_iff_eq_none]; rfl)

section
variable {c c' : WatchContext ε} {op : Op ε} {i j : Nat} {g h : Handler ε} {P : Handler ε → Prop}

/-! ## The coroutines of the loop -/

/-- What a step does to them. -/
inductive Ran (c : WatchContext ε) : Op ε → WatchContext ε → Prop
  | idle {o d} : d.handlers = c.handlers → d.current = c.current → Ran c o d
  | spawned {o d} (es : List ε) : d.handlers = c.handlers ++ [{ rest := es }] → d.current = c.current → Ran c o d
  | entered {j g d} : c.current = none → c.handlers[j]? = some g → g.ended = false →
    (g.begun = true ∨ ∀ x ∈ c.handlers.take j, x.begun = true) →
    d.handlers = c.handlers.set j { g with begun := true } → d.current = some j → Ran c (.enter j) d
  | called {j g e es d} : c.running j g → g.rest = e :: es →
    d.handlers = c.handlers.set j { g with rest := es, inCall := true } → d.current = some j → Ran c .invoke d
  | left {d} : d.handlers = c.handlers → d.current = none → Ran c .leave d
  | finished {j g d} : c.running j g → g.rest = [] →
    d.handlers = c.handlers.set j { g with inCall := false, ended := true } → d.current = none → Ran c .finish d

theorem went_ran {s : Site} (h : Went c s c') : Ran c op c' := by
  cases h with
  | lastSpawned => exact .spawned _ rfl rfl
  | spawned => exact .spawned _ rfl rfl
  | _ => exact .idle rfl rfl

theorem step_ran (h : lts.step c op c') : Ran c op c' := by
  cases lts_stepped h with
  | wait => exact .idle (by simp) (by simp)
  | go _ _ hw => exact went_ran hw
  | enter hcur hj he hb => exact .entered hcur hj he hb rfl rfl
  | invoke hrun hrest => exact .called hrun hrest rfl hrun.1
  | leave => exact .left rfl rfl
  | finish hrun hrest => exact .finished hrun hrest rfl rfl
  | stopAtOnce | stopBegun | done | copy | drop => exact .idle rfl rfl

theorem forall_take {l : List (Handler ε)} :
    (∀ h ∈ l.take j, P h) ↔ ∀ (i : Nat) (h : Handler ε), i < j → l[i]? = some h → P h := by
  constructor
  · intro hP i h hi hh
    refine hP h (List.mem_iff_getElem?.2 ⟨i, ?_⟩)
    rwa [List.getElem?_take_of_lt hi]
  · intro hP h hh
    obtain ⟨i, hi⟩ := List.mem_iff_getElem?.1 hh
    rw [List.getElem?_take] at hi
    split at hi
    · exact hP i h ‹_› hi
    · cases hi

theorem getElem?_set_cases {l : List (Handler ε)} (hh : (l.set j g)[i]? = some h) :
    (i = j ∧ h = g) ∨ (i ≠ j ∧ l[i]? = some h) := by
  rw [List.getElem?_set] at hh
  split at hh
  · split at hh
    · exact .inl ⟨‹j = i›.symm, (Option.some.inj hh).symm⟩
    · cases hh
  · exact .inr ⟨Ne.symm ‹_›, hh⟩

theorem getElem?_spawn_cases {l : List (Handler ε)} (hh : (l ++ [g])[i]? = some h) :
    (i = l.length ∧ h = g) ∨ (i < l.length ∧ l[i]? = some h) := by
  by_cases hi : i < l.length
  · exact .inr ⟨hi, by rwa [List.getElem?_append_left hi] at hh⟩
  · rw [List.getElem?_append_right (by omega)] at hh
    have hz : i - l.length = 0 := by
      by_contra hne
      rw [List.getElem?_eq_none (by simp; omega)] at hh
      cases hh
    rw [hz] at hh
    exact .inl ⟨by omega, (Option.some.inj hh).symm⟩

structure Staffed (c : WatchContext ε) : Prop where
  /-- Who is running has not ended. -/
  current : ∀ j, c.current = some j → ∃ g, c.handlers[j]? = some g ∧ g.ended = false
  /-- Who has ended has nothing left. -/
  ended   : ∀ (i : Nat) (h : Handler ε), c.handlers[i]? = some h → h.ended = true → h.rest = []

theorem Staffed.lt (hc : Staffed c) (hj : c.current = some j) : j < c.handlers.length := by
  obtain ⟨g, hg, -⟩ := hc.current j hj
  exact (List.getElem?_eq_some_iff.1 hg).1

/-- A coroutine changes, and runs or does not. -/
theorem Staffed.set (hc : Staffed c) (hj : j < c.handlers.length) (hg : g.ended = true → g.rest = [])
    (hh : c'.handlers = c.handlers.set j g) (hcur : (c'.current = some j ∧ g.ended = false) ∨ c'.current = none) :
    Staffed c' := by
  refine ⟨fun k hk => ?_, fun i h hi he => ?_⟩
  · rcases hcur with ⟨hcur, he⟩ | hcur <;> rw [hcur] at hk
    · obtain rfl := Option.some.inj hk
      exact ⟨g, by simp [hh, hj], he⟩
    · cases hk
  · rw [hh] at hi
    rcases getElem?_set_cases hi with ⟨-, rfl⟩ | ⟨-, hi⟩
    · exact hg he
    · exact hc.ended i h hi he

theorem step_staffed (hc : Staffed c) (h : lts.step c op c') : Staffed c' := by
  have hlt : ∀ {j g}, c.handlers[j]? = some g → j < c.handlers.length := fun hg => (List.getElem?_eq_some_iff.1 hg).1
  cases step_ran h with
  | idle hh hcur => exact ⟨by rw [hh, hcur]; exact hc.current, by rw [hh]; exact hc.ended⟩
  | spawned es hh hcur =>
    refine ⟨fun j hj => ?_, fun i h hi he => ?_⟩
    · rw [hcur] at hj
      obtain ⟨g, hg, he⟩ := hc.current j hj
      exact ⟨g, by rw [hh, List.getElem?_append_left (hlt hg), hg], he⟩
    · rw [hh] at hi
      rcases getElem?_spawn_cases hi with ⟨-, rfl⟩ | ⟨-, hi⟩
      · cases he
      · exact hc.ended i h hi he
  | entered _ hg he _ hh hcur => exact hc.set (hlt hg) (by simp [he]) hh (.inl ⟨hcur, he⟩)
  | called hrun hrest hh hcur =>
    obtain ⟨x, hx, he⟩ := hc.current _ hrun.1
    obtain rfl := Option.some.inj (hrun.2.symm.trans hx)
    exact hc.set (hlt hrun.2) (by simp [he]) hh (.inl ⟨hcur, he⟩)
  | left hh hcur => exact ⟨by simp [hcur], by rw [hh]; exact hc.ended⟩
  | finished hrun hrest hh hcur =>
    refine hc.set (hlt hrun.2) ?_ hh (.inr hcur)
    exact fun _ => hrest

theorem watch_staffed : Staffed (watch : WatchContext ε) := ⟨nofun, nofun⟩

/-- Those spawned before the one that is running have nothing left. -/
def Turn (c : WatchContext ε) : Prop :=
  ∀ j, c.current = some j → ∀ (i : Nat) (h : Handler ε), i < j → c.handlers[i]? = some h → h.rest = []

theorem step_turn (hc : Staffed c) (ht : Turn c) (hop : op.InTurn c) (h : lts.step c op c') : Turn c' := by
  intro k hk i x hik hx
  cases step_ran h with
  | idle hh hcur =>
    rw [hcur] at hk
    rw [hh] at hx
    exact ht k hk i x hik hx
  | spawned es hh hcur =>
    rw [hcur] at hk
    rw [hh] at hx
    rcases getElem?_spawn_cases hx with ⟨rfl, rfl⟩ | ⟨-, hx⟩
    · have := hc.lt hk
      omega
    · exact ht k hk i x hik hx
  | entered _ hg he _ hh hcur =>
    obtain rfl := Option.some.inj (hcur.symm.trans hk)
    rw [hh] at hx
    rcases getElem?_set_cases hx with ⟨rfl, -⟩ | ⟨-, hx⟩
    · omega
    · exact forall_take.1 hop i x hik hx
  | called hrun hrest hh hcur =>
    obtain rfl := Option.some.inj (hcur.symm.trans hk)
    rw [hh] at hx
    rcases getElem?_set_cases hx with ⟨rfl, -⟩ | ⟨-, hx⟩
    · omega
    · exact ht _ hrun.1 i x hik hx
  | left hh hcur => simp [hcur] at hk
  | finished hrun hrest hh hcur => simp [hcur] at hk

/-- Who has begun has ended, unless it is running. -/
def Sequential (c : WatchContext ε) : Prop :=
  ∀ (i : Nat) (h : Handler ε), c.handlers[i]? = some h → h.begun = true → h.ended = true ∨ c.current = some i

theorem step_sequential (hs : Sequential c) (hop : op ≠ .leave) (h : lts.step c op c') : Sequential c' := by
  intro i x hx hb
  cases step_ran h with
  | idle hh hcur =>
    rw [hh] at hx
    rw [hcur]
    exact hs i x hx hb
  | spawned es hh hcur =>
    rw [hh] at hx
    rw [hcur]
    rcases getElem?_spawn_cases hx with ⟨-, rfl⟩ | ⟨-, hx⟩
    · cases hb
    · exact hs i x hx hb
  | entered hnone hg he _ hh hcur =>
    rw [hh] at hx
    rcases getElem?_set_cases hx with ⟨rfl, -⟩ | ⟨-, hx⟩
    · exact .inr hcur
    · exact .inl (by simpa [hnone] using hs i x hx hb)
  | called hrun hrest hh hcur =>
    rw [hh] at hx
    rcases getElem?_set_cases hx with ⟨rfl, -⟩ | ⟨-, hx⟩
    · exact .inr hcur
    · rw [hcur, ← hrun.1]
      exact hs i x hx hb
  | left => exact absurd rfl hop
  | finished hrun hrest hh hcur =>
    rw [hh] at hx
    rcases getElem?_set_cases hx with ⟨-, rfl⟩ | ⟨hne, hx⟩
    · exact .inl rfl
    · rcases hs i x hx hb with he | hi
      · exact .inl he
      · exact absurd (Option.some.inj (hi.symm.trans hrun.1)) hne

/-- Where nobody yields, the loop switches to each coroutine in its turn. -/
theorem sequential_inTurn (hc : Staffed c) (hs : Sequential c) (h : lts.step c op c') : op.InTurn c := by
  cases lts_stepped h with
  | @enter j g hnone hg he hb =>
    have hended : ∀ (i : Nat) (x : Handler ε), c.handlers[i]? = some x → x.begun = true → x.ended = true := by
      intro i x hx hxb
      simpa [hnone] using hs i x hx hxb
    have hbefore : ∀ x ∈ c.handlers.take j, x.begun = true := by
      rcases hb with hb | hb
      · simp [hended j g hg hb] at he
      · exact hb
    refine forall_take.2 fun i x hi hx => ?_
    exact hc.ended i x hx (hended i x hx (forall_take.1 hbefore i x hi hx))
  | _ => trivial

end

/-! ## Runs -/

section
variable {ops : List (Op ε)} {c : WatchContext ε}

/-- The lanes of every run are a run of `Lanes`. -/
theorem run_lanes (h : lts.Run watch ops c) : ∃ as, (Lanes.lts ε).Run {} as c.lanes := by
  have hsim : ∀ (c : WatchContext ε) (op : Op ε) (c' : WatchContext ε) (q : Lanes ε), (q = c.lanes ∧ Reads c.waits) →
      lts.step c op c' → ∃ as q', (Lanes.lts ε).Run q as q' ∧ q' = c'.lanes ∧ Reads c'.waits := by
    rintro c op c' q ⟨rfl, hc⟩ hs
    have hc' := step_reads hc hs
    cases step_flow hc hs with
    | idle _ heq => exact ⟨[], _, .nil _, heq.symm, hc'⟩
    | fed _ hst => exact ⟨_, _, .single hst, rfl, hc'⟩
    | taken _ hst => exact ⟨_, _, .single hst, rfl, hc'⟩
  obtain ⟨as, q, hr, rfl, -⟩ := h.refines hsim {} ⟨rfl, watch_reads⟩
  exact ⟨as, hr⟩

/-- The lanes before the one that is running are empty. -/
theorem Turn.first {j : Nat} {g : Handler ε} (ht : Turn c) (hrun : c.running j g) :
    (Lanes.Act.take j).First c.lanes := by
  intro l hl
  obtain ⟨i, hi⟩ := List.mem_iff_getElem?.1 hl
  have hlt : j < c.handlers.length := (List.getElem?_eq_some_iff.1 hrun.2).1
  rw [List.getElem?_take] at hi
  split at hi
  · rename_i hij
    rw [lanes_left, backlog, List.getElem?_append_left (by simp; omega), List.getElem?_map] at hi
    obtain ⟨x, hx, rfl⟩ := Option.map_eq_some_iff.1 hi
    exact ht j hrun.1 i x hij hx
  · cases hi

theorem run_straight (h : (lts.restrict fun c op => op.InTurn c).Run watch ops c) : c.lanes.Straight := by
  have hstep : ∀ (c : WatchContext ε) (op : Op ε) (c' : WatchContext ε),
      (Reads c.waits ∧ Staffed c ∧ Turn c ∧ c.lanes.Straight) → op.InTurn c → lts.step c op c' →
        Reads c'.waits ∧ Staffed c' ∧ Turn c' ∧ c'.lanes.Straight := by
    rintro c op c' ⟨hc, hst, ht, hstr⟩ hop hs
    refine ⟨step_reads hc hs, step_staffed hst hs, step_turn hst ht hop hs, ?_⟩
    cases step_flow hc hs with
    | idle _ heq => rwa [heq]
    | @fed _ _ l _ hstep =>
      have hfirst : (Lanes.Act.feed l).First c.lanes := trivial
      exact Lanes.step_straight hstr hfirst hstep
    | taken hrun hstep => exact Lanes.step_straight hstr (ht.first hrun) hstep
  exact (h.invariant_restrict hstep ⟨watch_reads, watch_staffed, nofun, rfl⟩).2.2.2

theorem run_staffed (h : lts.Run watch ops c) : Staffed c :=
  h.invariant (fun _ _ _ hc hs => step_staffed hc hs) watch_staffed

/-- A run in which `handler_` never yields takes each coroutine in its turn. -/
theorem run_inTurn (h : lts.Run watch ops c) (hops : .leave ∉ ops) :
    (lts.restrict fun c op => op.InTurn c).Run watch ops c := by
  have hnever : (lts.restrict fun _ op => op ≠ .leave).Run watch ops c :=
    h.restrict_forall fun op hop hl => hops (hl ▸ hop)
  refine hnever.restrict_imp (I := fun c => Staffed c ∧ Sequential c) ?_ ?_ ⟨watch_staffed, nofun⟩
  · exact fun _ _ _ hI hop hs => ⟨step_staffed hI.1 hs, step_sequential hI.2 hop hs⟩
  · exact fun _ _ hI _ _ hs => sequential_inTurn hI.1 hI.2 hs

theorem settled_left (hc : Staffed c) (hs : c.Settled) : c.backlog.flatten = [] := by
  rw [List.flatten_eq_nil_iff, backlog, hs.2, Option.toList_none, List.append_nil]
  intro l hl
  obtain ⟨h, hh, rfl⟩ := List.mem_map.1 hl
  obtain ⟨i, hi⟩ := List.mem_iff_getElem?.1 hh
  exact hc.ended i h hi (hs.1 h hh)

end

/-- **Each event received is passed to `handler_` once.** What has been passed and what is still to be passed are what
has been received, and nothing is still to be passed once everything has settled; the events of one response are
passed in their order; and everything is passed in the order of the stream where the loop takes each coroutine in its
turn, as it does where `handler_` never yields. -/
theorem delivered {ops : List (Op ε)} {c : WatchContext ε} (h : lts.Run watch ops c) :
    (handled c.log ++ c.backlog.flatten).Perm (responses c.log).flatten ∧
      (c.Settled → c.backlog.flatten = []) ∧
      (∀ (k : Nat) (l : List ε), (responses c.log)[k]? = some l →
        ∃ d r, c.backlog[k]? = some r ∧ l = d ++ r ∧ d.Sublist (handled c.log)) ∧
      ((lts.restrict fun c op => op.InTurn c).Run watch ops c →
        handled c.log ++ c.backlog.flatten = (responses c.log).flatten) ∧
      (.leave ∉ ops → handled c.log ++ c.backlog.flatten = (responses c.log).flatten) := by
  obtain ⟨as, hlanes⟩ := run_lanes h
  have hacc := Lanes.run_accounted hlanes
  exact ⟨hacc.perm, settled_left (run_staffed h), hacc.order, run_straight, fun hops => run_straight (run_inTurn h hops)⟩

/-- Two responses, each dealt with before the next is taken. -/
theorem delivered_run :
    ∃ c : WatchContext Nat, lts.Run watch
        (Op.whole .create 0 {} ++ Op.whole .created 1 { watchId := 1, created := true } ++
          Op.whole .next 2 { events := [1, 2] } ++ [.enter 0, .invoke, .invoke, .finish] ++
          Op.whole .next 3 { events := [3] } ++ [.enter 1, .invoke, .finish]) c ∧
      c.Settled ∧ handled c.log = (responses c.log).flatten := by
  refine Lts.exists_run_of_exec_imp (P := Settled) (fun _ _ _ h => h) (by decide +kernel) fun c hr hs => ?_
  obtain ⟨-, hleft, -, -, horder⟩ := delivered hr
  have := horder (by decide)
  rw [hleft hs, List.append_nil] at this
  exact ⟨hs, this⟩

/-- **A later event overtakes an earlier one**: `handler_` yields in its first call, and the next response is dealt
with before the first has been. -/
theorem later_event_overtakes :
    ∃ c : WatchContext Nat, lts.Run watch
        (Op.whole .create 0 {} ++ Op.whole .created 1 { watchId := 1, created := true } ++
          Op.whole .next 2 { events := [1, 2] } ++ Op.whole .next 3 { events := [3] } ++
          [.enter 0, .invoke, .leave, .enter 1, .invoke, .finish, .enter 0, .invoke, .finish]) c ∧
      c.started = true ∧ c.Settled ∧ handled c.log = [1, 3, 2] ∧ (responses c.log).flatten = [1, 2, 3] := by
  exact Lts.exists_run_of_exec_imp (fun _ _ _ h => h) (by decide +kernel) fun _ _ h => h

end WatchContext
end LtApp.Etcd
