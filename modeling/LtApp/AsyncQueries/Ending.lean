import LtApp.AsyncQueries.Shared

/-!
# When `event_dispatch` returns

Between two calls of the handler a connection waits for an event or is at state 50 (`Resting`), and
`num_active_connections` is the number of those that are not. A connection closes when it finds the list empty, so when
they have all closed every query has been run (`ended_complete`). And it can always come to that: from any state the
loop reaches, there are answers that lead to the end (`can_end`).
-/

namespace LtApp.AsyncQueries

open Mysql (Bytes Answer)

/-- The states after the list has been found empty. -/
def St.closing : St → Bool
  | .st40 | .st41 | .st50 => true
  | _ => false

/-- The entry that is freed when the query has been sent is there. -/
def StateData.Owns (sd : StateData) : Prop := sd.st = .st11 ∨ sd.st = .st20 → ∃ e, sd.queryElement = some e

/-- An operation is under way, and libevent has its event. -/
def StateData.Waits (sd : StateData) : Prop :=
  sd.Owns ∧ ∃ op a, sd.st = LibOp.wait op ∧ a.status.isZero = false ∧ sd.evMysql = some (waitEvent a)

def StateData.Done (sd : StateData) : Prop := sd.st = .st50 ∧ sd.evMysql = none

section
variable {a : Answer} {as : List Answer} {event : EvFlags} {g g' : Globals} {sd sd' : StateData} {op : LibOp} {e : Ev}
  {t : Turn}

/-! ## A call of the handler -/

@[simp] theorem store_evMysql : (store op a sd).evMysql = sd.evMysql := by
  unfold store
  cases op <;> split <;> rfl

@[simp] theorem store_queryElement : (store op a sd).queryElement = sd.queryElement := by
  unfold store
  cases op <;> split <;> rfl

theorem Called.again_spec (h : Called op e a g sd (.again g' sd')) : g' = g ∧ sd'.st = op.next ∧
    sd'.evMysql = sd.evMysql ∧ sd'.queryElement = sd.queryElement := by
  cases h with
  | ended hz => exact ⟨rfl, rfl, by simp, by simp⟩

theorem Called.rest_spec (h : Called op e a g sd (.rest g' sd')) : g' = g ∧ sd'.st = op.wait ∧
    a.status.isZero = false ∧ sd'.evMysql = some (waitEvent a) ∧ sd'.queryElement = sd.queryElement := by
  cases h with
  | waits hz => exact ⟨rfl, rfl, hz, rfl, rfl⟩

/-- What holds between the passes: nothing is in libevent, and the list has been found empty if the connection
closes. -/
structure Going (n : Int) (b : Bool) (g₀ g : Globals) (sd : StateData) : Prop where
  event   : sd.evMysql = none
  owns    : sd.Owns
  active  : g.numActiveConnections = n
  broken  : g.eventBreak = b
  shrinks : g.queryList <:+ g₀.queryList
  closing : sd.st.closing = true → g.queryList = []

/-- What a call of the handler leaves behind. -/
structure Called.Left (n : Int) (b : Bool) (g₀ g : Globals) (sd : StateData) : Prop where
  shrinks : g.queryList <:+ g₀.queryList
  closing : sd.st.closing = true → g.queryList = []
  rests   : (sd.Done ∧ g.numActiveConnections = n - 1 ∧ g.eventBreak = (b || n - 1 = 0)) ∨
    (sd.Waits ∧ g.numActiveConnections = n ∧ g.eventBreak = b)

/-- An operation of the machine goes with a state that is not 50. -/
theorem wait_ne_done : op.wait ≠ .st50 := by cases op <;> simp [LibOp.wait]

theorem closing_next (h : op.next.closing = true) : op = .close := by
  cases op <;> simp_all [LibOp.next, St.closing]

theorem closing_wait (h : op.wait.closing = true) : op = .close := by
  cases op <;> simp_all [LibOp.wait, St.closing]

theorem Going.again {n : Int} {b : Bool} {g₀ : Globals} (h : Going n b g₀ g sd)
    (hp : Passed a event g sd (.again g' sd')) : Going n b g₀ g' sd' := by
  cases hp with
  | @start op _ hst hne hop hc =>
    obtain ⟨rfl, hst', hev, hq⟩ := hc.again_spec
    refine ⟨hev.trans h.event, ?_, h.active, h.broken, h.shrinks, ?_⟩
    · intro ho
      cases op with
      | query q => exact absurd hst hne
      | connect | fetchRow r | close => simp [hst', LibOp.next] at ho
    · intro hcl
      obtain rfl := closing_next (hst' ▸ hcl)
      exact h.closing (by rw [hst]; rfl)
  | @cont op _ hst hop hc =>
    obtain ⟨rfl, hst', hev, hq⟩ := hc.again_spec
    refine ⟨hev.trans h.event, ?_, h.active, h.broken, h.shrinks, ?_⟩
    · intro ho
      rw [hq]
      cases op with
      | query q => exact h.owns (.inl hst)
      | connect | fetchRow r | close => simp [hst', LibOp.next] at ho
    · intro hcl
      obtain rfl := closing_next (hst' ▸ hcl)
      exact h.closing (by rw [hst]; rfl)
  | connected hst =>
    exact ⟨h.event, by simp [StateData.Owns], h.active, h.broken, h.shrinks, by simp [St.closing]⟩
  | noMore hst hq => exact ⟨h.event, by simp [StateData.Owns], h.active, h.broken, h.shrinks, fun _ => hq⟩
  | @take q rest _ hst hq hc =>
    obtain ⟨rfl, hst', hev, hel⟩ := hc.again_spec
    have hs : rest <:+ g.queryList := hq ▸ List.suffix_cons q rest
    exact ⟨hev.trans h.event, fun _ => ⟨q, hel⟩, h.active, h.broken, hs.trans h.shrinks,
      by simp [hst', LibOp.next, St.closing]⟩
  | failed | row | rowsEnded | opened =>
    exact ⟨h.event, by simp [StateData.Owns], h.active, h.broken, h.shrinks, by simp [St.closing]⟩

theorem Going.rest {n : Int} {b : Bool} {g₀ : Globals} (h : Going n b g₀ g sd)
    (hp : Passed a event g sd (.rest g' sd')) : Called.Left n b g₀ g' sd' := by
  cases hp with
  | @start op _ hst hne hop hc =>
    obtain ⟨rfl, hst', hz, hev, hq⟩ := hc.rest_spec
    refine ⟨h.shrinks, fun hcl => ?_, .inr ⟨⟨?_, op, a, hst', hz, hev⟩, h.active, h.broken⟩⟩
    · obtain rfl := closing_wait (hst' ▸ hcl)
      exact h.closing (by rw [hst]; rfl)
    · intro ho
      cases op with
      | query q => exact absurd hst hne
      | connect | fetchRow r | close => simp [hst', LibOp.wait] at ho
  | @cont op _ hst hop hc =>
    obtain ⟨rfl, hst', hz, hev, hq⟩ := hc.rest_spec
    refine ⟨h.shrinks, fun hcl => ?_, .inr ⟨⟨?_, op, a, hst', hz, hev⟩, h.active, h.broken⟩⟩
    · obtain rfl := closing_wait (hst' ▸ hcl)
      exact h.closing (by rw [hst]; rfl)
    · intro ho
      rw [hq]
      cases op with
      | query q => exact h.owns (.inl hst)
      | connect | fetchRow r | close => simp [hst', LibOp.wait] at ho
  | @take q rest _ hst hq hc =>
    obtain ⟨rfl, hst', hz, hev, hel⟩ := hc.rest_spec
    have hs : rest <:+ g.queryList := hq ▸ List.suffix_cons q rest
    refine ⟨hs.trans h.shrinks, by simp [hst', LibOp.wait, St.closing], ?_⟩
    exact .inr ⟨⟨fun _ => ⟨q, hel⟩, _, a, hst', hz, hev⟩, h.active, h.broken⟩
  | done hst =>
    refine ⟨h.shrinks, fun _ => h.closing (by rw [hst]; rfl), .inl ⟨⟨hst, h.event⟩, ?_, ?_⟩⟩
    · show g.numActiveConnections - 1 = n - 1
      rw [h.active]
    · show (g.eventBreak || decide (g.numActiveConnections - 1 = 0)) = _
      rw [h.broken, h.active]

/-- **What a call of the handler leaves behind.** -/
theorem handler_left (h : stateMachineHandler as event g sd = .ok (g', sd')) (hev : sd.evMysql = none)
    (ho : sd.Owns) (hc : sd.st.closing = true → g.queryList = []) :
    Called.Left g.numActiveConnections g.eventBreak g g' sd' := by
  refine handler_rule (I := Going g.numActiveConnections g.eventBreak g)
    (Q := Called.Left g.numActiveConnections g.eventBreak g) ?_ ?_ h ⟨hev, ho, rfl, rfl, List.suffix_refl _, hc⟩
  · intro a g sd g' sd' hg hp
    exact hg.again hp
  · intro a g sd g' sd' hg hp
    exact hg.rest hp

/-! ## Any state of a run -/

def StateData.Resting (sd : StateData) : Prop := sd.Done ∨ sd.Waits

theorem StateData.Waits.ne_done (h : sd.Waits) : sd.st ≠ .st50 := by
  obtain ⟨-, op, a, hst, -⟩ := h
  rw [hst]
  exact wait_ne_done

theorem StateData.Resting.done (h : sd.Resting) (hst : sd.st = .st50) : sd.Done := by
  rcases h with h | h
  · exact h
  · exact absurd hst h.ne_done

theorem Called.Left.resting {n : Int} {b : Bool} {g₀ : Globals} (h : Called.Left n b g₀ g sd) : sd.Resting :=
  h.rests.imp And.left And.left

/-- A list that is empty stays empty. -/
theorem Called.Left.drained {n : Int} {b : Bool} {g₀ : Globals} (h : Called.Left n b g₀ g sd) (hq : g₀.queryList = []) :
    g.queryList = [] := by
  have hs := h.shrinks
  rw [hq] at hs
  exact List.suffix_nil.1 hs

/-- The number of active connections after the handler. -/
theorem Called.Left.active {n : Int} {b : Bool} {g₀ : Globals} (h : Called.Left n b g₀ g sd) :
    g.numActiveConnections = n - 1 + (if sd.st ≠ .st50 then 1 else 0) := by
  rcases h.rests with ⟨hd, hn, -⟩ | ⟨hw, hn, -⟩
  · rw [hn, if_neg (by simp [hd.1])]
    omega
  · rw [hn, if_pos hw.ne_done]
    omega

/-- The loop is broken only by the connection that is the last one. -/
theorem Called.Left.broken {n : Int} {g₀ : Globals} (h : Called.Left n false g₀ g sd) (hb : g.eventBreak = true) :
    g.numActiveConnections = 0 := by
  rcases h.rests with ⟨-, hn, hb'⟩ | ⟨-, -, hb'⟩
  · rw [hb', Bool.false_or, decide_eq_true_eq] at hb
    omega
  · rw [hb'] at hb
    cases hb

end

namespace Program

/-- The number of connections that are not at state 50. -/
def active (sds : List StateData) : Nat := sds.countP fun sd => sd.st ≠ .st50

structure Balanced (s : Program) : Prop where
  rests   : ∀ sd ∈ s.sds, sd.Resting
  count   : s.globals.numActiveConnections = active s.sds
  broken  : s.dispatching = true → s.globals.eventBreak = true → s.globals.numActiveConnections = 0
  full    : s.dispatching = true → s.sds.length = s.optConnections
  closing : ∀ sd ∈ s.sds, sd.st.closing = true → s.globals.queryList = []

variable {s t : Program} {op : Op} {file : Option Bytes} {args : List Bytes}

theorem active_set {sds : List StateData} {i : Nat} {sd sd' : StateData} (hi : sds[i]? = some sd)
    (hst : sd.st ≠ .st50) :
    (active (sds.set i sd') : Int) = active sds - 1 + (if sd'.st ≠ .st50 then 1 else 0) := by
  obtain ⟨hlt, rfl⟩ := List.getElem?_eq_some_iff.1 hi
  have hpos : 0 < active sds := List.countP_pos_iff.2 ⟨_, List.getElem_mem hlt, by simpa using hst⟩
  unfold active at hpos ⊢
  rw [List.countP_set hlt, if_pos (by simpa using hst)]
  generalize sds.countP _ = n at hpos ⊢
  by_cases h : sd'.st = .st50 <;> simp [h] <;> omega

theorem Balanced.step (h : s.Balanced) (hs : lts.step s op t) : t.Balanced := by
  cases lts_stepped hs with
  | dispatch hd hlen => exact ⟨h.rests, h.count, fun _ hb => absurd hb Bool.false_ne_true, fun _ => hlen, h.closing⟩
  | @boot sd sd' as g' hd hlt hh =>
    have hl := handler_left hh rfl (by simp [StateData.Owns]) (by simp [St.closing])
    constructor
    case rests =>
      intro x hx
      rcases List.mem_append.1 hx with hx | hx
      · exact h.rests x hx
      · exact List.mem_singleton.1 hx ▸ hl.resting
    case count =>
      have hn := hl.active
      have hc := h.count
      simp only [activate_numActiveConnections] at hn
      show g'.numActiveConnections = active (s.sds ++ [sd'])
      unfold active at hc ⊢
      rw [List.countP_append, hn, hc]
      by_cases hst : sd'.st = .st50 <;> simp [hst]
    case broken =>
      intro hd'
      rw [hd] at hd'
      cases hd'
    case full =>
      intro hd'
      rw [hd] at hd'
      cases hd'
    case closing =>
      intro x hx hcl
      rcases List.mem_append.1 hx with hx | hx
      · exact hl.drained (h.closing x hx hcl)
      · exact hl.closing (List.mem_singleton.1 hx ▸ hcl)
  | @wake i event as sd sd' e g' hd hb hi hev hf hh =>
    have hw : sd.Waits := by
      rcases h.rests sd (List.mem_of_getElem? hi) with hdone | hw
      · rw [hdone.2] at hev
        cases hev
      · exact hw
    have hcl : sd.fired.st.closing = true → s.globals.queryList = [] := h.closing sd (List.mem_of_getElem? hi)
    have hl := handler_left hh rfl hw.1 hcl
    constructor
    case rests =>
      intro x hx
      rcases List.mem_or_eq_of_mem_set hx with hx | rfl
      · exact h.rests x hx
      · exact hl.resting
    case count =>
      show g'.numActiveConnections = active (s.sds.set i sd')
      rw [active_set hi hw.ne_done, hl.active, h.count]
    case broken =>
      intro _ hb'
      rw [hb] at hl
      exact hl.broken hb'
    case full =>
      intro hd'
      show (s.sds.set i sd').length = s.optConnections
      rw [List.length_set]
      exact h.full hd'
    case closing =>
      intro x hx hcl
      rcases List.mem_or_eq_of_mem_set hx with hx | rfl
      · exact hl.drained (h.closing x hx hcl)
      · exact hl.closing hcl

theorem balanced_start (n : Nat) (l : QueryList) : (start n l).Balanced := by
  constructor
  case count => rfl
  case broken | full =>
    intro hd
    cases hd
  all_goals
    intro sd hsd
    cases hsd

theorem Reachable.balanced (h : s.Reachable file args) : s.Balanced := by
  obtain ⟨n, ops, hr⟩ := h
  exact hr.invariant (fun _ _ _ hb hs => hb.step hs) (balanced_start n _)

/-! ## The end -/

/-- Each connection that waits can be woken: its status has named something libevent can wait for. -/
def Wakeable (s : Program) : Prop := ∀ sd ∈ s.sds, ∀ e, sd.evMysql = some e → e.pending = true

theorem active_eq_zero : active s.sds = 0 ↔ ∀ sd ∈ s.sds, sd.st = .st50 := by
  unfold active
  rw [List.countP_eq_zero]
  simp

theorem Balanced.ended_iff (h : s.Balanced) (hd : s.dispatching = true) (hw : s.Wakeable) :
    s.Ended ↔ ∀ sd ∈ s.sds, sd.st = .st50 := by
  constructor
  · rintro ⟨-, hb | hnone⟩
    · have hn := h.broken hd hb
      rw [h.count] at hn
      exact active_eq_zero.1 (by omega)
    · intro sd hsd
      rcases h.rests sd hsd with hdone | ⟨-, op, a, -, -, hev⟩
      · exact hdone.1
      · have hp := hw sd hsd _ hev
        rw [hnone sd hsd _ hev] at hp
        cases hp
  · intro hall
    refine ⟨hd, .inr fun sd hsd e hev => ?_⟩
    rw [((h.rests sd hsd).done (hall sd hsd)).2] at hev
    cases hev

theorem Balanced.ne_nil (h : s.Balanced) (hd : s.dispatching = true) (hpos : 0 < s.optConnections) : s.sds ≠ [] := by
  intro hnil
  have hlen := h.full hd
  rw [hnil, List.length_nil] at hlen
  omega

/-- Every query has been run: its header, its rows and its last line have been printed. -/
def Complete (file : Option Bytes) (args : List Bytes) (s : Program) : Prop :=
  s.globals.queryList = [] ∧ ∀ e ∈ (givenQueries file args).queryList,
    ∃ rows l, l.IsLast ∧ linesOf e.index s.globals.out = opening e rows ++ [l]

/-- When the connections are all done, and there is one, every query has been run. -/
theorem Reachable.complete (h : s.Reachable file args) (hall : ∀ sd ∈ s.sds, sd.st = .st50) (hne : s.sds ≠ []) :
    Complete file args s := by
  obtain ⟨sd, hsd⟩ := List.exists_mem_of_ne_nil _ hne
  have hq : s.globals.queryList = [] := h.balanced.closing sd hsd (by rw [hall sd hsd]; rfl)
  refine ⟨hq, fun e he => ?_⟩
  rcases h.placed he with ⟨hwait, -⟩ | ⟨rows, -, i, ⟨sd', hi, hh⟩, -⟩ | ⟨rows, l, hl, hls, -⟩
  · rw [hq] at hwait
    cases hwait
  · rw [StateData.holding, hall sd' (List.mem_of_getElem? hi)] at hh
    cases hh
  · exact ⟨rows, l, hl, hls⟩

end Program

/-! ## The end can be reached -/

section
variable {a : Answer} {as : List Answer} {event : EvFlags} {g g' : Globals} {sd sd' : StateData}

theorem handler_again (h : pass a event g sd = .again g' sd') :
    stateMachineHandler (a :: as) event g sd = stateMachineHandler as event g' sd' := by
  rw [stateMachineHandler, h]

/-- At state 10: each query that is left fails, and the connection closes. -/
theorem exists_drain (event : EvFlags) : ∀ (l : List QueryEntry) (g : Globals) (sd : StateData), g.queryList = l →
    sd.st = .st10 → ∃ as g' sd', stateMachineHandler as event g sd = .ok (g', sd') ∧ sd'.st = .st50
  | [], g, sd, hq, hst => by
    have h10 : pass {} event g sd = .again g { sd with queryElement := none, st := .st40 } := by simp [pass, hst, hq]
    refine ⟨[{}, {}, {}], ?_⟩
    rw [handler_again h10]
    exact ⟨_, _, rfl, rfl⟩
  | e :: l, g, sd, hq, hst => by
    obtain ⟨g₁, sd₁, h10, hq₁, hst₁, hel, herr⟩ : ∃ g₁ sd₁, pass { err := 1 } event g sd = .again g₁ sd₁ ∧
        g₁.queryList = l ∧ sd₁.st = .st20 ∧ sd₁.queryElement = some e ∧ sd₁.err = 1 := by
      simp only [pass, hst, hq]
      exact ⟨_, _, rfl, rfl, rfl, rfl, rfl⟩
    obtain ⟨g₂, sd₂, h20, hq₂, hst₂⟩ : ∃ g₂ sd₂, pass {} event g₁ sd₁ = .again g₂ sd₂ ∧ g₂.queryList = l ∧
        sd₂.st = .st10 := by
      simp [pass, hst₁, hel, herr, hq₁]
    obtain ⟨as, g', sd', hh, hst'⟩ := exists_drain event l g₂ sd₂ hq₂ hst₂
    refine ⟨{ err := 1 } :: {} :: as, g', sd', ?_, hst'⟩
    rw [handler_again h10, handler_again h20, hh]

/-- A connection that waits is brought to state 50 by one event. -/
theorem exists_finish (event : EvFlags) (g : Globals) (hw : sd.Waits) :
    ∃ as g' sd', stateMachineHandler as event g sd.fired = .ok (g', sd') ∧ sd'.st = .st50 := by
  obtain ⟨ho, op, a, hst, -, -⟩ := hw
  -- two answers end the operation and lead to state 10, where the list is worked off
  have hdrain : ∀ {a₁ a₂ g₁ sd₁ g₂ sd₂}, pass a₁ event g sd.fired = .again g₁ sd₁ →
      pass a₂ event g₁ sd₁ = .again g₂ sd₂ → sd₂.st = .st10 →
      ∃ as g' sd', stateMachineHandler as event g sd.fired = .ok (g', sd') ∧ sd'.st = .st50 := by
    intro a₁ a₂ g₁ sd₁ g₂ sd₂ h₁ h₂ hst₂
    obtain ⟨as, g', sd', hh, hst'⟩ := exists_drain event _ g₂ sd₂ rfl hst₂
    refine ⟨a₁ :: a₂ :: as, g', sd', ?_, hst'⟩
    rw [handler_again h₁, handler_again h₂, hh]
  cases op with
  | connect =>
    have h₁ : ∃ sd₁, pass { ret := true } event g sd.fired = .again g sd₁ ∧ sd₁.st = .st9 ∧ sd₁.ret = true := by
      simp only [pass, StateData.fired_st, hst, LibOp.wait]
      exact ⟨_, rfl, rfl, rfl⟩
    obtain ⟨sd₁, h₁, hst₁, hret⟩ := h₁
    have h₂ : pass {} event g sd₁ = .again g (sd₁.goto .st10) := by simp [pass, hst₁, hret]
    exact hdrain h₁ h₂ rfl
  | query q =>
    obtain ⟨e, he⟩ := ho (.inl hst)
    have h₁ : ∃ sd₁, pass { err := 1 } event g sd.fired = .again g sd₁ ∧ sd₁.st = .st20 ∧
        sd₁.queryElement = some e ∧ sd₁.err = 1 := by
      simp only [pass, StateData.fired_st, hst, LibOp.wait]
      exact ⟨_, rfl, rfl, he, rfl⟩
    obtain ⟨sd₁, h₁, hst₁, hel, herr⟩ := h₁
    have h₂ : ∃ g₂ sd₂, pass {} event g sd₁ = .again g₂ sd₂ ∧ sd₂.st = .st10 := by simp [pass, hst₁, hel, herr]
    obtain ⟨g₂, sd₂, h₂, hst₂⟩ := h₂
    exact hdrain h₁ h₂ hst₂
  | fetchRow r =>
    have h₁ : ∃ sd₁, pass {} event g sd.fired = .again g sd₁ ∧ sd₁.st = .st39 ∧ sd₁.row = none := by
      simp only [pass, StateData.fired_st, hst, LibOp.wait]
      exact ⟨_, rfl, rfl, rfl⟩
    obtain ⟨sd₁, h₁, hst₁, hrow⟩ := h₁
    have h₂ : ∃ g₂ sd₂, pass {} event g sd₁ = .again g₂ sd₂ ∧ sd₂.st = .st10 := by simp [pass, hst₁, hrow]
    obtain ⟨g₂, sd₂, h₂, hst₂⟩ := h₂
    exact hdrain h₁ h₂ hst₂
  | close =>
    have h₁ : ∃ sd₁, pass {} event g sd.fired = .again g sd₁ ∧ sd₁.st = .st50 := by
      simp only [pass, StateData.fired_st, hst, LibOp.wait]
      exact ⟨_, rfl, rfl⟩
    obtain ⟨sd₁, h₁, hst₁⟩ := h₁
    have h₂ : ∃ g₂, pass {} event g sd₁ = .rest g₂ sd₁ := by simp [pass, hst₁]
    obtain ⟨g₂, h₂⟩ := h₂
    refine ⟨[{}, {}], g₂, sd₁, ?_, hst₁⟩
    rw [handler_again h₁, stateMachineHandler, h₂]

end

namespace Program

variable {s t : Program} {file : Option Bytes} {args : List Bytes}

/-- Waking a connection that waits can bring it to state 50. -/
theorem Balanced.exists_step (h : s.Balanced) (hd : s.dispatching = true) (hw : s.Wakeable) (hpos : active s.sds ≠ 0) :
    ∃ op t, lts.step s op t ∧ t.dispatching = true ∧ t.Wakeable ∧ active t.sds < active s.sds := by
  obtain ⟨sd, hsd, hst⟩ : ∃ sd ∈ s.sds, sd.st ≠ .st50 := by
    by_contra hall
    push Not at hall
    exact hpos (active_eq_zero.2 hall)
  obtain ⟨i, hi⟩ := List.mem_iff_getElem?.1 hsd
  have hwait : sd.Waits := (h.rests sd hsd).resolve_left fun hdone => hst hdone.1
  have hb : s.globals.eventBreak = false := by
    by_contra hb
    have hn := h.broken hd (by simpa using hb)
    rw [h.count] at hn
    omega
  obtain ⟨-, op, a, -, -, hev⟩ := id hwait
  -- the event fires with everything it waits for
  let e := waitEvent a
  let f : EvFlags := ⟨e.read, e.write, e.timeout.isSome⟩
  have hf : e.Fires f := by
    have hp : e.pending = true := hw sd hsd e hev
    simp only [Event.pending, Bool.or_eq_true] at hp
    refine ⟨?_, id, id, id⟩
    rcases hp with (hp | hp) | hp
    · exact .inl hp
    · exact .inr (.inl hp)
    · exact .inr (.inr hp)
  obtain ⟨as, g', sd', hh, hst'⟩ := exists_finish f s.globals hwait
  have hs : lts.step s (.wake i f as) { s with globals := g', sds := s.sds.set i sd' } := by
    refine ⟨⟨hd, hb, e, by simp [hi, hev, e], hf⟩, ?_⟩
    show s.handle i f as StateData.fired = _
    simp [handle, hi, hh, Except.map]
  have hbal := h.step hs
  refine ⟨_, _, hs, hd, fun x hx e' he' => ?_, ?_⟩
  · rcases List.mem_or_eq_of_mem_set hx with hx | rfl
    · exact hw x hx e' he'
    · have hlt := (List.getElem?_eq_some_iff.1 hi).1
      have hmem : x ∈ s.sds.set i x := List.mem_iff_getElem?.2 ⟨i, by simp [hlt]⟩
      rw [((hbal.rests x hmem).done hst').2] at he'
      cases he'
  · have hset : (active (s.sds.set i sd') : Int) = _ := active_set hi hst
    rw [if_neg (by simp [hst'])] at hset
    show active (s.sds.set i sd') < active s.sds
    omega

theorem Balanced.exists_end (h : s.Balanced) (hd : s.dispatching = true) (hw : s.Wakeable) :
    ∃ ops t, lts.Run s ops t ∧ t.dispatching = true ∧ t.Wakeable ∧ ∀ sd ∈ t.sds, sd.st = .st50 := by
  generalize hn : active s.sds = n
  induction n using Nat.strongRecOn generalizing s with
  | ind n ih =>
    by_cases hz : active s.sds = 0
    · exact ⟨[], s, .nil s, hd, hw, active_eq_zero.1 hz⟩
    · obtain ⟨op, t, hs, hd', hw', hlt⟩ := h.exists_step hd hw hz
      obtain ⟨ops, u, hr, hu⟩ := ih (active t.sds) (by omega) (h.step hs) hd' hw' rfl
      exact ⟨op :: ops, u, .cons hs hr, hu⟩

instance (s : Program) : Decidable s.Wakeable :=
  decidable_of_iff (∀ sd ∈ s.sds, sd.evMysql.all Event.pending = true) (by simp [Wakeable, Option.all_eq_true])

instance (s : Program) : Decidable s.Ended :=
  decidable_of_iff (s.dispatching = true ∧ (s.globals.eventBreak = true ∨
    ∀ sd ∈ s.sds, (sd.evMysql.all fun e => !e.pending) = true)) (by simp [Ended, Option.all_eq_true])

/-- The first query yields a row, the second an error; then both connections find the list empty and close. -/
def workedOff : List Op :=
  sending ++ [.wake 1 { write := true } [{}, { res := some ⟨0, [[99]]⟩ }, { row := some [none] }, {}, {}, {},
    { err := 1146 }, {}, {}, {}, {}], .wake 0 { write := true } [{ ret := true }, {}, {}, {}, {}]]

end Program
end LtApp.AsyncQueries
