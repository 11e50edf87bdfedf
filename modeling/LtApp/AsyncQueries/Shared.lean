import LtApp.Base.Crew
import LtApp.AsyncQueries.Program

/-!
# The connections share the queries

The connections are a `Crew`: an item is the index of a query, a connection has in hand what it runs, and each line of
output is a deed (`Program.crew`). `passed_crew` shows that a pass of the handler is at most one act of the crew. So
the books of the crew are those of the program: the queries are taken in order, each is run by one connection, once,
and the lines about it are a header, its rows, and one line that ends it (`queries_shared`).
-/

namespace LtApp.AsyncQueries

open Mysql (Bytes Answer)

/-- The index of the query the connection runs. -/
def StateData.holding (sd : StateData) : Option Nat :=
  match sd.st with
  | .st11 | .st20 | .st30 | .st31 | .st39 => some sd.index
  | _ => none

def Line.deed : Line → Deed Nat
  | .query k _ => .take k
  | .row k _ => .work k
  | .error k _ | .eof k => .finish k

@[simp] theorem Line.deed_query (k : Nat) (q : Bytes) : (Line.query k q).deed = .take k := rfl
@[simp] theorem Line.deed_row (k : Nat) (vs : List Bytes) : (Line.row k vs).deed = .work k := rfl
@[simp] theorem Line.deed_error (k : Nat) (m : String) : (Line.error k m).deed = .finish k := rfl
@[simp] theorem Line.deed_eof (k : Nat) : (Line.eof k).deed = .finish k := rfl

@[simp] theorem Line.deed_item (l : Line) : l.deed.item = l.index := by cases l <;> rfl

/-- The program as a crew. -/
def crew (g : Globals) (sds : List StateData) : Crew Nat where
  waiting := g.queryList.map (·.index)
  hands := sds.map (·.holding)
  deeds := g.out.map (·.deed)

section
variable {a : Answer} {event : EvFlags} {g g' : Globals} {sd sd' : StateData} {sds : List StateData} {i : Nat}
  {op : LibOp} {e : Ev} {t : Turn}

/-! ## A pass is an act -/

@[simp] theorem store_index : (store op a sd).index = sd.index := by
  unfold store
  cases op <;> split <;> rfl

/-- While an operation waits, and when it has ended, the connection runs the same query. -/
def LibOp.holds : LibOp → Bool
  | .query _ | .fetchRow _ => true
  | _ => false

theorem holding_next (h : sd.st = op.next) : sd.holding = if op.holds then some sd.index else none := by
  cases op <;> simp [StateData.holding, h, LibOp.next, LibOp.holds]

theorem holding_wait (h : sd.st = op.wait) : sd.holding = if op.holds then some sd.index else none := by
  cases op <;> simp [StateData.holding, h, LibOp.wait, LibOp.holds]

theorem Called.holding (h : Called op e a g sd t) (ht : t.Leaves g' sd') :
    g' = g ∧ sd'.index = sd.index ∧ sd'.holding = if op.holds then some sd.index else none := by
  cases h with
  | ended hz =>
    obtain ⟨rfl, rfl⟩ : g = g' ∧ (store op a (sd.emit e)).goto op.next = sd' := by simpa [Turn.Leaves] using ht
    exact ⟨rfl, by simp, by rw [holding_next rfl]; simp⟩
  | waits hz =>
    obtain ⟨rfl, rfl⟩ : g = g' ∧ nextEvent op.wait a (sd.emit e) = sd' := by simpa [Turn.Leaves] using ht
    exact ⟨rfl, rfl, holding_wait rfl⟩

theorem hands_crew {o : Option Nat} (hi : sds[i]? = some sd) (ho : sd.holding = o) :
    (crew g sds).hands[i]? = some o := by
  show (sds.map (·.holding))[i]? = some o
  rw [List.getElem?_map, hi, ← ho]
  rfl

theorem crew_set : crew g (sds.set i sd') = { crew g sds with hands := (crew g sds).hands.set i sd'.holding } := by
  simp [crew, List.map_set]

/-- The connection goes on with what it has in hand. -/
theorem crew_keep (hi : sds[i]? = some sd) (hh : sd'.holding = sd.holding) : crew g (sds.set i sd') = crew g sds := by
  obtain ⟨hlt, hget⟩ := List.getElem?_eq_some_iff.1 (hands_crew (g := g) hi rfl)
  rw [crew_set, hh, ← hget, List.set_getElem_self]

/-- **A pass is at most one act of the crew.** -/
theorem passed_crew (hi : sds[i]? = some sd) (h : Passed a event g sd t) (ht : t.Leaves g' sd') :
    ∃ acts, (Crew.lts Nat).Run (crew g sds) acts (crew g' (sds.set i sd')) := by
  have hkeep : ∀ g₁, crew g₁ sds = crew g sds → sd'.holding = sd.holding → g' = g₁ →
      ∃ acts, (Crew.lts Nat).Run (crew g sds) acts (crew g' (sds.set i sd')) := by
    rintro g₁ hg hh rfl
    rw [crew_keep hi hh, hg]
    exact ⟨[], .nil _⟩
  cases h with
  | @start op _ hst hne hop hc =>
    obtain ⟨rfl, -, hh⟩ := hc.holding ht
    refine hkeep g' rfl (hh.trans ?_) rfl
    cases op with
    | query e => exact absurd hst hne
    | connect | fetchRow r | close => simp [StateData.holding, hst, LibOp.first, LibOp.holds]
  | @cont op _ hst hop hc =>
    obtain ⟨rfl, -, hh⟩ := hc.holding ht
    exact hkeep g' rfl (hh.trans (holding_wait hst).symm) rfl
  | connected hst hr =>
    obtain ⟨rfl, rfl⟩ : g = g' ∧ sd.goto .st10 = sd' := by simpa [Turn.Leaves] using ht
    exact hkeep g rfl (by simp [StateData.holding, hst]) rfl
  | noMore hst hq =>
    obtain ⟨rfl, rfl⟩ : g = g' ∧ { sd with queryElement := none, st := .st40 } = sd' := by simpa [Turn.Leaves] using ht
    exact hkeep g rfl (by simp [StateData.holding, hst]) rfl
  | @take e rest _ hst hq hc =>
    obtain ⟨rfl, -, hh⟩ := hc.holding ht
    refine ⟨[.take i], .single ?_⟩
    have hnone : (crew g sds).hands[i]? = some none := hands_crew hi (by simp [StateData.holding, hst])
    have hwait : (crew g sds).waiting = e.index :: rest.map (·.index) := by simp [crew, hq]
    have hs : (Crew.lts Nat).step _ _ _ := .take hnone hwait
    rw [crew_set, hh]
    simpa [crew, LibOp.holds] using hs
  | @failed e hst he herr =>
    obtain ⟨rfl, rfl⟩ : g.print (.error sd.index a.error) = g' ∧ (sd.emit (.freeQuery e)).goto .st10 = sd' := by
      simpa [Turn.Leaves] using ht
    refine ⟨[.finish i], .single ?_⟩
    have hsome : (crew g sds).hands[i]? = some (some sd.index) := hands_crew hi (by simp [StateData.holding, hst])
    have hs : (Crew.lts Nat).step _ _ _ := .finish hsome
    rw [crew_set]
    simpa [crew, StateData.holding] using hs
  | opened hst he herr hres =>
    obtain ⟨rfl, rfl⟩ : g = g' ∧ _ = sd' := by simpa [Turn.Leaves] using ht
    exact hkeep g rfl (by simp [StateData.holding, hst]) rfl
  | @row r row hst hrow hr =>
    obtain ⟨rfl, rfl⟩ : g.print (.row sd.index (rowValues r row)) = g' ∧ sd.goto .st30 = sd' := by simpa [Turn.Leaves] using ht
    refine ⟨[.work i], .single ?_⟩
    have hsome : (crew g sds).hands[i]? = some (some sd.index) := hands_crew hi (by simp [StateData.holding, hst])
    have hs : (Crew.lts Nat).step _ _ _ := .work hsome
    rw [crew_keep hi (by simp [StateData.holding, hst])]
    simpa [crew] using hs
  | @rowsEnded l hst hrow hl =>
    obtain ⟨rfl, rfl⟩ : g.print l = g' ∧ (sd.emit (.freeResult sd.result)).goto .st10 = sd' := by simpa [Turn.Leaves] using ht
    refine ⟨[.finish i], .single ?_⟩
    have hsome : (crew g sds).hands[i]? = some (some sd.index) := hands_crew hi (by simp [StateData.holding, hst])
    have hd : l.deed = .finish sd.index := by rcases hl with rfl | rfl <;> rfl
    have hs : (Crew.lts Nat).step _ _ _ := .finish hsome
    rw [crew_set]
    simpa [crew, StateData.holding, hd] using hs
  | done hst =>
    obtain ⟨rfl, rfl⟩ : _ = g' ∧ sd = sd' := by simpa [Turn.Leaves] using ht
    refine hkeep _ ?_ rfl rfl
    rfl

end

/-- **The program refines the crew.** -/
theorem Program.run_crew {s t : Program} {ops : List Op} (h : Program.lts.Run s ops t) :
    ∃ acts, (Crew.lts Nat).Run (crew s.globals s.sds) acts (crew t.globals t.sds) := by
  obtain ⟨acts, q, hr, rfl⟩ := h.refines (R := fun s q => q = crew s.globals s.sds) (N := Crew.lts Nat) (by
    rintro s op t _ rfl hs
    suffices hrun : ∃ acts, (Crew.lts Nat).Run (crew s.globals s.sds) acts (crew t.globals t.sds) by
      obtain ⟨acts, hr⟩ := hrun
      exact ⟨acts, _, hr, rfl⟩
    refine (Program.lts_stepped hs).rule
      (P := fun g sds => ∃ acts, (Crew.lts Nat).Run (crew s.globals s.sds) acts (crew g sds)) ⟨[], .nil _⟩ ?_ ?_ ?_ ?_
    · rintro sd ⟨acts, hr⟩
      refine ⟨acts ++ [.hire], hr.append (.single ?_)⟩
      have hh : (Crew.lts Nat).step _ _ _ := .hire (crew s.globals s.sds)
      simpa [crew, StateData.holding] using hh
    · rintro i sd hi ⟨acts, hr⟩
      have hk : crew s.globals (s.sds.set i sd.fired) = crew s.globals s.sds := crew_keep hi rfl
      exact ⟨acts, hk ▸ hr⟩
    · exact id
    · rintro a event sds i g sd t' g' sd' hi ⟨acts, hr⟩ hp ht
      obtain ⟨acts', hr'⟩ := passed_crew hi hp ht
      exact ⟨acts ++ acts', hr.append hr'⟩) _ rfl
  exact ⟨acts, hr⟩

/-! ## The lines about a query -/

def linesOf (k : Nat) (out : List Line) : List Line := out.filter fun l => l.index = k

/-- The queries whose header has been printed. -/
def headers (out : List Line) : List QueryEntry := out.filterMap fun | .query k q => some ⟨q, k⟩ | _ => none

/-- The line ends the output of a query. -/
def Line.IsLast : Line → Prop
  | .error _ _ | .eof _ => True
  | _ => False

/-- A header and rows. -/
def opening (e : QueryEntry) (rows : List (List Bytes)) : List Line :=
  .query e.index e.query :: rows.map (.row e.index)

theorem about_deeds (k : Nat) (out : List Line) : Crew.about k (out.map (·.deed)) = (linesOf k out).map (·.deed) := by
  rw [Crew.about, linesOf, List.filter_map]
  congr 2
  funext l
  simp

theorem rows_of_deeds {k : Nat} : ∀ {n : Nat} {ls : List Line}, ls.map (·.deed) = List.replicate n (Deed.work k) →
    ∃ rows : List (List Bytes), ls = rows.map (.row k)
  | 0, ls, h => ⟨[], by simpa using h⟩
  | n + 1, ls, h => by
    obtain ⟨l, ls, rfl, hl, hls⟩ := List.map_eq_cons_iff.1 h
    obtain ⟨rows, rfl⟩ := rows_of_deeds hls
    cases l with
    | row k' vs =>
      obtain rfl : k' = k := Deed.work.inj hl
      exact ⟨vs :: rows, rfl⟩
    | query | error | eof => cases hl

theorem opening_of_begun {k : Nat} {ls : List Line} (h : Crew.Begun k (ls.map (·.deed))) :
    ∃ q rows, ls = opening ⟨q, k⟩ rows := by
  obtain ⟨n, h⟩ := h
  obtain ⟨l, ls, rfl, hl, hls⟩ := List.map_eq_cons_iff.1 h
  obtain ⟨rows, rfl⟩ := rows_of_deeds hls
  cases l with
  | query k' q =>
    obtain rfl : k' = k := Deed.take.inj hl
    exact ⟨q, rows, rfl⟩
  | row | error | eof => cases hl

theorem isLast_of_deed {k : Nat} {l : Line} (h : l.deed = .finish k) : l.IsLast := by
  cases l with
  | error | eof => trivial
  | query | row => cases h

theorem passed_headers {a : Answer} {event : EvFlags} {g g' : Globals} {sd sd' : StateData} {t : Turn}
    (h : Passed a event g sd t) (ht : t.Leaves g' sd') :
    headers g'.out ++ g'.queryList = headers g.out ++ g.queryList := by
  cases h with
  | start _ _ _ hc | cont _ _ hc =>
    obtain ⟨rfl, -⟩ := hc.holding ht
    rfl
  | take hst hq hc =>
    obtain ⟨rfl, -⟩ := hc.holding ht
    simp [headers, hq]
  | connected | noMore | opened | done =>
    obtain ⟨rfl, -⟩ : _ = g' ∧ _ := by simpa [Turn.Leaves] using ht
    rfl
  | failed | row =>
    obtain ⟨rfl, -⟩ : _ = g' ∧ _ := by simpa [Turn.Leaves] using ht
    simp [headers]
  | rowsEnded _ _ hl =>
    obtain ⟨rfl, -⟩ : _ = g' ∧ _ := by simpa [Turn.Leaves] using ht
    rcases hl with rfl | rfl <;> simp [headers]

theorem givenQueries_index (file : Option Bytes) (args : List Bytes) :
    (givenQueries file args).queryList.map (·.index) = List.range (givenQueries file args).queryCounter :=
  (foldl_addQuery _ {} rfl).2

namespace Program

/-- Connection `i` runs the query. -/
def Runs (s : Program) (i k : Nat) : Prop := ∃ sd, s.sds[i]? = some sd ∧ sd.holding = some k

variable {file : Option Bytes} {args : List Bytes} {s : Program}

theorem Reachable.told (h : s.Reachable file args) :
    Crew.Booked ((givenQueries file args).queryList.map (·.index)) (crew s.globals s.sds) ∧
    (crew s.globals s.sds).Told := by
  obtain ⟨n, ops, hr⟩ := h
  obtain ⟨acts, hc⟩ := run_crew hr
  refine Crew.run_told hc ?_ Crew.booked_start Crew.told_start
  rw [givenQueries_index]
  exact List.nodup_range

theorem Reachable.headers (h : s.Reachable file args) :
    headers s.globals.out ++ s.globals.queryList = (givenQueries file args).queryList := by
  obtain ⟨n, ops, hr⟩ := h
  refine hr.invariant (P := fun s =>
    AsyncQueries.headers s.globals.out ++ s.globals.queryList = (givenQueries file args).queryList) ?_ rfl
  intro s op t hs hst
  refine (lts_stepped hst).rule
    (P := fun g _ => AsyncQueries.headers g.out ++ g.queryList = (givenQueries file args).queryList) hs
    (fun _ h => h) (fun _ _ _ h => h) id ?_
  intro a event sds i g sd t' g' sd' _ hg hp ht
  exact (passed_headers hp ht).trans hg

theorem mem_held_iff {k : Nat} : k ∈ (crew s.globals s.sds).held ↔ ∃ i, s.Runs i k := by
  rw [Crew.mem_held]
  simp only [crew, List.getElem?_map, Option.map_eq_some_iff]
  rfl

/-- A query is in the list, with nothing printed about it; or it is run by one connection, and the lines about it are
its header and rows; or it is over, with no connection running it, and a last line. -/
def Placed (s : Program) (e : QueryEntry) : Prop :=
  (e ∈ s.globals.queryList ∧ linesOf e.index s.globals.out = [] ∧ ∀ i, ¬ s.Runs i e.index) ∨
  (∃ rows, linesOf e.index s.globals.out = opening e rows ∧ ∃! i, s.Runs i e.index) ∨
  ∃ rows l, l.IsLast ∧ linesOf e.index s.globals.out = opening e rows ++ [l] ∧ ∀ i, ¬ s.Runs i e.index

theorem Reachable.placed (h : s.Reachable file args) {e : QueryEntry} (he : e ∈ (givenQueries file args).queryList) :
    s.Placed e := by
  have hhead := h.headers
  obtain ⟨hb, ht⟩ := h.told
  have hnodup : ((givenQueries file args).queryList.map (·.index)).Nodup := by
    rw [givenQueries_index]
    exact List.nodup_range
  have hnd := List.nodup_append.1 (hb.nodup hnodup)
  have hnd' := List.nodup_append.1 hnd.2.1
  -- an index names one query
  have hsame : ∀ d ∈ (givenQueries file args).queryList, d.index = e.index → d = e := fun d hd hde =>
    List.inj_on_of_nodup_map hnodup hd he hde
  -- a header printed for the index is that of the query
  have hopen : ∀ {q rows ls}, linesOf e.index s.globals.out = opening ⟨q, e.index⟩ rows ++ ls →
      opening ⟨q, e.index⟩ rows = opening e rows := by
    intro q rows ls hls
    have hmem : Line.query e.index q ∈ linesOf e.index s.globals.out := by simp [hls, opening]
    have hq : (⟨q, e.index⟩ : QueryEntry) ∈ AsyncQueries.headers s.globals.out :=
      List.mem_filterMap.2 ⟨_, (List.mem_filter.1 hmem).1, rfl⟩
    rw [hsame ⟨q, e.index⟩ (hhead ▸ List.mem_append_left _ hq) rfl]
  have hpart := hb.parts.mem_iff.1 (List.mem_map.2 ⟨e, he, rfl⟩)
  rw [List.mem_append, List.mem_append] at hpart
  rcases hpart with hwait | hheld | hover
  · refine .inl ⟨?_, ?_, fun i hi => ?_⟩
    · obtain ⟨d, hd, hde⟩ := List.mem_map.1 hwait
      exact hsame d (hhead ▸ List.mem_append_right _ hd) hde ▸ hd
    · have hnil := ht.unread _ hwait
      rw [show (crew s.globals s.sds).deeds = s.globals.out.map (·.deed) from rfl, about_deeds] at hnil
      exact List.map_eq_nil_iff.1 hnil
    · exact hnd.2.2 _ hwait _ (List.mem_append_left _ (mem_held_iff.2 ⟨i, hi⟩)) rfl
  · have hbegun := ht.begun _ hheld
    rw [show (crew s.globals s.sds).deeds = s.globals.out.map (·.deed) from rfl, about_deeds] at hbegun
    obtain ⟨q, rows, hls⟩ := opening_of_begun hbegun
    obtain ⟨i, hi⟩ := mem_held_iff.1 hheld
    refine .inr (.inl ⟨rows, ?_, i, hi, fun j hj => ?_⟩)
    · have hls' : linesOf e.index s.globals.out = opening ⟨q, e.index⟩ rows ++ [] := by rw [hls, List.append_nil]
      rw [hls, hopen hls']
    · obtain ⟨sd, hsd, hk⟩ := hi
      obtain ⟨sd', hsd', hk'⟩ := hj
      exact hb.hand_unique hnodup (hands_crew hsd' hk') (hands_crew hsd hk)
  · obtain ⟨ds, hbegun, hds⟩ := ht.ended _ hover
    rw [show (crew s.globals s.sds).deeds = s.globals.out.map (·.deed) from rfl, about_deeds] at hds
    obtain ⟨ls, ls', hls, rfl, hlast⟩ := List.map_eq_append_iff.1 hds
    obtain ⟨q, rows, rfl⟩ := opening_of_begun hbegun
    obtain ⟨l, hl', hl⟩ : ∃ l, ls' = [l] ∧ l.deed = .finish e.index := by simpa using hlast
    refine .inr (.inr ⟨rows, l, isLast_of_deed hl, ?_, fun i hi => ?_⟩)
    · rw [hls, hl', hopen hls]
    · exact hnd'.2.2 _ (mem_held_iff.2 ⟨i, hi⟩) _ hover rfl

/-- **The queries are shared out.** In every state the program reaches, the queries whose headers have been printed
and those still in the list are the queries it was given, in their order, and each of them is in one place. -/
theorem queries_shared (file : Option Bytes) (args : List Bytes) (s : Program) (h : s.Reachable file args) :
    AsyncQueries.headers s.globals.out ++ s.globals.queryList = (givenQueries file args).queryList ∧
    ∀ e ∈ (givenQueries file args).queryList, s.Placed e :=
  ⟨h.headers, fun _ he => h.placed he⟩

/-- Two queries, as arguments. -/
def twoQueries : List Bytes := [[115], [116]]

/-- Two connections are booted; the first one to be connected has sent the first query. -/
def sending : List Op :=
  let wait : Answer := { status := { write := true } }
  [.boot { st := .st50 } [wait], .boot { st := .st20, index := 7 } [wait], .dispatch,
    .wake 1 { write := true } [{ ret := true }, {}, wait]]

/-- The second connection runs the first query. -/
theorem queries_shared_sending : ∃ s : Program, s.Reachable none twoQueries ∧ s.Runs 1 0 ∧
    AsyncQueries.headers s.globals.out ++ s.globals.queryList = (givenQueries none twoQueries).queryList ∧
    ∀ e ∈ (givenQueries none twoQueries).queryList, s.Placed e := by
  obtain ⟨s, hr, hs⟩ : ∃ s : Program, lts.Run (start 2 (givenQueries none twoQueries)) sending s ∧
      (s.sds[1]?.bind (·.holding)) = some 0 :=
    Lts.exists_run_of_exec_imp (P := fun s : Program => (s.sds[1]?.bind (·.holding)) = some 0) tryStep_step (by decide)
      fun _ _ h => h
  have hreach : s.Reachable none twoQueries := ⟨2, sending, hr⟩
  exact ⟨s, hreach, Option.bind_eq_some_iff.1 hs, queries_shared none twoQueries s hreach⟩

end Program
end LtApp.AsyncQueries
