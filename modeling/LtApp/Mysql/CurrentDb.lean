import LtApp.Mysql.Phase

/-!
# Every statement runs in the database it asked for

`server` reads the history from the other side: the current database of the server is the one of the last
successful connect or select. The connection keeps its own copy, `last_selected_db_`, and skips the select
when the session asks for the copy. `Mirrors` says, state by state, what the copy knows.

`SyncConnect` is the path that forgets the copy: what an earlier lifetime has selected survives in it
(`stale_cache_misdirects`).
-/

namespace LtApp.Mysql

/-- The server's side: its current database, and the one the connect or select under way asks for. -/
structure Server where
  db     : Option Bytes := none
  target : Bytes := []
deriving DecidableEq, Repr

def Server.next (s : Server) : Ev → Server
  | .call (.realConnect opt) a => { s with db := if a.ret then some opt.dbname else s.db }
  | .call (.realConnectStart opt) a =>
    { db := if a.status.isZero ∧ a.ret = true then some opt.dbname else s.db, target := opt.dbname }
  | .call (.realConnectCont _) a =>
    { s with db := if a.status.isZero ∧ a.ret = true then some s.target else s.db }
  | .call (.selectDbStart d) a => { db := if a.status.isZero ∧ a.err = 0 then some d else s.db, target := d }
  | .call (.selectDbCont _) a => { s with db := if a.status.isZero ∧ a.err = 0 then some s.target else s.db }
  | _ => s

def server : List Ev → Server
  | [] => {}
  | e :: l => (server l).next e

/-- A statement is sent to the database its session asks for, if it asks for one. -/
def Ev.inDb (s : Server) : Ev → Prop
  | .call (.realQueryStart q) _ => q.dbName ≠ [] → s.db = some q.dbName
  | _ => True

/-- Each statement of the history was. -/
def StatementsInDb : List Ev → Prop
  | [] => True
  | e :: l => e.inDb (server l) ∧ StatementsInDb l

instance (s : Server) (e : Ev) : Decidable (e.inDb s) := by
  unfold Ev.inDb; split <;> infer_instance

instance decidableStatementsInDb : ∀ l : List Ev, Decidable (StatementsInDb l)
  | [] => isTrue trivial
  | _ :: l => @instDecidableAnd _ _ _ (decidableStatementsInDb l)

theorem statementsInDb_iff {l : List Ev} :
    StatementsInDb l ↔ ∀ (later older : List Ev) (e : Ev), l = later ++ e :: older → e.inDb (server older) := by
  induction l with
  | nil => simp [StatementsInDb]
  | cons e l ih =>
    constructor
    · rintro ⟨he, hl⟩ later older x hx
      cases later with
      | nil =>
        obtain ⟨rfl, rfl⟩ := List.cons.inj hx
        exact he
      | cons y later => exact ih.1 hl later older x (List.cons.inj hx).2
    · intro h
      exact ⟨h [] l e rfl, ih.2 fun later older x hx => h (e :: later) older x (by rw [hx, List.cons_append])⟩

/-- The event neither sends a statement nor moves the server to another database. -/
def Ev.quiet : Ev → Bool
  | .call (.realConnect _) _ | .call (.realConnectStart _) _ | .call (.realConnectCont _) _
  | .call (.selectDbStart _) _ | .call (.selectDbCont _) _ | .call (.realQueryStart _) _ => false
  | _ => true

theorem server_quiet {e : Ev} (h : e.quiet = true) (l : List Ev) : server (e :: l) = server l := by
  cases e <;> try rfl
  rename_i c a
  cases c <;> first | rfl | simp [Ev.quiet] at h

theorem statements_quiet {e : Ev} (h : e.quiet = true) (l : List Ev) :
    StatementsInDb (e :: l) ↔ StatementsInDb l := by
  have hin : e.inDb (server l) := by
    cases e <;> try trivial
    rename_i c a
    cases c <;> trivial
  exact ⟨fun hs => hs.2, fun hs => ⟨hin, hs⟩⟩

theorem server_append {es : List Ev} (h : ∀ e ∈ es, e.quiet = true) (l : List Ev) : server (es ++ l) = server l := by
  induction es with
  | nil => rfl
  | cons e es ih =>
    rw [List.cons_append, server_quiet (h e (by simp)), ih fun x hx => h x (by simp [hx])]

theorem statements_append {es : List Ev} (h : ∀ e ∈ es, e.quiet = true) (l : List Ev) :
    StatementsInDb (es ++ l) ↔ StatementsInDb l := by
  induction es with
  | nil => exact Iff.rfl
  | cons e es ih =>
    rw [List.cons_append, statements_quiet (h e (by simp)), ih fun x hx => h x (by simp [hx])]

/-! ## What the copy knows -/

/-- The copy is empty, or it is the server's database. -/
def CacheOk (s : Server) (lastSelectedDb : Bytes) : Prop := lastSelectedDb = [] ∨ s.db = some lastSelectedDb

def Mirrors (c : Conn) : Prop :=
  match c.currentState with
  | .connectWait => (server c.log).target = c.option.dbname
  | .connectDone => c.mysqlRet = true → (server c.log).db = some c.option.dbname
  | .selectDbWait =>
    CacheOk (server c.log) c.lastSelectedDb ∧ ∀ q, c.inProcess = some q → (server c.log).target = q.dbName
  | .selectDbDone => ∀ q, c.inProcess = some q → (server c.log).db = some q.dbName
  | .queryStart =>
    CacheOk (server c.log) c.lastSelectedDb ∧
      ∀ q, c.inProcess = some q → q.dbName ≠ [] → (server c.log).db = some q.dbName
  | .stateNone | .connectInit | .connectStart | .closeStart | .closeWait | .closeDone => True
  | _ => CacheOk (server c.log) c.lastSelectedDb

/-- `DB()` reads the same as a C string. -/
def Session.NulFree (q : Session) : Prop := cStr q.dbName = q.dbName

instance (q : Session) : Decidable q.NulFree := by unfold Session.NulFree; infer_instance

/-- What holds inside the loop. -/
structure Mirrored (c : Conn) : Prop where
  ran     : StatementsInDb c.log
  nulFree : ∀ q ∈ unfinished c, q.NulFree
  mirrors : Mirrors c

/-- What holds between handlers: the state a close leaves is the one of a connect just finished, but the
connection it stands for is gone. -/
structure Kept (c : Conn) : Prop where
  ran     : StatementsInDb c.log
  nulFree : ∀ q ∈ unfinished c, q.NulFree
  mirrors : c.currentState = .connectDone ∨ Mirrors c

theorem Mirrored.kept {c : Conn} (h : Mirrored c) : Kept c := ⟨h.ran, h.nulFree, .inr h.mirrors⟩

/-- Nothing the mirror is about has changed. -/
theorem Mirrored.frame {c c' : Conn} (h : Mirrored c) (es : List Ev) (hl : c'.log = es ++ c.log)
    (hes : ∀ e ∈ es, e.quiet = true) (hu : ∀ q ∈ unfinished c', q.NulFree)
    (hm : server c'.log = server c.log → Mirrors c') : Mirrored c' :=
  have hs : server c'.log = server c.log := by rw [hl, server_append hes]
  ⟨by rw [hl]; exact (statements_append hes _).2 h.ran, hu, hm hs⟩

theorem Mirrors.cacheOk {c : Conn} (h : Mirrors c) (hs : c.currentState ∈ [State.connectionIdle, .selectDbStart,
    .selectDbWait, .queryStart, .queryWait, .queryResultReady, .fetchRowStart, .fetchRowWait, .fetchRowResultReady]) :
    CacheOk (server c.log) c.lastSelectedDb := by
  simp only [List.mem_cons, List.not_mem_nil, or_false] at hs
  unfold Mirrors at h
  rcases hs with hs | hs | hs | hs | hs | hs | hs | hs | hs <;> rw [hs] at h
  case inr.inr.inl | inr.inr.inr.inl => exact h.1
  all_goals exact h

section
variable {a : Answer} {ev : WaitStatus} {c c' : Conn} {k : Kind} {l : LibCall}

theorem Mirrored.nulFree_of_none (hc : Mirrored c) {d : Conn} (hp : d.inProcess = none)
    (hq : d.queryList = c.queryList) : ∀ q ∈ unfinished d, q.NulFree := by
  intro q hm
  refine hc.nulFree q ?_
  simp only [unfinished, hp, hq, Option.toList_none, List.nil_append] at hm
  exact List.mem_append_right _ hm

theorem armLog_quiet (a : Answer) (st : WaitStatus) (c : Conn) : ∀ e ∈ armLog a st c, e.quiet = true :=
  armLog_forall (P := fun e => e.quiet = true) rfl rfl st c

/-- What a call changes: the statement it sends, if any, runs where it should. -/
theorem Issues.inDb (hi : Issues c ev k l) (hc : Mirrored c) : (Ev.call l a).inDb (server c.log) := by
  cases hi with
  | queryStart hs hp hq =>
    have hm := hc.mirrors
    unfold Mirrors at hm
    rw [hs] at hm
    exact hm.2 _ hp
  | _ => trivial

theorem Issues.nulFree {q : Session} (hc : Mirrored c) (hp : c.inProcess = some q) : cStr q.dbName = q.dbName :=
  hc.nulFree q (by simp [unfinished, hp])

/-- The call does not finish, or not without an error: the server's database stays. -/
theorem Issues.db_kept (hi : Issues c ev k l) (h : a.status.isZero = false ∨ c.reports a l = true) :
    (server (Ev.call l a :: c.log)).db = (server c.log).db := by
  rcases h with h | h <;> cases hi <;> simp_all [server, Server.next, Conn.reports]

/-- A call that blocks leaves the mirror to its `*_WAIT` state. -/
theorem Issues.wait_mirrors (hi : Issues c ev k l) (hc : Mirrored c) (hz : a.status.isZero = false) {d : Conn}
    (hs : d.currentState = k.wait) (hl : server d.log = server (Ev.call l a :: c.log))
    (hcache : d.lastSelectedDb = c.lastSelectedDb) (hp : d.inProcess = c.inProcess) (ho : d.option = c.option) :
    Mirrors d := by
  have hdb : (server d.log).db = (server c.log).db := hl ▸ hi.db_kept (.inl hz)
  have hok : CacheOk (server c.log) c.lastSelectedDb → CacheOk (server d.log) d.lastSelectedDb := by
    unfold CacheOk; rw [hdb, hcache]; exact id
  have hm := hc.mirrors
  unfold Mirrors
  rw [hs]
  cases hi with
  | connectStart h => simp [Kind.wait, hl, ho, server, Server.next]
  | connectCont h =>
    unfold Mirrors at hm
    rw [h] at hm
    simpa [Kind.wait, hl, ho, server, Server.next] using hm
  | @selectDbStart q h hq =>
    refine ⟨hok (hm.cacheOk (by simp [h])), fun q' hq' => ?_⟩
    rw [hp, hq] at hq'
    obtain rfl := Option.some.inj hq'
    simpa [hl, server, Server.next] using Issues.nulFree hc hq
  | selectDbCont h hq =>
    refine ⟨hok (hm.cacheOk (by simp [h])), fun q' hq' => ?_⟩
    unfold Mirrors at hm
    rw [h] at hm
    simpa [hl, server, Server.next] using hm.2 q' (hp ▸ hq')
  | queryStart h | queryCont h | fetchRowStart h | fetchRowCont h => exact hok (hm.cacheOk (by simp [h]))
  | closeStart | closeCont => trivial

/-- A call that finishes without an error leaves the mirror to the next state. -/
theorem Issues.finish_mirrors (hi : Issues c ev k l) (hc : Mirrored c) (hr : c.reports a l = false)
    (hz : a.status.isZero = true) : Mirrors ((k.store a (c.call l a)).toState k.finished) := by
  have hm := hc.mirrors
  unfold Mirrors
  cases hi with
  | connectStart h => simp +contextual [Kind.store, Kind.finished, server, Server.next, hz]
  | connectCont h =>
    unfold Mirrors at hm
    rw [h] at hm
    simp +contextual [Kind.store, Kind.finished, server, Server.next, hz, hm]
  | @selectDbStart q h hq =>
    intro q' hq'
    obtain rfl := Option.some.inj (hq.symm.trans hq')
    have he : a.err = 0 := by simpa [Conn.reports] using hr
    simp [Kind.store, server, Server.next, hz, he, Issues.nulFree hc hq]
  | selectDbCont h hq => 
    intro q' hq'
    unfold Mirrors at hm
    rw [h] at hm
    have he : a.err = 0 := by simpa [Conn.reports] using hr
    simp [Kind.store, server, Server.next, hz, he, hm.2 q' hq']
  | queryStart h | queryCont h | fetchRowStart h | fetchRowCont h => exact hm.cacheOk (by simp [h])
  | closeStart | closeCont => trivial

/-- A session that ends leaves the connection idle or about to close, the mirror as it was. -/
theorem mirrors_of_cacheOk {d : Conn} (hs : d.currentState = .connectionIdle ∨ d.currentState = .closeStart)
    (h : CacheOk (server d.log) d.lastSelectedDb) : Mirrors d := by
  unfold Mirrors
  rcases hs with hs | hs <;> rw [hs]
  · exact h
  · trivial

theorem failed_state (a : Answer) (code : Int) (q : Session) (d : Conn) :
    (failed a code q d).currentState = .connectionIdle ∨ (failed a code q d).currentState = .closeStart := by
  rw [failed_currentState]; split
  · exact .inr rfl
  · exact .inl rfl

theorem pass_mirrored (hc : Mirrored c) (h : Pass a ev c (.goOn c')) : Mirrored c' := by
  have hm := hc.mirrors
  have hnul := hc.nulFree
  cases h with
  | @finish k l hi hr hz =>
    refine ⟨?_, ?_, hi.finish_mirrors hc hr hz⟩
    · cases k <;> exact ⟨hi.inDb hc, hc.ran⟩
    · cases k <;> exact hnul
  | @fail k l q hi hr hp =>
    have hdb := hi.db_kept (.inr hr)
    refine ⟨⟨trivial, trivial, trivial, hi.inDb hc, hc.ran⟩, hc.nulFree_of_none rfl rfl, ?_⟩
    refine mirrors_of_cacheOk (failed_state _ _ _ _) ?_
    have hok : CacheOk (server c.log) c.lastSelectedDb := by
      refine hm.cacheOk ?_
      cases hi <;> simp_all [Conn.reports]
    exact hok.imp_right fun h => hdb.trans h
  | refused => exact ⟨⟨trivial, hc.ran⟩, hnul, trivial⟩
  | connected hs hr =>
    unfold Mirrors at hm
    rw [hs] at hm
    refine hc.frame ((if c.client then [.onConnectReady] else []) ++ [.ready true]) (by simp) ?_ hnul
      fun hl => .inr (by rw [hl]; exact hm hr)
    cases c.client <;> simp [Ev.quiet]
  | closing => exact ⟨⟨trivial, hc.ran⟩, hnul, trivial⟩
  | @take q w hs hq hp => 
    have hok := hm.cacheOk (by simp [hs])
    refine ⟨hc.ran, ?_, ?_⟩
    · intro x hx
      refine hnul x ?_
      simpa [unfinished, hp, hq] using hx
    · cases hn : needsSelect c q with
      | true => simpa [Mirrors, hn] using hok
      | false =>
        have hsame : q.dbName ≠ [] → q.dbName = c.lastSelectedDb := by simpa [needsSelect] using hn
        have hdb : q.dbName ≠ [] → (server c.log).db = some q.dbName := by
          intro hne
          rcases hok with hempty | hdb
          · exact absurd (hsame hne ▸ hempty) hne
          · rw [hdb, hsame hne]
        simpa [Mirrors, hn] using ⟨hok, hdb⟩
  | @switched q hs hp hq =>
    unfold Mirrors at hm
    rw [hs] at hm
    exact ⟨⟨trivial, trivial, hc.ran⟩, hc.nulFree_of_none rfl rfl, .inr (hm q hp)⟩
  | @selected q hs hp hq =>
    unfold Mirrors at hm
    rw [hs] at hm
    refine ⟨hc.ran, hnul, .inr (hm q hp), fun q' hq' _ => hm q' hq'⟩
  | emptyQuery hs hp =>
    exact ⟨⟨trivial, trivial, hc.ran⟩, hc.nulFree_of_none rfl rfl, hm.cacheOk (by simp [hs])⟩
  | noResult hs hp =>
    exact ⟨⟨trivial, trivial, trivial, trivial, trivial, hc.ran⟩, hc.nulFree_of_none rfl rfl,
      mirrors_of_cacheOk (failed_state _ _ _ _) (hm.cacheOk (by simp [hs]))⟩
  | gotResult hs => exact ⟨⟨trivial, hc.ran⟩, hnul, hm.cacheOk (by simp [hs])⟩
  | @rowEnd q r hs hp hr =>
    refine hc.frame (.done (fetchEndSession a q) :: fetchEndLog a r) rfl ?_ (hc.nulFree_of_none rfl rfl)
      fun hl => ?_
    · unfold fetchEndLog
      by_cases he : a.errno = 0 <;> simp [he, Ev.quiet]
    · exact mirrors_of_cacheOk (.inl rfl) (hl ▸ hm.cacheOk (by simp [hs]))
  | @row q r rw' hs hp hr =>
    refine hc.frame (fetchRowLog a q r) rfl ?_ ?_ fun hl => ?_
    · unfold fetchRowLog
      cases q.columNames.isEmpty <;> simp [Ev.quiet]
    · intro x hx
      simp only [unfinished, rowFetched_inProcess, Option.toList_some, rowFetched_queryList, List.singleton_append,
        List.mem_cons] at hx
      rcases hx with rfl | hx
      · have := hnul q (by simp [unfinished, hp])
        simpa [Session.NulFree] using this
      · exact hnul x (by simp [unfinished, hx])
    · have := hm.cacheOk (by simp [hs])
      unfold Mirrors
      rw [hl]; exact this

theorem pass_kept (hc : Mirrored c) (h : Pass a ev c (.rest c')) : Kept c' := by
  cases h with
  | @wait k l hi hr hz =>
    have hq := armLog_quiet a a.status ((c.call l a).toState k.wait)
    refine ⟨(statements_append hq _).2 ⟨hi.inDb hc, hc.ran⟩, hc.nulFree, .inr ?_⟩
    exact hi.wait_mirrors hc hz rfl (server_append hq _) rfl rfl rfl
  | closed hs =>
    refine ⟨?_, by simp [unfinished], .inl rfl⟩
    rw [closed_log, cleaned_log, statements_append, statements_append]
    · exact ⟨trivial, hc.ran⟩
    · simp +contextual [Ev.quiet]
    · cases c.client <;> simp [Ev.quiet]
  | idle => exact hc.kept

theorem handleState_kept {as : List Answer} (hc : Mirrored c) (h : handleState as ev c = .ok c') : Kept c' :=
  handleState_induct (fun _ _ _ _ => pass_mirrored) (fun _ _ _ _ => pass_kept) hc h

end

/-! ## Steps and runs -/

def Task.NulFree : Task → Prop
  | .startQuery q => q.NulFree
  | _ => True

instance (t : Task) : Decidable t.NulFree := by cases t <;> unfold Task.NulFree <;> infer_instance

/-- `SyncConnect` succeeds only with a copy that is empty or the database it connects to; no `HandleState` runs in
the state a close leaves while `mysql_ret_` is set; sessions ask for databases without NUL bytes. -/
def Op.Mirrors (c : Conn) (op : Op) : Prop :=
  (∀ a ∈ op.syncAnswer, a.ret = true → c.lastSelectedDb = [] ∨ c.lastSelectedDb = c.option.dbname) ∧
  (op.resumes c = true → c.currentState = .connectDone → c.mysqlRet = false) ∧
  ∀ t ∈ op.task c, t.NulFree

instance (c : Conn) (op : Op) : Decidable (op.Mirrors c) := by unfold Op.Mirrors; infer_instance

theorem Kept.mirrored {c : Conn} (hc : Kept c) (h : c.currentState = .connectDone → c.mysqlRet = false) :
    Mirrored c := by
  refine ⟨hc.ran, hc.nulFree, ?_⟩
  rcases hc.mirrors with hs | hm
  · unfold Mirrors
    rw [hs]
    simp [h hs]
  · exact hm

/-- A session is pushed. -/
theorem Kept.pushed {c : Conn} {q : Session} (hc : Kept c) (hq : q.NulFree) : Kept (pushQuery q c) := by
  refine ⟨⟨trivial, hc.ran⟩, fun x hx => ?_, hc.mirrors⟩
  simp only [unfinished, pushQuery_inProcess, pushQuery_queryList, ← List.append_assoc, List.mem_append,
    List.mem_singleton] at hx
  rcases hx with hx | rfl
  · exact hc.nulFree x (List.mem_append.2 hx)
  · exact hq

theorem step_kept {c c' : Conn} {op : Op} (hc : Kept c) (hop : op.Mirrors c) (h : lts.step c op c') : Kept c' := by
  obtain ⟨hsync, hresume, hquery⟩ := hop
  have hrun : ∀ {d : Conn} {as : List Answer} {ev : WaitStatus}, handleState as ev d = .ok c' → Kept d →
      (d.currentState = .connectDone → d.mysqlRet = false) → Kept c' :=
    fun hh hd hs => handleState_kept (hd.mirrored hs) hh
  cases lts_stepped h with
  | init => exact ⟨⟨trivial, trivial, hc.ran⟩, hc.nulFree, .inr trivial⟩
  | connect => exact ⟨⟨trivial, hc.ran⟩, hc.nulFree, .inr trivial⟩
  | @syncRefused a ha =>
    have hs : server (syncRefused a c).log = server c.log := by simp [server, Server.next, ha]
    refine ⟨⟨trivial, hc.ran⟩, hc.nulFree, ?_⟩
    rcases hc.mirrors with hd | hm
    · exact .inl hd
    · refine .inr ?_
      unfold Mirrors at hm ⊢
      rw [hs]
      cases hst : c.currentState <;> simp_all
  | @syncConnected a ha =>
    refine ⟨⟨trivial, trivial, hc.ran⟩, hc.nulFree, .inr ?_⟩
    have hdb : (server (syncConnected a c).log).db = some c.option.dbname := by simp [server, Server.next, ha]
    exact (hsync a rfl ha).imp_right fun h => by rw [hdb, syncConnected_lastSelectedDb, h]
  | pendingQuery | clientClose | close => exact ⟨hc.ran, hc.nulFree, hc.mirrors⟩
  | @pushed op q ht hk =>
    have htarget : Kept (op.target c) := ⟨hc.ran, hc.nulFree, hc.mirrors⟩
    exact htarget.pushed (hquery _ ht)
  | @kicked op q d ht hs hp hh =>
    have htarget : Kept (op.target c) := ⟨hc.ran, hc.nulFree, hc.mirrors⟩
    refine hrun hh (htarget.pushed (hquery _ ht)) fun hd => ?_
    have hd : c.currentState = .connectDone := hd
    simp [hs] at hd
  | @handled op d ht hh =>
    have htarget : Kept (op.target c) := ⟨hc.ran, hc.nulFree, hc.mirrors⟩
    exact hrun hh htarget (hresume (by simp [Op.resumes, ht]))
  | syncClosed ht =>
    refine ⟨⟨trivial, trivial, ?_⟩, by simp [unfinished], .inr trivial⟩
    rw [cleaned_log, statements_append]
    · exact hc.ran
    · simp +contextual [Ev.quiet]
  | closeKicked hp hs hh =>
    refine hrun hh ⟨hc.ran, hc.nulFree, hc.mirrors⟩ fun hd => ?_
    have hd : c.currentState = .connectDone := hd
    simp [hs] at hd
  | woken ht hf hh => exact hrun hh ⟨hc.ran, hc.nulFree, hc.mirrors⟩ (hresume (by simp [Op.resumes, ht]))
  | checked ha => exact ⟨⟨trivial, trivial, hc.ran⟩, hc.nulFree, hc.mirrors⟩

theorem opened_kept (client : Bool) (errNo : Int) (st : State) (opt : MysqlOptions) :
    Kept (opened client errNo st opt) :=
  ⟨⟨trivial, trivial, trivial⟩, by simp [unfinished, opened, Conn.new], .inr trivial⟩

theorem run_kept {c c' : Conn} {ops : List Op} (hc : Kept c)
    (h : (lts.restrict fun c op => op.Mirrors c).Run c ops c') : Kept c' :=
  h.invariant_restrict (fun _ _ _ hc hg hs => step_kept hc hg hs) hc

/-- **Every statement runs in the database it asked for.** In a run, over any number of lifetimes, whose steps all
meet `Op.Mirrors`: when a statement is sent for a session that names a database, it is the server's. -/
theorem statements_in_own_db (client : Bool) (errNo : Int) (st : State) (opt : MysqlOptions) (ops : List Op) (c : Conn)
    (h : (lts.restrict fun c op => op.Mirrors c).Run (opened client errNo st opt) ops c) :
    ∀ (later older : List Ev) (q : Session) (a : Answer), c.log = later ++ .call (.realQueryStart q) a :: older →
      q.dbName ≠ [] → (server older).db = some q.dbName :=
  fun _ _ _ _ hlog hq => statementsInDb_iff.1 (run_kept (opened_kept client errNo st opt) h).ran _ _ _ hlog hq

/-- A second lifetime in another database: connect to "a", close, connect to "b", and ask for "a". -/
theorem statements_in_own_db_run :
    ∃ c, (lts.restrict fun c op => op.Mirrors c).Run (opened true 0 .stateNone { dbname := [97] })
        [.connect, .runTask 0 [{ ret := true }, {}, {}], .syncClose, .initConnection { dbname := [98] }, .connect,
          .runTask 0 [{ ret := true }, {}, {}],
          .startQuery { id := 1, query := [115], dbName := [97] } [{}, {}, {}, { status := { read := true } }]] c ∧
      ∀ (later older : List Ev) (q : Session) (a : Answer), c.log = later ++ .call (.realQueryStart q) a :: older →
        q.dbName ≠ [] → (server older).db = some q.dbName := by
  have hrun : ∃ c, (lts.restrict fun c op => op.Mirrors c).Run (opened true 0 .stateNone { dbname := [97] })
      [.connect, .runTask 0 [{ ret := true }, {}, {}], .syncClose, .initConnection { dbname := [98] }, .connect,
        .runTask 0 [{ ret := true }, {}, {}],
        .startQuery { id := 1, query := [115], dbName := [97] } [{}, {}, {}, { status := { read := true } }]] c ∧
      c.currentState = .queryWait := exists_run (by decide)
  obtain ⟨c, hr, -⟩ := hrun
  exact ⟨c, hr, statements_in_own_db true 0 .stateNone _ _ c hr⟩

/-- **After a `SyncConnect` the copy is stale**: the first lifetime leaves "a" in it, the second connects to "b",
and a statement for "a" runs in "b". -/
theorem stale_cache_misdirects :
    ∃ c, (lts.restrict fun _ _ => True).Run (opened true 0 .stateNone { dbname := [97] })
        [.connect, .runTask 0 [{ ret := true }, {}, {}], .syncClose, .initConnection { dbname := [98] },
          .syncConnect { ret := true }, .startQuery { id := 1, query := [115], dbName := [97] }
            [{}, { status := { read := true } }]] c ∧
      ¬ StatementsInDb c.log :=
  exists_run (by decide)

end LtApp.Mysql
