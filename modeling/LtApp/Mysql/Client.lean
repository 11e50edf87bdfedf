import LtApp.Base.LoopOrder
import LtApp.Mysql.Armed
import LtApp.Mysql.Pool

/-!
# A client, its connections and their loop

| here | there |
| --- | --- |
| `Client`                 | a `MysqlAsyncClientImpl`, the connections it has made, and the loop they are bound to |
| `LoopTask.startQuery`    | what `PendingQuery` posts, with the connection as a raw pointer (`mysql_client_impl.cc:40`) |
| `LoopTask.syncClose`     | what `Close` posts, with the connection as a `shared_ptr` (`:29`) |
| `LoopTask.cleanFn`  | `clean_fn` of `~MysqlAsyncConnect` (`mysql_async_con.cc:34`) |
| `destroy`                | `~MysqlAsyncConnect` (`:17`), but for the `clean_fn` it posts |
| `Client.useCount`        | the number of `shared_ptr`s to a connection: the one in `connections_`, and those in posted tasks |
| `Client.reset`           | the client goes: `~MysqlAsyncClientImpl` (`mysql_client_impl.cc:10`) |
| `order`                  | **ltio boundary**: which of the tasks posted to it a `base::MessageLoop` may run next |

The loop runs what is posted to it, one task after the other; a theorem that rests on the order of posting says so
(`LoopOrder.Fifo`). The events of a connection come in between, at any moment. Each handler runs to its end. `asked` is
history: nothing reads it. A connection that has been freed is left in its place, as its destructor left it: what still
points to it is the subject of `Teardown`.
-/

namespace LtApp.Mysql

/-- A closure posted to the loop; the connection it is about. -/
inductive LoopTask
  | startQuery (i : Nat) (q : Session)
  | syncClose (i : Nat)
  | cleanFn (i : Nat)
deriving DecidableEq, Repr

structure Client where
  pool  : Pool
  /-- The connections whose destructor has run. -/
  freed : List Nat := []
  loop  : List LoopTask := []
  /-- The client object is there. -/
  held  : Bool := true
  /-- The calls of `PendingQuery`, and the connection each session was given to. -/
  asked : List (Nat × Option Nat) := []
deriving DecidableEq, Repr

/-- A client that has been initialised. -/
def Client.start (p : Pool) : Client := { pool := p }

/-- The destructor. The events are left in the pump. -/
def destroy (c : Conn) : Conn :=
  let c := match c.inProcess with
    | some q => { flush c q with inProcess := none }
    | none => c
  { c.queryList.foldl flush c with queryList := [], checker := false }

/-- `clean_fn`. -/
@[simps] def cleanFn (c : Conn) : Conn :=
  { c with fdEvent := none, timeout := { c.timeout with attached := false } }

namespace Client

def conn? (s : Client) (i : Nat) : Option Conn := s.pool.connections[i]?

@[simps] def setConn (i : Nat) (c : Conn) (s : Client) : Client :=
  { s with pool := { s.pool with connections := s.pool.connections.set i c } }

/-- `use_count()`. -/
def useCount (s : Client) (i : Nat) : Nat := (if s.held then 1 else 0) + s.loop.count (.syncClose i)

/-- The connections nobody points to with a `shared_ptr` any more. -/
def unowned (s : Client) : List Nat :=
  (List.range s.pool.connections.length).filter fun i => s.useCount i = 0 ∧ i ∉ s.freed

/-- The destructors of these connections run, and post their `clean_fn`. -/
@[simps] def free (gone : List Nat) (s : Client) : Client :=
  { s with
    pool  := { s.pool with connections := s.pool.connections.mapIdx fun i c => if i ∈ gone then destroy c else c }
    freed := s.freed ++ gone
    loop  := s.loop ++ gone.map .cleanFn }

/-- What is no longer pointed to is freed. -/
def collect (s : Client) : Client := s.free s.unowned

/-- `PendingQuery`. `get_client` goes round at most once for each connection. -/
def pendingQuery (q : Session) (s : Client) : Except Stop Client :=
  match s.pool.getClient (s.pool.connections.length + 1) with
  | none => .error .noAnswer
  | some r => r.map fun (useIndex, con) =>
    match con with
    | none => { s with
        pool  := { s.pool with
          useIndex := useIndex, refused := s.pool.refused ++ [q.setCode (-1) "connection not ready"] }
        asked := s.asked ++ [(q.id, none)] }
    | some i => { s with
        pool  := { s.pool with useIndex := useIndex }
        loop  := s.loop ++ [.startQuery i q]
        asked := s.asked ++ [(q.id, some i)] }

/-- `Close`. -/
def close (s : Client) : Client :=
  { s with loop := s.loop ++ (List.range s.pool.connections.length).map .syncClose }

def reset (s : Client) : Client := collect { s with held := false }

/-- The handler `f` of a connection runs. -/
def handle (i : Nat) (f : Conn → Except Stop Conn) (s : Client) : Except Stop Client :=
  match s.conn? i with
  | none => .error .aborted
  | some c => (f c).map (s.setConn i)

/-- The loop takes its `n`-th task. A `shared_ptr` in it goes with it. -/
def runTask (n : Nat) (as : List Answer) (s : Client) : Except Stop Client :=
  let rest : Client := { s with loop := s.loop.eraseIdx n }
  match s.loop[n]? with
  | none => .ok s
  | some (.startQuery i q) => handle i (startQuery q as) rest
  | some (.syncClose i) => (handle i (fun c => .ok (syncClose c)) rest).map collect
  | some (.cleanFn i) => handle i (fun c => .ok (cleanFn c)) rest

end Client

/-! ## Operations -/

/-- An event of the pump: the fd, a timer, the tick of `checker_`. -/
def Op.fromPump : Op → Bool
  | .fdWake _ _ | .timerWake _ | .connectionCheck _ => true
  | _ => false

/-- What can happen to a client and its connections. -/
inductive ClientOp
  | pendingQuery (q : Session)
  | close
  | reset
  | runTask (n : Nat) (as : List Answer)
  | event (i : Nat) (op : Op)
deriving DecidableEq, Repr

namespace Client

/-- When an operation can happen. The client can be used as long as it is there. -/
def Enabled (order : LoopOrder LoopTask) (s : Client) : ClientOp → Prop
  | .pendingQuery _ | .close | .reset => s.held = true
  | .runTask n _ => n < s.loop.length ∧ order s.loop n
  | .event i op => op.fromPump = true ∧ ∃ c, s.conn? i = some c ∧ enabled c op

/-- The connection an operation reaches through a pointer that does not keep it alive. -/
def reaches (s : Client) : ClientOp → Option Nat
  | .runTask n _ =>
    match s.loop[n]? with
    | some (.startQuery i _) => some i
    | _ => none
  | .event i _ => some i
  | _ => none

/-- The operation uses a connection that has been freed. -/
def Dangles (order : LoopOrder LoopTask) (s : Client) (op : ClientOp) : Prop :=
  s.Enabled order op ∧ ∃ i, s.reaches op = some i ∧ i ∈ s.freed

def step (s : Client) : ClientOp → Except Stop Client
  | .pendingQuery q => s.pendingQuery q
  | .close => .ok s.close
  | .reset => .ok s.reset
  | .runTask n as => s.runTask n as
  | .event i op => s.handle i fun c => LtApp.Mysql.step c op

/-- The client between handler invocations. The use of a freed connection ends the run. -/
def lts (order : LoopOrder LoopTask) : Lts Client ClientOp :=
  ⟨fun s op t => s.Enabled order op ∧ ¬ s.Dangles order op ∧ s.step op = .ok t⟩

instance (s : Client) (i : Nat) (op : Op) : Decidable (∃ c, s.conn? i = some c ∧ enabled c op) :=
  decidable_of_iff ((s.conn? i).any fun c => decide (enabled c op)) (by simp [Option.any_eq_true])

section
variable (order : LoopOrder LoopTask) [DecidableRel order]

instance (s : Client) (op : ClientOp) : Decidable (s.Enabled order op) := by
  cases op <;> unfold Enabled <;> infer_instance

instance (s : Client) (op : ClientOp) : Decidable (∃ i, s.reaches op = some i ∧ i ∈ s.freed) :=
  decidable_of_iff ((s.reaches op).any fun i => decide (i ∈ s.freed)) (by simp [Option.any_eq_true])

instance (s : Client) (op : ClientOp) : Decidable (s.Dangles order op) := by unfold Dangles; infer_instance

/-- The step, where the operation can happen and returns. -/
def tryStep (s : Client) (op : ClientOp) : Option Client :=
  if s.Enabled order op ∧ ¬ s.Dangles order op then (s.step op).toOption else none

theorem tryStep_step (s : Client) (op : ClientOp) (t : Client) (h : tryStep order s op = some t) :
    (lts order).step s op t := by
  unfold tryStep at h
  split at h
  · rename_i he
    cases hs : s.step op with
    | error e => simp [hs, Except.toOption] at h
    | ok u => exact ⟨he.1, he.2, by simpa [hs, Except.toOption] using h⟩
  · cases h

end

/-- A client after `InitWithOption`, and any operations on it. -/
def Reachable (order : LoopOrder LoopTask) (s : Client) : Prop :=
  ∃ (opt : MysqlOptions) (bs : List Birth) (count : Int) (useIndex : BitVec 32) (p : Pool) (ops : List ClientOp),
    initWithOption opt bs { count, useIndex } = .ok p ∧ (lts order).Run (start p) ops s

end Client

/-! ## The operations in closed form -/

/-- A connection after its destructor. -/
@[simps] def destroyed (c : Conn) : Conn :=
  { c with
    inProcess := none
    queryList := []
    checker   := false
    log       := ((unfinished c).map fun q => Ev.done (q.setCode (-1) "closed")).reverse ++ c.log }

theorem destroy_eq (c : Conn) : destroy c = destroyed c := by
  unfold destroy destroyed unfinished
  simp only [foldl_flush]
  cases hp : c.inProcess <;> simp [flush, Conn.onQueryDone, hp]

namespace Client

variable {order : LoopOrder LoopTask} {s t : Client} {i j : Nat} {c d : Conn}

@[simp] theorem conn?_setConn_self (h : s.conn? i = some c) : (s.setConn i d).conn? i = some d := by
  have hi : i < s.pool.connections.length := (List.getElem?_eq_some_iff.1 h).1
  simp [conn?, setConn, hi]

@[simp] theorem conn?_setConn_ne (h : i ≠ j) : (s.setConn i d).conn? j = s.conn? j := by
  simp [conn?, setConn, h]

theorem conn?_free (s : Client) (gone : List Nat) (i : Nat) :
    (s.free gone).conn? i = (s.conn? i).map fun c => if i ∈ gone then destroyed c else c := by
  simp [conn?, free, List.getElem?_mapIdx, destroy_eq]

@[simp] theorem useCount_free (gone : List Nat) : (s.free gone).useCount i = s.useCount i := by
  have h : (gone.map LoopTask.cleanFn).count (.syncClose i) = 0 := by
    rw [List.count_eq_zero]
    simp
  show (if s.held then 1 else 0) + (s.loop ++ gone.map LoopTask.cleanFn).count (LoopTask.syncClose i) = s.useCount i
  rw [List.count_append, h]
  rfl

/-- A `shared_ptr` is left: the client's, or one in a posted task. -/
theorem useCount_eq_zero : s.useCount i = 0 ↔ s.held = false ∧ LoopTask.syncClose i ∉ s.loop := by
  unfold useCount
  rw [Nat.add_eq_zero_iff, List.count_eq_zero]
  cases s.held <;> simp

theorem mem_unowned : i ∈ s.unowned ↔ (∃ c, s.conn? i = some c) ∧ s.useCount i = 0 ∧ i ∉ s.freed := by
  simp only [unowned, List.mem_filter, List.mem_range, decide_eq_true_eq, conn?]
  apply and_congr_left'
  simp [List.getElem?_eq_some_iff]

/-! ## The cases of a step -/

/-- Everything a step can do. -/
inductive Stepped (order : LoopOrder LoopTask) (s : Client) : ClientOp → Client → Prop
  | refused {q : Session} {useIndex : BitVec 32} : s.held = true → Stepped order s (.pendingQuery q) { s with
      pool  := { s.pool with
        useIndex := useIndex, refused := s.pool.refused ++ [q.setCode (-1) "connection not ready"] }
      asked := s.asked ++ [(q.id, none)] }
  | given {q : Session} {useIndex : BitVec 32} {i : Nat} {c : Conn} : s.held = true → s.conn? i = some c →
    c.ready = true → Stepped order s (.pendingQuery q) { s with
      pool  := { s.pool with useIndex := useIndex }
      loop  := s.loop ++ [.startQuery i q]
      asked := s.asked ++ [(q.id, some i)] }
  | close : s.held = true → Stepped order s .close s.close
  | reset : s.held = true → Stepped order s .reset s.reset
  | started {n i : Nat} {q : Session} {rest : List LoopTask} {as : List Answer} {c c' : Conn} :
    Taken order s.loop n (.startQuery i q) rest → i ∉ s.freed → s.conn? i = some c →
    LtApp.Mysql.lts.step c (.startQuery q as) c' →
    Stepped order s (.runTask n as) (({ s with loop := rest } : Client).setConn i c')
  | closed {n i : Nat} {rest : List LoopTask} {as : List Answer} {c : Conn} :
    Taken order s.loop n (.syncClose i) rest → s.conn? i = some c →
    Stepped order s (.runTask n as) (({ s with loop := rest } : Client).setConn i (syncClosed c)).collect
  | removed {n i : Nat} {rest : List LoopTask} {as : List Answer} {c : Conn} :
    Taken order s.loop n (.cleanFn i) rest → s.conn? i = some c →
    Stepped order s (.runTask n as) (({ s with loop := rest } : Client).setConn i (cleanFn c))
  | event {i : Nat} {op : Op} {c c' : Conn} : op.fromPump = true → i ∉ s.freed → s.conn? i = some c →
    LtApp.Mysql.lts.step c op c' → Stepped order s (.event i op) (s.setConn i c')

theorem handle_ok {f : Conn → Except Stop Conn} (h : s.handle i f = .ok t) :
    ∃ c c', s.conn? i = some c ∧ f c = .ok c' ∧ t = s.setConn i c' := by
  unfold handle at h
  cases hc : s.conn? i with
  | none => simp [hc] at h
  | some c =>
    simp only [hc] at h
    cases hf : f c with
    | error e => simp [hf, Except.map] at h
    | ok c' =>
      simp only [hf, Except.map, Except.ok.injEq] at h
      exact ⟨c, c', rfl, hf, h.symm⟩

theorem pendingQuery_stepped {q : Session} (hheld : s.held = true) (h : s.pendingQuery q = .ok t) :
    Stepped order s (.pendingQuery q) t := by
  unfold pendingQuery at h
  cases hg : s.pool.getClient (s.pool.connections.length + 1) with
  | none => simp [hg] at h
  | some r =>
    cases r with
    | error e => simp [hg, Except.map] at h
    | ok r =>
      obtain ⟨useIndex, con⟩ := r
      simp only [hg, Except.map, Except.ok.injEq] at h
      subst h
      obtain ⟨-, c, hc, hr⟩ := getClient_ok hg
      cases con with
      | none => exact .refused hheld
      | some i =>
        cases hready : c.ready with
        | false => simp [hready] at hr
        | true =>
          obtain rfl : i = s.pool.tried := by simpa [hready] using hr
          exact .given hheld hc hready

/-- **Every step is one of the cases.** -/
theorem lts_stepped {op : ClientOp} (h : (lts order).step s op t) : Stepped order s op t := by
  obtain ⟨he, hd, h⟩ := h
  have hfree : ∀ i, s.reaches op = some i → i ∉ s.freed := fun i hi hm => hd ⟨he, i, hi, hm⟩
  cases op with
  | pendingQuery q => exact pendingQuery_stepped he h
  | close => exact Except.ok.inj h ▸ .close he
  | reset => exact Except.ok.inj h ▸ .reset he
  | event i op =>
    obtain ⟨hop, c₁, hc₁, hen⟩ := he
    obtain ⟨c, c', hc, hf, rfl⟩ := handle_ok h
    obtain rfl : c₁ = c := Option.some.inj (hc₁.symm.trans hc)
    exact .event hop (hfree i rfl) hc ⟨hen, hf⟩
  | runTask n as =>
    have htaken : ∀ {x}, s.loop[n]? = some x → Taken order s.loop n x (s.loop.eraseIdx n) := fun hx => ⟨he.2, hx, rfl⟩
    simp only [step, runTask] at h
    split at h
    · rename_i hl
      rw [List.getElem?_eq_none_iff] at hl
      exact absurd he.1 (Nat.not_lt_of_le hl)
    · rename_i i q hl
      obtain ⟨c, c', hc, hf, rfl⟩ := handle_ok h
      exact .started (htaken hl) (hfree i (by simp [reaches, hl])) hc ⟨trivial, hf⟩
    · rename_i i hl
      cases hh : handle i (fun c => .ok (syncClose c)) { s with loop := s.loop.eraseIdx n } with
      | error e => simp [hh, Except.map] at h
      | ok u =>
        simp only [hh, Except.map, Except.ok.injEq] at h
        subst h
        obtain ⟨c, c', hc, hf, rfl⟩ := handle_ok hh
        obtain rfl : syncClose c = c' := Except.ok.inj hf
        exact syncClose_eq c ▸ .closed (htaken hl) hc
    · rename_i i hl
      obtain ⟨c, c', hc, hf, rfl⟩ := handle_ok h
      obtain rfl := Except.ok.inj hf
      exact .removed (htaken hl) hc

end Client

/-! ## What has been freed, and what the rest has gone through -/

/-- `SyncConnect` has just succeeded on a new connection. -/
def Fresh (c : Conn) : Prop :=
  ∃ (errNo : Int) (st : State) (opt : MysqlOptions) (a : Answer), a.ret = true ∧
    c = syncConnected a (opened true errNo st opt)

/-- The connection has been connected by `SyncConnect`, and has gone through any steps but connects since. -/
def Pooled (c : Conn) : Prop := ∃ (d : Conn) (ops : List Op), Fresh d ∧ later.Run d ops c

theorem Fresh.pooled {c : Conn} (h : Fresh c) : Pooled c := ⟨c, [], h, .nil c⟩

theorem Fresh.opens {c : Conn} (h : Fresh c) : ∃ errNo st opt a, lts.step (opened true errNo st opt) (.syncConnect a) c := by
  obtain ⟨errNo, st, opt, a, ha, rfl⟩ := h
  refine ⟨errNo, st, opt, a, trivial, ?_⟩
  show Except.ok (syncConnect a (opened true errNo st opt)) = _
  rw [syncConnect_eq, if_pos ha]

namespace Pooled

variable {c c' : Conn} {op : Op}

theorem step (h : Pooled c) (hop : op.connects = false) (hs : lts.step c op c') : Pooled c' := by
  obtain ⟨d, ops, hd, hr⟩ := h
  exact ⟨d, ops ++ [op], hd, hr.append (.single ⟨hs, hop⟩)⟩

theorem lifetime (h : Pooled c) : Lifetime c := by
  obtain ⟨d, ops, hd, hr⟩ := h
  obtain ⟨errNo, st, opt, a, hs⟩ := hd.opens
  exact .run rfl hs hr

end Pooled

theorem Op.connects_of_fromPump {op : Op} (h : op.fromPump = true) : op.connects = false := by
  cases op <;> first | rfl | cases h

/-- The connections `InitWithOption` adds. -/
theorem addConnections_fresh {opt : MysqlOptions} {n : Nat} {bs : List Birth} {cs cs' : List Conn}
    (h : addConnections opt n bs cs = .ok cs') (hcs : ∀ c ∈ cs, Fresh c) : ∀ c ∈ cs', Fresh c := by
  induction n generalizing bs cs with
  | zero =>
    obtain rfl : cs = cs' := by simpa [addConnections] using h
    exact hcs
  | succ n ih =>
    cases bs with
    | nil => simp [addConnections] at h
    | cons b bs =>
      simp only [addConnections] at h
      split at h
      · rename_i hret
        refine ih h fun c hc => ?_
        rcases List.mem_append.1 hc with hc | hc
        · exact hcs c hc
        · rw [List.mem_singleton.1 hc, syncConnect_eq, if_pos hret]
          exact ⟨b.errNo, b.st, opt, b.answer, hret, rfl⟩
      · cases h

theorem initWithOption_fresh {opt : MysqlOptions} {bs : List Birth} {count : Int} {useIndex : BitVec 32} {p : Pool}
    (h : initWithOption opt bs { count, useIndex } = .ok p) : p.refused = [] ∧ ∀ c ∈ p.connections, Fresh c := by
  unfold initWithOption at h
  cases hadd : addConnections opt count.toNat bs [] with
  | error e => simp [hadd, Except.map] at h
  | ok cs =>
    simp only [hadd, Except.map, Except.ok.injEq] at h
    subst h
    exact ⟨rfl, addConnections_fresh hadd (by simp)⟩

/-- The connection a task is about. -/
def LoopTask.conn : LoopTask → Nat
  | .startQuery i _ | .syncClose i | .cleanFn i => i

namespace Client

/-- What holds of a client and its connections while something may still have to be freed. -/
structure Loose (s : Client) : Prop where
  freed  : ∀ i ∈ s.freed, s.useCount i = 0
  pooled : ∀ i c, s.conn? i = some c → i ∉ s.freed → Pooled c
  dead   : ∀ i c, s.conn? i = some c → i ∈ s.freed → unfinished c = []
  named  : ∀ t ∈ s.loop, ∃ c, s.conn? t.conn = some c
  cleans : ∀ i, LoopTask.cleanFn i ∈ s.loop → i ∈ s.freed

/-- Everything nobody points to with a `shared_ptr` has been freed, and nothing else. -/
structure Tidy (s : Client) : Prop extends Loose s where
  kept : ∀ i c, s.conn? i = some c → s.useCount i = 0 → i ∈ s.freed

section
variable {order : LoopOrder LoopTask} {s t : Client} {n i j : Nat} {c d : Conn}

theorem exists_conn?_setConn (h : s.conn? i = some c) : (∃ c, (s.setConn i d).conn? j = some c) ↔ ∃ c, s.conn? j = some c := by
  by_cases hij : i = j
  · subst hij
    simp [conn?_setConn_self h, h]
  · simp [conn?_setConn_ne hij]

theorem exists_conn?_free (gone : List Nat) : (∃ c, (s.free gone).conn? j = some c) ↔ ∃ c, s.conn? j = some c := by
  rw [conn?_free]
  cases s.conn? j <;> simp

theorem Loose.collect (h : Loose s) : Tidy s.collect := by
  have hmem : ∀ i, i ∈ s.collect.freed ↔ i ∈ s.freed ∨ i ∈ s.unowned := fun i => List.mem_append
  have hloop : ∀ t, t ∈ s.collect.loop ↔ t ∈ s.loop ∨ ∃ i ∈ s.unowned, LoopTask.cleanFn i = t := by
    intro t
    show t ∈ s.loop ++ s.unowned.map _ ↔ _
    rw [List.mem_append, List.mem_map]
  have hconn : ∀ i c, s.collect.conn? i = some c →
      ∃ d, s.conn? i = some d ∧ c = if i ∈ s.unowned then destroyed d else d := by
    intro i c hc
    rw [Client.collect, conn?_free] at hc
    obtain ⟨d, hd, rfl⟩ := Option.map_eq_some_iff.1 hc
    exact ⟨d, hd, rfl⟩
  refine ⟨⟨?_, ?_, ?_, ?_, ?_⟩, ?_⟩
  · intro i hi
    rw [Client.collect, useCount_free]
    rcases (hmem i).1 hi with hi | hi
    · exact h.freed i hi
    · exact (mem_unowned.1 hi).2.1
  · intro i c hc hi
    obtain ⟨d, hd, rfl⟩ := hconn i c hc
    rw [hmem, not_or] at hi
    rw [if_neg hi.2]
    exact h.pooled i d hd hi.1
  · intro i c hc hi
    obtain ⟨d, hd, rfl⟩ := hconn i c hc
    split
    · rfl
    · rename_i hu
      exact h.dead i d hd (((hmem i).1 hi).resolve_right hu)
  · intro t ht
    rw [Client.collect, exists_conn?_free]
    rcases (hloop t).1 ht with ht | ⟨i, hi, rfl⟩
    · exact h.named t ht
    · exact (mem_unowned.1 hi).1
  · intro i hi
    rw [hmem]
    rcases (hloop _).1 hi with hi | ⟨j, hj, he⟩
    · exact .inl (h.cleans i hi)
    · cases he
      exact .inr hj
  · intro i c hc hz
    rw [Client.collect, useCount_free] at hz
    obtain ⟨d, hd, -⟩ := hconn i c hc
    rw [hmem]
    by_cases hi : i ∈ s.freed
    · exact .inl hi
    · exact .inr (mem_unowned.2 ⟨⟨d, hd⟩, hz, hi⟩)

/-- One connection has changed. -/
theorem Loose.setConn (h : Loose s) (hc : s.conn? i = some c) (hd : i ∉ s.freed → Pooled d)
    (hd' : i ∈ s.freed → unfinished d = []) : Loose (s.setConn i d) := by
  refine ⟨h.freed, fun j c' hc' hj => ?_, fun j c' hc' hj => ?_, fun t ht => ?_, h.cleans⟩
  · by_cases hij : i = j
    · subst hij
      rw [conn?_setConn_self hc] at hc'
      exact Option.some.inj hc' ▸ hd hj
    · rw [conn?_setConn_ne hij] at hc'
      exact h.pooled j c' hc' hj
  · by_cases hij : i = j
    · subst hij
      rw [conn?_setConn_self hc] at hc'
      exact Option.some.inj hc' ▸ hd' hj
    · rw [conn?_setConn_ne hij] at hc'
      exact h.dead j c' hc' hj
  · rw [exists_conn?_setConn hc]
    exact h.named t ht

theorem Tidy.setConn (h : Tidy s) (hc : s.conn? i = some c) (hd : i ∉ s.freed → Pooled d)
    (hd' : i ∈ s.freed → unfinished d = []) : Tidy (s.setConn i d) := by
  refine ⟨h.toLoose.setConn hc hd hd', fun j c' hc' hz => ?_⟩
  obtain ⟨c₁, hc₁⟩ := (exists_conn?_setConn (j := j) hc).1 ⟨c', hc'⟩
  exact h.kept j c₁ hc₁ hz

/-- As long as the client is there nothing is freed. -/
theorem Loose.freed_nil (h : Loose s) (hheld : s.held = true) : s.freed = [] := by
  rw [List.eq_nil_iff_forall_not_mem]
  intro i hi
  have hz := useCount_eq_zero.1 (h.freed i hi)
  simp [hheld] at hz

theorem tidy_of_held (hheld : s.held = true) (hf : s.freed = []) (hp : ∀ i c, s.conn? i = some c → Pooled c)
    (hn : ∀ t ∈ s.loop, ∃ c, s.conn? t.conn = some c) (hr : ∀ i, LoopTask.cleanFn i ∉ s.loop) : Tidy s := by
  refine ⟨⟨by simp [hf], fun i c hc _ => hp i c hc, by simp [hf], hn, fun i hi => absurd hi (hr i)⟩, ?_⟩
  intro i c hc hz
  simp [useCount_eq_zero, hheld] at hz

/-- A task is taken that was no owner. -/
theorem Tidy.tail {x : LoopTask} {rest : List LoopTask} (h : Tidy s) (hl : Taken order s.loop n x rest)
    (hx : ∀ i, x ≠ .syncClose i) : Tidy { s with loop := rest } := by
  have hcount : ∀ i, ({ s with loop := rest } : Client).useCount i = s.useCount i := by
    intro i
    simp only [useCount, hl.perm.count_eq, List.count_cons_of_ne (hx i)]
  refine ⟨⟨fun i hi => ?_, h.pooled, h.dead, fun t ht => ?_, fun i hi => ?_⟩, fun i c hc hz => ?_⟩
  · rw [hcount]
    exact h.freed i hi
  · exact h.named t (hl.mem_iff.2 (.inr ht))
  · exact h.cleans i (hl.mem_iff.2 (.inr hi))
  · rw [hcount] at hz
    exact h.kept i c hc hz

/-- A posted `SyncClose` runs: it has kept the connection alive. -/
theorem Tidy.syncClosed {rest : List LoopTask} (h : Tidy s) (hl : Taken order s.loop n (.syncClose i) rest)
    (hc : s.conn? i = some c) : i ∉ s.freed ∧ Loose (({ s with loop := rest } : Client).setConn i (syncClosed c)) := by
  have hi : i ∉ s.freed := fun hi => (useCount_eq_zero.1 (h.freed i hi)).2 hl.mem
  have hloose : Loose ({ s with loop := rest } : Client) := by
    refine ⟨fun j hj => ?_, h.pooled, h.dead, fun t ht => ?_, fun j hj => ?_⟩
    · have hz := useCount_eq_zero.1 (h.freed j hj)
      rw [hl.mem_iff, not_or] at hz
      exact useCount_eq_zero.2 ⟨hz.1, hz.2.2⟩
    · exact h.named t (hl.mem_iff.2 (.inr ht))
    · exact h.cleans j (hl.mem_iff.2 (.inr hj))
  have hst : LtApp.Mysql.lts.step c .syncClose (LtApp.Mysql.syncClosed c) :=
    ⟨trivial, congrArg Except.ok (syncClose_eq c)⟩
  exact ⟨hi, hloose.setConn hc (fun _ => (h.pooled i c hc hi).step rfl hst) fun hm => absurd hm hi⟩

/-- Every step keeps the client tidy. -/
theorem Tidy.step {op : ClientOp} (h : Tidy s) (hs : (lts order).step s op t) : Tidy t := by
  have hheld : s.held = true → (∀ i, LoopTask.cleanFn i ∉ s.loop) ∧ ∀ i c, s.conn? i = some c → Pooled c := by
    intro hh
    have hf := h.freed_nil hh
    exact ⟨fun i hi => by simpa [hf] using h.cleans i hi, fun i c hc => h.pooled i c hc (by simp [hf])⟩
  cases lts_stepped hs with
  | refused hh => exact tidy_of_held hh (h.freed_nil hh) (hheld hh).2 h.named (hheld hh).1
  | @given q useIndex i c hh hc =>
    refine tidy_of_held hh (h.freed_nil hh) (hheld hh).2 (fun t ht => ?_) fun i hi => ?_
    · rcases List.mem_append.1 ht with ht | ht
      · exact h.named t ht
      · rw [List.mem_singleton.1 ht]
        exact ⟨c, hc⟩
    · simp [(hheld hh).1 i] at hi
  | close hh =>
    refine tidy_of_held hh (h.freed_nil hh) (hheld hh).2 (fun t ht => ?_) fun i hi => ?_
    · rcases List.mem_append.1 ht with ht | ht
      · exact h.named t ht
      · obtain ⟨i, hi, rfl⟩ := List.mem_map.1 ht
        exact ⟨_, List.getElem?_eq_getElem (List.mem_range.1 hi)⟩
    · simp [Client.close, (hheld hh).1 i] at hi
  | reset hh =>
    have hf := h.freed_nil hh
    exact Loose.collect ⟨by simp [hf], h.pooled, h.dead, h.named, h.cleans⟩
  | started hl hi hc hst =>
    exact (h.tail hl (by simp)).setConn hc (fun _ => (h.pooled _ _ hc hi).step rfl hst) fun hm => absurd hm hi
  | closed hl hc => exact (h.syncClosed hl hc).2.collect
  | @removed n i rest as c hl hc =>
    have hi : i ∈ s.freed := h.cleans i hl.mem
    exact (h.tail hl (by simp)).setConn hc (fun hn => absurd hi hn) fun _ => h.dead i c hc hi
  | event hop hi hc hst =>
    exact h.setConn hc (fun _ => (h.pooled _ _ hc hi).step (Op.connects_of_fromPump hop) hst) fun hm => absurd hm hi

theorem tidy_start {p : Pool} (h : ∀ c ∈ p.connections, Fresh c) : Tidy (start p) :=
  tidy_of_held rfl rfl (fun _ c hc => (h c (List.mem_of_getElem? hc)).pooled) (by simp [start]) (by simp [start])

/-- **Reference counting**: in every state a client reaches a connection has been freed exactly if the client is gone
and no posted `SyncClose` holds the connection; the others have gone through steps of a connection lifetime. -/
theorem Reachable.tidy (h : s.Reachable order) : Tidy s := by
  obtain ⟨opt, bs, count, useIndex, p, ops, hp, hr⟩ := h
  exact hr.invariant (fun _ _ _ ht hs => ht.step hs) (tidy_start (initWithOption_fresh hp).2)

end

/-- A client with two connections. -/
def twoConnections (useIndex : BitVec 32) : Pool :=
  { count := 2, useIndex, connections := List.replicate 2 (syncConnected { ret := true } (opened true 0 .stateNone {})) }

theorem initWithOption_two (useIndex : BitVec 32) : initWithOption {}
    (List.replicate 2 { errNo := 0, st := .stateNone, answer := { ret := true } }) { count := 2, useIndex } =
      .ok (twoConnections useIndex) := rfl

end Client

end LtApp.Mysql
