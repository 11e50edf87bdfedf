import LtApp.Base.Iterate
import LtApp.Mysql.System

/-!
# `MysqlAsyncClientImpl`: the pool of connections

| here | there |
| --- | --- |
| `Pool`                 | the members of `MysqlAsyncClientImpl` (`mysql_client_impl.h:32-36`) |
| `initWithOption`       | `InitWithOption` (`mysql_client_impl.cc:14`) |
| `getClientNext`        | one turn of the `do` loop of `get_client` (`:44`) |
| `Pool.pendingQuery`    | `PendingQuery` (`:33`) |

`get_client` is meant to try the connections in turn. Its loop goes round only while `con` is null, which it never is
once a connection has been looked at: one connection is tried.
-/

namespace LtApp.Mysql

structure Pool where
  count       : Int
  /-- `std::atomic<int>`, not initialised by the constructor. -/
  useIndex    : BitVec 32
  connections : List Conn := []
  /-- The sessions whose `OnQueryDone` has been posted to the loop of the caller. -/
  refused     : List Session := []
deriving DecidableEq, Repr

/-! ## `InitWithOption` -/

/-- What a new connection finds: the values of the members its constructor leaves alone, and the answer to its
`SyncConnect`. -/
structure Birth where
  errNo  : Int
  st     : State
  answer : Answer
deriving DecidableEq, Repr

/-- The loop of `InitWithOption`, with `n` turns to go. `LOG(FATAL)` ends the process. -/
def addConnections (opt : MysqlOptions) : Nat → List Birth → List Conn → Except Stop (List Conn)
  | 0, _, cs => .ok cs
  | _ + 1, [], _ => .error .noAnswer
  | n + 1, b :: bs, cs =>
    let con := syncConnect b.answer (initConnection opt (Conn.new true b.errNo b.st))
    if b.answer.ret then addConnections opt n bs (cs ++ [con]) else .error .aborted

/-- `InitWithOption`. -/
def initWithOption (opt : MysqlOptions) (bs : List Birth) (p : Pool) : Except Stop Pool :=
  (addConnections opt p.count.toNat bs p.connections).map fun cs => { p with connections := cs }

/-! ## `get_client` -/

/-- The conversion of an `int` to `size_t`. -/
def toSizeT (n : BitVec 32) : Nat := (n.signExtend 64).toNat

/-- The locals of `get_client`, and the member it counts up. -/
structure Probe where
  useIndex   : BitVec 32
  roundCount : BitVec 32 := 0
deriving DecidableEq, Repr

/-- One turn of the loop: the next turn, or what `get_client` returns and leaves in `use_index_`. A modulus by zero, a
read outside `connections_` and a null pointer end the process. -/
def getClientNext (connections : List Conn) (p : Probe) : Probe ⊕ Except Stop (BitVec 32 × Option Nat) :=
  let p : Probe := { useIndex := p.useIndex + 1, roundCount := p.roundCount + 1 }
  let size := connections.length
  if size = 0 then .inr (.error .aborted)
  else
    let i := toSizeT p.useIndex % size
    let con := connections[i]?
    match con with
    | none => .inr (.error .aborted)
    | some c =>
      if c.ready then .inr (.ok (p.useIndex, some i))
      else if con.isNone && p.roundCount.toNat < size then .inl p
      else .inr (.ok (p.useIndex, none))

/-- `get_client`, in at most `n` turns. -/
def Pool.getClient (n : Nat) (p : Pool) : Option (Except Stop (BitVec 32 × Option Nat)) :=
  iterate (getClientNext p.connections) n { useIndex := p.useIndex }

/-- `PendingQuery`. -/
def Pool.pendingQuery (n : Nat) (q : Session) (p : Pool) : Option (Except Stop Pool) :=
  (p.getClient n).map fun r => r.map fun (useIndex, con) =>
    match con with
    | none => { p with useIndex := useIndex, refused := p.refused ++ [q.setCode (-1) "connection not ready"] }
    | some i => { p with useIndex := useIndex, connections := p.connections.modify i (LtApp.Mysql.pendingQuery q) }

/-! ## What is tried -/

/-- The index of the one connection that is tried. -/
def Pool.tried (p : Pool) : Nat := toSizeT (p.useIndex + 1) % p.connections.length

section
variable {p p' : Pool} {n : Nat} {useIndex : BitVec 32} {r : Option Nat}

theorem getClient_empty (h : p.connections = []) : p.getClient (n + 1) = some (.error .aborted) := by
  apply iterate_of_inr
  simp [getClientNext, h]

/-- **One turn.** `get_client` returns the connection it tries first, or none. -/
theorem getClient_eq (h : p.connections ≠ []) {c : Conn} (hc : p.connections[p.tried]? = some c) :
    p.getClient (n + 1) = some (.ok (p.useIndex + 1, if c.ready then some p.tried else none)) := by
  have hsize : p.connections.length ≠ 0 := by simpa using h
  have hc' : p.connections[toSizeT (p.useIndex + 1#32) % p.connections.length]? = some c := hc
  apply iterate_of_inr
  cases hr : c.ready <;> simp [getClientNext, hsize, hc', hr, Pool.tried]

/-- The index is inside `connections_`. -/
theorem exists_tried (h : p.connections ≠ []) : ∃ c, p.connections[p.tried]? = some c := by
  have hlt : p.tried < p.connections.length := Nat.mod_lt _ (List.length_pos_iff.2 h)
  exact ⟨_, List.getElem?_eq_getElem hlt⟩

/-- What `get_client` returns does not depend on the bound. -/
theorem getClient_ok (h : p.getClient n = some (.ok (useIndex, r))) :
    p.connections ≠ [] ∧ ∃ c, p.connections[p.tried]? = some c ∧ r = if c.ready then some p.tried else none := by
  have hne : p.connections ≠ [] := by
    intro he
    have := iterate_unique h (getClient_empty (n := 0) he)
    cases this
  obtain ⟨c, hc⟩ := exists_tried hne
  have hr := iterate_unique h (getClient_eq (n := 0) hne hc)
  simp only [Except.ok.injEq, Prod.mk.injEq] at hr
  exact ⟨hne, c, hc, hr.2⟩

end

/-! ## A ready connection is found -/

/-- `get_client` returns, neither divides by zero nor reads outside `connections_`, and yields a ready connection exactly
if there is one; and `PendingQuery` refuses a query only if there is none. -/
structure FindsReady (p : Pool) : Prop where
  finds   : ∃ n useIndex r, p.getClient n = some (.ok (useIndex, r)) ∧
    (r.isSome = true ↔ ∃ c ∈ p.connections, c.ready = true) ∧
    ∀ i, r = some i → ∃ c, p.connections[i]? = some c ∧ c.ready = true
  refuses : ∀ n q p', p.pendingQuery n q = some (.ok p') → p'.refused ≠ p.refused → ∀ c ∈ p.connections, c.ready = false

/-- A query is refused where `get_client` yields nothing. -/
theorem pendingQuery_refused {p p' : Pool} {n : Nat} {q : Session} (h : p.pendingQuery n q = some (.ok p'))
    (hr : p'.refused ≠ p.refused) : ∃ useIndex, p.getClient n = some (.ok (useIndex, none)) := by
  obtain ⟨r, hg, hmap⟩ := Option.map_eq_some_iff.1 h
  cases r with
  | error e => cases hmap
  | ok r =>
    obtain ⟨useIndex, con⟩ := r
    cases con with
    | none => exact ⟨useIndex, hg⟩
    | some i =>
      simp only [Except.map, Except.ok.injEq] at hmap
      subst hmap
      exact absurd rfl hr

/-- **The pool finds a ready connection exactly if it has connections and the one whose turn it is is ready**, or none
is. -/
theorem finds_ready_iff (p : Pool) :
    FindsReady p ↔ p.connections ≠ [] ∧
      ((∃ c, p.connections[p.tried]? = some c ∧ c.ready = true) ∨ ∀ c ∈ p.connections, c.ready = false) := by
  constructor
  · rintro ⟨⟨n, useIndex, r, hg, hiff, -⟩, -⟩
    obtain ⟨hne, c, hc, rfl⟩ := getClient_ok hg
    refine ⟨hne, ?_⟩
    cases hr : c.ready with
    | true => exact .inl ⟨c, hc, hr⟩
    | false =>
      right
      intro d hd
      have hnone : ¬ ∃ d ∈ p.connections, d.ready = true := fun he => by simpa [hr] using hiff.2 he
      simpa using fun hdr => hnone ⟨d, hd, hdr⟩
  · rintro ⟨hne, hready⟩
    obtain ⟨c, hc⟩ := exists_tried hne
    have hmem : c ∈ p.connections := List.mem_of_getElem? hc
    have hall : c.ready = false → ∀ d ∈ p.connections, d.ready = false := by
      intro hr
      rcases hready with ⟨d, hd, hdr⟩ | hnone
      · obtain rfl : c = d := Option.some.inj (hc.symm.trans hd)
        simp [hr] at hdr
      · exact hnone
    refine ⟨⟨1, _, _, getClient_eq hne hc, ?_, ?_⟩, ?_⟩
    · cases hr : c.ready with
      | true => simpa using ⟨c, hmem, hr⟩
      | false =>
        have hfalse := hall hr
        simp only [Bool.false_eq_true, if_false, Option.isSome_none, false_iff, not_exists, not_and]
        intro d hd
        simp [hfalse d hd]
    · intro i hi
      cases hr : c.ready with
      | true =>
        obtain rfl : p.tried = i := by simpa [hr] using hi
        exact ⟨c, hc, hr⟩
      | false => simp [hr] at hi
    · intro n q p' hq href
      obtain ⟨useIndex, hg⟩ := pendingQuery_refused hq href
      obtain ⟨-, d, hd, hnone⟩ := getClient_ok hg
      obtain rfl : c = d := Option.some.inj (hc.symm.trans hd)
      apply hall
      cases hr : c.ready with
      | true => simp [hr] at hnone
      | false => rfl

/-- Two connections, of which the first is ready. It is the turn of the second. -/
def halfReady : Pool :=
  { count := 2, useIndex := 0,
    connections := [{ errNo := 0, currentState := .connectionIdle, client := true, ready := true },
      { errNo := 0, currentState := .closeDone, client := true }] }

/-- **A ready connection is passed over**, and the query is refused. -/
theorem ready_passed_over :
    halfReady.pendingQuery 1 { id := 1, query := [115] } = some (.ok { halfReady with
      useIndex := 1
      refused := [{ id := 1, query := [115], code := -1, errMessage := "connection not ready" }] }) ∧
    ¬ FindsReady halfReady := by
  have hq : halfReady.pendingQuery 1 { id := 1, query := [115] } = some (.ok { halfReady with
      useIndex := 1
      refused := [{ id := 1, query := [115], code := -1, errMessage := "connection not ready" }] }) := rfl
  refine ⟨hq, fun h => ?_⟩
  have hready := h.refuses 1 _ _ hq (by decide) _ List.mem_cons_self
  cases hready

/-- Where the pool is empty, as it is before `InitWithOption` or with a `count_` of 0, `get_client` divides by zero. -/
theorem divides_by_zero {p : Pool} (h : p.connections = []) : ¬ FindsReady p := by
  rintro ⟨⟨n, useIndex, r, hg, -⟩, -⟩
  exact (getClient_ok hg).1 h

/-! ## After `InitWithOption` -/

theorem addConnections_ready {opt : MysqlOptions} {n : Nat} {bs : List Birth} {cs cs' : List Conn}
    (h : addConnections opt n bs cs = .ok cs') :
    cs'.length = cs.length + n ∧ ((∀ c ∈ cs, c.ready = true) → ∀ c ∈ cs', c.ready = true) := by
  induction n generalizing bs cs with
  | zero =>
    obtain rfl : cs = cs' := by simpa [addConnections] using h
    exact ⟨rfl, id⟩
  | succ n ih =>
    cases bs with
    | nil => simp [addConnections] at h
    | cons b bs =>
      simp only [addConnections] at h
      split at h
      · rename_i hret
        obtain ⟨hlen, hready⟩ := ih h
        refine ⟨by simp at hlen; omega, fun hcs => hready fun c hc => ?_⟩
        rcases List.mem_append.1 hc with hc | hc
        · exact hcs c hc
        · obtain rfl := List.mem_singleton.1 hc
          simp [syncConnect_eq, hret]
      · cases h

/-- Where all connections are ready, the one whose turn it is is. -/
theorem findsReady_of_all {p : Pool} (hne : p.connections ≠ []) (hall : ∀ c ∈ p.connections, c.ready = true) :
    FindsReady p := by
  obtain ⟨c, hc⟩ := exists_tried hne
  have hmem : c ∈ p.connections := List.mem_of_getElem? hc
  have hr := hall c hmem
  have hget := getClient_eq (n := 0) hne hc
  rw [if_pos hr] at hget
  refine ⟨⟨1, _, _, hget, ?_, ?_⟩, ?_⟩
  · simpa using ⟨c, hmem, hr⟩
  · intro i hi
    obtain rfl : p.tried = i := Option.some.inj hi
    exact ⟨c, hc, hr⟩
  · intro n q p' hq href
    -- a query is never refused
    obtain ⟨useIndex, hg⟩ := pendingQuery_refused hq href
    obtain ⟨-, d, hd, hnone⟩ := getClient_ok hg
    rw [if_pos (hall d (List.mem_of_getElem? hd))] at hnone
    cases hnone

/-- A client that has just been initialised with a positive `count_` finds a ready connection, wherever `use_index_`
starts. -/
theorem initWithOption_findsReady {opt : MysqlOptions} {bs : List Birth} {p p' : Pool} (hp : p.connections = [])
    (h : initWithOption opt bs p = .ok p') (hcount : 0 < p.count) : FindsReady p' := by
  unfold initWithOption at h
  cases hadd : addConnections opt p.count.toNat bs p.connections with
  | error e => simp [hadd, Except.map] at h
  | ok cs =>
    obtain ⟨hlen, hready⟩ := addConnections_ready hadd
    simp only [hadd, Except.map, Except.ok.injEq] at h
    subst h
    have hne : cs ≠ [] := by
      intro hnil
      simp [hnil, hp] at hlen
      omega
    exact findsReady_of_all hne (hready (by simp [hp]))

end LtApp.Mysql
