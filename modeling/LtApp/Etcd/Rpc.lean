import LtApp.Etcd.PrefixRange
import LtApp.Etcd.Rendezvous
import LtApp.Etcd.Resume

/-!
# The operations of `EtcdClientV3`

One coroutine, one RPC and one `ResponseCallContext`, each step by step. The four operations differ in what their
callback does before `ResumeContext`, and in what they do after `CO_YIELD`.

| here | there |
| --- | --- |
| `ResponseCallContext` | the members of `ResponseCallContext` (`call_context.h:76`); its base is `Operation.meet` |
| `put`, `range`, `leaseGrant`, `timeToAlive` | `Put`, `Range`, `LeaseGrant`, `TimeToAlive` (`etcd_client.cc:56`, `:79`, `:118`, `:145`) |
| `UnaryRpc.callback` | the lambda passed to `async()`, up to `ResumeContext` |
| `UnaryRpc.finish` | the lines after `CO_YIELD` |
| `Outcome` | **gRPC boundary**: any status and any response; the response is written before the callback is called |

A resumer called before its coroutine has yielded takes effect when it yields.
-/

namespace LtApp.Etcd

theorem Unary.lines_of_ne {u : Unary} (hu : u ≠ .timeToAlive) : u.lines = [.lockContext, .async, .coYield] := by
  cases u with
  | timeToAlive => exact absurd rfl hu
  | put | range | leaseGrant => rfl

/-! ## Messages -/

/-- The codes of `grpc::Status`. -/
inductive StatusCode
  | ok | cancelled | unknown | invalidArgument | deadlineExceeded | notFound | alreadyExists | permissionDenied
  | resourceExhausted | failedPrecondition | aborted | outOfRange | unimplemented | internal | unavailable | dataLoss
  | unauthenticated
deriving DecidableEq, Repr

/-- `grpc::Status`, which is OK by default. -/
structure Status where
  code    : StatusCode := .ok
  message : Bytes := []
deriving DecidableEq, Repr

def Status.ok (st : Status) : Bool := st.code = .ok

structure KeyValue where
  key            : Bytes
  createRevision : Int := 0
  modRevision    : Int := 0
  version        : Int := 0
  value          : Bytes
  lease          : Int := 0
deriving DecidableEq, Repr

structure PutRequest where
  key   : Bytes
  value : Bytes
  lease : Int := 0
deriving DecidableEq, Repr

structure ResponseHeader where
  revision : Int := 0
deriving DecidableEq, Repr

structure PutResponse where
  header : ResponseHeader := {}
deriving DecidableEq, Repr, Inhabited

structure RangeResponse where
  kvs : List KeyValue := []
deriving DecidableEq, Repr, Inhabited

structure LeaseGrantRequest where
  ttl : Int
deriving DecidableEq, Repr

structure LeaseGrantResponse where
  id : Int := 0
deriving DecidableEq, Repr, Inhabited

structure LeaseTimeToLiveRequest where
  id : Int
deriving DecidableEq, Repr

structure LeaseTimeToLiveResponse where
  ttl : Int := 0
deriving DecidableEq, Repr, Inhabited

/-! ## The operations -/

structure ResponseCallContext (R : Type) where
  response : R
  status   : Status := {}
deriving DecidableEq, Repr

/-- `IsStatusOK`. -/
def ResponseCallContext.isStatusOK {R : Type} (ctx : ResponseCallContext R) : Bool := ctx.status.ok

/-- What an operation leaves behind. -/
structure Returned (α : Type) where
  value    : α
  /-- The lines logged with `LOG(WARNING)`. -/
  warnings : List Bytes := []
  /-- What `IsStatusOK()` is as it returns. -/
  statusOK : Bool
deriving DecidableEq, Repr

structure UnaryRpc (Q R α : Type) where
  kind     : Unary
  request  : Q
  callback : Status → ResponseCallContext R → ResponseCallContext R
  finish   : ResponseCallContext R → Returned α

namespace EtcdClientV3

def text (s : String) : Bytes := s.toUTF8.toList

def put (request : PutRequest) : UnaryRpc PutRequest PutResponse Int where
  kind := .put
  request
  callback st ctx := { ctx with status := st }
  finish ctx :=
    if ctx.isStatusOK = true then { value := ctx.response.header.revision, statusOK := ctx.isStatusOK }
    else
      { value := -1
        warnings := [text "Put, etcdclient put failed,key:" ++ request.key ++ text ", value:" ++ request.value]
        statusOK := ctx.isStatusOK }

/-- `Put(const KeyValue&)`. -/
def putKeyValue (kvs : KeyValue) : UnaryRpc PutRequest PutResponse Int :=
  put { key := kvs.key, value := kvs.value, lease := kvs.lease }

/-- `Range`, once its request is built. -/
def rangeOf (key : Bytes) (withPrefix : Bool) (request : RangeRequest) :
    UnaryRpc RangeRequest RangeResponse (List KeyValue) where
  kind := .range
  request
  callback _ ctx := ctx
  finish ctx :=
    if ctx.isStatusOK = false then
      { value := []
        warnings := [text "Range, etcdclient range failedkey:" ++ key ++ text ", with_prefix:" ++
          text (if withPrefix = true then "True" else "False")]
        statusOK := ctx.isStatusOK }
    else { value := ctx.response.kvs.foldl (fun kvs kv => kvs ++ [kv]) [], statusOK := ctx.isStatusOK }

/-- `none` where the request cannot be built, since `key` has no last character. -/
def range (key : Bytes) (withPrefix : Bool) : Option (UnaryRpc RangeRequest RangeResponse (List KeyValue)) :=
  (Etcd.range key withPrefix).map (rangeOf key withPrefix)

def leaseGrant (ttl : Int) : UnaryRpc LeaseGrantRequest LeaseGrantResponse Int where
  kind := .leaseGrant
  request := { ttl }
  callback _ ctx := ctx
  finish ctx := { value := ctx.response.id, statusOK := ctx.isStatusOK }

def timeToAlive (leaseId : Int) : UnaryRpc LeaseTimeToLiveRequest LeaseTimeToLiveResponse Int where
  kind := .timeToAlive
  request := { id := leaseId }
  callback _ ctx := ctx
  finish ctx := { value := ctx.response.ttl, statusOK := ctx.isStatusOK }

end EtcdClientV3

/-! ## An operation under way -/

/-- What the RPC comes to. -/
structure Outcome (R : Type) where
  status   : Status
  response : R
deriving DecidableEq, Repr

/-- Where the coroutine is, with the lines it has still to execute. -/
inductive Place (α : Type)
  | running (lines : List Line)
  | suspended (lines : List Line)
  | returned (r : Returned α)
deriving DecidableEq, Repr

inductive RpcStage (Q : Type)
  | unstarted
  | inFlight (request : Q)
  /-- The response is written. -/
  | received
  /-- The callback is called. -/
  | calledBack
deriving DecidableEq, Repr

structure Operation (Q R α : Type) where
  place : Place α
  rpc   : RpcStage Q := .unstarted
  ctx   : ResponseCallContext R
  /-- `CallContext`, and who is inside its functions. -/
  meet  : Rendezvous Unit := {}
deriving DecidableEq, Repr

/-- The coroutine has been scheduled. -/
def Rendezvous.scheduled (s : Rendezvous Unit) : Bool :=
  s.log.any fun e => e matches .called _ (some _)

theorem Rendezvous.scheduled_mono {s s' : Rendezvous Unit} (h : s.log <:+ s'.log) (hs : s.scheduled = true) :
    s'.scheduled = true := by
  obtain ⟨e, hmem, he⟩ := List.any_eq_true.1 hs
  exact List.any_eq_true.2 ⟨e, h.subset hmem, he⟩

/-- Whoever has called the resumer has been through its locked section. -/
theorem Rendezvous.Logged.through {s : Rendezvous Unit} (hl : s.Logged) (hs : s.scheduled = true) :
    ∃ i, s.At i Completing.Through := by
  obtain ⟨e, hmem, he⟩ := List.any_eq_true.1 hs
  cases e with
  | installed => cases he
  | called i found => exact ⟨i, (hl i).1 ⟨found, hmem⟩⟩

namespace Operation

variable {Q R α : Type}

inductive Act
  /-- The next step of the coroutine. -/
  | coroutine
  /-- gRPC writes the response. -/
  | receive
  /-- gRPC calls the callback. -/
  | callback
  /-- The next step of `ResumeContext`. -/
  | resume
deriving DecidableEq, Repr

def begin [Inhabited R] (u : UnaryRpc Q R α) : Operation Q R α :=
  { place := .running u.kind.lines, ctx := { response := default } }

def coroutineNext (u : UnaryRpc Q R α) (o : Operation Q R α) : Option (Operation Q R α) :=
  match o.place with
  | .running (.lockContext :: ls) => (o.meet.lockNext ()).map fun m =>
    -- the value of `LockContext` is not looked at
    { o with meet := m, place := .running (if m.locking.over = true then ls else .lockContext :: ls) }
  | .running (.async :: ls) => some { o with rpc := .inFlight u.request, place := .running ls }
  | .running (.coYield :: ls) => some { o with place := .suspended ls }
  | .suspended ls => if o.meet.scheduled = true then some { o with place := .running ls } else none
  | .running [] => some { o with place := .returned (u.finish o.ctx) }
  | .returned _ => none

def receiveNext (out : Outcome R) (o : Operation Q R α) : Option (Operation Q R α) :=
  match o.rpc with
  | .inFlight _ => some { o with rpc := .received, ctx := { o.ctx with response := out.response } }
  | .unstarted | .received | .calledBack => none

def callbackNext (u : UnaryRpc Q R α) (out : Outcome R) (o : Operation Q R α) : Option (Operation Q R α) :=
  match o.rpc with
  | .received => (o.meet.step () (.complete out.status.ok)).map fun m =>
    { o with rpc := .calledBack, ctx := u.callback out.status o.ctx, meet := m }
  | .unstarted | .inFlight _ | .calledBack => none

/-- A step of the operation, whose RPC ends with `out`. -/
def step (u : UnaryRpc Q R α) (out : Outcome R) (o : Operation Q R α) : Act → Option (Operation Q R α)
  | .coroutine => o.coroutineNext u
  | .receive => o.receiveNext out
  | .callback => o.callbackNext u out
  | .resume => (o.meet.resume 0).map fun m => { o with meet := m }

def lts (u : UnaryRpc Q R α) (out : Outcome R) : Lts (Operation Q R α) Act := ⟨fun o a o' => step u out o a = some o'⟩

/-! ## What is asked of an operation -/

/-- What the operation is for: the part of the response that is asked for, or a value that says that there is none. -/
structure Contract (R α : Type) where
  data    : R → α
  failure : α

def Contract.put : Contract PutResponse Int := ⟨fun resp => resp.header.revision, -1⟩
def Contract.range : Contract RangeResponse (List KeyValue) := ⟨fun resp => resp.kvs, []⟩
def Contract.leaseGrant : Contract LeaseGrantResponse Int := ⟨fun resp => resp.id, -1⟩
def Contract.timeToAlive : Contract LeaseTimeToLiveResponse Int := ⟨fun resp => resp.ttl, -1⟩

/-- The status is that of the RPC, the failure path is taken exactly if it is not OK, and the data is that of the
response if it is. -/
structure Contract.Agrees (k : Contract R α) (out : Outcome R) (r : Returned α) : Prop where
  status : r.statusOK = out.status.ok
  failed : (r.warnings ≠ [] ∧ r.value = k.failure) ↔ out.status.ok = false
  data   : out.status.ok = true → r.value = k.data out.response

/-- Whatever happens the operation comes to its end, has then returned, and has returned what the contract says. -/
structure Reported [Inhabited R] (u : UnaryRpc Q R α) (k : Contract R α) (out : Outcome R) : Prop where
  ends    : ∃ n, ∀ as o, (lts u out).Run (begin u) as o → as.length ≤ n
  returns : ∀ as o, (lts u out).Run (begin u) as o → (lts u out).Stuck o → ∃ r, o.place = .returned r
  agrees  : ∀ as o r, (lts u out).Run (begin u) as o → o.place = .returned r → k.Agrees out r

/-! ## The cases of a step -/

/-- Everything a step can do. -/
inductive Stepped (u : UnaryRpc Q R α) (out : Outcome R) (o : Operation Q R α) : Act → Operation Q R α → Prop
  | locked {ls m} : o.place = .running (.lockContext :: ls) → (Rendezvous.lts ()).step o.meet .lock m →
    Stepped u out o .coroutine
      { o with meet := m, place := .running (if m.locking.over = true then ls else .lockContext :: ls) }
  | started {ls} : o.place = .running (.async :: ls) →
    Stepped u out o .coroutine { o with rpc := .inFlight u.request, place := .running ls }
  | yielded {ls} : o.place = .running (.coYield :: ls) → Stepped u out o .coroutine { o with place := .suspended ls }
  | woken {ls} : o.place = .suspended ls → o.meet.scheduled = true →
    Stepped u out o .coroutine { o with place := .running ls }
  | returned : o.place = .running [] → Stepped u out o .coroutine { o with place := .returned (u.finish o.ctx) }
  | received {q} : o.rpc = .inFlight q →
    Stepped u out o .receive { o with rpc := .received, ctx := { o.ctx with response := out.response } }
  | calledBack {m} : o.rpc = .received → (Rendezvous.lts ()).step o.meet (.complete out.status.ok) m →
    Stepped u out o .callback { o with rpc := .calledBack, ctx := u.callback out.status o.ctx, meet := m }
  | resumed {m} : (Rendezvous.lts ()).step o.meet (.resume 0) m → Stepped u out o .resume { o with meet := m }

section
variable {u : UnaryRpc Q R α} {out : Outcome R} {o o' : Operation Q R α} {a : Act}

theorem lts_stepped (h : (lts u out).step o a o') : Stepped u out o a o' := by
  have h : step u out o a = some o' := h
  cases a with
  | coroutine =>
    simp only [step, coroutineNext] at h
    split at h
    · obtain ⟨m, hm, rfl⟩ := Option.map_eq_some_iff.1 h
      exact .locked ‹_› hm
    · exact Option.some.inj h ▸ .started ‹_›
    · exact Option.some.inj h ▸ .yielded ‹_›
    · split at h
      · exact Option.some.inj h ▸ .woken ‹_› ‹_›
      · cases h
    · exact Option.some.inj h ▸ .returned ‹_›
    · cases h
  | receive =>
    simp only [step, receiveNext] at h
    split at h
    · exact Option.some.inj h ▸ .received ‹_›
    all_goals cases h
  | callback =>
    simp only [step, callbackNext] at h
    split at h
    · obtain ⟨m, hm, rfl⟩ := Option.map_eq_some_iff.1 h
      exact .calledBack ‹_› hm
    all_goals cases h
  | resume =>
    obtain ⟨m, hm, rfl⟩ := Option.map_eq_some_iff.1 h
    exact .resumed hm

/-! ## Every operation comes to its end -/

/-- A bound on the steps that follow from the line, besides those of `CallContext`. -/
def lineLeft : Line → Nat
  | .lockContext => 0
  | .async => 8
  | .coYield => 2

def placeLeft : Place α → Nat
  | .running ls => (ls.map lineLeft).sum + 1
  | .suspended ls => (ls.map lineLeft).sum + 2
  | .returned _ => 0

def rpcLeft : RpcStage Q → Nat
  | .inFlight _ => 7
  | .received => 6
  | .unstarted | .calledBack => 0

/-- A bound on the steps left. -/
def left (o : Operation Q R α) : Nat := placeLeft o.place + rpcLeft o.rpc + o.meet.work

theorem step_left (h : (lts u out).step o a o') : o'.left < o.left := by
  cases lts_stepped h with
  | @locked ls m hp hm =>
    have hw := Rendezvous.work_lock hm
    have hpl : placeLeft (.running (if m.locking.over = true then ls else .lockContext :: ls) : Place α) = placeLeft o.place := by
      rw [hp]
      split <;> simp [placeLeft, lineLeft]
    simp only [left, hpl]
    omega
  | started hp | yielded hp | woken hp | returned hp =>
    simp [left, hp, placeLeft, rpcLeft, lineLeft]
    try omega
  | received hr => simp [left, hr, rpcLeft]
  | calledBack hr hm =>
    have hw := Rendezvous.work_complete hm
    simp only [left, hr, rpcLeft, hw]
    omega
  | resumed hm =>
    have hw := Rendezvous.work_resume hm
    simp only [left]
    omega

/-! ## What holds in every run -/

/-- The steps of the operation are steps of `CallContext`, or leave it alone. -/
theorem step_meet (hs : Rendezvous.Sound () o.meet) (h : (lts u out).step o a o') : Rendezvous.Sound () o'.meet := by
  cases lts_stepped h with
  | locked _ hm | calledBack _ hm | resumed hm => exact Rendezvous.step_sound hs hm
  | started | yielded | woken | returned | received => exact hs

/-- What an operation returns once it has been called back. -/
def result (u : UnaryRpc Q R α) (out : Outcome R) : Returned α :=
  u.finish (u.callback out.status { response := out.response })

/-- Where an operation that calls `LockContext` can be: the call is over before the RPC is started, and it returns
false. -/
inductive Placed (u : UnaryRpc Q R α) (out : Outcome R) : Place α → RpcStage Q → Rendezvous Unit → Prop
  | locking {m} : m.locking.over = false → Placed u out (.running [.lockContext, .async, .coYield]) .unstarted m
  | starting {m} : m.locking = .returned false → Placed u out (.running [.async, .coYield]) .unstarted m
  | yielding {p m} : m.locking = .returned false → p ≠ .unstarted → Placed u out (.running [.coYield]) p m
  | suspended {p m} : m.locking = .returned false → p ≠ .unstarted → Placed u out (.suspended []) p m
  | woken {m} : m.locking = .returned false → m.scheduled = true → Placed u out (.running []) .calledBack m
  | returned {m} : m.locking = .returned false → m.scheduled = true →
    Placed u out (.returned (result u out)) .calledBack m

/-- `ResumeContext` is called by the callback and by nobody else. -/
structure Called (p : RpcStage Q) (m : Rendezvous Unit) : Prop where
  before : p ≠ .calledBack → m.completions = [] ∧ m.call.done = false
  after  : p = .calledBack → ∃ c, m.completions = [c]

/-- Only a callback calls the resumer. -/
theorem Called.calledBack {p : RpcStage Q} {m : Rendezvous Unit} (hc : Called p m) (hm : Rendezvous.Sound () m)
    (hs : m.scheduled = true) : p = .calledBack := by
  by_contra hp
  obtain ⟨hnil, -⟩ := hc.before hp
  obtain ⟨i, c, hat, -⟩ := hm.logged.through hs
  simp [hnil] at hat

theorem Placed.congr {pl : Place α} {p : RpcStage Q} {m m' : Rendezvous Unit} (hp : Placed u out pl p m)
    (h : m'.locking = m.locking) (hlog : m.log <:+ m'.log) : Placed u out pl p m' := by
  cases hp with
  | locking hl => exact .locking (h ▸ hl)
  | starting hl => exact .starting (h ▸ hl)
  | yielding hl hr => exact .yielding (h ▸ hl) hr
  | suspended hl hr => exact .suspended (h ▸ hl) hr
  | woken hl hs => exact .woken (h ▸ hl) (Rendezvous.scheduled_mono hlog hs)
  | returned hl hs => exact .returned (h ▸ hl) (Rendezvous.scheduled_mono hlog hs)

/-- The RPC goes on while the coroutine is where it is. -/
theorem Placed.move {pl : Place α} {p p' : RpcStage Q} {m : Rendezvous Unit} (hp : Placed u out pl p m)
    (hun : p ≠ .unstarted) (hback : p ≠ .calledBack) (hun' : p' ≠ .unstarted) : Placed u out pl p' m := by
  cases hp with
  | locking | starting => exact absurd rfl hun
  | yielding hl => exact .yielding hl hun'
  | suspended hl => exact .suspended hl hun'
  | woken | returned => exact absurd rfl hback

variable [Inhabited R]

/-- What the RPC has told the context. -/
def told (u : UnaryRpc Q R α) (out : Outcome R) : RpcStage Q → ResponseCallContext R
  | .unstarted | .inFlight _ => { response := default }
  | .received => { response := out.response }
  | .calledBack => u.callback out.status { response := out.response }

structure Kept (u : UnaryRpc Q R α) (out : Outcome R) (o : Operation Q R α) : Prop where
  meet   : Rendezvous.Sound () o.meet
  placed : Placed u out o.place o.rpc o.meet
  called : Called o.rpc o.meet
  ctx    : o.ctx = told u out o.rpc

theorem begin_kept (hu : u.kind ≠ .timeToAlive) : Kept u out (begin u) where
  meet := Rendezvous.sound_fresh
  placed := by
    unfold begin
    rw [Unary.lines_of_ne hu]
    exact .locking rfl
  called := ⟨fun _ => ⟨rfl, rfl⟩, nofun⟩
  ctx := rfl

theorem step_kept (hs : Kept u out o) (h : (lts u out).step o a o') : Kept u out o' := by
  have hmeet := step_meet hs.meet h
  obtain ⟨pl, p, ctx, meet⟩ := o
  obtain ⟨hm, hp, hc, hx⟩ : Rendezvous.Sound () meet ∧ Placed u out pl p meet ∧ Called p meet ∧ ctx = told u out p :=
    ⟨hs.meet, hs.placed, hs.called, hs.ctx⟩
  cases lts_stepped h with
  | @locked ls m hpl hst =>
    obtain rfl : pl = _ := hpl
    obtain ⟨hcompl, hdone, hover⟩ := Rendezvous.lock_keeps hst
    cases hp with
    | locking hl =>
      obtain ⟨hnil, hd⟩ := hc.before nofun
      refine ⟨hmeet, ?_, ⟨fun _ => ⟨hcompl.trans hnil, hdone.trans hd⟩, nofun⟩, hx⟩
      cases ho : m.locking.over with
      | false => simpa [ho] using Placed.locking ho
      | true =>
        -- nothing has been started that could have set `done_`
        have hl' : m.locking = .returned false := (hover ho).trans (congrArg _ hd)
        simpa [ho] using Placed.starting hl'
  | started hpl =>
    obtain rfl : pl = _ := hpl
    cases hp with
    | starting hl => exact ⟨hmeet, .yielding hl nofun, ⟨fun _ => hc.before nofun, nofun⟩, hx⟩
  | yielded hpl =>
    obtain rfl : pl = _ := hpl
    cases hp with
    | yielding hl hr => exact ⟨hmeet, .suspended hl hr, hc, hx⟩
  | woken hpl hsched =>
    obtain rfl : pl = _ := hpl
    obtain rfl : p = _ := hc.calledBack hm hsched
    cases hp with
    | suspended hl => exact ⟨hmeet, .woken hl hsched, hc, hx⟩
  | returned hpl =>
    obtain rfl : pl = _ := hpl
    cases hp with
    | woken hl hsched =>
      obtain rfl : ctx = _ := hx
      exact ⟨hmeet, .returned hl hsched, hc, rfl⟩
  | received hr =>
    obtain rfl : p = _ := hr
    obtain rfl : ctx = _ := hx
    exact ⟨hmeet, hp.move nofun nofun nofun, ⟨fun _ => hc.before nofun, nofun⟩, rfl⟩
  | @calledBack m hr hst =>
    obtain rfl : p = _ := hr
    obtain rfl : ctx = _ := hx
    obtain ⟨hnil, -⟩ := hc.before nofun
    cases Rendezvous.step_stepped hst with
    | begun =>
      have hp' : Placed u out pl .calledBack meet := hp.move nofun nofun nofun
      exact ⟨hmeet, hp'.congr rfl List.suffix_rfl, ⟨fun h => absurd rfl h, fun _ => ⟨_, by rw [hnil]; rfl⟩⟩, rfl⟩
  | @resumed m hst =>
    obtain ⟨hlock, hlen⟩ := Rendezvous.resume_keeps hst
    refine ⟨hmeet, hp.congr hlock (Rendezvous.log_suffix hst), ⟨fun hne => ?_, fun hback => ?_⟩, hx⟩
    · -- there is no call to resume
      obtain ⟨hnil, -⟩ := hc.before hne
      cases Rendezvous.step_stepped hst with
      | resumed hat => simp [hnil] at hat
    · obtain ⟨c, hone⟩ := hc.after hback
      exact List.length_eq_one_iff.1 (by rw [hlen, hone]; rfl)

theorem run_kept (hu : u.kind ≠ .timeToAlive) {as : List Act} (h : (lts u out).Run (begin u) as o) : Kept u out o :=
  h.invariant (fun _ _ _ hs hst => step_kept hs hst) (begin_kept hu)

/-- There is one call of `ResumeContext`, that of the callback. -/
theorem Kept.called_once (hs : Kept u out o) {c : Completion} (hc : c ∈ o.meet.completions) :
    o.rpc = .calledBack ∧ o.meet.completions = [c] := by
  have hback : o.rpc = .calledBack := by
    by_contra hp
    simp [(hs.called.before hp).1] at hc
  obtain ⟨d, hone⟩ := hs.called.after hback
  obtain rfl : c = d := by simpa [hone] using hc
  exact ⟨hback, hone⟩

/-- If the coroutine has been scheduled, the call has looked for the resumer. -/
theorem Kept.through (hs : Kept u out o) {c : Completion} (hc : c ∈ o.meet.completions)
    (hsched : o.meet.scheduled = true) : c.next.Through := by
  obtain ⟨i, d, hd, hthrough⟩ := hs.meet.logged.through hsched
  obtain rfl : d = c := by simpa [(hs.called_once hc).2] using List.mem_of_getElem? hd
  exact hthrough

/-- `ResumeContext` comes to its end: `LockContext` has, so nobody else takes `mu_`. -/
theorem Kept.resume_enabled (hs : Kept u out o) (hl : o.meet.locking = .returned false) {c : Completion}
    (hc : c ∈ o.meet.completions) (hn : c.next ≠ .returned) : ∃ o', (lts u out).step o .resume o' := by
  obtain ⟨-, hone⟩ := hs.called_once hc
  have hfree : c.next = .acquire → o.meet.holder = none := by
    intro hacq
    refine hs.meet.excluded.free (by simp [hl, Locking.Inside]) ?_
    rintro i ⟨d, hd, hin⟩
    obtain rfl : d = c := by simpa [hone] using List.mem_of_getElem? hd
    simp [hacq, Completing.Inside] at hin
  obtain ⟨m, hres⟩ := Rendezvous.resume_enabled (r := ()) (i := 0) (by simp [hone]) hfree hn
  exact ⟨{ o with meet := m }, Option.map_eq_some_iff.2 ⟨m, hres, rfl⟩⟩

/-- An operation that has not returned can go on. -/
theorem Kept.returned_of_stuck (hs : Kept u out o) (hst : (lts u out).Stuck o) : o.place = .returned (result u out) := by
  have hresume := hs.resume_enabled
  obtain ⟨pl, p, ctx, meet⟩ := o
  obtain ⟨hm, hp, hc⟩ : Rendezvous.Sound () meet ∧ Placed u out pl p meet ∧ Called p meet :=
    ⟨hs.meet, hs.placed, hs.called⟩
  cases hp with
  | returned => rfl
  | starting | yielding | woken => exact absurd rfl (hst .coroutine _)
  | locking hl =>
    obtain ⟨hnil, -⟩ := hc.before nofun
    have hfree : meet.locking = .acquire → meet.holder = none := fun hacq =>
      hm.excluded.free (by simp [hacq, Locking.Inside]) (by simp [Rendezvous.At, hnil])
    obtain ⟨m, hlock⟩ := Rendezvous.lock_enabled (r := ()) hfree fun d hd => by simp [hd, Locking.over] at hl
    exact (hst .coroutine _ (Option.map_eq_some_iff.2 ⟨m, hlock, rfl⟩)).elim
  | suspended hl hun =>
    cases p with
    | unstarted => exact absurd rfl hun
    | inFlight => exact (hst .receive _ rfl).elim
    | received => exact (hst .callback _ rfl).elim
    | calledBack =>
      obtain ⟨c, hone⟩ := hc.after rfl
      by_cases hn : c.next = .returned
      · -- `ResumeContext` has called the resumer
        obtain ⟨i, hmem⟩ := hm.called hl (by simp [hone]) (.inr hn)
        have hsched : meet.scheduled = true := List.any_eq_true.2 ⟨_, hmem, rfl⟩
        exact (hst .coroutine _ (if_pos hsched)).elim
      · obtain ⟨o', ho⟩ := hresume hl (by simp [hone]) hn
        exact (hst .resume o' ho).elim

theorem Kept.returned_result (hs : Kept u out o) {r : Returned α} (hr : o.place = .returned r) : r = result u out := by
  have hp := hs.placed
  rw [hr] at hp
  generalize o.rpc = p, o.meet = m at hp
  cases hp with
  | returned => rfl

theorem run_length {as : List Act} (h : (lts u out).Run (begin u) as o) : as.length ≤ (begin u).left := by
  have := h.length_add_le fun _ _ _ => step_left
  omega

/-- An operation that calls `LockContext` is judged by its last lines, run on what the callback has written. -/
theorem reported_iff (hu : u.kind ≠ .timeToAlive) (k : Contract R α) :
    Reported u k out ↔ k.Agrees out (result u out) := by
  constructor
  · intro h
    obtain ⟨as, o, hr, hst⟩ := Lts.exists_stuck (M := lts u out) (fun _ _ _ => step_left) (begin u)
    exact h.agrees as o _ hr ((run_kept hu hr).returned_of_stuck hst)
  · intro hk
    refine ⟨⟨_, fun as o hr => run_length hr⟩, fun as o hr hst => ⟨_, (run_kept hu hr).returned_of_stuck hst⟩, ?_⟩
    intro as o r hr hret
    rw [(run_kept hu hr).returned_result hret]
    exact hk

end

/-! ## Without `LockContext` -/

section
variable {u : UnaryRpc Q R α} {out : Outcome R} {o o' : Operation Q R α} {a : Act}

/-- The coroutine waits, and nobody can call it. -/
structure Mute (o : Operation Q R α) : Prop where
  place     : o.place = .running [.async, .coYield] ∨ o.place = .running [.coYield] ∨ o.place = .suspended []
  resumer   : o.meet.call.resumer = none
  scheduled : o.meet.scheduled = false

theorem step_mute (hs : Mute o) (h : (lts u out).step o a o') : Mute o' := by
  cases lts_stepped h with
  | locked hp | returned hp =>
    have hplace := hs.place
    simp [hp] at hplace
  | @started ls hp =>
    obtain rfl : ls = [.coYield] := by simpa [hp] using hs.place
    exact ⟨.inr (.inl rfl), hs.resumer, hs.scheduled⟩
  | @yielded ls hp =>
    obtain rfl : ls = [] := by simpa [hp] using hs.place
    exact ⟨.inr (.inr rfl), hs.resumer, hs.scheduled⟩
  | woken hp hsched =>
    rw [hs.scheduled] at hsched
    cases hsched
  | received => exact ⟨hs.place, hs.resumer, hs.scheduled⟩
  | calledBack hr hm =>
    cases Rendezvous.step_stepped hm with
    | begun => exact ⟨hs.place, hs.resumer, hs.scheduled⟩
  | resumed hm =>
    cases Rendezvous.step_stepped hm with
    | resumed hc hr =>
      cases hr with
      | success | done | acquired | released => exact ⟨hs.place, hs.resumer, hs.scheduled⟩
      | called =>
        -- there is no resumer to call
        refine ⟨hs.place, hs.resumer, ?_⟩
        simpa [Rendezvous.scheduled, hs.resumer] using hs.scheduled

theorem not_reported [Inhabited R] (hu : u.kind = .timeToAlive) (k : Contract R α) : ¬ Reported u k out := by
  intro h
  obtain ⟨as, o, hr, hst⟩ := Lts.exists_stuck (M := lts u out) (fun _ _ _ => step_left) (begin u)
  have hbegin : Mute (begin u) := ⟨.inl (by simp [begin, hu, Unary.lines]), rfl, rfl⟩
  have hmute : Mute o := hr.invariant (fun _ _ _ hs hst => step_mute hs hst) hbegin
  obtain ⟨r, hret⟩ := h.returns as o hr hst
  have hplace := hmute.place
  simp [hret] at hplace

end

end Operation

/-! ## A failure is reported -/

open Operation

namespace EtcdClientV3

/-- The loop of `Range`. -/
theorem foldl_emplace_back (kvs : List KeyValue) : ∀ acc, kvs.foldl (fun kvs kv => kvs ++ [kv]) acc = acc ++ kvs := by
  induction kvs with
  | nil => simp
  | cons kv kvs ih =>
    intro acc
    rw [List.foldl_cons, ih, List.append_assoc, List.singleton_append]

theorem put_agrees (request : PutRequest) (out : Outcome PutResponse) :
    Contract.put.Agrees out (result (put request) out) := by
  cases hok : out.status.ok with
  | true => constructor <;> simp [result, put, ResponseCallContext.isStatusOK, Contract.put, hok]
  | false => constructor <;> simp [result, put, ResponseCallContext.isStatusOK, Contract.put, hok]

/-- The status that is looked at is the default one. -/
theorem rangeOf_result (key : Bytes) (withPrefix : Bool) (request : RangeRequest) (out : Outcome RangeResponse) :
    result (rangeOf key withPrefix request) out = { value := out.response.kvs, statusOK := true } := by
  have hok : ({ response := out.response } : ResponseCallContext RangeResponse).isStatusOK = true := rfl
  simp only [result, rangeOf, hok, foldl_emplace_back, List.nil_append]
  rfl

theorem kind_of_range {key : Bytes} {withPrefix : Bool} {u : UnaryRpc RangeRequest RangeResponse (List KeyValue)}
    (hu : u ∈ range key withPrefix) : u.kind ≠ .timeToAlive := by
  obtain ⟨request, -, rfl⟩ := Option.map_eq_some_iff.1 hu
  simp [rangeOf]

/-- An operation that returns the data whatever the status is. -/
theorem agrees_iff {R α : Type} {k : Contract R α} {out : Outcome R} :
    k.Agrees out { value := k.data out.response, statusOK := true } ↔ out.status.ok = true := by
  constructor
  · exact fun h => h.status.symm
  · intro hok
    exact ⟨hok.symm, by simp [hok], fun _ => rfl⟩

/-- **A failure of the RPC is reported** by `Put`; by `Range` and `LeaseGrant` exactly if there is none; `TimeToAlive`
reports nothing at all. -/
theorem failure_reported_iff (status : Status) :
    (∀ request response, Reported (put request) Contract.put ⟨status, response⟩) ∧
      (∀ kvs response, Reported (putKeyValue kvs) Contract.put ⟨status, response⟩) ∧
      (∀ key withPrefix, ∀ u ∈ range key withPrefix, ∀ response,
        Reported u Contract.range ⟨status, response⟩ ↔ status.ok = true) ∧
      (∀ ttl response, Reported (leaseGrant ttl) Contract.leaseGrant ⟨status, response⟩ ↔ status.ok = true) ∧
      ∀ leaseId response, ¬ Reported (timeToAlive leaseId) Contract.timeToAlive ⟨status, response⟩ := by
  have hput : ∀ request response, Reported (put request) Contract.put ⟨status, response⟩ := fun request response =>
    (reported_iff (by simp [put]) _).2 (put_agrees request ⟨status, response⟩)
  refine ⟨hput, fun kvs => hput _, fun key withPrefix u hu response => ?_, fun ttl response => ?_,
    fun leaseId response => ?_⟩
  · rw [reported_iff (kind_of_range hu)]
    obtain ⟨request, -, rfl⟩ := Option.map_eq_some_iff.1 hu
    rw [rangeOf_result]
    exact agrees_iff
  · rw [reported_iff (by simp [leaseGrant])]
    exact agrees_iff
  · exact not_reported rfl _

/-- The failure of a `Range` of the key `a`. -/
theorem failure_reported_iff_range : ∃ u ∈ range [0x61] false,
    ¬ Reported u Contract.range ⟨{ code := .unavailable }, {}⟩ := by
  refine ⟨rangeOf [0x61] false { key := [0x61] }, rfl, ?_⟩
  rw [(failure_reported_iff { code := .unavailable }).2.2.1 [0x61] false _ rfl]
  decide

/-- **A lease that was not granted**: the RPC fails, and `LeaseGrant` returns 0 with no sign of it. -/
theorem lease_zero_returned :
    (∃ as o, (lts (leaseGrant 10) ⟨{ code := .unavailable }, {}⟩).Run (begin (leaseGrant 10)) as o ∧
      o.place = .returned { value := 0, warnings := [], statusOK := true }) ∧
      ¬ Reported (leaseGrant 10) Contract.leaseGrant ⟨{ code := .unavailable }, {}⟩ := by
  obtain ⟨o, hr, hret⟩ : ∃ o, ((lts (leaseGrant 10) ⟨{ code := .unavailable }, {}⟩).restrict fun _ _ => True).Run
      (begin (leaseGrant 10)) (List.replicate 6 .coroutine ++ [.receive, .callback] ++ List.replicate 5 .resume ++
        List.replicate 2 .coroutine) o ∧ o.place = .returned { value := 0, warnings := [], statusOK := true } :=
    Lts.exists_run_of_exec (fun _ _ _ h => h) (by decide)
  refine ⟨⟨_, o, hr.of_restrict, hret⟩, fun h => ?_⟩
  have hstatus := (h.agrees _ o _ hr.of_restrict hret).status
  cases hstatus

end EtcdClientV3
end LtApp.Etcd
