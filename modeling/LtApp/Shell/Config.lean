import LtApp.Shell.Accounting
import LtApp.Shell.Startup

/-!
# `lt_app`, and a config file that does not load

The prepare tasks of `lt_app` are bound to one `AppContextImpl`: `InitConfig` loads the config file, and `InitClient`
looks into what has been loaded, after a `CHECK` that it has a root. `RunBootupTask` goes on to the next task where one
has failed. So the exit `Run` has for a prepare task that fails is never taken for a file without a root: the process
aborts in the task that comes after (`lt_app_startup`).

| here | there |
| --- | --- |
| `TinyXml` | **tinyxml2 boundary**: `tinyxml2::XMLDocument` |
| `XmlConfig` | the class of this name (`lt_config.h:43`, `lt_config.cc:17`) |
| `AppContextImpl` | the class of this name; what its functions read is `config_` (`app_context_impl.cc:11`) |
| `prepare`, `cleanup` | the tasks of `main` (`main.cpp:20`) |
| `bound` | the call of the function bound in a prepare task; `none` where a `CHECK` fails |
-/

namespace LtApp.Shell

variable {σ δ ε : Type}

structure TinyXml (δ ε : Type) where
  /-- `LoadFile` on a new document: what it leaves of it, and whether the error is `XML_SUCCESS`. -/
  loadFile          : String → δ × Bool
  rootElement       : δ → Option ε
  firstChildElement : ε → String → Option ε

structure XmlConfig (δ : Type) where
  xmlFile   : String
  configDoc : Option δ := none

/-- `Load`: the document is replaced before it is known whether the file loads. -/
def XmlConfig.load (x : TinyXml δ ε) (c : XmlConfig δ) : Bool × XmlConfig δ :=
  ((x.loadFile c.xmlFile).2, { c with configDoc := some (x.loadFile c.xmlFile).1 })

def XmlConfig.xmlRoot (x : TinyXml δ ε) (c : XmlConfig δ) : Option ε := c.configDoc.bind x.rootElement

structure AppContextImpl (δ : Type) where
  config : XmlConfig δ

namespace AppContextImpl

def initConfig (x : TinyXml δ ε) (c : AppContextImpl δ) : Bool × AppContextImpl δ :=
  ((c.config.load x).1, { c with config := (c.config.load x).2 })

/-- `none` where `CHECK(root)` fails. -/
def initClient (x : TinyXml δ ε) (client : String) (c : AppContextImpl δ) : Option Bool :=
  (c.config.xmlRoot x).map fun root => (x.firstChildElement root client).isSome

def initCoroPrepare : Bool := true

def initAsyncPrepare : Bool := true

end AppContextImpl

open AppContextImpl

/-- The prepare tasks, with what `InitConfig` and `InitClient` return. -/
def prepare (config client : Bool) : List BootTask :=
  [{ name := "config", task := config, addr := 0 },
    { name := "client", task := client, addr := 1 },
    { name := "coro", task := initCoroPrepare, excType := .kAsyncCoroType, addr := 2 },
    { name := "async", task := initAsyncPrepare, excType := .kAsyncRunType, addr := 3 }]

def cleanup : List BootTask :=
  [{ name := "clean kAsyncCoroType", task := true, excType := .kAsyncCoroType, addr := 4 },
    { name := "clean kSequenceType", task := false, addr := 5 },
    { name := "clean kAsyncRunType", task := true, excType := .kAsyncRunType, addr := 6 }]

def bound (x : TinyXml δ ε) (client : String) (t : BootTask) (c : AppContextImpl δ) : Option (Bool × AppContextImpl δ) :=
  match t.addr with
  | 0 => some (c.initConfig x)
  | 1 => (c.initClient x client).map fun b => (b, c)
  | 2 => some (initCoroPrepare, c)
  | _ => some (initAsyncPrepare, c)

/-- The prepare task whose function returns. -/
def App.returning (s : App σ) : Op → Option BootTask
  | .task .startup .taskReturns => s.boot.bind fun r =>
    match r.pc with
    | .inTask t _ => some t
    | _ => none
  | .task .startup (.finish i) => s.boot.bind fun r => r.running[i]?
  | _ => none

structure Process (σ δ : Type) where
  app     : App σ
  context : AppContextImpl δ

/-- The steps of the application; a prepare task returns what the function bound in it does, if that returns. -/
def ltApp (x : TinyXml δ ε) (client : String) (wg : WaitGroup σ) : Lts (Process σ δ) Op :=
  ⟨fun s op t => (lts wg).step s.app op t.app ∧
    match s.app.returning op with
    | none => t.context = s.context
    | some item => bound x client item s.context = some (item.task, t.context)⟩

/-- What `InitClient` finds in the document of the file. -/
def clientFound (x : TinyXml δ ε) (client file : String) : Bool :=
  (x.rootElement (x.loadFile file).1).any fun root => (x.firstChildElement root client).isSome

/-- `main`. What `InitClient` returns for a document without a root is of no account: it does not return then. -/
def Process.start (x : TinyXml δ ε) (client file : String) : Process σ δ where
  app := .start (prepare (x.loadFile file).2 (clientFound x client file)) cleanup
  context := { config := { xmlFile := file } }

section
variable {x : TinyXml δ ε} {client file : String} {wg : WaitGroup σ} {count : σ → Nat} {s t : Process σ δ} {op : Op}

/-! ## A document without a root -/

/-- `RunBootupTask` has not come past its second task, and has posted nothing. -/
structure Before (items : List BootTask) (r : Runner σ) : Prop where
  place   : r.pc = .launching items ∨ (∃ a rest, items = a :: rest ∧ (r.pc = .inTask a rest ∨ r.pc = .launching rest)) ∨
    ∃ a b rest, items = a :: b :: rest ∧ r.pc = .inTask b rest
  posted  : r.posted = []
  running : r.running = []

/-- Where the second of two sequence tasks does not return, the call does not come past it. -/
theorem Before.move {a b c : BootTask} {rest : List BootTask} {line : BootTask → String} {r r' : Runner σ} {m : Move}
    (h : Before (a :: b :: c :: rest) r) (ha : a.excType = .kSequenceType) (hb : b.excType = .kSequenceType)
    (hm : runTasks wg line r m = some r') (hstop : r.pc = .inTask b (c :: rest) → m ≠ .taskReturns) :
    Before (a :: b :: c :: rest) r' ∧ m ≠ .notify := by
  obtain ⟨hplace, hposted, hrunning⟩ := h
  have hplace : r.pc = .launching (a :: b :: c :: rest) ∨ r.pc = .inTask a (b :: c :: rest) ∨
      r.pc = .launching (b :: c :: rest) ∨ r.pc = .inTask b (c :: rest) := by
    rcases hplace with hp | ⟨a', l, he, hp | hp⟩ | ⟨a', b', l, he, hp⟩
    · exact .inl hp
    · cases he; exact .inr (.inl hp)
    · cases he; exact .inr (.inr (.inl hp))
    · cases he; exact .inr (.inr (.inr hp))
  cases runTasks_moved hm with
  | looped hpc | released hpc | notified hpc => simp [hpc] at hplace
  | @called item l hpc =>
    simp only [hpc, Pc.launching.injEq, List.cons.injEq, reduceCtorEq, or_false, false_or] at hplace
    refine ⟨⟨?_, hposted, hrunning⟩, by simp⟩
    rcases hplace with ⟨rfl, rfl⟩ | ⟨rfl, rfl⟩
    · exact .inr (.inl ⟨_, _, rfl, .inl rfl⟩)
    · exact .inr (.inr ⟨_, _, _, rfl, rfl⟩)
  | @posted item l hpc htype =>
    simp only [hpc, Pc.launching.injEq, List.cons.injEq, reduceCtorEq, or_false, false_or] at hplace
    rcases hplace with ⟨rfl, -⟩ | ⟨rfl, -⟩
    · exact absurd ha htype
    · exact absurd hb htype
  | @returned item l hpc =>
    simp only [hpc, Pc.inTask.injEq, reduceCtorEq, false_or] at hplace hstop
    rcases hplace with ⟨rfl, rfl⟩ | hlast
    · exact ⟨⟨.inr (.inl ⟨_, _, rfl, .inr rfl⟩), hposted, hrunning⟩, by simp⟩
    · exact absurd rfl (hstop hlast)
  | started ht => simp [hposted] at ht
  | finished ht => simp [hrunning] at ht

/-- What the tasks leave of the context: a document, once there is one, is that of the file. -/
structure Reading (x : TinyXml δ ε) (file : String) (c : AppContextImpl δ) : Prop where
  path : c.config.xmlFile = file
  doc  : ∀ doc, c.config.configDoc = some doc → doc = (x.loadFile file).1

theorem Reading.bound {item : BootTask} {b : Bool} {c c' : AppContextImpl δ} (h : Reading x file c)
    (hb : bound x client item c = some (b, c')) : Reading x file c' := by
  unfold Shell.bound at hb
  split at hb
  · cases hb
    refine ⟨h.path, fun doc hdoc => ?_⟩
    rw [← h.path]
    exact (Option.some.inj hdoc).symm
  · obtain ⟨b', -, he⟩ := Option.map_eq_some_iff.1 hb
    cases he
    exact h
  · cases hb
    exact h
  · cases hb
    exact h

theorem Reading.step (h : Reading x file s.context) (hs : (ltApp x client wg).step s op t) : Reading x file t.context := by
  obtain ⟨-, hc⟩ := hs
  split at hc
  · rw [hc]
    exact h
  · exact h.bound hc

theorem Reading.initClient_none {c : AppContextImpl δ} (h : Reading x file c)
    (hroot : x.rootElement (x.loadFile file).1 = none) : c.initClient x client = none := by
  unfold AppContextImpl.initClient XmlConfig.xmlRoot
  cases hd : c.config.configDoc with
  | none => rfl
  | some doc => simp [h.doc doc hd, hroot]

/-- What holds after the operations `ops` if the document has no root. -/
structure Blocked (x : TinyXml δ ε) (file : String) (ops : List Op) (s : Process σ δ) : Prop where
  context : Reading x file s.context
  boot    : ∀ r, s.app.boot = some r → Before s.app.onStart r
  onStart : ∃ a b, s.app.onStart = prepare a b
  success : s.app.success = false
  cleanup : s.app.cleanup = none
  pc      : s.app.pc = .spawn .startup ∨
    (∃ w, s.app.pc = .wait .startup w ∧ (w.waits = false → Op.wait .wake ∈ ops)) ∨
    (s.app.pc = .exited ∧ Op.wait .wake ∈ ops)

theorem Before.not_settled {items : List BootTask} {r : Runner σ} (h : Before items r) :
    r.pc ≠ .notifying ∧ r.pc ≠ .returned := by
  rcases h.place with hp | ⟨a, l, -, hp | hp⟩ | ⟨a, b, l, -, hp⟩ <;> simp [hp]

/-- **No step comes past the `CHECK`.** -/
theorem Blocked.step {ops : List Op} (hroot : x.rootElement (x.loadFile file).1 = none) (h : Blocked x file ops s)
    (hs : (ltApp x client wg).step s op t) : Blocked x file (ops ++ [op]) t := by
  obtain ⟨hcontext, hboot, ⟨a, b, hitems⟩, hsuccess, hcleanup, hpc⟩ := h
  have hreading := hcontext.step hs
  obtain ⟨happ, hret⟩ := hs
  obtain ⟨app', context'⟩ := t
  have hpc' : s.app.pc = .spawn .startup ∨
      (∃ w, s.app.pc = .wait .startup w ∧ (w.waits = false → Op.wait .wake ∈ ops ++ [op])) ∨
      (s.app.pc = .exited ∧ Op.wait .wake ∈ ops ++ [op]) := by
    rcases hpc with hpc | ⟨w, hpc, hw⟩ | ⟨hpc, hw⟩
    · exact .inl hpc
    · exact .inr (.inl ⟨w, hpc, fun hn => List.mem_append_left _ (hw hn)⟩)
    · exact .inr (.inr ⟨hpc, List.mem_append_left _ hw⟩)
  cases lts_stepped happ with
  | @spawn p hp =>
    obtain rfl : p = .startup := by
      rcases hpc with hpc | ⟨w, hpc, -⟩ | ⟨hpc, -⟩ <;> rw [hpc] at hp <;> cases hp
      rfl
    refine ⟨hreading, fun r hr => ?_, ⟨a, b, hitems⟩, hsuccess, hcleanup, .inr (.inl ⟨.outside, rfl, nofun⟩)⟩
    cases hr
    exact ⟨.inl rfl, rfl, rfl⟩
  | test hp =>
    refine ⟨hreading, hboot, ⟨a, b, hitems⟩, hsuccess, hcleanup, .inr (.inr ⟨by simp [hsuccess], ?_⟩)⟩
    rcases hpc' with hpc | ⟨w, hpc, hw⟩ | ⟨hpc, -⟩ <;> rw [hpc] at hp <;> cases hp
    exact hw rfl
  | finish hp | onStart hp | ended hp | onStop hp =>
    rcases hpc with hpc | ⟨w, hpc, -⟩ | ⟨hpc, -⟩ <;> rw [hpc] at hp <;> cases hp
  | @wait p w w' act hp hw =>
    have hwait : p = .startup ∧ (w.waits = false → Op.wait .wake ∈ ops) := by
      rcases hpc with hpc | ⟨w, hpc, hn⟩ | ⟨hpc, -⟩ <;> rw [hpc] at hp <;> cases hp
      exact ⟨rfl, hn⟩
    obtain ⟨rfl, hn⟩ := hwait
    refine ⟨hreading, hboot, ⟨a, b, hitems⟩, hsuccess, hcleanup, .inr (.inl ⟨w', rfl, fun hn' => ?_⟩)⟩
    by_cases hact : act = .wake
    · simp [hact]
    · cases hwaits : w.waits with
      | true =>
        rw [Waiter.waits_next_of_ne hw hwaits hact] at hn'
        cases hn'
      | false => exact List.mem_append_left _ (hn hwaits)
  | @task p r r' m hr hm hne =>
    cases p with
    | shutdown =>
      have hr : s.app.cleanup = some r := hr
      rw [hcleanup] at hr
      cases hr
    | startup =>
      have hr : s.app.boot = some r := hr
      have hbefore := hboot r hr
      rw [hitems] at hbefore
      refine ⟨hreading, fun q hq => ?_, ⟨a, b, hitems⟩, hsuccess, hcleanup, hpc'⟩
      cases hq
      show Before s.app.onStart r'
      rw [hitems]
      refine (hbefore.move rfl rfl hm fun hin => ?_).1
      rintro rfl
      -- `InitClient` would have returned
      have hreturning : s.app.returning (.task .startup .taskReturns) =
          some { name := "client", task := b, addr := 1 } := by simp [App.returning, hr, hin]
      rw [hreturning] at hret
      simp [bound, hcontext.initClient_none hroot] at hret
  | @notify p r r' hr hm =>
    cases p with
    | shutdown =>
      have hr : s.app.cleanup = some r := hr
      rw [hcleanup] at hr
      cases hr
    | startup =>
      have hbefore := hboot r hr
      rw [hitems] at hbefore
      have hm : runBootupTask wg r .notify = some r' := hm
      exact absurd rfl (hbefore.move rfl rfl hm fun _ => by simp).2
  | assign hr hp => exact absurd hp (hboot _ hr).not_settled.2
  | quit => exact ⟨hreading, hboot, ⟨a, b, hitems⟩, hsuccess, hcleanup, hpc'⟩

theorem blocked_start (x : TinyXml δ ε) (client file : String) :
    Blocked x file [] (Process.start x client file : Process σ δ) :=
  ⟨⟨rfl, fun _ h => by simp [Process.start] at h⟩, fun _ h => by simp [Process.start, App.start] at h, ⟨_, _, rfl⟩, rfl, rfl,
    .inl rfl⟩

/-! ## A document with a root -/

/-- The first task has not returned. -/
def Pc.First (items : List BootTask) (pc : Pc) : Prop :=
  pc = .launching items ∨ ∃ a rest, items = a :: rest ∧ pc = .inTask a rest

/-- What holds between two steps, with a root or without. -/
structure Ready (x : TinyXml δ ε) (client file : String) (count : σ → Nat) (s : Process σ δ) : Prop where
  context : Reading x file s.context
  onStart : s.app.onStart = prepare (x.loadFile file).2 (clientFound x client file)
  boot    : ∀ r, s.app.boot = some r → Accounts count s.app.onStart r ∧ InOrder s.app.onStart r ∧
    (s.context.config.configDoc = none → r.pc.First s.app.onStart)

theorem returning_eq {item : BootTask} (h : s.app.returning op = some item) : ∃ r, s.app.boot = some r ∧
    ((∃ rest, op = .task .startup .taskReturns ∧ r.pc = .inTask item rest) ∨
      ∃ i, op = .task .startup (.finish i) ∧ r.running[i]? = some item) := by
  unfold App.returning at h
  split at h
  · obtain ⟨r, hr, h⟩ := Option.bind_eq_some_iff.1 h
    split at h
    · rename_i a rest hpc
      cases h
      exact ⟨r, hr, .inl ⟨rest, rfl, hpc⟩⟩
    · cases h
  · obtain ⟨r, hr, h⟩ := Option.bind_eq_some_iff.1 h
    exact ⟨r, hr, .inr ⟨_, rfl, h⟩⟩
  · cases h

/-- The task that returns is one of the four; the first two come in their turn. -/
theorem Ready.returning {item : BootTask} (h : Ready x client file count s) (hitem : s.app.returning op = some item) :
    (item.addr = 0 ∧ item.task = (x.loadFile file).2) ∨
    (item.addr = 1 ∧ item.task = clientFound x client file ∧ s.context.config.configDoc = some (x.loadFile file).1) ∨
    (2 ≤ item.addr ∧ item.task = true) := by
  obtain ⟨r, hr, hplace⟩ := returning_eq hitem
  obtain ⟨haccounts, horder, hfirst⟩ := h.boot r hr
  rw [h.onStart] at haccounts horder hfirst
  have hmem : item ∈ prepare (x.loadFile file).2 (clientFound x client file) := by
    apply haccounts.finished.mem_iff.1
    rcases hplace with ⟨rest, -, hpc⟩ | ⟨i, -, hi⟩
    · simp [hpc, Pc.unfinished]
    · simp [List.mem_of_getElem? hi]
  simp only [prepare, List.mem_cons, List.not_mem_nil, or_false] at hmem
  rcases hmem with rfl | rfl | rfl | rfl
  · exact .inl ⟨rfl, rfl⟩
  · refine .inr (.inl ⟨rfl, rfl, ?_⟩)
    cases hd : s.context.config.configDoc with
    | some doc => rw [h.context.doc doc hd]
    | none =>
      -- it is the first task that has not returned
      rcases hplace with ⟨rest, -, hpc⟩ | ⟨i, -, hi⟩
      · rcases hfirst hd with hp | ⟨a, l, he, hp⟩
        · rw [hpc] at hp
          cases hp
        · rw [hpc] at hp
          cases hp
          simp [prepare] at he
      · have hseq := horder.running _ (List.mem_of_getElem? hi)
        simp [BootTask.sequential] at hseq
  · exact .inr (.inr ⟨Nat.le_refl 2, rfl⟩)
  · exact .inr (.inr ⟨by simp, rfl⟩)

/-- **No task is kept from returning** by a document with a root. -/
theorem Ready.bound_isSome {item : BootTask} {root : ε} (h : Ready x client file count s)
    (hroot : x.rootElement (x.loadFile file).1 = some root) (hitem : s.app.returning op = some item) :
    ∃ c, bound x client item s.context = some (item.task, c) := by
  rcases h.returning hitem with ⟨haddr, htask⟩ | ⟨haddr, htask, hdoc⟩ | ⟨haddr, htask⟩
  · refine ⟨(s.context.initConfig x).2, ?_⟩
    simp [bound, haddr, htask, initConfig, XmlConfig.load, h.context.path]
  · refine ⟨s.context, ?_⟩
    simp [bound, haddr, htask, initClient, XmlConfig.xmlRoot, hdoc, hroot, clientFound]
  · refine ⟨s.context, ?_⟩
    unfold bound
    split
    · omega
    · omega
    · rw [htask]
      rfl
    · rw [htask]
      rfl

/-- Without a document the first task has not returned before the step, and does not return in it. -/
theorem configDoc_none (hs : (ltApp x client wg).step s op t) (hnone : t.context.config.configDoc = none) :
    s.context.config.configDoc = none ∧ ∀ item, s.app.returning op = some item → item.addr ≠ 0 := by
  obtain ⟨-, hret⟩ := hs
  cases hitem : s.app.returning op with
  | none =>
    have hret : t.context = s.context := by simpa [hitem] using hret
    exact ⟨hret ▸ hnone, nofun⟩
  | some item =>
    have hret : bound x client item s.context = some (item.task, t.context) := by simpa [hitem] using hret
    unfold bound at hret
    split at hret
    · have hcontext : (s.context.initConfig x).2 = t.context := congrArg Prod.snd (Option.some.inj hret)
      rw [← hcontext] at hnone
      cases hnone
    · rename_i haddr
      obtain ⟨b, -, he⟩ := Option.map_eq_some_iff.1 hret
      have hcontext : s.context = t.context := congrArg Prod.snd he
      refine ⟨hcontext ▸ hnone, ?_⟩
      rintro _ ⟨⟩
      omega
    · rename_i haddr
      have hcontext : s.context = t.context := congrArg Prod.snd (Option.some.inj hret)
      refine ⟨hcontext ▸ hnone, ?_⟩
      rintro _ ⟨⟩
      omega
    · rename_i haddr _ _
      have hcontext : s.context = t.context := congrArg Prod.snd (Option.some.inj hret)
      refine ⟨hcontext ▸ hnone, ?_⟩
      rintro _ ⟨⟩
      exact haddr

theorem Pc.First.move {a : BootTask} {rest : List BootTask} {line : BootTask → String} {r r' : Runner σ} {m : Move}
    (h : r.pc.First (a :: rest)) (ha : a.excType = .kSequenceType) (hm : runTasks wg line r m = some r')
    (hret : r.pc = .inTask a rest → m ≠ .taskReturns) : r'.pc.First (a :: rest) := by
  have h : r.pc = .launching (a :: rest) ∨ r.pc = .inTask a rest := by
    rcases h with h | ⟨b, l, he, h⟩
    · exact .inl h
    · cases he
      exact .inr h
  cases runTasks_moved hm with
  | looped hpc | released hpc | notified hpc => simp [hpc] at h
  | called hpc =>
    simp only [hpc, Pc.launching.injEq, reduceCtorEq, or_false] at h
    cases h
    exact .inr ⟨a, rest, rfl, rfl⟩
  | posted hpc htype =>
    simp only [hpc, Pc.launching.injEq, reduceCtorEq, or_false] at h
    cases h
    exact absurd ha htype
  | returned hpc =>
    simp only [hpc, Pc.inTask.injEq, reduceCtorEq, false_or] at h hret
    exact absurd rfl (hret h)
  | started | finished =>
    rcases h with h | h
    · exact .inl h
    · exact .inr ⟨a, rest, rfl, h⟩

theorem Ready.move (hwg : wg.Counts count) (h : Ready x client file count s) {r r' : Runner σ} {m : Move}
    (hs : (ltApp x client wg).step s (.task .startup m) t) (hr : s.app.boot = some r) (hm : runBootupTask wg r m = some r') :
    Accounts count s.app.onStart r' ∧ InOrder s.app.onStart r' ∧
      (t.context.config.configDoc = none → r'.pc.First s.app.onStart) := by
  obtain ⟨haccounts, horder, hfirst⟩ := h.boot r hr
  refine ⟨haccounts.move hwg hm, horder.move hm, fun hnone => ?_⟩
  obtain ⟨hbefore, hother⟩ := configDoc_none hs hnone
  have hf := hfirst hbefore
  rw [h.onStart] at hf ⊢
  refine hf.move rfl hm fun hin => ?_
  rintro rfl
  exact hother _ (by simp [App.returning, hr, hin]; rfl) rfl

theorem Ready.step (hwg : wg.Counts count) (h : Ready x client file count s) (hs : (ltApp x client wg).step s op t) :
    Ready x client file count t := by
  have hreading := h.context.step hs
  have hnone := fun hn => (configDoc_none hs hn).1
  obtain ⟨app', context'⟩ := t
  have hsame : ∀ r, s.app.boot = some r → Accounts count s.app.onStart r ∧ InOrder s.app.onStart r ∧
      (context'.config.configDoc = none → r.pc.First s.app.onStart) := by
    intro r hr
    obtain ⟨haccounts, horder, hfirst⟩ := h.boot r hr
    exact ⟨haccounts, horder, fun hn => hfirst (hnone hn)⟩
  cases lts_stepped hs.1 with
  | @spawn p hp =>
    cases p with
    | startup =>
      refine ⟨hreading, h.onStart, fun r hr => ?_⟩
      cases hr
      exact ⟨accounts_new hwg _, inOrder_new wg _, fun _ => .inl rfl⟩
    | shutdown => exact ⟨hreading, h.onStart, hsame⟩
  | test | finish | onStart | ended | onStop | wait | quit | assign => exact ⟨hreading, h.onStart, hsame⟩
  | @task p r r' m hr hm =>
    cases p with
    | startup =>
      refine ⟨hreading, h.onStart, fun q hq => ?_⟩
      cases hq
      exact h.move hwg hs hr hm
    | shutdown => exact ⟨hreading, h.onStart, hsame⟩
  | @notify p r r' hr hm =>
    cases p with
    | startup =>
      refine ⟨hreading, h.onStart, fun q hq => ?_⟩
      cases hq
      exact h.move hwg hs hr hm
    | shutdown => exact ⟨hreading, h.onStart, hsame⟩

theorem ready_start (x : TinyXml δ ε) (client file : String) (count : σ → Nat) :
    Ready x client file count (Process.start x client file) :=
  ⟨⟨rfl, fun _ h => by simp [Process.start] at h⟩, rfl, fun _ h => by simp [Process.start, App.start] at h⟩

end

/-- **A config file without a root** is not answered with the exit of `Run`: `RunBootupTask` never returns, and `Run`
exits only where it has been woken for no reason. With a root no task is kept from returning, and what `RunBootupTask`
returns says whether the file has loaded and `InitClient` has found what it looks for. -/
theorem lt_app_startup (x : TinyXml δ ε) (client file : String) (wg : WaitGroup σ) (count : σ → Nat)
    (hwg : wg.Counts count) (ops : List Op) (s : Process σ δ) (h : (ltApp x client wg).Run (.start x client file) ops s) :
    (x.rootElement (x.loadFile file).1 = none →
      (∀ r, s.app.boot = some r → r.pc ≠ .notifying ∧ r.pc ≠ .returned) ∧ s.app.pc.decision ≠ some true ∧
        (s.app.pc.decision = some false → Op.wait .wake ∈ ops)) ∧
    ∀ root, x.rootElement (x.loadFile file).1 = some root →
      (∀ op t, (lts wg).step s.app op t → ∃ u, (ltApp x client wg).step s op u ∧ u.app = t) ∧
        ∀ r, s.app.boot = some r → r.pc = .returned →
          (r.result = true ↔ (x.loadFile file).2 = true ∧ (x.firstChildElement root client).isSome = true) := by
  constructor
  · intro hroot
    have hb : Blocked x file ops s :=
      h.history (P := Blocked x file) (fun _ _ _ _ hb hst => hb.step hroot hst) (blocked_start x client file)
    refine ⟨fun r hr => (hb.boot r hr).not_settled, ?_⟩
    rcases hb.pc with hpc | ⟨w, hpc, -⟩ | ⟨hpc, hw⟩ <;> rw [hpc]
    · simp [RunPc.decision]
    · simp [RunPc.decision]
    · exact ⟨by simp [RunPc.decision], fun _ => hw⟩
  · intro root hroot
    have hready : Ready x client file count s :=
      h.invariant (fun _ _ _ hr hst => hr.step hwg hst) (ready_start x client file count)
    refine ⟨fun op t hst => ?_, fun r hr hpc => ?_⟩
    · cases hitem : s.app.returning op with
      | none => exact ⟨⟨t, s.context⟩, ⟨hst, by rw [hitem]⟩, rfl⟩
      | some item =>
        obtain ⟨c, hc⟩ := hready.bound_isSome hroot hitem
        exact ⟨⟨t, c⟩, ⟨hst, by rw [hitem]; exact hc⟩, rfl⟩
    · have hres := (hready.boot r hr).1.result (by rw [hpc]; rfl)
      rw [hres, hready.onStart]
      simp [prepare, initCoroPrepare, initAsyncPrepare, clientFound, hroot]

/-- The step, where it can be taken. -/
def tryLtApp (x : TinyXml δ ε) (client : String) (wg : WaitGroup σ) (s : Process σ δ) (op : Op) : Option (Process σ δ) :=
  (step wg s.app op).bind fun app =>
    match s.app.returning op with
    | none => some ⟨app, s.context⟩
    | some item => (bound x client item s.context).bind fun bc => if bc.1 = item.task then some ⟨app, bc.2⟩ else none

theorem tryLtApp_step {x : TinyXml δ ε} {client : String} {wg : WaitGroup σ} (s : Process σ δ) (op : Op) (t : Process σ δ)
    (h : tryLtApp x client wg s op = some t) : (ltApp x client wg).step s op t := by
  obtain ⟨app, happ, h⟩ := Option.bind_eq_some_iff.1 h
  cases hitem : s.app.returning op with
  | none =>
    obtain rfl : ⟨app, s.context⟩ = t := by simpa [hitem] using h
    exact ⟨happ, by rw [hitem]⟩
  | some item =>
    simp only [hitem] at h
    obtain ⟨⟨b, c⟩, hb, h⟩ := Option.bind_eq_some_iff.1 h
    split at h
    · rename_i heq
      cases h
      refine ⟨happ, ?_⟩
      obtain rfl : b = item.task := heq
      rw [hitem]
      exact hb
    · cases h

/-- Nothing loads. -/
def noFiles : TinyXml Unit Unit := ⟨fun _ => ((), false), fun _ => none, fun _ _ => none⟩

/-- Every file loads, and has what `InitClient` looks for. -/
def allFiles : TinyXml Unit Unit := ⟨fun _ => ((), true), fun _ => some (), fun _ _ => some ()⟩

/-- The startup coroutine up to the call of `InitClient`. -/
def toClient : List Op :=
  [.run, .wait .enter, .task .startup .launch, .task .startup .taskReturns, .task .startup .launch]

/-- From there to its end. -/
def fromClient : List Op :=
  [.taskReturns, .launch, .launch, .start 0, .finish 0, .launch, .start 0, .finish 0, .waitReturns, .notify].map
    (.task .startup)

/-- **The process aborts** in `InitClient`, while `Run` waits; with a root it comes past it, and the startup succeeds. -/
theorem lt_app_startup_missing :
    (∃ s : Process Nat Unit, (ltApp noFiles "clients" .counter).Run (.start noFiles "clients" "manifest.xml") toClient s ∧
      (∀ t, ¬ (ltApp noFiles "clients" .counter).step s (.task .startup .taskReturns) t) ∧
      (∀ r, s.app.boot = some r → r.pc ≠ .notifying ∧ r.pc ≠ .returned) ∧ s.app.pc.decision ≠ some true) ∧
    ∃ (s : Process Nat Unit) (r : Runner Nat), (ltApp allFiles "clients" .counter).Run
        (.start allFiles "clients" "manifest.xml") (toClient ++ fromClient) s ∧
      s.app.boot = some r ∧ r.pc = .returned ∧ r.result = true := by
  constructor
  · obtain ⟨s, hr, hitem, hdoc⟩ : ∃ s : Process Nat Unit,
        (ltApp noFiles "clients" .counter).Run (.start noFiles "clients" "manifest.xml") toClient s ∧
        s.app.returning (.task .startup .taskReturns) = some { name := "client", task := false, addr := 1 } ∧
        s.context.config.configDoc = some () :=
      Lts.exists_run_of_exec_imp (P := fun s : Process Nat Unit => s.app.returning (.task .startup .taskReturns) =
        some { name := "client", task := false, addr := 1 } ∧ s.context.config.configDoc = some ()) tryLtApp_step
        (by decide) fun _ _ h => h
    obtain ⟨hboot, hdecision, -⟩ :=
      (lt_app_startup noFiles "clients" "manifest.xml" .counter id WaitGroup.counter_counts _ s hr).1 rfl
    refine ⟨s, hr, fun t hst => ?_, hboot, hdecision⟩
    obtain ⟨-, hret⟩ := hst
    rw [hitem] at hret
    simp [bound, initClient, XmlConfig.xmlRoot, hdoc, noFiles] at hret
  · obtain ⟨s, hr, hpc⟩ : ∃ s : Process Nat Unit, (ltApp allFiles "clients" .counter).Run
        (.start allFiles "clients" "manifest.xml") (toClient ++ fromClient) s ∧
        (s.app.boot.any fun r => decide (r.pc = .returned)) = true :=
      Lts.exists_run_of_exec_imp (P := fun s : Process Nat Unit =>
        (s.app.boot.any fun r => decide (r.pc = .returned)) = true) tryLtApp_step (by decide) fun _ _ h => h
    obtain ⟨r, hboot, hpc⟩ : ∃ r, s.app.boot = some r ∧ r.pc = .returned := by simpa [Option.any_eq_true] using hpc
    obtain ⟨-, hresult⟩ :=
      (lt_app_startup allFiles "clients" "manifest.xml" .counter id WaitGroup.counter_counts _ s hr).2 () rfl
    exact ⟨s, r, hr, hboot, hpc, (hresult r hboot hpc).2 ⟨rfl, rfl⟩⟩

end LtApp.Shell
