import Mathlib.Algebra.Order.Group.Int
import LtApp.Base.Lts
import LtApp.Base.Wheel

/-!
# `RawSampleManager`

| here | there |
| --- | --- |
| `getHashKey`       | `GetHashKey` (`main.cc:38`); `char` is signed, as on x86 |
| `slot`             | the place in `request_count_` a key is counted at (`:25`); `none` where the index is outside |
| `addSampleRequest` | `AddSampleRequest` (`:23`) |
| `System`           | a manager and threads that use it, as the loops of `main` do (`:52`) |
| `Act.fetch`        | a call of `AddSampleRequest` up to its `__sync_fetch_and_add` |
| `Act.test`         | the rest of the call |

The counters are all the calls share, and a call uses its counter once. So the steps of calls in different threads can
come in any order, and nothing is lost by taking all but the fetch as one step. `answers` is history. A call that uses a
place outside of the vector, or divides by zero, has no further step.
-/

namespace LtApp.Sampler

/-- `Vector_Size`. -/
def vectorSize : Int32 := 4 * 1024 * 1024

/-- `GetHashKey`. -/
def getHashKey (uid : List Int8) : Int64 :=
  (uid.foldl (fun result c => result + c.toInt32.toInt64.toUInt64) (0 : UInt64)).toInt64

/-- `int index = uidInt % Vector_Size`. -/
def index (key : List Int8) : Int32 := (getHashKey key % vectorSize.toInt64).toInt32

def slot (key : List Int8) : Option Nat :=
  if 0 ≤ (index key).toInt ∧ (index key).toInt < vectorSize.toInt then some (index key).toInt.toNat else none

inductive Fault
  | outOfBounds | divideError
deriving DecidableEq, Repr

structure RawSampleManager where
  requestCount : Nat → UInt16 := fun _ => 0

/-- `__sync_fetch_and_add`, with what it leaves. -/
def RawSampleManager.fetchAndAdd (i : Nat) (m : RawSampleManager) : UInt16 × RawSampleManager :=
  (m.requestCount i, { requestCount := fun j => if j = i then m.requestCount i + 1 else m.requestCount j })

/-- `x % sample_interval == 0`. -/
def needSample (x : UInt16) (sampleInterval : Int32) : Except Fault Bool :=
  if sampleInterval = 0 then .error .divideError else .ok (Int32.ofNat x.toNat % sampleInterval == 0)

/-- A call with no other in between. -/
def addSampleRequest (key : List Int8) (sampleInterval : Int32) (m : RawSampleManager) :
    Except Fault (Bool × RawSampleManager) :=
  match slot key with
  | none => .error .outOfBounds
  | some i => (needSample (m.fetchAndAdd i).1 sampleInterval).map fun b => (b, (m.fetchAndAdd i).2)

structure Request where
  key            : List Int8
  sampleInterval : Int32
deriving DecidableEq, Repr

structure Thread where
  /-- The calls to come. -/
  calls   : List Request
  /-- The call it is in, and what that has fetched. -/
  fetched : Option (Request × UInt16) := none
deriving DecidableEq, Repr

structure System where
  manager : RawSampleManager := {}
  threads : List Thread
  answers : List (Request × Bool) := []

inductive Act
  | fetch (t : Nat)
  | test (t : Nat)
deriving DecidableEq, Repr

/-- One step; `none` where it cannot be taken. -/
def step (s : System) : Act → Option System
  | .fetch t =>
    match s.threads[t]? with
    | some { calls := r :: rest, fetched := none } => (slot r.key).map fun i =>
      { s with
        manager := (s.manager.fetchAndAdd i).2
        threads := s.threads.set t { calls := rest, fetched := some (r, (s.manager.fetchAndAdd i).1) } }
    | _ => none
  | .test t =>
    match s.threads[t]? with
    | some { calls, fetched := some (r, x) } => (needSample x r.sampleInterval).toOption.map fun b =>
      { s with threads := s.threads.set t { calls }, answers := s.answers ++ [(r, b)] }
    | _ => none

def lts : Lts System Act := ⟨fun s a t => step s a = some t⟩

/-- Each thread makes the calls of its program. -/
def System.start (programs : List (List Request)) : System := { threads := programs.map fun p => { calls := p } }

/-- Everything a step can do. -/
inductive Stepped (s : System) : Act → System → Prop
  | fetched {t i : Nat} {r : Request} {rest : List Request} :
    s.threads[t]? = some { calls := r :: rest, fetched := none } → slot r.key = some i → Stepped s (.fetch t)
      { s with
        manager := (s.manager.fetchAndAdd i).2
        threads := s.threads.set t { calls := rest, fetched := some (r, s.manager.requestCount i) } }
  | tested {t : Nat} {r : Request} {x : UInt16} {calls : List Request} {b : Bool} :
    s.threads[t]? = some { calls, fetched := some (r, x) } → needSample x r.sampleInterval = .ok b →
    Stepped s (.test t) { s with threads := s.threads.set t { calls }, answers := s.answers ++ [(r, b)] }

/-- **Every step is one of the two.** -/
theorem lts_stepped {s t : System} {a : Act} (h : lts.step s a t) : Stepped s a t := by
  have h : step s a = some t := h
  cases a with
  | fetch j =>
    simp only [step] at h
    split at h
    · rename_i r rest hj
      obtain ⟨i, hi, rfl⟩ := Option.map_eq_some_iff.1 h
      exact .fetched hj hi
    · cases h
  | test j =>
    simp only [step] at h
    split at h
    · rename_i calls r x hj
      obtain ⟨b, hb, rfl⟩ := Option.map_eq_some_iff.1 h
      cases hn : needSample x r.sampleInterval with
      | error e => simp [hn, Except.toOption] at hb
      | ok b' =>
        obtain rfl : b' = b := by simpa [hn, Except.toOption] using hb
        exact .tested hj hn
    · cases h

/-! ## Where a key is counted -/

theorem toInt_getHashKey (key : List Int8) : (getHashKey key).toInt = (key.map Int8.toInt).sum.bmod (2 ^ 64) := by
  have hfold : ∀ result : UInt64, (key.foldl (fun result c => result + c.toInt32.toInt64.toUInt64) result).toInt64.toInt =
      (result.toInt64.toInt + (key.map Int8.toInt).sum).bmod (2 ^ 64) := by
    induction key with
    | nil =>
      intro result
      have hself : (result.toInt64 + 0).toInt = result.toInt64.toInt := by simp
      rw [Int64.toInt_add] at hself
      simp only [List.map_nil, List.sum_nil]
      exact hself.symm
    | cons c key ih =>
      intro result
      rw [List.foldl_cons, ih, UInt64.toInt64_add, Int64.toInt64_toUInt64, Int64.toInt_add, Int.bmod_add_bmod]
      simp [Int.add_assoc]
  simpa [getHashKey] using hfold 0

theorem toInt_index (key : List Int8) : (index key).toInt = (getHashKey key).toInt.tmod 4194304 := by
  have hv : vectorSize.toInt64.toInt = 4194304 := rfl
  rw [index, Int64.toInt_toInt32, Int64.toInt_mod, hv]
  have hlt := Int.tmod_lt_of_pos (getHashKey key).toInt (show (0 : Int) < 4194304 by decide)
  have hgt : -4194304 < (getHashKey key).toInt.tmod 4194304 := by
    have hneg := Int.tmod_lt_of_pos (-(getHashKey key).toInt) (show (0 : Int) < 4194304 by decide)
    rw [Int.neg_tmod] at hneg
    omega
  rw [Int.bmod_eq_of_le] <;> omega

/-- **Inside the vector**: the index is one of its places exactly if the sum of the key's `char`s, as an `int64_t`, is
not negative, or is a multiple of the size. -/
theorem slot_isSome_iff (key : List Int8) :
    (slot key).isSome = true ↔ 0 ≤ (key.map Int8.toInt).sum.bmod (2 ^ 64) ∨
      vectorSize.toInt ∣ (key.map Int8.toInt).sum.bmod (2 ^ 64) := by
  have hv : vectorSize.toInt = 4194304 := rfl
  have hlt := Int.tmod_lt_of_pos (getHashKey key).toInt (show (0 : Int) < 4194304 by decide)
  have hslot : (slot key).isSome = true ↔ 0 ≤ (getHashKey key).toInt.tmod 4194304 := by
    rw [slot, hv, toInt_index]
    split <;> simp <;> omega
  rw [hslot, ← toInt_getHashKey, hv]
  generalize (getHashKey key).toInt = u
  constructor
  · intro h
    by_cases hu : 0 ≤ u
    · exact .inl hu
    · refine .inr ?_
      have hneg : u.tmod 4194304 ≤ 0 := by
        have := Int.tmod_nonneg (a := -u) 4194304 (by omega)
        rw [Int.neg_tmod] at this
        omega
      exact Int.dvd_of_tmod_eq_zero (by omega)
  · rintro (hu | hu)
    · exact Int.tmod_nonneg 4194304 hu
    · rw [Int.tmod_eq_zero_of_dvd hu]

/-- The bytes of `é` in UTF-8. -/
example : slot [-61, -87] = none := by decide

/-! ## What is sampled -/

/-- `x % sample_interval == 0`. -/
theorem needSample_eq {k : Int32} (hk : k ≠ 0) (x : UInt16) :
    needSample x k = .ok (decide (k.toInt.natAbs ∣ x.toNat)) := by
  have hx : (Int32.ofNat x.toNat).toInt = x.toNat := by
    apply Int32.toInt_ofNat_of_lt
    have hlt := x.toNat_lt
    omega
  rw [needSample, if_neg hk]
  congr 1
  rw [Bool.eq_iff_iff, beq_iff_eq, decide_eq_true_iff, ← Int32.toInt_inj, Int32.toInt_mod, hx, Int32.toInt_zero,
    ← Int.dvd_iff_tmod_eq_zero, Int.natAbs_dvd_natAbs.symm]
  simp

/-- The thread is in a call that has used the counter. -/
def Thread.using (i : Nat) (th : Thread) : Bool := th.fetched.any fun c => slot c.1.key = some i

/-- The call will find that a sample is needed. -/
def Thread.hit (i : Nat) (k : Int32) (th : Thread) : Bool :=
  th.fetched.any fun c => slot c.1.key = some i ∧ k.toInt.natAbs ∣ c.2.toNat

namespace System

/-- The calls that have used the counter and returned. -/
def answered (s : System) (i : Nat) : Nat := s.answers.countP fun a => slot a.1.key = some i

/-- Those of them that have returned true. -/
def sampled (s : System) (i : Nat) : Nat := s.answers.countP fun a => slot a.1.key = some i ∧ a.2 = true

/-- No thread is in a call. -/
def Quiet (s : System) : Prop := ∀ th ∈ s.threads, th.fetched = none

/-- The calls that have used the counter. -/
def used (s : System) (i : Nat) : Nat := s.answered i + s.threads.countP (·.using i)

end System

/-- All calls that use the counter ask for one in `k`. -/
def Uniform (i : Nat) (k : Int32) (calls : List Request) : Prop :=
  ∀ r ∈ calls, slot r.key = some i → r.sampleInterval = k

/-- What a counter that is asked for one in `k` has been through. -/
structure Counted (i : Nat) (k : Int32) (s : System) : Prop where
  calls   : ∀ th ∈ s.threads, Uniform i k (th.calls ++ (th.fetched.map Prod.fst).toList)
  counter : (s.manager.requestCount i).toNat = s.used i % 65536
  hits    : s.sampled i + s.threads.countP (·.hit i k) = marks 65536 k.toInt.natAbs (s.used i)

theorem countP_set_add {α : Type*} {l : List α} {t : Nat} {a b : α} (h : l[t]? = some a) (p : α → Bool) :
    (l.set t b).countP p + (if p a then 1 else 0) = l.countP p + if p b then 1 else 0 := by
  obtain ⟨ht, rfl⟩ := List.getElem?_eq_some_iff.1 h
  have hle : (if p l[t] then 1 else 0) ≤ l.countP p := by
    split
    · rename_i hp
      exact List.countP_pos_iff.2 ⟨l[t], List.getElem_mem ht, hp⟩
    · omega
  rw [List.countP_set ht]
  omega

section
variable {s t : System} {i : Nat} {k : Int32} {a : Act}

/-- **Every step keeps the count.** -/
theorem Counted.step (hk : k ≠ 0) (h : Counted i k s) (hs : lts.step s a t) : Counted i k t := by
  cases lts_stepped hs with
  | @fetched j i' r rest hj hi =>
    obtain ⟨th, hth⟩ : ∃ th : Thread, th = { calls := rest, fetched := some (r, s.manager.requestCount i') } := ⟨_, rfl⟩
    have hmem := List.mem_of_getElem? hj
    have husing := countP_set_add (b := th) hj fun th => th.using i
    have hhit := countP_set_add (b := th) hj fun th => th.hit i k
    rw [← hth]
    simp only [Thread.using, Thread.hit, hth, Option.any_none, Option.any_some, hi, Option.some.injEq, decide_eq_true_eq,
      Bool.false_eq_true, if_false, Nat.add_zero] at husing hhit
    have hused : System.used { s with
        manager := (s.manager.fetchAndAdd i').2
        threads := s.threads.set j th } i = s.used i + if i' = i then 1 else 0 := by
      simp only [System.used, System.answered, Thread.using, hth, husing]
      omega
    refine ⟨fun th' hth' => ?_, ?_, ?_⟩
    · rcases List.mem_or_eq_of_mem_set hth' with hth' | rfl
      · exact h.calls th' hth'
      · intro q hq
        refine h.calls _ hmem q ?_
        simpa [hth, or_comm] using hq
    · rw [hused]
      by_cases he : i' = i
      · subst he
        have hc := h.counter
        simp only [RawSampleManager.fetchAndAdd, if_true, UInt16.toNat_add, UInt16.toNat_one, hc]
        omega
      · have hne : i ≠ i' := fun h => he h.symm
        simp only [RawSampleManager.fetchAndAdd, if_neg he, if_neg hne, Nat.add_zero]
        exact h.counter
    · rw [hused]
      have hm := h.hits
      by_cases he : i' = i
      · subst he
        simp only [true_and, h.counter] at hhit
        simp only [System.sampled, Thread.hit, hth, hhit, if_true, marks_succ] at hm ⊢
        omega
      · simp only [he, false_and, if_false, Nat.add_zero] at hhit
        simp only [System.sampled, Thread.hit, hth, hhit, if_neg he, Nat.add_zero] at hm ⊢
        exact hm
  | @tested j r x calls b hj hb =>
    have hmem := List.mem_of_getElem? hj
    have husing := countP_set_add (b := { calls := calls }) hj fun th => th.using i
    have hhit := countP_set_add (b := { calls := calls }) hj fun th => th.hit i k
    simp only [Thread.using, Thread.hit, Option.any_none, Option.any_some, decide_eq_true_eq,
      Bool.false_eq_true, if_false, Nat.add_zero] at husing hhit
    have hb' : slot r.key = some i → (b = true ↔ k.toInt.natAbs ∣ x.toNat) := by
      intro hr
      have hint : r.sampleInterval = k := h.calls _ hmem r (by simp) hr
      rw [hint, needSample_eq hk] at hb
      simp [← Except.ok.inj hb]
    have hused : System.used { s with
        threads := s.threads.set j { calls := calls }
        answers := s.answers ++ [(r, b)] } i = s.used i := by
      simp only [System.used, System.answered, Thread.using, List.countP_append, List.countP_singleton, decide_eq_true_eq]
      omega
    refine ⟨fun th' hth' => ?_, ?_, ?_⟩
    · rcases List.mem_or_eq_of_mem_set hth' with hth' | rfl
      · exact h.calls th' hth'
      · intro q hq
        refine h.calls _ hmem q ?_
        rcases List.mem_append.1 hq with hq | hq
        · exact List.mem_append_left _ hq
        · cases hq
    · rw [hused]
      exact h.counter
    · rw [hused, ← h.hits]
      simp only [System.sampled, Thread.hit, List.countP_append, List.countP_singleton, decide_eq_true_eq]
      by_cases hr : slot r.key = some i
      · simp only [hr, true_and, hb' hr] at hhit ⊢
        omega
      · simp only [hr, false_and, if_false, Nat.add_zero] at hhit ⊢
        omega

theorem counted_start {programs : List (List Request)} (h : ∀ p ∈ programs, Uniform i k p) :
    Counted i k (System.start programs) := by
  have hzero : ∀ p : Thread → Bool, (∀ calls, p { calls } = false) → (System.start programs).threads.countP p = 0 := by
    intro p hp
    rw [List.countP_eq_zero]
    rintro th hth
    obtain ⟨q, -, rfl⟩ := List.mem_map.1 hth
    simp [hp]
  have hused : (System.start programs).used i = 0 := by
    have hu := hzero (·.using i) fun _ => rfl
    rw [System.used, hu]
    rfl
  refine ⟨fun th hth => ?_, ?_, ?_⟩
  · obtain ⟨p, hp, rfl⟩ := List.mem_map.1 hth
    simpa using h p hp
  · rw [hused]
    rfl
  · rw [hused, hzero _ fun _ => rfl]
    rfl

theorem Counted.quiet (h : Counted i k s) (hq : s.Quiet) : s.sampled i = marks 65536 k.toInt.natAbs (s.answered i) := by
  have hzero : ∀ p : Thread → Bool, (∀ th : Thread, th.fetched = none → p th = false) → s.threads.countP p = 0 := by
    intro p hp
    rw [List.countP_eq_zero]
    intro th hth
    simp [hp th (hq th hth)]
  have husing : s.threads.countP (·.using i) = 0 := hzero _ fun th hth => by simp [Thread.using, hth]
  have hhit : s.threads.countP (·.hit i k) = 0 := hzero _ fun th hth => by simp [Thread.hit, hth]
  have hm := h.hits
  rwa [System.used, husing, hhit] at hm

/-- One thread after the other would be told the same. -/
theorem sampled_eq_marks {programs : List (List Request)} {acts : List Act} (hk : k ≠ 0)
    (h : lts.Run (System.start programs) acts s) (hq : s.Quiet) (hu : ∀ p ∈ programs, Uniform i k p) :
    s.sampled i = marks 65536 k.toInt.natAbs (s.answered i) := by
  have hc : Counted i k s := h.invariant (fun _ _ _ hc hst => hc.step hk hst) (counted_start hu)
  exact hc.quiet hq

/-- **What is sampled.** However the calls of the threads come in between each other: if all that use a counter ask for
one in `k`, then what they are told depends on nothing but their number, and begins anew every 65536 calls. -/
theorem sampled_count (programs : List (List Request)) (acts : List Act) (s : System)
    (h : lts.Run (System.start programs) acts s) (hq : s.Quiet) (i : Nat) (k : Int32) (hk : k ≠ 0)
    (hu : ∀ p ∈ programs, Uniform i k p) :
    s.sampled i = s.answered i / 65536 * (65536 ⌈/⌉ k.toInt.natAbs) + s.answered i % 65536 ⌈/⌉ k.toInt.natAbs := by
  have hpos : 0 < k.toInt.natAbs := Int.natAbs_pos.2 fun h0 => hk (Int32.toInt_inj.1 h0)
  rw [sampled_eq_marks hk h hq hu, marks_eq hpos (by decide)]

end

/-- Two threads ask for one in two, at the same time. -/
def atOnce : List (List Request) := [[⟨[97, 98, 99], 2⟩], [⟨[97, 98, 99], 2⟩]]

theorem sampled_count_atOnce : ∃ s, lts.Run (System.start atOnce) [.fetch 0, .fetch 1, .test 1, .test 0] s ∧
    s.sampled 294 = 2 / 65536 * ((65536 : ℕ) ⌈/⌉ (2 : ℕ)) + (2 % 65536 : ℕ) ⌈/⌉ (2 : ℕ) := by
  obtain ⟨s, hr, hth, hn⟩ : ∃ s, lts.Run (System.start atOnce) [.fetch 0, .fetch 1, .test 1, .test 0] s ∧
      s.threads = [{ calls := [] }, { calls := [] }] ∧ s.answered 294 = 2 :=
    Lts.exists_run_of_exec_imp (P := fun s : System => s.threads = [{ calls := [] }, { calls := [] }] ∧
      s.answered 294 = 2) (fun _ _ _ h => h) (by decide) fun _ _ h => h
  have hall := sampled_count atOnce _ s hr (by simp [System.Quiet, hth]) 294 2 (by decide)
    (by simp [atOnce, Uniform])
  rw [hn] at hall
  exact ⟨s, hr, hall⟩

/-! ## One in `k` -/

section
variable {s : System} {t : Nat}

/-- A call with no other in between. -/
theorem run_call {r : Request} {rest : List Request} {b : Bool} {m : RawSampleManager}
    (hr : s.threads[t]? = some { calls := r :: rest })
    (h : addSampleRequest r.key r.sampleInterval s.manager = .ok (b, m)) :
    lts.Run s [.fetch t, .test t]
      { manager := m, threads := s.threads.set t { calls := rest }, answers := s.answers ++ [(r, b)] } := by
  unfold addSampleRequest at h
  cases hi : slot r.key with
  | none => simp [hi] at h
  | some i =>
    simp only [hi] at h
    cases hn : needSample (s.manager.fetchAndAdd i).1 r.sampleInterval with
    | error e => simp [hn, Except.map] at h
    | ok b' =>
      simp only [hn, Except.map, Except.ok.injEq, Prod.mk.injEq] at h
      obtain ⟨rfl, rfl⟩ := h
      obtain ⟨ht, -⟩ := List.getElem?_eq_some_iff.1 hr
      have hfetch : step s (.fetch t) = some { s with
          manager := (s.manager.fetchAndAdd i).2
          threads := s.threads.set t { calls := rest, fetched := some (r, (s.manager.fetchAndAdd i).1) } } := by
        simp [step, hr, hi]
      refine .cons hfetch (.single ?_)
      show step _ (.test t) = some _
      simp [step, ht, hn, Except.toOption]

/-- A thread can make its calls, if each uses a place of the vector and asks for one in some number. -/
theorem exists_run {calls : List Request} (hs : s.threads = [{ calls }])
    (h : ∀ r ∈ calls, (slot r.key).isSome = true ∧ r.sampleInterval ≠ 0) :
    ∃ acts u, lts.Run s acts u ∧ u.threads = [{ calls := [] }] ∧ u.answers.map Prod.fst = s.answers.map Prod.fst ++ calls := by
  induction calls generalizing s with
  | nil => exact ⟨[], s, .nil s, hs, by simp⟩
  | cons r rest ih =>
    obtain ⟨⟨hi, hk⟩, hrest⟩ := List.forall_mem_cons.1 h
    obtain ⟨i, hi⟩ := Option.isSome_iff_exists.1 hi
    obtain ⟨b, m, hcall⟩ : ∃ b m, addSampleRequest r.key r.sampleInterval s.manager = .ok (b, m) := by
      simp [addSampleRequest, hi, needSample_eq hk, Except.map]
    have hfirst : s.threads[0]? = some { calls := r :: rest } := by simp [hs]
    have hrun := run_call hfirst hcall
    obtain ⟨acts, u, hr, hu, ha⟩ := ih (s := ⟨m, s.threads.set 0 { calls := rest }, s.answers ++ [(r, b)]⟩)
      (by simp [hs]) hrest
    exact ⟨_, u, hrun.append hr, hu, by simp [ha]⟩

end

/-- **One call in `k` is sampled** at every counter, in every run, exactly if `k` divides 65536. -/
theorem rate_exact_iff (k : Int32) (hk : k ≠ 0) :
    (∀ programs acts s, lts.Run (System.start programs) acts s → s.Quiet → ∀ i, (∀ p ∈ programs, Uniform i k p) →
      s.sampled i = s.answered i ⌈/⌉ k.toInt.natAbs) ↔ k.toInt.natAbs ∣ 65536 := by
  have hpos : 0 < k.toInt.natAbs := Int.natAbs_pos.2 fun h0 => hk (Int32.toInt_inj.1 h0)
  constructor
  · intro h
    refine (marks_exact_iff hpos).1 fun n => ?_
    -- one thread that makes `n` calls
    have hslot : slot [97] = some 97 := by decide
    have hgood : ∀ r ∈ List.replicate n (⟨[97], k⟩ : Request), (slot r.key).isSome = true ∧ r.sampleInterval ≠ 0 := by
      intro r hr
      rw [List.eq_of_mem_replicate hr]
      exact ⟨by simp [hslot], hk⟩
    obtain ⟨acts, s, hr, hth, ha⟩ := exists_run (s := System.start [List.replicate n ⟨[97], k⟩]) rfl hgood
    have hq : s.Quiet := by simp [System.Quiet, hth]
    have hu : ∀ p ∈ [List.replicate n (⟨[97], k⟩ : Request)], Uniform 97 k p := by
      intro p hp r hr hi
      rw [List.mem_singleton.1 hp] at hr
      rw [List.eq_of_mem_replicate hr]
    have hn : s.answered 97 = n := by
      have hcount : s.answered 97 = (s.answers.map Prod.fst).countP fun r => slot r.key = some 97 := by
        rw [List.countP_map]
        rfl
      rw [hcount, ha]
      simp [System.start, List.countP_replicate, hslot]
    have hexact := h _ acts s hr hq 97 hu
    have hmarks := sampled_eq_marks hk hr hq hu
    rw [hexact, hn] at hmarks
    exact hmarks.symm
  · intro hd programs acts s hr hq i hu
    rw [sampled_eq_marks hk hr hq hu]
    exact marks_of_dvd hpos hd _

/-- `main` asks for one in 1000. -/
theorem rate_exact_thousand : ¬ ∀ programs acts s, lts.Run (System.start programs) acts s → s.Quiet → ∀ i,
    (∀ p ∈ programs, Uniform i 1000 p) → s.sampled i = s.answered i ⌈/⌉ (1000 : Int32).toInt.natAbs := by
  intro h
  have hd := (rate_exact_iff 1000 (by decide)).1 h
  revert hd
  decide

end LtApp.Sampler
