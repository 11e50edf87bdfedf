import Mathlib.Algebra.GroupWithZero.Nat
import Mathlib.Data.List.Basic
import LtApp.Base.Lts
import LtApp.Base.Measure
import LtApp.Base.Monitor
import LtApp.Etcd.CallContext

/-!
# `LockContext` against `ResumeContext`

One call of `LockContext`, in a coroutine, and any number of calls of `ResumeContext`, each on a thread of its own, one
atomic step at a time. Elsewhere what happens under `mu_` is one step; here the lock is taken and given back.

| here | there |
| --- | --- |
| `Locking`, `lockNext` | `LockContext` (`call_context.cc:19`) |
| `Completing`, `resume` | `ResumeContext` (`call_context.cc:8`) |
| `holder` | `mu_`, with its holder (`call_context.h:69`) |
| `Suspended` | the caller that yields exactly when `LockContext` returns false (`keepalive_ctx.cc:41`) |

`LockContext` installs the resumer before it reads `done_`, `ResumeContext` stores `done_` before it looks for the
resumer: whoever comes second sees the other.
-/

namespace LtApp.Etcd

/-- The next atomic step of `LockContext`. -/
inductive Locking
  | acquire
  | install
  | release
  /-- The read of `done_`. -/
  | load
  | returned (done : Bool)
deriving DecidableEq, Repr

def Locking.over : Locking → Bool
  | .returned _ => true
  | .acquire | .install | .release | .load => false

/-- The next atomic step of `ResumeContext`. -/
inductive Completing
  | storeSuccess
  | storeDone
  | acquire
  | callResumer
  | release
  | returned
deriving DecidableEq, Repr

/-- The steps left to `LockContext`. -/
def Locking.left : Locking → Nat
  | .acquire => 4
  | .install => 3
  | .release => 2
  | .load => 1
  | .returned _ => 0

/-- The steps left to `ResumeContext`. -/
def Completing.left : Completing → Nat
  | .storeSuccess => 5
  | .storeDone => 4
  | .acquire => 3
  | .callResumer => 2
  | .release => 1
  | .returned => 0

/-- A call of `ResumeContext`. -/
structure Completion where
  ok   : Bool
  next : Completing := .storeSuccess
deriving DecidableEq, Repr

/-- Under `mu_`. -/
def Locking.Inside (l : Locking) : Prop := l = .install ∨ l = .release

/-- Under `mu_`. -/
def Completing.Inside (n : Completing) : Prop := n = .callResumer ∨ n = .release

/-- The resumer has been looked for. -/
def Completing.Through (n : Completing) : Prop := n = .release ∨ n = .returned

inductive Holder
  | locker
  | completion (i : Nat)
deriving DecidableEq, Repr

/-- What is done under `mu_`. -/
inductive Section (ρ : Type)
  | installed
  /-- The resumer the call finds, and calls if there is one. -/
  | called (i : Nat) (found : Option ρ)
deriving DecidableEq, Repr

structure Rendezvous (ρ : Type) where
  call        : CallContext ρ := {}
  holder      : Option Holder := none
  locking     : Locking := .acquire
  completions : List Completion := []
  /-- History, newest first. -/
  log         : List (Section ρ) := []
deriving DecidableEq, Repr

namespace Rendezvous

variable {ρ : Type}

inductive Act
  /-- The next step of `LockContext`. -/
  | lock
  /-- `ResumeContext` is called. -/
  | complete (ok : Bool)
  /-- The next step of a call of it. -/
  | resume (i : Nat)
deriving DecidableEq, Repr

@[simps] def setNext (i : Nat) (c : Completion) (n : Completing) (s : Rendezvous ρ) : Rendezvous ρ :=
  { s with completions := s.completions.set i { c with next := n } }

def lockNext (r : ρ) (s : Rendezvous ρ) : Option (Rendezvous ρ) :=
  match s.locking with
  | .acquire => if s.holder = none then some { s with holder := some .locker, locking := .install } else none
  | .install => some { s with call := s.call.lockContext r, locking := .release, log := .installed :: s.log }
  | .release => some { s with holder := none, locking := .load }
  | .load => some { s with locking := .returned s.call.done }
  | .returned _ => none

def resumeNext (i : Nat) (c : Completion) (s : Rendezvous ρ) : Option (Rendezvous ρ) :=
  match c.next with
  | .storeSuccess => some { setNext i c .storeDone s with call := s.call.storeSuccess c.ok }
  | .storeDone => some { setNext i c .acquire s with call := s.call.storeDone }
  | .acquire => if s.holder = none then some { setNext i c .callResumer s with holder := some (.completion i) } else none
  | .callResumer => some { setNext i c .release s with log := .called i s.call.resumer :: s.log }
  | .release => some { setNext i c .returned s with holder := none }
  | .returned => none

def resume (i : Nat) (s : Rendezvous ρ) : Option (Rendezvous ρ) :=
  s.completions[i]?.bind fun c => s.resumeNext i c

/-- A step, where `r` resumes the caller of `LockContext`. -/
def step (r : ρ) (s : Rendezvous ρ) : Act → Option (Rendezvous ρ)
  | .lock => s.lockNext r
  | .complete ok => some { s with completions := s.completions ++ [{ ok }] }
  | .resume i => s.resume i

def lts (r : ρ) : Lts (Rendezvous ρ) Act := ⟨fun s a s' => step r s a = some s'⟩

/-- The caller of `LockContext` has yielded, and nothing has called its resumer. -/
def Suspended (r : ρ) (s : Rendezvous ρ) : Prop :=
  s.locking = .returned false ∧ ∀ i, .called i (some r) ∉ s.log

/-! ## The cases of a step -/

/-- Everything a step of `ResumeContext` can do. -/
inductive Resumed (i : Nat) (c : Completion) (s : Rendezvous ρ) : Rendezvous ρ → Prop
  | success : c.next = .storeSuccess → Resumed i c s { setNext i c .storeDone s with call := s.call.storeSuccess c.ok }
  | done : c.next = .storeDone → Resumed i c s { setNext i c .acquire s with call := s.call.storeDone }
  | acquired : c.next = .acquire → s.holder = none →
    Resumed i c s { setNext i c .callResumer s with holder := some (.completion i) }
  | called : c.next = .callResumer → Resumed i c s { setNext i c .release s with log := .called i s.call.resumer :: s.log }
  | released : c.next = .release → Resumed i c s { setNext i c .returned s with holder := none }

/-- Everything a step can do. -/
inductive Stepped (r : ρ) (s : Rendezvous ρ) : Act → Rendezvous ρ → Prop
  | acquired : s.locking = .acquire → s.holder = none →
    Stepped r s .lock { s with holder := some .locker, locking := .install }
  | installed : s.locking = .install →
    Stepped r s .lock { s with call := s.call.lockContext r, locking := .release, log := .installed :: s.log }
  | released : s.locking = .release → Stepped r s .lock { s with holder := none, locking := .load }
  | loaded : s.locking = .load → Stepped r s .lock { s with locking := .returned s.call.done }
  | begun {ok} : Stepped r s (.complete ok) { s with completions := s.completions ++ [{ ok }] }
  | resumed {i c s'} : s.completions[i]? = some c → Resumed i c s s' → Stepped r s (.resume i) s'

theorem resumeNext_resumed {i : Nat} {c : Completion} {s s' : Rendezvous ρ} (h : s.resumeNext i c = some s') :
    Resumed i c s s' := by
  unfold resumeNext at h
  split at h
  · exact Option.some.inj h ▸ .success ‹_›
  · exact Option.some.inj h ▸ .done ‹_›
  · split at h
    · exact Option.some.inj h ▸ .acquired ‹_› ‹_›
    · cases h
  · exact Option.some.inj h ▸ .called ‹_›
  · exact Option.some.inj h ▸ .released ‹_›
  · cases h

theorem step_stepped {r : ρ} {s s' : Rendezvous ρ} {a : Act} (h : step r s a = some s') : Stepped r s a s' := by
  cases a with
  | lock =>
    simp only [step, lockNext] at h
    split at h
    · split at h
      · exact Option.some.inj h ▸ .acquired ‹_› ‹_›
      · cases h
    · exact Option.some.inj h ▸ .installed ‹_›
    · exact Option.some.inj h ▸ .released ‹_›
    · exact Option.some.inj h ▸ .loaded ‹_›
    · cases h
  | complete ok => exact Option.some.inj h ▸ .begun
  | resume i =>
    obtain ⟨c, hc, hs⟩ := Option.bind_eq_some_iff.1 h
    exact .resumed hc (resumeNext_resumed hs)

/-! ## Calls of `ResumeContext` one by one -/

/-- The next step of the `i`-th call is one with `Q`. -/
def At (i : Nat) (Q : Completing → Prop) (s : Rendezvous ρ) : Prop := ∃ c, s.completions[i]? = some c ∧ Q c.next

section
variable {s : Rendezvous ρ} {i : Nat} {c : Completion} {n : Completing} {Q : Completing → Prop}

theorem setNext_get (hc : s.completions[i]? = some c) (j : Nat) :
    (s.setNext i c n).completions[j]? = if j = i then some { c with next := n } else s.completions[j]? := by
  have hlt : i < s.completions.length := (List.getElem?_eq_some_iff.1 hc).1
  by_cases hj : j = i
  · subst hj
    simp [hlt]
  · simp [hj, Ne.symm hj]

theorem setNext_at (hc : s.completions[i]? = some c) (j : Nat) :
    (s.setNext i c n).At j Q ↔ if j = i then Q n else s.At j Q := by
  unfold At
  rw [setNext_get hc]
  by_cases hj : j = i <;> simp [hj]

/-- A step that changes nothing about `Q`. -/
theorem setNext_at_same (hc : s.completions[i]? = some c) (hn : Q n ↔ Q c.next) (j : Nat) :
    (s.setNext i c n).At j Q ↔ s.At j Q := by
  rw [setNext_at hc]
  split
  · rename_i hj
    subst hj
    simp [At, hc, hn]
  · rfl

theorem complete_at {ok : Bool} (hQ : ¬ Q .storeSuccess) (j : Nat) :
    At j Q { s with completions := s.completions ++ [{ ok }] } ↔ s.At j Q := by
  unfold At
  rw [List.getElem?_append]
  split
  · rfl
  · rename_i hj
    rw [List.getElem?_eq_none (Nat.le_of_not_lt hj)]
    refine iff_of_false ?_ (by simp)
    rintro ⟨d, hd, hq⟩
    obtain rfl : d = { ok } := by simpa using List.mem_of_getElem? hd
    exact hQ hq

end

/-! ## What a step leaves alone -/

section
variable {r : ρ} {s s' : Rendezvous ρ} {a : Act}

/-- `LockContext` reads `done_` and does not change it. -/
theorem lock_keeps (h : (lts r).step s .lock s') : s'.completions = s.completions ∧ s'.call.done = s.call.done ∧
    (s'.locking.over = true → s'.locking = .returned s.call.done) := by
  cases step_stepped h with
  | acquired | installed | released => exact ⟨rfl, rfl, nofun⟩
  | loaded => exact ⟨rfl, rfl, fun _ => rfl⟩

theorem resume_keeps {i : Nat} (h : (lts r).step s (.resume i) s') :
    s'.locking = s.locking ∧ s'.completions.length = s.completions.length := by
  cases step_stepped h with
  | resumed hc hr => cases hr <;> exact ⟨rfl, by simp⟩

theorem log_suffix (h : (lts r).step s a s') : s.log <:+ s'.log := by
  cases step_stepped h with
  | acquired | released | loaded | begun => exact List.suffix_rfl
  | installed => exact List.suffix_cons _ _
  | resumed hc hr =>
    cases hr with
    | success | done | acquired | released => exact List.suffix_rfl
    | called => exact List.suffix_cons _ _

end

/-! ## Who comes second sees the other -/

/-- A locked section of `ResumeContext` finds the resumer once it is installed, and nothing before. -/
def sections (r : ρ) : Monitor (Section ρ) Bool where
  init := false
  next m e :=
    match e with
    | .installed => true
    | .called _ _ => m
  Allows m e := ∀ i found, e = .called i found → found = if m = true then some r else none

theorem after_sections (r : ρ) (l : List (Section ρ)) : (sections r).after l = true ↔ .installed ∈ l := by
  induction l with
  | nil => simp [Monitor.after, sections]
  | cons e l ih => cases e <;> simp_all [Monitor.after, sections]

/-- The locked sections are logged. -/
def Logged (s : Rendezvous ρ) : Prop := ∀ i, (∃ found, .called i found ∈ s.log) ↔ s.At i Completing.Through

/-- Before `done_` is set no call of `ResumeContext` has come to `mu_`. -/
def Unset (s : Rendezvous ρ) : Prop :=
  s.call.done = false → ∀ c ∈ s.completions, c.next = .storeSuccess ∨ c.next = .storeDone

structure Ordered (r : ρ) (s : Rendezvous ρ) : Prop where
  own     : ∀ x, s.call.resumer = some x → x = r
  stands  : (sections r).Stands s.log s.call.resumer.isSome
  install : s.call.resumer = none ↔ s.locking = .acquire ∨ s.locking = .install
  /-- If `done_` was not set when it was read, nobody has come before the installation. -/
  late    : s.locking = .returned false → ∀ i found, .called i found ∈ s.log → found = some r

section
variable {r : ρ} {s s' : Rendezvous ρ} {a : Act} {i : Nat}

theorem step_logged (hs : Logged s) (h : (lts r).step s a s') : Logged s' := by
  cases step_stepped h with
  | acquired | released | loaded => exact hs
  | installed =>
    intro j
    show (∃ found, _ ∈ _ :: _) ↔ s.At j Completing.Through
    simpa using hs j
  | begun => exact fun j => (hs j).trans (complete_at (by simp [Completing.Through]) j).symm
  | @resumed i c s' hc hr =>
    cases hr with
    | success hn | done hn | acquired hn | released hn =>
      exact fun j => (hs j).trans (setNext_at_same hc (by simp [Completing.Through, hn]) j).symm
    | called hn =>
      intro j
      show (∃ found, _ ∈ _ :: _) ↔ (s.setNext i c .release).At j Completing.Through
      rw [setNext_at hc]
      by_cases hj : j = i
      · subst hj
        simp [Completing.Through]
      · simpa [hj] using hs j

theorem step_unset (hs : Unset s) (h : (lts r).step s a s') : Unset s' := by
  cases step_stepped h with
  | acquired | installed | released | loaded => exact hs
  | @begun ok =>
    intro hd d hmem
    rcases List.mem_append.1 hmem with hmem | hmem
    · exact hs hd d hmem
    · obtain rfl : d = { ok } := by simpa using hmem
      exact .inl rfl
  | @resumed i c s' hc hr =>
    have hmem : c ∈ s.completions := List.mem_of_getElem? hc
    cases hr with
    | success hn =>
      intro hd d hd'
      rcases List.mem_or_eq_of_mem_set hd' with hd' | rfl
      · exact hs hd d hd'
      · exact .inr rfl
    | done hn => exact nofun
    | acquired hn | called hn | released hn =>
      intro hd
      have := hs hd c hmem
      simp [hn] at this

/-- Nobody has been through the locked section while `done_` is not set. -/
theorem Unset.not_called (hs : Unset s) (hl : Logged s) (hd : s.call.done = false) {found : Option ρ} :
    .called i found ∉ s.log := by
  intro hmem
  obtain ⟨c, hc, ht⟩ := (hl i).1 ⟨found, hmem⟩
  have hbefore := hs hd c (List.mem_of_getElem? hc)
  rcases ht with hn | hn <;> simp [hn] at hbefore

theorem Ordered.found (hs : Ordered r s) : s.call.resumer = if s.call.resumer.isSome = true then some r else none := by
  cases hr : s.call.resumer with
  | none => rfl
  | some x =>
    obtain rfl := hs.own x hr
    rfl

/-- Once `LockContext` has returned the resumer is there. -/
theorem Ordered.resumer_of_returned (hs : Ordered r s) {d : Bool} (hl : s.locking = .returned d) :
    s.call.resumer = some r := by
  cases hr : s.call.resumer with
  | none =>
    have hat := hs.install.1 hr
    simp [hl] at hat
  | some x => rw [hs.own x hr]

theorem step_ordered (hs : Ordered r s) (hu : Unset s) (hl : Logged s) (h : (lts r).step s a s') : Ordered r s' := by
  cases step_stepped h with
  | acquired hlk => exact ⟨hs.own, hs.stands, by simp [hs.install, hlk], nofun⟩
  | installed hlk =>
    refine ⟨fun x hx => (Option.some.inj hx).symm, ?_, by simp, nofun⟩
    exact hs.stands.cons nofun
  | released hlk => exact ⟨hs.own, hs.stands, by simp [hs.install, hlk], nofun⟩
  | loaded hlk =>
    refine ⟨hs.own, hs.stands, by simp [hs.install, hlk], fun hd i found hmem => ?_⟩
    -- nobody has stored `done_`, so nobody has been under `mu_` either
    have hd : s.call.done = false := by simpa using hd
    exact absurd hmem (hu.not_called hl hd)
  | begun => exact ⟨hs.own, hs.stands, hs.install, hs.late⟩
  | @resumed i c s' hc hr =>
    cases hr with
    | success | done | acquired | released => exact ⟨hs.own, hs.stands, hs.install, hs.late⟩
    | called hn =>
      refine ⟨hs.own, hs.stands.cons ?_, hs.install, fun hret j found hmem => ?_⟩
      · intro j found he
        obtain ⟨-, rfl⟩ : i = j ∧ s.call.resumer = found := by simpa using he
        exact hs.found
      · rcases List.mem_cons.1 hmem with he | hmem
        · obtain ⟨-, rfl⟩ : j = i ∧ found = s.call.resumer := by simpa using he
          exact hs.resumer_of_returned hret
        · exact hs.late hret j found hmem

/-! ## Nobody waits for `mu_` for ever -/

/-- Who is under `mu_` holds it. -/
structure Excluded (s : Rendezvous ρ) : Prop where
  locker     : s.holder = some .locker ↔ s.locking.Inside
  completion : ∀ i, s.holder = some (.completion i) ↔ s.At i Completing.Inside

theorem Excluded.not_inside (hs : Excluded s) (hh : s.holder ≠ some (.completion i)) : ¬ s.At i Completing.Inside :=
  fun hi => hh ((hs.completion i).2 hi)

theorem step_excluded (hs : Excluded s) (h : (lts r).step s a s') : Excluded s' := by
  cases step_stepped h with
  | acquired hlk hh =>
    exact ⟨by simp [Locking.Inside], fun j => iff_of_false nofun (hs.not_inside (by simp [hh]))⟩
  | installed hlk =>
    have hh : s.holder = some .locker := hs.locker.2 (.inl hlk)
    exact ⟨by simp [hh, Locking.Inside], hs.completion⟩
  | released hlk =>
    have hh : s.holder = some .locker := hs.locker.2 (.inr hlk)
    exact ⟨by simp [Locking.Inside], fun j => iff_of_false nofun (hs.not_inside (by simp [hh]))⟩
  | loaded hlk =>
    refine ⟨?_, hs.completion⟩
    rw [hs.locker, hlk]
    simp [Locking.Inside]
  | begun => exact ⟨hs.locker, fun j => (hs.completion j).trans (complete_at (by simp [Completing.Inside]) j).symm⟩
  | @resumed i c s' hc hr =>
    cases hr with
    | success hn | done hn | called hn =>
      exact ⟨hs.locker, fun j => (hs.completion j).trans (setNext_at_same hc (by simp [Completing.Inside, hn]) j).symm⟩
    | acquired hn hh =>
      refine ⟨by simpa [hh] using hs.locker, fun j => ?_⟩
      show some (Holder.completion i) = _ ↔ (s.setNext i c .callResumer).At j Completing.Inside
      rw [setNext_at hc]
      by_cases hj : j = i
      · simp [hj, Completing.Inside]
      · simpa [hj, Ne.symm hj, hh] using hs.completion j
    | released hn =>
      have hh : s.holder = some (.completion i) := (hs.completion i).2 ⟨c, hc, .inr hn⟩
      refine ⟨by simpa [hh] using hs.locker, fun j => ?_⟩
      show none = _ ↔ (s.setNext i c .returned).At j Completing.Inside
      rw [setNext_at hc]
      by_cases hj : j = i
      · simp [hj, Completing.Inside]
      · simpa [hj, Ne.symm hj, hh] using hs.completion j

theorem Excluded.free (hs : Excluded s) (hl : ¬ s.locking.Inside) (hc : ∀ i, ¬ s.At i Completing.Inside) :
    s.holder = none := by
  cases hh : s.holder with
  | none => rfl
  | some p =>
    cases p with
    | locker => exact absurd (hs.locker.1 hh) hl
    | completion i => exact absurd ((hs.completion i).1 hh) (hc i)

theorem lock_enabled (hh : s.locking = .acquire → s.holder = none) (hl : ∀ d, s.locking ≠ .returned d) :
    ∃ s', (lts r).step s .lock s' := by
  cases hlk : s.locking with
  | returned d => exact absurd hlk (hl d)
  | acquire => exact ⟨{ s with holder := some .locker, locking := .install }, by simp [lts, step, lockNext, hlk, hh hlk]⟩
  | _ => simp [lts, step, lockNext, hlk]

theorem resume_enabled {c : Completion} (hc : s.completions[i]? = some c) (hh : c.next = .acquire → s.holder = none)
    (hn : c.next ≠ .returned) : ∃ s', (lts r).step s (.resume i) s' := by
  cases hnext : c.next with
  | returned => exact absurd hnext hn
  | acquire => simp [lts, step, resume, resumeNext, hc, hnext, hh hnext]
  | _ => simp [lts, step, resume, resumeNext, hc, hnext]

/-- All calls have finished. -/
def Finished (s : Rendezvous ρ) : Prop :=
  (∃ d, s.locking = .returned d) ∧ ∀ c ∈ s.completions, c.next = .returned

/-- Until all calls have finished one of them has a step it can make. -/
theorem Excluded.progress (hs : Excluded s) (hf : ¬ Finished s) :
    (∃ s', (lts r).step s .lock s') ∨ ∃ i s', (lts r).step s (.resume i) s' := by
  cases hh : s.holder with
  | none =>
    by_cases hl : ∃ d, s.locking = .returned d
    · obtain ⟨c, hc, hn⟩ : ∃ c ∈ s.completions, c.next ≠ .returned := by simpa [Finished, hl] using hf
      obtain ⟨i, hi⟩ := List.getElem?_of_mem hc
      exact .inr ⟨i, resume_enabled hi (fun _ => hh) hn⟩
    · exact .inl (lock_enabled (fun _ => hh) (not_exists.1 hl))
  | some p =>
    cases p with
    | locker =>
      have hin := hs.locker.1 hh
      refine .inl (lock_enabled (fun hl => ?_) fun d hl => ?_) <;> simp [Locking.Inside, hl] at hin
    | completion i =>
      obtain ⟨c, hc, hin⟩ := (hs.completion i).1 hh
      refine .inr ⟨i, resume_enabled hc (fun hn => ?_) fun hn => ?_⟩ <;> simp [Completing.Inside, hn] at hin

end

/-! ## All calls come to their end -/

/-- The steps left to all calls. -/
def work (s : Rendezvous ρ) : Nat := s.locking.left + (s.completions.map (·.next.left)).sum

section
variable {r : ρ} {s s' : Rendezvous ρ}

theorem sum_set_lt {n : Completing} {c : Completion} {l : List Completion} {i : Nat} (hc : l[i]? = some c)
    (hn : n.left < c.next.left) : ((l.set i { c with next := n }).map (·.next.left)).sum < (l.map (·.next.left)).sum := by
  have hsum := sum_map_set (·.next.left) (y := { c with next := n }) hc
  simp only at hsum
  omega

theorem work_lock (h : (lts r).step s .lock s') : s'.work < s.work := by
  cases step_stepped h with
  | acquired hl | installed hl | released hl | loaded hl => simp [work, hl, Locking.left]

theorem work_complete {ok : Bool} (h : (lts r).step s (.complete ok) s') : s'.work = s.work + 5 := by
  cases step_stepped h with
  | begun => simp [work, Completing.left, Nat.add_assoc]

theorem work_resume {i : Nat} (h : (lts r).step s (.resume i) s') : s'.work < s.work := by
  cases step_stepped h with
  | resumed hc hr =>
    cases hr with
    | success hn | done hn | acquired hn | called hn | released hn =>
      exact Nat.add_lt_add_left (sum_set_lt hc (by simp [hn, Completing.left])) _

end

/-! ## No lost wake-up -/

section
variable {r : ρ} {s : Rendezvous ρ} {as : List Act}

structure Sound (r : ρ) (s : Rendezvous ρ) : Prop where
  unset    : Unset s
  logged   : Logged s
  ordered  : Ordered r s
  excluded : Excluded s

theorem sound_fresh : Sound r {} where
  unset := nofun
  logged := by simp [Logged, At]
  ordered := ⟨nofun, Monitor.stands_nil, by simp, nofun⟩
  excluded := ⟨by simp [Locking.Inside], by simp [At]⟩

theorem step_sound {s' : Rendezvous ρ} {a : Act} (hs : Sound r s) (h : (lts r).step s a s') : Sound r s' :=
  ⟨step_unset hs.unset h, step_logged hs.logged h, step_ordered hs.ordered hs.unset hs.logged h,
    step_excluded hs.excluded h⟩

theorem run_sound (h : (lts r).Run {} as s) : Sound r s := h.invariant (fun _ _ _ hs hst => step_sound hs hst) sound_fresh

/-- A section that comes after the installation calls the resumer. -/
theorem Sound.found (hs : Sound r s) {later earlier : List (Section ρ)} {i : Nat} {found : Option ρ}
    (hlog : s.log = later ++ .called i found :: earlier) : found = some r ↔ .installed ∈ earlier := by
  have hall := hs.ordered.stands.accepts _ _ _ hlog i found rfl
  rw [hall, ← after_sections r]
  split <;> simp_all

/-- `LockContext` has returned false: whoever has been through the locked section has called the resumer. -/
theorem Sound.called (hs : Sound r s) (hl : s.locking = .returned false) {c : Completion} (hc : c ∈ s.completions)
    (hn : c.next.Through) : ∃ i, .called i (some r) ∈ s.log := by
  obtain ⟨i, hi⟩ := List.getElem?_of_mem hc
  obtain ⟨found, hmem⟩ := (hs.logged i).2 ⟨c, hi, hn⟩
  obtain rfl := hs.ordered.late hl i found hmem
  exact ⟨i, hmem⟩

end

/-- **No lost wake-up.** `LockContext` returns true, or whoever comes under `mu_` after the installation calls the
resumer, and somebody has once all calls have finished. A caller that yields if it returns false is not left
suspended. -/
theorem no_lost_wakeup (r : ρ) (as : List Act) (s : Rendezvous ρ) (h : (lts r).Run {} as s) :
    (∀ done, s.locking = .returned done → done = true ∨
      ((∀ later i found earlier, s.log = later ++ .called i found :: earlier → .installed ∈ earlier → found = some r) ∧
        (s.completions ≠ [] → (∀ c ∈ s.completions, c.next = .returned) →
          ∃ later i found earlier, s.log = later ++ .called i found :: earlier ∧ .installed ∈ earlier))) ∧
      ∀ c ∈ s.completions, c.next = .returned → ¬ s.Suspended r := by
  have hs := run_sound h
  refine ⟨fun done hl => ?_, fun c hc hn hsus => ?_⟩
  · cases done with
    | true => exact .inl rfl
    | false =>
      refine .inr ⟨fun later i found earlier hlog => (hs.found hlog).2, fun hne hall => ?_⟩
      obtain ⟨c, hc⟩ := List.exists_mem_of_ne_nil _ hne
      obtain ⟨i, hmem⟩ := hs.called hl hc (.inr (hall c hc))
      obtain ⟨later, earlier, hlog⟩ := List.append_of_mem hmem
      exact ⟨later, i, some r, earlier, hlog, (hs.found hlog).1 rfl⟩
  · obtain ⟨i, hmem⟩ := hs.called hsus.1 hc (.inr hn)
    exact hsus.2 i hmem

/-- Two calls, one of them begun before the resumer is installed. -/
theorem no_lost_wakeup_run : ∃ s, (lts 7).Run ({} : Rendezvous Nat)
      [.complete false, .lock, .resume 0, .lock, .lock, .lock, .resume 0, .resume 0, .complete true, .resume 0, .resume 0,
        .resume 1, .resume 1, .resume 1, .resume 1, .resume 1] s ∧
      s.log = [.called 1 (some 7), .called 0 (some 7), .installed] ∧ ¬ s.Suspended 7 := by
  refine Lts.exists_run_of_exec_imp (P := fun s : Rendezvous Nat => s.log = [.called 1 (some 7), .called 0 (some 7),
    .installed] ∧ (⟨true, .returned⟩ : Completion) ∈ s.completions) (fun _ _ _ h => h) (by decide) ?_
  rintro s hr ⟨hlog, hc⟩
  exact ⟨hlog, (no_lost_wakeup 7 _ s hr).2 _ hc rfl⟩

/-! ## No deadlock -/

/-- No call is begun. -/
def Act.begins : Act → Bool
  | .complete _ => true
  | _ => false

section
variable {r : ρ} {s t : Rendezvous ρ} {a : Act}

theorem step_work (ha : a.begins = false) (h : (lts r).step s a t) :
    t.work < s.work ∧ t.completions.length = s.completions.length := by
  cases a with
  | complete => cases ha
  | lock =>
    refine ⟨work_lock h, ?_⟩
    cases step_stepped h <;> rfl
  | resume i =>
    refine ⟨work_resume h, ?_⟩
    cases step_stepped h with
    | resumed hc hr => cases hr <;> simp

end

/-- **No deadlock on `mu_`.** Once `ResumeContext` has been called, the calls that have begun end in a bounded number of
steps, whatever their order; and where none of them can go on all have finished, and the caller of `LockContext` is not
left suspended. -/
theorem calls_finish (r : ρ) (as : List Act) (s : Rendezvous ρ) (h : (lts r).Run {} as s) (hc : s.completions ≠ [])
    (bs : List Act) (t : Rendezvous ρ) (ht : ((lts r).restrict fun _ b => b.begins = false).Run s bs t) :
    bs.length + t.work ≤ s.work ∧
      (((lts r).restrict fun _ b => b.begins = false).Stuck t → Finished t ∧ ¬ t.Suspended r) := by
  have hless : ∀ u b v, ((lts r).restrict fun _ b => b.begins = false).step u b v → v.work < u.work := by
    rintro u b v ⟨hst, hb⟩
    exact (step_work hb hst).1
  refine ⟨ht.length_add_le hless, fun hstuck => ?_⟩
  have hs : Sound r t := run_sound (h.append ht.of_restrict)
  have hlen : t.completions.length = s.completions.length := by
    refine ht.invariant_restrict (P := fun u => u.completions.length = s.completions.length) ?_ rfl
    intro u b v hu hb hst
    exact (step_work hb hst).2.trans hu
  have hfin : Finished t := by
    by_contra hf
    rcases hs.excluded.progress hf with ⟨u, hu⟩ | ⟨i, u, hu⟩
    · exact hstuck .lock u ⟨hu, rfl⟩
    · exact hstuck (.resume i) u ⟨hu, rfl⟩
  refine ⟨hfin, fun hsus => ?_⟩
  obtain ⟨c, hmem⟩ : ∃ c, c ∈ t.completions := by
    apply List.exists_mem_of_length_pos
    rw [hlen]
    exact List.length_pos_iff.2 hc
  obtain ⟨i, hcalled⟩ := hs.called hsus.1 hmem (.inr (hfin.2 c hmem))
  exact hsus.2 i hcalled

/-- The callback comes first, and is overtaken. -/
theorem calls_finish_run : ∃ s : Rendezvous Nat, (lts 7).Run {} [.complete true, .lock] s ∧
    ∀ bs t, ((lts 7).restrict fun _ b => b.begins = false).Run s bs t → bs.length ≤ 8 := by
  obtain ⟨s, hr, hc, hw⟩ : ∃ s : Rendezvous Nat, (lts 7).Run {} [.complete true, .lock] s ∧ s.completions ≠ [] ∧
      s.work = 8 :=
    Lts.exists_run_of_exec_imp (P := fun s : Rendezvous Nat => s.completions ≠ [] ∧ s.work = 8) (fun _ _ _ h => h)
      (by decide) fun _ _ h => h
  refine ⟨s, hr, fun bs t ht => ?_⟩
  have hle := (calls_finish 7 _ s hr hc bs t ht).1
  omega

end Rendezvous
end LtApp.Etcd
