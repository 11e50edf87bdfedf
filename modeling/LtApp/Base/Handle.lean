import Mathlib.Data.List.Basic

/-!
# Handles that carry one non-blocking operation at a time

A handle is used through `start`/`cont` pairs: a `start` may report that the operation is blocked, and
then the handle belongs to that operation until one of its `cont` calls finishes it. A handle may also open a
stream (`opens k`), and then serves nothing but the operation `k`, which reads it, until a read drains it.

Uses are listed newest first. `handle us` computes what the handle is committed to after the uses `us`,
`Disciplined` asks each use to respect it, and `Exclusive` says the same without a state, over all pairs of
uses. `exclusive_iff` shows that they agree.
-/

namespace LtApp

/-- How a call ends: not at all, for good, or for good and with the stream it reads at its end. -/
inductive Outcome
  | blocked | finished | drained
deriving DecidableEq, Repr

/-- One use of a handle whose operations are named by `κ`. -/
inductive Use (κ : Type*)
  | start (k : κ) (o : Outcome)
  | cont (k : κ) (o : Outcome)
  /-- Opens a stream that `k` reads. -/
  | opens (k : κ)
  /-- Any other use. -/
  | other
deriving DecidableEq, Repr

/-- What a handle is committed to. -/
structure Handle (κ : Type*) where
  pending : Option κ := none
  reading : Option κ := none
deriving DecidableEq, Repr

variable {κ : Type*}

namespace Use

def Continues (k : κ) : Use κ → Prop
  | .cont k' _ => k' = k
  | _ => False

def Reads (k : κ) : Use κ → Prop
  | .start k' _ | .cont k' _ => k' = k
  | _ => False

def Finishes (k : κ) : Use κ → Prop
  | .cont k' o => k' = k ∧ o ≠ .blocked
  | _ => False

def Drains (k : κ) : Use κ → Prop
  | .start k' o | .cont k' o => k' = k ∧ o = .drained
  | _ => False

end Use

/-- Between a `start` that blocks and the `cont` that finishes it only `cont` calls of the same operation are
made, and between the opening of a stream and its end only reads of that stream. -/
def Exclusive (us : List (Use κ)) : Prop :=
  (∀ k u later mid older, us = later ++ u :: (mid ++ .start k .blocked :: older) →
    (∀ v ∈ mid, ¬ v.Finishes k) → u.Continues k) ∧
  (∀ k u later mid older, us = later ++ u :: (mid ++ .opens k :: older) →
    (∀ v ∈ mid, ¬ v.Drains k) → u.Reads k)

theorem Exclusive.tail {u : Use κ} {us : List (Use κ)} (h : Exclusive (u :: us)) : Exclusive us :=
  ⟨fun k v later mid older he => h.1 k v (u :: later) mid older (by simp [he]),
   fun k v later mid older he => h.2 k v (u :: later) mid older (by simp [he])⟩

section
variable [DecidableEq κ]

instance (k : κ) (u : Use κ) : Decidable (u.Continues k) := by cases u <;> unfold Use.Continues <;> infer_instance
instance (k : κ) (u : Use κ) : Decidable (u.Reads k) := by cases u <;> unfold Use.Reads <;> infer_instance

namespace Handle

/-- The use respects what the handle is committed to. -/
def Allows (h : Handle κ) (u : Use κ) : Prop :=
  (∀ k, h.pending = some k → u.Continues k) ∧ (∀ k, h.reading = some k → u.Reads k)

instance (h : Handle κ) (u : Use κ) : Decidable (h.Allows u) :=
  decidable_of_iff ((h.pending.all fun k => u.Continues k) = true ∧ (h.reading.all fun k => u.Reads k) = true) (by
    unfold Allows; cases h.pending <;> cases h.reading <;> simp)

def next (h : Handle κ) : Use κ → Handle κ
  | .start k .blocked => { h with pending := some k }
  | .start k .drained => { h with reading := if h.reading = some k then none else h.reading }
  | .cont k .finished => { h with pending := if h.pending = some k then none else h.pending }
  | .cont k .drained =>
    { pending := if h.pending = some k then none else h.pending
      reading := if h.reading = some k then none else h.reading }
  | .opens k => { h with reading := some k }
  | .start _ .finished | .cont _ .blocked | .other => h

end Handle

/-- The handle after the uses. -/
def handle : List (Use κ) → Handle κ
  | [] => {}
  | u :: us => (handle us).next u

/-- Each use respects what the ones before it have committed the handle to. -/
def Disciplined : List (Use κ) → Prop
  | [] => True
  | u :: us => (handle us).Allows u ∧ Disciplined us

instance decidableDisciplined : ∀ us : List (Use κ), Decidable (Disciplined us)
  | [] => isTrue trivial
  | _ :: us => @instDecidableAnd _ _ _ (decidableDisciplined us)

theorem Disciplined.of_append {later us : List (Use κ)} (h : Disciplined (later ++ us)) : Disciplined us := by
  induction later with
  | nil => exact h
  | cons _ _ ih => exact ih h.2

/-- A blocked operation stays pending until it is finished. -/
theorem Disciplined.pending {k : κ} {mid older : List (Use κ)} (h : Disciplined (mid ++ .start k .blocked :: older))
    (hmid : ∀ v ∈ mid, ¬ v.Finishes k) : (handle (mid ++ .start k .blocked :: older)).pending = some k := by
  induction mid with
  | nil => rfl
  | cons v mid ih =>
    obtain ⟨ha, hd⟩ := h
    have hp := ih hd fun w hw => hmid w (by simp [hw])
    have hv := ha.1 k hp
    have hf := hmid v (by simp)
    cases v with
    | cont k' o => cases o <;> simp_all [Use.Continues, Use.Finishes, handle, Handle.next]
    | _ => simp [Use.Continues] at hv

/-- An open stream stays open until it is drained. -/
theorem Disciplined.reading {k : κ} {mid older : List (Use κ)} (h : Disciplined (mid ++ .opens k :: older))
    (hmid : ∀ v ∈ mid, ¬ v.Drains k) : (handle (mid ++ .opens k :: older)).reading = some k := by
  induction mid with
  | nil => rfl
  | cons v mid ih =>
    obtain ⟨ha, hd⟩ := h
    have hp := ih hd fun w hw => hmid w (by simp [hw])
    have hv := ha.2 k hp
    have hf := hmid v (by simp)
    cases v with
    | start k' o | cont k' o => cases o <;> simp_all [Use.Reads, Use.Drains, handle, Handle.next]
    | _ => simp [Use.Reads] at hv

/-- What is pending was started, has blocked, and has not been finished since. -/
theorem exists_of_pending {k : κ} : ∀ {us : List (Use κ)}, (handle us).pending = some k →
    ∃ mid older, us = mid ++ .start k .blocked :: older ∧ ∀ v ∈ mid, ¬ v.Finishes k
  | [], h => by simp [handle] at h
  | u :: us, h => by
    by_cases hu : u = .start k .blocked
    · exact ⟨[], us, by simp [hu], by simp⟩
    · have hk : (handle us).pending = some k ∧ ¬ u.Finishes k := by
        cases u with
        | start k' o | cont k' o => cases o <;> simp_all [handle, Handle.next, Use.Finishes] <;> grind
        | _ => simp_all [handle, Handle.next, Use.Finishes]
      obtain ⟨mid, older, rfl, hmid⟩ := exists_of_pending hk.1
      exact ⟨u :: mid, older, rfl, by simpa using ⟨hk.2, hmid⟩⟩

/-- A stream being read was opened and has not been drained since. -/
theorem exists_of_reading {k : κ} : ∀ {us : List (Use κ)}, (handle us).reading = some k →
    ∃ mid older, us = mid ++ .opens k :: older ∧ ∀ v ∈ mid, ¬ v.Drains k
  | [], h => by simp [handle] at h
  | u :: us, h => by
    by_cases hu : u = .opens k
    · exact ⟨[], us, by simp [hu], by simp⟩
    · have hk : (handle us).reading = some k ∧ ¬ u.Drains k := by
        cases u with
        | start k' o | cont k' o =>
          cases o
          case drained =>
            simp_all [handle, Handle.next, Use.Drains]
            grind
          all_goals simp_all [handle, Handle.next, Use.Drains]
        | _ => simp_all [handle, Handle.next, Use.Drains]
      obtain ⟨mid, older, rfl, hmid⟩ := exists_of_reading hk.1
      exact ⟨u :: mid, older, rfl, by simpa using ⟨hk.2, hmid⟩⟩

/-- **The discipline is exclusive use.** -/
theorem exclusive_iff {us : List (Use κ)} : Exclusive us ↔ Disciplined us := by
  constructor
  · intro h
    induction us with
    | nil => trivial
    | cons u us ih =>
      refine ⟨⟨fun k hk => ?_, fun k hk => ?_⟩, ih h.tail⟩
      · obtain ⟨mid, older, rfl, hmid⟩ := exists_of_pending hk
        exact h.1 k u [] mid older rfl hmid
      · obtain ⟨mid, older, rfl, hmid⟩ := exists_of_reading hk
        exact h.2 k u [] mid older rfl hmid
  · intro h
    refine ⟨fun k u later mid older he hmid => ?_, fun k u later mid older he hmid => ?_⟩
    · have hd : Disciplined (u :: (mid ++ .start k .blocked :: older)) := (he ▸ h).of_append
      exact hd.1.1 k (hd.2.pending hmid)
    · have hd : Disciplined (u :: (mid ++ .opens k :: older)) := (he ▸ h).of_append
      exact hd.1.2 k (hd.2.reading hmid)

end
end LtApp
