import LtApp.Base.Monitor

/-!
# Resources that are released once

At most one resource is held at a time: it is taken, used, and freed. `ReleasedOnce` says over a history, newest first,
what that discipline is: between taking a resource and freeing it there are only uses of it, and what is used or freed
is held. `custody` is the monitor that knows what is held, and `accepts_iff` shows that the two agree.
-/

namespace LtApp

/-- What is done with a resource. -/
inductive Dealing (ρ : Type*)
  | take (r : ρ)
  | use (r : ρ)
  | free (r : ρ)
  /-- Something that must find no resource held. -/
  | bare
deriving DecidableEq, Repr

namespace Dealing

variable {ρ : Type*}

def OnlyUses (r : ρ) (es : List (Dealing ρ)) : Prop := ∀ e ∈ es, e = .use r

/-- Every resource is freed once, before anything that must find none held, and is not used after that. -/
structure ReleasedOnce (es : List (Dealing ρ)) : Prop where
  /-- A resource that was taken is only used until it is freed. -/
  kept : ∀ later r earlier, es = later ++ .take r :: earlier →
    OnlyUses r later ∨ ∃ after mid, later = after ++ .free r :: mid ∧ OnlyUses r mid
  /-- What is used or freed was taken and has not been freed since. -/
  held : ∀ later e r earlier, es = later ++ e :: earlier → e = .use r ∨ e = .free r →
    ∃ mid older, earlier = mid ++ .take r :: older ∧ OnlyUses r mid

/-- Every resource that was taken has been freed. -/
def AllFreed (es : List (Dealing ρ)) : Prop :=
  ∀ later r earlier, es = later ++ .take r :: earlier → .free r ∈ later

/-! ## The monitor -/

def next (s : Option ρ) : Dealing ρ → Option ρ
  | .take r => some r
  | .free _ => none
  | .use _ | .bare => s

def Allows (s : Option ρ) : Dealing ρ → Prop
  | .take _ | .bare => s = none
  | .use r | .free r => s = some r

/-- The resource that is held. -/
def custody : Monitor (Dealing ρ) (Option ρ) := ⟨none, next, Allows⟩

instance [DecidableEq ρ] (s : Option ρ) (e : Dealing ρ) : Decidable ((custody (ρ := ρ)).Allows s e) := by
  cases e <;> simp only [custody, Allows] <;> infer_instance

variable {es : List (Dealing ρ)} {r : ρ}

theorem OnlyUses.cons (h : OnlyUses r es) : OnlyUses r (.use r :: es) := by
  intro e he
  rcases List.mem_cons.1 he with rfl | he
  · rfl
  · exact h e he

theorem after_of_onlyUses {mid older : List (Dealing ρ)} (h : OnlyUses r mid) :
    custody.after (mid ++ .take r :: older) = some r := by
  induction mid with
  | nil => rfl
  | cons e mid ih =>
    obtain rfl := h e (by simp)
    exact ih fun x hx => h x (by simp [hx])

/-- What is held was taken and has only been used since. -/
theorem exists_take (h : custody.Accepts es) (hs : custody.after es = some r) :
    ∃ mid older, es = mid ++ .take r :: older ∧ OnlyUses r mid := by
  induction es with
  | nil => cases hs
  | cons e es ih =>
    obtain ⟨ha, hes⟩ := Monitor.accepts_cons.1 h
    cases e with
    | take r' =>
      obtain rfl : r' = r := Option.some.inj hs
      exact ⟨[], es, rfl, by simp [OnlyUses]⟩
    | use r' =>
      have hs : custody.after es = some r := hs
      have ha : custody.after es = some r' := ha
      obtain rfl : r' = r := Option.some.inj (ha.symm.trans hs)
      obtain ⟨mid, older, rfl, hmid⟩ := ih hes hs
      exact ⟨.use r' :: mid, older, rfl, hmid.cons⟩
    | free r' => cases hs
    | bare =>
      have ha : custody.after es = none := ha
      have hs : custody.after es = some r := hs
      rw [ha] at hs
      cases hs

/-- A resource that was taken is still held, or has been freed. -/
theorem held_or_freed {later older : List (Dealing ρ)} (h : custody.Accepts (later ++ .take r :: older)) :
    (OnlyUses r later ∧ custody.after (later ++ .take r :: older) = some r) ∨
      ∃ after mid, later = after ++ .free r :: mid ∧ OnlyUses r mid := by
  induction later with
  | nil => exact .inl ⟨by simp [OnlyUses], rfl⟩
  | cons e later ih =>
    obtain ⟨ha, hes⟩ := Monitor.accepts_cons.1 h
    rcases ih hes with ⟨huses, hs⟩ | ⟨after, mid, rfl, hmid⟩
    · have ha : Allows (some r) e := hs ▸ ha
      cases e with
      | take r' => cases ha
      | bare => cases ha
      | use r' =>
        obtain rfl : r = r' := Option.some.inj ha
        exact .inl ⟨huses.cons, hs⟩
      | free r' =>
        obtain rfl : r = r' := Option.some.inj ha
        exact .inr ⟨[], later, rfl, huses⟩
    · exact .inr ⟨e :: after, mid, rfl, hmid⟩

theorem ReleasedOnce.tail {e : Dealing ρ} (h : ReleasedOnce (e :: es)) : ReleasedOnce es := by
  constructor
  case kept =>
    rintro later r earlier rfl
    rcases h.kept (e :: later) r earlier rfl with huses | ⟨after, mid, heq, hmid⟩
    · exact .inl fun x hx => huses x (by simp [hx])
    · cases after with
      | nil =>
        obtain ⟨-, rfl⟩ := List.cons.inj heq
        exact .inl hmid
      | cons x after => exact .inr ⟨after, mid, (List.cons.inj heq).2, hmid⟩
  case held =>
    rintro later x r earlier rfl hx
    exact h.held (e :: later) x r earlier rfl hx

/-- Nothing but a use or the freeing of the resource held comes next. -/
theorem ReleasedOnce.of_held {e : Dealing ρ} (h : ReleasedOnce (e :: es)) (ha : custody.Accepts es)
    (hs : custody.after es = some r) : e = .use r ∨ e = .free r := by
  obtain ⟨mid, older, rfl, hmid⟩ := exists_take ha hs
  rcases h.kept (e :: mid) r older rfl with huses | ⟨after, mid', heq, -⟩
  · exact .inl (huses e (by simp))
  · cases after with
    | nil => exact .inr (List.cons.inj heq).1
    | cons x after =>
      have hmem : Dealing.free r ∈ mid := by
        rw [(List.cons.inj heq).2]
        simp
      cases hmid _ hmem

/-- **The monitor accepts the histories that release every resource once, and no others.** -/
theorem accepts_iff : custody.Accepts es ↔ ReleasedOnce es := by
  constructor
  · intro h
    constructor
    case kept =>
      rintro later r earlier rfl
      exact (held_or_freed h).imp And.left id
    case held =>
      rintro later e r earlier rfl he
      have hs : custody.after earlier = some r := by
        have := h later e earlier rfl
        rcases he with rfl | rfl <;> exact this
      have hacc : custody.Accepts earlier := fun l x t ht => h (later ++ e :: l) x t (by simp [ht])
      exact exists_take hacc hs
  · intro h
    induction es with
    | nil => exact Monitor.accepts_nil
    | cons e es ih =>
      have ha := ih h.tail
      refine Monitor.accepts_cons.2 ⟨?_, ha⟩
      cases hs : custody.after es with
      | some r => rcases h.of_held ha hs with rfl | rfl <;> exact rfl
      | none =>
        cases e with
        | take r | bare => exact rfl
        | use r =>
          obtain ⟨mid, older, rfl, hmid⟩ := h.held [] (.use r) r es rfl (.inl rfl)
          rw [after_of_onlyUses hmid] at hs
          cases hs
        | free r =>
          obtain ⟨mid, older, rfl, hmid⟩ := h.held [] (.free r) r es rfl (.inr rfl)
          rw [after_of_onlyUses hmid] at hs
          cases hs

instance [DecidableEq ρ] : Decidable (ReleasedOnce es) := decidable_of_iff _ accepts_iff

/-- Where nothing is held, everything has been freed. -/
theorem allFreed_of_none (h : custody.Stands es none) : AllFreed es := by
  rintro later r earlier rfl
  rcases held_or_freed h.accepts with ⟨-, hs⟩ | ⟨after, mid, rfl, -⟩
  · rw [h.after] at hs
    cases hs
  · simp

end Dealing
end LtApp
