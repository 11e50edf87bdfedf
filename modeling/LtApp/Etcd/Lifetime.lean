import LtApp.Etcd.Rpc

/-!
# The context of an operation and its frame

The context lives in the frame of `Put`, `Range` or `LeaseGrant`, and `ResumeContext` works on it on a thread of gRPC.
The resumer is called under `mu_`: from then on the loop thread may switch to the coroutine, which runs to its end before
`mu_` is given back. A switch that comes after that is safe.

| here | there |
| --- | --- |
| `Gone` | the operation has returned, and the context is destroyed (`etcd_client.cc:77`, `:116`, `:135`) |
| `Busy` | `ResumeContext` has steps left (`call_context.cc:8`) |
| `Unlocking` | it is between `resumer_()` and `mu_.unlock()` (`call_context.cc:14`) |
-/

namespace LtApp.Etcd.Operation

variable {Q R α : Type}

/-- The operation has returned. -/
def Gone (o : Operation Q R α) : Prop := ∃ r, o.place = .returned r

/-- A call of `ResumeContext` has steps left. -/
def Busy (o : Operation Q R α) : Prop := ∃ c ∈ o.meet.completions, c.next ≠ .returned

/-- `ResumeContext` has called the resumer, and has still to give `mu_` back. -/
def Unlocking (o : Operation Q R α) : Prop := ∃ c ∈ o.meet.completions, c.next = .release

/-- The coroutine has yielded. -/
def Yielded (o : Operation Q R α) : Prop := ∃ ls, o.place = .suspended ls

instance (o : Operation Q R α) : Decidable o.Yielded :=
  match h : o.place with
  | .suspended ls => .isTrue ⟨ls, h⟩
  | .running _ | .returned _ => .isFalse (by simp [Yielded, h])

/-- `ResumeContext` is executed on a context that is there. -/
def Act.Alive (o : Operation Q R α) (a : Act) : Prop := a = .resume → ¬ o.Gone

/-- The loop thread switches to the coroutine that has yielded only when `mu_` has been given back. -/
def Act.Unlocked (o : Operation Q R α) (a : Act) : Prop := a = .coroutine → o.Yielded → ¬ o.Unlocking

instance Act.decidableUnlocked (o : Operation Q R α) (a : Act) : Decidable (a.Unlocked o) := by
  unfold Act.Unlocked Unlocking
  infer_instance

/-- The coroutine has been resumed. -/
def Woken (o : Operation Q R α) : Prop := o.place = .running [] ∨ o.Gone

/-- Once the coroutine has been resumed, `ResumeContext` has no steps left. -/
def Parted (o : Operation Q R α) : Prop := o.Woken → ¬ o.Busy

section
variable {u : UnaryRpc Q R α} {out : Outcome R} {o o' : Operation Q R α} {a : Act}

theorem step_unique {o'' : Operation Q R α} (h : (lts u out).step o a o') (h' : (lts u out).step o a o'') : o' = o'' :=
  Option.some.inj (Eq.trans (Eq.symm h) h')

theorem busy_of_resume (h : (lts u out).step o .resume o') : o.Busy := by
  cases lts_stepped h with
  | resumed hm =>
    cases Rendezvous.step_stepped hm with
    | resumed hc hr =>
      refine ⟨_, List.mem_of_getElem? hc, fun hn => ?_⟩
      cases hr <;> simp_all

variable [Inhabited R]

/-- Who has been resumed has been called back, and scheduled. -/
theorem Kept.woken (hs : Kept u out o) (hw : o.Woken) :
    o.rpc = .calledBack ∧ o.meet.locking = .returned false ∧ o.meet.scheduled = true := by
  have hplaced := hs.placed
  obtain hpl | ⟨r, hpl⟩ := hw
  · rw [hpl] at hplaced
    generalize o.rpc = p, o.meet = m at hplaced
    cases hplaced with
    | woken hl hsched => exact ⟨rfl, hl, hsched⟩
  · rw [hpl] at hplaced
    generalize o.rpc = p, o.meet = m at hplaced
    cases hplaced with
    | returned hl hsched => exact ⟨rfl, hl, hsched⟩

/-- The one step `ResumeContext` can have left is the one that gives `mu_` back. -/
theorem Kept.busy_iff (hs : Kept u out o) (hsched : o.meet.scheduled = true) : o.Busy ↔ o.Unlocking := by
  constructor
  · rintro ⟨c, hc, hn⟩
    exact ⟨c, hc, (hs.through hc hsched).resolve_right hn⟩
  · rintro ⟨c, hc, hn⟩
    exact ⟨c, hc, by simp [hn]⟩

/-- Who has yielded has been called once `ResumeContext` is past the resumer. -/
theorem Kept.scheduled_of_unlocking (hs : Kept u out o) (hy : o.Yielded) (hu : o.Unlocking) :
    o.place = .suspended [] ∧ o.meet.locking = .returned false ∧ o.meet.scheduled = true := by
  obtain ⟨c, hc, hn⟩ := hu
  obtain ⟨ls, hpl⟩ := hy
  have hp := hs.placed
  have hmeet := hs.meet
  rw [hpl] at hp ⊢
  generalize o.rpc = p, o.meet = m at hp hmeet hc
  cases hp with
  | suspended hl =>
    obtain ⟨i, hmem⟩ := hmeet.called hl hc (.inl hn)
    exact ⟨rfl, hl, List.any_eq_true.2 ⟨_, hmem, rfl⟩⟩

/-! ## Every run -/

theorem begin_parted : (begin u : Operation Q R α).Parted := by
  rintro - ⟨c, hc, -⟩
  simp [begin] at hc

/-- The switch to the coroutine is where the two part. -/
theorem Kept.step_parted (hs : Kept u out o) (hp : o.Parted) (ha : a.Unlocked o) (h : (lts u out).step o a o') :
    o'.Parted := by
  intro hw hb
  obtain ⟨hback, -, hsched⟩ := (step_kept hs h).woken hw
  cases lts_stepped h with
  | locked hpl =>
    -- the RPC has not been started
    have hback : o.rpc = .calledBack := hback
    have hplaced := hs.placed
    rw [hpl, hback] at hplaced
    cases hplaced
  | started => cases hback
  | yielded => simp [Woken, Gone] at hw
  | woken hpl hsched => exact ha rfl ⟨_, hpl⟩ ((hs.busy_iff hsched).1 hb)
  | returned hpl => exact hp (.inl hpl) hb
  | received => exact hp hw hb
  | calledBack hr =>
    have hback := (hs.woken hw).1
    simp [hr] at hback
  | resumed => exact hp hw (busy_of_resume h)

/-- If the two part, no step of `ResumeContext` is executed after the return. -/
theorem alive_of_unlocked (hu : u.kind ≠ .timeToAlive) {as : List Act}
    (h : ((lts u out).restrict fun o a => a.Unlocked o).Run (begin u) as o) :
    ((lts u out).restrict fun o a => a.Alive o).Run (begin u) as o := by
  refine h.restrict_imp (I := fun o => Kept u out o ∧ o.Parted) ?_ ?_ ⟨begin_kept hu, begin_parted⟩
  · intro o a o' hs ha hst
    exact ⟨step_kept hs.1 hst, hs.1.step_parted hs.2 ha hst⟩
  · rintro o a hs - o' hst rfl hg
    exact hs.2 (.inr hg) (busy_of_resume hst)

/-- A switch under `mu_` can lead to the return at once, and the rest of `ResumeContext` is executed after it. -/
theorem Kept.gone_of_not_unlocked (hs : Kept u out o) (h : (lts u out).step o a o') (ha : ¬ a.Unlocked o) :
    ∃ t t', (lts u out).Run o' [.coroutine] t ∧ t.Gone ∧ (lts u out).step t .resume t' := by
  obtain ⟨rfl, hy, hunl⟩ : a = .coroutine ∧ o.Yielded ∧ o.Unlocking := by simpa [Act.Unlocked] using ha
  obtain ⟨hpl, hl, hsched⟩ := hs.scheduled_of_unlocking hy hunl
  have hwake : (lts u out).step o .coroutine { o with place := .running [] } := by
    simp [lts, step, coroutineNext, hpl, hsched]
  obtain rfl := step_unique hwake h
  obtain ⟨c, hc, hn⟩ := hunl
  have hret : (lts u out).step { o with place := .running [] } .coroutine
      { o with place := .returned (u.finish o.ctx) } := rfl
  obtain ⟨t', ht⟩ := (step_kept (step_kept hs hwake) hret).resume_enabled hl hc (by simp [hn])
  exact ⟨_, t', .single hret, ⟨_, rfl⟩, ht⟩

end

/-! ## `Put`, `Range` and `LeaseGrant` -/

/-- If the loop thread never switches to the coroutine between `resumer_()` and `mu_.unlock()`, the context is never used
after the operation has returned; if it does in one step, the operation can return first. -/
def Outlives [Inhabited R] (u : UnaryRpc Q R α) (out : Outcome R) : Prop :=
  ∀ as o, (lts u out).Run (begin u) as o →
    (((lts u out).restrict fun o a => a.Unlocked o).Run (begin u) as o →
      ((lts u out).restrict fun o a => a.Alive o).Run (begin u) as o) ∧
    ∀ a o', (lts u out).step o a o' → ¬ a.Unlocked o →
      ∃ t t', (lts u out).Run o' [.coroutine] t ∧ t.Gone ∧ (lts u out).step t .resume t'

theorem outlivesOf [Inhabited R] {u : UnaryRpc Q R α} {out : Outcome R} (hu : u.kind ≠ .timeToAlive) :
    Outlives u out :=
  fun _ _ h => ⟨alive_of_unlocked hu, fun _ _ hst ha => (run_kept hu h).gone_of_not_unlocked hst ha⟩

open EtcdClientV3

/-- **The callback is finished with the context before the operation returns**, in every run in which the loop thread
switches to the coroutine only when `mu_` has been given back. -/
theorem outlives (status : Status) :
    (∀ request response, Outlives (put request) ⟨status, response⟩) ∧
      (∀ key withPrefix, ∀ u ∈ EtcdClientV3.range key withPrefix, ∀ response, Outlives u ⟨status, response⟩) ∧
      ∀ ttl response, Outlives (leaseGrant ttl) ⟨status, response⟩ :=
  ⟨fun _ _ => outlivesOf (by simp [put]), fun _ _ _ hu _ => outlivesOf (kind_of_range hu),
    fun _ _ => outlivesOf (by simp [leaseGrant])⟩

/-- The callback comes to its end before the coroutine goes on. -/
theorem outlives_unlocked : ∃ as o, ((lts (put ⟨[0x61], [0x62], 0⟩) ⟨{}, {}⟩).restrict fun o a => a.Alive o).Run
    (begin (put ⟨[0x61], [0x62], 0⟩)) as o ∧ o.Gone := by
  obtain ⟨o, hr, hret⟩ : ∃ o, ((lts (put ⟨[0x61], [0x62], 0⟩) ⟨{}, {}⟩).restrict fun o a => a.Unlocked o).Run
      (begin (put ⟨[0x61], [0x62], 0⟩)) (List.replicate 6 .coroutine ++ [.receive, .callback] ++ List.replicate 5 .resume ++
        List.replicate 2 .coroutine) o ∧ o.place = .returned { value := 0, statusOK := true } :=
    Lts.exists_run_of_exec (fun _ _ _ h => h) (by decide)
  exact ⟨_, o, ((outlives {}).1 ⟨[0x61], [0x62], 0⟩ {} _ o hr.of_restrict).1 hr, _, hret⟩

/-- **`mu_` is given back after `Put` has returned**: the coroutine is scheduled from inside the locked section, and runs
to its end before the callback goes on. -/
theorem unlocked_after_return :
    ∃ as o o', (lts (put ⟨[0x61], [0x62], 0⟩) ⟨{}, {}⟩).Run (begin (put ⟨[0x61], [0x62], 0⟩)) as o ∧ o.Gone ∧
      (lts (put ⟨[0x61], [0x62], 0⟩) ⟨{}, {}⟩).step o .resume o' ∧
      ¬ ((lts (put ⟨[0x61], [0x62], 0⟩) ⟨{}, {}⟩).restrict fun o a => a.Alive o).Run
        (begin (put ⟨[0x61], [0x62], 0⟩)) (as ++ [.resume]) o' := by
  obtain ⟨o, hr, hret, hres⟩ : ∃ o, ((lts (put ⟨[0x61], [0x62], 0⟩) ⟨{}, {}⟩).restrict fun _ _ => True).Run
      (begin (put ⟨[0x61], [0x62], 0⟩)) (List.replicate 6 .coroutine ++ [.receive, .callback] ++ List.replicate 4 .resume ++
        List.replicate 2 .coroutine) o ∧ o.place = .returned { value := 0, statusOK := true } ∧
      (step (put ⟨[0x61], [0x62], 0⟩) ⟨{}, {}⟩ o .resume).isSome = true :=
    Lts.exists_run_of_exec (fun _ _ _ h => h) (by decide)
  obtain ⟨o', ho⟩ := Option.isSome_iff_exists.1 hres
  refine ⟨_, o, o', hr.of_restrict, ⟨_, hret⟩, ho, fun h => ?_⟩
  obtain ⟨t, hpre, hlast⟩ := h.split
  obtain rfl : o = t := hr.of_restrict.unique (fun _ _ _ _ => step_unique) hpre.of_restrict
  cases hlast with
  | cons hst _ => exact hst.2 rfl ⟨_, hret⟩

end LtApp.Etcd.Operation
