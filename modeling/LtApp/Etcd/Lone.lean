import LtApp.Etcd.Side

/-!
# One coroutine at a time on a context

Where no two coroutines are at places that wait on the same context, the resumer in it is of the one that is there, or
of a suspension that is over. So `LockContext` never takes the context from anybody, and every report on it is that of
the operation of the one coroutine (`Lone.step`, `Lone.inFlight`).
-/

namespace LtApp.Etcd
namespace Waits

variable {κ α σ : Type} [DecidableEq κ]

structure Lone (on : σ → κ) (of : σ → α) (k : κ) (w : Waits κ α σ) : Prop where
  side   : w.SoundAt on of k
  placed : ∀ a f, w.frame a = some f → of f.point.site = a
  one    : ∀ a b f g, w.frame a = some f → w.frame b = some g → on f.point.site = k → on g.point.site = k → a = b
  slot   : ∀ r, (w.ctx k).resumer = some r →
    r ∈ w.resumed.map (·.1) ∨ ∃ a f, w.frame a = some f ∧ f.point = r ∧ f.stage ≠ .lock

namespace Lone

variable {on : σ → κ} {of : σ → α} {k : κ} {w w' : Waits κ α σ} {a : α} {f : Frame σ} {p : Suspension σ} {s : σ}

theorem nil : Lone on of k ({} : Waits κ α σ) :=
  ⟨⟨by simp [Housed], by constructor <;> simp [Waits.side, ops]⟩, by simp, by simp, by simp⟩

/-- What a coroutine has been resumed from has been called back. -/
theorem calledBack (hw : Lone on of k w) (hf : w.frame a = some f) (hk : on f.point.site = k)
    (hs : f.stage = .woken) : f.point ∈ w.resumed.map (·.1) := by
  have hsuits := hw.side.sound.suits a f (side_frame_eq.2 ⟨hf, hk⟩)
  simp only [Suits, hs] at hsuits
  exact (mem_side_resumed.1 hsuits).1

/-- An operation in flight is that of the coroutine that is there, and not reported. -/
theorem inFlight (hw : Lone on of k w) (hp : p ∈ w.inFlight) (hk : on p.site = k) :
    (∃ f, w.frame (of p.site) = some f ∧ f.point = p) ∧ ¬ w.Reported p := by
  have hp' : p ∈ (w.side on k).inFlight := mem_side_inFlight.2 ⟨hp, hk⟩
  obtain ⟨f, hf, hfp⟩ := hw.side.sound.framed p (.inl hp')
  refine ⟨⟨f, (side_frame_eq.1 hf).1, hfp⟩, ?_⟩
  rintro (hc | hr)
  · have hd := (List.nodup_append.1 (List.nodup_append.1 hw.side.sound.once).1).2.2
    exact hd p hp' p (mem_side_calling.2 ⟨hc, hk⟩) rfl
  · exact hw.side.sound.apart (.inl hp') (mem_side_resumed.2 ⟨hr, hk⟩)

/-- An operation that is started at a context is known on its side. -/
theorem mem_side_ops (hk : on p.site = k) : p ∈ (w.side on k).ops ↔ p ∈ w.ops := by
  rw [mem_ops, mem_ops, mem_side_inFlight, mem_side_calling, mem_side_resumed]
  simp [hk]

theorem fresh (hw : Lone on of k w) (hk : on s = k) : (⟨s, w.serial⟩ : Suspension σ) ∉ w.ops := by
  intro h
  exact Nat.lt_irrefl _ (hw.side.sound.fresh _ ((mem_side_ops hk).2 h))

/-- An operation that is yet to be started has not been reported. -/
theorem not_reported (hw : Lone on of k w) (hk : on s = k) : ¬ w.Reported ⟨s, w.serial⟩ := fun h =>
  hw.fresh hk (mem_ops.2 (h.imp_left .inr))

/-- Before its operation is started a coroutine has none. -/
theorem not_started (hw : Lone on of k w) (hf : w.frame a = some f) (hk : on f.point.site = k) (hs : f.stage = .start) :
    f.point ∉ w.ops := by
  have hsuits := hw.side.sound.suits a f (side_frame_eq.2 ⟨hf, hk⟩)
  simp only [Suits, hs] at hsuits
  exact fun h => hsuits.2.1 ((mem_side_ops hk).2 h)

/-- The coroutine about to call `LockContext` finds no resumer in use. -/
theorem clear (hw : Lone on of k w) (hf : w.frame a = some f) (hs : f.stage = .lock) (hk : on f.point.site = k) :
    (w.side on k).Free k := by
  unfold Free
  simp only [side_ctx, if_true]
  cases hr : (w.ctx k).resumer with
  | none => trivial
  | some r =>
    have hrk := hw.side.housed k r hr
    rcases hw.slot r hr with hover | ⟨b, g, hg, rfl, hgs⟩
    · exact mem_side_resumed.2 ⟨hover, hrk⟩
    · obtain rfl := hw.one a b f g hf hg hk hrk
      rw [Option.some.inj (hg.symm.trans hf)] at hgs
      exact absurd hs hgs

omit [DecidableEq κ] in
theorem frame_leave [DecidableEq α] {b : α} (h : (w.leave a).frame b = some f) : b ≠ a ∧ w.frame b = some f := by
  by_cases hb : b = a
  · simp [hb] at h
  · exact ⟨hb, by simpa [hb] using h⟩

omit [DecidableEq κ] in
theorem frame_enter [DecidableEq α] {b : α} {g : Stage} (h : (w.enter a s g).frame b = some f) :
    (b = a ∧ f = ⟨⟨s, w.serial⟩, g, false⟩) ∨ (b ≠ a ∧ w.frame b = some f) := by
  by_cases hb : b = a
  · subst hb
    exact .inl ⟨rfl, by simpa using h.symm⟩
  · exact .inr ⟨hb, by simpa [hb] using h⟩

section
variable [DecidableEq α]

/-- The resumer in the context is of somebody else, or of a suspension that is over. -/
theorem slot_other (hw : Lone on of k w) (ha : ∀ f, w.frame a = some f → on f.point.site = k → f.stage = .woken)
    {r : Suspension σ} (hr : (w.ctx k).resumer = some r) :
    r ∈ w.resumed.map (·.1) ∨ ∃ b f, b ≠ a ∧ w.frame b = some f ∧ f.point = r ∧ f.stage ≠ .lock := by
  rcases hw.slot r hr with hover | ⟨b, f, hf, rfl, hs⟩
  · exact .inl hover
  · by_cases hb : b = a
    · subst hb
      have hk := hw.side.housed k f.point hr
      exact .inl (hw.calledBack hf hk (ha f hf hk))
    · exact .inr ⟨b, f, hb, hf, rfl, hs⟩

/-- A coroutine that has been resumed, if it was from the context, comes to its end. -/
theorem leave (hw : Lone on of k w) (ha : ∀ f, w.frame a = some f → on f.point.site = k → f.stage = .woken) :
    Lone on of k (w.leave a) := by
  constructor
  case side => exact hw.side.leave ha
  case placed => exact fun b f hf => hw.placed b f (frame_leave hf).2
  case one => exact fun b d f g hf hg => hw.one b d f g (frame_leave hf).2 (frame_leave hg).2
  case slot =>
    intro r hr
    rcases hw.slot_other ha hr with hover | ⟨b, f, hb, hf, hp, hs⟩
    · exact .inl hover
    · exact .inr ⟨b, f, by simp [hb, hf], hp, hs⟩

/-- It goes on to a place that yields; if that waits on the context, nobody else is there. -/
theorem enter (hw : Lone on of k w) (ha : ∀ f, w.frame (of s) = some f → on f.point.site = k → f.stage = .woken)
    (hone : on s = k → ∀ b g, w.frame b = some g → on g.point.site = k → b = of s) :
    Lone on of k (w.enter (of s) s .lock) := by
  constructor
  case side => exact hw.side.enter rfl ha
  case placed =>
    intro b f hf
    rcases frame_enter hf with ⟨rfl, rfl⟩ | ⟨-, hf⟩
    · rfl
    · exact hw.placed b f hf
  case one =>
    intro b d f g hf hg hfk hgk
    rcases frame_enter hf with ⟨rfl, rfl⟩ | ⟨-, hf⟩ <;> rcases frame_enter hg with ⟨rfl, rfl⟩ | ⟨-, hg⟩
    · rfl
    · exact (hone hfk d g hg hgk).symm
    · exact hone hgk b f hf hfk
    · exact hw.one b d f g hf hg hfk hgk
  case slot =>
    intro r hr
    rcases hw.slot_other ha hr with hover | ⟨b, f, hb, hf, hp, hs⟩
    · exact .inl hover
    · exact .inr ⟨b, f, by simp [hb, hf], hp, hs⟩

omit [DecidableEq α] in
theorem setCtx (hw : Lone on of k w) {i : κ} {x : CallContext (Suspension σ)} (hx : x.resumer = (w.ctx i).resumer) :
    Lone on of k (w.setCtx i x) := by
  refine ⟨hw.side.setCtx hx, hw.placed, hw.one, fun r hr => hw.slot r ?_⟩
  by_cases hk : k = i
  · subst hk
    rwa [setCtx_ctx, Function.update_self, hx] at hr
  · rwa [setCtx_ctx, Function.update_of_ne hk] at hr

variable [DecidableEq σ]

/-- **Whatever happens to those that wait, one coroutine at a time uses the context.** -/
theorem step {op : Op α σ} (hw : Lone on of k w) (h : w.step on of op = some w') : Lone on of k w' := by
  constructor
  case side =>
    refine hw.side.step (fun hat => ?_) h
    cases op with
    | lock a =>
      obtain ⟨f, hf, hk⟩ := hat
      have hst : f.stage = .lock := by
        cases step_stepped _ _ h with
        | lock hg hst => rwa [Option.some.inj (hf.symm.trans hg)]
      simp only [Op.Clear, side_frame_eq.2 ⟨hf, hk⟩, hk]
      exact hw.clear hf hst hk
    | _ => trivial
  case placed =>
    intro b f hf
    obtain ⟨g, hg, hgp⟩ := frame_before h hf
    rw [← hgp]
    exact hw.placed b g hg
  case one =>
    intro b d f g hf hg hfk hgk
    obtain ⟨f', hf', hfp⟩ := frame_before h hf
    obtain ⟨g', hg', hgp⟩ := frame_before h hg
    exact hw.one b d f' g' hf' hg' (by rwa [hfp]) (by rwa [hgp])
  case slot =>
    intro r hr
    have hold : (w.ctx k).resumer = some r →
        r ∈ w'.resumed.map (·.1) ∨ ∃ a f, w'.frame a = some f ∧ f.point = r ∧ f.stage ≠ .lock := by
      intro hr
      rcases hw.slot r hr with hover | ⟨b, f, hf, rfl, hs⟩
      · obtain ⟨l, hl⟩ := step_resumed h
        rw [hl, List.map_append]
        exact .inl (List.mem_append_right _ hover)
      · obtain ⟨f', hf', hp⟩ : ∃ f', w'.frame b = some f' ∧ f'.point = f.point := by
          have := step_point h b
          rw [hf] at this
          simpa using this
        refine .inr ⟨b, f', hf', hp, fun hl => ?_⟩
        obtain ⟨g, hg, hgl⟩ := (step_frame h b).2 f' hf' hl
        rw [Option.some.inj (hf.symm.trans hg)] at hs
        exact hs hgl
    by_cases hop : ∃ a, op = .lock a
    · obtain ⟨a, rfl⟩ := hop
      cases step_stepped _ _ h with
      | @lock a f hf hst =>
        by_cases hk : on f.point.site = k
        · obtain rfl : f.point = r := by simpa [lock, hk] using hr
          exact .inr ⟨a, { f with stage := .start }, by simp [lock], rfl, by simp⟩
        · exact hold (by simpa [lock, Ne.symm hk] using hr)
    · exact hold (by rwa [step_resumer h fun a ha => hop ⟨a, ha⟩] at hr)

end

end Lone
end Waits
end LtApp.Etcd
