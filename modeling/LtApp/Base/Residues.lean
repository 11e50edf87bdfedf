import Mathlib.Data.Fintype.EquivFin
import Mathlib.Data.Nat.ModEq

/-!
# A window of residues

`n` numbers are `Spread` if no two of them agree modulo `n`. Numbers that go up by one are, and the converse holds as
far as it can: where the numbers go up by one at all places but one, they do so modulo `n` at that place too
(`Spread.step`); where they go up by one at all places but two, so they do at both, unless the two gaps have changed
places (`Spread.steps`).
-/

namespace LtApp

/-- The first `n` numbers of the sequence are different modulo `n`. -/
def Spread (n : ℕ) (x : ℕ → ℕ) : Prop := ∀ i < n, ∀ j < n, x i ≡ x j [MOD n] → i = j

section
variable {n : ℕ} {x : ℕ → ℕ} {i j k : ℕ}

/-- Numbers that go up by one from `i` on. -/
theorem modEq_add (h : ∀ k, i ≤ k → k < i + j → x (k + 1) ≡ x k + 1 [MOD n]) : x (i + j) ≡ x i + j [MOD n] := by
  induction j with
  | zero => rfl
  | succ j ih =>
    have hlast : x (i + j + 1) ≡ x (i + j) + 1 [MOD n] := h (i + j) (by omega) (by omega)
    have hrest : x (i + j) ≡ x i + j [MOD n] := ih fun k hk hkj => h k hk (by omega)
    exact hlast.trans (hrest.add_right 1)

/-- A number and one that is less than `n` larger are different modulo `n`. -/
theorem not_modEq_add {m a : ℕ} (h0 : 0 < m) (hm : m < n) : ¬ a + m ≡ a [MOD n] := by
  intro h
  have hz : m ≡ 0 [MOD n] := Nat.ModEq.add_left_cancel' a h
  have := Nat.le_of_dvd h0 ((Nat.modEq_zero_iff_dvd).1 hz)
  omega

theorem spread_of_steps (h : ∀ k, k + 1 < n → x (k + 1) ≡ x k + 1 [MOD n]) : Spread n x := by
  have hx : ∀ i < n, x i ≡ x 0 + i [MOD n] := by
    intro i hi
    simpa using modEq_add (i := 0) (j := i) fun k _ hk => h k (by omega)
  intro i hi j hj hij
  have hadd : x 0 + i ≡ x 0 + j [MOD n] := (hx i hi).symm.trans (hij.trans (hx j hj))
  exact (Nat.ModEq.add_left_cancel' (x 0) hadd).eq_of_lt_of_lt hi hj

/-- Every residue is taken. -/
theorem Spread.exists_modEq (h : Spread n x) (hn : 0 < n) (y : ℕ) : ∃ i < n, x i ≡ y [MOD n] := by
  let f : Fin n → Fin n := fun i => ⟨x i % n, Nat.mod_lt _ hn⟩
  have hinj : Function.Injective f := by
    intro a b hab
    exact Fin.ext (h a a.2 b b.2 (Fin.mk.inj_iff.1 hab))
  obtain ⟨i, hi⟩ := Finite.injective_iff_surjective.1 hinj ⟨y % n, Nat.mod_lt _ hn⟩
  exact ⟨i, i.2, Fin.mk.inj_iff.1 hi⟩

/-- The residue after `x j` is that of the next number, or one that comes after a gap. -/
theorem Spread.succ_cases (h : Spread n x) (hj : j + 1 < n) (hup : ∀ k < j, x (k + 1) ≡ x k + 1 [MOD n]) :
    x (j + 1) ≡ x j + 1 [MOD n] ∨
      ∃ k, k + 1 < n ∧ k ≠ j ∧ ¬ x (k + 1) ≡ x k + 1 [MOD n] ∧ x (k + 1) ≡ x j + 1 [MOD n] := by
  obtain ⟨i, hi, hij⟩ := h.exists_modEq (by omega) (x j + 1)
  cases i with
  | zero =>
    -- the window would be shorter than `n`
    have hx : x j ≡ x 0 + j [MOD n] := by
      simpa using modEq_add (i := 0) (j := j) fun k _ hk => hup k (by omega)
    have hround : x 0 + (j + 1) ≡ x 0 [MOD n] := (hij.trans (hx.add_right 1)).symm
    exact absurd hround (not_modEq_add (Nat.succ_pos j) hj)
  | succ k =>
    by_cases hkj : k = j
    · subst hkj
      exact .inl hij
    · refine .inr ⟨k, hi, hkj, fun hk => ?_, hij⟩
      have hsame : x k ≡ x j [MOD n] := Nat.ModEq.add_right_cancel' 1 (hk.symm.trans hij)
      exact hkj (h k (by omega) j (by omega) hsame)

/-- **One gap.** -/
theorem Spread.step (h : Spread n x) (hj : j + 1 < n) (hup : ∀ k, k + 1 < n → k ≠ j → x (k + 1) ≡ x k + 1 [MOD n]) :
    x (j + 1) ≡ x j + 1 [MOD n] := by
  rcases h.succ_cases hj fun k hk => hup k (by omega) (by omega) with hstep | ⟨k, hk, hkj, hgap, -⟩
  · exact hstep
  · exact absurd (hup k hk hkj) hgap

/-- **Two gaps.** -/
theorem Spread.steps (h : Spread n x) (hij : i < j) (hj : j + 1 < n)
    (hup : ∀ k, k + 1 < n → k ≠ i → k ≠ j → x (k + 1) ≡ x k + 1 [MOD n]) (hne : ¬ x (j + 1) ≡ x i + 1 [MOD n]) :
    x (i + 1) ≡ x i + 1 [MOD n] ∧ x (j + 1) ≡ x j + 1 [MOD n] := by
  have hi : x (i + 1) ≡ x i + 1 [MOD n] := by
    rcases h.succ_cases (j := i) (by omega) fun k hk => hup k (by omega) (by omega) (by omega) with
      hstep | ⟨k, hk, hki, hgap, hnext⟩
    · exact hstep
    · by_cases hkj : k = j
      · subst hkj
        exact absurd hnext hne
      · exact absurd (hup k hk hki hkj) hgap
  refine ⟨hi, h.step hj fun k hk hkj => ?_⟩
  by_cases hki : k = i
  · subst hki
    exact hi
  · exact hup k hk hki hkj

end
end LtApp
