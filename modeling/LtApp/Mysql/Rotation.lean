import Mathlib.Algebra.GroupWithZero.Nat
import LtApp.Base.Residues
import LtApp.Mysql.Pool

/-!
# Round robin

`get_client` counts `use_index_` up and reduces it modulo the number of connections. The counter is an `int`, the
modulus a `size_t`: a negative counter becomes a number close to 2^64. From call to call the number goes up by one, but
for two places: from -1 to 0 it falls by 2^64, and from `INT_MAX` to `INT_MIN` it rises by 2^64 - 2^32. The rotation
goes on over such a place exactly if the number of connections divides what is lost or gained there.
-/

namespace LtApp.Mysql

/-- `m` calls of `get_client` one after another, each in at most `n` turns: what they return. -/
def Pool.getClients (n : Nat) : Nat → Pool → Option (Except Stop (List (Option Nat)))
  | 0, _ => some (.ok [])
  | m + 1, p =>
    match p.getClient n with
    | none => none
    | some (.error e) => some (.error e)
    | some (.ok (useIndex, r)) =>
      (Pool.getClients n m { p with useIndex := useIndex }).map fun rs => rs.map (r :: ·)

/-- As many calls of `get_client` as there are connections return a connection each, and no two the same. -/
def SpreadsEvenly (p : Pool) : Prop :=
  ∃ n rs, p.getClients n p.connections.length = some (.ok rs) ∧ (∀ r ∈ rs, r.isSome = true) ∧ rs.Nodup

/-- The value of `use_index_` the `k`-th of the calls to come looks at. -/
def Pool.turn (p : Pool) (k : Nat) : BitVec 32 := p.useIndex + 1 + BitVec.ofNat 32 k

/-- One of these calls, and not the last of them, looks at the value. -/
def Pool.Passes (p : Pool) (v : BitVec 32) : Prop := ∃ k, k + 1 < p.connections.length ∧ p.turn k = v

/-! ## What the calls return -/

section
variable {p : Pool}

/-- **Each call moves on by one.** -/
theorem getClients_eq (hne : p.connections ≠ []) (hready : ∀ c ∈ p.connections, c.ready = true) (n m : Nat) :
    p.getClients (n + 1) m =
      some (.ok ((List.range m).map fun k => some (toSizeT (p.turn k) % p.connections.length))) := by
  induction m generalizing p with
  | zero => rfl
  | succ m ih =>
    obtain ⟨c, hc⟩ := exists_tried hne
    have hr : c.ready = true := hready c (List.mem_of_getElem? hc)
    have hnext : ∀ k, ({ p with useIndex := p.useIndex + 1 } : Pool).turn k = p.turn (k + 1) := by
      intro k
      have hk : BitVec.ofNat 32 (k + 1) = 1 + BitVec.ofNat 32 k := by
        rw [BitVec.ofNat_add, BitVec.add_comm]
        rfl
      simp only [Pool.turn, hk, BitVec.add_assoc]
    have hfirst : p.turn 0 = p.useIndex + 1 := by simp [Pool.turn]
    have hrest : Pool.getClients (n + 1) m { p with useIndex := p.useIndex + 1 } =
        some (.ok ((List.range m).map fun k => some (toSizeT (p.turn (k + 1)) % p.connections.length))) := by
      rw [ih (p := { p with useIndex := p.useIndex + 1 }) hne hready]
      simp only [hnext]
    rw [Pool.getClients, getClient_eq hne hc]
    simp only [hr, if_true, hrest, Option.map_some, Except.map, List.range_succ_eq_map, List.map_cons, List.map_map,
      Function.comp_def, hfirst, Pool.tried]

/-- The calls spread evenly exactly if the numbers they reduce are different modulo the number of connections. -/
theorem spreadsEvenly_iff_spread (hne : p.connections ≠ []) (hready : ∀ c ∈ p.connections, c.ready = true) :
    SpreadsEvenly p ↔ Spread p.connections.length fun k => toSizeT (p.turn k) := by
  have hnodup : ∀ f : Nat → Nat, ((List.range p.connections.length).map fun k => some (f k % p.connections.length)).Nodup ↔
      Spread p.connections.length f := by
    intro f
    rw [List.nodup_map_iff_inj_on List.nodup_range]
    simp [Spread, Nat.ModEq]
  constructor
  · rintro ⟨n, rs, hrs, -, hd⟩
    cases n with
    | zero =>
      obtain ⟨m, hm⟩ := Nat.exists_eq_succ_of_ne_zero (mt List.length_eq_zero_iff.1 hne)
      rw [hm] at hrs
      cases hrs
    | succ n =>
      rw [getClients_eq hne hready] at hrs
      obtain rfl := Except.ok.inj (Option.some.inj hrs)
      exact (hnodup _).1 hd
  · intro hs
    exact ⟨1, _, getClients_eq hne hready 0 _, by simp, (hnodup _).2 hs⟩

end

/-! ## The numbers -/

theorem toSizeT_eq (b : BitVec 32) :
    toSizeT b = if b.toNat < 2147483648 then b.toNat else b.toNat + 18446744069414584320 := by
  unfold toSizeT
  rw [BitVec.toNat_signExtend, BitVec.msb_eq_decide, BitVec.toNat_setWidth]
  have hlt := b.isLt
  simp only [decide_eq_true_eq]
  split <;> split <;> omega

theorem turn_toNat (p : Pool) (k : Nat) : (p.turn k).toNat = ((p.useIndex + 1).toNat + k) % 4294967296 := by
  simp [Pool.turn]

theorem turn_eq_minusOne {p : Pool} {k : Nat} :
    p.turn k = -1 ↔ ((p.useIndex + 1).toNat + k) % 4294967296 = 4294967295 := by
  rw [← turn_toNat, ← BitVec.toNat_inj]
  rfl

theorem turn_eq_intMax {p : Pool} {k : Nat} :
    p.turn k = BitVec.intMax 32 ↔ ((p.useIndex + 1).toNat + k) % 4294967296 = 2147483647 := by
  rw [← turn_toNat, ← BitVec.toNat_inj]
  rfl

section
variable {p : Pool} {j k : Nat}

/-- From call to call the number goes up by one, -/
theorem turn_up (hz : p.turn k ≠ -1) (hm : p.turn k ≠ BitVec.intMax 32) :
    toSizeT (p.turn (k + 1)) = toSizeT (p.turn k) + 1 := by
  rw [Ne, turn_eq_minusOne] at hz
  rw [Ne, turn_eq_intMax] at hm
  rw [toSizeT_eq, toSizeT_eq, turn_toNat, turn_toNat]
  split <;> split <;> omega

/-- but from -1 to 0, -/
theorem turn_minusOne (h : p.turn k = -1) :
    toSizeT (p.turn k) + 1 = 18446744073709551616 ∧ toSizeT (p.turn (k + 1)) = 0 := by
  rw [turn_eq_minusOne] at h
  rw [toSizeT_eq, toSizeT_eq, turn_toNat, turn_toNat]
  split <;> split <;> omega

/-- and from `INT_MAX` to `INT_MIN`. -/
theorem turn_intMax (h : p.turn k = BitVec.intMax 32) :
    toSizeT (p.turn k) + 1 = 2147483648 ∧ toSizeT (p.turn (k + 1)) = 18446744071562067968 := by
  rw [turn_eq_intMax] at h
  rw [toSizeT_eq, toSizeT_eq, turn_toNat, turn_toNat]
  split <;> split <;> omega

/-- The rotation goes on after -1. -/
theorem modEq_minusOne {n : Nat} (h : p.turn k = -1) :
    toSizeT (p.turn (k + 1)) ≡ toSizeT (p.turn k) + 1 [MOD n] ↔ n ∣ 2 ^ 64 := by
  obtain ⟨hlast, hnext⟩ := turn_minusOne h
  rw [hlast, hnext, Nat.ModEq.comm, Nat.modEq_zero_iff_dvd]
  rfl

/-- It goes on after `INT_MAX`. -/
theorem modEq_intMax {n : Nat} (h : p.turn k = BitVec.intMax 32) :
    toSizeT (p.turn (k + 1)) ≡ toSizeT (p.turn k) + 1 [MOD n] ↔ n ∣ 2 ^ 64 - 2 ^ 32 := by
  obtain ⟨hlast, hnext⟩ := turn_intMax h
  rw [hlast, hnext, Nat.ModEq.comm, Nat.modEq_iff_dvd' (by omega)]
  rfl

/-- A window that goes over both places is longer than 2^31, and no longer than the counter's range. -/
theorem gap_between (hk : p.turn k = -1) (hj : p.turn j = BitVec.intMax 32) (hlt : k < 4294967296) (hlt' : j < 4294967296) :
    k < j ∧ j = k + 2147483648 ∨ j < k ∧ k = j + 2147483648 := by
  rw [turn_eq_minusOne] at hk
  rw [turn_eq_intMax] at hj
  omega

/-- Either value is looked at once in a range of the counter. -/
theorem turn_inj (h : p.turn j = p.turn k) (hj : j < 4294967296) (hk : k < 4294967296) : j = k := by
  have hn := congrArg BitVec.toNat h
  rw [turn_toNat, turn_toNat] at hn
  omega

end

/-! ## Round robin -/

/-- More connections than the counter has values are not all looked at. -/
theorem Spread.le_counter {p : Pool} {n : Nat} (h : Spread n fun k => toSizeT (p.turn k)) : n ≤ 4294967296 := by
  by_contra hn
  have hsame : p.turn 0 = p.turn 4294967296 := by
    rw [← BitVec.toNat_inj, turn_toNat, turn_toNat]
    omega
  have hz : 0 = 4294967296 := h 0 (by omega) 4294967296 (by omega) (congrArg (toSizeT · % n) hsame)
  omega

theorem spread_of_dvd {p : Pool} (hzero : p.Passes (-1) → p.connections.length ∣ 2 ^ 64)
    (hmax : p.Passes (BitVec.intMax 32) → p.connections.length ∣ 2 ^ 64 - 2 ^ 32) :
    Spread p.connections.length fun k => toSizeT (p.turn k) := by
  refine spread_of_steps fun k hk => ?_
  by_cases hz : p.turn k = -1
  · exact (modEq_minusOne hz).2 (hzero ⟨k, hk, hz⟩)
  · by_cases hm : p.turn k = BitVec.intMax 32
    · exact (modEq_intMax hm).2 (hmax ⟨k, hk, hm⟩)
    · show toSizeT (p.turn (k + 1)) ≡ toSizeT (p.turn k) + 1 [MOD p.connections.length]
      rw [turn_up hz hm]

/-- **Round robin.** With all connections ready, `n` calls return the `n` connections in turn exactly if `n` divides
2^64 where they count from -1 to 0, and 2^64 - 2^32 where they count from `INT_MAX` to `INT_MIN`. -/
theorem spreads_evenly_iff (p : Pool) (hne : p.connections ≠ []) (hready : ∀ c ∈ p.connections, c.ready = true) :
    SpreadsEvenly p ↔ (p.Passes (-1) → p.connections.length ∣ 2 ^ 64) ∧
      (p.Passes (BitVec.intMax 32) → p.connections.length ∣ 2 ^ 64 - 2 ^ 32) := by
  rw [spreadsEvenly_iff_spread hne hready]
  constructor
  · intro h
    have hn := Spread.le_counter h
    have hup : ∀ k, p.turn k ≠ -1 → p.turn k ≠ BitVec.intMax 32 →
        toSizeT (p.turn (k + 1)) ≡ toSizeT (p.turn k) + 1 [MOD p.connections.length] := by
      intro k hz hm
      rw [turn_up hz hm]
    -- both places at once: the two gaps have not changed places, as 2^31 is too small to close the window
    have hboth : ∀ k j, p.turn k = -1 → p.turn j = BitVec.intMax 32 → k + 1 < p.connections.length →
        j + 1 < p.connections.length → p.connections.length ∣ 2 ^ 64 ∧ p.connections.length ∣ 2 ^ 64 - 2 ^ 32 := by
      intro k j hk hj hkn hjn
      have hother : ∀ i, i + 1 < p.connections.length → i ≠ k → i ≠ j →
          toSizeT (p.turn (i + 1)) ≡ toSizeT (p.turn i) + 1 [MOD p.connections.length] := by
        intro i hi hik hij
        exact hup i (fun hz => hik (turn_inj (hz.trans hk.symm) (by omega) (by omega)))
          fun hm => hij (turn_inj (hm.trans hj.symm) (by omega) (by omega))
      have hsmall : ¬ p.connections.length ∣ 2147483648 := by
        intro hd
        have := Nat.le_of_dvd (by omega) hd
        rcases gap_between hk hj (by omega) (by omega) with ⟨-, hgap⟩ | ⟨-, hgap⟩ <;> omega
      rw [← modEq_minusOne hk, ← modEq_intMax hj]
      rcases gap_between hk hj (by omega) (by omega) with ⟨hlt, -⟩ | ⟨hlt, -⟩
      · refine h.steps hlt hjn hother fun hswap => hsmall ?_
        simp only [(turn_intMax hj).2, (turn_minusOne hk).1] at hswap
        simpa using (Nat.modEq_iff_dvd' (by omega)).1 hswap
      · refine (h.steps hlt hkn (fun i hi hij hik => hother i hi hik hij) fun hswap => hsmall ?_).symm
        simp only [(turn_intMax hj).1, (turn_minusOne hk).2] at hswap
        exact (Nat.modEq_zero_iff_dvd).1 hswap.symm
    constructor
    · rintro ⟨k, hkn, hk⟩
      by_cases hm : p.Passes (BitVec.intMax 32)
      · obtain ⟨j, hjn, hj⟩ := hm
        exact (hboth k j hk hj hkn hjn).1
      · refine (modEq_minusOne hk).1 (h.step hkn fun i hi hik => hup i (fun hz => hik ?_) fun hi' => hm ⟨i, hi, hi'⟩)
        exact turn_inj (hz.trans hk.symm) (by omega) (by omega)
    · rintro ⟨j, hjn, hj⟩
      by_cases hz : p.Passes (-1)
      · obtain ⟨k, hkn, hk⟩ := hz
        exact (hboth k j hk hj hkn hjn).2
      · refine (modEq_intMax hj).1 (h.step hjn fun i hi hij => hup i (fun hi' => hz ⟨i, hi, hi'⟩) fun hm => hij ?_)
        exact turn_inj (hm.trans hj.symm) (by omega) (by omega)
  · rintro ⟨hzero, hmax⟩
    exact spread_of_dvd hzero hmax

/-- `n` connections, all ready, with a value of `use_index_`. -/
def readyPool (n : Nat) (useIndex : BitVec 32) : Pool :=
  { count := n, useIndex,
    connections := List.replicate n { errNo := 0, currentState := .connectionIdle, client := true, ready := true } }

/-- Two connections, counting from -1 to 0. -/
theorem spreads_evenly_two : SpreadsEvenly (readyPool 2 (-2)) :=
  (spreads_evenly_iff (readyPool 2 (-2)) (by decide) (by decide)).2 ⟨fun _ => by decide, fun _ => by decide⟩

/-- **Three connections, counting from -1 to 0**: the first is returned twice, the last is left out. -/
theorem rotation_stumbles : (readyPool 3 (-2)).getClients 1 3 = some (.ok [some 0, some 0, some 1]) ∧
    ¬ SpreadsEvenly (readyPool 3 (-2)) := by
  have hcalls : (readyPool 3 (-2)).getClients 1 3 = some (.ok [some 0, some 0, some 1]) := rfl
  refine ⟨hcalls, fun h => ?_⟩
  have hs := (spreadsEvenly_iff_spread (p := readyPool 3 (-2)) (by decide) (by decide)).1 h
  have hsame : 0 = 1 := hs 0 (by decide) 1 (by decide) (by decide)
  cases hsame

/-- A power of two of connections is rotated evenly for ever. -/
theorem spreadsEvenly_of_dvd {p : Pool} (hne : p.connections ≠ []) (hready : ∀ c ∈ p.connections, c.ready = true)
    (h : p.connections.length ∣ 2 ^ 32) : SpreadsEvenly p := by
  rw [spreadsEvenly_iff_spread hne hready]
  exact spread_of_dvd (fun _ => h.trans (by decide)) fun _ => h.trans (by decide)

end LtApp.Mysql
