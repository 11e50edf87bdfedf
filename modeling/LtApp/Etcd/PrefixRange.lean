import LtApp.Base.Lex

/-!
# The interval of a prefix request

| here | there |
| --- | --- |
| `nextKey`                     | the three lines that turn `key` into `range_end` (`etcd_client.cc:86`, `etcd_watcher.cc:30`) |
| `range`                       | the request `EtcdClientV3::Range` sends (`etcd_client.cc:79`) |
| `watch`                       | the create request of `EtcdWatcher::Watch` (`etcd_watcher.cc:17`) |
| `InRange`                     | **etcd boundary**: the keys `[key, range_end)` selects (`rpc.proto:233`, `:507`) |

`char` is signed. Bytes are compared unsigned, as etcd does.
-/

namespace LtApp.Etcd

/-- A protobuf `bytes` field, or a `std::string` whose bytes the code looks at. -/
abbrev Bytes := List UInt8

/-- `(int)c`. -/
def charToInt (c : UInt8) : Int := c.toBitVec.toInt

/-- An `int` assigned to a `char`. -/
def intToChar (n : Int) : UInt8 := ⟨BitVec.ofInt 8 n⟩

/-- `key` with its last character incremented; `none` where there is none to read. -/
def nextKey (key : Bytes) : Option Bytes :=
  key.getLast?.map fun c => key.dropLast ++ [intToChar (charToInt c + 1)]

inductive SortTarget
  | key | version | create | mod | value
deriving DecidableEq, Repr

inductive SortOrder
  | none | ascend | descend
deriving DecidableEq, Repr

structure RangeRequest where
  key        : Bytes
  rangeEnd   : Bytes := []
  sortOrder  : SortOrder := .none
  sortTarget : SortTarget := .key
deriving DecidableEq, Repr

structure WatchCreateRequest where
  key           : Bytes
  rangeEnd      : Bytes := []
  startRevision : Int := 0
  prevKv        : Bool := false
  watchId       : Int := 0
deriving DecidableEq, Repr

def range (key : Bytes) (withPrefix : Bool) : Option RangeRequest :=
  if withPrefix then (nextKey key).map fun e => { key, rangeEnd := e, sortTarget := .key, sortOrder := .ascend }
  else some { key }

def watch (key : Bytes) (withPrefix : Bool) : Option WatchCreateRequest :=
  let req : WatchCreateRequest := { key, prevKv := true, startRevision := 0, watchId := 1 }
  if withPrefix then (nextKey key).map fun e => { req with rangeEnd := e } else some req

/-- The documented meaning of the two fields: one key if `range_end` is not given, no upper bound if it is the
byte 0. -/
def InRange (key rangeEnd k : Bytes) : Prop :=
  if rangeEnd = [] then k = key else key ≤ k ∧ (rangeEnd = [0] ∨ k < rangeEnd)

instance (key rangeEnd k : Bytes) : Decidable (InRange key rangeEnd k) := by unfold InRange; infer_instance

/-- Both requests select the keys with the prefix and no others, and they have the same `range_end`. -/
def CoversPrefix (key : Bytes) : Prop :=
  ∃ r w, range key true = some r ∧ watch key true = some w ∧ r.rangeEnd = w.rangeEnd ∧
    ∀ k, (InRange r.key r.rangeEnd k ↔ key <+: k) ∧ (InRange w.key w.rangeEnd k ↔ key <+: k)

/-- The increment is one modulo 256, whatever the sign. -/
theorem intToChar_succ (c : UInt8) : intToChar (charToInt c + 1) = c + 1 := by
  have : BitVec.ofInt 8 (c.toBitVec.toInt + 1) = c.toBitVec + 1 := by
    rw [BitVec.ofInt_add, BitVec.ofInt_toInt]; rfl
  exact congrArg UInt8.ofBitVec this

theorem nextKey_concat (p : Bytes) (c : UInt8) : nextKey (p ++ [c]) = some (p ++ [c + 1]) := by
  simp [nextKey, intToChar_succ]

theorem covBy_succ {c : UInt8} (h : c ≠ 0xff) : c ⋖ c + 1 := by
  have hn : c.toNat < 255 := by
    have := c.toNat_lt
    have : c.toNat ≠ 255 := fun he => h (UInt8.toNat_inj.1 he)
    omega
  have hs : (c + 1).toNat = c.toNat + 1 := by
    rw [UInt8.toNat_add]
    exact Nat.mod_eq_of_lt (by show c.toNat + 1 < 256; omega)
  refine ⟨UInt8.lt_iff_toNat_lt.2 (by omega), fun d hcd hd => ?_⟩
  rw [UInt8.lt_iff_toNat_lt] at hcd hd
  omega

theorem not_lt_ff (c : UInt8) : ¬ 0xff < c := by
  rw [UInt8.lt_iff_toNat_lt]
  have := c.toNat_lt
  show ¬ 255 < c.toNat
  omega

/-- What both functions send. -/
theorem coversPrefix_iff_nextKey (p : Bytes) (c : UInt8) :
    CoversPrefix (p ++ [c]) ↔ ∀ k, InRange (p ++ [c]) (p ++ [c + 1]) k ↔ p ++ [c] <+: k := by
  simp [CoversPrefix, range, watch, nextKey_concat]

theorem inRange_of_ne {p : Bytes} {c : UInt8} (h : c ≠ 0xff) (k : Bytes) :
    InRange (p ++ [c]) (p ++ [c + 1]) k ↔ p ++ [c] <+: k := by
  have hc := covBy_succ h
  have hzero : p ++ [c + 1] ≠ [0] := by
    intro he
    cases p with
    | nil =>
      have hlt := hc.1
      rw [(List.cons.inj he).1, UInt8.lt_iff_toNat_lt] at hlt
      exact Nat.not_lt_zero _ hlt
    | cons x p => simp at he
  simp [InRange, hzero, Lex.prefix_iff hc]

/-- **A prefix request covers exactly the prefix**, unless the key ends in `0xff` after other bytes. -/
theorem prefix_covered_iff (key : Bytes) (hkey : key ≠ []) :
    CoversPrefix key ↔ key.getLast hkey ≠ 0xff ∨ key.length = 1 := by
  obtain ⟨p, c, rfl⟩ : ∃ p c, key = p ++ [c] := ⟨_, _, (List.dropLast_concat_getLast hkey).symm⟩
  rw [coversPrefix_iff_nextKey, List.getLast_concat]
  by_cases hc : c = 0xff
  · subst hc
    cases p with
    | nil => simp [InRange, show (0xff + 1 : UInt8) = 0 from rfl, Lex.singleton_le_iff not_lt_ff]
    | cons x p =>
      -- the upper bound is below the key, so the key itself is not selected
      refine iff_of_false (fun h => ?_) (by simp)
      have hself := (h (x :: p ++ [0xff])).2 List.prefix_rfl
      simp only [InRange, show (0xff + 1 : UInt8) = 0 from rfl] at hself
      have hlt := (hself.2.resolve_left (by simp))
      rw [Lex.append_lt_append] at hlt
      exact absurd hlt (by decide)
  · exact iff_of_true (inRange_of_ne hc) (.inl hc)

theorem prefix_covered_iff_slash : CoversPrefix [0x2f, 0x61, 0x2f] :=
  (prefix_covered_iff [0x2f, 0x61, 0x2f] (by simp)).2 (.inl (by decide))

/-- **`a\xff` selects nothing**, not even the key itself; its documented upper bound is `b`. -/
theorem ff_not_covered : ¬ CoversPrefix [0x61, 0xff] := by
  intro h
  have hall := (coversPrefix_iff_nextKey [0x61] 0xff).1 h
  have hself : InRange [0x61, 0xff] [0x61, 0x00] [0x61, 0xff] := (hall [0x61, 0xff]).2 List.prefix_rfl
  exact absurd hself (by decide)

end LtApp.Etcd
