import Mathlib.Data.List.TakeWhile
import LtApp.Mysql.Session

/-!
# The queries `async_queries` is given

| here | there |
| --- | --- |
| `QueryEntry`     | `struct query_entry` (`mysql_async_offcial.cc:38`); the list itself is a `List` |
| `QueryList`      | `query_list` and `query_counter` (`:43-45`) |
| `addQuery`       | `add_query` (`:307`) |
| `fgets`          | the C function, for a buffer of one byte more than the bound |
| `readFile`       | the `while` loop over the query file (`:379-384`) |
| `givenQueries`   | `main` up to `event_init` (`:375-392`) |

`add_query` looks for a trailing newline at `q2[strlen(q2)]`, where there is always a NUL, so it never takes one off
(`stored_eq`). The queries of a file are the file, cut after each newline and where the buffer is full
(`queries_partition`).
-/

namespace LtApp.AsyncQueries

open Mysql (Bytes cStr)

structure QueryEntry where
  query : Bytes
  index : Nat
deriving DecidableEq, Repr

structure QueryList where
  queryList    : List QueryEntry := []
  queryCounter : Nat := 0
deriving DecidableEq, Repr

/-- `if (q2[len] == c) q2[len--] = '\0';` -/
def chomp (c : UInt8) (s : Bytes × Nat) : Bytes × Nat :=
  if s.1.getD s.2 0 = c then (s.1.set s.2 0, s.2 - 1) else s

/-- The text an entry ends up with. -/
def stored (q : Bytes) : Bytes :=
  let q2 := cStr q ++ [0]
  cStr (chomp 13 (chomp 10 (q2, (cStr q2).length))).1

def addQuery (l : QueryList) (q : Bytes) : QueryList :=
  { queryList := l.queryList ++ [⟨stored q, l.queryCounter⟩], queryCounter := l.queryCounter + 1 }

/-- At most `n` bytes, up to the first newline and with it; what has been read, and what is left of the file. -/
def fgets : Nat → Bytes → Bytes × Bytes
  | 0, f => ([], f)
  | _ + 1, [] => ([], [])
  | n + 1, b :: f => if b = 10 then ([b], f) else ((b :: (fgets n f).1), (fgets n f).2)

/-- `sizeof(buf) - 1`. -/
def bufSize : Nat := 65535

theorem fgets_append (n : Nat) (f : Bytes) : (fgets n f).1 ++ (fgets n f).2 = f := by
  induction n, f using fgets.induct with
  | case1 f => rfl
  | case2 n => rfl
  | case3 n f => simp [fgets]
  | case4 n b f hb ih => simp [fgets, hb, ih]

theorem fgets_length_lt {n : Nat} {f : Bytes} (h : (fgets n f).1 ≠ []) : (fgets n f).2.length < f.length := by
  have happ := congrArg List.length (fgets_append n f)
  have hpos := List.length_pos_iff.2 h
  rw [List.length_append] at happ
  omega

/-- The lines `fgets` returns until it returns `NULL`. -/
def readFile (f : Bytes) : List Bytes :=
  if _ : (fgets bufSize f).1 = [] then [] else (fgets bufSize f).1 :: readFile (fgets bufSize f).2
termination_by f.length
decreasing_by exact fgets_length_lt ‹_›

def givenQueries (file : Option Bytes) (args : List Bytes) : QueryList :=
  (((file.map readFile).getD []) ++ args).foldl addQuery {}

/-! ## `add_query` -/

theorem cStr_append_zero (q : Bytes) : cStr (cStr q ++ [0]) = cStr q := by
  have h : ∀ x ∈ cStr q, (x != 0) = true := by
    intro x hx
    exact List.mem_takeWhile_imp (p := (· != 0)) hx
  rw [show cStr (cStr q ++ [0]) = (cStr q ++ [0]).takeWhile (· != 0) from rfl, List.takeWhile_append_of_pos h]
  simp

/-- The byte at `strlen(q2)` is the terminator. -/
theorem chomp_terminator {c : UInt8} (hc : c ≠ 0) (q : Bytes) :
    chomp c (cStr q ++ [0], (cStr q).length) = (cStr q ++ [0], (cStr q).length) := by
  unfold chomp
  rw [if_neg]
  simpa using hc.symm

/-- **Nothing is taken off the end of a line.** -/
theorem stored_eq (q : Bytes) : stored q = cStr q := by
  unfold stored
  simp only [cStr_append_zero]
  rw [chomp_terminator (by decide), chomp_terminator (by decide), cStr_append_zero]

theorem foldl_addQuery (qs : List Bytes) (l : QueryList) (h : l.queryList.map (·.index) = List.range l.queryCounter) :
    (qs.foldl addQuery l).queryList.map (·.query) = l.queryList.map (·.query) ++ qs.map cStr ∧
    (qs.foldl addQuery l).queryList.map (·.index) = List.range (qs.foldl addQuery l).queryCounter := by
  induction qs generalizing l with
  | nil => simpa using h
  | cons q qs ih =>
    have hq : (addQuery l q).queryList.map (·.index) = List.range (addQuery l q).queryCounter := by
      simp [addQuery, h, List.range_succ]
    obtain ⟨htext, hidx⟩ := ih (addQuery l q) hq
    refine ⟨?_, hidx⟩
    rw [List.foldl_cons, htext]
    simp [addQuery, stored_eq]

/-! ## The file -/

theorem fgets_length_le (n : Nat) (f : Bytes) : (fgets n f).1.length ≤ n := by
  induction n, f using fgets.induct with
  | case1 f => simp [fgets]
  | case2 n => simp [fgets]
  | case3 n f => simp [fgets]
  | case4 n b f hb ih => simpa [fgets, hb] using ih

/-- A newline ends the line. -/
theorem fgets_newline (n : Nat) (f : Bytes) : (10 : UInt8) ∉ (fgets n f).1.dropLast := by
  induction n, f using fgets.induct with
  | case1 f => simp [fgets]
  | case2 n => simp [fgets]
  | case3 n f => simp [fgets]
  | case4 n b f hb ih =>
    rw [fgets, if_neg hb]
    intro hm
    cases hl : (fgets n f).1 with
    | nil => simp [hl] at hm
    | cons c l =>
      rw [hl] at hm ih
      rw [List.dropLast_cons_of_ne_nil (by simp), List.mem_cons] at hm
      rcases hm with hm | hm
      · exact hb hm.symm
      · exact ih hm

/-- Reading stops at a newline, where the buffer is full, or at the end of the file. -/
theorem fgets_stops (n : Nat) (f : Bytes) :
    (fgets n f).1.getLast? = some 10 ∨ (fgets n f).1.length = n ∨ (fgets n f).2 = [] := by
  induction n, f using fgets.induct with
  | case1 f => simp [fgets]
  | case2 n => simp [fgets]
  | case3 n f => simp [fgets]
  | case4 n b f hb ih =>
    rw [fgets, if_neg hb]
    rcases ih with hlast | hlen | hrest
    · refine .inl ?_
      rw [List.getLast?_cons, hlast]
      rfl
    · exact .inr (.inl (by simpa using hlen))
    · exact .inr (.inr hrest)

/-- There is a line as long as there is something left. -/
theorem fgets_eq_nil {n : Nat} {f : Bytes} (h : (fgets (n + 1) f).1 = []) : f = [] := by
  cases f with
  | nil => rfl
  | cons b f => by_cases hb : b = 10 <;> simp [fgets, hb] at h

theorem readFile_flatten (f : Bytes) : (readFile f).flatten = f := by
  induction f using readFile.induct with
  | case1 f h =>
    rw [readFile, dif_pos h]
    exact (fgets_eq_nil h).symm
  | case2 f h ih =>
    rw [readFile, dif_neg h, List.flatten_cons, ih, fgets_append]

theorem readFile_line (f : Bytes) : ∀ l ∈ readFile f, l ≠ [] ∧ l.length ≤ bufSize ∧ (10 : UInt8) ∉ l.dropLast := by
  induction f using readFile.induct with
  | case1 f h => simp [readFile, h]
  | case2 f h ih =>
    rw [readFile, dif_neg h]
    exact List.forall_mem_cons.2 ⟨⟨h, fgets_length_le _ f, fgets_newline _ f⟩, ih⟩

theorem readFile_cut (f : Bytes) : ∀ pre l post, readFile f = pre ++ l :: post → post ≠ [] →
    l.getLast? = some 10 ∨ l.length = bufSize := by
  induction f using readFile.induct with
  | case1 f h =>
    intro pre l post he
    simp [readFile, h] at he
  | case2 f h ih =>
    intro pre l post he hpost
    rw [readFile, dif_neg h] at he
    cases pre with
    | cons p pre => exact ih pre l post (List.cons.inj he).2 hpost
    | nil =>
      obtain ⟨rfl, hrest⟩ := List.cons.inj he
      rcases fgets_stops bufSize f with hlast | hlen | hnil
      · exact .inl hlast
      · exact .inr hlen
      · rw [hnil, readFile] at hrest
        simp [fgets, bufSize] at hrest
        exact absurd hrest hpost

/-- **The queries of a file are the file**: cut into lines that are not empty and fit the buffer, each ending in its
newline unless the buffer was full or the file ended; then come the arguments. Each query is its line, newline and all,
up to a NUL, and they are numbered in order. -/
theorem queries_partition (f : Bytes) (args : List Bytes) :
    ∃ lines : List Bytes, lines.flatten = f ∧
      (givenQueries (some f) args).queryList.map (·.query) = (lines ++ args).map cStr ∧
      (givenQueries (some f) args).queryList.map (·.index) = List.range (lines ++ args).length ∧
      (∀ l ∈ lines, l ≠ [] ∧ l.length ≤ bufSize ∧ (10 : UInt8) ∉ l.dropLast) ∧
      ∀ pre l post, lines = pre ++ l :: post → post ≠ [] → l.getLast? = some 10 ∨ l.length = bufSize := by
  obtain ⟨htext, hidx⟩ := foldl_addQuery (readFile f ++ args) {} rfl
  refine ⟨readFile f, readFile_flatten f, by simpa [givenQueries] using htext, ?_, readFile_line f, readFile_cut f⟩
  have hlen := congrArg List.length hidx
  have hlen' := congrArg List.length htext
  simp only [List.length_map, List.length_range, List.nil_append, List.map_nil] at hlen hlen'
  simp only [givenQueries, Option.map_some, Option.getD_some]
  rw [hidx, ← hlen, hlen']

end LtApp.AsyncQueries
