import Mathlib.Data.List.Basic

/-!
# Query sessions, and what libmysql can answer

| here | there |
| --- | --- |
| `Session`                     | `QuerySession` (`query_session.h:25`) |
| `setCode`, `pendingRow`, ...  | the mutators of `query_session.cc` |
| `WaitStatus`                  | the `MYSQL_WAIT_*` bits of a non-blocking call's return value |
| `Answer`                      | **libmysql boundary**: everything the client library may report during one pass of the `HandleState` loop |
| `MysqlRes`, `Row`             | `MYSQL_RES`, `MYSQL_ROW` (`char**`, one pointer a column) |

The client library is not under `src/`. It enters as the `Answer`s a handler is given; nothing is
assumed of them here, and each result that relies on a documented property of the library names it.
-/

namespace LtApp.Mysql

/-- A `std::string` whose bytes the code looks at. -/
abbrev Bytes := List UInt8

/-- The bytes a C function reads from `s.c_str()`: up to the first NUL. -/
def cStr (s : Bytes) : Bytes := s.takeWhile (· != 0)

/-- Conversion of a `my_ulonglong` to the `int` parameters of `SetResultRows`/`SetAffectedRows`. -/
def toInt32 (n : Nat) : Int := (BitVec.ofNat 32 n).toInt

/-- A `MYSQL_ROW`: `none` is a NULL pointer. -/
abbrev Row := List (Option Bytes)

/-- A result set handle: its identity, and the column names `mysql_fetch_field` walks over. -/
structure MysqlRes where
  id     : Nat
  fields : List Bytes
deriving DecidableEq, Repr

/-! ## `QuerySession` -/

/-- `QuerySession`. `id` is the identity of the object; `finishCallback` says whether a callback is
installed, i.e. whether `OnQueryDone` still has one to run. -/
structure Session where
  id             : Nat
  query          : Bytes := []
  dbName         : Bytes := []
  code           : Int := 0
  errMessage     : String := ""
  resultCount    : Int := 0
  affectedRows   : Int := 0
  columNames     : List Bytes := []
  results        : List (List Bytes) := []
  finishCallback : Bool := true
deriving DecidableEq, Repr

namespace Session

/-- `SetCode` (`query_session.cc:29`, `:34`). -/
def setCode (q : Session) (code : Int) (message : String) : Session :=
  { q with code := code, errMessage := message }

def setResultRows (q : Session) (rows : Nat) : Session := { q with resultCount := toInt32 rows }

def setAffectedRows (q : Session) (line : Nat) : Session := { q with affectedRows := toInt32 line }

/-- `PendingRow` (`query_session.cc:39`). -/
def pendingRow (q : Session) (row : List Bytes) : Session := { q with results := q.results ++ [row] }

@[simp] theorem setCode_id (q : Session) (c : Int) (m : String) : (q.setCode c m).id = q.id := rfl
@[simp] theorem setResultRows_id (q : Session) (n : Nat) : (q.setResultRows n).id = q.id := rfl
@[simp] theorem pendingRow_id (q : Session) (r : List Bytes) : (q.pendingRow r).id = q.id := rfl
@[simp] theorem pendingRow_dbName (q : Session) (r : List Bytes) :
    (q.pendingRow r).dbName = q.dbName := rfl

end Session

/-! ## Wait statuses and events -/

/-- The bits of a wait status, or of the event handed back to a `*_cont` call. -/
structure WaitStatus where
  read    : Bool := false
  write   : Bool := false
  except  : Bool := false
  timeout : Bool := false
deriving DecidableEq, Repr

/-- `status == 0`: the operation has finished. -/
def WaitStatus.isZero (s : WaitStatus) : Bool := !(s.read || s.write || s.except || s.timeout)

/-- A nonzero status names something this code can wait for: `READ`, `WRITE` or `TIMEOUT`. -/
def WaitStatus.Sound (s : WaitStatus) : Prop := s.isZero = false → s.read ∨ s.write ∨ s.timeout

instance (s : WaitStatus) : Decidable s.Sound := by unfold WaitStatus.Sound; infer_instance

/-- `base::LtEvent` as far as it is looked at. -/
structure LtEvent where
  read  : Bool := false
  write : Bool := false
  error : Bool := false
deriving DecidableEq, Repr

/-- `LtEvToMysqlStatus` (`mysql_async_con.cc:54`). -/
def ltEvToMysqlStatus (e : LtEvent) : WaitStatus :=
  { read := e.read, write := e.write, except := e.error }

/-! ## Answers -/

/-- What the library reports during one pass of the loop. A pass makes at most one call that can talk
to the server; the calls it makes after that one read the state the call left behind. -/
structure Answer where
  /-- Wait status returned by a `*_start` or `*_cont` call. -/
  status       : WaitStatus := {}
  /-- `int` out-parameter of `mysql_select_db_*`/`mysql_real_query_*`; return value of `mysql_ping`. -/
  err          : Int := 0
  /-- Whether the `MYSQL*` a connect yields is non-NULL. -/
  ret          : Bool := false
  /-- The `MYSQL_ROW` a row fetch yields. -/
  row          : Option Row := none
  /-- Return value of `mysql_use_result`. -/
  res          : Option MysqlRes := none
  /-- `mysql_errno`, `mysql_error`, `mysql_num_rows`, `mysql_affected_rows`. -/
  errno        : Int := 0
  error        : String := ""
  numRows      : Nat := 0
  affectedRows : Nat := 0
  /-- `mysql_get_socket`, `mysql_get_timeout_value`. -/
  socket       : Int := 0
  timeoutValue : Nat := 0
deriving DecidableEq, Repr

end LtApp.Mysql
