import CppTry.Memory
import Mathlib.Data.List.Chain

namespace CppTry

/-- The results that a statement leaves, in their order. One without rows is `none`. -/
structure Answer (ρ : Type) where
  first : Option ρ
  more : List (Option ρ)

/-- The results of a procedure, and the status of the call behind them. -/
def Answer.call {ρ : Type} : List (Option ρ) → Answer ρ
  | [] => ⟨none, []⟩
  | first :: more => ⟨first, more ++ [none]⟩

/-- `MYSQL`, as far as the order of the calls depends on it. -/
structure MySQL (ρ : Type) where
  /-- the rows of the current result that have not been read -/
  unread : Option ρ
  /-- the results behind the current one -/
  pending : List (Option ρ)

namespace MySQL
variable {ρ : Type}

def ready (m : MySQL ρ) : Bool := m.unread.isNone && m.pending.isEmpty

/-- `mysql_next_result`; anything but 0 is `none`. -/
def nextResult (m : MySQL ρ) : Option (MySQL ρ) :=
  match m.unread, m.pending with
  | none, result :: pending => some ⟨result, pending⟩
  | _, _ => none

/-- `mysql_store_result`; `NULL` is `none`. -/
def storeResult (m : MySQL ρ) : Option ρ × MySQL ρ := (m.unread, { m with unread := none })

theorem nextResult_pending {m m' : MySQL ρ} (h : m.nextResult = some m') :
    m'.pending.length < m.pending.length := by
  unfold nextResult at h
  split at h
  next hp =>
    cases h
    rw [hp]
    exact Nat.lt_succ_self _
  next => cases h

def clearResult (m : MySQL ρ) : MySQL ρ :=
  match _h : m.nextResult with
  | some m' => clearResult m'.storeResult.2
  | none => m
termination_by m.pending.length
decreasing_by
  have hlt := nextResult_pending _h
  exact hlt

/-- `ClearResult` starts behind the current result, so that unread rows keep it from clearing. -/
theorem clearResult_eq (m : MySQL ρ) :
    m.clearResult = if m.unread.isSome then m else ⟨none, []⟩ := by
  fun_induction clearResult m with
  | case1 m m' h ih =>
    unfold nextResult at h
    split at h
    next hu hp =>
      rw [ih, hu]
      rfl
    next => cases h
  | case2 m h =>
    obtain ⟨unread, pending⟩ := m
    cases unread with
    | some rows => rfl
    | none =>
      cases pending with
      | nil => rfl
      | cons result pending => cases h

end MySQL

/-- `calls` has every `mysql_query` with whether the client was ready for it, `server` what of it
has reached the server. -/
structure MySQLWrap (ρ : Type) where
  mysql : MySQL ρ
  calls : List (List Byte × Bool)
  server : List (List Byte)

namespace MySQLWrap
variable {ρ : Type}

/-- Behind `Init`. -/
def init : MySQLWrap ρ := ⟨⟨none, []⟩, [], []⟩

/-- `mysql_query(&m_MySQL, sql) == 0`; `answer` is what the server has for the statement. -/
def mysqlQuery (w : MySQLWrap ρ) (sql : List Byte) (answer : Answer ρ) : Bool × MySQLWrap ρ :=
  let calls := w.calls ++ [(sql, w.mysql.ready)]
  if w.mysql.ready then (true, ⟨⟨answer.first, answer.more⟩, calls, w.server ++ [sql]⟩)
  else (false, { w with calls := calls })

def clearResult (w : MySQLWrap ρ) : MySQLWrap ρ := { w with mysql := w.mysql.clearResult }

def startMySQLQuery (w : MySQLWrap ρ) (sql : List Byte) (answer : Answer ρ) :
    Bool × MySQLWrap ρ :=
  w.clearResult.mysqlQuery sql answer

/-- The rows that the returned `MySQLResult` is initialised with. The program ends, `none`, at an
assertion or, where `NDEBUG` has taken these out, in `Init` at `mysql_num_fields(NULL)`. -/
def query (ndebug : Bool) (w : MySQLWrap ρ) (sql : List Byte) (answer : Answer ρ) :
    Option ρ × MySQLWrap ρ :=
  let (started, w) := w.startMySQLQuery sql answer
  if started || ndebug then
    let (res, mysql) := w.mysql.storeResult
    (res, { w with mysql := mysql })
  else (none, w)

def execute (w : MySQLWrap ρ) (sql : List Byte) (answer : Answer ρ) : Bool × MySQLWrap ρ :=
  w.startMySQLQuery sql answer

def doHeartBeat (w : MySQLWrap ρ) (answer : Answer ρ) : MySQLWrap ρ :=
  (w.execute (text "call sp_update_heart_beat") answer).2

def startTransaction (w : MySQLWrap ρ) (answer : Answer ρ) : MySQLWrap ρ :=
  (w.clearResult.mysqlQuery (text "START TRANSACTION") answer).2

def commit (w : MySQLWrap ρ) (answer : Answer ρ) : MySQLWrap ρ :=
  (w.mysqlQuery (text "COMMIT") answer).2

def rollBack (w : MySQLWrap ρ) (answer : Answer ρ) : MySQLWrap ρ :=
  (w.mysqlQuery (text "ROLLBACK") answer).2

def endTransaction (w : MySQLWrap ρ) (ok : Bool) (answer : Answer ρ) : MySQLWrap ρ :=
  if ok then w.commit answer else w.rollBack answer

/-- A call, with what the server has for its statement. -/
inductive Op (ρ : Type) where
  | query (sql : List Byte) (answer : Answer ρ)
  | execute (sql : List Byte) (answer : Answer ρ)
  | doHeartBeat (results : List (Option ρ))
  | startTransaction (answer : Answer ρ)
  | endTransaction (ok : Bool) (answer : Answer ρ)

/-- The flag tells whether the program goes on. -/
def step (ndebug : Bool) (w : MySQLWrap ρ) : Op ρ → Bool × MySQLWrap ρ
  | .query sql answer => let (res, w) := w.query ndebug sql answer; (res.isSome, w)
  | .execute sql answer => (true, (w.execute sql answer).2)
  | .doHeartBeat results => (true, w.doHeartBeat (Answer.call results))
  | .startTransaction answer => (true, w.startTransaction answer)
  | .endTransaction ok answer => (true, w.endTransaction ok answer)

def run (ndebug : Bool) (w : MySQLWrap ρ) : List (Op ρ) → MySQLWrap ρ
  | [] => w
  | op :: ops =>
    let (goesOn, w') := w.step ndebug op
    if goesOn then run ndebug w' ops else w'

end MySQLWrap

end CppTry
