import ZeroFrameworks.Lib.Placeholders
import ZeroFrameworks.Kv.Bytes

/-!
# The SQL builder (`db/db_query.cc`)

Calls collect the parts of a statement; a builder then writes its text and the values of its placeholders.
-/

namespace Db

open Kv (Bytes BMap lit)
open Placeholders

inductive DbValueType where
  | Null
  | Int64
  | UInt64
  | Double
  | String
  | Blob
  deriving DecidableEq

/-- `value`: the eight bytes of the union. -/
structure DbValue where
  type : DbValueType
  value : UInt64
  str : Bytes
  deriving DecidableEq

def DbValue.null : DbValue := ⟨.Null, 0, []⟩

inductive SqlOp where
  | EQ
  | NE
  | GT
  | GE
  | LT
  | LE
  | LIKE
  | NOT_LIKE
  | IN
  | NOT_IN
  | IS_NULL
  | IS_NOT_NULL
  | RAW
  deriving DecidableEq

structure WhereClause where
  column : Bytes := []
  op : SqlOp
  value : DbValue := DbValue.null
  values : List DbValue := []
  raw : Bytes := []
  rawParams : List DbValue := []
  conjunction : Bytes

inductive LockMode where
  | None
  | ForUpdate
  | LockInShareMode
  deriving DecidableEq

structure DbQuery where
  table : Bytes := []
  columns : List Bytes := []
  wheres : List WhereClause := []
  havings : List WhereClause := []
  /-- Type and text. -/
  joins : List (Bytes × Bytes) := []
  orderBy : List (Bytes × Bool) := []
  groupBy : List Bytes := []
  limit : Nat := 0
  offset : Nat := 0
  lock : LockMode := .None

/-- A stream and the values that were pushed. -/
abbrev Sql := Marked UInt8 DbValue

namespace DbQuery

/-! ## Names and operators -/

def backtick : UInt8 := 96

/-- `getline` with a dot: what follows the last dot is no part where it is empty. -/
def getlines (s : Bytes) : List Bytes :=
  let parts := s.splitOn 46
  if parts.getLast? = some [] then parts.dropLast else parts

/-- `escapeColumn` for a name without dot and parenthesis. -/
def escapePart (col : Bytes) : Bytes :=
  if col.isEmpty then col
  else if col = lit "*" then col
  else enclose backtick col

/-- The parts of a name with dots have neither dots nor parentheses. -/
def escapeColumn (col : Bytes) : Bytes :=
  if col.isEmpty then col
  else if col = lit "*" then col
  else if 40 ∈ col then col
  else if 46 ∈ col then List.intercalate (lit ".") ((getlines col).map escapePart)
  else enclose backtick col

def escapeTable (t : Bytes) : Bytes := escapeColumn t

def parseOp (op : Bytes) : SqlOp :=
  if op = lit "=" ∨ op = lit "==" then .EQ
  else if op = lit "!=" ∨ op = lit "<>" then .NE
  else if op = lit ">" then .GT
  else if op = lit ">=" then .GE
  else if op = lit "<" then .LT
  else if op = lit "<=" then .LE
  else if op = lit "like" ∨ op = lit "LIKE" then .LIKE
  else if op = lit "not like" ∨ op = lit "NOT LIKE" then .NOT_LIKE
  else if op = lit "in" ∨ op = lit "IN" then .IN
  else if op = lit "not in" ∨ op = lit "NOT IN" then .NOT_IN
  else .EQ

def opToString : SqlOp → Bytes
  | .EQ => lit "="
  | .NE => lit "!="
  | .GT => lit ">"
  | .GE => lit ">="
  | .LT => lit "<"
  | .LE => lit "<="
  | .LIKE => lit "LIKE"
  | .NOT_LIKE => lit "NOT LIKE"
  | .IN => lit "IN"
  | .NOT_IN => lit "NOT IN"
  | .IS_NULL => lit "IS NULL"
  | .IS_NOT_NULL => lit "IS NOT NULL"
  | .RAW => []

/-! ## Calls -/

variable (q : DbQuery)

/-- The conjunction of the first clause is empty. -/
def addWhere (column : Bytes) (op : SqlOp) (value : DbValue) (conjunction : Bytes) : DbQuery :=
  { q with wheres := q.wheres ++ [{ column, op, value, conjunction := if q.wheres.isEmpty then [] else conjunction }] }

def addWhereRaw (raw : Bytes) (rawParams : List DbValue) (conjunction : Bytes) : DbQuery :=
  { q with wheres := q.wheres ++
      [{ op := .RAW, raw, rawParams, conjunction := if q.wheres.isEmpty then [] else conjunction }] }

def addHaving (raw : Bytes) (rawParams : List DbValue) (conjunction : Bytes) : DbQuery :=
  { q with havings := q.havings ++
      [{ op := .RAW, raw, rawParams, conjunction := if q.havings.isEmpty then [] else conjunction }] }

def «where» (column op : Bytes) (value : DbValue) : DbQuery := q.addWhere column (parseOp op) value (lit "AND")

def orWhere (column op : Bytes) (value : DbValue) : DbQuery := q.addWhere column (parseOp op) value (lit "OR")

def whereNull (column : Bytes) : DbQuery := q.addWhere column .IS_NULL DbValue.null (lit "AND")

def whereNotNull (column : Bytes) : DbQuery := q.addWhere column .IS_NOT_NULL DbValue.null (lit "AND")

def whereIn (column : Bytes) (values : List DbValue) : DbQuery :=
  { q with wheres := q.wheres ++
      [{ column, op := .IN, values, conjunction := if q.wheres.isEmpty then [] else lit "AND" }] }

def whereNotIn (column : Bytes) (values : List DbValue) : DbQuery :=
  { q with wheres := q.wheres ++
      [{ column, op := .NOT_IN, values, conjunction := if q.wheres.isEmpty then [] else lit "AND" }] }

def whereRaw (raw : Bytes) (params : List DbValue) : DbQuery := q.addWhereRaw raw params (lit "AND")

def orWhereRaw (raw : Bytes) (params : List DbValue) : DbQuery := q.addWhereRaw raw params (lit "OR")

def whereBetween (column : Bytes) (lo hi : DbValue) : DbQuery :=
  q.addWhereRaw (escapeColumn column ++ lit " BETWEEN ? AND ?") [lo, hi] (lit "AND")

def having (raw : Bytes) (params : List DbValue) : DbQuery := q.addHaving raw params (lit "AND")

def orHaving (raw : Bytes) (params : List DbValue) : DbQuery := q.addHaving raw params (lit "OR")

def addJoin (type table on : Bytes) : DbQuery := { q with joins := q.joins ++ [(type, escapeTable table ++ lit " ON " ++ on)] }

/-- The calls; `andWhere`, `whereEq`, `andWhereRaw`, `andHaving`, `orderByDesc` and `from` are other names for some. -/
inductive Call where
  | table (t : Bytes)
  | select (columns : List Bytes)
  | «where» (column op : Bytes) (value : DbValue)
  | orWhere (column op : Bytes) (value : DbValue)
  | whereNull (column : Bytes)
  | whereNotNull (column : Bytes)
  | whereIn (column : Bytes) (values : List DbValue)
  | whereNotIn (column : Bytes) (values : List DbValue)
  | whereRaw (raw : Bytes) (params : List DbValue)
  | orWhereRaw (raw : Bytes) (params : List DbValue)
  | whereBetween (column : Bytes) (lo hi : DbValue)
  | having (raw : Bytes) (params : List DbValue)
  | orHaving (raw : Bytes) (params : List DbValue)
  | orderBy (column : Bytes) (asc : Bool)
  | groupBy (column : Bytes)
  | limit (n : Nat)
  | offset (n : Nat)
  | innerJoin (table on : Bytes)
  | leftJoin (table on : Bytes)
  | rightJoin (table on : Bytes)
  | lockForUpdate
  | sharedLock

def apply : Call → DbQuery
  | .table t => { q with table := t }
  | .select columns => { q with columns }
  | .where column op value => q.where column op value
  | .orWhere column op value => q.orWhere column op value
  | .whereNull column => q.whereNull column
  | .whereNotNull column => q.whereNotNull column
  | .whereIn column values => q.whereIn column values
  | .whereNotIn column values => q.whereNotIn column values
  | .whereRaw raw params => q.whereRaw raw params
  | .orWhereRaw raw params => q.orWhereRaw raw params
  | .whereBetween column lo hi => q.whereBetween column lo hi
  | .having raw params => q.having raw params
  | .orHaving raw params => q.orHaving raw params
  | .orderBy column asc => { q with orderBy := q.orderBy ++ [(escapeColumn column, asc)] }
  | .groupBy column => { q with groupBy := q.groupBy ++ [escapeColumn column] }
  | .limit n => { q with limit := n }
  | .offset n => { q with offset := n }
  | .innerJoin table on => q.addJoin (lit "INNER JOIN") table on
  | .leftJoin table on => q.addJoin (lit "LEFT JOIN") table on
  | .rightJoin table on => q.addJoin (lit "RIGHT JOIN") table on
  | .lockForUpdate => { q with lock := .ForUpdate }
  | .sharedLock => { q with lock := .LockInShareMode }

def run (calls : List Call) : DbQuery := calls.foldl apply {}

/-! ## Statements -/

/-- `sql << s`. -/
def put (s : Bytes) : Sql := ⟨s, []⟩

/-- `sql << "?"` and `params.push_back(value)`. -/
def arg (value : DbValue) : Sql := ⟨lit "?", [value]⟩

/-- A loop that writes `", "` before every element but the first. -/
def commas : List Sql → Sql
  | [] => Marked.empty
  | [x] => x
  | x :: rest => x ++ put (lit ", ") ++ commas rest

/-- One clause in `buildWhere`. -/
def emitWhere (w : WhereClause) : Sql :=
  match w.op with
  | .RAW => ⟨lit "(" ++ w.raw ++ lit ")", w.rawParams⟩
  | .IS_NULL => put (escapeColumn w.column ++ lit " IS NULL")
  | .IS_NOT_NULL => put (escapeColumn w.column ++ lit " IS NOT NULL")
  | .IN | .NOT_IN =>
    put (escapeColumn w.column ++ lit " " ++ opToString w.op ++ lit " (") ++ commas (w.values.map arg) ++ put (lit ")")
  | _ => ⟨escapeColumn w.column ++ lit " " ++ opToString w.op ++ lit " ?", [w.value]⟩

def emitHaving (h : WhereClause) : Sql := ⟨lit "(" ++ h.raw ++ lit ")", h.rawParams⟩

/-- The clauses after the first, each after its conjunction. -/
def emitMore (emit : WhereClause → Sql) : List WhereClause → Sql
  | [] => Marked.empty
  | w :: rest =>
    put (lit " " ++ (if w.conjunction.isEmpty then lit "AND" else w.conjunction) ++ lit " ") ++ emit w ++ emitMore emit rest

def emitClauses (emit : WhereClause → Sql) : List WhereClause → Sql
  | [] => Marked.empty
  | w :: rest => emit w ++ emitMore emit rest

def buildWhere : Sql :=
  if q.wheres.isEmpty then Marked.empty else put (lit " WHERE ") ++ emitClauses emitWhere q.wheres

def buildOrderBy : Sql :=
  if q.orderBy.isEmpty then Marked.empty
  else put (lit " ORDER BY ") ++ commas (q.orderBy.map fun o => put (o.1 ++ if o.2 then lit " ASC" else lit " DESC"))

def buildGroupBy : Sql :=
  if q.groupBy.isEmpty then Marked.empty
  else put (lit " GROUP BY ") ++ commas (q.groupBy.map put) ++
    if q.havings.isEmpty then Marked.empty else put (lit " HAVING ") ++ emitClauses emitHaving q.havings

def buildLimitOffset : Sql :=
  (if 0 < q.limit then put (lit " LIMIT " ++ Kv.printNat q.limit) else Marked.empty) ++
    if 0 < q.offset then put (lit " OFFSET " ++ Kv.printNat q.offset) else Marked.empty

def buildJoins : Sql := Marked.concat (q.joins.map fun join => put (lit " " ++ join.1 ++ lit " " ++ join.2))

def buildLock : Sql :=
  match q.lock with
  | .ForUpdate => put (lit " FOR UPDATE")
  | .LockInShareMode => put (lit " LOCK IN SHARE MODE")
  | .None => Marked.empty

def buildSelect : Sql :=
  put (lit "SELECT ") ++
    (if q.columns.isEmpty then put (lit "*") else commas (q.columns.map fun c => put (escapeColumn c))) ++
    put (lit " FROM " ++ escapeTable q.table) ++ q.buildJoins ++ q.buildWhere ++ q.buildGroupBy ++ q.buildOrderBy ++
    q.buildLimitOffset ++ q.buildLock

/-- A map is read in the order of its keys. -/
def buildInsert (values : BMap DbValue) : Sql :=
  put (lit "INSERT INTO " ++ escapeTable q.table ++ lit " (") ++
    commas (values.toList.map fun kv => put (escapeColumn kv.1)) ++ put (lit ") VALUES (") ++
    commas (values.toList.map fun kv => arg kv.2) ++ put (lit ")")

/-- The columns are those of the first row. -/
def buildInsertBatch : List (BMap DbValue) → Sql
  | [] => Marked.empty
  | row :: rows =>
    let columns := row.toList.map Prod.fst
    put (lit "INSERT INTO " ++ escapeTable q.table ++ lit " (") ++ commas (columns.map fun c => put (escapeColumn c)) ++
      put (lit ") VALUES ") ++
      commas ((row :: rows).map fun r =>
        put (lit "(") ++ commas (columns.map fun c => arg (r[c]?.getD DbValue.null)) ++ put (lit ")"))

def buildUpsert (values : BMap DbValue) (updateColumns : List Bytes) : Sql :=
  let cols := if updateColumns.isEmpty then values.toList.map Prod.fst else updateColumns
  q.buildInsert values ++ put (lit " ON DUPLICATE KEY UPDATE ") ++
    commas (cols.map fun c => put (escapeColumn c ++ lit " = VALUES(" ++ escapeColumn c ++ lit ")"))

def buildUpdate (values : BMap DbValue) : Sql :=
  put (lit "UPDATE " ++ escapeTable q.table ++ lit " SET ") ++
    commas (values.toList.map fun kv => ⟨escapeColumn kv.1 ++ lit " = ?", [kv.2]⟩) ++ q.buildWhere ++ q.buildLimitOffset

def buildDelete : Sql := put (lit "DELETE FROM " ++ escapeTable q.table) ++ q.buildWhere ++ q.buildLimitOffset

inductive Build where
  | select
  | insert (values : BMap DbValue)
  | insertBatch (rows : List (BMap DbValue))
  | upsert (values : BMap DbValue) (updateColumns : List Bytes)
  | update (values : BMap DbValue)
  | delete

def build : Build → Sql
  | .select => q.buildSelect
  | .insert values => q.buildInsert values
  | .insertBatch rows => q.buildInsertBatch rows
  | .upsert values updateColumns => q.buildUpsert values updateColumns
  | .update values => q.buildUpdate values
  | .delete => q.buildDelete

end DbQuery

end Db
