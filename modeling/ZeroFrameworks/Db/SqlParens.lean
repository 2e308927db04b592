import ZeroFrameworks.Lib.Brackets
import ZeroFrameworks.Db.DbQuery

/-!
# Quoted names and parentheses of the statements (`db/db_query.cc`)

`escapeColumn` puts a name in backquotes, unless it has a parenthesis: then it is an expression.  The aggregates put
their closing parenthesis at the end of the column's name before it is escaped.

    a statement's parentheses are balanced, its aggregate's argument is the escaped column, OFFSET is after LIMIT
      ↔ no aggregate is of a column without a parenthesis of its own, and no OFFSET is without LIMIT   (quoting_iff)
-/

namespace Db

open Kv (Bytes BMap lit)
open Placeholders

namespace DbQuery

/-! ## Algorithm -/

variable (q : DbQuery)

def buildInsertIgnore (values : BMap DbValue) : Sql :=
  q.buildInsert values ++ put (lit " ON DUPLICATE KEY UPDATE id=id")

def buildCount (column : Bytes) : Sql :=
  put (lit "SELECT COUNT(" ++ escapeColumn column ++ lit ") AS cnt FROM " ++ escapeTable q.table) ++ q.buildJoins ++
    q.buildWhere

def buildAggregate (agg column : Bytes) : Sql :=
  put (lit "SELECT " ++ agg ++ escapeColumn column ++ lit " AS agg FROM " ++ escapeTable q.table) ++ q.buildJoins ++
    q.buildWhere

/-- The statement that `countDistinct` sends; so below. -/
def countDistinct (column : Bytes) : Sql := q.buildAggregate (lit "COUNT(DISTINCT ") (column ++ lit ")")

def sum (column : Bytes) : Sql := q.buildAggregate (lit "SUM(") (column ++ lit ")")

def avg (column : Bytes) : Sql := q.buildAggregate (lit "AVG(") (column ++ lit ")")

def max (column : Bytes) : Sql := q.buildAggregate (lit "MAX(") (column ++ lit ")")

def min (column : Bytes) : Sql := q.buildAggregate (lit "MIN(") (column ++ lit ")")

inductive Aggregate where
  | countDistinct
  | sum
  | avg
  | max
  | min

/-- A statement of the builder. -/
inductive Statement where
  | built (b : Build)
  | insertIgnore (values : BMap DbValue)
  | count (column : Bytes)
  | buildAggregate (agg column : Bytes)
  | aggregate (f : Aggregate) (column : Bytes)

def aggregate (column : Bytes) : Aggregate → Sql
  | .countDistinct => q.countDistinct column
  | .sum => q.sum column
  | .avg => q.avg column
  | .max => q.max column
  | .min => q.min column

def sql : Statement → Sql
  | .built b => q.build b
  | .insertIgnore values => q.buildInsertIgnore values
  | .count column => q.buildCount column
  | .buildAggregate agg column => q.buildAggregate agg column
  | .aggregate f column => q.aggregate column f

/-! ## Specification -/

abbrev Leads (m n : Nat) (t : Bytes) : Prop := Brackets.Leads backtick 40 41 m n t

abbrev Balanced (t : Bytes) : Prop := Leads 0 0 t

/-- A name with a parenthesis is a raw fragment. -/
def NameBalanced (name : Bytes) : Prop := 40 ∈ name → Balanced name

/-- The raw fragments of a call are balanced; the table and the columns are looked at when they are used. -/
def Call.Balanced : Call → Prop
  | .where column _ _ | .orWhere column _ _ | .whereNull column | .whereNotNull column | .whereIn column _
  | .whereNotIn column _ | .whereBetween column _ _ | .orderBy column _ | .groupBy column => NameBalanced column
  | .whereRaw raw _ | .orWhereRaw raw _ | .having raw _ | .orHaving raw _ => DbQuery.Balanced raw
  | .innerJoin t on | .leftJoin t on | .rightJoin t on => NameBalanced t ∧ DbQuery.Balanced on
  | .table _ | .select _ | .limit _ | .offset _ | .lockForUpdate | .sharedLock => True

/-- The names that a statement is given. -/
def Statement.names : Statement → List Bytes
  | .built (.insert values) | .built (.update values) | .insertIgnore values => values.toList.map Prod.fst
  | .built (.insertBatch rows) => rows.head?.toList.flatMap fun row => row.toList.map Prod.fst
  | .built (.upsert values updateColumns) => values.toList.map Prod.fst ++ updateColumns
  | .built .select | .built .delete => []
  | .count column | .buildAggregate _ column | .aggregate _ column => [column]

/-- The other raw fragment of a statement. -/
def Statement.agg : Statement → Bytes
  | .buildAggregate agg _ => agg
  | _ => []

/-- The raw fragments of a state and of the statement that is built from it are balanced. -/
structure RawBalanced (calls : List Call) (s : Statement) : Prop where
  given : ∀ c ∈ calls, c.Balanced
  table : NameBalanced (run calls).table
  columns : ∀ column ∈ (run calls).columns, NameBalanced column
  names : ∀ name ∈ s.names, NameBalanced name
  agg : Balanced s.agg

def Aggregate.opening : Aggregate → Bytes
  | .countDistinct => lit "COUNT(DISTINCT "
  | .sum => lit "SUM("
  | .avg => lit "AVG("
  | .max => lit "MAX("
  | .min => lit "MIN("

/-- The statement has a place for LIMIT and OFFSET. -/
def Statement.limited : Statement → Bool
  | .built .select | .built (.update _) | .built .delete => true
  | _ => false

structure WellFormed (q : DbQuery) (s : Statement) : Prop where
  balanced : Balanced (q.sql s).text
  argument : ∀ f column, s = .aggregate f column → (q.sql s).text =
    lit "SELECT " ++ f.opening ++ escapeColumn column ++ lit ") AS agg FROM " ++ escapeTable q.table ++
      (q.buildJoins ++ q.buildWhere).text
  offset : s.limited = true → ∃ front back, (q.sql s).text = front ++ q.buildLimitOffset.text ++ back ∧
    (lit " OFFSET " <:+: q.buildLimitOffset.text → lit " LIMIT " <+: q.buildLimitOffset.text)

/-- The aggregates are of expressions, and OFFSET is with LIMIT. -/
structure Closes (q : DbQuery) (s : Statement) : Prop where
  aggregate : ∀ f column, s = .aggregate f column → 40 ∈ column
  limit : s.limited = true → q.offset = 0 ∨ 0 < q.limit

/-! ## Lemmas -/

/-! ### Names -/

theorem balanced_append {x y : Bytes} (hx : Balanced x) (hy : Balanced y) : Balanced (x ++ y) := hx.append hy

theorem balanced_intercalate {sep : Bytes} (hsep : Balanced sep) (parts : List Bytes) (h : ∀ p ∈ parts, Balanced p) :
    Balanced (List.intercalate sep parts) := by
  induction parts with
  | nil => exact rfl
  | cons x rest ih =>
    have hx := h x List.mem_cons_self
    have hrest := ih fun p hp => h p (List.mem_cons_of_mem _ hp)
    cases rest with
    | nil =>
      rw [List.intercalate_singleton]
      exact hx
    | cons y rest =>
      rw [List.intercalate_cons_cons]
      exact balanced_append (balanced_append hx hsep) hrest

theorem balanced_escapePart (col : Bytes) : Balanced (escapePart col) := by
  unfold escapePart
  split
  next h =>
    rw [List.isEmpty_iff.mp h]
    decide
  next =>
    split
    next h =>
      rw [h]
      decide
    next => exact Brackets.balanced_enclose col

theorem balanced_escapeColumn {col : Bytes} (h : NameBalanced col) : Balanced (escapeColumn col) := by
  unfold escapeColumn
  split
  next hempty =>
    rw [List.isEmpty_iff.mp hempty]
    decide
  next =>
    split
    next hstar =>
      rw [hstar]
      decide
    next =>
      split
      next hraw => exact h hraw
      next =>
        split
        next =>
          refine balanced_intercalate (by decide) _ fun p hp => ?_
          obtain ⟨part, -, rfl⟩ := List.mem_map.mp hp
          exact balanced_escapePart part
        next => exact Brackets.balanced_enclose col

theorem unquote_escapeColumn_iff {name : Bytes} (hne : name ≠ []) (h40 : 40 ∉ name) (h46 : 46 ∉ name) :
    Brackets.unquote backtick (escapeColumn name) = some name ↔ name ≠ lit "*" := by
  unfold escapeColumn
  rw [if_neg fun h => hne (List.isEmpty_iff.mp h)]
  by_cases hstar : name = lit "*"
  · rw [if_pos hstar, hstar]
    decide
  · rw [if_neg hstar, if_neg h40, if_neg h46]
    exact iff_of_true (Brackets.unquote_enclose name) hstar

/-! ### Parts of statements -/

theorem balanced_commas {parts : List Sql} (h : ∀ p ∈ parts, Balanced p.text) : Balanced (commas parts).text := by
  induction parts with
  | nil => exact rfl
  | cons x rest ih =>
    have hx := h x List.mem_cons_self
    have hrest := ih fun p hp => h p (List.mem_cons_of_mem _ hp)
    cases rest with
    | nil => exact hx
    | cons y rest => exact (hx.append (by decide : Balanced (lit ", "))).append hrest

theorem balanced_names {columns : List Bytes} (h : ∀ c ∈ columns, NameBalanced c) :
    Balanced (commas (columns.map fun c => put (escapeColumn c))).text := by
  refine balanced_commas fun p hp => ?_
  obtain ⟨c, hc, rfl⟩ := List.mem_map.mp hp
  exact balanced_escapeColumn (h c hc)

theorem balanced_args (values : List DbValue) : Balanced (commas (values.map arg)).text := by
  refine balanced_commas fun p hp => ?_
  obtain ⟨v, -, rfl⟩ := List.mem_map.mp hp
  exact (by decide : Balanced (lit "?"))

theorem balanced_opToString (op : SqlOp) : Balanced (opToString op) := by
  cases op <;> decide

theorem balanced_printNat (n : Nat) : Balanced (Kv.printNat n) := by
  have hdigit := (Kv.printNat_spec n).2.1
  refine Brackets.Leads.of_notMem (fun h => ?_) (fun h => ?_) (fun h => ?_) 0
  · exact absurd (hdigit _ h) (by decide)
  · exact absurd (hdigit _ h) (by decide)
  · exact absurd (hdigit _ h) (by decide)

/-- A clause from balanced fragments. -/
structure ClauseBalanced (w : WhereClause) : Prop where
  column : NameBalanced w.column
  raw : Balanced w.raw
  conjunction : Balanced w.conjunction

theorem balanced_wrap {t : Bytes} (h : Balanced t) : Balanced (lit "(" ++ t ++ lit ")") :=
  ((by decide : Leads 0 1 (lit "(")).append (h.lift 1)).append (by decide : Leads 1 0 (lit ")"))

theorem balanced_emitWhere {w : WhereClause} (h : ClauseBalanced w) : Balanced (emitWhere w).text := by
  have hcolumn := balanced_escapeColumn h.column
  have hspace : Balanced (lit " ") := by decide
  have hop := balanced_opToString w.op
  unfold emitWhere
  split
  next => exact balanced_wrap h.raw
  next => exact hcolumn.append (by decide)
  next => exact hcolumn.append (by decide)
  next =>
    exact (((((hcolumn.append hspace).append hop).append (by decide : Leads 0 1 (lit " ("))).append
      ((balanced_args w.values).lift 1)).append (by decide : Leads 1 0 (lit ")")))
  next =>
    exact (((((hcolumn.append hspace).append hop).append (by decide : Leads 0 1 (lit " ("))).append
      ((balanced_args w.values).lift 1)).append (by decide : Leads 1 0 (lit ")")))
  next => exact ((hcolumn.append hspace).append hop).append (by decide : Balanced (lit " ?"))

theorem balanced_emitMore {emit : WhereClause → Sql} {ws : List WhereClause}
    (h : ∀ w ∈ ws, Balanced (emit w).text ∧ Balanced w.conjunction) : Balanced (emitMore emit ws).text := by
  induction ws with
  | nil => exact rfl
  | cons w ws ih =>
    obtain ⟨hemit, hconj⟩ := h w List.mem_cons_self
    have hword : Balanced (if w.conjunction.isEmpty then lit "AND" else w.conjunction) := by
      split
      next => decide
      next => exact hconj
    have hspace : Balanced (lit " ") := by decide
    exact (((hspace.append hword).append hspace).append hemit).append (ih fun x hx => h x (List.mem_cons_of_mem _ hx))

theorem balanced_emitClauses {emit : WhereClause → Sql} {ws : List WhereClause}
    (h : ∀ w ∈ ws, Balanced (emit w).text ∧ Balanced w.conjunction) : Balanced (emitClauses emit ws).text := by
  cases ws with
  | nil => exact rfl
  | cons w ws =>
    exact (h w List.mem_cons_self).1.append (balanced_emitMore fun x hx => h x (List.mem_cons_of_mem _ hx))

/-! ### States -/

/-- What a state keeps, apart from its table and columns, is balanced. -/
structure Tidy (q : DbQuery) : Prop where
  wheres : ∀ w ∈ q.wheres, ClauseBalanced w
  havings : ∀ h ∈ q.havings, ClauseBalanced h
  joins : ∀ join ∈ q.joins, Balanced join.1 ∧ Balanced join.2
  orderBy : ∀ o ∈ q.orderBy, Balanced o.1
  groupBy : ∀ c ∈ q.groupBy, Balanced c

theorem forall_mem_push {β : Type} {l : List β} {x : β} {P : β → Prop} (h : ∀ y ∈ l, P y) (hx : P x) :
    ∀ y ∈ l ++ [x], P y := by
  intro y hy
  rcases List.mem_append.mp hy with hy | hy
  · exact h y hy
  · rwa [List.mem_singleton.mp hy]

theorem nameBalanced_nil : NameBalanced [] := fun h => absurd h List.not_mem_nil

variable {conjunction : Bytes}

theorem balanced_conjunction (ws : List WhereClause) (h : Balanced conjunction) :
    Balanced (if ws.isEmpty then [] else conjunction) := by
  split
  next => exact rfl
  next => exact h

variable {column : Bytes} {calls : List Call}

namespace Tidy

variable {q : DbQuery}

theorem addWhere (h : Tidy q) (op : SqlOp) (value : DbValue)
    (hcolumn : NameBalanced column) (hconj : Balanced conjunction) : Tidy (q.addWhere column op value conjunction) :=
  { h with wheres := forall_mem_push h.wheres ⟨hcolumn, rfl, balanced_conjunction _ hconj⟩ }

theorem addWhereRaw (h : Tidy q) {raw : Bytes} (params : List DbValue) (hraw : Balanced raw)
    (hconj : Balanced conjunction) : Tidy (q.addWhereRaw raw params conjunction) :=
  { h with wheres := forall_mem_push h.wheres ⟨nameBalanced_nil, hraw, balanced_conjunction _ hconj⟩ }

theorem addHaving (h : Tidy q) {raw : Bytes} (params : List DbValue) (hraw : Balanced raw)
    (hconj : Balanced conjunction) : Tidy (q.addHaving raw params conjunction) :=
  { h with havings := forall_mem_push h.havings ⟨nameBalanced_nil, hraw, balanced_conjunction _ hconj⟩ }

theorem whereIn (h : Tidy q) (values : List DbValue) (hcolumn : NameBalanced column) :
    Tidy (q.whereIn column values) :=
  { h with wheres := forall_mem_push h.wheres ⟨hcolumn, rfl, balanced_conjunction _ (by decide)⟩ }

theorem whereNotIn (h : Tidy q) (values : List DbValue) (hcolumn : NameBalanced column) :
    Tidy (q.whereNotIn column values) :=
  { h with wheres := forall_mem_push h.wheres ⟨hcolumn, rfl, balanced_conjunction _ (by decide)⟩ }

theorem addJoin (h : Tidy q) {type table on : Bytes} (htype : Balanced type) (htable : NameBalanced table)
    (hon : Balanced on) : Tidy (q.addJoin type table on) := by
  have htext : Balanced (escapeTable table ++ lit " ON " ++ on) :=
    ((balanced_escapeColumn htable).append (by decide : Balanced (lit " ON "))).append hon
  exact { h with joins := forall_mem_push h.joins ⟨htype, htext⟩ }

theorem apply (h : Tidy q) {c : Call} (hc : c.Balanced) : Tidy (q.apply c) := by
  have hand : Balanced (lit "AND") := by decide
  have hor : Balanced (lit "OR") := by decide
  cases c with
  | table t => exact ⟨h.wheres, h.havings, h.joins, h.orderBy, h.groupBy⟩
  | select columns => exact ⟨h.wheres, h.havings, h.joins, h.orderBy, h.groupBy⟩
  | «where» column op value => exact h.addWhere _ value hc hand
  | orWhere column op value => exact h.addWhere _ value hc hor
  | whereNull column => exact h.addWhere _ _ hc hand
  | whereNotNull column => exact h.addWhere _ _ hc hand
  | whereIn column values => exact h.whereIn values hc
  | whereNotIn column values => exact h.whereNotIn values hc
  | whereRaw raw params => exact h.addWhereRaw params hc hand
  | orWhereRaw raw params => exact h.addWhereRaw params hc hor
  | whereBetween column lo hi => exact h.addWhereRaw _ ((balanced_escapeColumn hc).append (by decide)) hand
  | having raw params => exact h.addHaving params hc hand
  | orHaving raw params => exact h.addHaving params hc hor
  | orderBy column asc => exact { h with orderBy := forall_mem_push h.orderBy (balanced_escapeColumn hc) }
  | groupBy column => exact { h with groupBy := forall_mem_push h.groupBy (balanced_escapeColumn hc) }
  | limit n => exact ⟨h.wheres, h.havings, h.joins, h.orderBy, h.groupBy⟩
  | offset n => exact ⟨h.wheres, h.havings, h.joins, h.orderBy, h.groupBy⟩
  | innerJoin table on => exact h.addJoin (by decide) hc.1 hc.2
  | leftJoin table on => exact h.addJoin (by decide) hc.1 hc.2
  | rightJoin table on => exact h.addJoin (by decide) hc.1 hc.2
  | lockForUpdate => exact ⟨h.wheres, h.havings, h.joins, h.orderBy, h.groupBy⟩
  | sharedLock => exact ⟨h.wheres, h.havings, h.joins, h.orderBy, h.groupBy⟩

theorem foldl (h : Tidy q) (hcalls : ∀ c ∈ calls, c.Balanced) : Tidy (calls.foldl DbQuery.apply q) := by
  induction calls generalizing q with
  | nil => exact h
  | cons c calls ih =>
    exact ih (h.apply (hcalls c List.mem_cons_self)) fun x hx => hcalls x (List.mem_cons_of_mem _ hx)

theorem run (hcalls : ∀ c ∈ calls, c.Balanced) : Tidy (run calls) :=
  foldl ⟨by simp, by simp, by simp, by simp, by simp⟩ hcalls

end Tidy

/-! ### Statements -/

namespace Tidy

variable {q : DbQuery}

theorem buildWhere (h : Tidy q) : Balanced q.buildWhere.text := by
  unfold DbQuery.buildWhere
  split
  next => exact rfl
  next =>
    exact (by decide : Balanced (lit " WHERE ")).append
      (balanced_emitClauses fun w hw => ⟨balanced_emitWhere (h.wheres w hw), (h.wheres w hw).conjunction⟩)

theorem buildOrderBy (h : Tidy q) : Balanced q.buildOrderBy.text := by
  unfold DbQuery.buildOrderBy
  split
  next => exact rfl
  next =>
    refine (by decide : Balanced (lit " ORDER BY ")).append (balanced_commas fun p hp => ?_)
    obtain ⟨o, ho, rfl⟩ := List.mem_map.mp hp
    refine (h.orderBy o ho).append ?_
    split
    next => decide
    next => decide

theorem buildGroupBy (h : Tidy q) : Balanced q.buildGroupBy.text := by
  unfold DbQuery.buildGroupBy
  split
  next => exact rfl
  next =>
    have hgroups : Balanced (commas (q.groupBy.map put)).text := by
      refine balanced_commas fun p hp => ?_
      obtain ⟨c, hc, rfl⟩ := List.mem_map.mp hp
      exact h.groupBy c hc
    refine ((by decide : Balanced (lit " GROUP BY ")).append hgroups).append ?_
    split
    next => exact rfl
    next =>
      exact (by decide : Balanced (lit " HAVING ")).append
        (balanced_emitClauses fun w hw => ⟨balanced_wrap (h.havings w hw).raw, (h.havings w hw).conjunction⟩)

theorem buildJoins (h : Tidy q) : Balanced q.buildJoins.text := by
  have hjoins := h.joins
  unfold DbQuery.buildJoins
  generalize q.joins = joins at hjoins
  induction joins with
  | nil => exact rfl
  | cons join joins ih =>
    obtain ⟨htype, htext⟩ := hjoins join List.mem_cons_self
    have hspace : Balanced (lit " ") := by decide
    exact (((hspace.append htype).append hspace).append htext).append
      (ih fun j hj => hjoins j (List.mem_cons_of_mem _ hj))

end Tidy

theorem balanced_buildLimitOffset (q : DbQuery) : Balanced q.buildLimitOffset.text := by
  have hpart (keyword : Bytes) (n : Nat) (hk : Balanced keyword) :
      Balanced (if 0 < n then put (keyword ++ Kv.printNat n) else Marked.empty).text := by
    split
    next => exact hk.append (balanced_printNat n)
    next => exact rfl
  exact (hpart (lit " LIMIT ") q.limit (by decide)).append (hpart (lit " OFFSET ") q.offset (by decide))

theorem balanced_buildLock (q : DbQuery) : Balanced q.buildLock.text := by
  unfold buildLock
  cases q.lock <;> decide

variable {s : Statement}

section

variable {q : DbQuery} {values : BMap DbValue}

theorem balanced_buildInsert (htable : NameBalanced q.table)
    (hnames : ∀ name ∈ values.toList.map Prod.fst, NameBalanced name) : Balanced (q.buildInsert values).text := by
  have hopen : Leads 0 1 (lit "INSERT INTO " ++ escapeTable q.table ++ lit " (") :=
    ((by decide : Balanced (lit "INSERT INTO ")).append (balanced_escapeColumn htable)).append (by decide)
  have hcolumns := (balanced_names hnames).lift 1
  rw [List.map_map] at hcolumns
  have hargs := (balanced_args (values.toList.map Prod.snd)).lift 1
  rw [List.map_map] at hargs
  exact (((hopen.append hcolumns).append (by decide : Leads 1 1 (lit ") VALUES ("))).append hargs).append
    (by decide : Leads 1 0 (lit ")"))

theorem balanced_buildInsertBatch (htable : NameBalanced q.table) {rows : List (BMap DbValue)}
    (hnames : ∀ name ∈ rows.head?.toList.flatMap fun row => row.toList.map Prod.fst, NameBalanced name) :
    Balanced (q.buildInsertBatch rows).text := by
  cases rows with
  | nil => exact rfl
  | cons row rows =>
    have hnames : ∀ name ∈ row.toList.map Prod.fst, NameBalanced name := by simpa using hnames
    have hopen : Leads 0 1 (lit "INSERT INTO " ++ escapeTable q.table ++ lit " (") :=
      ((by decide : Balanced (lit "INSERT INTO ")).append (balanced_escapeColumn htable)).append (by decide)
    refine ((hopen.append ((balanced_names hnames).lift 1)).append (by decide : Leads 1 0 (lit ") VALUES "))).append
      (balanced_commas fun p hp => ?_)
    obtain ⟨r, -, rfl⟩ := List.mem_map.mp hp
    have hargs := balanced_args ((row.toList.map Prod.fst).map fun c => r[c]?.getD DbValue.null)
    rw [List.map_map] at hargs
    exact balanced_wrap hargs

theorem balanced_buildUpsert (htable : NameBalanced q.table) {updateColumns : List Bytes}
    (hnames : ∀ name ∈ values.toList.map Prod.fst ++ updateColumns, NameBalanced name) :
    Balanced (q.buildUpsert values updateColumns).text := by
  have hcols : ∀ c ∈ if updateColumns.isEmpty then values.toList.map Prod.fst else updateColumns, NameBalanced c := by
    intro c hc
    split at hc
    next => exact hnames c (List.mem_append_left _ hc)
    next => exact hnames c (List.mem_append_right _ hc)
  refine ((balanced_buildInsert htable fun name h => hnames name (List.mem_append_left _ h)).append
    (by decide : Balanced (lit " ON DUPLICATE KEY UPDATE "))).append (balanced_commas fun p hp => ?_)
  obtain ⟨c, hc, rfl⟩ := List.mem_map.mp hp
  have hcolumn := balanced_escapeColumn (hcols c hc)
  exact ((hcolumn.append (by decide : Leads 0 1 (lit " = VALUES("))).append (hcolumn.lift 1)).append
    (by decide : Leads 1 0 (lit ")"))

theorem balanced_buildUpdate (h : Tidy q) (htable : NameBalanced q.table)
    (hnames : ∀ name ∈ values.toList.map Prod.fst, NameBalanced name) : Balanced (q.buildUpdate values).text := by
  have hset : Balanced (commas (values.toList.map fun kv => ⟨escapeColumn kv.1 ++ lit " = ?", [kv.2]⟩)).text := by
    refine balanced_commas fun p hp => ?_
    obtain ⟨kv, hkv, rfl⟩ := List.mem_map.mp hp
    exact (balanced_escapeColumn (hnames kv.1 (List.mem_map_of_mem hkv))).append (by decide)
  exact (((((by decide : Balanced (lit "UPDATE ")).append (balanced_escapeColumn htable)).append
    (by decide : Balanced (lit " SET "))).append hset).append h.buildWhere).append (balanced_buildLimitOffset q)

theorem balanced_buildDelete (h : Tidy q) (htable : NameBalanced q.table) : Balanced q.buildDelete.text :=
  (((by decide : Balanced (lit "DELETE FROM ")).append (balanced_escapeColumn htable)).append h.buildWhere).append
    (balanced_buildLimitOffset q)

theorem balanced_buildSelect (h : Tidy q) (htable : NameBalanced q.table)
    (hcolumns : ∀ column ∈ q.columns, NameBalanced column) : Balanced q.buildSelect.text := by
  have hlist : Balanced (if q.columns.isEmpty then put (lit "*") else
      commas (q.columns.map fun c => put (escapeColumn c))).text := by
    split
    next => decide
    next => exact balanced_names hcolumns
  exact ((((((((by decide : Balanced (lit "SELECT ")).append hlist).append
    ((by decide : Balanced (lit " FROM ")).append (balanced_escapeColumn htable))).append h.buildJoins).append
    h.buildWhere).append h.buildGroupBy).append h.buildOrderBy).append (balanced_buildLimitOffset q)).append
    (balanced_buildLock q)

/-- What follows the argument of an aggregate, and of a count. -/
theorem balanced_tail (h : Tidy q) (htable : NameBalanced q.table) :
    Balanced (escapeTable q.table ++ q.buildJoins.text ++ q.buildWhere.text) :=
  ((balanced_escapeColumn htable).append h.buildJoins).append h.buildWhere

theorem buildAggregate_text (agg column : Bytes) : (q.buildAggregate agg column).text =
    lit "SELECT " ++ agg ++ escapeColumn column ++ lit " AS agg FROM " ++
      (escapeTable q.table ++ q.buildJoins.text ++ q.buildWhere.text) := by
  show lit "SELECT " ++ agg ++ escapeColumn column ++ lit " AS agg FROM " ++ escapeTable q.table ++ _ ++ _ = _
  simp only [List.append_assoc]

theorem aggregate_eq (f : Aggregate) (column : Bytes) :
    q.aggregate column f = q.buildAggregate f.opening (column ++ lit ")") := by
  cases f <;> rfl

theorem escapeColumn_of_mem (h : 40 ∈ column) : escapeColumn column = column := by
  unfold escapeColumn
  split
  next => rfl
  next =>
    split
    next => rfl
    next => rfl

theorem opening_leads (f : Aggregate) : Leads 0 1 f.opening := by
  cases f <;> decide

theorem aggregate_leads (h : Tidy q) (htable : NameBalanced q.table) (f : Aggregate) (hc : 40 ∉ column) :
    Leads 0 1 (q.aggregate column f).text := by
  have hname : NameBalanced (column ++ lit ")") := by
    intro hmem
    rcases List.mem_append.mp hmem with hmem | hmem
    · exact absurd hmem hc
    · exact absurd hmem (by decide)
  rw [aggregate_eq, buildAggregate_text]
  exact ((((by decide : Balanced (lit "SELECT ")).append (opening_leads f)).append
    ((balanced_escapeColumn hname).lift 1)).append (by decide : Leads 1 1 (lit " AS agg FROM "))).append
    ((balanced_tail h htable).lift 1)

theorem aggregate_text {f : Aggregate} (hc : 40 ∈ column) : (q.aggregate column f).text =
    lit "SELECT " ++ f.opening ++ escapeColumn column ++ lit ") AS agg FROM " ++ escapeTable q.table ++
      (q.buildJoins ++ q.buildWhere).text := by
  have hword : lit ") AS agg FROM " = lit ")" ++ lit " AS agg FROM " := by decide
  rw [aggregate_eq, buildAggregate_text, escapeColumn_of_mem (List.mem_append_left _ hc), escapeColumn_of_mem hc, hword]
  simp only [List.append_assoc, Marked.text_append]

theorem balanced_sql (h : Tidy q) (htable : NameBalanced q.table)
    (hcolumns : ∀ column ∈ q.columns, NameBalanced column) (hnames : ∀ name ∈ s.names, NameBalanced name)
    (hagg : Balanced s.agg)
    (hclosed : ∀ f column, s = .aggregate f column → 40 ∈ column) : Balanced (q.sql s).text := by
  have htail := balanced_tail h htable
  cases s with
  | built b =>
    cases b with
    | select => exact balanced_buildSelect h htable hcolumns
    | insert values => exact balanced_buildInsert htable hnames
    | insertBatch rows => exact balanced_buildInsertBatch htable hnames
    | upsert values updateColumns => exact balanced_buildUpsert htable hnames
    | update values => exact balanced_buildUpdate h htable hnames
    | delete => exact balanced_buildDelete h htable
  | insertIgnore values => exact (balanced_buildInsert htable hnames).append (by decide)
  | count column =>
    have hcolumn := balanced_escapeColumn (hnames column List.mem_cons_self)
    exact (((((by decide : Leads 0 1 (lit "SELECT COUNT(")).append (hcolumn.lift 1)).append
      (by decide : Leads 1 0 (lit ") AS cnt FROM "))).append (balanced_escapeColumn htable)).append h.buildJoins).append
      h.buildWhere
  | buildAggregate agg column =>
    show Balanced (q.buildAggregate agg column).text
    rw [buildAggregate_text]
    have hcolumn := balanced_escapeColumn (hnames column List.mem_cons_self)
    exact ((((by decide : Balanced (lit "SELECT ")).append hagg).append hcolumn).append (by decide)).append htail
  | aggregate f column =>
    have hc := hclosed f column rfl
    show Balanced (q.aggregate column f).text
    rw [aggregate_text hc, escapeColumn_of_mem hc]
    have hcolumn := hnames column List.mem_cons_self hc
    rw [List.append_assoc, Marked.text_append, ← List.append_assoc]
    exact (((((by decide : Balanced (lit "SELECT ")).append (opening_leads f)).append (hcolumn.lift 1)).append
      (by decide : Leads 1 0 (lit ") AS agg FROM "))).append (balanced_escapeColumn htable)).append
      (h.buildJoins.append h.buildWhere)

theorem offset_after_limit_iff :
    (lit " OFFSET " <:+: q.buildLimitOffset.text → lit " LIMIT " <+: q.buildLimitOffset.text) ↔
      q.offset = 0 ∨ 0 < q.limit := by
  unfold buildLimitOffset
  by_cases hlimit : 0 < q.limit
  · rw [if_pos hlimit]
    refine iff_of_true (fun _ => ?_) (.inr hlimit)
    exact ⟨_, (List.append_assoc ..).symm⟩
  · rw [if_neg hlimit, Marked.empty_append]
    by_cases hoffset : 0 < q.offset
    · rw [if_pos hoffset]
      refine iff_of_false (fun h => ?_) (by omega)
      obtain ⟨rest, hrest⟩ := h (List.prefix_append _ _).isInfix
      have hsecond : some (76 : UInt8) = some 79 := congrArg (·[1]?) hrest
      exact absurd hsecond (by decide)
    · rw [if_neg hoffset]
      refine iff_of_true (fun h => ?_) (.inl (by omega))
      exact absurd (List.infix_nil.mp h) (by decide)

theorem limited_text (hl : s.limited = true) :
    ∃ front back, (q.sql s).text = front ++ q.buildLimitOffset.text ++ back := by
  unfold Statement.limited at hl
  split at hl
  · exact ⟨_, q.buildLock.text, rfl⟩
  · exact ⟨_, [], (List.append_nil _).symm⟩
  · exact ⟨_, [], (List.append_nil _).symm⟩
  · cases hl

/-! ## Top theorem -/

theorem wellFormed_iff (h : RawBalanced calls s) :
    WellFormed (run calls) s ↔ Closes (run calls) s := by
  have htidy := Tidy.run h.given
  constructor
  · intro hw
    refine ⟨fun f column hs => ?_, fun hl => ?_⟩
    swap
    · obtain ⟨_, _, -, hlimit⟩ := hw.offset hl
      exact offset_after_limit_iff.mp hlimit
    subst hs
    by_contra hc
    exact absurd (hw.balanced.unique (aggregate_leads htidy h.table f hc)) (by decide)
  · intro hc
    refine ⟨balanced_sql htidy h.table h.columns h.names h.agg hc.aggregate, ?_, fun hl => ?_⟩
    · rintro f column rfl
      exact aggregate_text (hc.aggregate f column rfl)
    · obtain ⟨front, back, htext⟩ := limited_text (q := run calls) hl
      exact ⟨front, back, htext, offset_after_limit_iff.mpr (hc.limit hl)⟩

end

/-- **Quotes and parentheses**: a name is put in quotes unless it is `*`; and a statement from balanced fragments is as
it should be exactly when no aggregate is of a plain column and no OFFSET is without LIMIT. -/
theorem quoting_iff {name : Bytes} (hne : name ≠ []) (h40 : 40 ∉ name) (h46 : 46 ∉ name) (h : RawBalanced calls s) :
    (Brackets.unquote backtick (escapeColumn name) = some name ∧ Brackets.unquote backtick (escapeTable name) = some name ↔
        name ≠ lit "*") ∧
      (WellFormed (run calls) s ↔ Closes (run calls) s) :=
  ⟨(and_iff_left_of_imp id).trans (unquote_escapeColumn_iff hne h40 h46), wellFormed_iff h⟩

theorem quoting_delete :
    (Brackets.unquote backtick (escapeColumn (lit "a`b")) = some (lit "a`b") ∧
        Brackets.unquote backtick (escapeTable (lit "a`b")) = some (lit "a`b") ↔ lit "a`b" ≠ lit "*") ∧
      (WellFormed (run [.table (lit "t"), .whereRaw (lit "f(x) > 0") []]) (.built .delete) ↔
        Closes (run [.table (lit "t"), .whereRaw (lit "f(x) > 0") []]) (.built .delete)) := by
  have hnone {P : Bytes → Prop} : ∀ t ∈ ([] : List Bytes), P t := fun _ ht => absurd ht List.not_mem_nil
  refine quoting_iff (by decide) (by decide) (by decide) ⟨?_, fun _ => by decide, hnone, hnone, by decide⟩
  intro c hc
  simp only [List.mem_cons, List.not_mem_nil, or_false] at hc
  rcases hc with rfl | rfl
  · trivial
  · exact (by decide : Balanced (lit "f(x) > 0"))

/-- The parenthesis within the quotes, and OFFSET alone. -/
theorem statements_open :
    ((run [.table (lit "t")]).sql (.aggregate .sum (lit "price"))).text = lit "SELECT SUM(`price)` AS agg FROM `t`" ∧
      ¬WellFormed (run [.table (lit "t")]) (.aggregate .sum (lit "price")) ∧
      ((run [.table (lit "t"), .offset 5]).sql (.built .select)).text = lit "SELECT * FROM `t` OFFSET 5" ∧
      ¬WellFormed (run [.table (lit "t"), .offset 5]) (.built .select) := by
  refine ⟨by decide, fun h => absurd h.balanced (by decide), by decide, fun h => ?_⟩
  obtain ⟨_, _, -, hlimit⟩ := h.offset rfl
  exact absurd (offset_after_limit_iff.mp hlimit) (by decide)

end DbQuery

end Db
