import Mathlib.Data.List.Dedup
import ZeroFrameworks.Db.DbQuery

/-!
# What the statements say

The calls describe a statement: the conditions, the HAVING clauses and the values that they were given, each with its
own placeholders.

    a built statement is the described one, and its placeholders stand for their parameters
      ↔ nothing is dropped, and every text that is taken as it is has the placeholders of its parameters   (faithful_iff)

A value for `IN` that is not a list is dropped, as are HAVING clauses without a GROUP BY, and the columns of a row that
the first row of a batch does not have.
-/

namespace Db

open Kv (Bytes BMap lit)
open Placeholders

/-! ## Specification -/

def mark : UInt8 := 63

/-- A text without placeholders of its own. -/
def Plain (t : Bytes) : Prop := scan DbQuery.backtick mark false t = (0, false)

instance (t : Bytes) : Decidable (Plain t) := inferInstanceAs (Decidable (_ = _))

/-- A part of a statement.  A word is one of the builder's own. -/
inductive Piece where
  | word (t : Bytes) (plain : Plain t)
  | name (t : Bytes)
  | arg (value : DbValue)
  | raw (t : Bytes) (params : List DbValue)

namespace Piece

def kw (s : String) (plain : Plain (lit s) := by decide) : Piece := .word (lit s) plain

def sql : Piece → Sql
  | .word t _ => DbQuery.put t
  | .name t => DbQuery.put t
  | .arg value => DbQuery.arg value
  | .raw t params => ⟨t, params⟩

/-- A text that is taken as it is has the placeholders of its parameters. -/
def Fits : Piece → Prop
  | .word _ _ => True
  | .name t => Plain t
  | .arg _ => True
  | .raw t params => scan DbQuery.backtick mark false t = (params.length, false)

end Piece

def render (pieces : List Piece) : Sql := Marked.concat (pieces.map Piece.sql)

open Piece (kw)

def commaPieces : List (List Piece) → List Piece
  | [] => []
  | [x] => x
  | x :: rest => x ++ [kw ", "] ++ commaPieces rest

/-- What a condition says. -/
inductive Condition where
  | compare (column : Bytes) (op : SqlOp) (value : DbValue)
  | null (column : Bytes) (negated : Bool)
  | among (column : Bytes) (negated : Bool) (values : List DbValue)
  | between (column : Bytes) (lo hi : DbValue)
  | raw (t : Bytes) (params : List DbValue)

theorem opToString_plain (op : SqlOp) : Plain (DbQuery.opToString op) := by
  cases op <;> decide

namespace Condition

def pieces : Condition → List Piece
  | .compare column op value =>
    [.name (DbQuery.escapeColumn column), kw " ", .word (DbQuery.opToString op) (opToString_plain op), kw " ", .arg value]
  | .null column negated => [.name (DbQuery.escapeColumn column), if negated then kw " IS NOT NULL" else kw " IS NULL"]
  | .among column negated values =>
    [.name (DbQuery.escapeColumn column), if negated then kw " NOT IN (" else kw " IN ("] ++
      commaPieces (values.map fun v => [.arg v]) ++ [kw ")"]
  | .between column lo hi =>
    [kw "(", .name (DbQuery.escapeColumn column), kw " BETWEEN ", .arg lo, kw " AND ", .arg hi, kw ")"]
  | .raw t params => [kw "(", .raw t params, kw ")"]

end Condition

namespace DbQuery

/-- `where` with an operator; the value of `IN` is a list of one.  An operator that the builder does not know is `=`. -/
def comparison (column op : Bytes) (value : DbValue) : Condition :=
  match parseOp op with
  | .IN => .among column false [value]
  | .NOT_IN => .among column true [value]
  | op => .compare column op value

/-- The condition that a call gives, and whether it is one of two alternatives. -/
def Call.condition : Call → Option (Bool × Condition)
  | .where column op value => some (false, comparison column op value)
  | .orWhere column op value => some (true, comparison column op value)
  | .whereNull column => some (false, .null column false)
  | .whereNotNull column => some (false, .null column true)
  | .whereIn column values => some (false, .among column false values)
  | .whereNotIn column values => some (false, .among column true values)
  | .whereRaw raw params => some (false, .raw raw params)
  | .orWhereRaw raw params => some (true, .raw raw params)
  | .whereBetween column lo hi => some (false, .between column lo hi)
  | _ => none

def Call.havingCondition : Call → Option (Bool × Condition)
  | .having raw params => some (false, .raw raw params)
  | .orHaving raw params => some (true, .raw raw params)
  | _ => none

end DbQuery

/-- Conditions with what joins them. -/
def joinConditions : Bool → List (Bool × Condition) → List Piece
  | _, [] => []
  | first, (alternative, c) :: rest =>
    (if first then [] else [if alternative then kw " OR " else kw " AND "]) ++ c.pieces ++ joinConditions false rest

def clausePieces (keyword : Piece) (conditions : List (Bool × Condition)) : List Piece :=
  if conditions.isEmpty then [] else keyword :: joinConditions true conditions

namespace DbQuery

def wherePieces (calls : List Call) : List Piece := clausePieces (kw " WHERE ") (calls.filterMap Call.condition)

def havingPieces (calls : List Call) : List Piece := clausePieces (kw " HAVING ") (calls.filterMap Call.havingCondition)

theorem printNat_plain (n : Nat) : Plain (Kv.printNat n) := by
  have hdigit := (Kv.printNat_spec n).2.1
  refine scan_of_notMem _ _ (fun h => ?_) (fun h => ?_) false
  · exact absurd (hdigit _ h) (by decide)
  · exact absurd (hdigit _ h) (by decide)

variable (q : DbQuery)

def namePieces (columns : List Bytes) : List Piece := commaPieces (columns.map fun c => [.name (escapeColumn c)])

def argPieces (values : List DbValue) : List Piece := commaPieces (values.map fun v => [.arg v])

def orderByPieces : List Piece :=
  if q.orderBy.isEmpty then []
  else kw " ORDER BY " :: commaPieces (q.orderBy.map fun o => [.name o.1, if o.2 then kw " ASC" else kw " DESC"])

def groupByPieces : List Piece :=
  if q.groupBy.isEmpty then [] else kw " GROUP BY " :: commaPieces (q.groupBy.map fun c => [.name c])

def limitOffsetPieces : List Piece :=
  (if 0 < q.limit then [kw " LIMIT ", .word (Kv.printNat q.limit) (printNat_plain _)] else []) ++
    if 0 < q.offset then [kw " OFFSET ", .word (Kv.printNat q.offset) (printNat_plain _)] else []

def lockPieces : List Piece :=
  match q.lock with
  | .ForUpdate => [kw " FOR UPDATE"]
  | .LockInShareMode => [kw " LOCK IN SHARE MODE"]
  | .None => []

def selectPieces : List Piece :=
  kw "SELECT " :: (if q.columns.isEmpty then [kw "*"] else namePieces q.columns) ++
    [kw " FROM ", .name (escapeTable q.table)] ++ q.joins.map fun join => .name (lit " " ++ join.1 ++ lit " " ++ join.2)

def insertPieces (values : BMap DbValue) : List Piece :=
  [kw "INSERT INTO ", .name (escapeTable q.table), kw " ("] ++ namePieces (values.toList.map Prod.fst) ++
    [kw ") VALUES ("] ++ argPieces (values.toList.map Prod.snd) ++ [kw ")"]

/-- The columns of the other rows that the first one does not have. -/
def extraColumns (row : BMap DbValue) (rows : List (BMap DbValue)) : List Bytes :=
  ((rows.flatMap fun r => r.toList.map Prod.fst).filter fun c => c ∉ row.toList.map Prod.fst).dedup

/-- The rows for the columns, with a null for what a row does not have. -/
def rowPieces (columns : List Bytes) (rows : List (BMap DbValue)) : List Piece :=
  [kw "INSERT INTO ", .name (escapeTable q.table), kw " ("] ++ namePieces columns ++ [kw ") VALUES "] ++
    commaPieces (rows.map fun r => kw "(" :: argPieces (columns.map fun c => r[c]?.getD DbValue.null) ++ [kw ")"])

def insertBatchPieces : List (BMap DbValue) → List Piece
  | [] => []
  | row :: rows => q.rowPieces (row.toList.map Prod.fst ++ extraColumns row rows) (row :: rows)

def upsertPieces (values : BMap DbValue) (updateColumns : List Bytes) : List Piece :=
  let cols := if updateColumns.isEmpty then values.toList.map Prod.fst else updateColumns
  q.insertPieces values ++ kw " ON DUPLICATE KEY UPDATE " ::
    commaPieces (cols.map fun c => [.name (escapeColumn c), kw " = VALUES(", .name (escapeColumn c), kw ")"])

def updatePieces (values : BMap DbValue) : List Piece :=
  [kw "UPDATE ", .name (escapeTable q.table), kw " SET "] ++
    commaPieces (values.toList.map fun kv => [.name (escapeColumn kv.1), kw " = ", .arg kv.2])

/-- The statement that the calls and the last of them, a builder, describe. -/
def statement (calls : List Call) : Build → List Piece
  | .select =>
    (run calls).selectPieces ++ wherePieces calls ++ (run calls).groupByPieces ++ havingPieces calls ++
      (run calls).orderByPieces ++ (run calls).limitOffsetPieces ++ (run calls).lockPieces
  | .insert values => (run calls).insertPieces values ++ wherePieces calls ++ havingPieces calls
  | .insertBatch rows => (run calls).insertBatchPieces rows ++ wherePieces calls ++ havingPieces calls
  | .upsert values updateColumns =>
    (run calls).upsertPieces values updateColumns ++ wherePieces calls ++ havingPieces calls
  | .update values =>
    (run calls).updatePieces values ++ wherePieces calls ++ havingPieces calls ++ (run calls).limitOffsetPieces
  | .delete =>
    [kw "DELETE FROM ", .name (escapeTable (run calls).table)] ++ wherePieces calls ++ havingPieces calls ++
      (run calls).limitOffsetPieces

/-- The builder writes the statement of its calls, and after every piece of it there are as many placeholders outside
quoted names as parameters. -/
def Faithful (calls : List Call) (b : Build) : Prop :=
  (run calls).build b = render (statement calls b) ∧
    ∀ front back, statement calls b = front ++ back → Aligned backtick mark (render front)

/-- A value for a list. -/
def Call.Drops : Call → Prop
  | .where _ op _ | .orWhere _ op _ => parseOp op = .IN ∨ parseOp op = .NOT_IN
  | _ => False

/-- Something that the calls give has no place in the statement that is built. -/
def Drops (calls : List Call) : Build → Prop
  | .select =>
    (∃ c ∈ calls, c.Drops) ∨ (∃ c ∈ calls, c.havingCondition.isSome) ∧ ∀ column, Call.groupBy column ∉ calls
  | .insert _ | .upsert _ _ => (∃ c ∈ calls, c.condition.isSome) ∨ ∃ c ∈ calls, c.havingCondition.isSome
  | .insertBatch rows =>
    (∃ row ∈ rows.head?, ∃ r ∈ rows, ∃ kv ∈ r.toList, kv.1 ∉ row.toList.map Prod.fst) ∨
      (∃ c ∈ calls, c.condition.isSome) ∨ ∃ c ∈ calls, c.havingCondition.isSome
  | .update _ | .delete => (∃ c ∈ calls, c.Drops) ∨ ∃ c ∈ calls, c.havingCondition.isSome

/-! ## Lemmas -/

/-! ### Rendering -/

theorem render_nil : render [] = Marked.empty := rfl

theorem render_cons (p : Piece) (pieces : List Piece) : render (p :: pieces) = p.sql ++ render pieces := rfl

theorem render_append (x y : List Piece) : render (x ++ y) = render x ++ render y := by
  unfold render
  rw [List.map_append, Marked.concat_append]

theorem render_singleton (p : Piece) : render [p] = p.sql := Marked.append_empty _

theorem put_append (a b : Bytes) : put (a ++ b) = put a ++ put b := rfl

theorem sql_kw (s : String) (h : Plain (lit s)) : (kw s h).sql = put (lit s) := rfl

theorem sql_word (t : Bytes) (h : Plain t) : (Piece.word t h).sql = put t := rfl

theorem sql_name (t : Bytes) : (Piece.name t).sql = put t := rfl

theorem sql_arg (value : DbValue) : (Piece.arg value).sql = arg value := rfl

theorem render_commaPieces (pieces : List (List Piece)) : render (commaPieces pieces) = commas (pieces.map render) := by
  induction pieces with
  | nil => rfl
  | cons x rest ih =>
    cases rest with
    | nil => rfl
    | cons y rest =>
      show render (x ++ [kw ", "] ++ commaPieces (y :: rest)) = render x ++ put (lit ", ") ++ commas ((y :: rest).map render)
      rw [render_append, render_append, ih, render_singleton]
      rfl

theorem render_namePieces (columns : List Bytes) :
    render (namePieces columns) = commas (columns.map fun c => put (escapeColumn c)) := by
  unfold namePieces
  rw [render_commaPieces, List.map_map]
  exact congrArg commas (List.map_congr_left fun c _ => render_singleton _)

theorem render_argPieces (values : List DbValue) : render (argPieces values) = commas (values.map arg) := by
  unfold argPieces
  rw [render_commaPieces, List.map_map]
  exact congrArg commas (List.map_congr_left fun v _ => render_singleton _)

variable {q : DbQuery}

theorem render_selectPieces : render q.selectPieces = put (lit "SELECT ") ++
    (if q.columns.isEmpty then put (lit "*") else commas (q.columns.map fun c => put (escapeColumn c))) ++
    put (lit " FROM " ++ escapeTable q.table) ++ q.buildJoins := by
  have hcolumns : render (if q.columns.isEmpty then [kw "*"] else namePieces q.columns) =
      if q.columns.isEmpty then put (lit "*") else commas (q.columns.map fun c => put (escapeColumn c)) := by
    split
    · exact render_singleton _
    · exact render_namePieces _
  have hjoins : render (q.joins.map fun join => .name (lit " " ++ join.1 ++ lit " " ++ join.2)) = q.buildJoins := by
    unfold render buildJoins
    rw [List.map_map]
    rfl
  unfold selectPieces
  rw [render_append, render_append, render_cons, hcolumns, hjoins, render_cons, render_singleton]
  rfl

theorem render_groupByPieces : render q.groupByPieces =
    if q.groupBy.isEmpty then Marked.empty else put (lit " GROUP BY ") ++ commas (q.groupBy.map put) := by
  unfold groupByPieces
  split
  · rfl
  · rw [render_cons, render_commaPieces, List.map_map]
    exact congrArg (put _ ++ commas ·) (List.map_congr_left fun c _ => render_singleton _)

theorem render_orderByPieces : render q.orderByPieces = q.buildOrderBy := by
  unfold orderByPieces buildOrderBy
  split
  · rfl
  · rw [render_cons, render_commaPieces, List.map_map]
    refine congrArg (put _ ++ commas ·) (List.map_congr_left fun o _ => ?_)
    show render [Piece.name o.1, _] = put (o.1 ++ _)
    rw [render_cons, render_singleton, put_append]
    cases o.2 with
    | true => rfl
    | false => rfl

theorem render_limitOffsetPieces : render q.limitOffsetPieces = q.buildLimitOffset := by
  unfold limitOffsetPieces buildLimitOffset
  rw [render_append]
  congr 1
  · split
    · rw [render_cons, render_singleton]
      rfl
    · rfl
  · split
    · rw [render_cons, render_singleton]
      rfl
    · rfl

theorem render_lockPieces : render q.lockPieces = q.buildLock := by
  unfold lockPieces buildLock
  cases q.lock with
  | ForUpdate => exact render_singleton _
  | LockInShareMode => exact render_singleton _
  | None => rfl

theorem render_insertPieces (values : BMap DbValue) : render (q.insertPieces values) = q.buildInsert values := by
  unfold insertPieces buildInsert
  simp only [render_append, render_namePieces, render_argPieces, render_cons, sql_kw, sql_name, put_append,
    List.map_map, Marked.append_assoc]
  rfl

theorem render_upsertPieces (values : BMap DbValue) (updateColumns : List Bytes) :
    render (q.upsertPieces values updateColumns) = q.buildUpsert values updateColumns := by
  have hset : ∀ cols : List Bytes, render (commaPieces (cols.map fun c =>
      [.name (escapeColumn c), kw " = VALUES(", .name (escapeColumn c), kw ")"])) =
        commas (cols.map fun c => put (escapeColumn c ++ lit " = VALUES(" ++ escapeColumn c ++ lit ")")) := by
    intro cols
    rw [render_commaPieces, List.map_map]
    refine congrArg commas (List.map_congr_left fun c _ => ?_)
    show render [Piece.name _, _, _, _] = _
    simp only [render_cons, render_nil, sql_kw, sql_name, put_append, Marked.append_assoc, Marked.append_empty]
  unfold upsertPieces buildUpsert
  dsimp only
  rw [render_append, render_insertPieces, render_cons, hset, Marked.append_assoc]
  rfl

theorem render_updatePieces (values : BMap DbValue) : render (q.updatePieces values) =
    put (lit "UPDATE " ++ escapeTable q.table ++ lit " SET ") ++
      commas (values.toList.map fun kv => ⟨escapeColumn kv.1 ++ lit " = ?", [kv.2]⟩) := by
  unfold updatePieces
  rw [render_append, render_commaPieces, List.map_map]
  have hmark : lit " = ?" = lit " = " ++ lit "?" := by decide
  refine congr (congrArg _ ?_) (congrArg commas (List.map_congr_left fun kv _ => ?_))
  · rw [render_cons, render_cons, render_singleton]
    rfl
  · show render [Piece.name _, _, _] = _
    rw [render_cons, render_cons, render_singleton, hmark]
    rfl

/-! ### Names -/

theorem escapePart_plain (col : Bytes) : Plain (escapePart col) := by
  unfold escapePart
  split
  next h =>
    rw [List.isEmpty_iff.mp h]
    decide
  next =>
    split
    next h =>
      rw [h]
      decide
    next => exact scan_enclose _ _ _

theorem plain_append {x y : Bytes} (hx : Plain x) (hy : Plain y) : Plain (x ++ y) := by
  unfold Plain at hx hy ⊢
  rw [scan_append, hx, hy]
  rfl

theorem plain_intercalate {sep : Bytes} (hsep : Plain sep) (parts : List Bytes) (h : ∀ p ∈ parts, Plain p) :
    Plain (List.intercalate sep parts) := by
  induction parts with
  | nil => exact rfl
  | cons x rest ih =>
    have hx := h x List.mem_cons_self
    have hrest := ih fun p hp => h p (List.mem_cons_of_mem _ hp)
    cases rest with
    | nil =>
      rw [List.intercalate_singleton]
      exact hx
    | cons y rest =>
      rw [List.intercalate_cons_cons]
      exact plain_append (plain_append hx hsep) hrest

/-- A name is quoted, and has no placeholder, unless it has a parenthesis. -/
theorem escapeColumn_plain {col : Bytes} (h : 40 ∉ col) : Plain (escapeColumn col) := by
  unfold escapeColumn
  split
  next hempty =>
    rw [List.isEmpty_iff.mp hempty]
    decide
  next =>
    split
    next hstar =>
      rw [hstar]
      decide
    next =>
      split
      next =>
        refine plain_intercalate (by decide) _ fun p hp => ?_
        obtain ⟨part, -, rfl⟩ := List.mem_map.mp hp
        exact escapePart_plain part
      next => exact scan_enclose _ _ _

/-! ### The clauses that are stored -/

/-- What a call adds to the conditions. -/
def Call.clause : Call → Option (Bool × WhereClause)
  | .where column op value => some (false, { column, op := parseOp op, value, conjunction := [] })
  | .orWhere column op value => some (true, { column, op := parseOp op, value, conjunction := [] })
  | .whereNull column => some (false, { column, op := .IS_NULL, conjunction := [] })
  | .whereNotNull column => some (false, { column, op := .IS_NOT_NULL, conjunction := [] })
  | .whereIn column values => some (false, { column, op := .IN, values, conjunction := [] })
  | .whereNotIn column values => some (false, { column, op := .NOT_IN, values, conjunction := [] })
  | .whereRaw raw rawParams => some (false, { op := .RAW, raw, rawParams, conjunction := [] })
  | .orWhereRaw raw rawParams => some (true, { op := .RAW, raw, rawParams, conjunction := [] })
  | .whereBetween column lo hi =>
    some (false, { op := .RAW, raw := escapeColumn column ++ lit " BETWEEN ? AND ?", rawParams := [lo, hi], conjunction := [] })
  | _ => none

def Call.havingClause : Call → Option (Bool × WhereClause)
  | .having raw rawParams => some (false, { op := .RAW, raw, rawParams, conjunction := [] })
  | .orHaving raw rawParams => some (true, { op := .RAW, raw, rawParams, conjunction := [] })
  | _ => none

def conjunctionOf (alternative : Bool) : Bytes := if alternative then lit "OR" else lit "AND"

/-- A clause goes to the end, with its conjunction where it is not the first. -/
def push (ws : List WhereClause) (item : Bool × WhereClause) : List WhereClause :=
  ws ++ [{ item.2 with conjunction := if ws.isEmpty then [] else conjunctionOf item.1 }]

theorem apply_wheres (q : DbQuery) (c : Call) : (q.apply c).wheres = (c.clause.toList).foldl push q.wheres := by
  cases c with
  | _ => rfl

theorem apply_havings (q : DbQuery) (c : Call) : (q.apply c).havings = (c.havingClause.toList).foldl push q.havings := by
  cases c with
  | _ => rfl

theorem foldl_push {clauses : DbQuery → List WhereClause} {clause : Call → Option (Bool × WhereClause)}
    (hstep : ∀ q c, clauses (q.apply c) = (clause c).toList.foldl push (clauses q)) (calls : List Call) (q : DbQuery) :
    clauses (calls.foldl apply q) = (calls.filterMap clause).foldl push (clauses q) := by
  induction calls generalizing q with
  | nil => rfl
  | cons c calls ih =>
    rw [List.foldl_cons, ih, hstep, List.filterMap_cons]
    cases clause c with
    | none => rfl
    | some item => rfl

/-- The clauses of the items, each after what joins it. -/
def joinItems (emit : WhereClause → Sql) : Bool → List (Bool × WhereClause) → Sql
  | _, [] => Marked.empty
  | first, (alternative, w) :: rest =>
    (if first then Marked.empty else put (lit " " ++ conjunctionOf alternative ++ lit " ")) ++ emit w ++
      joinItems emit false rest

/-- A clause is written without its conjunction. -/
def Blind (emit : WhereClause → Sql) : Prop := ∀ w conjunction, emit { w with conjunction } = emit w

theorem emitMore_push {emit : WhereClause → Sql} (hblind : Blind emit) (items : List (Bool × WhereClause))
    {w : WhereClause} {ws : List WhereClause} :
    emitClauses emit (items.foldl push (w :: ws)) = emitClauses emit (w :: ws) ++ joinItems emit false items := by
  induction items generalizing ws with
  | nil => exact (Marked.append_empty _).symm
  | cons item items ih =>
    obtain ⟨alternative, w'⟩ := item
    have hmore : ∀ ws : List WhereClause, emitMore emit (ws ++ [{ w' with conjunction := conjunctionOf alternative }]) =
        emitMore emit ws ++ (put (lit " " ++ conjunctionOf alternative ++ lit " ") ++ emit w') := by
      intro ws
      induction ws with
      | nil =>
        show put (lit " " ++ (if (conjunctionOf alternative).isEmpty then lit "AND" else conjunctionOf alternative) ++ lit " ") ++
          emit _ ++ Marked.empty = _
        rw [hblind, Marked.append_empty]
        cases alternative with
        | true => rfl
        | false => rfl
      | cons v ws ihws =>
        show _ ++ emitMore emit (ws ++ [_]) = _ ++ emitMore emit ws ++ _
        rw [ihws]
        simp only [Marked.append_assoc]
    rw [List.foldl_cons]
    show emitClauses emit (items.foldl push (w :: (ws ++ [{ w' with conjunction := conjunctionOf alternative }]))) = _
    rw [ih]
    show emit w ++ emitMore emit (ws ++ [_]) ++ _ = emit w ++ emitMore emit ws ++ (_ ++ emit w' ++ _)
    rw [hmore]
    simp only [Marked.append_assoc]
    rfl

theorem emitClauses_push {emit : WhereClause → Sql} (hblind : Blind emit) (items : List (Bool × WhereClause)) :
    emitClauses emit (items.foldl push []) = joinItems emit true items := by
  cases items with
  | nil => rfl
  | cons item items =>
    obtain ⟨alternative, w⟩ := item
    rw [List.foldl_cons]
    show emitClauses emit (items.foldl push [{ w with conjunction := [] }]) = Marked.empty ++ emit w ++ _
    rw [emitMore_push hblind, Marked.empty_append]
    show emit _ ++ Marked.empty ++ _ = _
    rw [hblind, Marked.append_empty]

theorem isEmpty_push (items : List (Bool × WhereClause)) (ws : List WhereClause) :
    (items.foldl push ws).isEmpty = (ws.isEmpty && items.isEmpty) := by
  induction items generalizing ws with
  | nil => rw [List.foldl_nil, List.isEmpty_nil, Bool.and_true]
  | cons item items ih =>
    have hpush : (push ws item).isEmpty = false := by
      cases ws with
      | nil => rfl
      | cons w ws => rfl
    rw [List.foldl_cons, ih, hpush, List.isEmpty_cons, Bool.and_false, Bool.false_and]

theorem emitWhere_blind : Blind emitWhere := fun _ _ => rfl

theorem emitHaving_blind : Blind emitHaving := fun _ _ => rfl

/-! ### Conditions -/

theorem render_compare (column : Bytes) (op : SqlOp) (value : DbValue) :
    render (Condition.compare column op value).pieces =
      ⟨escapeColumn column ++ lit " " ++ opToString op ++ lit " ?", [value]⟩ := by
  have hmark : lit " ?" = lit " " ++ lit "?" := by decide
  show render [Piece.name _, _, _, _, _] = _
  simp only [render_cons, render_nil, sql_kw, sql_name, sql_word, sql_arg, Marked.append_empty]
  refine Marked.ext ?_ rfl
  show escapeColumn column ++ (lit " " ++ (opToString op ++ (lit " " ++ lit "?"))) = _
  rw [hmark]
  simp only [List.append_assoc]

theorem render_null (column : Bytes) (negated : Bool) : render (Condition.null column negated).pieces =
    put (escapeColumn column ++ if negated then lit " IS NOT NULL" else lit " IS NULL") := by
  show render [Piece.name _, _] = _
  rw [render_cons, render_singleton]
  cases negated with
  | true => rfl
  | false => rfl

theorem render_among (column : Bytes) (negated : Bool) (values : List DbValue) :
    render (Condition.among column negated values).pieces =
      put (escapeColumn column ++ lit " " ++ opToString (if negated then .NOT_IN else .IN) ++ lit " (") ++
        commas (values.map arg) ++ put (lit ")") := by
  have hlist : render (commaPieces (values.map fun v => [Piece.arg v])) = commas (values.map arg) := render_argPieces values
  have hword : (if negated then kw " NOT IN (" else kw " IN (").sql =
      put (lit " " ++ opToString (if negated then .NOT_IN else .IN) ++ lit " (") := by
    cases negated with
    | true => exact congrArg put (by decide)
    | false => exact congrArg put (by decide)
  show render ([Piece.name _, _] ++ _ ++ [kw ")"]) = _
  rw [render_append, render_append, hlist, render_cons, render_singleton, render_singleton, hword]
  simp only [List.append_assoc]
  rfl

theorem render_between (column : Bytes) (lo hi : DbValue) : render (Condition.between column lo hi).pieces =
    ⟨lit "(" ++ (escapeColumn column ++ lit " BETWEEN ? AND ?") ++ lit ")", [lo, hi]⟩ := by
  have hmarks : lit " BETWEEN ? AND ?" = lit " BETWEEN " ++ (lit "?" ++ (lit " AND " ++ lit "?")) := by decide
  show render [_, Piece.name _, _, _, _, _, _] = _
  simp only [render_cons, render_nil, sql_kw, sql_name, sql_arg, Marked.append_empty]
  refine Marked.ext ?_ rfl
  show lit "(" ++ (escapeColumn column ++ (lit " BETWEEN " ++ (lit "?" ++ (lit " AND " ++ (lit "?" ++ lit ")"))))) = _
  rw [hmarks]
  simp only [List.append_assoc]

theorem render_raw (t : Bytes) (params : List DbValue) :
    render (Condition.raw t params).pieces = ⟨lit "(" ++ t ++ lit ")", params⟩ := by
  show render [_, Piece.raw t params, _] = _
  rw [render_cons, render_cons, render_singleton]
  refine Marked.ext ?_ (List.append_nil params)
  show lit "(" ++ (t ++ lit ")") = _
  rw [List.append_assoc]

theorem parseOp_ne (op : Bytes) : parseOp op ≠ .RAW ∧ parseOp op ≠ .IS_NULL ∧ parseOp op ≠ .IS_NOT_NULL := by
  unfold parseOp
  repeat' apply iteInduction (motive := fun o : SqlOp => o ≠ .RAW ∧ o ≠ .IS_NULL ∧ o ≠ .IS_NOT_NULL) <;> intro _
  all_goals decide

theorem comparison_spec (column op : Bytes) (value : DbValue) :
    Lacks (parseOp op = .IN ∨ parseOp op = .NOT_IN) (emitWhere { column, op := parseOp op, value, conjunction := [] })
      (render (comparison column op value).pieces) := by
  have hshort : ∀ negated, Lacks True
      (put (escapeColumn column ++ lit " " ++ opToString (if negated then .NOT_IN else .IN) ++ lit " (") ++ Marked.empty ++
        put (lit ")")) (render (Condition.among column negated [value]).pieces) := by
    intro negated
    rw [render_among]
    refine .of_short ?_
    show (_ ++ [] ++ lit ")").length < (_ ++ lit "?" ++ lit ")").length
    rw [List.length_append, List.length_append, List.length_append, List.length_append]
    exact Nat.add_lt_add_right (Nat.add_lt_add_left (by decide) _) _
  unfold comparison
  obtain ⟨hraw, hnull, hnotNull⟩ := parseOp_ne op
  cases hop : parseOp op with
  | IN => exact (hshort false).congr (by decide)
  | NOT_IN => exact (hshort true).congr (by decide)
  | RAW => exact absurd hop hraw
  | IS_NULL => exact absurd hop hnull
  | IS_NOT_NULL => exact absurd hop hnotNull
  | _ => exact (Lacks.of_eq (render_compare _ _ _).symm).congr (by decide)

theorem clause_spec (c : Call) : (c.clause = none ∧ c.condition = none ∧ ¬ c.Drops) ∨
    ∃ alternative w condition, c.clause = some (alternative, w) ∧ c.condition = some (alternative, condition) ∧
      Lacks c.Drops (emitWhere w) (render condition.pieces) := by
  cases c with
  | «where» column op value => exact .inr ⟨_, _, _, rfl, rfl, comparison_spec column op value⟩
  | orWhere column op value => exact .inr ⟨_, _, _, rfl, rfl, comparison_spec column op value⟩
  | whereNull column => exact .inr ⟨_, _, _, rfl, rfl, .of_eq (render_null column false).symm⟩
  | whereNotNull column => exact .inr ⟨_, _, _, rfl, rfl, .of_eq (render_null column true).symm⟩
  | whereIn column values => exact .inr ⟨_, _, _, rfl, rfl, .of_eq (render_among column false values).symm⟩
  | whereNotIn column values => exact .inr ⟨_, _, _, rfl, rfl, .of_eq (render_among column true values).symm⟩
  | whereRaw raw params => exact .inr ⟨_, _, _, rfl, rfl, .of_eq (render_raw raw params).symm⟩
  | orWhereRaw raw params => exact .inr ⟨_, _, _, rfl, rfl, .of_eq (render_raw raw params).symm⟩
  | whereBetween column lo hi => exact .inr ⟨_, _, _, rfl, rfl, .of_eq (render_between column lo hi).symm⟩
  | _ => exact .inl ⟨rfl, rfl, id⟩

theorem having_spec (c : Call) : (c.havingClause = none ∧ c.havingCondition = none ∧ ¬ False) ∨
    ∃ alternative w condition, c.havingClause = some (alternative, w) ∧ c.havingCondition = some (alternative, condition) ∧
      Lacks False (emitHaving w) (render condition.pieces) := by
  cases c with
  | having raw params => exact .inr ⟨_, _, _, rfl, rfl, .of_eq (render_raw raw params).symm⟩
  | orHaving raw params => exact .inr ⟨_, _, _, rfl, rfl, .of_eq (render_raw raw params).symm⟩
  | _ => exact .inl ⟨rfl, rfl, id⟩

section
variable {clause : Call → Option (Bool × WhereClause)} {condition : Call → Option (Bool × Condition)} {drops : Call → Prop}
  {emit : WhereClause → Sql}
  (hspec : ∀ c, (clause c = none ∧ condition c = none ∧ ¬ drops c) ∨
    ∃ alternative w said, clause c = some (alternative, w) ∧ condition c = some (alternative, said) ∧
      Lacks (drops c) (emit w) (render said.pieces))
include hspec

theorem joinItems_spec (calls : List Call) (first : Bool) : Lacks (∃ c ∈ calls, drops c)
    (joinItems emit first (calls.filterMap clause)) (render (joinConditions first (calls.filterMap condition))) := by
  induction calls generalizing first with
  | nil => exact (Lacks.of_eq rfl).congr (by simp)
  | cons c calls ih =>
    obtain ⟨hclause, hcondition, hdrops⟩ | ⟨alternative, w, said, hclause, hcondition, hlacks⟩ := hspec c
    · rw [List.filterMap_cons_none hclause, List.filterMap_cons_none hcondition]
      exact (ih first).congr (by simp [hdrops])
    · rw [List.filterMap_cons_some hclause, List.filterMap_cons_some hcondition]
      have hlead : (if first then Marked.empty else put (lit " " ++ conjunctionOf alternative ++ lit " ")) =
          render (if first then [] else [if alternative then kw " OR " else kw " AND "]) := by
        cases first with
        | true => rfl
        | false =>
          cases alternative with
          | true => exact congrArg put (by decide)
          | false => exact congrArg put (by decide)
      show Lacks _ (_ ++ emit w ++ joinItems emit false _) (render (_ ++ said.pieces ++ joinConditions false _))
      rw [render_append, render_append, hlead]
      exact (((Lacks.of_eq rfl).append hlacks).append (ih false)).congr (by simp)

theorem filterMap_isEmpty (calls : List Call) : (calls.filterMap clause).isEmpty = (calls.filterMap condition).isEmpty := by
  induction calls with
  | nil => rfl
  | cons c calls ih =>
    obtain ⟨hclause, hcondition, -⟩ | ⟨alternative, w, said, hclause, hcondition, -⟩ := hspec c
    · rw [List.filterMap_cons_none hclause, List.filterMap_cons_none hcondition, ih]
    · rw [List.filterMap_cons_some hclause, List.filterMap_cons_some hcondition]
      rfl

theorem clausePieces_spec (calls : List Call) (s : String) (plain : Plain (lit s)) : Lacks (∃ c ∈ calls, drops c)
    (if (calls.filterMap clause).isEmpty then Marked.empty else put (lit s) ++ joinItems emit true (calls.filterMap clause))
    (render (clausePieces (kw s plain) (calls.filterMap condition))) := by
  unfold clausePieces
  have hjoin := joinItems_spec hspec calls true
  rw [filterMap_isEmpty hspec]
  split
  next hempty =>
    have hnone : calls.filterMap condition = [] := List.isEmpty_iff.mp hempty
    have hnone' : calls.filterMap clause = [] := by
      rw [← List.isEmpty_iff, filterMap_isEmpty hspec]
      exact hempty
    rw [hnone, hnone'] at hjoin
    exact hjoin
  next =>
    rw [render_cons]
    exact ((Lacks.of_eq rfl).append hjoin).congr (by simp)

end

theorem lacks_clausePieces (calls : List Call) (condition : Call → Option (Bool × Condition)) (s : String)
    (plain : Plain (lit s)) (hs : lit s ≠ []) : Lacks (∃ c ∈ calls, (condition c).isSome) Marked.empty
      (render (clausePieces (kw s plain) (calls.filterMap condition))) := by
  unfold clausePieces
  constructor
  · rintro ⟨c, hc, hsome⟩
    obtain ⟨item, hitem⟩ := Option.isSome_iff_exists.mp hsome
    have hne : calls.filterMap condition ≠ [] := List.ne_nil_of_mem (List.mem_filterMap.mpr ⟨c, hc, hitem⟩)
    rw [if_neg (by simpa using hne), render_cons]
    show 0 < (lit s ++ _).length
    rw [List.length_append]
    exact Nat.add_pos_left (List.length_pos_iff.mpr hs) _
  · intro hnone
    have hempty : calls.filterMap condition = [] := by
      refine List.filterMap_eq_nil_iff.mpr fun c hc => ?_
      by_contra hsome
      exact hnone ⟨c, hc, Option.isSome_iff_ne_none.mpr hsome⟩
    rw [hempty]
    rfl

theorem buildWhere_spec (calls : List Call) :
    Lacks (∃ c ∈ calls, c.Drops) (run calls).buildWhere (render (wherePieces calls)) := by
  have hwheres : (run calls).wheres = (calls.filterMap Call.clause).foldl push [] := foldl_push apply_wheres calls {}
  unfold buildWhere
  rw [hwheres, isEmpty_push, emitClauses_push emitWhere_blind]
  exact clausePieces_spec clause_spec calls " WHERE " _

theorem havings_spec (calls : List Call) :
    (if (run calls).havings.isEmpty then Marked.empty else put (lit " HAVING ") ++ emitClauses emitHaving (run calls).havings) =
      render (havingPieces calls) := by
  have hhavings : (run calls).havings = (calls.filterMap Call.havingClause).foldl push [] := foldl_push apply_havings calls {}
  rw [hhavings, isEmpty_push, emitClauses_push emitHaving_blind]
  exact (clausePieces_spec having_spec calls " HAVING " _).same (by simp)

theorem foldl_groupBy (calls : List Call) (q : DbQuery) : (calls.foldl apply q).groupBy = [] ↔
    q.groupBy = [] ∧ ∀ column, Call.groupBy column ∉ calls := by
  induction calls generalizing q with
  | nil => simp
  | cons c calls ih =>
    rw [List.foldl_cons, ih]
    have hkept : (∀ column, c ≠ .groupBy column) → (q.apply c).groupBy = q.groupBy := by
      intro hne
      cases c with
      | groupBy column => exact absurd rfl (hne column)
      | _ => rfl
    by_cases h : ∃ column, c = .groupBy column
    · obtain ⟨column, rfl⟩ := h
      refine iff_of_false (fun h => ?_) (fun h => h.2 column List.mem_cons_self)
      exact List.append_ne_nil_of_right_ne_nil _ (List.cons_ne_nil _ _) h.1
    · rw [not_exists] at h
      rw [hkept h]
      refine and_congr_right fun _ => forall_congr' fun column => ?_
      rw [List.mem_cons, not_or]
      exact ⟨fun hrest => ⟨fun heq => h column heq.symm, hrest⟩, fun hboth => hboth.2⟩

theorem buildGroupBy_spec (calls : List Call) :
    Lacks ((∃ c ∈ calls, c.havingCondition.isSome) ∧ ∀ column, Call.groupBy column ∉ calls) (run calls).buildGroupBy
      (render ((run calls).groupByPieces ++ havingPieces calls)) := by
  have hgroup : (run calls).groupBy = [] ↔ ∀ column, Call.groupBy column ∉ calls := by
    have h := foldl_groupBy calls {}
    rwa [and_iff_right rfl] at h
  unfold buildGroupBy
  rw [render_append, render_groupByPieces]
  by_cases hempty : (run calls).groupBy = []
  · have hisEmpty : (run calls).groupBy.isEmpty = true := List.isEmpty_iff.mpr hempty
    rw [if_pos hisEmpty, if_pos hisEmpty, Marked.empty_append]
    refine (lacks_clausePieces calls Call.havingCondition " HAVING " _ (by decide)).congr ?_
    rw [and_iff_left (hgroup.mp hempty)]
  · have hisEmpty : ¬ (run calls).groupBy.isEmpty = true := fun h => hempty (List.isEmpty_iff.mp h)
    rw [if_neg hisEmpty, if_neg hisEmpty, ← havings_spec]
    exact (Lacks.of_eq rfl).congr (iff_of_false id fun h => hempty (hgroup.mpr h.2))

/-! ### Batches -/

theorem commas_cons_length (x : Sql) {rest : List Sql} (hne : rest ≠ []) :
    (commas (x :: rest)).text.length = x.text.length + 2 + (commas rest).text.length := by
  cases rest with
  | nil => exact absurd rfl hne
  | cons y rest =>
    show (x.text ++ lit ", " ++ (commas (y :: rest)).text).length = _
    rw [List.length_append, List.length_append]
    rfl

theorem arg_length (value : DbValue) : 0 < (arg value).text.length := by
  show 0 < (lit "?").length
  decide

theorem commas_cons_pos {x : Sql} (hx : 0 < x.text.length) (rest : List Sql) : 0 < (commas (x :: rest)).text.length := by
  cases rest with
  | nil => exact hx
  | cons y rest =>
    rw [commas_cons_length x (List.cons_ne_nil y rest)]
    omega

theorem length_commas_append (x : List Sql) {y : List Sql} :
    (commas x).text.length + (commas y).text.length ≤ (commas (x ++ y)).text.length := by
  induction x with
  | nil => exact Nat.le_of_eq (Nat.zero_add _)
  | cons a x ih =>
    rw [List.cons_append]
    cases x with
    | nil =>
      cases y with
      | nil => exact Nat.le_refl _
      | cons b y =>
        rw [List.nil_append, commas_cons_length a (List.cons_ne_nil b y)]
        show a.text.length + _ ≤ _
        omega
    | cons b x =>
      have hne : b :: x ++ y ≠ [] := List.cons_ne_nil _ _
      rw [commas_cons_length a (List.cons_ne_nil b x), commas_cons_length a hne]
      omega

theorem length_commas_map {β : Type} {f g : β → Sql} (h : ∀ x, (f x).text.length < (g x).text.length) {x : List β}
    (hne : x ≠ []) : (commas (x.map f)).text.length < (commas (x.map g)).text.length := by
  induction x with
  | nil => exact absurd rfl hne
  | cons a x ih =>
    cases x with
    | nil => exact h a
    | cons b x =>
      have hlt := ih (List.cons_ne_nil b x)
      have ha := h a
      have hf : (commas (f a :: (b :: x).map f)).text.length = _ := commas_cons_length _ (List.cons_ne_nil _ _)
      have hg : (commas (g a :: (b :: x).map g)).text.length = _ := commas_cons_length _ (List.cons_ne_nil _ _)
      show (commas (f a :: (b :: x).map f)).text.length < (commas (g a :: (b :: x).map g)).text.length
      omega

/-- A row for the columns. -/
def rowSql (columns : List Bytes) (r : BMap DbValue) : Sql :=
  put (lit "(") ++ commas (columns.map fun c => arg (r[c]?.getD DbValue.null)) ++ put (lit ")")

theorem render_rowPieces (columns : List Bytes) (rows : List (BMap DbValue)) : render (q.rowPieces columns rows) =
    put (lit "INSERT INTO " ++ escapeTable q.table ++ lit " (") ++ commas (columns.map fun c => put (escapeColumn c)) ++
      put (lit ") VALUES ") ++ commas (rows.map (rowSql columns)) := by
  have hrow : ∀ r : BMap DbValue,
      render (kw "(" :: argPieces (columns.map fun c => r[c]?.getD DbValue.null) ++ [kw ")"]) = rowSql columns r := by
    intro r
    rw [render_append, render_cons, render_argPieces, List.map_map, render_singleton]
    rfl
  unfold rowPieces
  rw [render_append, render_append, render_append, render_namePieces, render_commaPieces, List.map_map, render_singleton,
    render_cons, render_cons, render_singleton]
  have hrows : (rows.map fun r => render (kw "(" :: argPieces (columns.map fun c => r[c]?.getD DbValue.null) ++ [kw ")"])) =
      rows.map (rowSql columns) := List.map_congr_left fun r _ => hrow r
  show _ ++ commas (rows.map fun r => render _) = _
  rw [hrows]
  rfl

theorem extraColumns_eq_nil {row : BMap DbValue} {rows : List (BMap DbValue)} : extraColumns row rows = [] ↔
    ∀ r ∈ rows, ∀ kv ∈ r.toList, kv.1 ∈ row.toList.map Prod.fst := by
  unfold extraColumns
  rw [List.eq_nil_iff_forall_not_mem]
  constructor
  · intro h r hr kv hkv
    by_contra hnot
    refine h kv.1 (List.mem_dedup.mpr (List.mem_filter.mpr ⟨?_, decide_eq_true hnot⟩))
    exact List.mem_flatMap.mpr ⟨r, hr, List.mem_map_of_mem hkv⟩
  · intro h column hcolumn
    obtain ⟨hmem, hnot⟩ := List.mem_filter.mp (List.mem_dedup.mp hcolumn)
    obtain ⟨r, hr, hr'⟩ := List.mem_flatMap.mp hmem
    obtain ⟨kv, hkv, rfl⟩ := List.mem_map.mp hr'
    exact of_decide_eq_true hnot (h r hr kv hkv)

theorem buildInsertBatch_spec (rows : List (BMap DbValue)) :
    Lacks (∃ row ∈ rows.head?, ∃ r ∈ rows, ∃ kv ∈ r.toList, kv.1 ∉ row.toList.map Prod.fst)
      (q.buildInsertBatch rows) (render (q.insertBatchPieces rows)) := by
  cases rows with
  | nil => exact (Lacks.of_eq rfl).congr (by simp)
  | cons row rows =>
    have hbuilt : q.buildInsertBatch (row :: rows) = render (q.rowPieces (row.toList.map Prod.fst) (row :: rows)) := by
      rw [render_rowPieces]
      rfl
    have hextra : (∃ first ∈ (row :: rows).head?, ∃ r ∈ row :: rows, ∃ kv ∈ r.toList, kv.1 ∉ first.toList.map Prod.fst) ↔
        extraColumns row rows ≠ [] := by
      rw [Ne, extraColumns_eq_nil]
      constructor
      · rintro ⟨first, hfirst, r, hr, kv, hkv, hnot⟩ hall
        obtain rfl : row = first := Option.some.inj hfirst
        rcases List.mem_cons.mp hr with rfl | hr
        · exact hnot (List.mem_map_of_mem hkv)
        · exact hnot (hall r hr kv hkv)
      · intro hnot
        push Not at hnot
        obtain ⟨r, hr, kv, hkv, hnot⟩ := hnot
        exact ⟨row, rfl, r, List.mem_cons_of_mem _ hr, kv, hkv, hnot⟩
    rw [hbuilt]
    show Lacks _ _ (render (q.rowPieces (row.toList.map Prod.fst ++ extraColumns row rows) (row :: rows)))
    constructor
    · intro hlost
      have hne := hextra.mp hlost
      rw [render_rowPieces, render_rowPieces]
      have hnames := length_commas_append ((row.toList.map Prod.fst).map fun c => put (escapeColumn c))
        (y := (extraColumns row rows).map fun c => put (escapeColumn c))
      have hrow : ∀ r, (rowSql (row.toList.map Prod.fst) r).text.length <
          (rowSql (row.toList.map Prod.fst ++ extraColumns row rows) r).text.length := by
        intro r
        have hargs := length_commas_append ((row.toList.map Prod.fst).map fun c => arg (r[c]?.getD DbValue.null))
          (y := (extraColumns row rows).map fun c => arg (r[c]?.getD DbValue.null))
        have hpos : 0 < (commas ((extraColumns row rows).map fun c => arg (r[c]?.getD DbValue.null))).text.length := by
          obtain ⟨c, cs, hcons⟩ := List.exists_cons_of_ne_nil hne
          rw [hcons]
          exact commas_cons_pos (arg_length _) _
        rw [← List.map_append] at hargs
        unfold rowSql
        simp only [Marked.text_append, List.length_append]
        omega
      have hrows := length_commas_map hrow (List.cons_ne_nil row rows)
      rw [← List.map_append] at hnames
      simp only [Marked.text_append, List.length_append]
      omega
    · intro hkept
      have hnil : extraColumns row rows = [] := by
        by_contra hne
        exact hkept (hextra.mpr hne)
      rw [hnil, List.append_nil]

/-! ### Whole statements -/

theorem build_spec (calls : List Call) (b : Build) :
    Lacks (Drops calls b) ((run calls).build b) (render (statement calls b)) := by
  have hwhere := buildWhere_spec calls
  have hhaving : Lacks (∃ c ∈ calls, c.havingCondition.isSome) Marked.empty (render (havingPieces calls)) :=
    lacks_clausePieces calls Call.havingCondition " HAVING " _ (by decide)
  have hdropped : ∀ x : Sql, Lacks ((∃ c ∈ calls, c.condition.isSome) ∨ ∃ c ∈ calls, c.havingCondition.isSome) x
      (x ++ render (wherePieces calls) ++ render (havingPieces calls)) := by
    intro x
    have hwhole := (lacks_clausePieces calls Call.condition " WHERE " (by decide) (by decide)).append hhaving
    have h := (Lacks.of_eq (rfl : x = x)).append hwhole
    rw [Marked.empty_append, Marked.append_empty, ← Marked.append_assoc] at h
    exact h.congr (by simp)
  have hlimited : ∀ x : Sql, Lacks ((∃ c ∈ calls, c.Drops) ∨ ∃ c ∈ calls, c.havingCondition.isSome)
      (x ++ (run calls).buildWhere ++ (run calls).buildLimitOffset)
      (x ++ render (wherePieces calls) ++ render (havingPieces calls) ++ (run calls).buildLimitOffset) := by
    intro x
    have h := (((Lacks.of_eq (rfl : x = x)).append hwhere).append hhaving).append
      (Lacks.of_eq (rfl : (run calls).buildLimitOffset = _))
    rw [Marked.append_empty] at h
    exact h.congr (by simp)
  cases b with
  | select =>
    have hstatement : render (statement calls .select) = render (run calls).selectPieces ++ render (wherePieces calls) ++
        render ((run calls).groupByPieces ++ havingPieces calls) ++ (run calls).buildOrderBy ++
          (run calls).buildLimitOffset ++ (run calls).buildLock := by
      show render (_ ++ _ ++ _ ++ _ ++ _ ++ _ ++ _) = _
      simp only [render_append, render_orderByPieces, render_limitOffsetPieces, render_lockPieces, Marked.append_assoc]
    rw [hstatement, render_selectPieces]
    exact ((((((Lacks.of_eq rfl).append hwhere).append (buildGroupBy_spec calls)).append (.of_eq rfl)).append
      (.of_eq rfl)).append (.of_eq rfl)).congr (by unfold Drops; simp)
  | insert values =>
    show Lacks _ _ (render (_ ++ _ ++ _))
    rw [render_append, render_append, render_insertPieces]
    exact hdropped _
  | insertBatch rows =>
    show Lacks _ _ (render (_ ++ _ ++ _))
    rw [render_append, render_append]
    have h := ((buildInsertBatch_spec (q := run calls) rows).append
      (lacks_clausePieces calls Call.condition " WHERE " (by decide) (by decide))).append hhaving
    rw [Marked.append_empty, Marked.append_empty] at h
    exact h.congr or_assoc
  | upsert values updateColumns =>
    show Lacks _ _ (render (_ ++ _ ++ _))
    rw [render_append, render_append, render_upsertPieces]
    exact hdropped _
  | update values =>
    show Lacks _ _ (render (_ ++ _ ++ _ ++ _))
    rw [render_append, render_append, render_append, render_updatePieces, render_limitOffsetPieces]
    exact hlimited _
  | delete =>
    show Lacks _ _ (render (_ ++ _ ++ _ ++ _))
    rw [render_append, render_append, render_append, render_limitOffsetPieces, render_cons, render_singleton]
    exact hlimited _

/-! ## Top theorem -/

theorem aligned_render_iff (pieces : List Piece) :
    (∀ front back, pieces = front ++ back → Aligned backtick mark (render front)) ↔ ∀ p ∈ pieces, p.Fits := by
  have hpiece : ∀ p : Piece, Aligned backtick mark p.sql ↔ p.Fits := by
    intro p
    cases p with
    | word t plain => exact iff_of_true plain trivial
    | name t => exact Iff.rfl
    | arg value => exact iff_of_true rfl trivial
    | raw t params => exact Iff.rfl
  have hprefix : (∀ front back, pieces.map Piece.sql = front ++ back → Aligned backtick mark (Marked.concat front)) ↔
      ∀ p ∈ pieces.map Piece.sql, Aligned backtick mark p := aligned_prefixes_iff
  have hmap : (∀ front back, pieces.map Piece.sql = front ++ back → Aligned backtick mark (Marked.concat front)) ↔
      ∀ front back, pieces = front ++ back → Aligned backtick mark (render front) := by
    constructor
    · rintro h front back rfl
      exact h _ _ List.map_append
    · intro h front back heq
      obtain ⟨front', back', rfl, rfl, rfl⟩ := List.map_eq_append_iff.mp heq
      exact h front' back' rfl
  rw [← hmap, hprefix, List.forall_mem_map]
  exact forall₂_congr fun p _ => hpiece p

theorem faithful_iff (calls : List Call) (b : Build) :
    Faithful calls b ↔ ¬ Drops calls b ∧ ∀ p ∈ statement calls b, p.Fits := by
  unfold Faithful
  rw [(build_spec calls b).eq_iff, aligned_render_iff]

def five : DbValue := ⟨.Int64, 5, []⟩

/-- `DELETE FROM t WHERE id IN ()`, a select without its HAVING clause, and a batch without the column of its second
row. -/
theorem statements_lack :
    ¬ Faithful [.table (lit "t"), .where (lit "id") (lit "in") five] .delete ∧
    ¬ Faithful [.table (lit "t"), .having (lit "COUNT(*) > ?") [five]] .select ∧
    ¬ Faithful [.table (lit "t")]
      (.insertBatch [(∅ : BMap DbValue).insert (lit "a") five, (∅ : BMap DbValue).insert (lit "b") five]) := by
  refine ⟨fun h => ?_, fun h => ?_, fun h => ?_⟩
  · exact absurd (congrArg (·.text) h.1) (by decide)
  · exact absurd (congrArg (·.text) h.1) (by decide)
  · exact absurd (congrArg (·.text) h.1) (by decide)

end DbQuery

end Db
