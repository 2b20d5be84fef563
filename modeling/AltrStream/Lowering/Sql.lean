import AltrStream.Foundations.Emission
import AltrStream.Foundations.Lines
import AltrStream.QueryEngine.Errors
import AltrStream.Semantics.Meaning

/-! # SQL conditions and statements

The part of SQL that the three SQL lowerers write: conditions with explicit
parentheses, the statements around them, their text in a dialect, and the
three-valued truth of a condition on a row.
-/
namespace AltrStream.Lowering
open Foundations Python QueryEngine Semantics

/-- What stands at an operand position; a parameter is named by its place in
the parameter list, counted from one. -/
inductive SqlOperand where
  | param (index : ℕ)
  | current (keyword : TemporalKeyword)
  | null
  deriving DecidableEq

inductive Condition where
  /-- `1=1` -/
  | constant
  /-- No text at all, what joining an empty list writes. -/
  | blank
  | isNull (column : BoundFieldPath)
  | isNotNull (column : BoundFieldPath)
  | compare (column : BoundFieldPath) (op : ComparisonOperator) (x : SqlOperand)
  | between (column : BoundFieldPath) (lo hi : SqlOperand)
  | notBetween (column : BoundFieldPath) (lo hi : SqlOperand)
  | isIn (column : BoundFieldPath) (xs : List SqlOperand)
  | notIn (column : BoundFieldPath) (xs : List SqlOperand)
  | like (column : BoundFieldPath) (pattern : SqlOperand)
  | notLike (column : BoundFieldPath) (pattern : SqlOperand)
  | and (left right : Condition)
  | or (left right : Condition)
  | not (operand : Condition)
  | group (inner : Condition)
  deriving DecidableEq

namespace Condition

/-- `' AND '.join(conditions)` -/
def joinAnd : List Condition → Condition
  | [] => blank
  | c :: cs => cs.foldl and c

/-- `' OR '.join(conditions)` -/
def joinOr : List Condition → Condition
  | [] => blank
  | c :: cs => cs.foldl or c

end Condition

/-- The notation of one database. -/
structure SqlDialect where
  name : String
  quoteIdent : String → String
  /-- The reference to a nested JSON value, from the quoted root column and the keys below it. -/
  nestedPath : String → List String → String
  placeholder : ℕ → String
  current : TemporalKeyword → String
  /-- The escape character of `LIKE`, as a string literal of the dialect. -/
  likeEscape : String
  /-- What follows a mutation. -/
  returning : String

namespace SqlDialect

variable (d : SqlDialect)

def lowerFieldPath (field : BoundFieldPath) : String :=
  if field.path.isNested then d.nestedPath (d.quoteIdent field.path.root) field.path.keys
  else d.quoteIdent field.path.leaf

def operandText : SqlOperand → String
  | .param i => d.placeholder i
  | .current k => d.current k
  | .null => "NULL"

def listText (xs : List SqlOperand) : String := ", ".intercalate (xs.map d.operandText)

def render : Condition → String
  | .constant => "1=1"
  | .blank => ""
  | .isNull c => s!"{d.lowerFieldPath c} IS NULL"
  | .isNotNull c => s!"{d.lowerFieldPath c} IS NOT NULL"
  | .compare c op x => s!"{d.lowerFieldPath c} {op.value} {d.operandText x}"
  | .between c lo hi =>
    s!"{d.lowerFieldPath c} BETWEEN {d.operandText lo} AND {d.operandText hi}"
  | .notBetween c lo hi =>
    s!"{d.lowerFieldPath c} NOT BETWEEN {d.operandText lo} AND {d.operandText hi}"
  | .isIn c xs => s!"{d.lowerFieldPath c} IN ({d.listText xs})"
  | .notIn c xs => s!"{d.lowerFieldPath c} NOT IN ({d.listText xs})"
  | .like c p => s!"{d.lowerFieldPath c} LIKE {d.operandText p} ESCAPE {d.likeEscape}"
  | .notLike c p => s!"{d.lowerFieldPath c} NOT LIKE {d.operandText p} ESCAPE {d.likeEscape}"
  | .and l r => s!"{render l} AND {render r}"
  | .or l r => s!"{render l} OR {render r}"
  | .not e => s!"NOT {render e}"
  | .group e => s!"({render e})"

end SqlDialect

/-- An entry of ORDER BY. -/
structure OrderItem where
  column : String
  direction : SortDirection
  nulls : String := ""
  deriving DecidableEq

inductive SqlStatement where
  | insert (table : String) (columns : List String) (rows : List (List SqlOperand))
  | update (table : String) (assignments : List (String × SqlOperand)) (where_ : Option Condition)
  | delete (table : String) (where_ : Option Condition)
  | select (items : List (String × Option String)) (table : String) (where_ : Option Condition)
      (orderBy : List OrderItem) (limit offset : Option ℤ)
  deriving DecidableEq

def SqlStatement.whereCondition : SqlStatement → Option Condition
  | insert .. => none
  | update _ _ w | delete _ w | select _ _ w _ _ _ => w

namespace SqlDialect

variable (d : SqlDialect)

def whereText (w : Option Condition) : String := w.elim "" fun c => s!" WHERE {d.render c}"

/-- The text of a statement. -/
def statementText : SqlStatement → String
  | .insert table columns rows =>
    let names := ", ".intercalate columns
    let tuples := ", ".intercalate (rows.map fun row => s!"({d.listText row})")
    s!"INSERT INTO {table} ({names}) VALUES {tuples}{d.returning};"
  | .update table assignments w =>
    let items := ", ".intercalate (assignments.map fun a => s!"{a.1} = {d.operandText a.2}")
    s!"UPDATE {table} SET {items}{d.whereText w}{d.returning};"
  | .delete table w => s!"DELETE FROM {table}{d.whereText w}{d.returning};"
  | .select items table w orderBy limit offset =>
    let selectItems := items.map fun i => i.1 ++ i.2.elim "" fun a => s!" AS {a}"
    let selected := if items.isEmpty then "*" else ", ".intercalate selectItems
    let orderItems := orderBy.map fun o => s!"{o.column} {o.direction.value}{o.nulls}"
    let order := if orderBy.isEmpty then "" else " ORDER BY " ++ ", ".intercalate orderItems
    let limited := limit.elim "" fun n => s!" LIMIT {n}"
    let skipped := offset.elim "" fun n => s!" OFFSET {n}"
    s!"SELECT {selected} FROM {table}{d.whereText w}{order}{limited}{skipped};"

end SqlDialect

/-- A statement with its bound parameters and target source. -/
structure PhysicalQuery where
  dialect : SqlDialect
  statement : SqlStatement
  parameters : List Scalar
  sourceId : String
  sourceName : String

def PhysicalQuery.query (q : PhysicalQuery) : String := q.dialect.statementText q.statement

inductive PhysicalQueryResult where
  | single (query : PhysicalQuery)
  | batch (dialect : SqlDialect) (queries : List PhysicalQuery) (sourceId sourceName : String)

/-! ### Three-valued truth -/

/-- A SQL comparison, UNKNOWN when a side is NULL. -/
def sqlCompare {V : Type*} [LinearOrder V] (op : ComparisonOperator) : Option V → Option V → Truth
  | some x, some y => .ofBool (op.holds x y)
  | _, _ => .unknown

/-- What a condition is evaluated against: a row, the bound parameters and the clock. -/
structure Env where
  clock : Clock
  params : List Scalar
  row : FieldPath → Option Value

namespace Env

variable (env : Env)

def column (c : BoundFieldPath) : Option Value := env.row c.path

/-- The scalar at an operand position. -/
def scalar : SqlOperand → Scalar
  | .param i => (entryAt env.params i).getD .none
  | .current k => env.clock.read k
  | .null => .none

end Env

def Env.read (env : Env) (c : BoundFieldPath) (x : SqlOperand) : Option Value :=
  readScalar c.isTemporal (env.scalar x)

/-- `LIKE` compares texts. -/
def sqlLike : Option Value → Scalar → Truth
  | some (.text s), .str p => .ofBool (likeMatch p.toList s.toList)
  | some _, .str _ => .no
  | _, _ => .unknown

namespace Condition

def eval (env : Env) : Condition → Truth
  | constant => .yes
  | blank => .unknown
  | isNull c => .ofBool (env.column c).isNone
  | isNotNull c => .ofBool (env.column c).isSome
  | compare c op x => sqlCompare op (env.column c) (env.read c x)
  | between c lo hi =>
    (sqlCompare .gte (env.column c) (env.read c lo)).and
      (sqlCompare .lte (env.column c) (env.read c hi))
  | notBetween c lo hi =>
    ((sqlCompare .gte (env.column c) (env.read c lo)).and
      (sqlCompare .lte (env.column c) (env.read c hi))).neg
  | isIn c xs => .disj (xs.map fun x => sqlCompare .eq (env.column c) (env.read c x))
  | notIn c xs => (Truth.disj (xs.map fun x => sqlCompare .eq (env.column c) (env.read c x))).neg
  | like c p => sqlLike (env.column c) (env.scalar p)
  | notLike c p => (sqlLike (env.column c) (env.scalar p)).neg
  | and l r => (eval env l).and (eval env r)
  | or l r => (eval env l).or (eval env r)
  | not e => (eval env e).neg
  | group e => eval env e

variable (env : Env)

private theorem eval_foldl_and (c : Condition) (cs : List Condition) :
    (cs.foldl and c).eval env = (c.eval env).and (.conj (cs.map (eval env))) := by
  induction cs generalizing c with
  | nil => simp [Truth.conj]
  | cons c' cs ih =>
    rw [List.foldl_cons, ih, eval, List.map_cons]
    exact Truth.and_assoc _ _ _

private theorem eval_foldl_or (c : Condition) (cs : List Condition) :
    (cs.foldl or c).eval env = (c.eval env).or (.disj (cs.map (eval env))) := by
  induction cs generalizing c with
  | nil => simp [Truth.disj]
  | cons c' cs ih =>
    rw [List.foldl_cons, ih, eval, List.map_cons]
    exact Truth.or_assoc _ _ _

theorem eval_joinAnd {cs : List Condition} (h : cs ≠ []) :
    (joinAnd cs).eval env = .conj (cs.map (eval env)) := by
  cases cs with
  | nil => exact absurd rfl h
  | cons c cs => exact eval_foldl_and env c cs

theorem eval_joinOr {cs : List Condition} (h : cs ≠ []) :
    (joinOr cs).eval env = .disj (cs.map (eval env)) := by
  cases cs with
  | nil => exact absurd rfl h
  | cons c cs => exact eval_foldl_or env c cs

end Condition

end AltrStream.Lowering
