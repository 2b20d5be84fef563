import AltrStream.QueryEngine.Ast
import AltrStream.QueryEngine.Lexer

/-! # Printing a query

The tokens that spell an intermediate representation: every operand of AND, OR and
NOT in braces of its own, the clauses in the order of the grammar. What carries
meaning is a token other than punctuation and AND, for which a comma may stand.
-/
namespace AltrStream.QueryEngine
open Foundations Python

/-- The token is more than punctuation. -/
def TokenType.isContent : TokenType → Bool
  | .lparen | .rparen | .lbrace | .rbrace | .comma | .semicolon | .and | .eof => false
  | _ => true

/-- The tokens that carry meaning. -/
def content (types : List TokenType) : List TokenType := types.filter (·.isContent)

@[simp] theorem content_nil : content [] = [] := rfl

@[simp] theorem content_append (xs ys : List TokenType) :
    content (xs ++ ys) = content xs ++ content ys := List.filter_append ..

theorem content_cons (x : TokenType) (xs : List TokenType) :
    content (x :: xs) = content [x] ++ content xs := content_append [x] xs

theorem content_intercalate {sep : TokenType} (h : sep.isContent = false) (parts : List (List TokenType)) :
    content ([sep].intercalate parts) = parts.flatMap content := by
  have hsep : content [sep] = [] := by simp [content, h]
  induction parts with
  | nil => rfl
  | cons x parts ih =>
    cases parts with
    | nil => simp [List.intercalate]
    | cons y parts =>
      rw [List.flatMap_cons, ← ih]
      simp only [List.intercalate, List.intersperse_cons_cons, List.flatten_cons, content_append,
        List.singleton_append]
      rw [content_cons, hsep, List.nil_append]

theorem intercalate_singleton (sep : TokenType) (x : List TokenType) : [sep].intercalate [x] = x := by
  simp [List.intercalate]

theorem intercalate_cons_cons (sep : TokenType) (x y : List TokenType) (parts : List (List TokenType)) :
    [sep].intercalate (x :: y :: parts) = x ++ sep :: [sep].intercalate (y :: parts) := by
  simp [List.intercalate, List.intersperse_cons_cons]

/-! ### The parts of a query -/

def FieldPath.print (p : FieldPath) : List TokenType :=
  .identifier p.root :: p.keys.flatMap fun key => [.dot, .identifier key]

def LiteralValue.print : LiteralValue → TokenType
  | string value => .string value
  | integer value => .integer value
  | float value => .float value
  | boolean true => .true_
  | boolean false => .false_
  | null => .null
  | temporal (.keyword .today) => .today
  | temporal (.keyword .now) => .now
  | temporal (.value value) => .temporalLiteral value

def ComparisonOperator.print : ComparisonOperator → TokenType
  | eq => .eq
  | neq => .neq
  | gt => .gt
  | lt => .lt
  | gte => .gte
  | lte => .lte

def Operator.print : Operator → List TokenType
  | comparison op => [op.print]
  | string .starts => [.starts]
  | string .ends => [.ends]
  | string .has => [.has]
  | string .notHas => [.not, .has]

def Range.print (r : Range) : List TokenType := [r.start.print, .dotdot, r.stop.print]

def ComparisonConstraint.print (c : ComparisonConstraint) : List TokenType :=
  [c.operator.print, c.value.print]

/-- Constraints joined by `&`. -/
def printCompound (cs : List ComparisonConstraint) : List TokenType :=
  [.ampersand].intercalate (cs.map (·.print))

theorem printCompound_cons (c c' : ComparisonConstraint) (cs : List ComparisonConstraint) :
    printCompound (c :: c' :: cs) = c.print ++ .ampersand :: printCompound (c' :: cs) :=
  intercalate_cons_cons ..

theorem printCompound_singleton (c : ComparisonConstraint) : printCompound [c] = c.print :=
  intercalate_singleton ..

def ValueSetElement.print : ValueSetElement → List TokenType
  | literal l => [l.print]
  | range r => r.print
  | constraint c => c.print
  | compound cs => printCompound cs

def Operand.print : Operand → List TokenType
  | literal l => [l.print]
  | valueSet elements => .lbrace :: [.comma].intercalate (elements.map (·.print)) ++ [.rbrace]
  | range r => r.print
  | constraint c => c.print
  | compound cs => printCompound cs

def FieldExpression.print (e : FieldExpression) : List TokenType :=
  e.field.print ++ (e.operator.print ++ e.operand.print)

/-- The tree with explicit braces. -/
def printExpression : Expression → List TokenType
  | .atom e => e.print
  | .not operand => .not :: .lbrace :: printExpression operand ++ [.rbrace]
  | .and l r => .lbrace :: printExpression l ++ .rbrace :: .and :: .lbrace :: printExpression r ++ [.rbrace]
  | .or l r => .lbrace :: printExpression l ++ .rbrace :: .or :: .lbrace :: printExpression r ++ [.rbrace]

def printWhere : Option Expression → List TokenType
  | none => []
  | some e => .where_ :: .lbrace :: printExpression e ++ [.rbrace]

def FieldSelection.print (s : FieldSelection) : List TokenType :=
  s.path.print ++ s.alias_.elim [] fun name => [.as_, .identifier name]

def printProjection (projection : List FieldSelection) : List TokenType :=
  if projection = [] then []
  else .lparen :: [.comma].intercalate (projection.map (·.print)) ++ [.rparen]

def SortDirection.print : SortDirection → TokenType
  | asc => .asc
  | desc => .desc

def RankingDirection.print : RankingDirection → TokenType
  | top => .top
  | bottom => .bottom

def SortClause.print (c : SortClause) : List TokenType := c.field.print ++ [c.direction.print]

def printSort (sort : List SortClause) : List TokenType :=
  if sort = [] then []
  else .sort :: .lbrace :: [.comma].intercalate (sort.map (·.print)) ++ [.rbrace]

def RankingClause.print (r : RankingClause) : List TokenType :=
  r.direction.print :: .integer r.count :: .by_ :: r.field.print

def printLimit : Option ℤ → List TokenType
  | none => []
  | some n => [.limit, .integer n]

def printOffset : Option ℤ → List TokenType
  | none => []
  | some n => [.offset, .integer n]

def MutationAssignment.print (a : MutationAssignment) : List TokenType :=
  a.field.print ++ [.colon, a.value.print]

/-- Assignments in parentheses. -/
def printAssignments (assignments : List MutationAssignment) : List TokenType :=
  .lparen :: [.comma].intercalate (assignments.map (·.print)) ++ [.rparen]

def CreateRecord.print (r : CreateRecord) : List TokenType := printAssignments r.assignments

/-- The statement up to the clauses that order and cut the result. -/
def AltrQueryIR.printHead (ir : AltrQueryIR) : List TokenType :=
  match ir.operation with
  | .read => .get :: .identifier ir.entity :: (printProjection ir.projection ++ printWhere ir.where_)
  | .create => .create :: .identifier ir.entity :: .lparen ::
      [.comma].intercalate (ir.records.map (·.print)) ++ [.rparen]
  | .update => .update :: .identifier ir.entity ::
      (printAssignments ir.assignments ++ printWhere ir.where_)
  | .delete => .delete :: .identifier ir.entity :: printWhere ir.where_

/-- SORT or a ranking clause. -/
def AltrQueryIR.printOrdering (ir : AltrQueryIR) : List TokenType :=
  printSort ir.sort ++ ir.ranking.elim [] (·.print)

/-- The types of the tokens that spell the query. -/
def AltrQueryIR.print (ir : AltrQueryIR) : List TokenType :=
  ir.printHead ++ (ir.printOrdering ++ (printLimit ir.limit ++ (printOffset ir.offset ++
    [.semicolon, .eof])))

/-- The same, with OFFSET in front of LIMIT. -/
def AltrQueryIR.printOffsetFirst (ir : AltrQueryIR) : List TokenType :=
  ir.printHead ++ (ir.printOrdering ++ (printOffset ir.offset ++ (printLimit ir.limit ++
    [.semicolon, .eof])))

/-! ### What the parser builds -/

/-- A compound has more than one constraint. -/
def ValueSetElement.Printable : ValueSetElement → Prop
  | compound cs => 2 ≤ cs.length
  | literal _ | range _ | constraint _ => True

/-- The operand that the grammar has after the operator. -/
def Operand.Printable : Operator → Operand → Prop
  | .comparison _, literal _ | .comparison _, range _ => True
  | .string _, literal l => ∃ s, l = .string s
  | .comparison op, valueSet elements =>
    op.isOrdering = false ∧ elements ≠ [] ∧ ∀ e ∈ elements, e.Printable
  | .string op, valueSet elements =>
    (op = .has ∨ op = .notHas) ∧ elements ≠ [] ∧ ∀ e ∈ elements, e.Printable
  | _, _ => False

def PrintableExpression (expr : Expression) : Prop :=
  ∀ e ∈ expr.atoms, e.operand.Printable e.operator

/-- A record has assignments, to different fields. -/
def CreateRecord.Printable (r : CreateRecord) : Prop :=
  r.assignments ≠ [] ∧ (r.assignments.map (·.field.fullPath)).Nodup

/-- The clauses that the statement does not have are empty. -/
def AltrQueryIR.OfStatement (ir : AltrQueryIR) : Prop :=
  match ir.operation with
  | .read => ir.assignments = [] ∧ ir.records = []
  | .create => ir.projection = [] ∧ ir.where_ = none ∧ ir.assignments = [] ∧ ir.sort = [] ∧
      ir.ranking = none ∧ ir.limit = none ∧ ir.offset = none
  | .update => ir.projection = [] ∧ ir.where_ ≠ none ∧ ir.records = [] ∧ ir.sort = [] ∧
      ir.ranking = none ∧ ir.limit = none ∧ ir.offset = none
  | .delete => ir.projection = [] ∧ ir.assignments = [] ∧ ir.records = [] ∧ ir.sort = [] ∧
      ir.ranking = none ∧ ir.limit = none ∧ ir.offset = none

/-- The query is one that the grammar can spell. -/
structure AltrQueryIR.Printable (ir : AltrQueryIR) : Prop where
  statement : ir.OfStatement
  ordering : ir.sort = [] ∨ ir.ranking = none
  conditions : ∀ e ∈ ir.where_, PrintableExpression e
  records : ∀ r ∈ ir.records, r.Printable
  create : ir.operation = .create → ir.records ≠ []
  update : ir.operation = .update → ir.assignments ≠ []

end AltrStream.QueryEngine
