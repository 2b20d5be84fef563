import AltrStream.Lowering.Registry

/-! # Conditions as tokens

The text of a condition is a row of words, signs and atoms, where column
references, operands and literals are atoms. A reader with SQL's precedence, in
which NOT binds tighter than AND and AND tighter than OR, and with BETWEEN and
its AND as one predicate, reads tokens as a tree of predicates.
-/
namespace AltrStream.Lowering
open Foundations Python QueryEngine Semantics

inductive SqlWord where
  | is | null | not | and | or | between | inList | like | escape
  | select | as | from_ | where_ | order | by | asc | desc | nulls | first | last | limit | offset
  deriving DecidableEq

def SqlWord.text : SqlWord → String
  | .is => "IS"
  | .null => "NULL"
  | .not => "NOT"
  | .and => "AND"
  | .or => "OR"
  | .between => "BETWEEN"
  | .inList => "IN"
  | .like => "LIKE"
  | .escape => "ESCAPE"
  | .select => "SELECT"
  | .as => "AS"
  | .from_ => "FROM"
  | .where_ => "WHERE"
  | .order => "ORDER"
  | .by => "BY"
  | .asc => "ASC"
  | .desc => "DESC"
  | .nulls => "NULLS"
  | .first => "FIRST"
  | .last => "LAST"
  | .limit => "LIMIT"
  | .offset => "OFFSET"

inductive SqlToken where
  | word (w : SqlWord)
  | opening
  | closing
  | comma
  | semicolon
  | star
  | sign (op : ComparisonOperator)
  /-- `1=1` -/
  | tautology
  /-- The reference to a column or to a JSON value in it. -/
  | column (c : BoundFieldPath)
  /-- A table, a column or an alias, in quotes. -/
  | name (text : String)
  /-- A placeholder or a current time. -/
  | operand (x : SqlOperand)
  /-- The escape character of `LIKE`, as a string literal. -/
  | escapeLiteral
  | number (n : ℤ)
  deriving DecidableEq

namespace SqlToken

def text (d : SqlDialect) : SqlToken → String
  | word w => w.text
  | opening => "("
  | closing => ")"
  | comma => ","
  | semicolon => ";"
  | star => "*"
  | sign op => op.value
  | tautology => "1=1"
  | column c => d.lowerFieldPath c
  | name text => text
  | operand x => d.operandText x
  | escapeLiteral => d.likeEscape
  | number n => toString n

/-- Whether no blank stands between two tokens. -/
def glued : SqlToken → SqlToken → Bool
  | opening, _ | _, closing | _, comma | _, semicolon => true
  | _, _ => false

def blank (t u : SqlToken) : String := if glued t u then "" else " "

/-- The text of a row of tokens. -/
def spell (d : SqlDialect) : List SqlToken → String
  | [] => ""
  | [t] => t.text d
  | t :: u :: ts => t.text d ++ blank t u ++ spell d (u :: ts)

/-- NULL is a word wherever it stands. -/
def ofOperand : SqlOperand → SqlToken
  | .null => word .null
  | x => operand x

/-- `x, y, z` -/
def operands : List SqlOperand → List SqlToken
  | [] => []
  | [x] => [ofOperand x]
  | x :: xs => ofOperand x :: comma :: operands xs

end SqlToken

open SqlToken (ofOperand) in
/-- The tokens of a condition. -/
def Condition.tokens : Condition → List SqlToken
  | .constant => [.tautology]
  | .blank => []
  | .isNull c => [.column c, .word .is, .word .null]
  | .isNotNull c => [.column c, .word .is, .word .not, .word .null]
  | .compare c op x => [.column c, .sign op, ofOperand x]
  | .between c lo hi => [.column c, .word .between, ofOperand lo, .word .and, ofOperand hi]
  | .notBetween c lo hi =>
    [.column c, .word .not, .word .between, ofOperand lo, .word .and, ofOperand hi]
  | .isIn c xs => [.column c, .word .inList, .opening] ++ SqlToken.operands xs ++ [.closing]
  | .notIn c xs => [.column c, .word .not, .word .inList, .opening] ++ SqlToken.operands xs ++ [.closing]
  | .like c p => [.column c, .word .like, ofOperand p, .word .escape, .escapeLiteral]
  | .notLike c p =>
    [.column c, .word .not, .word .like, ofOperand p, .word .escape, .escapeLiteral]
  | .and l r => l.tokens ++ .word .and :: r.tokens
  | .or l r => l.tokens ++ .word .or :: r.tokens
  | .not e => .word .not :: e.tokens
  | .group e => .opening :: (e.tokens ++ [.closing])

/-! ### Reading -/

section
open SqlToken

def readOperand : SqlToken → Option SqlOperand
  | operand x => some x
  | word .null => some .null
  | _ => none

/-- The rest of a list behind its opening parenthesis. -/
def readOperands : List SqlToken → Option (List SqlOperand × List SqlToken)
  | x :: closing :: ts => (readOperand x).map fun x => ([x], ts)
  | x :: comma :: ts => (readOperand x).bind fun x => (readOperands ts).map fun r => (x :: r.1, r.2)
  | _ => none

def readPredicate : List SqlToken → Option (Condition × List SqlToken)
  | tautology :: ts => some (.constant, ts)
  | column c :: word .is :: word .null :: ts => some (.isNull c, ts)
  | column c :: word .is :: word .not :: word .null :: ts => some (.isNotNull c, ts)
  | column c :: sign op :: x :: ts => (readOperand x).map fun x => (.compare c op x, ts)
  | column c :: word .between :: lo :: word .and :: hi :: ts => (readOperand lo).bind fun lo =>
      (readOperand hi).map fun hi => (.between c lo hi, ts)
  | column c :: word .not :: word .between :: lo :: word .and :: hi :: ts =>
      (readOperand lo).bind fun lo => (readOperand hi).map fun hi => (.notBetween c lo hi, ts)
  | column c :: word .inList :: opening :: ts =>
      (readOperands ts).map fun r => (.isIn c r.1, r.2)
  | column c :: word .not :: word .inList :: opening :: ts =>
      (readOperands ts).map fun r => (.notIn c r.1, r.2)
  | column c :: word .like :: p :: word .escape :: escapeLiteral :: ts =>
      (readOperand p).map fun p => (.like c p, ts)
  | column c :: word .not :: word .like :: p :: word .escape :: escapeLiteral :: ts =>
      (readOperand p).map fun p => (.notLike c p, ts)
  | _ => none

/-- Trees joined by AND, the first ones first. -/
def conjoin : List (Formula Condition) → Option (Formula Condition)
  | [] => none
  | t :: ts => some (ts.foldl .and t)

def disjoin : List (Formula Condition) → Option (Formula Condition)
  | [] => none
  | t :: ts => some (ts.foldl .or t)

mutual

/-- A predicate, a negation or a group. -/
def readPrimary : ℕ → List SqlToken → Option (Formula Condition × List SqlToken)
  | 0, _ => none
  | n + 1, word .not :: ts => (readPrimary n ts).map fun r => (.not r.1, r.2)
  | n + 1, opening :: ts =>
    match readDisjuncts n ts with
    | some (l, closing :: rest) => (disjoin l).map fun t => (t, rest)
    | _ => none
  | _ + 1, ts => (readPredicate ts).map fun r => (.atom r.1, r.2)

/-- Primaries with AND between them. -/
def readConjuncts : ℕ → List SqlToken → Option (List (Formula Condition) × List SqlToken)
  | 0, _ => none
  | n + 1, ts =>
    match readPrimary n ts with
    | some (t, word .and :: rest) => (readConjuncts n rest).map fun r => (t :: r.1, r.2)
    | some (t, rest) => some ([t], rest)
    | none => none

/-- Conjunctions with OR between them. -/
def readDisjuncts : ℕ → List SqlToken → Option (List (Formula Condition) × List SqlToken)
  | 0, _ => none
  | n + 1, ts =>
    match readConjuncts n ts with
    | some (l, word .or :: rest) => (conjoin l).bind fun t =>
        (readDisjuncts n rest).map fun r => (t :: r.1, r.2)
    | some (l, rest) => (conjoin l).map fun t => ([t], rest)
    | none => none

end

/-- The tree of a search condition, and the tokens behind it. -/
def readCondition (ts : List SqlToken) : Option (Formula Condition × List SqlToken) :=
  (readDisjuncts (3 * ts.length + 2) ts).bind fun r => (disjoin r.1).map fun t => (t, r.2)

end

/-- The tree that a condition is meant to be, without its parentheses. -/
def Condition.tree : Condition → Formula Condition
  | .and l r => .and l.tree r.tree
  | .or l r => .or l.tree r.tree
  | .not e => .not e.tree
  | .group e => e.tree
  | c => .atom c

end AltrStream.Lowering
