import AltrStream.Lowering.Alignment
import AltrStream.Lowering.Spelling

/-! # The SELECT grammar of the three dialects

A reader of SELECT statements, clause by clause. MySQL and SQLite let OFFSET stand
behind LIMIT only, PostgreSQL takes the two clauses alone and in any order; MySQL
has no NULLS FIRST. What is read says which rows come out of the ordered ones.
-/
namespace AltrStream.Lowering
open Foundations Python QueryEngine Semantics

/-- A key of ORDER BY, and whether NULLs are written to be first or last. -/
structure OrderKey where
  column : String
  direction : SortDirection
  nullsFirst : Option Bool
  deriving DecidableEq

/-- A SELECT as it is read. -/
structure ReadSelect where
  /-- Empty for `*`. -/
  items : List (String × Option String)
  table : String
  where_ : Option (Formula Condition)
  orderBy : List OrderKey
  limit : Option ℕ
  offset : Option ℕ

/-- What is returned of the rows in order. -/
def ReadSelect.window {α : Type} (sel : ReadSelect) (rows : List α) : List α :=
  sel.limit.elim id List.take (rows.drop (sel.offset.getD 0))

section
open SqlToken

/-! ### Tokens of a SELECT -/

def itemTokens (item : String × Option String) : List SqlToken :=
  name item.1 :: item.2.elim [] fun a => [word .as, name a]

def directionWord : SortDirection → SqlWord
  | .asc => .asc
  | .desc => .desc

def nullsTokens : Option Bool → List SqlToken
  | none => []
  | some true => [word .nulls, word .first]
  | some false => [word .nulls, word .last]

def OrderKey.tokens (key : OrderKey) : List SqlToken :=
  name key.column :: word (directionWord key.direction) :: nullsTokens key.nullsFirst

/-- The key that an entry of ORDER BY is written as. -/
def OrderItem.key (item : OrderItem) : OrderKey where
  column := item.column
  direction := item.direction
  nullsFirst := if item.nulls = " NULLS FIRST" then some true
    else if item.nulls = " NULLS LAST" then some false else none

def listTokens (pieces : List (List SqlToken)) : List SqlToken := [comma].intercalate pieces

def whereTokens (w : Option Condition) : List SqlToken := w.elim [] fun c => word .where_ :: c.tokens

def orderTokens (keys : List OrderKey) : List SqlToken :=
  if keys = [] then [] else word .order :: word .by :: listTokens (keys.map OrderKey.tokens)

def limitTokens (limit : Option ℤ) : List SqlToken := limit.elim [] fun n => [word .limit, number n]

def offsetTokens (offset : Option ℤ) : List SqlToken := offset.elim [] fun n => [word .offset, number n]

/-- The tokens of a SELECT; the other statements are left out. -/
def SqlStatement.tokens : SqlStatement → List SqlToken
  | .select items table w orderBy limit offset =>
    word .select :: ((if items = [] then [SqlToken.star] else listTokens (items.map itemTokens)) ++
      word .from_ :: name table :: (whereTokens w ++ (orderTokens (orderBy.map OrderItem.key) ++
        (limitTokens limit ++ (offsetTokens offset ++ [semicolon])))))
  | _ => []

/-! ### Reading -/

def readItems : List SqlToken → Option (List (String × Option String) × List SqlToken)
  | name c :: word .as :: name a :: comma :: ts =>
    (readItems ts).map fun r => ((c, some a) :: r.1, r.2)
  | name c :: word .as :: name a :: ts => some ([(c, some a)], ts)
  | name c :: comma :: ts => (readItems ts).map fun r => ((c, none) :: r.1, r.2)
  | name c :: ts => some ([(c, none)], ts)
  | _ => none

def readNulls (src : SqlSource) : List SqlToken → Option Bool × List SqlToken
  | word .nulls :: word .first :: ts =>
    if src = .mysql then (none, word .nulls :: word .first :: ts) else (some true, ts)
  | word .nulls :: word .last :: ts =>
    if src = .mysql then (none, word .nulls :: word .last :: ts) else (some false, ts)
  | ts => (none, ts)

/-- A key without a direction is ascending. -/
def readOrderKey (src : SqlSource) : List SqlToken → Option (OrderKey × List SqlToken)
  | name c :: word .asc :: ts => some (⟨c, .asc, (readNulls src ts).1⟩, (readNulls src ts).2)
  | name c :: word .desc :: ts => some (⟨c, .desc, (readNulls src ts).1⟩, (readNulls src ts).2)
  | name c :: ts => some (⟨c, .asc, (readNulls src ts).1⟩, (readNulls src ts).2)
  | _ => none

def readOrderKeys (src : SqlSource) : ℕ → List SqlToken → Option (List OrderKey × List SqlToken)
  | 0, _ => none
  | n + 1, ts =>
    match readOrderKey src ts with
    | some (key, comma :: rest) => (readOrderKeys src n rest).map fun r => (key :: r.1, r.2)
    | some (key, rest) => some ([key], rest)
    | none => none

/-- A number of rows. -/
def readCount (n : ℤ) : Option ℕ := if 0 ≤ n then some n.toNat else none

/-- LIMIT and OFFSET. -/
def readWindow (src : SqlSource) :
    List SqlToken → Option (Option ℕ × Option ℕ × List SqlToken)
  | word .limit :: number n :: word .offset :: number m :: ts =>
    (readCount n).bind fun n => (readCount m).map fun m => (some n, some m, ts)
  | word .limit :: number n :: ts => (readCount n).map fun n => (some n, none, ts)
  | word .offset :: number m :: word .limit :: number n :: ts =>
    if src = .postgresql then
      (readCount n).bind fun n => (readCount m).map fun m => (some n, some m, ts)
    else none
  | word .offset :: number m :: ts =>
    if src = .postgresql then (readCount m).map fun m => (none, some m, ts) else none
  | ts => some (none, none, ts)

def readProjection : List SqlToken → Option (List (String × Option String) × List SqlToken)
  | SqlToken.star :: ts => some ([], ts)
  | ts => readItems ts

def readWhere : List SqlToken → Option (Option (Formula Condition) × List SqlToken)
  | word .where_ :: ts => (readCondition ts).map fun r => (some r.1, r.2)
  | ts => some (none, ts)

def readOrderBy (src : SqlSource) : List SqlToken → Option (List OrderKey × List SqlToken)
  | word .order :: word .by :: ts => readOrderKeys src ts.length ts
  | ts => some ([], ts)

def readFrom : List SqlToken → Option (String × List SqlToken)
  | word .from_ :: name table :: ts => some (table, ts)
  | _ => none

/-- A whole statement, up to its semicolon. -/
def readSelect (src : SqlSource) : List SqlToken → Option ReadSelect
  | word .select :: ts => do
    let (items, ts) ← readProjection ts
    let (table, ts) ← readFrom ts
    let (where_, ts) ← readWhere ts
    let (orderBy, ts) ← readOrderBy src ts
    let (limit, offset, ts) ← readWindow src ts
    if ts = [semicolon] then some { items, table, where_, orderBy, limit, offset } else none
  | _ => none

end

/-- The characters of a name up to the closing quote, and what follows: a doubled quote stands for
one. -/
def readQuoted (quote : Char) : List Char → Option (List Char × List Char)
  | [] => none
  | [c] => if c = quote then some ([], []) else none
  | c :: c' :: text =>
    if c ≠ quote then (readQuoted quote (c' :: text)).map fun r => (c :: r.1, r.2)
    else if c' = quote then (readQuoted quote text).map fun r => (quote :: r.1, r.2)
    else some ([], c' :: text)

/-- The text stands for the name in quotes, and for nothing else. -/
def SqlSource.Names (src : SqlSource) (text name : String) : Prop :=
  ∃ body, text.toList = src.nameQuote :: body ∧
    readQuoted src.nameQuote body = some (name.toList, [])

end AltrStream.Lowering
