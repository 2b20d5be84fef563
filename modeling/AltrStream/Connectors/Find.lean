import AltrStream.Connectors.QueriedBack
import AltrStream.Lowering.Selects
import AltrStream.Planning.Pushdown

/-! # Reading a collection

`_execute_find` of the MongoDB connector: it drains the cursor with `to_list`, whose
length is the limit of the command if there is a positive one, and 1000 otherwise. A
query that asks for all rows gets the first thousand.
-/
namespace AltrStream.Connectors
open Foundations Python QueryEngine Planning Semantics
open Lowering (rowLimit Bound isSome_rowLimit)
open Lowering.MongoDB

instance : DecidablePred Encodes := fun x =>
  match x with
  | .date _ => inferInstanceAs (Decidable False)
  | .int n => inferInstanceAs (Decidable (InInt64 n))
  | .none | .bool _ | .float _ | .str _ | .datetime _ => inferInstanceAs (Decidable True)

instance (command : Command) : Decidable command.Encodable :=
  inferInstanceAs (Decidable (∀ x ∈ command.scalars, Encodes x))

/-- A MongoDB server: the documents that a filter accepts, the order of a result, and what a
projection leaves of a document. -/
structure FindServer where
  accepts : Filter → BsonDocument → Bool
  sorted : List (String × ℤ) → List BsonDocument → List BsonDocument
  sorted_perm : ∀ sort docs, (sorted sort docs).Perm docs
  project : Option (Dict String ℕ) → BsonDocument → BsonDocument
  /-- The driver's exception for a value that BSON does not have. -/
  cannotEncode : Command → PyError

/-- The documents of every collection. -/
abbrev Database := String → List BsonDocument

structure FindResult where
  columns : List String
  rows : List (Dict String ResultValue)
  rowCount : ℕ

/-- `extract_columns_from_documents` -/
def extractColumns (docs : List BsonDocument) (projection : Option (Dict String ℕ)) : List String :=
  let included := (projection.filter (· ≠ [])).elim [] fun p =>
    (if (Dict.get? p "_id").getD 1 ≠ 0 then ["_id"] else []) ++
      (p.filter fun e => e.2 ≠ 0 ∧ e.1 ≠ "_id").map (·.1)
  let seen := (docs.flatMap Dict.keys).dedup
  if included ≠ [] then included
  else (if "_id" ∈ seen then ["_id"] else []) ++ sortTexts (seen.filter (· ≠ "_id"))

/-- The `ValueError` of `cursor.skip`. -/
def negativeSkip : PyError := { kind := .valueError, message := "skip must be >= 0" }

/-- `cursor.limit(n)`: zero sets no limit, and of a negative one only the size counts. -/
def cursorLimit {α : Type} (limit : Option ℤ) (docs : List α) : List α :=
  match limit with
  | some n => if n = 0 then docs else docs.take n.natAbs
  | none => docs

/-- How many documents `to_list` is asked for. -/
def fetchLength (limit : Option ℤ) : ℕ := ((limit.filter (0 < ·)).map Int.toNat).getD 1000

section
variable (server : FindServer) (db : Database)

/-- The documents that a `find` matches, in the order that it asks for. -/
def matching : Command → List BsonDocument
  | .find collection filter _ _ sort _ _ =>
    server.sorted sort ((db collection).filter (server.accepts filter))
  | _ => []

/-- The row of a document in the result of a `find`. -/
def shownRow : Command → BsonDocument → Except PyError (Dict String ResultValue)
  | .find _ _ projection projectionFields .., doc =>
    findRow projectionFields (server.project projection doc)
  | _, _ => .ok []

/-- `_execute_find` -/
def executeFind (command : Command) : Except PyError FindResult :=
  match command with
  | .find _ _ projection projectionFields _ limit skip => do
    raiseIf (skip.any (· < 0)) negativeSkip
    raiseIf (¬ command.Encodable) (server.cannotEncode command)
    let found := cursorLimit limit ((matching server db command).drop (skip.getD 0).toNat)
    let rawDocs := (found.map (server.project projection)).take (fetchLength limit)
    let rows ← rawDocs.mapM (findRow projectionFields)
    return { columns := if projectionFields = [] then extractColumns rawDocs projection
                        else projectionFields.map (·.name),
             rows, rowCount := rows.length }
  | _ => .error (server.cannotEncode command)

/-- The command returns the rows of exactly these documents, in this order. -/
def Yields (command : Command) (docs : List BsonDocument) : Prop :=
  ∃ result, executeFind server db command = .ok result ∧
    docs.mapM (shownRow server command) = .ok result.rows

/-- What a READ asks for: the matching documents behind its offset, up to its limit. -/
def wanted (q : BoundAltrQueryIR) (command : Command) : List BsonDocument :=
  let rows := (matching server db command).drop (q.offset.getD 0).toNat
  (rowLimit q).elim rows fun n => rows.take n.toNat

/-- The command of a READ returns what the READ asks for. -/
def FindComplete (clock : Clock) (q : BoundAltrQueryIR) : Prop :=
  ∃ p, lower clock q = .ok p ∧ Yields server db p.command (wanted server db q p.command)

/-- The command of a READ returns every matching document. -/
def ReceivesAll (clock : Clock) (q : BoundAltrQueryIR) : Prop :=
  ∃ p, lower clock q = .ok p ∧ Yields server db p.command (matching server db p.command)

end

/-- The query of a source in a federated plan of `ir`. -/
def FederatedFrom (ir : AltrQueryIR) (q : BoundAltrQueryIR) : Prop :=
  ∃ u queryText py mapping physical schema, parseAltrql u queryText = .ok ir ∧
    resolveLogicalIr py (federatedPlanIr ir) mapping = .ok physical ∧
    bindAltrql physical schema = .ok q

/-- A query that is sent to a source, alone or within a federated plan. -/
def Planned (q : BoundAltrQueryIR) : Prop := Bound q ∨ ∃ ir, FederatedFrom ir q

section Window

theorem pushedLimit_pos {ir : AltrQueryIR} (hvalid : validateIr ir = .ok ())
    (hread : ir.operation = .read) {n : ℤ} (hn : pushedLimit ir = some n) : 0 < n := by
  obtain ⟨hlimit, -, hcount⟩ := validateIr_window hvalid hread
  unfold pushedLimit at hn
  extract_lets hasSort hasLimit at hn
  split at hn
  · obtain rfl := Option.some.inj hn
    have hhas : hasLimit := And.right ‹_›
    have hpos : 0 < limitOrCount ir := by
      unfold limitOrCount
      cases hl : ir.limit with
      | some l => exact hlimit l hl
      | none =>
        cases hr : ir.ranking with
        | some r => exact hcount r.count (by rw [hr]; rfl)
        | none => simp [hasLimit, hl, hr] at hhas
    have hoffset : 0 ≤ (ir.offset.filter (0 < ·)).getD 0 := by
      cases ho : ir.offset with
      | none => exact le_rfl
      | some k =>
        by_cases hk : 0 < k
        · simpa [Option.filter, hk] using hk.le
        · simp [Option.filter, hk]
    omega
  · cases hn

theorem FederatedFrom.window {ir : AltrQueryIR} {q : BoundAltrQueryIR} (h : FederatedFrom ir q) :
    q.operation = ir.operation ∧ q.offset = none ∧ rowLimit q = pushedLimit ir := by
  obtain ⟨u, text, py, mapping, physical, schema, -, hresolve, hbind⟩ := h
  obtain ⟨hop, hlimit, hoffset, hranking⟩ := bindAltrql_window hbind
  obtain ⟨hop', hlimit', hoffset', hranking'⟩ := resolveLogicalIr_window hresolve
  refine ⟨hop.trans hop', hoffset.trans hoffset', ?_⟩
  rw [rowLimit, hranking, hranking', hlimit, hlimit']
  rfl

theorem Planned.window {q : BoundAltrQueryIR} (h : Planned q) (hread : q.operation = .read) :
    (∀ n ∈ rowLimit q, 0 < n) ∧ ∀ n ∈ q.offset, 0 ≤ n := by
  rcases h with h | ⟨ir, h⟩
  · exact h.window_pos hread
  · obtain ⟨hop, hoffset, hlimit⟩ := h.window
    obtain ⟨u, text, _, _, _, _, hparse, -⟩ := h
    have hvalid := (parseAltrql_eq_ok u hparse).1
    rw [hlimit, hoffset]
    exact ⟨fun n hn => pushedLimit_pos hvalid (hop ▸ hread) hn, fun n hn => by cases hn⟩

end Window

/-- Taking the first `k` elements loses nothing of a list of rows exactly if all of them fit. -/
theorem mapM_take_iff {α β ε : Type} {f : α → Except ε β} {l : List α} {k : ℕ} :
    (∃ bs, (l.take k).mapM f = .ok bs ∧ l.mapM f = .ok bs) ↔
      (∀ a ∈ l, ∃ b, f a = .ok b) ∧ l.length ≤ k := by
  constructor
  · rintro ⟨bs, htake, hall⟩
    have hrows := mapM_eq_ok.1 hall
    refine ⟨fun a ha => ?_, ?_⟩
    · obtain ⟨i, hi, rfl⟩ := List.mem_iff_getElem.1 ha
      exact ⟨_, hrows.get hi (hrows.length_eq ▸ hi)⟩
    · have hlen := (mapM_eq_ok.1 htake).length_eq.trans hrows.length_eq.symm
      rw [List.length_take] at hlen
      omega
  · rintro ⟨hrows, hlen⟩
    obtain ⟨bs, hbs⟩ := mapM_succeeds hrows
    exact ⟨bs, by rw [List.take_of_length_le hlen, hbs], hbs⟩

section Complete

variable {server : FindServer} {db : Database} {clock : Clock} {q : BoundAltrQueryIR}
  {p : PhysicalQuery}

theorem lower_read (hread : q.operation = .read) (hlower : lower clock q = .ok p) :
    ∃ filter projection projectionFields, p.command = .find q.entity.name filter projection
      projectionFields (sortItems q) (rowLimit q) q.offset := by
  simp only [lower, lowerCommand, hread, bind_eq_ok, pure_eq_ok] at hlower
  obtain ⟨_, ⟨filter, -, rfl⟩, rfl⟩ := hlower
  exact ⟨filter, _, _, rfl⟩

/-- What a READ with a proper window yields: the documents that the cursor is drained of. -/
theorem yields_iff (hlimit : ∀ n ∈ rowLimit q, 0 < n) (hoffset : ∀ n ∈ q.offset, 0 ≤ n)
    (hread : q.operation = .read) (hlower : lower clock q = .ok p) (docs : List BsonDocument) :
    Yields server db p.command docs ↔ p.command.Encodable ∧
      ∃ rows, ((wanted server db q p.command).take (fetchLength (rowLimit q))).mapM
        (shownRow server p.command) = .ok rows ∧ docs.mapM (shownRow server p.command) = .ok rows := by
  obtain ⟨filter, projection, fields, hcommand⟩ := lower_read hread hlower
  rw [hcommand]
  generalize hfind : Command.find q.entity.name filter projection fields (sortItems q) (rowLimit q)
    q.offset = command
  have hskip : ¬ q.offset.any (· < 0) := by
    cases ho : q.offset with
    | none => simp
    | some k => simpa using hoffset k ho
  have hcursor : (cursorLimit (rowLimit q)
      ((matching server db command).drop (q.offset.getD 0).toNat)).take (fetchLength (rowLimit q)) =
        (wanted server db q command).take (fetchLength (rowLimit q)) := by
    unfold cursorLimit wanted
    cases hl : rowLimit q with
    | none => rfl
    | some n =>
      have hpos := hlimit n hl
      have hn : n.natAbs = n.toNat := by omega
      simp only [if_neg hpos.ne', hn, Option.elim_some]
  have hrows : ∀ l : List BsonDocument, (l.map (server.project projection)).mapM (findRow fields) =
      l.mapM (shownRow server command) := by
    intro l
    rw [List.mapM_map, ← hfind]
    rfl
  unfold Yields
  subst hfind
  simp only [executeFind, bind_eq_ok, pure_eq_ok, raiseIf_eq_ok, ← List.map_take, hrows, hcursor]
  constructor
  · rintro ⟨result, ⟨_, -, _, hencodes, rows, hread, rfl⟩, hdocs⟩
    exact ⟨not_not.1 hencodes, rows, hread, hdocs⟩
  · rintro ⟨hencodes, rows, hread, hdocs⟩
    exact ⟨_, ⟨(), hskip, (), not_not.2 hencodes, rows, hread, rfl⟩, hdocs⟩

theorem length_matching (collection : String) (filter : Filter) (projection : Option (Dict String ℕ))
    (projectionFields : List ProjectionField) (sort : List (String × ℤ)) (limit skip : Option ℤ) :
    (matching server db (.find collection filter projection projectionFields sort limit skip)).length =
      (db collection).countP (server.accepts filter) := by
  rw [matching, (server.sorted_perm _ _).length_eq, List.countP_eq_length_filter]

/-- A READ is answered completely exactly if its command can be sent, every document that it asks for
can be shown, and, unless it has a limit, it asks for no more than 1000 of them. -/
theorem findComplete_of_window (hlimit : ∀ n ∈ rowLimit q, 0 < n) (hoffset : ∀ n ∈ q.offset, 0 ≤ n)
    (hread : q.operation = .read) (hlower : lower clock q = .ok p) :
    FindComplete server db clock q ↔ p.command.Encodable ∧
      (∀ doc ∈ wanted server db q p.command, ∃ row, shownRow server p.command doc = .ok row) ∧
      (rowLimit q = none → (wanted server db q p.command).length ≤ 1000) := by
  have hyields : FindComplete server db clock q ↔
      Yields server db p.command (wanted server db q p.command) := by
    refine ⟨?_, fun h => ⟨p, hlower, h⟩⟩
    rintro ⟨p', hp', h⟩
    obtain rfl := Except.ok.inj (hlower.symm.trans hp')
    exact h
  rw [hyields, yields_iff hlimit hoffset hread hlower, mapM_take_iff]
  refine and_congr_right fun _ => and_congr_right fun _ => ?_
  cases hl : rowLimit q with
  | none => simp [fetchLength]
  | some n =>
    have hpos := hlimit n hl
    refine iff_of_true ?_ (fun h => by cases h)
    simp only [wanted, hl, Option.elim_some, List.length_take, fetchLength, Option.filter, hpos,
      decide_true, if_true, Option.map_some, Option.getD_some]
    exact min_le_left _ _

/-- When a READ that is planned, alone or within a federated plan, is answered completely; and when
a source of a federated plan without a pushed limit sends all its matching rows. -/
theorem findComplete_iff (hplanned : Planned q) (hread : q.operation = .read)
    (hlower : lower clock q = .ok p) :
    (FindComplete server db clock q ↔ p.command.Encodable ∧
      (∀ doc ∈ wanted server db q p.command, ∃ row, shownRow server p.command doc = .ok row) ∧
      (rowLimit q = none → (wanted server db q p.command).length ≤ 1000)) ∧
    ∀ ir, FederatedFrom ir q → (federatedPlanIr ir).limit = none →
      (ReceivesAll server db clock q ↔ p.command.Encodable ∧
        (∀ doc ∈ matching server db p.command, ∃ row, shownRow server p.command doc = .ok row) ∧
        (matching server db p.command).length ≤ 1000) := by
  obtain ⟨hlimit, hoffset⟩ := hplanned.window hread
  have hcomplete : FindComplete server db clock q ↔ _ :=
    findComplete_of_window hlimit hoffset hread hlower
  refine ⟨hcomplete, fun ir hfederated hnone => ?_⟩
  obtain ⟨-, hskip, hwindow⟩ := hfederated.window
  have hnolimit : rowLimit q = none := hwindow.trans hnone
  have hall : wanted server db q p.command = matching server db p.command := by
    simp [wanted, hskip, hnolimit]
  have hsame : ReceivesAll server db clock q ↔ FindComplete server db clock q := by
    refine exists_congr fun p' => and_congr_right fun hp' => ?_
    obtain rfl := Except.ok.inj (hlower.symm.trans hp')
    rw [hall]
  rw [hsame, hcomplete, hall, hnolimit]
  simp

end Complete

/-- A server that holds its documents in order and is only asked for whole documents. -/
def plainServer : FindServer where
  accepts filter doc := keeps (fun _ _ => false) doc filter
  sorted _ docs := docs
  sorted_perm _ docs := .refl docs
  project _ doc := doc
  cannotEncode _ := { kind := .overflowError, message := "MongoDB can only handle up to 8-byte ints" }

open TestSchema in
/-- `GET users;` -/
def allUsers : BoundAltrQueryIR where
  operation := .read
  entity := boundEntity users
  sourceId := schema.sourceId
  sourceName := schema.sourceName

theorem bound_allUsers : Bound allUsers :=
  .of_accepted ⟨.ascii, "GET users;", TestSchema.schema, acceptedFrom_of_run (by decide +kernel)⟩

/-- The command of `GET users;`. -/
def findUsers : Command := .find "users" .all none [] [("id", 1)] none none

theorem lower_allUsers (clock : Clock) : lower clock allUsers = .ok ⟨findUsers, "src_pg", "Test Source"⟩ :=
  rfl

/-- A collection of a single user is read completely. -/
theorem findComplete_user :
    FindComplete plainServer (fun _ => [[("id", .int 1)]]) .newYear allUsers :=
  (findComplete_iff (.inl bound_allUsers) rfl (lower_allUsers _)).1.2
    ⟨by decide +kernel, fun doc hdoc => by
      obtain rfl := List.mem_singleton.1 hdoc
      exact ⟨_, rfl⟩, fun _ => by decide⟩

/-- Of 1001 users a query without LIMIT gets 1000. -/
theorem not_findComplete_users : Bound allUsers ∧
    ¬ FindComplete plainServer (fun _ => List.replicate 1001 [("id", .int 1)]) .newYear allUsers := by
  refine ⟨bound_allUsers, fun h => ?_⟩
  obtain ⟨hlimit, hoffset⟩ := bound_allUsers.window_pos rfl
  have hfits := ((findComplete_of_window hlimit hoffset rfl (lower_allUsers _)).1 h).2.2 rfl
  have hlength : (matching plainServer (fun _ => List.replicate 1001 [("id", .int 1)])
      findUsers).length = 1001 := by
    rw [findUsers, length_matching, List.countP_replicate]
    rfl
  exact absurd (hlength ▸ hfits) (by decide)

end AltrStream.Connectors
