import AltrStream.QueryEngine.LexerTotality
import AltrStream.QueryEngine.ParserSound

/-! # What a statement is read as

The clauses that order the result are the only ones that are read and dropped: a
later one replaces an earlier one.
-/
namespace AltrStream.QueryEngine
open Foundations Python

section
variable (u : Unicode)

/-! ### Clauses that order and cut -/

/-- A keyword that starts SORT or a ranking clause. -/
def TokenType.isOrdering : TokenType → Bool
  | .sort | .top | .bottom => true
  | _ => false

/-- The meaning of the SORT and ranking clauses that are kept. -/
def orderingContent (sort : Option (List SortClause)) (ranking : Option RankingClause) :
    List TokenType := content (printSort (sort.getD []) ++ ranking.elim [] (·.print))

theorem content_sort {cs : List SortClause} (h : cs ≠ []) :
    content (printSort cs) = .sort :: cs.flatMap (·.print) := by
  rw [printSort, if_neg h, List.cons_append, List.cons_append, content_cons,
    content_cons .lbrace, content_append, content_intercalate rfl, List.flatMap_map]
  change [.sort] ++ ([] ++ (cs.flatMap (fun c => content c.print) ++ [])) = _
  simp

@[simp] theorem content_ranking (r : RankingClause) : content r.print = r.print := by
  obtain ⟨direction, n, path⟩ := r
  rw [RankingClause.print, content_cons, content_cons (.integer n), content_cons .by_, content_path]
  cases direction <;> rfl

theorem orderingContent_sort {cs : List SortClause} (h : cs ≠ []) :
    orderingContent (some cs) none = .sort :: cs.flatMap (·.print) := by
  simp [orderingContent, content_sort h]

theorem orderingContent_ranking (r : RankingClause) : orderingContent none (some r) = r.print := by
  simp [orderingContent, printSort]

/-- There is one clause at most, and it is not empty. -/
def Single (sort : Option (List SortClause)) (ranking : Option RankingClause) : Prop :=
  (∀ cs ∈ sort, cs ≠ []) ∧ (sort = none ∨ ranking = none)

/-- The clause that is there starts with its keyword. -/
theorem Single.starts {sort : Option (List SortClause)} {ranking : Option RankingClause}
    (h : Single sort ranking) :
    orderingContent sort ranking = [] ∨ ∃ t ∈ orderingContent sort ranking, t.isOrdering = true := by
  obtain ⟨hne, rfl | rfl⟩ := h
  · cases ranking with
    | none => exact .inl rfl
    | some r =>
      rw [orderingContent_ranking]
      obtain ⟨direction, n, path⟩ := r
      exact .inr ⟨_, List.mem_cons_self, by cases direction <;> rfl⟩
  · cases sort with
    | none => exact .inl rfl
    | some cs =>
      rw [orderingContent_sort (hne cs rfl)]
      exact .inr ⟨_, List.mem_cons_self, rfl⟩

/-- What was kept and what is read is what is kept, after the clauses that it replaced. -/
def Ordered (sort : Option (List SortClause)) (ranking : Option RankingClause) (xs : List TokenType)
    (r : Option (List SortClause) × Option RankingClause) : Prop :=
  Single r.1 r.2 ∧ ∃ dropped,
    orderingContent sort ranking ++ xs = dropped ++ orderingContent r.1 r.2 ∧
    (dropped = [] ∨ ((∃ t ∈ dropped, t.isOrdering = true) ∧ orderingContent r.1 r.2 ≠ []))

theorem Ordered.refl {sort : Option (List SortClause)} {ranking : Option RankingClause}
    (h : Single sort ranking) : Ordered sort ranking [] (sort, ranking) :=
  ⟨h, [], by rw [List.append_nil, List.nil_append], .inl rfl⟩

/-- A clause is read in place of the one that was kept. -/
theorem Ordered.replace {sort sort' : Option (List SortClause)} {ranking ranking' : Option RankingClause}
    {xs : List TokenType} {r : Option (List SortClause) × Option RankingClause}
    (h : Single sort ranking) (hne : orderingContent sort' ranking' ≠ [])
    (hrest : Ordered sort' ranking' xs r) :
    Ordered sort ranking (orderingContent sort' ranking' ++ xs) r := by
  obtain ⟨hr, dropped, hdropped, hcases⟩ := hrest
  have hkept : orderingContent r.1 r.2 ≠ [] := by
    rcases hcases with rfl | ⟨-, hkept⟩
    · intro hnil
      rw [hnil, List.append_nil, List.append_eq_nil_iff] at hdropped
      exact hne hdropped.1
    · exact hkept
  refine ⟨hr, orderingContent sort ranking ++ dropped, ?_, ?_⟩
  · rw [hdropped, List.append_assoc]
  · rcases h.starts with hnil | ⟨t, ht, hordering⟩
    · rw [hnil, List.nil_append]
      exact hcases.imp_right fun h => ⟨h.1, hkept⟩
    · exact .inr ⟨⟨t, List.mem_append_left _ ht, hordering⟩, hkept⟩

theorem combinedError_bind_reads {α β : Type} {f : α → ParseM β} {post : List TokenType → β → Prop} :
    Reads (combinedError u >>= f) post := parseError_bind_reads u

theorem orderingLoop_reads (fuel : ℕ) {sort : Option (List SortClause)}
    {ranking : Option RankingClause} (h : Single sort ranking) :
    Reads (orderingLoop u fuel sort ranking) (Ordered sort ranking) := by
  induction fuel generalizing sort ranking with
  | zero => exact Reads.pure (Ordered.refl h)
  | succ fuel ih =>
    unfold orderingLoop
    intro p hp
    refine ReadsAt.look (run_check p) ?_
    cases hsort : p.check .sort with
    | true =>
      cases ranking with
      | some r => exact combinedError_bind_reads u p hp
      | none =>
        refine (advance_readsAt hp (of_decide_eq_true hsort) (by decide)).bind
          fun _ p₁ xs hlast₁ _ hxs => ?_
        have hp₁ : p₁.last.type = .eof := hlast₁ ▸ hp
        refine (parseSortBlock_reads u p₁ hp₁).bind fun cs p₂ ys hlast₂ _ hys => ?_
        obtain ⟨rfl, hne⟩ := hys
        subst hxs
        have hkept : Single (some cs) none := ⟨by simpa using hne, .inr rfl⟩
        refine (ih hkept p₂ (hlast₂ ▸ hp₁)).mono fun zs r hr => ?_
        have hreplaced := hr.replace h (by rw [orderingContent_sort hne]; exact List.cons_ne_nil _ _)
        rwa [orderingContent_sort hne] at hreplaced
    | false =>
      rw [if_neg Bool.false_ne_true]
      refine ReadsAt.look (run_check p) (ReadsAt.look (run_check p) ?_)
      by_cases htop : (p.check .top || p.check .bottom) = true
      · rw [if_pos htop]
        cases sort with
        | some cs => exact combinedError_bind_reads u p hp
        | none =>
          refine ReadsAt.look (run_check p) ?_
          generalize hdirection :
            (if p.check .top = true then RankingDirection.top else RankingDirection.bottom) = direction
          have hpeek : (p.peek 0).type = direction.print := by
            subst hdirection
            split
            · next htop => exact of_decide_eq_true htop
            · next hbottom => exact of_decide_eq_true (((Bool.or_eq_true_iff).1 htop).resolve_left hbottom)
          have hdirection : direction.print ≠ .eof ∧ direction.print.isContent = true := by
            cases direction <;> exact ⟨nofun, rfl⟩
          refine (advance_readsAt hp hpeek hdirection.1).bind fun _ p₁ xs hlast₁ _ hxs => ?_
          have hp₁ : p₁.last.type = .eof := hlast₁ ▸ hp
          refine (parseRankingClause_reads u direction p₁ hp₁).bind fun r p₂ ys hlast₂ _ hys => ?_
          have hkept : Single none (some r) := ⟨by simp, .inl rfl⟩
          refine (ih hkept p₂ (hlast₂ ▸ hp₁)).mono fun zs r' hr => ?_
          have hreplaced := hr.replace h (by rw [orderingContent_ranking]; exact List.cons_ne_nil _ _)
          rw [orderingContent_ranking, ← hys] at hreplaced
          simpa [hxs, content, hdirection.2] using hreplaced
      · rw [if_neg htop]
        exact ReadsAt.pure (Ordered.refl h)

/-- The clause was read in the loop, not before it. -/
def newly (old new : Option ℤ) : Option ℤ := if old.isSome then none else new

/-- LIMIT and OFFSET are read at most once each, in one order or the other. -/
def Windowed (limit offset : Option ℤ) (xs : List TokenType) (r : Option ℤ × Option ℤ) : Prop :=
  (limit.isSome = true → r.1 = limit) ∧ (offset.isSome = true → r.2 = offset) ∧
    (xs = printLimit (newly limit r.1) ++ printOffset (newly offset r.2) ∨
      xs = printOffset (newly offset r.2) ++ printLimit (newly limit r.1))

theorem Windowed.refl (limit offset : Option ℤ) : Windowed limit offset [] (limit, offset) := by
  refine ⟨fun _ => rfl, fun _ => rfl, .inl ?_⟩
  cases limit <;> cases offset <;> rfl

theorem Windowed.limit {n : ℤ} {offset : Option ℤ} {xs : List TokenType} {r : Option ℤ × Option ℤ}
    (h : Windowed (some n) offset xs r) : Windowed none offset (.limit :: .integer n :: xs) r := by
  obtain ⟨hlimit, hoffset, hxs⟩ := h
  have hr : r.1 = some n := hlimit rfl
  refine ⟨nofun, hoffset, .inl ?_⟩
  rcases hxs with rfl | rfl <;> simp [newly, printLimit, hr]

theorem Windowed.offset {limit : Option ℤ} {n : ℤ} {xs : List TokenType} {r : Option ℤ × Option ℤ}
    (h : Windowed limit (some n) xs r) : Windowed limit none (.offset :: .integer n :: xs) r := by
  obtain ⟨hlimit, hoffset, hxs⟩ := h
  have hr : r.2 = some n := hoffset rfl
  refine ⟨hlimit, nofun, .inr ?_⟩
  rcases hxs with rfl | rfl <;> simp [newly, printOffset, hr]

theorem windowLoop_reads (fuel : ℕ) (limit offset : Option ℤ) :
    Reads (windowLoop u fuel limit offset) (Windowed limit offset) := by
  induction fuel generalizing limit offset with
  | zero => exact Reads.pure (Windowed.refl limit offset)
  | succ fuel ih =>
    unfold windowLoop
    refine accept_ite_reads (by decide) ?limit (accept_ite_reads (by decide) ?offset ?done)
    case limit =>
      cases limit with
      | some n => exact parseError_bind_reads u
      | none =>
        refine (consumeInteger_reads u _).bind fun n _ hxs => (ih (some n) offset).mono fun ys r hr => ?_
        subst hxs
        exact hr.limit
    case offset =>
      cases offset with
      | some n => exact parseError_bind_reads u
      | none =>
        refine (consumeInteger_reads u _).bind fun n _ hxs => (ih limit (some n)).mono fun ys r hr => ?_
        subst hxs
        exact hr.offset
    case done => exact Reads.pure (Windowed.refl limit offset)

theorem consumeTerminatingSemicolon_reads :
    Reads (consumeTerminatingSemicolon u) fun xs _ => xs = [] := by
  unfold consumeTerminatingSemicolon
  refine (accept_punctuation_reads (by decide) rfl).bind fun _ _ hxs => ?_
  subst hxs
  refine Reads.ite (fun _ => parseError_bind_reads u) fun _ => isAtEnd_reads.bind fun _ _ hxs => ?_
  subst hxs
  exact Reads.ite (fun _ => parseError_reads u) fun _ => Reads.pure rfl

theorem rejectReadClauses_reads (operation : String) :
    Reads (rejectReadClauses u operation) fun xs _ => xs = [] := by
  have hranking : Reads checkRankingOrSort fun xs _ => xs = [] :=
    (check_reads _).bind fun _ _ hxs => (check_reads _).bind fun _ _ hys =>
      (check_reads _).bind fun _ _ hzs => Reads.pure (by simp [hxs, hys, hzs])
  unfold rejectReadClauses
  refine hranking.bind fun _ _ hxs => ?_
  subst hxs
  refine Reads.ite (fun _ => parseError_bind_reads u) fun _ => ?_
  exact check_ite_reads (parseError_bind_reads u) (check_ite_reads (parseError_reads u) (Reads.pure rfl))

/-! ### Statements -/

/-- What is read of a statement: its head, the ordering clauses with those that were replaced,
then LIMIT and OFFSET. -/
structure AltrQueryIR.ReadAs (ir : AltrQueryIR) (xs : List TokenType) : Prop where
  statement : ir.OfStatement
  ordering : ir.sort = [] ∨ ir.ranking = none
  parts : ∃ dropped window,
    xs = content ir.printHead ++ (dropped ++ (content ir.printOrdering ++ window)) ∧
    (dropped = [] ∨ ((∃ t ∈ dropped, t.isOrdering = true) ∧ content ir.printOrdering ≠ [])) ∧
    (window = printLimit ir.limit ++ printOffset ir.offset ∨
      window = printOffset ir.offset ++ printLimit ir.limit)

/-- A statement without clauses that order or cut is read to its head. -/
theorem AltrQueryIR.readAs_head {ir : AltrQueryIR} {xs : List TokenType} (h : ir.OfStatement)
    (hsort : ir.sort = []) (hranking : ir.ranking = none) (hlimit : ir.limit = none)
    (hoffset : ir.offset = none) (hxs : xs = content ir.printHead) : ir.ReadAs xs where
  statement := h
  ordering := .inl hsort
  parts := ⟨[], [], by simp [hxs, AltrQueryIR.printOrdering, hsort, hranking, printSort], .inl rfl,
    .inl (by simp [hlimit, hoffset, printLimit, printOffset])⟩

@[simp] theorem content_projection (ss : List FieldSelection) :
    content (printProjection ss) = ss.flatMap (·.print) := by
  by_cases h : ss = []
  · subst h
    rfl
  · rw [printProjection, if_neg h, List.cons_append, content_cons, content_append,
      content_intercalate rfl, List.flatMap_map]
    change [] ++ (ss.flatMap (fun s => content s.print) ++ []) = _
    simp

theorem content_keyword_entity {keyword : TokenType} (h : keyword.isContent = true) (entity : String)
    (xs : List TokenType) :
    content (keyword :: .identifier entity :: xs) = keyword :: .identifier entity :: content xs := by
  rw [content, List.filter_cons_of_pos (by exact h), List.filter_cons_of_pos (by rfl)]
  rfl

theorem parseGet_reads : Reads (parseGet u) fun xs ir => ir.ReadAs (.get :: xs) := by
  have hrest : ∀ (entity : String) (projection : List FieldSelection), Reads (do
      let where_ ← parseOptionalWhere u
      let ordering ← orderingLoop u (← remaining) none none
      let window ← windowLoop u (← remaining) none none
      consumeTerminatingSemicolon u
      return ({ operation := .read, entity, projection, where_, sort := ordering.1.getD [],
                ranking := ordering.2, limit := window.1, offset := window.2 } : AltrQueryIR)) fun xs ir =>
          ir.ReadAs (.get :: .identifier entity :: (projection.flatMap (·.print) ++ xs)) := by
    intro entity projection
    refine (parseOptionalWhere_reads u).bind fun w _ hw => remaining_reads.bind fun n _ hn => ?_
    subst hw hn
    have hsingle : Single none none := ⟨by rintro _ ⟨⟩, .inl rfl⟩
    refine (orderingLoop_reads u n hsingle).bind fun ordering xs hxs => ?_
    refine remaining_reads.bind fun m _ hm => (windowLoop_reads u m none none).bind fun window ys hys => ?_
    refine (consumeTerminatingSemicolon_reads u).bind fun _ _ hzs => Reads.pure ?_
    subst hm hzs
    obtain ⟨⟨-, hsingle⟩, dropped, hdropped, hcases⟩ := hxs
    have hempty : orderingContent none none = [] := rfl
    rw [hempty, List.nil_append] at hdropped
    refine ⟨⟨rfl, rfl⟩, ?_, dropped, ys, ?_, hcases, ?_⟩
    · exact hsingle.imp (fun h => by simp [h]) id
    · change _ = content (.get :: .identifier entity :: (printProjection projection ++ printWhere w)) ++ _
      rw [content_keyword_entity rfl, content_append, content_projection, hdropped]
      simp [orderingContent, AltrQueryIR.printOrdering]
    · exact hys.2.2
  unfold parseGet
  refine (consumeIdentifier_reads u _).bind fun entity _ hxs => ?_
  subst hxs
  refine (accept_punctuation_reads (by decide) rfl).bind fun b _ hxs => ?_
  subst hxs
  refine Reads.ite (fun _ => ?_) fun _ => ?_
  · refine (parseProjectionList_reads u).bind fun projection _ hys => ?_
    subst hys
    exact hrest entity projection
  · exact hrest entity []

theorem parseCreate_reads : Reads (parseCreate u) fun xs ir => ir.ReadAs (.create :: xs) := by
  unfold parseCreate
  refine (consumeIdentifier_reads u _).bind fun entity _ hxs => (check_reads _).bind fun _ _ hys => ?_
  subst hxs hys
  refine Reads.ite (fun _ => parseError_bind_reads u) fun _ => ?_
  refine (parseCreatePayload_reads u).bind fun records _ hxs => (check_reads _).bind fun _ _ hys => ?_
  subst hxs hys
  refine Reads.ite (fun _ => parseError_bind_reads u) fun _ => ?_
  refine (rejectReadClauses_reads u _).bind fun _ _ hxs => ?_
  refine (consumeTerminatingSemicolon_reads u).bind fun _ _ hys => Reads.pure ?_
  subst hxs hys
  refine AltrQueryIR.readAs_head ⟨rfl, rfl, rfl, rfl, rfl, rfl, rfl⟩ rfl rfl rfl rfl ?_
  change _ = content (.create :: .identifier entity :: (([.lparen] ++
    [.comma].intercalate (records.map (·.print))) ++ [.rparen]))
  rw [content_keyword_entity rfl, content_append, content_append, content_intercalate rfl,
    List.flatMap_map]
  simp [content, TokenType.isContent]

theorem parseUpdate_reads : Reads (parseUpdate u) fun xs ir => ir.ReadAs (.update :: xs) := by
  unfold parseUpdate
  refine (consumeIdentifier_reads u _).bind fun entity _ hxs => (check_reads _).bind fun _ _ hys => ?_
  subst hxs hys
  refine Reads.ite (fun _ => parseError_bind_reads u) fun _ => ?_
  refine (parseMutationPayload_reads u).bind fun assignments _ hxs => ?_
  refine (accept_reads (by decide)).bind fun b _ hys => ?_
  subst hxs hys
  refine Reads.ite (fun _ => parseError_bind_reads u) fun hb => ?_
  refine (parseWhereBlock_reads u).bind fun w _ hxs => ?_
  refine (rejectReadClauses_reads u _).bind fun _ _ hys => ?_
  refine (consumeTerminatingSemicolon_reads u).bind fun _ _ hzs => Reads.pure ?_
  subst hxs hys hzs
  have hb : b = true := by simpa using hb
  refine AltrQueryIR.readAs_head ⟨rfl, nofun, rfl, rfl, rfl, rfl, rfl⟩ rfl rfl rfl rfl ?_
  change _ = content (.update :: .identifier entity :: (printAssignments assignments ++ printWhere (some w)))
  rw [content_keyword_entity rfl, content_append, content_assignments]
  simp [content, TokenType.isContent, printWhere, hb]

theorem parseDelete_reads : Reads (parseDelete u) fun xs ir => ir.ReadAs (.delete :: xs) := by
  unfold parseDelete
  refine (consumeIdentifier_reads u _).bind fun entity _ hxs => (check_reads _).bind fun _ _ hys => ?_
  subst hxs hys
  refine Reads.ite (fun _ => parseError_bind_reads u) fun _ => ?_
  refine (parseOptionalWhere_reads u).bind fun w _ hxs => ?_
  refine (rejectReadClauses_reads u _).bind fun _ _ hys => ?_
  refine (consumeTerminatingSemicolon_reads u).bind fun _ _ hzs => Reads.pure ?_
  subst hxs hys hzs
  refine AltrQueryIR.readAs_head ⟨rfl, rfl, rfl, rfl, rfl, rfl, rfl⟩ rfl rfl rfl rfl ?_
  change _ = content (.delete :: .identifier entity :: printWhere w)
  rw [content_keyword_entity rfl]
  simp

/-- A statement is read as what it says, or the parser raises its own error. -/
theorem parseQuery_reads : Reads (parseQuery u) fun xs ir => ir.ReadAs xs := by
  unfold parseQuery
  refine accept_ite_reads (by decide) (parseGet_reads u) ?_
  refine accept_ite_reads (by decide) (parseCreate_reads u) ?_
  refine accept_ite_reads (by decide) (parseUpdate_reads u) ?_
  exact accept_ite_reads (by decide) (parseDelete_reads u) (parseError_reads u)

/-! ### The end of input -/

/-- The run ends where the input does. -/
def Finishes {α : Type} (m : ParseM α) : Prop :=
  ∀ p a p', m.run p = .ok (a, p') → p'.isAtEnd = true

namespace Finishes

variable {α β : Type} {m : ParseM α} {f : α → ParseM β}

theorem after (hf : ∀ a, Finishes (f a)) : Finishes (m >>= f) := by
  intro p b p' hrun
  cases hm : m.run p with
  | error e =>
    rw [StateT.run_bind, hm] at hrun
    cases hrun
  | ok r =>
    rw [run_bind_ok (show m.run p = .ok (r.1, r.2) from hm)] at hrun
    exact hf r.1 r.2 b p' hrun

theorem bind_pure {f : α → β} (hm : Finishes m) : Finishes (m >>= fun a => Pure.pure (f a)) := by
  intro p b p' hrun
  cases hm' : m.run p with
  | error e =>
    rw [StateT.run_bind, hm'] at hrun
    cases hrun
  | ok r =>
    rw [run_bind_ok (show m.run p = .ok (r.1, r.2) from hm')] at hrun
    cases hrun
    exact hm p r.1 r.2 hm'

theorem ite {c : Prop} [Decidable c] {m₁ m₂ : ParseM α} (h₁ : Finishes m₁) (h₂ : Finishes m₂) :
    Finishes (if c then m₁ else m₂) := by
  split
  · exact h₁
  · exact h₂

end Finishes

theorem parseError_finishes {α : Type} {message : String} {expected : Option (List String)} :
    Finishes (parseError u message expected : ParseM α) := by
  intro p a p' hrun
  rw [run_parseError] at hrun
  cases hrun

theorem consumeTerminatingSemicolon_finishes : Finishes (consumeTerminatingSemicolon u) := by
  have hend : Finishes (do
      if !(← isAtEnd) then parseError u "Unexpected tokens after query terminating ';'." none) := by
    intro p a p' hrun
    rw [run_bind_ok (show isAtEnd.run p = .ok (p.isAtEnd, p) from rfl)] at hrun
    cases hp : p.isAtEnd with
    | false =>
      rw [hp] at hrun
      cases hrun
    | true =>
      rw [hp] at hrun
      cases hrun
      exact hp
  exact Finishes.after fun _ => Finishes.ite (Finishes.after fun _ => hend) hend

theorem parseQuery_finishes : Finishes (parseQuery u) := by
  have hsemicolon := consumeTerminatingSemicolon_finishes u
  unfold parseQuery
  refine Finishes.after fun _ => Finishes.ite ?get (Finishes.after fun _ => Finishes.ite ?create
    (Finishes.after fun _ => Finishes.ite ?update (Finishes.after fun _ => Finishes.ite ?delete
      (parseError_finishes u))))
  case get =>
    refine Finishes.after fun _ => Finishes.after fun _ => Finishes.ite ?_ ?_
    all_goals
      exact Finishes.after fun _ => Finishes.after fun _ => Finishes.after fun _ => Finishes.after fun _ =>
        Finishes.after fun _ => Finishes.after fun _ => hsemicolon.bind_pure
  case create =>
    refine Finishes.after fun _ => Finishes.after fun _ => Finishes.ite (Finishes.after fun _ => ?_) ?_
    all_goals
      refine Finishes.after fun _ => Finishes.after fun _ => Finishes.ite (Finishes.after fun _ => ?_) ?_
      all_goals exact Finishes.after fun _ => hsemicolon.bind_pure
  case update =>
    refine Finishes.after fun _ => Finishes.after fun _ => Finishes.ite (Finishes.after fun _ => ?_) ?_
    all_goals
      refine Finishes.after fun _ => Finishes.after fun _ => Finishes.ite (Finishes.after fun _ => ?_) ?_
      all_goals exact Finishes.after fun _ => Finishes.after fun _ => hsemicolon.bind_pure
  case delete =>
    refine Finishes.after fun _ => Finishes.after fun _ => Finishes.ite (Finishes.after fun _ => ?_) ?_
    all_goals exact Finishes.after fun _ => Finishes.after fun _ => hsemicolon.bind_pure

/-- A list that only its last token closes is read whole, or the parser raises its own error. -/
theorem Parser.parse_reads {body : List Token} {last : Token} (hlast : last.type = .eof)
    (hbody : ∀ t ∈ body, t.type ≠ .eof) :
    match Parser.parse u (body ++ [last]) with
    | .ok ir => ir.ReadAs (contentOf (body ++ [last]))
    | .error e => e.kind = .parseError := by
  have htokens : Parser.ofTokens (body ++ [last]) = ⟨body, last⟩ := by
    simp [Parser.ofTokens]
  have hreads := parseQuery_reads u ⟨body, last⟩ hlast
  have hparse : Parser.parse u (body ++ [last]) = Prod.fst <$> (parseQuery u).run ⟨body, last⟩ := by
    rw [Parser.parse, htokens]
    rfl
  unfold ReadsAt at hreads
  rw [hparse]
  cases hrun : (parseQuery u).run ⟨body, last⟩ with
  | error e =>
    rw [hrun] at hreads
    exact hreads
  | ok r =>
    obtain ⟨ir, p'⟩ := r
    rw [hrun] at hreads
    obtain ⟨used, hused, hlast', hread⟩ := hreads
    have hend : p'.isAtEnd = true := parseQuery_finishes u _ _ _ hrun
    have hrest : p'.tokens = [] := by
      obtain ⟨tokens, last'⟩ := p'
      cases tokens with
      | nil => rfl
      | cons t ts =>
        have ht : t ∈ used ++ t :: ts := List.mem_append_right _ List.mem_cons_self
        rw [← show body = used ++ t :: ts from hused] at ht
        exact absurd (of_decide_eq_true hend) (hbody t ht)
    rw [hrest, List.append_nil] at hused
    have hclosed : contentOf [last] = [] := by
      rw [contentOf, List.map_singleton, hlast]
      rfl
    change ir.ReadAs _
    rw [contentOf_append, hclosed, List.append_nil, show body = used from hused]
    exact hread

theorem content_window (limit offset : Option ℤ) :
    content (printLimit limit) = printLimit limit ∧ content (printOffset offset) = printOffset offset := by
  cases limit <;> cases offset <;> exact ⟨rfl, rfl⟩

theorem AltrQueryIR.content_print (ir : AltrQueryIR) : content ir.print =
    content ir.printHead ++ (content ir.printOrdering ++ (printLimit ir.limit ++ printOffset ir.offset)) := by
  obtain ⟨hlimit, hoffset⟩ := content_window ir.limit ir.offset
  simp [AltrQueryIR.print, hlimit, hoffset, show content [.semicolon, .eof] = [] from rfl]

theorem AltrQueryIR.content_printOffsetFirst (ir : AltrQueryIR) : content ir.printOffsetFirst =
    content ir.printHead ++ (content ir.printOrdering ++ (printOffset ir.offset ++ printLimit ir.limit)) := by
  obtain ⟨hlimit, hoffset⟩ := content_window ir.limit ir.offset
  simp [AltrQueryIR.printOffsetFirst, hlimit, hoffset, show content [.semicolon, .eof] = [] from rfl]

/-! ### The keywords of ordering clauses -/

/-- The number of SORT, TOP and BOTTOM keywords. -/
def orderings (xs : List TokenType) : ℕ := xs.countP (·.isOrdering)

@[simp] theorem orderings_nil : orderings [] = 0 := rfl

@[simp] theorem orderings_append (xs ys : List TokenType) :
    orderings (xs ++ ys) = orderings xs + orderings ys := List.countP_append

@[simp] theorem orderings_cons (x : TokenType) (xs : List TokenType) :
    orderings (x :: xs) = orderings xs + if x.isOrdering = true then 1 else 0 := List.countP_cons

theorem isContent_of_isOrdering {x : TokenType} (h : x.isOrdering = true) : x.isContent = true := by
  cases x <;> first | rfl | cases h

@[simp] theorem orderings_content (xs : List TokenType) : orderings (content xs) = orderings xs := by
  rw [orderings, content, List.countP_filter]
  refine List.countP_congr fun x _ => ?_
  simpa using isContent_of_isOrdering

theorem orderings_flatMap {α : Type} {f : α → List TokenType} (h : ∀ a, orderings (f a) = 0)
    (l : List α) : orderings (l.flatMap f) = 0 := by
  induction l with
  | nil => rfl
  | cons a l ih => rw [List.flatMap_cons, orderings_append, h, ih]

theorem orderings_pos {xs : List TokenType} : 0 < orderings xs ↔ ∃ t ∈ xs, t.isOrdering = true :=
  List.countP_pos_iff

@[simp] theorem orderings_path (p : FieldPath) : orderings p.print = 0 := by
  simp [FieldPath.print, orderings_flatMap, TokenType.isOrdering]

@[simp] theorem isOrdering_literal (l : LiteralValue) : l.print.isOrdering = false := by
  match l with
  | .string _ | .integer _ | .float _ | .null => rfl
  | .boolean true | .boolean false => rfl
  | .temporal (.keyword .today) | .temporal (.keyword .now) | .temporal (.value _) => rfl

@[simp] theorem isOrdering_comparison (op : ComparisonOperator) : op.print.isOrdering = false := by
  cases op <;> rfl

@[simp] theorem orderings_range (r : Range) : orderings r.print = 0 := by
  simp [Range.print, show TokenType.dotdot.isOrdering = false from rfl]

@[simp] theorem orderings_compound (cs : List ComparisonConstraint) : orderings (printCompound cs) = 0 := by
  induction cs with
  | nil => rfl
  | cons c cs ih =>
    cases cs with
    | nil => simp [printCompound_singleton, ComparisonConstraint.print]
    | cons c' cs =>
      simp [printCompound_cons, ih, ComparisonConstraint.print,
        show TokenType.ampersand.isOrdering = false from rfl]

theorem orderings_element (e : ValueSetElement) : orderings e.print = 0 := by
  cases e <;> simp [ValueSetElement.print, ComparisonConstraint.print]

@[simp] theorem orderings_operator (op : Operator) : orderings op.print = 0 := by
  rcases op with op | op
  · simp [Operator.print]
  · cases op <;> rfl

@[simp] theorem orderings_operand (o : Operand) : orderings o.print = 0 := by
  cases o with
  | valueSet es => rw [← orderings_content, content_valueSet, orderings_flatMap orderings_element]
  | literal l => simp [Operand.print]
  | range r => simp [Operand.print]
  | constraint c => simp [Operand.print, ComparisonConstraint.print]
  | compound cs => simp [Operand.print]

@[simp] theorem orderings_expression (e : Expression) : orderings (printExpression e) = 0 := by
  induction e with
  | atom e => simp [printExpression, FieldExpression.print]
  | not e ih => simp [printExpression, ih, TokenType.isOrdering]
  | and l r hl hr => simp [printExpression, hl, hr, TokenType.isOrdering]
  | or l r hl hr => simp [printExpression, hl, hr, TokenType.isOrdering]

@[simp] theorem orderings_where (w : Option Expression) : orderings (printWhere w) = 0 := by
  cases w <;> simp [printWhere, TokenType.isOrdering]

theorem orderings_selection (s : FieldSelection) : orderings s.print = 0 := by
  obtain ⟨path, _ | name⟩ := s <;> simp [FieldSelection.print, TokenType.isOrdering]

theorem orderings_sortClause (c : SortClause) : orderings c.print = 0 := by
  obtain ⟨field, _ | _⟩ := c <;> simp [SortClause.print, SortDirection.print, TokenType.isOrdering]

theorem orderings_assignment (a : MutationAssignment) : orderings a.print = 0 := by
  simp [MutationAssignment.print, show TokenType.colon.isOrdering = false from rfl]

theorem orderings_assignments (as : List MutationAssignment) : orderings (printAssignments as) = 0 := by
  rw [← orderings_content, content_assignments, orderings_flatMap orderings_assignment]

/-- No clause of the head orders the result. -/
theorem orderings_head (ir : AltrQueryIR) : orderings ir.printHead = 0 := by
  have hprojection : orderings (printProjection ir.projection) = 0 := by
    rw [← orderings_content, content_projection, orderings_flatMap orderings_selection]
  have hrecords : orderings ([.comma].intercalate (ir.records.map (·.print))) = 0 := by
    rw [← orderings_content, content_intercalate rfl, List.flatMap_map]
    exact orderings_flatMap (fun r => (orderings_content _).trans (orderings_assignments _)) _
  unfold AltrQueryIR.printHead
  cases ir.operation <;>
    simp [hprojection, hrecords, orderings_assignments, TokenType.isOrdering]

theorem orderings_window (limit offset : Option ℤ) :
    orderings (printLimit limit) = 0 ∧ orderings (printOffset offset) = 0 := by
  cases limit <;> cases offset <;> exact ⟨rfl, rfl⟩

/-- A query has at most one ordering clause. -/
theorem orderings_printOrdering {ir : AltrQueryIR} (h : ir.sort = [] ∨ ir.ranking = none) :
    orderings ir.printOrdering = if content ir.printOrdering = [] then 0 else 1 := by
  have hranking : ∀ r : RankingClause, orderings r.print = 1 := by
    rintro ⟨direction, n, path⟩
    cases direction <;> simp [RankingClause.print, RankingDirection.print, TokenType.isOrdering]
  have hsort : ∀ cs, cs ≠ [] → orderings (printSort cs) = 1 := by
    intro cs hne
    rw [← orderings_content, content_sort hne, orderings_cons, orderings_flatMap orderings_sortClause]
    rfl
  unfold AltrQueryIR.printOrdering
  rcases h with h | h
  · cases hr : ir.ranking with
    | none => simp [h, printSort]
    | some r =>
      have hne : r.print ≠ [] := List.cons_ne_nil _ _
      simp [h, printSort, hranking, hne]
  · by_cases hs : ir.sort = []
    · simp [h, hs, printSort]
    · simp [h, hsort _ hs, content_sort hs]

/-- Nothing is dropped from a statement that has one ordering keyword. -/
theorem AltrQueryIR.ReadAs.whole_iff {ir : AltrQueryIR} {xs : List TokenType} (h : ir.ReadAs xs) :
    (∃ window, xs = content ir.printHead ++ (content ir.printOrdering ++ window) ∧
      (window = printLimit ir.limit ++ printOffset ir.offset ∨
        window = printOffset ir.offset ++ printLimit ir.limit)) ↔ orderings xs ≤ 1 := by
  obtain ⟨-, hordering, dropped, window, rfl, hcases, hwindow⟩ := h
  have hzero : orderings window = 0 := by
    obtain ⟨hlimit, hoffset⟩ := orderings_window ir.limit ir.offset
    rcases hwindow with rfl | rfl <;> simp [hlimit, hoffset]
  have hone := orderings_printOrdering hordering
  constructor
  · rintro ⟨window', heq, hwindow'⟩
    have hzero' : orderings window' = 0 := by
      obtain ⟨hlimit, hoffset⟩ := orderings_window ir.limit ir.offset
      rcases hwindow' with rfl | rfl <;> simp [hlimit, hoffset]
    rw [heq]
    simp only [orderings_append, orderings_content, orderings_head, hone, hzero']
    split <;> omega
  · intro hle
    simp only [orderings_append, orderings_content, orderings_head, hone, hzero] at hle
    rcases hcases with rfl | ⟨hdropped, hne⟩
    · exact ⟨window, by rw [List.nil_append], hwindow⟩
    · rw [if_neg hne] at hle
      have := orderings_pos.2 hdropped
      omega

end

end AltrStream.QueryEngine
