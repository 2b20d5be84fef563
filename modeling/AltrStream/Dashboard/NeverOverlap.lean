import AltrStream.Dashboard.Pushing

/-! # Dashboard cards never overlap

A resolved layout has the cards of the given one, without overlaps and without empty rows, the fixed
card has not moved down, and to resolve it again changes nothing. The fifty passes of the resolver
are enough for this unless a chain of pushes is longer than that.
-/
namespace AltrStream.Dashboard.BentoCollisionResolver
open Foundations BentoCardConfig

variable {l : Layout} {fixedId : Option String} {ρ : PushDown.Rows (Fin l.length)}

/-- What the resolver is for. -/
structure Resolved (fixedId : Option String) (l : Layout) : Prop where
  /-- The cards, up to their rows, are the same and in the same order. -/
  cards : (resolve l fixedId).map (fun c => c.moveTo 0) = l.map (fun c => c.moveTo 0)
  noOverlap : NoOverlap (resolve l fixedId)
  full : Full (resolve l fixedId)
  fixed : ∀ c ∈ l, some c.id = fixedId → ∀ c' ∈ resolve l fixedId, c'.id = c.id → c'.row ≤ c.row
  again : resolve (resolve l fixedId) none = resolve l fixedId

theorem map_place {β : Type*} (f : BentoCardConfig → β) (hf : ∀ c r, f (c.moveTo r) = f c) :
    (place l ρ).map f = l.map f := by
  conv_rhs => rw [← place_rows (l := l)]
  unfold place
  rw [List.map_ofFn, List.map_ofFn]
  congr 1
  funext i
  exact (hf _ _).trans (hf _ _).symm

theorem wellFormed_place (hl : WellFormed l) : WellFormed (place l ρ) := by
  refine ⟨?_, ?_⟩
  · rw [map_place _ fun c r => rfl]
    exact hl.ids
  · intro c hc
    obtain ⟨i, rfl⟩ := mem_place.1 hc
    exact (withinLimits_moveTo _).2 (hl.limits _ (List.get_mem l i))

theorem compactRows_place (hl : WellFormed l) :
    compactRows (place l ρ) = place l fun i => raised (place l ρ) (ρ i) := by
  rw [compactRows_eq (wellFormed_place hl).limits]
  conv_lhs => arg 2; unfold place
  rw [List.map_ofFn]
  rfl

theorem pushLoop_of_noOverlap (hl : WellFormed l) (h : NoOverlap l) (n : ℕ) :
    pushLoop fixedId n l = l := by
  cases n with
  | zero => rfl
  | succ n =>
    obtain ⟨b, ρ', hpass, hitems, hflag⟩ := exists_pass fixedId hl (rows l)
    have hapart : PushDown.Apart (items fixedId hl) (rows l) :=
      (noOverlap_place fixedId hl).1 (by rwa [place_rows])
    obtain ⟨ps, -, hvisits⟩ := hitems
    obtain rfl := hvisits.eq_of_clear fun p _ => hapart p.1 p.2
    rw [place_rows] at hpass
    rw [pushLoop, hpass, hflag.2 hapart]
    rfl

theorem resolve_of_settled (hl : WellFormed l) (hno : NoOverlap l) (hfull : Full l) :
    resolve l fixedId = l := by
  rw [resolve, pushLoop_of_noOverlap hl hno, compactRows_of_full hl.limits hfull]

/-- Closing the empty rows neither makes nor removes an overlap. -/
theorem noOverlap_compactRows (hl : WellFormed l) : NoOverlap (compactRows l) ↔ NoOverlap l := by
  rw [compactRows_eq hl.limits]
  unfold NoOverlap
  simp only [List.forall_mem_map]
  refine forall₂_congr fun a ha => forall₂_congr fun b hb => ?_
  rw [itemsOverlap_raised hl.limits ha hb]

/-- The rows after the loop, the fixed card still in its own. -/
theorem exists_loop_rows (fixedId : Option String) (hl : WellFormed l) (n : ℕ) :
    ∃ ρ', pushLoop fixedId n l = place l ρ' ∧
      ∀ i, some (l.get i).id = fixedId → ρ' i = (l.get i).row := by
  obtain ⟨k, ρ', hloop, hpasses⟩ := exists_pushLoop fixedId hl n (rows l)
  rw [place_rows] at hloop
  exact ⟨ρ', hloop, fun i hi => hpasses.row_pinned ((fixedPosition_eq_some hl).2 hi)⟩

theorem noOverlap_resolve (hl : WellFormed l) :
    NoOverlap (resolve l fixedId) ↔ SettlesWithin maxIterations fixedId l := by
  obtain ⟨ρ', hloop, -⟩ := exists_loop_rows fixedId hl maxIterations
  have hiff := noOverlap_pushLoop fixedId hl maxIterations (rows l)
  rw [place_rows] at hiff
  rw [← hiff, resolve, hloop, noOverlap_compactRows (wellFormed_place hl)]

theorem resolved_of_settlesWithin (hl : WellFormed l) (h : SettlesWithin maxIterations fixedId l) :
    Resolved fixedId l := by
  obtain ⟨ρ', hloop, hfixed⟩ := exists_loop_rows fixedId hl maxIterations
  have hwf : WellFormed (place l ρ') := wellFormed_place hl
  have hno := (noOverlap_resolve hl).2 h
  have hresolve : resolve l fixedId = place l fun i => raised (place l ρ') (ρ' i) := by
    rw [resolve, hloop, compactRows_place hl]
  have hfull : Full (resolve l fixedId) := by
    rw [resolve, hloop]
    exact full_compactRows hwf.limits
  refine ⟨?_, hno, hfull, ?_, ?_⟩
  · rw [hresolve]
    exact map_place _ fun c r => rfl
  · intro c hc hid c' hc' hsame
    rw [hresolve] at hc'
    obtain ⟨i, rfl⟩ := mem_place.1 hc'
    obtain ⟨j, rfl⟩ := List.get_of_mem hc
    obtain rfl : i = j := (get_id_inj hl).1 hsame
    rw [moveTo_row, hfixed i hid]
    exact raised_le_self _ _
  · refine resolve_of_settled ?_ hno hfull
    rw [hresolve]
    exact wellFormed_place hl

def chainId (k : ℕ) : String := String.ofList (List.replicate k 'x')

def chainCard (k row : ℕ) : BentoCardConfig := ⟨chainId k, 0, row, 1, 2, ""⟩

/-- The row of the `k`-th card of the chain after `m` passes. -/
def chainRow (m k : ℕ) : ℕ := if k ≤ m then 2 * k else 2 * k - 1

/-- Cards of one column, the lowest first: each overlaps the next one as soon as it is pushed. -/
def chain (n : ℕ) : Layout :=
  List.ofFn fun i : Fin n => chainCard (n - 1 - i) (chainRow 0 (n - 1 - i))

theorem chainId_injective : Function.Injective chainId := by
  intro a b h
  have := congrArg String.toList h
  simpa [chainId] using this

theorem chainId_ne {k : ℕ} {s : String} (h : s.toList.any (· ≠ 'x') = true) : chainId k ≠ s := by
  rintro rfl
  simp [chainId] at h

theorem withinLimits_chainCard (k row : ℕ) : (chainCard k row).WithinLimits := by
  refine ⟨le_rfl, ?_, Nat.le_succ 1, ?_⟩
  · change 1 ≤ maxColSpan _
    unfold maxColSpan
    split <;> decide
  · change 2 ≤ maxRowSpan _
    unfold maxRowSpan
    split
    case h_12 => decide
    all_goals
      rename_i h
      exact absurd h (chainId_ne (by decide))

theorem length_chain (n : ℕ) : (chain n).length = n := List.length_ofFn

theorem get_chain {n : ℕ} (i : Fin (chain n).length) :
    (chain n).get i = chainCard (n - 1 - i) (chainRow 0 (n - 1 - i)) :=
  List.getElem_ofFn i.isLt

theorem wellFormed_chain (n : ℕ) : WellFormed (chain n) := by
  refine ⟨?_, ?_⟩
  · have hids : (chain n).map BentoCardConfig.id =
        List.ofFn fun i : Fin n => chainId (n - 1 - i) := by
      unfold chain
      rw [List.map_ofFn]
      rfl
    rw [hids, List.nodup_ofFn]
    intro i j h
    have hk := chainId_injective h
    apply Fin.ext
    omega
  · intro c hc
    obtain ⟨i, rfl⟩ := List.get_of_mem hc
    rw [get_chain]
    exact withinLimits_chainCard _ _

/-- The rows of the chain after `m` passes. -/
def chainRows (n m : ℕ) : PushDown.Rows (Fin (chain n).length) :=
  fun i => chainRow m (n - 1 - i)

theorem place_chainRows_zero (n : ℕ) : place (chain n) (chainRows n 0) = chain n := by
  have hrows : chainRows n 0 = rows (chain n) := by
    funext i
    unfold rows
    rw [get_chain]
    rfl
  rw [hrows, place_rows]

section
variable {n m : ℕ} {i j : Fin (chain n).length}

/-- After `m` passes only the cards `m` and `m + 1` of the chain overlap. -/
theorem overlap_chainRows :
    PushDown.Overlap (items none (wellFormed_chain n)) (chainRows n m) i j ↔
      (n - 1 - i = m ∧ n - 1 - j = m + 1) ∨ (n - 1 - i = m + 1 ∧ n - 1 - j = m) := by
  have hi : i.val < n := i.isLt.trans_eq (length_chain n)
  have hj : j.val < n := j.isLt.trans_eq (length_chain n)
  have hclash : (items none (wellFormed_chain n)).clash i j := by
    change Columns ((chain n).get i) ((chain n).get j)
    rw [get_chain, get_chain]
    exact ⟨zero_lt_one, zero_lt_one⟩
  have hheight : ∀ k, (items none (wellFormed_chain n)).height k = 2 := by
    intro k
    change ((chain n).get k).rowSpan = 2
    rw [get_chain]
    rfl
  unfold PushDown.Overlap
  rw [hheight, hheight, Fin.ne_iff_vne, and_iff_right hclash]
  unfold chainRows chainRow
  split <;> split <;> omega

/-- The one push of a pass. -/
theorem update_chainRows (hi : n - 1 - i = m + 1) :
    Function.update (chainRows n m) i (2 * m + 2) = chainRows n (m + 1) := by
  funext j
  have hin : i.val < n := i.isLt.trans_eq (length_chain n)
  have hjn : j.val < n := j.isLt.trans_eq (length_chain n)
  by_cases hj : j = i
  · subst hj
    rw [Function.update_self]
    unfold chainRows chainRow
    rw [hi, if_pos le_rfl]
    omega
  · rw [Function.update_of_ne hj]
    have hne : j.val ≠ i.val := fun h => hj (Fin.ext h)
    unfold chainRows chainRow
    split <;> split <;> omega

theorem visit_chainRows {ρ : PushDown.Rows (Fin (chain n).length)}
    (h : PushDown.Visit (items none (wellFormed_chain n)) i j (chainRows n m) ρ)
    (hi : n - 1 - i = m + 1) (hj : n - 1 - j = m) : ρ = chainRows n (m + 1) := by
  have hheight : ∀ k, (items none (wellFormed_chain n)).height k = 2 := by
    intro k
    change ((chain n).get k).rowSpan = 2
    rw [get_chain]
    rfl
  have hrow : chainRows n m i = 2 * m + 1 := by
    unfold chainRows chainRow
    rw [hi, if_neg (Nat.not_succ_le_self m)]
    omega
  have hrow' : chainRows n m j = 2 * m := by
    unfold chainRows chainRow
    rw [hj, if_pos le_rfl]
  rcases h with ⟨hclear, -⟩ | h | h
  · exact absurd (overlap_chainRows.2 (.inr ⟨hi, hj⟩)) hclear
  · obtain ⟨-, -, hle | hle, -⟩ := h
    · cases (fixedPosition_eq_some (wellFormed_chain n)).1 hle
    · omega
  · obtain ⟨-, -, -, rfl⟩ := h
    rw [hheight, hrow', update_chainRows hi]

theorem exists_split_finRange {n : ℕ} (p : Fin n) :
    ∃ A B, List.finRange n = A ++ p :: B ∧ (∀ i ∈ A, i < p) ∧ ∀ i ∈ B, p < i := by
  obtain ⟨A, B, hp⟩ := List.append_of_mem (List.mem_finRange p)
  have hsorted := List.pairwise_lt_finRange n
  rw [hp, List.pairwise_append, List.pairwise_cons] at hsorted
  exact ⟨A, B, hp, fun i hi => hsorted.2.2 i hi p List.mem_cons_self, hsorted.2.1.1⟩

/-- The pairs before and after one of them, in the order of the loops. -/
theorem exists_split_pairs {n : ℕ} (p q : Fin n) :
    ∃ A B, pairs n = A ++ (p, q) :: B ∧ (∀ r ∈ A, r.1 < p ∨ (r.1 = p ∧ r.2 < q)) ∧
      ∀ r ∈ B, p < r.1 ∨ (r.1 = p ∧ q < r.2) := by
  obtain ⟨A, B, hp, hA, hB⟩ := exists_split_finRange p
  obtain ⟨A', B', hq, hA', hB'⟩ := exists_split_finRange q
  refine ⟨(A.flatMap fun i => (List.finRange n).map fun j => (i, j)) ++ A'.map fun j => (p, j),
    (B'.map fun j => (p, j)) ++ B.flatMap fun i => (List.finRange n).map fun j => (i, j),
    ?_, ?_, ?_⟩
  · have hrow : ((List.finRange n).map fun j => (p, j)) =
        (A'.map fun j => (p, j)) ++ (p, q) :: B'.map fun j => (p, j) := by
      rw [hq, List.map_append, List.map_cons]
    have houter : pairs n = (A ++ p :: B).flatMap fun i => (List.finRange n).map fun j => (i, j) :=
      congrArg _ hp
    rw [houter, List.flatMap_append, List.flatMap_cons, hrow]
    simp only [List.append_assoc, List.cons_append]
  · intro r hr
    rcases List.mem_append.1 hr with hr | hr
    · obtain ⟨i, hi, hr⟩ := List.mem_flatMap.1 hr
      obtain ⟨j, -, rfl⟩ := List.mem_map.1 hr
      exact .inl (hA i hi)
    · obtain ⟨j, hj, rfl⟩ := List.mem_map.1 hr
      exact .inr ⟨rfl, hA' j hj⟩
  · intro r hr
    rcases List.mem_append.1 hr with hr | hr
    · obtain ⟨j, hj, rfl⟩ := List.mem_map.1 hr
      exact .inr ⟨rfl, hB' j hj⟩
    · obtain ⟨i, hi, hr⟩ := List.mem_flatMap.1 hr
      obtain ⟨j, -, rfl⟩ := List.mem_map.1 hr
      exact .inl (hB i hi)

/-- Every visit of a pass but one changes nothing. -/
theorem visits_chainRows {ρ : PushDown.Rows (Fin (chain n).length)} (hm : m + 1 < n)
    (h : PushDown.Visits (items none (wellFormed_chain n)) (pairs (chain n).length)
      (chainRows n m) ρ) : ρ = chainRows n (m + 1) := by
  have hlen := length_chain n
  have hp : n - 2 - m < (chain n).length := by omega
  have hq : n - 1 - m < (chain n).length := by omega
  obtain ⟨A, B, hsplit, hA, hB⟩ := exists_split_pairs (⟨_, hp⟩ : Fin (chain n).length) ⟨_, hq⟩
  rw [hsplit] at h
  obtain ⟨ρ₁, hvisitsA, hrest⟩ := h.of_append
  obtain rfl : ρ₁ = chainRows n m := by
    refine hvisitsA.eq_of_clear fun r hr ho => ?_
    have hbefore := hA r hr
    have hr2 := r.2.isLt
    simp only [Fin.lt_def, Fin.ext_iff] at hbefore
    rcases overlap_chainRows.1 ho with ⟨h1, h2⟩ | ⟨h1, h2⟩
    · omega
    · omega
  cases hrest with
  | cons hvisit hvisitsB =>
    obtain rfl := visit_chainRows hvisit (by simp; omega) (by simp; omega)
    refine hvisitsB.eq_of_clear fun r hr ho => ?_
    have hafter := hB r hr
    have hr2 := r.2.isLt
    simp only [Fin.lt_def, Fin.ext_iff] at hafter
    rcases overlap_chainRows.1 ho with ⟨h1, h2⟩ | ⟨h1, h2⟩
    · omega
    · omega

theorem passed_chain (hm : m + 1 < n) :
    passed none (place (chain n) (chainRows n m)) = place (chain n) (chainRows n (m + 1)) := by
  obtain ⟨b, ρ, hfold, hvisits, -⟩ := exists_visits none (wellFormed_chain n)
    (pairs (chain n).length) false (chainRows n m)
  obtain rfl := visits_chainRows hm hvisits
  rw [passed, pass_eq_foldl _ length_place, hfold]

theorem iterate_passed_chain (hm : m < n) :
    (passed none)^[m] (chain n) = place (chain n) (chainRows n m) := by
  induction m with
  | zero => exact (place_chainRows_zero n).symm
  | succ m ih => rw [Function.iterate_succ_apply', ih (by omega), passed_chain hm]

end

/-- A chain of two cards more than there are passes is not settled by them. -/
theorem not_settlesWithin_chain (n : ℕ) : ¬SettlesWithin n none (chain (n + 2)) := by
  rintro ⟨k, hk, hno⟩
  rw [iterate_passed_chain (by omega)] at hno
  have hlen := length_chain (n + 2)
  have hi : n + 1 - k < (chain (n + 2)).length := by omega
  have hj : n - k < (chain (n + 2)).length := by omega
  have hapart := (noOverlap_place none (wellFormed_chain (n + 2))).1 hno
  refine hapart ⟨n + 1 - k, hi⟩ ⟨n - k, hj⟩ (overlap_chainRows.2 (.inl ⟨?_, ?_⟩))
  · simp
    omega
  · simp
    omega

end AltrStream.Dashboard.BentoCollisionResolver
