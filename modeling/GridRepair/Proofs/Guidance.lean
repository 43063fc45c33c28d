/-
# What hints add

Hints take nothing away from a search.  They move families of edits to the front, so that the order
of the families stays a permutation of the usual one (`Search.order_perm`), and they put steps before
those that are on offer anyway (`Search.mem_insertions_iff`).  The steps on offer are calls of
registered primitives, each of them once.  What is tried without the hints is tried with them, and
what is tried in addition is the insertion of a step that one of them suggests
(`Search.hints_only_add`).
-/
import Mathlib.Data.List.Nodup
import GridRepair.Catalogue
import GridRepair.Search
import GridRepair.Proofs.Examples

namespace GridRepair

/-- The effort with the use of hints, or without. -/
def Effort.guided (effort : Effort) (use : Bool) : Effort := { effort with useHints := use }

namespace Search

variable {reg : Registry} {effort : Effort} {t : Task} {hints : List Hint} {p step : Program}
  {c : Candidate}

/-! ## Families -/

/-- A family that moves to the front changes its place only. -/
theorem first_perm {family : Edit.Family} {families : List Edit.Family} (hnodup : families.Nodup)
    (hmem : family ∈ families) : (first family families).Perm families := by
  have herase : families.filter (fun f => f ≠ family) = families.erase family := by
    rw [hnodup.erase_eq_filter]
    refine List.filter_congr fun f _ => ?_
    rw [decide_not, bne, beq_eq_decide]
  unfold first
  rw [herase]
  exact (List.perm_cons_erase hmem).symm

/-- Whatever the hints are, every family is tried, and none is tried twice. -/
theorem order_perm (effort : Effort) (hints : List Hint) :
    (order effort hints).Perm Edit.Family.all := by
  have hall : Edit.Family.all.Nodup := by decide
  have hmem : ∀ family : Edit.Family, family ∈ Edit.Family.all := by
    intro family
    cases family <;> decide
  have hfirst : ∀ (b : Bool) (family : Edit.Family) {families : List Edit.Family},
      families.Perm Edit.Family.all →
      (if b then first family families else families).Perm Edit.Family.all := by
    intro b family families h
    cases b with
    | false => exact h
    | true => exact (first_perm (h.nodup_iff.2 hall) (h.mem_iff.2 (hmem family))).trans h
  unfold order
  split
  · exact hfirst _ _ (hfirst _ _ (.refl _))
  · exact .refl _

/-! ## Steps for insertion -/

/-- The list without later copies has the same members, but for those seen before. -/
theorem mem_distinct_iff {seen ps : List Program} : p ∈ distinct seen ps ↔ p ∈ ps ∧ p ∉ seen := by
  induction ps generalizing seen with
  | nil => simp [distinct]
  | cons q qs ih =>
    rw [distinct]
    by_cases hq : q ∈ seen
    · rw [if_pos hq, ih, List.mem_cons]
      refine and_congr_left fun hp => (or_iff_right ?_).symm
      rintro rfl
      exact hp hq
    · rw [if_neg hq, List.mem_cons, ih, List.mem_cons, List.mem_cons, not_or]
      by_cases hpq : p = q
      · simp [hpq, hq]
      · simp [hpq]

/-- The list without later copies has no copies. -/
theorem nodup_distinct (seen ps : List Program) : (distinct seen ps).Nodup := by
  induction ps generalizing seen with
  | nil => exact List.nodup_nil
  | cons q qs ih =>
    rw [distinct]
    split
    · exact ih seen
    · rw [List.nodup_cons, mem_distinct_iff]
      exact ⟨fun h => h.2 List.mem_cons_self, ih (q :: seen)⟩

/-- On offer are the registered ones among the steps that hints suggest, where hints are used, the
scaling by the ratio of the task and the steps of the library. -/
theorem mem_insertions_iff : step ∈ insertions reg effort t hints ↔
    ((effort.useHints = true ∧ ∃ hint ∈ hints, step ∈ hint.steps) ∨
      (∃ k, (Invariants.ofTask t).ratio?.bind Ratio.factor? = some k ∧ 2 ≤ k ∧
        step = Hint.scaleStep k) ∨
      step ∈ Proposal.library) ∧
    reg.contains (step.name?.getD "") = true := by
  unfold insertions
  rw [mem_distinct_iff, and_iff_left List.not_mem_nil, List.mem_filter, List.mem_append,
    List.mem_append, or_assoc]
  refine and_congr_left fun _ => or_congr ?_ (or_congr_left ?_)
  · cases effort.useHints <;> simp
  · cases (Invariants.ofTask t).ratio?.bind Ratio.factor? <;> simp

/-- A program with a name is a call. -/
theorem exists_call (h : step.name?.isSome = true) : ∃ name args, step = .call name args := by
  cases step with
  | call name args => exact ⟨name, args, rfl⟩
  | compose steps => cases h
  | literal v => cases h

/-- A hint suggests calls. -/
theorem isSome_name?_of_mem_steps {hint : Hint} (h : step ∈ hint.steps) :
    step.name?.isSome = true := by
  cases hint with
  | recolor source target =>
    rw [List.mem_singleton.1 h]
    rfl
  | scaled factor =>
    rw [List.mem_singleton.1 h]
    rfl
  | shrink =>
    revert step
    decide
  | reshape =>
    revert step
    decide
  | addsColors colors =>
    obtain ⟨color, -, rfl⟩ := List.mem_map.1 h
    rfl
  | mostlySurplus => cases h
  | mostlyLacking => cases h
  | someSolved solved total => cases h

/-- The steps on offer are calls of registered primitives. -/
theorem exists_call_of_mem_insertions (h : step ∈ insertions reg effort t hints) :
    ∃ name args, step = .call name args ∧ reg.contains name = true := by
  obtain ⟨hsource, hknown⟩ := mem_insertions_iff.1 h
  have hnamed : step.name?.isSome = true := by
    rcases hsource with ⟨-, hint, -, hstep⟩ | ⟨k, -, -, rfl⟩ | hlibrary
    · exact isSome_name?_of_mem_steps hstep
    · rfl
    · have hall : ∀ s ∈ Proposal.library, s.name?.isSome = true := by decide
      exact hall step hlibrary
  obtain ⟨name, args, rfl⟩ := exists_call hnamed
  exact ⟨name, args, rfl, hknown⟩

/-! ## Candidates -/

/-- More steps on offer give more edits. -/
theorem mem_edits_of_subset {steps others : List Program} (h : ∀ s ∈ steps, s ∈ others)
    {family : Edit.Family} {edit : Edit} (hedit : edit ∈ Proposal.edits reg steps p family) :
    edit ∈ Proposal.edits reg others p family := by
  cases family with
  | insert =>
    obtain ⟨x, hx, hedit⟩ := List.mem_flatMap.1 hedit
    obtain ⟨index, s, rfl, hindex, hs⟩ := Proposal.mem_insertionsAt_iff.1 hedit
    exact List.mem_flatMap.2
      ⟨x, hx, Proposal.mem_insertionsAt_iff.2 ⟨index, s, rfl, hindex, h s hs⟩⟩
  | swap => exact hedit
  | tweak => exact hedit
  | remove => exact hedit
  | reorder => exact hedit

/-- An edit that is on offer because of an additional step inserts it. -/
theorem insert_of_mem_edits {steps others : List Program} {family : Edit.Family} {edit : Edit}
    (hedit : edit ∈ Proposal.edits reg others p family) :
    edit ∈ Proposal.edits reg steps p family ∨
      ∃ location index, ∃ s ∈ others, s ∉ steps ∧ edit = .insert location index s := by
  cases family with
  | insert =>
    obtain ⟨x, hx, hedit⟩ := List.mem_flatMap.1 hedit
    obtain ⟨index, s, rfl, hindex, hs⟩ := Proposal.mem_insertionsAt_iff.1 hedit
    by_cases hmem : s ∈ steps
    · exact .inl (List.mem_flatMap.2
        ⟨x, hx, Proposal.mem_insertionsAt_iff.2 ⟨index, s, rfl, hindex, hmem⟩⟩)
    · exact .inr ⟨x.1, index, s, hs, hmem, rfl⟩
  | swap => exact .inl hedit
  | tweak => exact .inl hedit
  | remove => exact .inl hedit
  | reorder => exact .inl hedit

/-- The candidates of a program, with the families and the steps for insertion as the hints and the
effort have them. -/
def prospects (reg : Registry) (effort : Effort) (t : Task) (hints : List Hint) (p : Program) :
    List Candidate :=
  Proposal.all reg (order effort hints) (insertions reg effort t hints) p

/-- A prospect is an edit on offer that applies, with its result. -/
theorem mem_prospects_iff : c ∈ prospects reg effort t hints p ↔
    ∃ family, c.edit ∈ Proposal.edits reg (insertions reg effort t hints) p family ∧
      c.edit.apply p = .ok c.program := by
  unfold prospects
  rw [Proposal.mem_all_iff]
  refine exists_congr fun family => and_iff_right ?_
  rw [(order_perm effort hints).mem_iff]
  cases family <;> decide

/-- **Hints add candidates and reorder them, and take none away.**  The families of edits are tried in
an order that is a permutation of the usual one.  Each step for insertion is on offer once, and calls
a registered primitive.  The candidates without the use of hints are among those with it, and any
other candidate inserts a step that a hint suggests. -/
theorem hints_only_add (reg : Registry) (effort : Effort) (t : Task) (hints : List Hint)
    (p : Program) :
    (order effort hints).Perm Edit.Family.all ∧
    (insertions reg effort t hints).Nodup ∧
    (∀ step ∈ insertions reg effort t hints,
      ∃ name args, step = .call name args ∧ reg.contains name = true) ∧
    (∀ c ∈ prospects reg (effort.guided false) t hints p,
      c ∈ prospects reg (effort.guided true) t hints p) ∧
    ∀ c ∈ prospects reg (effort.guided true) t hints p,
      c ∈ prospects reg (effort.guided false) t hints p ∨
        ∃ location index, ∃ hint ∈ hints, ∃ step ∈ hint.steps,
          c.edit = .insert location index step := by
  refine ⟨order_perm effort hints, nodup_distinct _ _, fun step => exists_call_of_mem_insertions,
    fun c hc => ?_, fun c hc => ?_⟩
  · obtain ⟨family, hedit, happly⟩ := mem_prospects_iff.1 hc
    refine mem_prospects_iff.2 ⟨family, mem_edits_of_subset (fun s hs => ?_) hedit, happly⟩
    obtain ⟨hsource, hknown⟩ := mem_insertions_iff.1 hs
    rcases hsource with ⟨hfalse, -⟩ | hother
    · cases hfalse
    · exact mem_insertions_iff.2 ⟨.inr hother, hknown⟩
  · obtain ⟨family, hedit, happly⟩ := mem_prospects_iff.1 hc
    rcases insert_of_mem_edits hedit with hold | ⟨location, index, s, hs, hnew, heq⟩
    · exact .inl (mem_prospects_iff.2 ⟨family, hold, happly⟩)
    · obtain ⟨hsource, hknown⟩ := mem_insertions_iff.1 hs
      rcases hsource with ⟨-, hint, hhint, hstep⟩ | hother
      · exact .inr ⟨location, index, hint, hhint, s, hstep, heq⟩
      · exact absurd (mem_insertions_iff.2 ⟨.inr hother, hknown⟩) hnew

/-- A hint adds a recoloring to what is tried after a transposition. -/
theorem hints_only_add_recolor :
    (∀ c ∈ prospects .standard (Effort.standard.guided false) .quarterTurn
        [.mostlySurplus, .recolor 1 2] (.call "transpose" []),
      c ∈ prospects .standard (Effort.standard.guided true) .quarterTurn
        [.mostlySurplus, .recolor 1 2] (.call "transpose" [])) ∧
    (∃ c ∈ prospects .standard (Effort.standard.guided true) .quarterTurn
        [.mostlySurplus, .recolor 1 2] (.call "transpose" []),
      c.edit = .insert [] 1 (Hint.recolorStep 1 2)) ∧
    ¬ ∃ c ∈ prospects .standard (Effort.standard.guided false) .quarterTurn
        [.mostlySurplus, .recolor 1 2] (.call "transpose" []),
      c.edit = .insert [] 1 (Hint.recolorStep 1 2) := by
  refine ⟨?_, by decide +kernel, by decide +kernel⟩
  exact (hints_only_add .standard .standard .quarterTurn [.mostlySurplus, .recolor 1 2]
    (.call "transpose" [])).2.2.2.1

end Search

end GridRepair
