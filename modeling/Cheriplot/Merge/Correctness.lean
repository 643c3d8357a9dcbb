import Cheriplot.Merge.Walk
import Cheriplot.Worker.Events

namespace Cheriplot.Provenance

/-! # What the merge guarantees

A merge step walks the worker subgraph vertex by vertex (`MergeInv.walk`), then `finalize`
translates the handles for the next step; every handle it passes on is a copy, so a vertex of
the merged graph (`ContextBounded`).  Over all steps of `mp_merge` the merged graph stays a
forest of derivations, and every event of a worker vertex other than a placeholder reaches the
merged graph.  `mpMerge_at` splits a merge at the step that merges any one worker.
-/

namespace MergeInv

variable {worker : Graph} {context : MergePartialSubgraphContext} {result : WorkerResult}

/-- The transform `MergePartialSubgraphContext.step` starts from. -/
theorem initial (forest : MergedForest context.pgm) (bounded : ContextBounded context)
    (result : WorkerResult) :
    MergeInv result.pgm context.pgm 0
      { graph := context.pgm, subgraph := result.pgm, copyVertexMap := fun _ => none,
        omitVertexMap := fun _ => false, previousRegset := context.prevRegset } :=
  ⟨⟨forest, LogsGrow.refl _, fun _ => rfl, fun _ => List.prefix_refl _, fun _ _ => rfl,
    fun _ => .inl ⟨rfl, by simp⟩, by simp, by simp, by simp, bounded.regset⟩, by simp⟩

/-- `bfs_transform` over the first `n` vertices keeps the invariant. -/
theorem walk (wellFormed : result.WellFormed) (bounded : ContextBounded context)
    (worker_eq : result.pgm = worker) {transform₀ : MergePartialSubgraph}
    (init : MergeInv worker context.pgm 0 transform₀) :
    ∀ n, n ≤ worker.size → ∀ transform,
      (List.range n).foldlM (fun transform u => transform.examineVertex context result u)
        transform₀ = .ok transform →
      MergeInv worker context.pgm n transform ∧ Extends transform₀ transform
  | 0, _, _, ran => by cases ran; exact ⟨init, Extends.refl _⟩
  | n + 1, le, transform, ran => by
      rw [List.range_succ, List.foldlM_append] at ran
      obtain ⟨middle, ranMiddle, last⟩ := Except.bind_eq_ok.mp ran
      simp only [List.foldlM_cons, List.foldlM_nil, bind_pure] at last
      obtain ⟨inv, ext⟩ := walk wellFormed bounded worker_eq init n (by omega) middle ranMiddle
      obtain ⟨inv', ext'⟩ := inv.examineVertex wellFormed bounded worker_eq (by omega) last
      exact ⟨inv', ext.trans ext'⟩

end MergeInv

namespace MergePartialSubgraphContext

variable {context context' : MergePartialSubgraphContext} {result : WorkerResult}

/-- One merge step: the merged graph stays a forest and keeps its logs, the handles passed on
are vertices of it, and it holds every event of the worker's vertices other than the
placeholders. -/
theorem step_keeps (forest : MergedForest context.pgm) (bounded : ContextBounded context)
    (wellFormed : result.WellFormed) (stepped : context.step result = .ok context') :
    MergedForest context'.pgm ∧ ContextBounded context' ∧ LogsGrow context.pgm context'.pgm ∧
      ∀ u < result.pgm.size, 33 ≤ u → EventsIn context'.pgm (result.pgm.data u).events := by
  obtain ⟨transform, walked, finalized⟩ := Except.bind_eq_ok.mp stepped
  obtain ⟨inv, -⟩ := MergeInv.walk wellFormed bounded rfl (MergeInv.initial forest bounded result)
    _ le_rfl transform walked
  obtain ⟨pccFixup, fixed, rest⟩ := Except.bind_eq_ok.mp finalized
  obtain ⟨syscall, -, rest⟩ := Except.bind_eq_ok.mp rest
  cases rest
  have copyBound := inv.core.copyBound
  refine ⟨inv.core.forest, ⟨⟨fun idx v held => ?_, fun v held => ?_⟩, fun entry member => ?_,
    fun v saved => ?_⟩, inv.core.grows, fun u bound high => (inv.resolved u bound).kept high⟩
  · obtain ⟨n, -, copied⟩ := Option.bind_eq_some.mp held
    exact copyBound n v copied
  · obtain ⟨n, -, copied⟩ := Option.bind_eq_some.mp held
    exact copyBound n v copied
  · obtain ⟨stored, -, found⟩ := List.mem_filterMap.mp member
    obtain ⟨v, copied, rfl⟩ := Option.map_eq_some'.mp found
    exact copyBound _ v copied
  · unfold MergePartialSubgraph.getFinalPccFixup at fixed
    split at fixed
    · rename_i none
      cases fixed; simp [none] at saved
    · split at fixed
      · cases fixed
      · rename_i copied
        cases fixed; cases saved
        exact copyBound _ _ copied

/-- The steps of `mp_merge` from any context whose graph is a forest and whose handles are
vertices of it. -/
theorem foldlM_step_keeps :
    ∀ (results : List WorkerResult) (context context' : MergePartialSubgraphContext),
      MergedForest context.pgm → ContextBounded context →
      (∀ result ∈ results, result.WellFormed) →
      results.foldlM step context = .ok context' →
      MergedForest context'.pgm ∧ ContextBounded context' ∧ LogsGrow context.pgm context'.pgm ∧
        ∀ result ∈ results, ∀ u < result.pgm.size, 33 ≤ u →
          EventsIn context'.pgm (result.pgm.data u).events
  | [], _, _, forest, bounded, _, merged => by
      cases merged; exact ⟨forest, bounded, LogsGrow.refl _, by simp⟩
  | result :: results, context, context', forest, bounded, wellFormed, merged => by
      rw [List.foldlM_cons] at merged
      obtain ⟨context₁, stepped, merged⟩ := Except.bind_eq_ok.mp merged
      obtain ⟨forest₁, bounded₁, grows₁, kept₁⟩ :=
        step_keeps forest bounded (wellFormed result (.head _)) stepped
      obtain ⟨forest', bounded', grows', kept'⟩ := foldlM_step_keeps results context₁ context'
        forest₁ bounded₁ (fun result member => wellFormed result (.tail _ member)) merged
      refine ⟨forest', bounded', grows₁.trans grows', fun result' member u bound high => ?_⟩
      rcases List.mem_cons.mp member with rfl | member
      · exact (kept₁ u bound high).mono grows'
      · exact kept' result' member u bound high

end MergePartialSubgraphContext

/-- The workers' results all have the shape the merge relies on. -/
theorem runWorkers_wellFormed :
    ∀ {start : Nat} {windows : List (List Record)} {results : List WorkerResult},
      runWorkers start windows = .ok results → ∀ result ∈ results, result.WellFormed
  | _, [], _, ran => by cases ran; simp
  | start, window :: windows, results, ran => by
      obtain ⟨parser, parsed, rest⟩ := Except.bind_eq_ok.mp ran
      obtain ⟨results', ran', final⟩ := Except.bind_eq_ok.mp rest
      cases final
      intro result member
      rcases List.mem_cons.mp member with rfl | member
      · exact ⟨(doParse_inv parsed).shape, rfl⟩
      · exact runWorkers_wellFormed ran' result member

theorem ContextBounded.initial : ContextBounded MergePartialSubgraphContext.initial :=
  ⟨by simp [MergePartialSubgraphContext.initial, RegisterSet.empty, RegisterSet.Bounded],
    by simp [MergePartialSubgraphContext.initial], by simp [MergePartialSubgraphContext.initial]⟩

/-- `mp_merge` over well-formed results: a forest that holds every event of the workers'
vertices other than the placeholders. -/
theorem mpMerge_keeps {results : List WorkerResult} {context : MergePartialSubgraphContext}
    (wellFormed : ∀ result ∈ results, result.WellFormed) (merged : mpMerge results = .ok context) :
    MergedForest context.pgm ∧ ∀ result ∈ results, ∀ u < result.pgm.size, 33 ≤ u →
      EventsIn context.pgm (result.pgm.data u).events :=
  let ⟨forest, _, _, kept⟩ := MergePartialSubgraphContext.foldlM_step_keeps results _ _
    MergedForest.empty ContextBounded.initial wellFormed merged
  ⟨forest, kept⟩

/-- `mp_merge` through the `k`-th result: the steps before it, its own step, and the steps
after it. -/
theorem mpMerge_at {results : List WorkerResult} {final : MergePartialSubgraphContext} {k : Nat}
    {result : WorkerResult} (merged : mpMerge results = .ok final)
    (current : results[k]? = some result) :
    ∃ context context',
      (results.take k).foldlM MergePartialSubgraphContext.step .initial = .ok context ∧
      context.step result = .ok context' ∧
      (results.drop (k + 1)).foldlM MergePartialSubgraphContext.step context' = .ok final := by
  obtain ⟨bound, found⟩ := List.getElem?_eq_some_iff.mp current
  rw [mpMerge, ← List.take_append_drop k results, List.drop_eq_getElem_cons bound, found,
    List.foldlM_append] at merged
  obtain ⟨context, before, rest⟩ := Except.bind_eq_ok.mp merged
  rw [List.foldlM_cons] at rest
  obtain ⟨context', stepped, after⟩ := Except.bind_eq_ok.mp rest
  exact ⟨context, context', before, stepped, after⟩

/-- The steps of `mp_merge` before the `k`-th worker result leave a forest whose handles are
bounded, and that result has the shape the merge relies on. -/
theorem mpMerge_prefix {windows : List (List Record)} {results : List WorkerResult} {k : Nat}
    {context : MergePartialSubgraphContext} {result : WorkerResult}
    (workers : runWorkers 0 windows = .ok results)
    (merged : (results.take k).foldlM MergePartialSubgraphContext.step .initial = .ok context)
    (current : results[k]? = some result) :
    MergedForest context.pgm ∧ ContextBounded context ∧ result.WellFormed :=
  have wellFormed := runWorkers_wellFormed workers
  let ⟨forest, bounded, _⟩ := MergePartialSubgraphContext.foldlM_step_keeps _ _ _
    MergedForest.empty ContextBounded.initial
    (fun result member => wellFormed result (List.mem_of_mem_take member)) merged
  ⟨forest, bounded, wellFormed result (List.getElem?_mem current)⟩

/-- The windowed build merges the worker subgraphs into a forest of derivations: no
placeholder, at most one in-edge per vertex, exactly one for a vertex other than a ROOT, and
every edge from an older vertex to a younger one. -/
theorem build_mergedForest {windows : List (List Record)} {context : MergePartialSubgraphContext}
    (built : build windows = .ok context) : MergedForest context.pgm :=
  let ⟨_, workers, merged⟩ := Except.bind_eq_ok.mp built
  (mpMerge_keeps (runWorkers_wellFormed workers) merged).1

/-- `$c3` narrowed from `kcc` in the first window and narrowed again in the second. -/
def narrowingWindows : List (List Record) :=
  [[Record.getKcc 1 2, Record.narrow 2 3 2], [Record.narrow 3 4 3]]

def narrowingContext : MergePartialSubgraphContext :=
  (build narrowingWindows).toOption.getD .initial

theorem build_mergedForest_narrowing :
    build narrowingWindows = .ok narrowingContext ∧ MergedForest narrowingContext.pgm :=
  have built : build narrowingWindows = .ok narrowingContext := by rfl
  ⟨built, build_mergedForest built⟩

end Cheriplot.Provenance
