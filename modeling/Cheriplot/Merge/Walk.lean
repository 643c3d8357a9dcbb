import Cheriplot.Merge.Invariant

namespace Cheriplot.Provenance

/-! # One vertex of the merge walk

`examine_vertex(u)` keeps `MergeInv` and resolves `u`.  Each source function gets one lemma:
the copy of `_merge_subgraph_vertex` and `_merge_initial_mem_vertex`, the placeholder cases
`_merge_trace_beginning`, `_merge_initial_vertex_to_none` and `_merge_initial_vertex_to_prev`
with its suppression loop, and the fix-ups `_merge_pcc_fixup` and `_merge_syscall`, which
change only the previous register set and the subgraph's logs.
-/

theorem initialRegset_holds (u : Nat) : initialRegset.holds u = decide (u < 33) := by
  rw [Bool.eq_iff_iff]
  simp only [RegisterSet.holds, initialRegset, Bool.or_eq_true, List.any_eq_true,
    List.mem_finRange, true_and, beq_iff_eq, Option.some.injEq, decide_eq_true_eq]
  constructor
  · rintro (⟨idx, rfl⟩ | rfl) <;> omega
  · intro low
    by_cases last : u = 32
    · exact .inr last.symm
    · exact .inl ⟨⟨u, by omega⟩, rfl⟩

/-- What the merge needs of a worker result: the subgraph has the shape `_do_parse` gives it
and the initial register set holds the 33 placeholders. -/
structure WorkerResult.WellFormed (result : WorkerResult) : Prop where
  shape : SubgraphShape result.pgm
  initial : result.initialRegset = Provenance.initialRegset

/-- Every vertex handle the context passes to the next step is a vertex of the merged
graph. -/
structure ContextBounded (context : MergePartialSubgraphContext) : Prop where
  regset : context.prevRegset.Bounded context.pgm.size
  vmap : ∀ entry ∈ context.prevVmap, entry.2 < context.pgm.size
  savedPcc : ∀ v, context.prevPccFixup.savedPcc = some v → v < context.pgm.size

namespace MergePartialSubgraph

variable {context : MergePartialSubgraphContext} {result : WorkerResult}
  {transform transform' : MergePartialSubgraph}

theorem coalesceRoot_eq_ok {rootData : NodeData} {mergedRoot v : Nat}
    (coalesced : transform.coalesceRoot rootData mergedRoot v = .ok transform') :
    checkCapCompatible rootData (transform.subgraph.data v) = .ok true ∧
      transform' = ((transform.mergePartialVertexData (transform.subgraph.data v)
        mergedRoot).setCopy v mergedRoot).setOmit v := by
  obtain ⟨compatible, checked, result⟩ := Except.bind_eq_ok.mp coalesced
  split at result
  · cases result
  · rename_i agreed
    exact ⟨checked.trans (by simpa using agreed), (Except.ok.inj result).symm⟩

/-- One child in the loop of `_merge_initial_vertex_to_prev`: a ROOT gives its events to `v`
and, if it agrees with it, is suppressed. -/
theorem suppressRoot_eq_ok {u v uOut : Nat} {vData : NodeData}
    (suppressed : transform.suppressRoot u v vData uOut = .ok transform') :
    (transform.subgraph.data uOut).origin ≠ .root ∧ transform' = transform ∨
      (transform.subgraph.data uOut).origin = .root ∧
        (transform' = transform.mergePartialVertexData (transform.subgraph.data uOut) v ∨
          checkCapCompatible (transform.subgraph.data uOut) vData = .ok true ∧ transform' =
            { (transform.mergePartialVertexData (transform.subgraph.data uOut) v).setOmit uOut with
              subgraph := (transform.subgraph.outNeighbours uOut).foldl
                (fun subgraph w => subgraph.addEdge u w) transform.subgraph }) := by
  unfold suppressRoot at suppressed
  dsimp only at suppressed
  split_ifs at suppressed with notRoot
  · exact .inl ⟨notRoot, (Except.ok.inj suppressed).symm⟩
  obtain ⟨compatible, checked, result⟩ := Except.bind_eq_ok.mp suppressed
  refine .inr ⟨not_not.mp notRoot, ?_⟩
  split at result
  · exact .inr ⟨checked.trans (by simp_all), (Except.ok.inj result).symm⟩
  · exact .inl (Except.ok.inj result).symm

theorem mergePccFixup_eq_ok {u : Nat}
    (fixed : transform.mergePccFixup context result u = .ok transform') :
    transform' = transform ∨ ∃ idx, transform' =
      { transform with
        previousRegset := { transform.previousRegset with
          regNodes := Function.update transform.previousRegset.regNodes idx
            context.prevPccFixup.savedPcc } } := by
  unfold mergePccFixup at fixed
  repeat' split at fixed
  all_goals first
    | exact .inl (Except.ok.inj fixed).symm
    | exact .inr ⟨_, (Except.ok.inj fixed).symm⟩
    | cases fixed

/-- `_merge_syscall(u)` at most adds an event to the subgraph's log of `u`. -/
theorem mergeSyscall_eq (context : MergePartialSubgraphContext) (result : WorkerResult)
    (u : Nat) :
    transform.mergeSyscall context result u = transform ∨ ∃ time code,
      transform.mergeSyscall context result u =
        { transform with
          subgraph := transform.subgraph.modifyData u (·.addUseSyscall time code false) } := by
  unfold mergeSyscall
  repeat' split
  all_goals first | exact .inl rfl | exact .inr ⟨_, _, rfl⟩

/-- `_merge_initial_mem_vertex(u)` copies `u`, or fuses it into the vertex the previous window
left at one of its addresses after the capability check. -/
theorem mergeInitialMemVertex_eq_ok {u : Nat}
    (merged : transform.mergeInitialMemVertex context result u = .ok transform') :
    transform' = transform.mergeSubgraphVertex u ∨
      ∃ v, (∃ addr, context.prevVmap.get? addr = some v) ∧
        checkCapCompatible (transform.subgraph.data u) (transform.graph.data v) = .ok true ∧
        transform' =
          (transform.setCopy u v).mergePartialVertexData (transform.subgraph.data u) v := by
  unfold mergeInitialMemVertex at merged
  split at merged
  · exact .inl (Except.ok.inj merged).symm
  rename_i v found
  obtain ⟨addr, -, stored⟩ := Option.bind_eq_some.mp found
  obtain ⟨compatible, checked, agreed⟩ := Except.bind_eq_ok.mp merged
  split at agreed
  · cases agreed
  rename_i fine
  exact .inr ⟨v, ⟨addr, stored⟩, checked.trans (by simpa using fine), (Except.ok.inj agreed).symm⟩

/-- `_merge_trace_beginning(u)`: with no ROOT child, `u` must have no child at all; otherwise
the further ROOT children are coalesced into a new vertex with the data of the first. -/
theorem mergeTraceBeginning_eq_ok {u : Nat}
    (merged : transform.mergeTraceBeginning u = .ok transform') :
    (transform.subgraph.outNeighbours u).filter
        (fun w => (transform.subgraph.data w).origin ≠ .root) = [] ∧ transform' = transform ∨
      ∃ first rest coalesced,
        (transform.subgraph.outNeighbours u).filter
          (fun w => (transform.subgraph.data w).origin = .root) = first :: rest ∧
        rest.foldlM (fun step v => step.coalesceRoot (transform.subgraph.data first)
            transform.graph.size v)
          (({ transform with
              graph := (transform.graph.addVertex (transform.subgraph.data first)).1 }
            |>.setCopy first transform.graph.size).setOmit first) = .ok coalesced ∧
        transform' = if ((transform.subgraph.outNeighbours u).filter
            (fun w => (transform.subgraph.data w).origin ≠ .root)).isEmpty then coalesced
          else coalesced.setCopy u transform.graph.size := by
  unfold mergeTraceBeginning at merged
  dsimp only at merged
  split at merged
  · split_ifs at merged with noOther
    exact .inl ⟨List.isEmpty_iff.mp noOther, (Except.ok.inj merged).symm⟩
  rename_i first rest roots
  obtain ⟨coalesced, ran, final⟩ := Except.bind_eq_ok.mp merged
  exact .inr ⟨first, rest, coalesced, roots, ran, (Except.ok.inj final).symm⟩

/-- `_merge_initial_vertex_to_none(u)` changes nothing, and passes only if every child of `u`
is a ROOT. -/
theorem mergeInitialVertexToNone_eq_ok {u : Nat}
    (merged : transform.mergeInitialVertexToNone u = .ok transform') :
    transform' = transform ∧
      ∀ w ∈ transform.subgraph.outNeighbours u, (transform.subgraph.data w).origin = .root := by
  unfold mergeInitialVertexToNone at merged
  split_ifs at merged with derefs other
  exact ⟨(Except.ok.inj merged).symm, fun w child => by
    simpa using List.any_eq_false.mp (Bool.eq_false_iff.mpr other) w child⟩

/-- `_merge_initial_vertex(u)`: the trace beginning at the first step; afterwards the vertex
the previous register set holds in the slot of `u`, if any. -/
theorem mergeInitialVertex_eq_ok {u : Nat}
    (merged : transform.mergeInitialVertex context result u = .ok transform') :
    transform.mergeTraceBeginning u = .ok transform' ∨
      transform.mergeInitialVertexToNone u = .ok transform' ∨
      ∃ v, ((∃ idx, transform.previousRegset.regNodes idx = some v) ∨
          transform.previousRegset.pcc = some v) ∧
        transform.mergeInitialVertexToPrev u v = .ok transform' := by
  unfold mergeInitialVertex at merged
  split_ifs at merged
  · exact .inl merged
  dsimp only at merged
  split at merged
  · exact .inr (.inl merged)
  rename_i v found
  refine .inr (.inr ⟨v, ?_, merged⟩)
  split at found
  · exact .inl ⟨_, found⟩
  · exact .inr found

/-- What `examine_vertex(u)` does: nothing for an omitted vertex; at the first step, the
placeholder case or a copy; at a later step, the `pcc` and syscall fix-ups and then the
placeholder case, the `initial_map` case or a copy. -/
theorem examineVertex_eq_ok {u : Nat} (initial : result.initialRegset = initialRegset)
    (examined : transform.examineVertex context result u = .ok transform') :
    transform.omitVertexMap u = true ∧ transform' = transform ∨
      transform.omitVertexMap u = false ∧ context.stepIdx = 0 ∧
        (if decide (u < 33) = true then transform.mergeInitialVertex context result u
          else .ok (transform.mergeSubgraphVertex u)) = .ok transform' ∨
      transform.omitVertexMap u = false ∧ ∃ fixed synced,
        (fixed = transform ∨ transform.mergePccFixup context result u = .ok fixed) ∧
        (synced = fixed ∨ synced = fixed.mergeSyscall context result u) ∧
        (if decide (u < 33) = true then synced.mergeInitialVertex context result u
          else if u ∈ result.memVertexMap.initialMap.values then
            synced.mergeInitialMemVertex context result u
          else .ok (synced.mergeSubgraphVertex u)) = .ok transform' := by
  unfold examineVertex at examined
  rw [initial, initialRegset_holds] at examined
  by_cases omitted : transform.omitVertexMap u = true
  · rw [if_pos omitted] at examined
    exact .inl ⟨omitted, (Except.ok.inj examined).symm⟩
  rw [if_neg omitted] at examined
  have notOmitted := Bool.eq_false_iff.mpr omitted
  by_cases stepZero : context.stepIdx = 0
  · rw [if_pos stepZero] at examined
    exact .inr (.inl ⟨notOmitted, stepZero, examined⟩)
  rw [if_neg stepZero] at examined
  dsimp only at examined
  obtain ⟨fixed, prepared, rest⟩ := Except.bind_eq_ok.mp examined
  refine .inr (.inr ⟨notOmitted, fixed, _, ?_, by split <;> simp, rest⟩)
  split at prepared
  · exact .inr prepared
  · exact .inl (Except.ok.inj prepared).symm

end MergePartialSubgraph

namespace MergeCore

variable {worker base : Graph} {bound : Nat} {transform : MergePartialSubgraph}

theorem withRegset (core : MergeCore worker base bound transform) {regset : RegisterSet}
    (bounded : regset.Bounded transform.graph.size) :
    MergeCore worker base bound { transform with previousRegset := regset } ∧
      Extends transform { transform with previousRegset := regset } :=
  ⟨{ core with regsetBound := bounded }, ⟨LogsGrow.refl _, fun _ => id, fun _ => id⟩⟩

/-- An event added to the subgraph's log of `u`. -/
theorem addSubgraphEvent (core : MergeCore worker base bound transform) (u : Nat)
    (event : Event) :
    MergeCore worker base bound
        { transform with subgraph := transform.subgraph.modifyData u (·.addEvent event) } ∧
      Extends transform
        { transform with subgraph := transform.subgraph.modifyData u (·.addEvent event) } := by
  refine ⟨{ core with
    origin := fun v => ?_
    logs := fun v => ?_
    outNeighbours := by simpa using core.outNeighbours
    parents := by simpa [Parents] using core.parents }, ⟨LogsGrow.refl _, fun _ => id, fun _ => id⟩⟩
  all_goals simp only [Graph.modifyData_data]; split
  · subst v; simpa using core.origin u
  · exact core.origin v
  · subst v; simpa using (core.logs u).trans (List.prefix_append _ _)
  · exact core.logs v

/-- `_merge_initial_vertex_to_prev(u, v)` never raises "ROOT attached to multiple partial nodes"
on the subgraph the walk has changed: the walk adds in-edges only to children of a suppressed
ROOT, and a ROOT child of placeholder `u` has `u`, which is never omitted, as its one parent.
Only the capability check can fail, with an `AttributeError`. -/
theorem suppressRoot_ne_subgraphMerge (core : MergeCore worker base bound transform)
    (shape : SubgraphShape worker) {u r v : Nat} {vData : NodeData} (uLow : u < 33)
    (child : r ∈ worker.outNeighbours u) :
    transform.suppressRoot u v vData r ≠ .error .subgraphMerge := by
  unfold MergePartialSubgraph.suppressRoot MergePartialSubgraph.checkCapCompatible
  dsimp only
  split_ifs with notRoot multiple
  · simp
  · refine absurd ?_ multiple
    have parent := shape.inNeighbours_root_child child (core.origin r ▸ not_not.mp notRoot)
    rcases core.parents r with ⟨same, -⟩ | ⟨r', p, parent', -, omitted, -, -⟩
    · rw [same, parent]; rfl
    · rw [parent, List.singleton_inj] at parent'
      rw [← parent', core.placeholder_notOmitted uLow] at omitted; contradiction
  · split <;> simp only [bind, Except.bind]
    · split <;> simp
    · simp

end MergeCore

namespace MergeInv

variable {worker base : Graph} {done : Nat} {transform transform' : MergePartialSubgraph}
  {context : MergePartialSubgraphContext} {result : WorkerResult}

theorem of_core (inv : MergeInv worker base done transform)
    (core : MergeCore worker base done transform') (ext : Extends transform transform') :
    MergeInv worker base done transform' :=
  ⟨core, fun n low => (inv.resolved n low).mono ext⟩

/-- Once `done` is resolved, the invariant holds up to `done + 1`. -/
theorem next (inv : MergeInv worker base done transform)
    (core : MergeCore worker base (done + 1) transform') (ext : Extends transform transform')
    (resolved : Resolved worker transform' done) :
    MergeInv worker base (done + 1) transform' ∧ Extends transform transform' :=
  ⟨⟨core, fun n below => (Nat.lt_succ_iff_lt_or_eq.mp below).elim
    (fun below => (inv.resolved n below).mono ext) (· ▸ resolved)⟩, ext⟩

/-- The children of the vertex being examined are not omitted yet. -/
theorem child_notOmitted (inv : MergeInv worker base done transform) {c : Nat}
    (child : c ∈ worker.outNeighbours done) : transform.omitVertexMap c = false := by
  refine Bool.eq_false_iff.mpr fun omitted => ?_
  obtain ⟨-, ⟨p, below, parent⟩, -⟩ := inv.core.omitted c omitted
  have member : done ∈ worker.inNeighbours c :=
    worker.mem_inNeighbours.mpr (worker.mem_outNeighbours.mp child)
  simp [parent] at member
  omega

/-- The copies `_merge_subgraph_vertex(done)` hangs the new vertex under: at most one, and one
unless `done` is a ROOT. -/
theorem copies_length (inv : MergeInv worker base done transform) (shape : SubgraphShape worker)
    (high : 33 ≤ done) (bound : done < worker.size) :
    ((transform.subgraph.inNeighbours done).filterMap transform.copyVertexMap).length ≤ 1 ∧
      ((worker.data done).origin ≠ .root →
        ((transform.subgraph.inNeighbours done).filterMap transform.copyVertexMap).length = 1) := by
  rcases inv.core.parents done with ⟨same, omittedCopied⟩ | ⟨r, p, -, added, -, none, copied⟩
  · rw [same]
    refine ⟨?_, fun derived => ?_⟩
    · by_cases root : (worker.data done).origin = .root
      · exact (List.length_filterMap_le _ _).trans (shape.root_in done bound root).1
      · exact (shape.derived_in done bound high root).le.trans' (List.length_filterMap_le _ _)
    obtain ⟨q, single⟩ := List.length_eq_one.mp (shape.derived_in done bound high derived)
    have member : q ∈ worker.inNeighbours done := by simp [single]
    have low := shape.inNeighbours_lt member
    have copied : (transform.copyVertexMap q).isSome := by
      by_cases qHigh : 33 ≤ q
      · cases omitted : transform.omitVertexMap q
        · exact (inv.resolved q low).copied qHigh omitted
        · exact omittedCopied q member omitted
      · refine ((inv.resolved q low).placeholder (by omega)).resolve_right fun roots => derived ?_
        exact roots done (worker.mem_outNeighbours.mpr (worker.mem_inNeighbours.mp member))
    obtain ⟨v, found⟩ := Option.isSome_iff_exists.mp copied
    simp [single, found]
  · obtain ⟨v, found⟩ := Option.isSome_iff_exists.mp copied
    simp [added, none, found]

/-- `_merge_subgraph_vertex(done)` for a vertex that is not a placeholder. -/
theorem mergeSubgraphVertex (inv : MergeInv worker base done transform)
    (shape : SubgraphShape worker) (high : 33 ≤ done) (bound : done < worker.size)
    (notOmitted : transform.omitVertexMap done = false) :
    MergeInv worker base (done + 1) (transform.mergeSubgraphVertex done) ∧
      Extends transform (transform.mergeSubgraphVertex done) := by
  open MergePartialSubgraph in
  have noCopy : transform.copyVertexMap done = none := by
    by_contra copied
    have := inv.core.fresh done le_rfl (Option.ne_none_iff_isSome.mp copied)
    rw [notOmitted] at this; contradiction
  have notSelf : done ∉ transform.subgraph.inNeighbours done := by
    rcases inv.core.parents done with ⟨same, -⟩ | ⟨r, p, parent, added, -, -, copied⟩
    · rw [same]; exact fun member => Nat.lt_irrefl _ (shape.inNeighbours_lt member)
    · have : r < done := shape.inNeighbours_lt (by simp [parent])
      have : p ≠ done := fun same => by simp [same, noCopy] at copied
      simp [added]; omega
  have sources : (transform.subgraph.inNeighbours done).filterMap
      (Function.update transform.copyVertexMap done (some transform.graph.size)) =
      (transform.subgraph.inNeighbours done).filterMap transform.copyVertexMap :=
    List.filterMap_congr fun n member =>
      Function.update_noteq (ne_of_mem_of_not_mem member notSelf) _ _
  obtain ⟨single, derived⟩ := inv.copies_length shape high bound
  have origin := inv.core.origin done
  have notPartial : (transform.subgraph.data done).origin ≠ .partialMarker := fun isPartial => by
    have := (shape.partial_iff done bound).mp (origin ▸ isPartial); omega
  have forest := inv.core.forest.addVertex notPartial _ single
    (fun notRoot => derived (origin ▸ notRoot)) fun source member =>
      let ⟨n, _, copied⟩ := List.mem_filterMap.mp member
      inv.core.copyBound n source copied
  rw [← sources, ← mergeSubgraphVertex_graph] at forest
  have grows : LogsGrow transform.graph (transform.mergeSubgraphVertex done).graph := by
    rw [mergeSubgraphVertex_graph]
    exact (LogsGrow.addVertex _ (transform.subgraph.data done)).trans
      (LogsGrow.of_edges (by simp) (by simp))
  obtain ⟨core, ext⟩ := (inv.core.weaken (Nat.le_succ done)).withGraph forest grows
  obtain ⟨core, ext'⟩ := core.setCopy (u := done) (v := transform.graph.size) (by omega)
    (by simp [notOmitted]) (by simp [mergeSubgraphVertex_graph])
  rw [← mergeSubgraphVertex_eq] at core ext'
  refine inv.next core (ext.trans ext') ⟨fun _ _ => by simp, fun low => by omega, fun _ => ?_⟩
  refine EventsIn.of_vertex (v := transform.graph.size) (by rw [mergeSubgraphVertex_graph]; simp)
    fun event member => ?_
  rw [mergeSubgraphVertex_graph]
  simpa [Graph.addVertex_data] using (inv.core.logs done).subset member

/-- `_merge_initial_mem_vertex(done)`: fused into the vertex the previous window left at its
address, or copied. -/
theorem mergeInitialMemVertex (inv : MergeInv worker base done transform)
    (shape : SubgraphShape worker) {context : MergePartialSubgraphContext}
    {result : WorkerResult} (vmap : ∀ entry ∈ context.prevVmap, entry.2 < base.size)
    (high : 33 ≤ done) (bound : done < worker.size)
    (notOmitted : transform.omitVertexMap done = false)
    (merged : transform.mergeInitialMemVertex context result done = .ok transform') :
    MergeInv worker base (done + 1) transform' ∧ Extends transform transform' := by
  rcases MergePartialSubgraph.mergeInitialMemVertex_eq_ok merged with
    rfl | ⟨v, ⟨addr, stored⟩, -, rfl⟩
  · exact inv.mergeSubgraphVertex shape high bound notOmitted
  have vBound : v < transform.graph.size :=
    (vmap _ (AddrMap.mem_of_get? stored)).trans_le inv.core.grows.size
  obtain ⟨core, ext⟩ := (inv.core.weaken (Nat.le_succ done)).setCopy (u := done) (by omega)
    (by simp [notOmitted]) vBound
  obtain ⟨core, ext'⟩ := core.mergePartialVertexData (transform.subgraph.data done) v
  exact inv.next core (ext.trans ext') ⟨fun _ _ => by simp, fun low => by omega,
    fun _ event member => ⟨v, by simpa using vBound, by
      simpa [Graph.modifyData_data] using .inr ((inv.core.logs done).subset member)⟩⟩

/-- `_merge_initial_vertex_to_none(done)` changes nothing, and succeeds only if every child of
the placeholder is a ROOT. -/
theorem mergeInitialVertexToNone (inv : MergeInv worker base done transform) (low : done < 33)
    (merged : transform.mergeInitialVertexToNone done = .ok transform') :
    MergeInv worker base (done + 1) transform' ∧ Extends transform transform' := by
  obtain ⟨rfl, roots⟩ := MergePartialSubgraph.mergeInitialVertexToNone_eq_ok merged
  refine inv.next (inv.core.weaken (Nat.le_succ done)) (Extends.refl _)
    (.ofPlaceholder low (.inr fun c child => ?_))
  rw [← inv.core.outNeighbours done (.inr le_rfl)] at child
  simpa [inv.core.origin] using roots c child

/-- The loop of `_merge_initial_vertex_to_prev(u, v)` over the children of `u`: each ROOT
child still to come is not omitted and comes once. -/
theorem suppressLoop (shape : SubgraphShape worker) {u v : Nat} {vData : NodeData}
    (uLow : u < 33) :
    ∀ (rest : List Nat) (transform transform' : MergePartialSubgraph),
      MergeCore worker base (u + 1) transform → (transform.copyVertexMap u).isSome →
      v < transform.graph.size → (∀ r ∈ rest, r ∈ worker.outNeighbours u) →
      (∀ r ∈ rest, (worker.data r).origin = .root →
        transform.omitVertexMap r = false ∧ rest.count r = 1) →
      rest.foldlM (fun transform uOut => transform.suppressRoot u v vData uOut) transform =
        .ok transform' →
      MergeCore worker base (u + 1) transform' ∧ Extends transform transform'
  | [], _, _, core, _, _, _, _, ran => by cases ran; exact ⟨core, Extends.refl _⟩
  | r :: rest, transform, transform', core, uCopied, vBound, children, roots, ran => by
      rw [List.foldlM_cons] at ran
      obtain ⟨transform₁, step, ran⟩ := Except.bind_eq_ok.mp ran
      have child := children r (.head _)
      have later : ∀ r' ∈ rest, (worker.data r').origin = .root → r' ≠ r → rest.count r' = 1 :=
        fun r' member root other => by
          simpa [List.count_cons, Ne.symm other] using (roots r' (.tail _ member) root).2
      have notAgain : (worker.data r).origin = .root → r ∉ rest := fun root member => by
        have := (roots r (.head _) root).2
        simp [List.count_cons] at this
        exact List.count_eq_zero.mp this member
      have next (core₁ : MergeCore worker base (u + 1) transform₁)
          (ext : Extends transform transform₁)
          (omits : ∀ r' ∈ rest, (worker.data r').origin = .root →
            transform₁.omitVertexMap r' = transform.omitVertexMap r') :=
        let ⟨core', ext'⟩ := suppressLoop shape uLow rest transform₁ transform' core₁
          (ext.copy u uCopied) (vBound.trans_le ext.graph.size)
          (fun r' member => children r' (.tail _ member))
          (fun r' member root => by
            have other : r' ≠ r := fun same => notAgain (same ▸ root) (same ▸ member)
            exact ⟨(omits r' member root).trans (roots r' (.tail _ member) root).1,
              later r' member root other⟩) ran
        And.intro core' (ext.trans ext')
      rcases MergePartialSubgraph.suppressRoot_eq_ok step with
        ⟨notRoot, rfl⟩ | ⟨root, rfl | ⟨-, rfl⟩⟩
      · exact next core (Extends.refl _) fun _ _ _ => rfl
      · obtain ⟨core₁, ext⟩ := core.mergePartialVertexData (transform.subgraph.data r) v
        exact next core₁ ext fun _ _ _ => rfl
      · rw [core.origin] at root
        obtain ⟨merged, ext⟩ := core.mergePartialVertexData (transform.subgraph.data r) v
        have edge := worker.mem_outNeighbours.mp child
        have noCopy : transform.copyVertexMap r = none := by
          by_contra copied
          have := core.fresh r (shape.ordered _ edge).1 (Option.ne_none_iff_isSome.mp copied)
          rw [(roots r (.head _) root).1] at this; contradiction
        obtain ⟨core₁, ext'⟩ := merged.suppress shape uLow (Nat.lt_succ_self u)
          (shape.inNeighbours_root_child child root) (roots r (.head _) root).1 noCopy uCopied
          ((EventsIn.appendEvents vBound).of_subset fun _ member => (core.logs r).subset member)
        exact next core₁ (ext.trans ext') fun r' member root' => by
          have other : r' ≠ r := fun same => notAgain root (same ▸ member)
          simp [Function.update_noteq other]

/-- `_merge_initial_vertex_to_prev(done, v)`: the placeholder takes the place of `v`. -/
theorem mergeInitialVertexToPrev (inv : MergeInv worker base done transform)
    (shape : SubgraphShape worker) (low : done < 33) {v : Nat}
    (vBound : v < transform.graph.size)
    (merged : transform.mergeInitialVertexToPrev done v = .ok transform') :
    MergeInv worker base (done + 1) transform' ∧ Extends transform transform' := by
  unfold MergePartialSubgraph.mergeInitialVertexToPrev at merged
  simp only [MergePartialSubgraph.mergePartialVertexData_subgraph,
    MergePartialSubgraph.setCopy_subgraph, inv.core.outNeighbours done (.inr le_rfl)] at merged
  obtain ⟨core, ext⟩ := (inv.core.weaken (Nat.le_succ done)).setCopy (u := done) (by omega)
    (by simp [inv.core.placeholder_notOmitted low]) vBound
  obtain ⟨core, ext'⟩ := core.mergePartialVertexData (transform.subgraph.data done) v
  have unomitted : ∀ r ∈ worker.outNeighbours done, (worker.data r).origin = .root →
      transform.omitVertexMap r = false ∧ (worker.outNeighbours done).count r = 1 :=
    fun r child root => ⟨inv.child_notOmitted child, by
      rw [Graph.count_outNeighbours, shape.inNeighbours_root_child child root]; simp⟩
  obtain ⟨core, ext''⟩ := suppressLoop shape low _ _ _ core (by simp) (by simpa using vBound)
    (fun _ => id) (fun r child root => by simpa using unomitted r child root) merged
  exact inv.next core (ext.trans (ext'.trans ext''))
    (.ofPlaceholder low (.inl (ext''.copy done (ext'.copy done (by simp)))))

/-- The loop of `_merge_trace_beginning(u)` over the further ROOT children of `u`, fused into
the merged root `m`. -/
theorem coalesceLoop (shape : SubgraphShape worker) {u m : Nat} {rootData : NodeData} :
    ∀ (rest : List Nat) (transform transform' : MergePartialSubgraph),
      MergeCore worker base (u + 1) transform → m < transform.graph.size →
      (∀ r ∈ rest, r ∈ worker.outNeighbours u ∧ (worker.data r).origin = .root) →
      (∀ c ∈ worker.outNeighbours u, transform.omitVertexMap c = true →
        (transform.copyVertexMap c).isSome) →
      rest.foldlM (fun transform v => transform.coalesceRoot rootData m v) transform =
        .ok transform' →
      MergeCore worker base (u + 1) transform' ∧ Extends transform transform'
  | [], _, _, core, _, _, _, ran => by cases ran; exact ⟨core, Extends.refl _⟩
  | r :: rest, transform, transform', core, mBound, roots, coalesced, ran => by
      rw [List.foldlM_cons] at ran
      obtain ⟨transform₁, step, ran⟩ := Except.bind_eq_ok.mp ran
      obtain ⟨-, rfl⟩ := MergePartialSubgraph.coalesceRoot_eq_ok step
      obtain ⟨child, root⟩ := roots r (.head _)
      obtain ⟨merged, ext⟩ := core.mergePartialVertexData (transform.subgraph.data r) m
      obtain ⟨core₁, ext'⟩ := merged.coalesce (r := r) (m := m)
        (shape.target _ (worker.mem_outNeighbours.mp child))
        ⟨u, Nat.lt_succ_self u, shape.inNeighbours_root_child child root⟩
        ((EventsIn.appendEvents mBound).of_subset fun _ member => (core.logs r).subset member)
        (by simpa using coalesced r child) (by simpa using mBound)
      obtain ⟨core', ext''⟩ := coalesceLoop shape rest _ transform' core₁ (by simpa using mBound)
        (fun r' member => roots r' (.tail _ member)) (fun c child' omitted => by
          by_cases same : c = r
          · simp [same]
          · simp only [MergePartialSubgraph.setOmit_omitVertexMap,
              MergePartialSubgraph.setOmit_copyVertexMap,
              MergePartialSubgraph.setCopy_copyVertexMap, Function.update_noteq same,
              MergePartialSubgraph.mergePartialVertexData_omitVertexMap,
              MergePartialSubgraph.mergePartialVertexData_copyVertexMap] at omitted ⊢
            exact coalesced c child' omitted) ran
      exact ⟨core', ext.trans (ext'.trans ext'')⟩

/-- `_merge_trace_beginning(done)`: the ROOT children of the placeholder become one new
vertex, which the placeholder's other children hang under. -/
theorem mergeTraceBeginning (inv : MergeInv worker base done transform)
    (shape : SubgraphShape worker) (low : done < 33)
    (merged : transform.mergeTraceBeginning done = .ok transform') :
    MergeInv worker base (done + 1) transform' ∧ Extends transform transform' := by
  have outs := inv.core.outNeighbours done (.inr le_rfl)
  rcases MergePartialSubgraph.mergeTraceBeginning_eq_ok merged with
    ⟨noOther, rfl⟩ | ⟨first, rest, coalesced, roots, ran, rfl⟩
  · exact inv.next (inv.core.weaken (Nat.le_succ done)) (Extends.refl _)
      (.ofPlaceholder low (.inr (by simpa [outs, inv.core.origin] using noOther)))
  have rootChild : ∀ r ∈ first :: rest,
      r ∈ worker.outNeighbours done ∧ (worker.data r).origin = .root := fun r member => by
    simpa [← roots, outs, inv.core.origin] using member
  obtain ⟨child, root⟩ := rootChild first (.head _)
  have notPartial : (transform.subgraph.data first).origin ≠ .partialMarker := by
    simp [inv.core.origin, root]
  have forest := inv.core.forest.addVertex notPartial [] (by simp) (by simp [inv.core.origin, root])
    (by simp)
  obtain ⟨core, ext⟩ := (inv.core.weaken (Nat.le_succ done)).withGraph forest
    (LogsGrow.addVertex _ _)
  obtain ⟨core, ext'⟩ := core.coalesce (r := first) (m := transform.graph.size)
    (shape.target _ (worker.mem_outNeighbours.mp child))
    ⟨done, Nat.lt_succ_self done, shape.inNeighbours_root_child child root⟩
    (EventsIn.of_vertex (v := transform.graph.size) (by simp) fun _ member => by
      simpa [Graph.addVertex_data] using (inv.core.logs first).subset member)
    (by simp [inv.child_notOmitted child]) (by simp)
  obtain ⟨core, ext''⟩ := coalesceLoop shape rest _ coalesced core (by simp)
    (fun r member => rootChild r (.tail _ member)) (fun c child' omitted => by
      by_cases same : c = first
      · simp [same]
      · simp [Function.update_noteq same, inv.child_notOmitted child'] at omitted) ran
  have ext := ext.trans (ext'.trans ext'')
  split
  · rename_i noOther
    exact inv.next core ext
      (.ofPlaceholder low (.inr (by simpa [outs, inv.core.origin] using noOther)))
  · have mBound : transform.graph.size < coalesced.graph.size :=
      Nat.lt_of_lt_of_le (by simp) (ext'.graph.size.trans ext''.graph.size)
    obtain ⟨core, extLast⟩ := core.setCopy (u := done) (by omega)
      (by simp [core.placeholder_notOmitted low]) mBound
    exact inv.next core (ext.trans extLast) (.ofPlaceholder low (.inl (by simp)))

/-- `_merge_initial_vertex(done)` for a placeholder. -/
theorem mergeInitialVertex (inv : MergeInv worker base done transform)
    (shape : SubgraphShape worker) {context : MergePartialSubgraphContext}
    {result : WorkerResult} (low : done < 33)
    (merged : transform.mergeInitialVertex context result done = .ok transform') :
    MergeInv worker base (done + 1) transform' ∧ Extends transform transform' := by
  rcases MergePartialSubgraph.mergeInitialVertex_eq_ok merged with
    merged | merged | ⟨v, held | held, merged⟩
  · exact inv.mergeTraceBeginning shape low merged
  · exact inv.mergeInitialVertexToNone low merged
  · obtain ⟨idx, held⟩ := held
    exact inv.mergeInitialVertexToPrev shape low (inv.core.regsetBound.1 _ _ held) merged
  · exact inv.mergeInitialVertexToPrev shape low (inv.core.regsetBound.2 _ held) merged

/-- `_merge_pcc_fixup(done)` may rewrite one slot of the previous register set, with the
saved `pcc` of the previous step. -/
theorem mergePccFixup (inv : MergeInv worker base done transform)
    {context : MergePartialSubgraphContext} {result : WorkerResult} {u : Nat}
    (savedPcc : ∀ v, context.prevPccFixup.savedPcc = some v → v < base.size)
    (fixed : transform.mergePccFixup context result u = .ok transform') :
    MergeInv worker base done transform' ∧ Extends transform transform' ∧
      transform'.omitVertexMap = transform.omitVertexMap := by
  rcases MergePartialSubgraph.mergePccFixup_eq_ok fixed with rfl | ⟨idx, rfl⟩
  · exact ⟨inv, Extends.refl _, rfl⟩
  have bounded : RegisterSet.Bounded
      { transform.previousRegset with
        regNodes := Function.update transform.previousRegset.regNodes idx
          context.prevPccFixup.savedPcc } transform.graph.size := by
    refine ⟨fun idx' v held => ?_, inv.core.regsetBound.2⟩
    dsimp only at held
    rw [Function.update_apply] at held
    split at held
    · exact (savedPcc v held).trans_le inv.core.grows.size
    · exact inv.core.regsetBound.1 _ _ held
  obtain ⟨core, ext⟩ := inv.core.withRegset bounded
  exact ⟨inv.of_core core ext, ext, rfl⟩

/-- `_merge_syscall(u)` at most adds an event to the subgraph. -/
theorem mergeSyscall (inv : MergeInv worker base done transform)
    (context : MergePartialSubgraphContext) (result : WorkerResult) (u : Nat) :
    MergeInv worker base done (transform.mergeSyscall context result u) ∧
      Extends transform (transform.mergeSyscall context result u) ∧
      (transform.mergeSyscall context result u).omitVertexMap = transform.omitVertexMap := by
  rcases MergePartialSubgraph.mergeSyscall_eq context result u with
    same | ⟨time, code, same⟩ <;> rw [same]
  · exact ⟨inv, Extends.refl _, rfl⟩
  · obtain ⟨core, ext⟩ := inv.core.addSubgraphEvent u ⟨time, code, .useSyscallRet, false⟩
    exact ⟨inv.of_core core ext, ext, rfl⟩

/-- The end of `examine_vertex(done)` after the first step: a placeholder, a vertex of
`initial_map`, or a copy. -/
theorem resolveVertex (inv : MergeInv worker context.pgm done transform)
    (shape : SubgraphShape worker) (bounded : ContextBounded context) (bound : done < worker.size)
    (notOmitted : transform.omitVertexMap done = false)
    (last : (if decide (done < 33) = true then transform.mergeInitialVertex context result done
      else if done ∈ result.memVertexMap.initialMap.values then
        transform.mergeInitialMemVertex context result done
      else .ok (transform.mergeSubgraphVertex done)) = .ok transform') :
    MergeInv worker context.pgm (done + 1) transform' ∧ Extends transform transform' := by
  by_cases low : done < 33
  · rw [if_pos (decide_eq_true low)] at last
    exact inv.mergeInitialVertex shape low last
  rw [if_neg (by simpa using low)] at last
  split_ifs at last
  · exact inv.mergeInitialMemVertex shape bounded.vmap (by omega) bound notOmitted last
  · cases last
    exact inv.mergeSubgraphVertex shape (by omega) bound notOmitted

/-- `examine_vertex(done)` resolves `done` and keeps the invariant. -/
theorem examineVertex (inv : MergeInv worker context.pgm done transform)
    (wellFormed : result.WellFormed) (bounded : ContextBounded context)
    (worker_eq : result.pgm = worker) (bound : done < worker.size)
    (examined : transform.examineVertex context result done = .ok transform') :
    MergeInv worker context.pgm (done + 1) transform' ∧ Extends transform transform' := by
  have shape : SubgraphShape worker := worker_eq ▸ wellFormed.shape
  rcases MergePartialSubgraph.examineVertex_eq_ok wellFormed.initial examined with
    ⟨omitted, rfl⟩ | ⟨notOmitted, -, last⟩ | ⟨notOmitted, fixed, synced, prepared, syncedEq, last⟩
  · obtain ⟨high, -, kept⟩ := inv.core.omitted done omitted
    exact inv.next (inv.core.weaken (Nat.le_succ done)) (Extends.refl _)
      ⟨fun _ notOmitted => by simp_all, fun low => by omega, fun _ => kept⟩
  · split_ifs at last with low
    · exact inv.mergeInitialVertex shape (of_decide_eq_true low) last
    · cases last
      exact inv.mergeSubgraphVertex shape (by simpa using low) bound notOmitted
  obtain ⟨inv₁, ext₁, omits₁⟩ : MergeInv worker context.pgm done fixed ∧ Extends transform fixed ∧
      fixed.omitVertexMap = transform.omitVertexMap := by
    rcases prepared with rfl | prepared
    · exact ⟨inv, Extends.refl _, rfl⟩
    · exact inv.mergePccFixup bounded.savedPcc prepared
  obtain ⟨inv₂, ext₂, omits₂⟩ : MergeInv worker context.pgm done synced ∧ Extends fixed synced ∧
      synced.omitVertexMap = fixed.omitVertexMap := by
    rcases syncedEq with rfl | rfl
    · exact ⟨inv₁, Extends.refl _, rfl⟩
    · exact inv₁.mergeSyscall context result done
  exact (inv₂.resolveVertex shape bounded bound (by rw [omits₂, omits₁]; exact notOmitted)
    last).imp_right (ext₁.trans ext₂).trans

end MergeInv

end Cheriplot.Provenance
