import Cheriplot.Merge.Correctness

namespace Cheriplot.Provenance

/-! # The merge fuses only agreeing capabilities

A merge step fuses a worker vertex into a merged vertex on three paths: a further ROOT child of
a placeholder at the trace beginning is coalesced into the vertex made for the first one, a
ROOT child of a placeholder is suppressed into the previous window's vertex of that
placeholder, and a vertex of `initial_map` is mapped to the vertex the previous window left at
its address.  Each path calls `_check_cap_compatible` first.  `FusionInv` says what that buys
over the walk: every copy of a vertex other than a placeholder, and every suppressed ROOT,
points at a merged vertex whose capability agrees with the worker's on base, length,
permissions and object type.
-/

/-- The fields `_check_cap_compatible` compares. -/
def NodeData.capKey (data : NodeData) : Option (Nat × Nat × Nat × Nat) :=
  data.cap.map fun cap => (cap.base, cap.length, cap.permissions, cap.objtype)

theorem NodeData.capKey_congr {data data' : NodeData} (same : data.cap = data'.cap) :
    data.capKey = data'.capKey := by
  rw [NodeData.capKey, same, NodeData.capKey]

/-- Changing the events of a vertex keeps every capability. -/
theorem Graph.modifyData_cap {graph : Graph} {f : NodeData → NodeData}
    (keeps : ∀ data, (f data).cap = data.cap) (vertex other : Nat) :
    ((graph.modifyData vertex f).data other).cap = (graph.data other).cap := by
  rw [Graph.modifyData_data]
  split
  · subst other; exact keeps _
  · rfl

/-- A property that every step of an `Except` loop keeps holds at its end. -/
theorem foldlM_keeps {α β ε : Type} {f : β → α → Except ε β} (P : β → Prop) :
    ∀ {xs : List α} {init final : β}, (∀ x ∈ xs, ∀ b b', P b → f b x = .ok b' → P b') →
      P init → xs.foldlM f init = .ok final → P final
  | [], _, _, _, held, ran => by cases ran; exact held
  | x :: _, _, _, step, held, ran => by
      rw [List.foldlM_cons] at ran
      obtain ⟨mid, first, rest⟩ := Except.bind_eq_ok.mp ran
      exact foldlM_keeps P (fun y member => step y (.tail _ member))
        (step x (.head _) _ mid held first) rest

namespace MergePartialSubgraph

variable {transform : MergePartialSubgraph}

/-- `_check_cap_compatible` passes only for capabilities that agree on the fields it
compares. -/
theorem checkCapCompatible_capKey {uData vData : NodeData}
    (checked : checkCapCompatible uData vData = .ok true) : uData.capKey = vData.capKey := by
  unfold checkCapCompatible at checked
  split at checked
  · rename_i u v uCap vCap
    obtain ⟨base, length, perms, objtype⟩ := of_decide_eq_true (Except.ok.inj checked)
    simp [NodeData.capKey, uCap, vCap, base, length, perms, objtype]
  · cases checked

theorem mergePartialVertexData_cap (data : NodeData) (v w : Nat) :
    ((transform.mergePartialVertexData data v).graph.data w).cap = (transform.graph.data w).cap :=
  Graph.modifyData_cap (f := fun vData => { vData with events := vData.events ++ data.events })
    (fun _ => rfl) v w

theorem mergePartialVertexData_capKey (data : NodeData) (v w : Nat) :
    ((transform.mergePartialVertexData data v).graph.data w).capKey =
      (transform.graph.data w).capKey :=
  NodeData.capKey_congr (mergePartialVertexData_cap data v w)

/-- `_merge_partial_vertex_data` keeps every capability and every logged event. -/
theorem mergePartialVertexData_cap_mem (data : NodeData) (v w : Nat) :
    ((transform.mergePartialVertexData data v).graph.data w).cap = (transform.graph.data w).cap ∧
      ∀ event ∈ (transform.graph.data w).events,
        event ∈ ((transform.mergePartialVertexData data v).graph.data w).events := by
  refine ⟨mergePartialVertexData_cap data v w, fun event member => ?_⟩
  rw [mergePartialVertexData_graph, Graph.modifyData_data]
  split
  · subst w; simp [member]
  · exact member

theorem mem_mergePartialVertexData {data : NodeData} {event : Event} (v : Nat)
    (member : event ∈ data.events) :
    event ∈ ((transform.mergePartialVertexData data v).graph.data v).events := by
  simp [Graph.modifyData_data, member]

end MergePartialSubgraph

/-- Worker vertex `u` fused into merged vertex `v`: their capabilities agree on the fields
`_check_cap_compatible` compares, and the log of `v` holds every event of `u`. -/
structure Fused (worker graph : Graph) (u v : Nat) : Prop where
  capKey : (worker.data u).capKey = (graph.data v).capKey
  events : ∀ event ∈ (worker.data u).events, event ∈ (graph.data v).events

/-- A later graph that keeps the capability of `v` and its log. -/
theorem Fused.mono {worker graph graph' : Graph} {u v : Nat} (fused : Fused worker graph u v)
    (keeps : (graph'.data v).cap = (graph.data v).cap ∧
      ∀ event ∈ (graph.data v).events, event ∈ (graph'.data v).events) :
    Fused worker graph' u v :=
  ⟨fused.capKey.trans (NodeData.capKey_congr keeps.1).symm,
    fun event member => keeps.2 event (fused.events event member)⟩

/-- What the walk keeps about fusion once the vertices below `bound` are examined: the subgraph
keeps the worker's capabilities, a vertex other than a placeholder is copied only to a merged
vertex it is `Fused` into, and a ROOT omitted without a copy is `Fused` into the merged vertex
of its placeholder parent. -/
structure FusionInv (worker : Graph) (bound : Nat) (transform : MergePartialSubgraph) :
    Prop where
  cap : ∀ v, (transform.subgraph.data v).cap = (worker.data v).cap
  copied : ∀ u v, 33 ≤ u → transform.copyVertexMap u = some v → Fused worker transform.graph u v
  suppressed : ∀ u, transform.omitVertexMap u = true → transform.copyVertexMap u = none →
    ∃ p < bound, worker.inNeighbours u = [p] ∧ ∃ v, transform.copyVertexMap p = some v ∧
      Fused worker transform.graph u v

namespace FusionInv

open MergePartialSubgraph

variable {worker base : Graph} {bound done : Nat} {transform transform' : MergePartialSubgraph}

/-- The capability `_check_cap_compatible` reads for a vertex of the subgraph is the
worker's. -/
theorem capKey (fusion : FusionInv worker bound transform) (u : Nat) :
    (worker.data u).capKey = (transform.subgraph.data u).capKey :=
  NodeData.capKey_congr (fusion.cap u).symm

theorem weaken (fusion : FusionInv worker bound transform) {bound' : Nat} (le : bound ≤ bound') :
    FusionInv worker bound' transform :=
  { fusion with
    suppressed := fun u omitted none =>
      let ⟨p, low, rest⟩ := fusion.suppressed u omitted none
      ⟨p, low.trans_le le, rest⟩ }

/-- A new merged graph that keeps the capabilities and logs of the vertices the copies point
to. -/
theorem withGraph (fusion : FusionInv worker bound transform) {graph : Graph}
    (keeps : ∀ n v, transform.copyVertexMap n = some v →
      (graph.data v).cap = (transform.graph.data v).cap ∧
        ∀ event ∈ (transform.graph.data v).events, event ∈ (graph.data v).events) :
    FusionInv worker bound { transform with graph } :=
  { fusion with
    copied := fun u v high copied => (fusion.copied u v high copied).mono (keeps u v copied)
    suppressed := fun u omitted none =>
      let ⟨p, low, parent, v, copied, fused⟩ := fusion.suppressed u omitted none
      ⟨p, low, parent, v, copied, fused.mono (keeps p v copied)⟩ }

/-- `_merge_partial_vertex_data(u_data, v_data)` only appends to a log. -/
theorem mergePartialVertexData (fusion : FusionInv worker bound transform) (data : NodeData)
    (v : Nat) : FusionInv worker bound (transform.mergePartialVertexData data v) :=
  fusion.withGraph fun _ w _ => mergePartialVertexData_cap_mem data v w

/-- `copy_vertex_map[u] = v` for a vertex not examined yet, or being examined, which is fused
into `v` unless it is a placeholder. -/
theorem setCopy (fusion : FusionInv worker bound transform) {u v : Nat} (fresh : bound ≤ u)
    (fused : 33 ≤ u → Fused worker transform.graph u v) :
    FusionInv worker bound (transform.setCopy u v) := by
  refine { fusion with copied := fun n w high copied => ?_, suppressed := fun n omitted none => ?_ }
  · simp only [setCopy_copyVertexMap, Function.update_apply] at copied
    split at copied
    · subst n; cases copied; exact fused high
    · exact fusion.copied n w high copied
  · have other : n ≠ u := by rintro rfl; simp at none
    simp only [setCopy_omitVertexMap, setCopy_copyVertexMap, Function.update_noteq other]
      at omitted none
    obtain ⟨p, low, parent, w, copied, fused⟩ := fusion.suppressed n omitted none
    have differ : p ≠ u := by omega
    exact ⟨p, low, parent, w, by simp [Function.update_noteq differ, copied], fused⟩

/-- `omit_vertex_map[u] = True` for a vertex that has a copy. -/
theorem setOmit (fusion : FusionInv worker bound transform) {u : Nat}
    (copied : (transform.copyVertexMap u).isSome) :
    FusionInv worker bound (transform.setOmit u) := by
  refine { fusion with suppressed := fun n omitted none => ?_ }
  have other : n ≠ u := by rintro rfl; simp_all
  simp only [setOmit_omitVertexMap, setOmit_copyVertexMap, Function.update_noteq other]
    at omitted none
  exact fusion.suppressed n omitted none

/-- The ROOT child `r` of placeholder `u` suppressed into `v`, the merged vertex of `u`, into
which it is fused; its children are hung under `u`. -/
theorem suppress (fusion : FusionInv worker bound transform) {u r v : Nat} (low : u < bound)
    (parent : worker.inNeighbours r = [u]) (uCopied : transform.copyVertexMap u = some v)
    (fused : Fused worker transform.graph r v) (children : List Nat) :
    FusionInv worker bound { transform.setOmit r with
      subgraph := children.foldl (fun subgraph w => subgraph.addEdge u w) transform.subgraph } := by
  refine ⟨by simpa using fusion.cap, fusion.copied, fun n omitted none => ?_⟩
  by_cases same : n = r
  · subst same; exact ⟨u, low, parent, v, uCopied, fused⟩
  · simp only [setOmit_omitVertexMap, Function.update_noteq same] at omitted
    exact fusion.suppressed n omitted none

/-- `_merge_pcc_fixup(u)` changes only the previous register set. -/
theorem mergePccFixup (fusion : FusionInv worker bound transform)
    {context : MergePartialSubgraphContext} {result : WorkerResult} {u : Nat}
    (fixed : transform.mergePccFixup context result u = .ok transform') :
    FusionInv worker bound transform' := by
  rcases mergePccFixup_eq_ok fixed with rfl | ⟨idx, rfl⟩
  exacts [fusion, ⟨fusion.cap, fusion.copied, fusion.suppressed⟩]

/-- `_merge_syscall(u)` adds at most an event to the subgraph. -/
theorem mergeSyscall (fusion : FusionInv worker bound transform)
    (context : MergePartialSubgraphContext) (result : WorkerResult) (u : Nat) :
    FusionInv worker bound (transform.mergeSyscall context result u) := by
  rcases mergeSyscall_eq context result u with same | ⟨time, code, same⟩ <;> rw [same]
  · exact fusion
  · exact { fusion with
      cap := fun w => (Graph.modifyData_cap (f := (·.addUseSyscall time code false))
        (fun _ => rfl) u w).trans (fusion.cap w) }

/-- `_merge_subgraph_vertex(done)`: a copy of `done` with its own data. -/
theorem mergeSubgraphVertex (fusion : FusionInv worker done transform)
    (core : MergeCore worker base done transform) :
    FusionInv worker done (transform.mergeSubgraphVertex done) := by
  rw [mergeSubgraphVertex_eq]
  refine (fusion.withGraph fun n v copied => ?_).setCopy le_rfl fun _ => ⟨?_, fun event member => ?_⟩
  · have old := core.copyBound n v copied
    rw [mergeSubgraphVertex_graph]
    simp [Graph.addVertex_data, Nat.ne_of_lt old]
  · rw [fusion.capKey, mergeSubgraphVertex_graph]
    simp [Graph.addVertex_data]
  · rw [mergeSubgraphVertex_graph]
    simpa [Graph.addVertex_data] using (core.logs done).subset member

/-- `_merge_initial_mem_vertex(done)`: fused into the vertex the previous window left at its
address only when they agree, or copied. -/
theorem mergeInitialMemVertex (fusion : FusionInv worker done transform)
    (core : MergeCore worker base done transform) {context : MergePartialSubgraphContext}
    {result : WorkerResult}
    (merged : transform.mergeInitialMemVertex context result done = .ok transform') :
    FusionInv worker done transform' := by
  rcases mergeInitialMemVertex_eq_ok merged with rfl | ⟨v, -, checked, rfl⟩
  · exact fusion.mergeSubgraphVertex core
  show FusionInv worker done
    ((transform.mergePartialVertexData (transform.subgraph.data done) v).setCopy done v)
  refine (fusion.mergePartialVertexData _ v).setCopy le_rfl fun _ =>
    ⟨?_, fun event member => mem_mergePartialVertexData v ((core.logs done).subset member)⟩
  rw [mergePartialVertexData_capKey]
  exact (fusion.capKey done).trans (checkCapCompatible_capKey checked)

/-- `_merge_initial_vertex_to_prev(done, v)`: the placeholder is copied to `v`, and each ROOT
child it suppresses is fused into `v`. -/
theorem mergeInitialVertexToPrev (fusion : FusionInv worker done transform)
    (core : MergeCore worker base done transform) (shape : SubgraphShape worker) (low : done < 33)
    {v : Nat} (merged : transform.mergeInitialVertexToPrev done v = .ok transform') :
    FusionInv worker (done + 1) transform' := by
  unfold MergePartialSubgraph.mergeInitialVertexToPrev at merged
  simp only [mergePartialVertexData_subgraph, setCopy_subgraph, setCopy_graph,
    core.outNeighbours done (.inr le_rfl)] at merged
  refine (foldlM_keeps (fun step => FusionInv worker (done + 1) step ∧
      step.copyVertexMap done = some v ∧
      (step.graph.data v).capKey = (transform.graph.data v).capKey ∧
      step.subgraph.data = transform.subgraph.data)
    (fun r child step step' ⟨fusion, copied, target, data⟩ suppressed => ?_) ⟨?_, ?_, ?_, ?_⟩
    merged).1
  · rcases suppressRoot_eq_ok suppressed with ⟨-, rfl⟩ | ⟨root, rfl | ⟨checked, rfl⟩⟩
    · exact ⟨fusion, copied, target, data⟩
    · exact ⟨fusion.mergePartialVertexData _ _, copied,
        (mergePartialVertexData_capKey _ v v).trans target, data⟩
    · rw [data, core.origin] at root
      refine ⟨(fusion.mergePartialVertexData _ _).suppress (Nat.lt_succ_self done)
        (shape.inNeighbours_root_child child root) copied ⟨?_, fun event member => ?_⟩ _, copied,
        (mergePartialVertexData_capKey _ v v).trans target, by simpa using data⟩
      · calc (worker.data r).capKey = (step.subgraph.data r).capKey := fusion.capKey r
          _ = (transform.graph.data v).capKey := checkCapCompatible_capKey checked
          _ = _ := target.symm.trans (mergePartialVertexData_capKey _ v v).symm
      · exact mem_mergePartialVertexData v (data ▸ (core.logs r).subset member)
  · exact ((fusion.setCopy le_rfl fun high => by omega).weaken
      (Nat.le_succ done)).mergePartialVertexData _ _
  · simp
  · exact mergePartialVertexData_capKey _ v v
  · rfl

/-- `_merge_trace_beginning(done)`: every ROOT child of the placeholder is copied to the vertex
made for the first one, and the further ones only when they agree with it. -/
theorem mergeTraceBeginning (fusion : FusionInv worker done transform)
    (core : MergeCore worker base done transform) (shape : SubgraphShape worker) (low : done < 33)
    (merged : transform.mergeTraceBeginning done = .ok transform') :
    FusionInv worker (done + 1) transform' := by
  rcases mergeTraceBeginning_eq_ok merged with ⟨-, rfl⟩ | ⟨first, rest, coalesced, roots, ran, rfl⟩
  · exact fusion.weaken (Nat.le_succ done)
  have later : ∀ r ∈ first :: rest, done ≤ r := fun r member => by
    have child : r ∈ transform.subgraph.outNeighbours done :=
      (List.mem_filter.mp (roots ▸ member)).1
    rw [core.outNeighbours done (.inr le_rfl)] at child
    exact (shape.ordered _ (worker.mem_outNeighbours.mp child)).1.le
  have coalescedFusion := (foldlM_keeps (fun step => FusionInv worker done step ∧
      (step.graph.data transform.graph.size).capKey = (transform.subgraph.data first).capKey ∧
      step.subgraph = transform.subgraph)
    (fun r member step step' ⟨fusion, target, subgraph⟩ coalescedRoot => ?_) ⟨?_, ?_, ?_⟩ ran).1
  · split
    · exact coalescedFusion.weaken (Nat.le_succ done)
    · exact (coalescedFusion.setCopy le_rfl fun high => by omega).weaken (Nat.le_succ done)
  · obtain ⟨checked, rfl⟩ := coalesceRoot_eq_ok coalescedRoot
    have agrees : (worker.data r).capKey = (step.graph.data transform.graph.size).capKey :=
      calc (worker.data r).capKey = (step.subgraph.data r).capKey := fusion.capKey r
        _ = _ := (checkCapCompatible_capKey checked).symm.trans target.symm
    refine ⟨((fusion.mergePartialVertexData _ _).setCopy (later r (.tail _ member)) fun _ =>
      ⟨agrees.trans (mergePartialVertexData_capKey _ _ _).symm, fun event logged => ?_⟩).setOmit
        (by simp), (mergePartialVertexData_capKey _ _ _).trans target, subgraph⟩
    exact mem_mergePartialVertexData _ (subgraph ▸ (core.logs r).subset logged)
  · refine ((fusion.withGraph fun n v copied => ?_).setCopy (later first (.head _))
      fun _ => ⟨?_, fun event member => ?_⟩).setOmit (by simp)
    · simp [Graph.addVertex_data, Nat.ne_of_lt (core.copyBound n v copied)]
    · rw [fusion.capKey]; simp [Graph.addVertex_data]
    · simpa [Graph.addVertex_data] using (core.logs first).subset member
  · simp [Graph.addVertex_data]
  · rfl

/-- `_merge_initial_vertex(done)` for a placeholder. -/
theorem mergeInitialVertex (fusion : FusionInv worker done transform)
    (core : MergeCore worker base done transform) (shape : SubgraphShape worker) (low : done < 33)
    {context : MergePartialSubgraphContext} {result : WorkerResult}
    (merged : transform.mergeInitialVertex context result done = .ok transform') :
    FusionInv worker (done + 1) transform' := by
  rcases mergeInitialVertex_eq_ok merged with merged | merged | ⟨v, -, merged⟩
  · exact fusion.mergeTraceBeginning core shape low merged
  · obtain ⟨rfl, -⟩ := mergeInitialVertexToNone_eq_ok merged
    exact fusion.weaken (Nat.le_succ done)
  · exact fusion.mergeInitialVertexToPrev core shape low merged

/-- The end of `examine_vertex(done)` after the first step. -/
theorem resolveVertex (fusion : FusionInv worker done transform)
    (core : MergeCore worker base done transform) (shape : SubgraphShape worker)
    {context : MergePartialSubgraphContext} {result : WorkerResult}
    (last : (if decide (done < 33) = true then transform.mergeInitialVertex context result done
      else if done ∈ result.memVertexMap.initialMap.values then
        transform.mergeInitialMemVertex context result done
      else .ok (transform.mergeSubgraphVertex done)) = .ok transform') :
    FusionInv worker (done + 1) transform' := by
  split_ifs at last with low
  · exact fusion.mergeInitialVertex core shape (of_decide_eq_true low) last
  · exact (fusion.mergeInitialMemVertex core last).weaken (Nat.le_succ done)
  · cases last
    exact (fusion.mergeSubgraphVertex core).weaken (Nat.le_succ done)

/-- `examine_vertex(done)` keeps the fusion invariant. -/
theorem examineVertex (fusion : FusionInv worker done transform)
    {context : MergePartialSubgraphContext} {result : WorkerResult}
    (inv : MergeInv worker context.pgm done transform) (wellFormed : result.WellFormed)
    (bounded : ContextBounded context) (worker_eq : result.pgm = worker)
    (examined : transform.examineVertex context result done = .ok transform') :
    FusionInv worker (done + 1) transform' := by
  have shape : SubgraphShape worker := worker_eq ▸ wellFormed.shape
  rcases examineVertex_eq_ok wellFormed.initial examined with
    ⟨-, rfl⟩ | ⟨-, -, last⟩ | ⟨-, fixed, synced, prepared, syncedEq, last⟩
  · exact fusion.weaken (Nat.le_succ done)
  · split_ifs at last with low
    · exact fusion.mergeInitialVertex inv.core shape (of_decide_eq_true low) last
    · cases last
      exact (fusion.mergeSubgraphVertex inv.core).weaken (Nat.le_succ done)
  obtain ⟨inv₁, fusion₁⟩ : MergeInv worker context.pgm done fixed ∧
      FusionInv worker done fixed := by
    rcases prepared with rfl | prepared
    · exact ⟨inv, fusion⟩
    · exact ⟨(inv.mergePccFixup bounded.savedPcc prepared).1, fusion.mergePccFixup prepared⟩
  rcases syncedEq with rfl | rfl
  · exact fusion₁.resolveVertex inv₁.core shape last
  · exact (fusion₁.mergeSyscall context result done).resolveVertex
      (inv₁.mergeSyscall context result done).1.core shape last

/-- The transform a merge step starts from copies and omits nothing. -/
theorem initial (context : MergePartialSubgraphContext) (result : WorkerResult) :
    FusionInv result.pgm 0
      { graph := context.pgm, subgraph := result.pgm, copyVertexMap := fun _ => none,
        omitVertexMap := fun _ => false, previousRegset := context.prevRegset } :=
  ⟨fun _ => rfl, by simp, by simp⟩

/-- `bfs_transform` over the first `n` vertices keeps the fusion invariant. -/
theorem walk {context : MergePartialSubgraphContext} {result : WorkerResult}
    (wellFormed : result.WellFormed) (bounded : ContextBounded context)
    (worker_eq : result.pgm = worker) {transform₀ : MergePartialSubgraph}
    (init : MergeInv worker context.pgm 0 transform₀) (fusion₀ : FusionInv worker 0 transform₀) :
    ∀ n, n ≤ worker.size → ∀ transform,
      (List.range n).foldlM (fun transform u => transform.examineVertex context result u)
        transform₀ = .ok transform → FusionInv worker n transform
  | 0, _, _, ran => by cases ran; exact fusion₀
  | n + 1, le, transform, ran => by
      rw [List.range_succ, List.foldlM_append] at ran
      obtain ⟨middle, ranMiddle, last⟩ := Except.bind_eq_ok.mp ran
      simp only [List.foldlM_cons, List.foldlM_nil, bind_pure] at last
      exact (walk wellFormed bounded worker_eq init fusion₀ n (by omega) middle
        ranMiddle).examineVertex (MergeInv.walk wellFormed bounded worker_eq init n (by omega) middle ranMiddle).1
        wellFormed bounded worker_eq last

end FusionInv

/-- Where the merge put worker vertex `p`: its copy, or, for a ROOT omitted without a copy,
the copy of its placeholder parent. -/
def Image (worker : Graph) (transform : MergePartialSubgraph) (p vp : Nat) : Prop :=
  transform.copyVertexMap p = some vp ∨
    transform.omitVertexMap p = true ∧ transform.copyVertexMap p = none ∧
      ∃ q, worker.inNeighbours p = [q] ∧ transform.copyVertexMap q = some vp

/-- Once the walk is over, a vertex other than a placeholder is fused into its image. -/
theorem FusionInv.image {worker base : Graph} {transform : MergePartialSubgraph}
    (fusion : FusionInv worker worker.size transform)
    (inv : MergeInv worker base worker.size transform) {u : Nat} (bound : u < worker.size)
    (high : 33 ≤ u) :
    ∃ vu, Image worker transform u vu ∧ vu < transform.graph.size ∧
      Fused worker transform.graph u vu := by
  cases copied : transform.copyVertexMap u with
  | some vu =>
      exact ⟨vu, .inl copied, inv.core.copyBound u vu copied, fusion.copied u vu high copied⟩
  | none =>
      cases omitted : transform.omitVertexMap u
      · simpa [copied] using (inv.resolved u bound).copied high omitted
      · obtain ⟨p, -, parent, vu, parentCopied, fused⟩ := fusion.suppressed u omitted copied
        exact ⟨vu, .inr ⟨omitted, copied, p, parent, parentCopied⟩,
          inv.core.copyBound p vu parentCopied, fused⟩

/-- `finalize()` passes the merged graph on as it is. -/
theorem MergePartialSubgraph.finalize_pgm {transform : MergePartialSubgraph}
    {context context' : MergePartialSubgraphContext} {result : WorkerResult}
    (finalized : transform.finalize context result = .ok context') :
    context'.pgm = transform.graph := by
  obtain ⟨_, -, rest⟩ := Except.bind_eq_ok.mp finalized
  obtain ⟨_, -, rest⟩ := Except.bind_eq_ok.mp rest
  cases rest
  rfl

/-- The merge fuses only capabilities that agree.  In the step of `mp_merge` that merges the
`k`-th worker result, once the walk is over, a vertex other than a placeholder that has a copy
(its own, the vertex made for the first ROOT child of its placeholder at the trace beginning,
or the previous window's vertex at its address) has a merged vertex whose capability agrees
with its own on base, length, permissions and object type; and a ROOT omitted without a copy
is the only child of a placeholder whose merged vertex agrees with it.  A disagreement on any
path thus leaves the vertex unfused, or fails the step. -/
theorem build_fuses_agreeing {windows : List (List Record)} {results : List WorkerResult}
    {k : Nat} {context : MergePartialSubgraphContext} {result : WorkerResult}
    {transform : MergePartialSubgraph} (workers : runWorkers 0 windows = .ok results)
    (merged : (results.take k).foldlM MergePartialSubgraphContext.step .initial = .ok context)
    (current : results[k]? = some result)
    (walked : MergePartialSubgraph.bfsTransform context result
      { graph := context.pgm, subgraph := result.pgm, copyVertexMap := fun _ => none,
        omitVertexMap := fun _ => false, previousRegset := context.prevRegset } = .ok transform) :
    (∀ u v, 33 ≤ u → transform.copyVertexMap u = some v →
      v < transform.graph.size ∧ (result.pgm.data u).capKey = (transform.graph.data v).capKey) ∧
    ∀ u, transform.omitVertexMap u = true → transform.copyVertexMap u = none →
      ∃ p v, result.pgm.inNeighbours u = [p] ∧ transform.copyVertexMap p = some v ∧
        v < transform.graph.size ∧ (result.pgm.data u).capKey = (transform.graph.data v).capKey := by
  obtain ⟨forest, bounded, wellFormed⟩ := mpMerge_prefix workers merged current
  have init := MergeInv.initial forest bounded result
  obtain ⟨inv, -⟩ := MergeInv.walk wellFormed bounded rfl init _ le_rfl transform walked
  have fusion := FusionInv.walk wellFormed bounded rfl init (FusionInv.initial context result)
    _ le_rfl transform walked
  refine ⟨fun u v high copied =>
    ⟨inv.core.copyBound u v copied, (fusion.copied u v high copied).capKey⟩,
    fun u omitted none => ?_⟩
  obtain ⟨p, -, parent, v, copied, fused⟩ := fusion.suppressed u omitted none
  exact ⟨p, v, parent, copied, inv.core.copyBound p v copied, fused.capKey⟩

/-- `kcc` read into `$c2` in one window and into `$c1` in the next. -/
def kccWindows : List (List Record) := [[Record.getKcc 1 2], [Record.getKcc 2 1]]

def kccResults : List WorkerResult := (runWorkers 0 kccWindows).toOption.getD []

def kccContext : MergePartialSubgraphContext :=
  ((kccResults.take 1).foldlM MergePartialSubgraphContext.step .initial).toOption.getD .initial

def kccResult : WorkerResult := ((doParse 1 [Record.getKcc 2 1]).toOption.getD initialParser).mpResult .initial

def kccStart : MergePartialSubgraph :=
  { graph := kccContext.pgm, subgraph := kccResult.pgm, copyVertexMap := fun _ => none,
    omitVertexMap := fun _ => false, previousRegset := kccContext.prevRegset }

def kccTransform : MergePartialSubgraph :=
  (kccStart.bfsTransform kccContext kccResult).toOption.getD kccStart

/-- The ROOT of `kcc` in the second window, vertex 33, is suppressed into merged vertex 0, the
ROOT of `kcc` from the first window, without a copy of its own. -/
theorem build_fuses_agreeing_kcc :
    runWorkers 0 kccWindows = .ok kccResults ∧
    (kccResults.take 1).foldlM MergePartialSubgraphContext.step .initial = .ok kccContext ∧
    kccResults[1]? = some kccResult ∧
    kccStart.bfsTransform kccContext kccResult = .ok kccTransform ∧
    kccTransform.omitVertexMap 33 = true ∧ kccTransform.copyVertexMap 33 = none ∧
    ((∀ u v, 33 ≤ u → kccTransform.copyVertexMap u = some v →
      v < kccTransform.graph.size ∧
        (kccResult.pgm.data u).capKey = (kccTransform.graph.data v).capKey) ∧
    ∀ u, kccTransform.omitVertexMap u = true → kccTransform.copyVertexMap u = none →
      ∃ p v, kccResult.pgm.inNeighbours u = [p] ∧ kccTransform.copyVertexMap p = some v ∧
        v < kccTransform.graph.size ∧
          (kccResult.pgm.data u).capKey = (kccTransform.graph.data v).capKey) :=
  have workers : runWorkers 0 kccWindows = .ok kccResults := by rfl
  have merged : (kccResults.take 1).foldlM MergePartialSubgraphContext.step .initial =
      .ok kccContext := by rfl
  have current : kccResults[1]? = some kccResult := by rfl
  have walked : kccStart.bfsTransform kccContext kccResult = .ok kccTransform := by rfl
  ⟨workers, merged, current, walked, by rfl, by rfl,
    build_fuses_agreeing workers merged current walked⟩

/-- The merge keeps every event of a worker vertex other than a placeholder, at the vertex it
put that vertex.  For each worker result, the steps of `mp_merge` before it end in a context,
and its own step walks the subgraph to a transform.  Each vertex `u` other than a placeholder has
an `Image` there.  The image is the copy of `u`: its own vertex, the vertex made for the first
ROOT child of its placeholder at the trace beginning, or the previous window's vertex at its
address.  For a ROOT suppressed into the previous vertex of its placeholder, the image is that
placeholder's copy.  At the end of the merge, the log of the image holds every event of `u`. -/
theorem build_keeps_worker_events {windows : List (List Record)} {results : List WorkerResult}
    {final : MergePartialSubgraphContext} (workers : runWorkers 0 windows = .ok results)
    (merged : mpMerge results = .ok final) :
    ∀ k result, results[k]? = some result → ∃ context transform,
      (results.take k).foldlM MergePartialSubgraphContext.step .initial = .ok context ∧
      MergePartialSubgraph.bfsTransform context result
        { graph := context.pgm, subgraph := result.pgm, copyVertexMap := fun _ => none,
          omitVertexMap := fun _ => false, previousRegset := context.prevRegset } =
        .ok transform ∧
      ∀ u < result.pgm.size, 33 ≤ u → ∃ vu, Image result.pgm transform u vu ∧
        vu < final.pgm.size ∧ ∀ event ∈ (result.pgm.data u).events, event ∈ (final.pgm.data vu).events := by
  intro k result current
  obtain ⟨context, context', before, stepped, after⟩ := mpMerge_at merged current
  obtain ⟨forest, bounded, wellFormed⟩ := mpMerge_prefix workers before current
  obtain ⟨forest', bounded', -, -⟩ :=
    MergePartialSubgraphContext.step_keeps forest bounded wellFormed stepped
  obtain ⟨-, -, grows, -⟩ := MergePartialSubgraphContext.foldlM_step_keeps _ _ _ forest' bounded'
    (fun result member => runWorkers_wellFormed workers result (List.mem_of_mem_drop member)) after
  obtain ⟨transform, walked, finalized⟩ := Except.bind_eq_ok.mp stepped
  rw [MergePartialSubgraph.finalize_pgm finalized] at grows
  refine ⟨context, transform, before, walked, fun u bound high => ?_⟩
  have init := MergeInv.initial forest bounded result
  obtain ⟨inv, -⟩ := MergeInv.walk wellFormed bounded rfl init _ le_rfl transform walked
  obtain ⟨vu, image, vBound, fused⟩ := (FusionInv.walk wellFormed bounded rfl init
    (FusionInv.initial context result) _ le_rfl transform walked).image inv bound high
  exact ⟨vu, image, vBound.trans_le grows.size,
    fun event member => (grows.events vu vBound).subset (fused.events event member)⟩

/-- `kcc` read into `$c2` in one window; in the next, `kcc` read into `$c1` and a load through
`$c1`. -/
def suppressWindows : List (List Record) :=
  [[Record.getKcc 1 2], [Record.getKcc 2 1, Record.loadThrough 3 1]]

def suppressResults : List WorkerResult := (runWorkers 0 suppressWindows).toOption.getD []

def suppressContext : MergePartialSubgraphContext := (mpMerge suppressResults).toOption.getD .initial

theorem build_keeps_worker_events_suppressed :
    runWorkers 0 suppressWindows = .ok suppressResults ∧
    mpMerge suppressResults = .ok suppressContext ∧
    ∀ k result, suppressResults[k]? = some result → ∃ context transform,
      (suppressResults.take k).foldlM MergePartialSubgraphContext.step .initial = .ok context ∧
      MergePartialSubgraph.bfsTransform context result
        { graph := context.pgm, subgraph := result.pgm, copyVertexMap := fun _ => none,
          omitVertexMap := fun _ => false, previousRegset := context.prevRegset } =
        .ok transform ∧
      ∀ u < result.pgm.size, 33 ≤ u → ∃ vu, Image result.pgm transform u vu ∧
        vu < suppressContext.pgm.size ∧
        ∀ event ∈ (result.pgm.data u).events, event ∈ (suppressContext.pgm.data vu).events :=
  have workers : runWorkers 0 suppressWindows = .ok suppressResults := by rfl
  have merged : mpMerge suppressResults = .ok suppressContext := by rfl
  ⟨workers, merged, build_keeps_worker_events workers merged⟩

/-- A load through `$c2`, then `csetbounds $c3, $c2` and `csc $c2`. -/
def copiedPlaceholderWindow : List Record :=
  [Record.loadThrough 1 2, Record.narrow 2 3 2, Record.storeCap 3 2 sampleCap]

def copiedPlaceholderResult : WorkerResult :=
  ((doParse 0 copiedPlaceholderWindow).toOption.getD initialParser).mpResult .initial

def copiedPlaceholderStart : MergePartialSubgraph :=
  { graph := MergePartialSubgraphContext.initial.pgm, subgraph := copiedPlaceholderResult.pgm,
    copyVertexMap := fun _ => none, omitVertexMap := fun _ => false,
    previousRegset := MergePartialSubgraphContext.initial.prevRegset }

/-- The load logs a dereference on the placeholder of `$c2`; the store gives `$c2` a ROOT,
vertex 34, which hangs under that placeholder beside the derived vertex 33.  At the trace
beginning `_merge_trace_beginning` makes merged vertex 0 for the ROOT and copies the placeholder
to it, but it never merges the placeholder's own data: the dereference is in no merged log. -/
theorem build_drops_copied_placeholder_event :
    (doParse 0 copiedPlaceholderWindow).map (fun parser =>
      ((parser.pgm.data 2).events, parser.pgm.outNeighbours 2, (parser.pgm.data 34).origin)) =
      .ok ([⟨1, 4096, .derefLoad, false⟩], [33, 34], .root) ∧
    (copiedPlaceholderStart.bfsTransform .initial copiedPlaceholderResult).map
      (·.copyVertexMap 2) = .ok (some 0) ∧
    (build [copiedPlaceholderWindow]).map (fun context =>
      (List.range context.pgm.size).map fun v => (context.pgm.data v).events) =
      .ok [[⟨3, 8192, .memStore, false⟩], []] :=
  ⟨by rfl, by rfl, by rfl⟩

end Cheriplot.Provenance
