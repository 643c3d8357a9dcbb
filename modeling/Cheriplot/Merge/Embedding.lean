import Cheriplot.Merge.Fusion
import Cheriplot.Worker.InitialMap

namespace Cheriplot.Provenance

/-! # What the merge keeps of the merged graph and of the worker's

A merge step only adds to the merged graph: it adds vertices, adds edges into the vertices it
adds, and appends to logs.  So every vertex already merged keeps its capability, origin, `pc`,
kernel flag and parents for good (`Graph.Keeps`), over any number of steps.
-/

/-- `graph'` keeps every vertex of `graph`: its data but for the log, which only grows, and
its in-neighbours. -/
structure Graph.Keeps (graph graph' : Graph) : Prop where
  size : graph.size ≤ graph'.size
  data : ∀ v < graph.size, { graph'.data v with events := [] } = { graph.data v with events := [] }
  events : ∀ v < graph.size, (graph.data v).events <+: (graph'.data v).events
  inNeighbours : ∀ v < graph.size, graph'.inNeighbours v = graph.inNeighbours v

namespace Graph.Keeps

variable {graph graph' graph'' : Graph}

theorem refl (graph : Graph) : Graph.Keeps graph graph :=
  ⟨le_rfl, fun _ _ => rfl, fun _ _ => List.prefix_refl _, fun _ _ => rfl⟩

theorem trans (first : Graph.Keeps graph graph') (second : Graph.Keeps graph' graph'') :
    Graph.Keeps graph graph'' :=
  ⟨first.size.trans second.size,
    fun v bound => (second.data v (bound.trans_le first.size)).trans (first.data v bound),
    fun v bound => (first.events v bound).trans (second.events v (bound.trans_le first.size)),
    fun v bound => (second.inNeighbours v (bound.trans_le first.size)).trans
      (first.inNeighbours v bound)⟩

theorem addVertex (graph : Graph) (data : NodeData) : Graph.Keeps graph (graph.addVertex data).1 :=
  ⟨by simp, fun v bound => by simp [Graph.addVertex_data, Nat.ne_of_lt bound],
    fun v bound => by simp [Graph.addVertex_data, Nat.ne_of_lt bound], fun _ _ => rfl⟩

/-- A new vertex with its in-edges, as `_merge_subgraph_vertex` adds it. -/
theorem addVertexWithEdges (graph : Graph) (data : NodeData) (sources : List Nat) :
    Graph.Keeps graph
      (sources.foldl (fun graph' source => graph'.addEdge source graph.size)
        (graph.addVertex data).1) :=
  ⟨by simp, fun v bound => by simp [Graph.addVertex_data, Nat.ne_of_lt bound],
    fun v bound => by simp [Graph.addVertex_data, Nat.ne_of_lt bound],
    fun v bound => by simp [Nat.ne_of_gt bound]⟩

/-- `_merge_partial_vertex_data`: a whole log appended to the log of `v`. -/
theorem appendEvents (graph : Graph) (v : Nat) (events : List Event) :
    Graph.Keeps graph
      (graph.modifyData v fun data => { data with events := data.events ++ events }) := by
  refine ⟨by simp, fun w _ => ?_, fun w _ => ?_, fun _ _ => by simp⟩ <;>
    rw [Graph.modifyData_data] <;> split
  · subst w; rfl
  · rfl
  · subst w; exact List.prefix_append _ _
  · exact List.prefix_refl _

end Graph.Keeps

namespace MergePartialSubgraph

variable {context : MergePartialSubgraphContext} {result : WorkerResult}
  {transform transform' : MergePartialSubgraph}

theorem mergePartialVertexData_keeps (data : NodeData) (v : Nat) :
    Graph.Keeps transform.graph (transform.mergePartialVertexData data v).graph :=
  Graph.Keeps.appendEvents _ v _

theorem mergeSubgraphVertex_keeps (u : Nat) :
    Graph.Keeps transform.graph (transform.mergeSubgraphVertex u).graph := by
  rw [mergeSubgraphVertex_graph]
  exact Graph.Keeps.addVertexWithEdges _ _ _

theorem mergeSyscall_graph (u : Nat) :
    (transform.mergeSyscall context result u).graph = transform.graph := by
  rcases mergeSyscall_eq context result u with same | ⟨_, _, same⟩ <;> rw [same]

/-- `_merge_syscall(u)` changes nothing, or, when the previous window left a call open that
returns where the worker's recorded `eret` returns, logs that return on `u`. -/
theorem mergeSyscall_cases (context : MergePartialSubgraphContext) (result : WorkerResult)
    (u : Nat) :
    transform.mergeSyscall context result u = transform ∨ ∃ prev,
      context.prevSyscall = some prev ∧ prev.active = true ∧
      prev.pcEret = result.subSyscall.eretAddr ∧
      transform.mergeSyscall context result u =
        { transform with
          subgraph := transform.subgraph.modifyData u
            (·.addUseSyscall (result.subSyscall.eretTime.getD 0) (prev.code.getD 0) false) } := by
  unfold mergeSyscall
  split
  · next prev found =>
    split_ifs with closes
    · exact .inr ⟨prev, found, closes.1, closes.2, rfl⟩
    · exact .inl rfl
  · exact .inl rfl

theorem mergeInitialMemVertex_keeps {u : Nat}
    (merged : transform.mergeInitialMemVertex context result u = .ok transform') :
    Graph.Keeps transform.graph transform'.graph := by
  rcases mergeInitialMemVertex_eq_ok merged with rfl | ⟨v, -, -, rfl⟩
  · exact mergeSubgraphVertex_keeps u
  · exact mergePartialVertexData_keeps _ v

theorem mergeInitialVertexToPrev_keeps {u v : Nat}
    (merged : transform.mergeInitialVertexToPrev u v = .ok transform') :
    Graph.Keeps transform.graph transform'.graph := by
  unfold MergePartialSubgraph.mergeInitialVertexToPrev at merged
  refine foldlM_keeps (fun step => Graph.Keeps transform.graph step.graph)
    (fun r _ step step' kept suppressed => ?_) (mergePartialVertexData_keeps _ v) merged
  rcases suppressRoot_eq_ok suppressed with ⟨-, rfl⟩ | ⟨-, rfl | ⟨-, rfl⟩⟩
  · exact kept
  all_goals exact kept.trans (mergePartialVertexData_keeps _ v)

theorem mergeTraceBeginning_keeps {u : Nat}
    (merged : transform.mergeTraceBeginning u = .ok transform') :
    Graph.Keeps transform.graph transform'.graph := by
  rcases mergeTraceBeginning_eq_ok merged with ⟨-, rfl⟩ | ⟨first, rest, coalesced, -, ran, rfl⟩
  · exact Graph.Keeps.refl _
  have kept : Graph.Keeps transform.graph coalesced.graph :=
    foldlM_keeps (fun step => Graph.Keeps transform.graph step.graph)
      (fun r _ step step' kept coalescedRoot => by
        obtain ⟨-, rfl⟩ := coalesceRoot_eq_ok coalescedRoot
        exact kept.trans (mergePartialVertexData_keeps _ _))
      (Graph.Keeps.addVertex _ _) ran
  split <;> exact kept

theorem mergeInitialVertex_keeps {u : Nat}
    (merged : transform.mergeInitialVertex context result u = .ok transform') :
    Graph.Keeps transform.graph transform'.graph := by
  rcases mergeInitialVertex_eq_ok merged with merged | merged | ⟨v, -, merged⟩
  · exact mergeTraceBeginning_keeps merged
  · obtain ⟨rfl, -⟩ := mergeInitialVertexToNone_eq_ok merged
    exact Graph.Keeps.refl _
  · exact mergeInitialVertexToPrev_keeps merged

/-- `examine_vertex(u)` keeps every vertex of the merged graph. -/
theorem examineVertex_keeps {u : Nat} (initial : result.initialRegset = initialRegset)
    (examined : transform.examineVertex context result u = .ok transform') :
    Graph.Keeps transform.graph transform'.graph := by
  rcases examineVertex_eq_ok initial examined with
    ⟨-, rfl⟩ | ⟨-, -, last⟩ | ⟨-, fixed, synced, prepared, syncedEq, last⟩
  · exact Graph.Keeps.refl _
  · split_ifs at last
    · exact mergeInitialVertex_keeps last
    · cases last
      exact mergeSubgraphVertex_keeps u
  have sameGraph : synced.graph = transform.graph := by
    rcases prepared with rfl | prepared
    · rcases syncedEq with rfl | rfl
      exacts [rfl, mergeSyscall_graph u]
    · rcases mergePccFixup_eq_ok prepared with rfl | ⟨idx, rfl⟩ <;>
        rcases syncedEq with rfl | rfl
      exacts [rfl, mergeSyscall_graph u, rfl, mergeSyscall_graph u]
  rw [← sameGraph]
  split_ifs at last
  · exact mergeInitialVertex_keeps last
  · exact mergeInitialMemVertex_keeps last
  · cases last
    exact mergeSubgraphVertex_keeps u

theorem bfsTransform_keeps (initial : result.initialRegset = initialRegset)
    (walked : transform.bfsTransform context result = .ok transform') :
    Graph.Keeps transform.graph transform'.graph :=
  foldlM_keeps (fun step => Graph.Keeps transform.graph step.graph)
    (fun _ _ _ _ kept examined => kept.trans (examineVertex_keeps initial examined))
    (Graph.Keeps.refl _) walked

end MergePartialSubgraph

namespace MergePartialSubgraphContext

theorem step_keeps_vertices {context context' : MergePartialSubgraphContext}
    {result : WorkerResult} (initial : result.initialRegset = initialRegset)
    (stepped : context.step result = .ok context') : Graph.Keeps context.pgm context'.pgm := by
  obtain ⟨transform, walked, finalized⟩ := Except.bind_eq_ok.mp stepped
  obtain ⟨pccFixup, -, rest⟩ := Except.bind_eq_ok.mp finalized
  obtain ⟨syscall, -, rest⟩ := Except.bind_eq_ok.mp rest
  cases rest
  exact MergePartialSubgraph.bfsTransform_keeps initial walked

/-- The merge never rewrites a merged vertex.  Over any steps of `mp_merge` on worker results,
a vertex already in the merged graph keeps its capability, origin, `pc`, kernel flag and
in-neighbours, and its log only grows. -/
theorem foldlM_step_keeps_vertices :
    ∀ {results : List WorkerResult} {context context' : MergePartialSubgraphContext},
      (∀ result ∈ results, result.initialRegset = initialRegset) →
      results.foldlM step context = .ok context' → Graph.Keeps context.pgm context'.pgm :=
  fun {_} {context} {_} initial merged =>
    foldlM_keeps (fun step => Graph.Keeps context.pgm step.pgm)
      (fun result member _ _ kept stepped =>
        kept.trans (step_keeps_vertices (initial result member) stepped))
      (Graph.Keeps.refl _) merged

end MergePartialSubgraphContext

/-! ## The worker subgraph in the merged graph

Within one step the merge keeps the worker's derivations.  A vertex other than a ROOT is copied
by `_merge_subgraph_vertex` (a vertex of `initial_map` is a ROOT, and only ROOTs are fused or
omitted), so it becomes a new merged vertex with its own data, and its one in-edge is
translated through the copies: from the copy of its parent, or, when the parent is a ROOT that
`_merge_initial_vertex_to_prev` suppressed, from the vertex of the placeholder that handed its
children over.  Conversely the step invents nothing: each vertex it adds carries the data of a
worker vertex, and each event it adds is a worker's event or a syscall return that
`_merge_syscall` logs (`EmbedInv`).
-/

/-- What the merge made of the worker edge `(p, w)`: a merged vertex `vw`, new in this step,
with the data of `w` and its log, whose only in-neighbour is the image of `p`. -/
def EdgeKept (worker base : Graph) (transform : MergePartialSubgraph) (p w : Nat) : Prop :=
  ∃ vw vp, transform.copyVertexMap w = some vw ∧ base.size ≤ vw ∧ vw < transform.graph.size ∧
    { transform.graph.data vw with events := [] } = { worker.data w with events := [] } ∧
    (worker.data w).events <+: (transform.graph.data vw).events ∧
    transform.graph.inNeighbours vw = [vp] ∧ Image worker transform p vp

/-- A syscall return that `_merge_syscall` logs when it merges `result` after `context`: the
previous window left a call open that returns where the worker's recorded `eret` returns, and
the event carries that `eret`'s cycle and the previous window's syscall code. -/
def MergedRet (context : MergePartialSubgraphContext) (result : WorkerResult) (event : Event) :
    Prop :=
  ∃ prev, context.prevSyscall = some prev ∧ prev.active = true ∧
    prev.pcEret = result.subSyscall.eretAddr ∧
    event = ⟨result.subSyscall.eretTime.getD 0, prev.code.getD 0, .useSyscallRet, false⟩

theorem MergedRet.type {context : MergePartialSubgraphContext} {result : WorkerResult}
    {event : Event} (merged : MergedRet context result event) : event.type = .useSyscallRet := by
  obtain ⟨_, _, _, _, rfl⟩ := merged
  rfl

/-- What the walk keeps about the worker subgraph and the part of the merged graph made from
it, once the vertices below `bound` are examined. -/
structure EmbedInv (ret : Event → Prop) (worker base : Graph) (bound : Nat)
    (transform : MergePartialSubgraph) : Prop where
  /-- The subgraph keeps the worker's data but for the logs. -/
  data : ∀ v, { transform.subgraph.data v with events := [] } = { worker.data v with events := [] }
  /-- The subgraph's logs hold the worker's events and the syscall returns `_merge_syscall`
  adds, which satisfy `ret`. -/
  events : ∀ v, ∀ event ∈ (transform.subgraph.data v).events,
    event ∈ (worker.data v).events ∨ ret event
  /-- An edge the merge added to the subgraph hangs a child of a suppressed ROOT under the
  placeholder that was the ROOT's parent. -/
  added : ∀ x w, x ∈ transform.subgraph.inNeighbours w → x ∈ worker.inNeighbours w ∨
    x < 33 ∧ ∃ r ∈ worker.inNeighbours w, worker.inNeighbours r = [x]
  /-- Only ROOTs are omitted. -/
  omittedRoot : ∀ n, transform.omitVertexMap n = true → (worker.data n).origin = .root
  /-- Every vertex the step added carries the data of a worker vertex other than a
  placeholder. -/
  fresh : ∀ v, base.size ≤ v → v < transform.graph.size → ∃ u, 33 ≤ u ∧ u < worker.size ∧
    { transform.graph.data v with events := [] } = { worker.data u with events := [] }
  /-- Every event the step added to the merged graph is a worker's event or a syscall
  return that satisfies `ret`. -/
  logged : ∀ v < transform.graph.size, ∀ event ∈ (transform.graph.data v).events,
    v < base.size ∧ event ∈ (base.data v).events ∨ (∃ u, event ∈ (worker.data u).events) ∨
      ret event
  /-- Every edge into an examined vertex other than a ROOT is kept. -/
  derived : ∀ w < bound, (worker.data w).origin ≠ .root → ∀ p ∈ worker.inNeighbours w,
    EdgeKept worker base transform p w

open MergePartialSubgraph

variable {ret : Event → Prop} {worker base : Graph} {bound done : Nat}
  {transform transform' : MergePartialSubgraph}

namespace Image

variable {p vp : Nat}

theorem setCopy (image : Image worker transform p vp) (shape : SubgraphShape worker) {u v : Nat}
    (below : p < u) : Image worker (transform.setCopy u v) p vp := by
  rcases image with copied | ⟨omitted, none, q, parent, copied⟩
  · exact .inl (by simp [Function.update_noteq (Nat.ne_of_lt below), copied])
  · have older : q < u := (shape.inNeighbours_lt (by simp [parent])).trans below
    exact .inr ⟨omitted, by simp [Function.update_noteq (Nat.ne_of_lt below), none], q, parent,
      by simp [Function.update_noteq (Nat.ne_of_lt older), copied]⟩

theorem setOmit (image : Image worker transform p vp) (u : Nat) :
    Image worker (transform.setOmit u) p vp :=
  image.imp id fun ⟨omitted, noCopy, rest⟩ => ⟨update_true omitted, noCopy, rest⟩

end Image

namespace EdgeKept

variable {p w : Nat}

theorem withGraph (kept : EdgeKept worker base transform p w) {graph : Graph}
    (keeps : Graph.Keeps transform.graph graph) :
    EdgeKept worker base { transform with graph } p w :=
  let ⟨vw, vp, copied, fresh, bound, data, events, parent, image⟩ := kept
  ⟨vw, vp, copied, fresh, bound.trans_le keeps.size, (keeps.data vw bound).trans data,
    events.trans (keeps.events vw bound), (keeps.inNeighbours vw bound).trans parent, image⟩

theorem setCopy (kept : EdgeKept worker base transform p w) (shape : SubgraphShape worker)
    {u v : Nat} (wBelow : w < u) (pBelow : p < u) :
    EdgeKept worker base (transform.setCopy u v) p w :=
  let ⟨vw, vp, copied, rest⟩ := kept
  ⟨vw, vp, by simp [Function.update_noteq (Nat.ne_of_lt wBelow), copied],
    rest.imp_right fun rest => rest.imp_right fun rest => rest.imp_right fun rest =>
      rest.imp_right fun rest => rest.imp_right (·.setCopy shape pBelow)⟩

theorem setOmit (kept : EdgeKept worker base transform p w) (u : Nat) :
    EdgeKept worker base (transform.setOmit u) p w :=
  let ⟨vw, vp, copied, fresh, bound, data, events, parent, image⟩ := kept
  ⟨vw, vp, copied, fresh, bound, data, events, parent, image.setOmit u⟩

end EdgeKept

namespace EmbedInv

theorem origin (emb : EmbedInv ret worker base bound transform) (v : Nat) :
    (transform.subgraph.data v).origin = (worker.data v).origin :=
  have same := congrArg NodeData.origin (emb.data v)
  same

/-- The transform a merge step starts from. -/
theorem initial (context : MergePartialSubgraphContext) (result : WorkerResult) :
    EmbedInv ret result.pgm context.pgm 0
      { graph := context.pgm, subgraph := result.pgm, copyVertexMap := fun _ => none,
        omitVertexMap := fun _ => false, previousRegset := context.prevRegset } :=
  ⟨fun _ => rfl, fun _ _ => .inl, fun _ _ => .inl, by simp,
    fun _ low high => absurd high (Nat.not_lt.mpr low), fun _ bound _ member => .inl ⟨bound, member⟩,
    by simp⟩

/-- Once the edges into `done` are kept, or `done` is a ROOT, the invariant holds up to
`done + 1`. -/
theorem next (emb : EmbedInv ret worker base done transform)
    (kept : (worker.data done).origin ≠ .root → ∀ p ∈ worker.inNeighbours done,
      EdgeKept worker base transform p done) :
    EmbedInv ret worker base (done + 1) transform :=
  { emb with
    derived := fun w below => (Nat.lt_succ_iff_lt_or_eq.mp below).elim (emb.derived w)
      fun same => same ▸ kept }

theorem next_root (emb : EmbedInv ret worker base done transform)
    (root : (worker.data done).origin = .root) : EmbedInv ret worker base (done + 1) transform :=
  emb.next fun notRoot => absurd root notRoot

theorem next_placeholder (emb : EmbedInv ret worker base done transform)
    (shape : SubgraphShape worker) (low : done < 33) : EmbedInv ret worker base (done + 1) transform :=
  emb.next fun _ p member => by simp [shape.inNeighbours_placeholder low] at member

/-- A merged graph that keeps the old vertices, whose new vertices carry the data of subgraph
vertices other than placeholders, and whose new events come from the subgraph. -/
theorem withGraph (emb : EmbedInv ret worker base bound transform) {graph : Graph}
    (keeps : Graph.Keeps transform.graph graph)
    (fresh : ∀ v, transform.graph.size ≤ v → v < graph.size → ∃ u, 33 ≤ u ∧ u < worker.size ∧
      { graph.data v with events := [] } = { transform.subgraph.data u with events := [] })
    (logged : ∀ v < graph.size, ∀ event ∈ (graph.data v).events,
      v < transform.graph.size ∧ event ∈ (transform.graph.data v).events ∨
        ∃ u, event ∈ (transform.subgraph.data u).events) :
    EmbedInv ret worker base bound { transform with graph } := by
  refine { emb with
    fresh := fun v low high => ?_
    logged := fun v below event member => ?_
    derived := fun w below notRoot p member =>
      (emb.derived w below notRoot p member).withGraph keeps }
  · by_cases old : v < transform.graph.size
    · obtain ⟨u, high, uBound, data⟩ := emb.fresh v low old
      exact ⟨u, high, uBound, (keeps.data v old).trans data⟩
    · obtain ⟨u, high, uBound, data⟩ := fresh v (Nat.not_lt.mp old) high
      exact ⟨u, high, uBound, data.trans (emb.data u)⟩
  · rcases logged v below event member with ⟨old, kept⟩ | ⟨u, fromSubgraph⟩
    · exact emb.logged v old event kept
    · exact .inr ((emb.events u event fromSubgraph).imp_left fun fromWorker => ⟨u, fromWorker⟩)

/-- `_merge_partial_vertex_data(u_data, v_data)` for the data of a subgraph vertex `u`. -/
theorem mergePartialVertexData (emb : EmbedInv ret worker base bound transform) (u v : Nat) :
    EmbedInv ret worker base bound (transform.mergePartialVertexData (transform.subgraph.data u) v) := by
  refine emb.withGraph (mergePartialVertexData_keeps _ v) (fun w low high => by simp at high; omega)
    fun w below event member => ?_
  simp only [mergePartialVertexData_graph, Graph.modifyData_size] at below
  rw [Graph.modifyData_data] at member
  split at member
  · subst w
    exact (List.mem_append.mp member).imp (⟨below, ·⟩) (⟨u, ·⟩)
  · exact .inl ⟨below, member⟩

/-- A new merged vertex with the data of subgraph vertex `u`, and edges into it. -/
theorem addVertexWithEdges (emb : EmbedInv ret worker base bound transform) {u : Nat} (high : 33 ≤ u)
    (uBound : u < worker.size) (sources : List Nat) :
    EmbedInv ret worker base bound { transform with
      graph := sources.foldl (fun graph source => graph.addEdge source transform.graph.size)
        (transform.graph.addVertex (transform.subgraph.data u)).1 } := by
  refine emb.withGraph (Graph.Keeps.addVertexWithEdges _ _ _) (fun v low below => ⟨u, high, uBound, ?_⟩)
    fun v below event member => ?_
  · simp only [Graph.foldl_addEdge_into_size, Graph.addVertex_size] at below
    simp [Graph.addVertex_data, show v = transform.graph.size by omega]
  · simp only [Graph.foldl_addEdge_into_size, Graph.addVertex_size] at below
    simp only [Graph.foldl_addEdge_into_data, Graph.addVertex_data] at member
    split at member
    · exact .inr ⟨u, member⟩
    · exact .inl ⟨by omega, member⟩

/-- `copy_vertex_map[u] = v` for a vertex not examined yet, or being examined. -/
theorem setCopy (emb : EmbedInv ret worker base bound transform) (shape : SubgraphShape worker)
    {u v : Nat} (fresh : bound ≤ u) : EmbedInv ret worker base bound (transform.setCopy u v) :=
  { emb with
    derived := fun w below notRoot p member =>
      (emb.derived w below notRoot p member).setCopy shape (by omega)
        ((shape.inNeighbours_lt member).trans_le (by omega)) }

/-- `omit_vertex_map[u] = True` for a ROOT. -/
theorem setOmit (emb : EmbedInv ret worker base bound transform) {u : Nat}
    (root : (worker.data u).origin = .root) : EmbedInv ret worker base bound (transform.setOmit u) := by
  refine { emb with
    omittedRoot := fun n omitted => ?_
    derived := fun w below notRoot p member => (emb.derived w below notRoot p member).setOmit u }
  by_cases same : n = u
  · exact same ▸ root
  · simp only [setOmit_omitVertexMap, Function.update_noteq same] at omitted
    exact emb.omittedRoot n omitted

/-- The ROOT child `r` of placeholder `u` omitted, its children hung under `u`. -/
theorem suppress (emb : EmbedInv ret worker base bound transform) (shape : SubgraphShape worker)
    {u r : Nat} (uLow : u < 33) (parent : worker.inNeighbours r = [u])
    (root : (worker.data r).origin = .root) :
    EmbedInv ret worker base bound { transform.setOmit r with
      subgraph := (transform.subgraph.outNeighbours r).foldl (fun subgraph w => subgraph.addEdge u w)
        transform.subgraph } := by
  have high : 33 ≤ r := shape.target (u, r) (worker.mem_inNeighbours.mp (by simp [parent]))
  refine { emb.setOmit root with
    data := by simpa using emb.data
    events := by simpa using emb.events
    added := fun x w member => ?_ }
  simp only [Graph.inNeighbours_foldl_addEdge_from, List.mem_append, List.mem_replicate] at member
  rcases member with old | ⟨present, rfl⟩
  · exact emb.added x w old
  have child : r ∈ transform.subgraph.inNeighbours w := transform.subgraph.mem_inNeighbours.mpr
    (transform.subgraph.mem_outNeighbours.mp (List.count_pos_iff.mp (Nat.pos_of_ne_zero present)))
  rcases emb.added r w child with direct | ⟨placeholder, -⟩
  · exact .inr ⟨uLow, r, direct, parent⟩
  · omega

/-- `_merge_pcc_fixup(u)` changes only the previous register set. -/
theorem mergePccFixup (emb : EmbedInv ret worker base bound transform)
    {context : MergePartialSubgraphContext} {result : WorkerResult} {u : Nat}
    (fixed : transform.mergePccFixup context result u = .ok transform') :
    EmbedInv ret worker base bound transform' := by
  rcases mergePccFixup_eq_ok fixed with rfl | ⟨idx, rfl⟩
  exacts [emb, ⟨emb.data, emb.events, emb.added, emb.omittedRoot, emb.fresh, emb.logged,
    emb.derived⟩]

/-- `_merge_syscall(u)` adds at most an event to the subgraph's log of `u`, the syscall return
that `MergedRet` describes. -/
theorem mergeSyscall {context : MergePartialSubgraphContext} {result : WorkerResult}
    (emb : EmbedInv (MergedRet context result) worker base bound transform) (u : Nat) :
    EmbedInv (MergedRet context result) worker base bound
      (transform.mergeSyscall context result u) := by
  rcases mergeSyscall_cases context result u with same | ⟨prev, found, active, closes, same⟩ <;>
    rw [same]
  · exact emb
  refine { emb with
    data := fun v => ?_
    events := fun v event member => ?_
    added := by simpa using emb.added }
  · rw [Graph.modifyData_data]
    split
    · subst v; exact emb.data u
    · exact emb.data v
  · rw [Graph.modifyData_data] at member
    split at member
    · subst v
      simp only [NodeData.addUseSyscall, NodeData.addEvent, List.mem_append,
        List.mem_singleton] at member
      rcases member with old | rfl
      · exact emb.events u event old
      · exact .inr ⟨prev, found, active, closes, rfl⟩
    · exact emb.events v event member

end EmbedInv

namespace MergeInv

/-- The single merged parent `_merge_subgraph_vertex(done)` gives a derived vertex: the image
of its worker parent. -/
theorem parentImage (inv : MergeInv worker base done transform)
    (emb : EmbedInv ret worker base done transform) (shape : SubgraphShape worker) (high : 33 ≤ done)
    (bound : done < worker.size) (notOmitted : transform.omitVertexMap done = false)
    (derived : (worker.data done).origin ≠ .root) :
    ∃ vp, (transform.subgraph.inNeighbours done).filterMap
        (Function.update transform.copyVertexMap done (some transform.graph.size)) = [vp] ∧
      ∀ p ∈ worker.inNeighbours done, Image worker transform p vp := by
  have noCopy : transform.copyVertexMap done = none := by
    by_contra copied
    have := inv.core.fresh done le_rfl (Option.ne_none_iff_isSome.mp copied)
    rw [notOmitted] at this; contradiction
  rcases inv.core.parents done with ⟨same, -⟩ | ⟨r, q, parent, added, omitted, none, copied⟩
  · obtain ⟨q, single⟩ := List.length_eq_one.mp (shape.derived_in done bound high derived)
    have one := (inv.copies_length shape high bound).2 derived
    rw [same, single] at one
    obtain ⟨vp, found⟩ : ∃ vp, transform.copyVertexMap q = some vp := by
      cases found : transform.copyVertexMap q <;> simp [found] at one ⊢
    have other : q ≠ done := Nat.ne_of_lt (shape.inNeighbours_lt (by simp [single]))
    refine ⟨vp, by simp [same, single, Function.update_noteq other, found], fun p member => ?_⟩
    rw [single, List.mem_singleton] at member
    exact .inl (member ▸ found)
  · obtain ⟨vp, found⟩ := Option.isSome_iff_exists.mp copied
    have rOther : r ≠ done := Nat.ne_of_lt (shape.inNeighbours_lt (by simp [parent]))
    have qOther : q ≠ done := fun same => by simp [same, noCopy] at found
    refine ⟨vp, by simp [added, Function.update_noteq rOther, Function.update_noteq qOther, none,
      found], fun p member => ?_⟩
    rw [parent, List.mem_singleton] at member
    subst member
    refine .inr ⟨omitted, none, q, ?_, found⟩
    rcases emb.added q done (by simp [added]) with direct | ⟨-, r', member, grand⟩
    · rw [parent, List.mem_singleton] at direct
      subst direct; rw [none] at found; cases found
    · rw [parent, List.mem_singleton] at member
      exact member ▸ grand

end MergeInv

namespace EmbedInv

/-- `_merge_subgraph_vertex(done)` for a vertex that is not a placeholder: the edges into it
are kept. -/
theorem mergeSubgraphVertex (emb : EmbedInv ret worker base done transform)
    (inv : MergeInv worker base done transform) (shape : SubgraphShape worker) (high : 33 ≤ done)
    (bound : done < worker.size) (notOmitted : transform.omitVertexMap done = false) :
    EmbedInv ret worker base (done + 1) (transform.mergeSubgraphVertex done) := by
  have copied : EmbedInv ret worker base done (transform.mergeSubgraphVertex done) := by
    rw [mergeSubgraphVertex_eq, mergeSubgraphVertex_graph]
    exact (emb.addVertexWithEdges high bound _).setCopy shape le_rfl
  refine copied.next fun derived p member => ?_
  obtain ⟨vp, sources, images⟩ := inv.parentImage emb shape high bound notOmitted derived
  have data : (transform.mergeSubgraphVertex done).graph.data transform.graph.size =
      transform.subgraph.data done := by
    simp [mergeSubgraphVertex_graph, Graph.addVertex_data]
  refine ⟨transform.graph.size, vp, by simp, inv.core.grows.size,
    by simp [mergeSubgraphVertex_graph], by rw [data]; exact emb.data done,
    by rw [data]; exact inv.core.logs done, ?_,
    (images p member).setCopy shape (shape.inNeighbours_lt member)⟩
  rw [mergeSubgraphVertex_graph, Graph.inNeighbours_foldl_addEdge_into, Graph.inNeighbours_addVertex,
    inv.core.forest.inNeighbours_size, if_pos rfl, sources, List.nil_append]

/-- `_merge_initial_mem_vertex(done)` for a ROOT of `initial_map`. -/
theorem mergeInitialMemVertex (emb : EmbedInv ret worker base done transform)
    (inv : MergeInv worker base done transform) (shape : SubgraphShape worker) (high : 33 ≤ done)
    (bound : done < worker.size) (notOmitted : transform.omitVertexMap done = false)
    (root : (worker.data done).origin = .root) {context : MergePartialSubgraphContext}
    {result : WorkerResult} (merged : transform.mergeInitialMemVertex context result done = .ok transform') :
    EmbedInv ret worker base (done + 1) transform' := by
  rcases mergeInitialMemVertex_eq_ok merged with rfl | ⟨v, -, -, rfl⟩
  · exact emb.mergeSubgraphVertex inv shape high bound notOmitted
  · exact ((emb.setCopy shape le_rfl).mergePartialVertexData _ _).next_root root

/-- `_merge_trace_beginning(done)` copies and omits only ROOT children of the placeholder. -/
theorem mergeTraceBeginning (emb : EmbedInv ret worker base done transform)
    (core : MergeCore worker base done transform) (shape : SubgraphShape worker)
    (merged : transform.mergeTraceBeginning done = .ok transform') :
    EmbedInv ret worker base done transform' := by
  rcases mergeTraceBeginning_eq_ok merged with ⟨-, rfl⟩ | ⟨first, rest, coalesced, roots, ran, rfl⟩
  · exact emb
  have rootChild : ∀ r ∈ first :: rest,
      r ∈ worker.outNeighbours done ∧ (worker.data r).origin = .root := fun r member => by
    simpa [← roots, core.outNeighbours done (.inr le_rfl), core.origin] using member
  have later : ∀ r ∈ first :: rest, done ≤ r := fun r member =>
    (shape.ordered _ (worker.mem_outNeighbours.mp (rootChild r member).1)).1.le
  have firstEdge := worker.mem_outNeighbours.mp (rootChild first (.head _)).1
  have coalescedEmb := foldlM_keeps (fun step => EmbedInv ret worker base done step)
    (fun r member step step' emb coalescedRoot => by
      obtain ⟨-, rfl⟩ := coalesceRoot_eq_ok coalescedRoot
      exact ((emb.mergePartialVertexData _ _).setCopy shape (later r (.tail _ member))).setOmit
        (rootChild r (.tail _ member)).2)
    (((emb.addVertexWithEdges (shape.target _ firstEdge) (shape.ordered _ firstEdge).2 []).setCopy
      shape (later first (.head _))).setOmit (rootChild first (.head _)).2) ran
  split
  · exact coalescedEmb
  · exact coalescedEmb.setCopy shape le_rfl

/-- `_merge_initial_vertex_to_prev(done, v)` omits only ROOT children of the placeholder. -/
theorem mergeInitialVertexToPrev (emb : EmbedInv ret worker base done transform)
    (core : MergeCore worker base done transform) (shape : SubgraphShape worker) (low : done < 33)
    {v : Nat} (merged : transform.mergeInitialVertexToPrev done v = .ok transform') :
    EmbedInv ret worker base done transform' := by
  unfold MergePartialSubgraph.mergeInitialVertexToPrev at merged
  simp only [mergePartialVertexData_subgraph, setCopy_subgraph, setCopy_graph,
    core.outNeighbours done (.inr le_rfl)] at merged
  refine foldlM_keeps (fun step => EmbedInv ret worker base done step)
    (fun r child step step' emb suppressed => ?_)
    ((emb.setCopy shape le_rfl).mergePartialVertexData _ _) merged
  rcases suppressRoot_eq_ok suppressed with ⟨-, rfl⟩ | ⟨root, rfl | ⟨-, rfl⟩⟩
  · exact emb
  · exact emb.mergePartialVertexData _ _
  · rw [emb.origin] at root
    exact (emb.mergePartialVertexData _ _).suppress shape low
      (shape.inNeighbours_root_child child root) root

/-- `_merge_initial_vertex(done)` for a placeholder. -/
theorem mergeInitialVertex (emb : EmbedInv ret worker base done transform)
    (core : MergeCore worker base done transform) (shape : SubgraphShape worker) (low : done < 33)
    {context : MergePartialSubgraphContext} {result : WorkerResult}
    (merged : transform.mergeInitialVertex context result done = .ok transform') :
    EmbedInv ret worker base (done + 1) transform' := by
  refine EmbedInv.next_placeholder ?_ shape low
  rcases mergeInitialVertex_eq_ok merged with merged | merged | ⟨v, -, merged⟩
  · exact emb.mergeTraceBeginning core shape merged
  · obtain ⟨rfl, -⟩ := mergeInitialVertexToNone_eq_ok merged
    exact emb
  · exact emb.mergeInitialVertexToPrev core shape low merged

/-- The end of `examine_vertex(done)` after the first step. -/
theorem resolveVertex (emb : EmbedInv ret worker base done transform)
    (inv : MergeInv worker base done transform) (shape : SubgraphShape worker)
    (bound : done < worker.size) (notOmitted : transform.omitVertexMap done = false)
    {context : MergePartialSubgraphContext} {result : WorkerResult}
    (roots : ∀ u ∈ result.memVertexMap.initialMap.values, (worker.data u).origin = .root)
    (last : (if decide (done < 33) = true then transform.mergeInitialVertex context result done
      else if done ∈ result.memVertexMap.initialMap.values then
        transform.mergeInitialMemVertex context result done
      else .ok (transform.mergeSubgraphVertex done)) = .ok transform') :
    EmbedInv ret worker base (done + 1) transform' := by
  split_ifs at last with low initial
  · exact emb.mergeInitialVertex inv.core shape (of_decide_eq_true low) last
  · exact emb.mergeInitialMemVertex inv shape (by simpa using low) bound notOmitted
      (roots done initial) last
  · cases last
    exact emb.mergeSubgraphVertex inv shape (by simpa using low) bound notOmitted

/-- `examine_vertex(done)` keeps the edges into `done` unless it is a ROOT. -/
theorem examineVertex {context : MergePartialSubgraphContext} {result : WorkerResult}
    (emb : EmbedInv (MergedRet context result) worker context.pgm done transform)
    (inv : MergeInv worker context.pgm done transform) (wellFormed : result.WellFormed)
    (bounded : ContextBounded context) (worker_eq : result.pgm = worker)
    (roots : ∀ u ∈ result.memVertexMap.initialMap.values, (worker.data u).origin = .root)
    (bound : done < worker.size)
    (examined : transform.examineVertex context result done = .ok transform') :
    EmbedInv (MergedRet context result) worker context.pgm (done + 1) transform' := by
  have shape : SubgraphShape worker := worker_eq ▸ wellFormed.shape
  rcases examineVertex_eq_ok wellFormed.initial examined with
    ⟨omitted, rfl⟩ | ⟨notOmitted, -, last⟩ | ⟨notOmitted, fixed, synced, prepared, syncedEq, last⟩
  · exact emb.next_root (emb.omittedRoot done omitted)
  · split_ifs at last with low
    · exact emb.mergeInitialVertex inv.core shape (of_decide_eq_true low) last
    · cases last
      exact emb.mergeSubgraphVertex inv shape (by simpa using low) bound notOmitted
  obtain ⟨inv₁, emb₁, omits₁⟩ : MergeInv worker context.pgm done fixed ∧
      EmbedInv (MergedRet context result) worker context.pgm done fixed ∧
      fixed.omitVertexMap = transform.omitVertexMap := by
    rcases prepared with rfl | prepared
    · exact ⟨inv, emb, rfl⟩
    · obtain ⟨inv₁, -, omits₁⟩ := inv.mergePccFixup bounded.savedPcc prepared
      exact ⟨inv₁, emb.mergePccFixup prepared, omits₁⟩
  obtain ⟨inv₂, emb₂, omits₂⟩ : MergeInv worker context.pgm done synced ∧
      EmbedInv (MergedRet context result) worker context.pgm done synced ∧
      synced.omitVertexMap = fixed.omitVertexMap := by
    rcases syncedEq with rfl | rfl
    · exact ⟨inv₁, emb₁, rfl⟩
    · obtain ⟨inv₂, -, omits₂⟩ := inv₁.mergeSyscall context result done
      exact ⟨inv₂, emb₁.mergeSyscall done, omits₂⟩
  exact emb₂.resolveVertex inv₂ shape bound (by rw [omits₂, omits₁]; exact notOmitted) roots last

/-- `bfs_transform` over the first `n` vertices keeps the edges into them. -/
theorem walk {context : MergePartialSubgraphContext} {result : WorkerResult}
    (wellFormed : result.WellFormed) (bounded : ContextBounded context)
    (worker_eq : result.pgm = worker)
    (roots : ∀ u ∈ result.memVertexMap.initialMap.values, (worker.data u).origin = .root)
    {transform₀ : MergePartialSubgraph} (init : MergeInv worker context.pgm 0 transform₀)
    (emb₀ : EmbedInv (MergedRet context result) worker context.pgm 0 transform₀) :
    ∀ n, n ≤ worker.size → ∀ transform,
      (List.range n).foldlM (fun transform u => transform.examineVertex context result u)
        transform₀ = .ok transform →
          EmbedInv (MergedRet context result) worker context.pgm n transform
  | 0, _, _, ran => by cases ran; exact emb₀
  | n + 1, le, transform, ran => by
      rw [List.range_succ, List.foldlM_append] at ran
      obtain ⟨middle, ranMiddle, last⟩ := Except.bind_eq_ok.mp ran
      simp only [List.foldlM_cons, List.foldlM_nil, bind_pure] at last
      exact (walk wellFormed bounded worker_eq roots init emb₀ n (by omega) middle
        ranMiddle).examineVertex (MergeInv.walk wellFormed bounded worker_eq init n (by omega)
          middle ranMiddle).1 wellFormed bounded worker_eq roots (by omega) last

end EmbedInv

/-- Every vertex a worker hands over in `initial_map` is a ROOT of its subgraph. -/
theorem runWorkers_initialRoots :
    ∀ {start : Nat} {windows : List (List Record)} {results : List WorkerResult},
      runWorkers start windows = .ok results → ∀ result ∈ results,
        ∀ u ∈ result.memVertexMap.initialMap.values, (result.pgm.data u).origin = .root
  | _, [], _, ran => by cases ran; simp
  | start, window :: windows, results, ran => by
      obtain ⟨parser, parsed, rest⟩ := Except.bind_eq_ok.mp ran
      obtain ⟨results', ran', final⟩ := Except.bind_eq_ok.mp rest
      cases final
      intro result member u initial
      rcases List.mem_cons.mp member with rfl | member
      · obtain ⟨entry, entryMember, rfl⟩ := List.mem_map.mp initial
        exact ((doParse_initialEntries parsed).root entry entryMember).2.1
      · exact runWorkers_initialRoots ran' result member u initial

/-- The merge keeps the worker's derivations.  In the step of `mp_merge` that merges the
`k`-th worker result, once the walk is over, every edge `(p, w)` of the worker subgraph into a
vertex `w` other than a ROOT is in the merged graph: `w` is copied to a vertex `vw` new in this
step, with the capability, origin, `pc` and kernel flag of `w` and its log as a prefix of its
own, and the only in-neighbour of `vw` is the image of `p`, the copy of `p` or, if `p` is a
ROOT suppressed into the previous window, the copy of its placeholder parent. -/
theorem build_keeps_derivations {windows : List (List Record)} {results : List WorkerResult}
    {k : Nat} {context : MergePartialSubgraphContext} {result : WorkerResult}
    {transform : MergePartialSubgraph} (workers : runWorkers 0 windows = .ok results)
    (merged : (results.take k).foldlM MergePartialSubgraphContext.step .initial = .ok context)
    (current : results[k]? = some result)
    (walked : MergePartialSubgraph.bfsTransform context result
      { graph := context.pgm, subgraph := result.pgm, copyVertexMap := fun _ => none,
        omitVertexMap := fun _ => false, previousRegset := context.prevRegset } = .ok transform) :
    ∀ p w, (p, w) ∈ result.pgm.edges → (result.pgm.data w).origin ≠ .root →
      ∃ vw vp, transform.copyVertexMap w = some vw ∧ context.pgm.size ≤ vw ∧
        vw < transform.graph.size ∧
        { transform.graph.data vw with events := [] } = { result.pgm.data w with events := [] } ∧
        (result.pgm.data w).events <+: (transform.graph.data vw).events ∧
        transform.graph.inNeighbours vw = [vp] ∧
        (transform.copyVertexMap p = some vp ∨
          transform.omitVertexMap p = true ∧ transform.copyVertexMap p = none ∧
            ∃ q, result.pgm.inNeighbours p = [q] ∧ transform.copyVertexMap q = some vp) := by
  obtain ⟨forest, bounded, wellFormed⟩ := mpMerge_prefix workers merged current
  have emb := EmbedInv.walk wellFormed bounded rfl
    (runWorkers_initialRoots workers result (List.getElem?_mem current))
    (MergeInv.initial forest bounded result) (EmbedInv.initial context result) _ le_rfl transform
    walked
  intro p w edge derived
  exact emb.derived w (wellFormed.shape.ordered _ edge).2 derived p
    (result.pgm.mem_inNeighbours.mpr edge)

def narrowingResults : List WorkerResult := (runWorkers 0 narrowingWindows).toOption.getD []

def narrowingFirst : MergePartialSubgraphContext :=
  ((narrowingResults.take 1).foldlM MergePartialSubgraphContext.step .initial).toOption.getD
    .initial

def narrowingResult : WorkerResult :=
  ((doParse 2 [Record.narrow 3 4 3]).toOption.getD initialParser).mpResult .initial

def narrowingStart : MergePartialSubgraph :=
  { graph := narrowingFirst.pgm, subgraph := narrowingResult.pgm, copyVertexMap := fun _ => none,
    omitVertexMap := fun _ => false, previousRegset := narrowingFirst.prevRegset }

def narrowingTransform : MergePartialSubgraph :=
  (narrowingStart.bfsTransform narrowingFirst narrowingResult).toOption.getD narrowingStart

/-- The edge from the placeholder of `$c3` to the vertex narrowed from it in the second window
becomes an edge from the vertex narrowed in the first window. -/
theorem build_keeps_derivations_narrowing :
    runWorkers 0 narrowingWindows = .ok narrowingResults ∧
    (narrowingResults.take 1).foldlM MergePartialSubgraphContext.step .initial =
      .ok narrowingFirst ∧
    narrowingResults[1]? = some narrowingResult ∧
    narrowingStart.bfsTransform narrowingFirst narrowingResult = .ok narrowingTransform ∧
    (3, 33) ∈ narrowingResult.pgm.edges ∧ (narrowingResult.pgm.data 33).origin = .setbounds ∧
    ∃ vw vp, narrowingTransform.copyVertexMap 33 = some vw ∧ narrowingFirst.pgm.size ≤ vw ∧
      vw < narrowingTransform.graph.size ∧
      { narrowingTransform.graph.data vw with events := [] } =
        { narrowingResult.pgm.data 33 with events := [] } ∧
      (narrowingResult.pgm.data 33).events <+: (narrowingTransform.graph.data vw).events ∧
      narrowingTransform.graph.inNeighbours vw = [vp] ∧
      (narrowingTransform.copyVertexMap 3 = some vp ∨
        narrowingTransform.omitVertexMap 3 = true ∧ narrowingTransform.copyVertexMap 3 = none ∧
          ∃ q, narrowingResult.pgm.inNeighbours 3 = [q] ∧
            narrowingTransform.copyVertexMap q = some vp) :=
  have workers : runWorkers 0 narrowingWindows = .ok narrowingResults := by rfl
  have merged : (narrowingResults.take 1).foldlM MergePartialSubgraphContext.step .initial =
      .ok narrowingFirst := by rfl
  have current : narrowingResults[1]? = some narrowingResult := by rfl
  have walked : narrowingStart.bfsTransform narrowingFirst narrowingResult =
      .ok narrowingTransform := by rfl
  have edges : narrowingResult.pgm.edges = [(3, 33)] := by rfl
  have origin : (narrowingResult.pgm.data 33).origin = .setbounds := by rfl
  ⟨workers, merged, current, walked, by simp [edges], origin,
    build_keeps_derivations workers merged current walked 3 33 (by simp [edges])
      (by simp [origin])⟩

namespace MergePartialSubgraphContext

variable {context context' : MergePartialSubgraphContext} {result : WorkerResult}

/-- One step of `mp_merge` adds only vertices that carry the data of a vertex of the worker's
subgraph other than a placeholder, and only events of the worker or the syscall return
`_merge_syscall` logs. -/
theorem step_from_worker (forest : MergedForest context.pgm) (bounded : ContextBounded context)
    (wellFormed : result.WellFormed)
    (roots : ∀ u ∈ result.memVertexMap.initialMap.values, (result.pgm.data u).origin = .root)
    (stepped : context.step result = .ok context') :
    (∀ v, context.pgm.size ≤ v → v < context'.pgm.size → ∃ u, 33 ≤ u ∧ u < result.pgm.size ∧
      { context'.pgm.data v with events := [] } = { result.pgm.data u with events := [] }) ∧
    ∀ v < context'.pgm.size, ∀ event ∈ (context'.pgm.data v).events,
      v < context.pgm.size ∧ event ∈ (context.pgm.data v).events ∨
        (∃ u, event ∈ (result.pgm.data u).events) ∨ MergedRet context result event := by
  obtain ⟨transform, walked, finalized⟩ := Except.bind_eq_ok.mp stepped
  obtain ⟨pccFixup, -, rest⟩ := Except.bind_eq_ok.mp finalized
  obtain ⟨syscall, -, rest⟩ := Except.bind_eq_ok.mp rest
  cases rest
  have emb := EmbedInv.walk wellFormed bounded rfl roots (MergeInv.initial forest bounded result)
    (EmbedInv.initial context result) _ le_rfl transform walked
  exact ⟨emb.fresh, emb.logged⟩

/-- Over steps of `mp_merge`, a vertex of the merged graph is an old vertex with its old data,
or carries the data of a vertex of one of the results other than a placeholder; an event in its
log was there before, or is an event of one of the results, or the syscall return
`_merge_syscall` logged in the step that merged one of them. -/
theorem foldlM_step_from_workers :
    ∀ {results : List WorkerResult} {context context' : MergePartialSubgraphContext},
      MergedForest context.pgm → ContextBounded context →
      (∀ result ∈ results, result.WellFormed ∧
        ∀ u ∈ result.memVertexMap.initialMap.values, (result.pgm.data u).origin = .root) →
      results.foldlM step context = .ok context' →
      (∀ v < context'.pgm.size,
        v < context.pgm.size ∧
          { context'.pgm.data v with events := [] } = { context.pgm.data v with events := [] } ∨
        ∃ result ∈ results, ∃ u, 33 ≤ u ∧ u < result.pgm.size ∧
          { context'.pgm.data v with events := [] } = { result.pgm.data u with events := [] }) ∧
      ∀ v < context'.pgm.size, ∀ event ∈ (context'.pgm.data v).events,
        v < context.pgm.size ∧ event ∈ (context.pgm.data v).events ∨
          (∃ result ∈ results, ∃ u, event ∈ (result.pgm.data u).events) ∨
          ∃ pre result post before, results = pre ++ result :: post ∧
            pre.foldlM step context = .ok before ∧ MergedRet before result event
  | [], _, _, _, _, _, merged => by
      cases merged
      exact ⟨fun v bound => .inl ⟨bound, rfl⟩, fun v bound _ member => .inl ⟨bound, member⟩⟩
  | result :: results, context, context', forest, bounded, workers, merged => by
      rw [List.foldlM_cons] at merged
      obtain ⟨context₁, stepped, merged⟩ := Except.bind_eq_ok.mp merged
      obtain ⟨wellFormed, roots⟩ := workers result (.head _)
      obtain ⟨fresh, logged⟩ := step_from_worker forest bounded wellFormed roots stepped
      have keeps := step_keeps_vertices wellFormed.initial stepped
      obtain ⟨forest₁, bounded₁, -⟩ := step_keeps forest bounded wellFormed stepped
      obtain ⟨vertices, events⟩ := foldlM_step_from_workers forest₁ bounded₁
        (fun result member => workers result (.tail _ member)) merged
      refine ⟨fun v bound => ?_, fun v bound event member => ?_⟩
      · rcases vertices v bound with ⟨older, same⟩ | ⟨result', member, rest⟩
        · by_cases old : v < context.pgm.size
          · exact .inl ⟨old, same.trans (keeps.data v old)⟩
          · obtain ⟨u, high, uBound, data⟩ := fresh v (Nat.not_lt.mp old) older
            exact .inr ⟨result, .head _, u, high, uBound, same.trans data⟩
        · exact .inr ⟨result', .tail _ member, rest⟩
      · rcases events v bound event member with
          ⟨older, kept⟩ | ⟨result', member, rest⟩ | ⟨pre, result', post, before, split, ran, syscall⟩
        · rcases logged v older event kept with old | ⟨u, fromWorker⟩ | syscall
          · exact .inl old
          · exact .inr (.inl ⟨result, .head _, u, fromWorker⟩)
          · exact .inr (.inr ⟨[], result, results, context, rfl, rfl, syscall⟩)
        · exact .inr (.inl ⟨result', .tail _ member, rest⟩)
        · refine .inr (.inr ⟨result :: pre, result', post, before, by rw [split]; rfl, ?_, syscall⟩)
          rw [List.foldlM_cons, stepped]
          exact ran

end MergePartialSubgraphContext

theorem runWorkers_merge_ready {windows : List (List Record)} {results : List WorkerResult}
    (workers : runWorkers 0 windows = .ok results) :
    ∀ result ∈ results, result.WellFormed ∧
      ∀ u ∈ result.memVertexMap.initialMap.values, (result.pgm.data u).origin = .root :=
  fun result member =>
    ⟨runWorkers_wellFormed workers result member, runWorkers_initialRoots workers result member⟩

/-- The merge invents no vertex.  Every vertex of the merged graph carries the capability,
origin, `pc` and kernel flag of a vertex of some worker's subgraph other than a placeholder. -/
theorem build_vertices_from_workers {windows : List (List Record)}
    {results : List WorkerResult} {context : MergePartialSubgraphContext}
    (workers : runWorkers 0 windows = .ok results) (merged : mpMerge results = .ok context) :
    ∀ v < context.pgm.size, ∃ result ∈ results, ∃ u, 33 ≤ u ∧ u < result.pgm.size ∧
      { context.pgm.data v with events := [] } = { result.pgm.data u with events := [] } :=
  fun v bound =>
    ((MergePartialSubgraphContext.foldlM_step_from_workers MergedForest.empty
      ContextBounded.initial (runWorkers_merge_ready workers) merged).1 v bound).resolve_left
      fun ⟨old, _⟩ => Nat.not_lt_zero v old

theorem build_vertices_from_workers_narrowing :
    runWorkers 0 narrowingWindows = .ok narrowingResults ∧
    mpMerge narrowingResults = .ok narrowingContext ∧ narrowingContext.pgm.size = 3 ∧
    ∀ v < narrowingContext.pgm.size, ∃ result ∈ narrowingResults, ∃ u, 33 ≤ u ∧
      u < result.pgm.size ∧
      { narrowingContext.pgm.data v with events := [] } = { result.pgm.data u with events := [] } :=
  have workers : runWorkers 0 narrowingWindows = .ok narrowingResults := by rfl
  have merged : mpMerge narrowingResults = .ok narrowingContext := by rfl
  ⟨workers, merged, by rfl, build_vertices_from_workers workers merged⟩

/-- The merge invents no event but the syscall returns that `_merge_syscall` logs.  Every event
in the log of a merged vertex is in the log of some vertex of some worker's subgraph, or is a
syscall return. -/
theorem build_events_from_workers {windows : List (List Record)}
    {results : List WorkerResult} {context : MergePartialSubgraphContext}
    (workers : runWorkers 0 windows = .ok results) (merged : mpMerge results = .ok context) :
    ∀ v < context.pgm.size, ∀ event ∈ (context.pgm.data v).events,
      (∃ result ∈ results, ∃ u, event ∈ (result.pgm.data u).events) ∨
        event.type = .useSyscallRet :=
  fun v bound event member =>
    ((MergePartialSubgraphContext.foldlM_step_from_workers MergedForest.empty
      ContextBounded.initial (runWorkers_merge_ready workers) merged).2 v bound event
      member).resolve_left (fun ⟨old, _⟩ => Nat.not_lt_zero v old) |>.imp_right
      fun ⟨_, _, _, _, _, _, merged⟩ => merged.type

/-- A load through the ROOT of `kcc` in `$c3` in the first window, and one through the
placeholder of `$c3` in the second. -/
def derefWindows : List (List Record) :=
  [[Record.getKcc 1 3, Record.loadThrough 2 3], [Record.loadThrough 3 3]]

def derefResults : List WorkerResult := (runWorkers 0 derefWindows).toOption.getD []

def derefContext : MergePartialSubgraphContext := (mpMerge derefResults).toOption.getD .initial

theorem build_events_from_workers_deref :
    runWorkers 0 derefWindows = .ok derefResults ∧ mpMerge derefResults = .ok derefContext ∧
    (derefContext.pgm.data 0).events.length = 2 ∧
    ∀ v < derefContext.pgm.size, ∀ event ∈ (derefContext.pgm.data v).events,
      (∃ result ∈ derefResults, ∃ u, event ∈ (result.pgm.data u).events) ∨
        event.type = .useSyscallRet :=
  have workers : runWorkers 0 derefWindows = .ok derefResults := by rfl
  have merged : mpMerge derefResults = .ok derefContext := by rfl
  ⟨workers, merged, by rfl, build_events_from_workers workers merged⟩

def derefFirst : MergePartialSubgraphContext :=
  ((derefResults.take 1).foldlM MergePartialSubgraphContext.step .initial).toOption.getD .initial

def derefRest : MergePartialSubgraphContext :=
  ((derefResults.drop 1).foldlM MergePartialSubgraphContext.step derefFirst).toOption.getD
    derefFirst

theorem foldlM_step_keeps_vertices_deref :
    (∀ result ∈ derefResults.drop 1, result.initialRegset = initialRegset) ∧
    (derefResults.drop 1).foldlM MergePartialSubgraphContext.step derefFirst = .ok derefRest ∧
    derefFirst.pgm.size = 1 ∧ Graph.Keeps derefFirst.pgm derefRest.pgm :=
  have workers : runWorkers 0 derefWindows = .ok derefResults := by rfl
  have initial : ∀ result ∈ derefResults.drop 1, result.initialRegset = initialRegset :=
    fun result member => (runWorkers_wellFormed workers result (List.mem_of_mem_drop member)).initial
  have merged : (derefResults.drop 1).foldlM MergePartialSubgraphContext.step derefFirst =
      .ok derefRest := by rfl
  ⟨initial, merged, by rfl, MergePartialSubgraphContext.foldlM_step_keeps_vertices initial merged⟩

end Cheriplot.Provenance
