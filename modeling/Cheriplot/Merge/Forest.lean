import Cheriplot.Merge.Driver

namespace Cheriplot.Provenance

/-! # The merged graph as a forest

`MergedForest` is the shape the merge promises: no placeholder survives, a vertex has at most
one in-edge, and exactly one unless it is a ROOT, and every edge runs from an older vertex to a
younger one.  The merge adds edges with two loops,
`_merge_subgraph_vertex` into the vertex it creates and `_merge_initial_vertex_to_prev` out of a
placeholder; the lemmas below say what such a loop does to the neighbour lists.  `LogsGrow`
and `EventsIn` say what the merge does to event logs: it only appends to them.
-/

namespace Graph

variable {graph : Graph}

/-- An edge is as often among the out-neighbours of its source as among the in-neighbours of
its target. -/
theorem count_outNeighbours (source target : Nat) :
    (graph.outNeighbours source).count target = (graph.inNeighbours target).count source := by
  unfold outNeighbours inNeighbours
  induction graph.edges with
  | nil => rfl
  | cons edge edges ih =>
      obtain ⟨a, b⟩ := edge
      by_cases fromSource : a = source <;> by_cases toTarget : b = target <;>
        simp_all [List.filterMap_cons, List.count_cons]

section EdgesInto

variable (sources : List Nat) (target : Nat)

/-- Edges into `target`, one from each of `sources`. -/
@[simp] theorem foldl_addEdge_into_size (graph : Graph) :
    (sources.foldl (fun graph source => graph.addEdge source target) graph).size = graph.size := by
  induction sources generalizing graph <;> simp [*]

@[simp] theorem foldl_addEdge_into_data (graph : Graph) :
    (sources.foldl (fun graph source => graph.addEdge source target) graph).data = graph.data := by
  induction sources generalizing graph <;> simp [*]

@[simp] theorem foldl_addEdge_into_edges (graph : Graph) :
    (sources.foldl (fun graph source => graph.addEdge source target) graph).edges =
      graph.edges ++ sources.map (·, target) := by
  induction sources generalizing graph <;> simp [*]

@[simp] theorem inNeighbours_foldl_addEdge_into (graph : Graph) (vertex : Nat) :
    (sources.foldl (fun graph source => graph.addEdge source target) graph).inNeighbours vertex =
      graph.inNeighbours vertex ++ if target = vertex then sources else [] := by
  induction sources generalizing graph with
  | nil => simp
  | cons source sources ih =>
      simp only [List.foldl_cons, ih, inNeighbours_addEdge]
      split <;> simp

end EdgesInto

section EdgesFrom

variable (source : Nat) (targets : List Nat)

/-- Edges out of `source`, one to each of `targets`. -/
@[simp] theorem foldl_addEdge_from_size (graph : Graph) :
    (targets.foldl (fun graph target => graph.addEdge source target) graph).size =
      graph.size := by
  induction targets generalizing graph <;> simp [*]

@[simp] theorem foldl_addEdge_from_data (graph : Graph) :
    (targets.foldl (fun graph target => graph.addEdge source target) graph).data =
      graph.data := by
  induction targets generalizing graph <;> simp [*]

@[simp] theorem inNeighbours_foldl_addEdge_from (graph : Graph) (vertex : Nat) :
    (targets.foldl (fun graph target => graph.addEdge source target) graph).inNeighbours vertex =
      graph.inNeighbours vertex ++ List.replicate (targets.count vertex) source := by
  induction targets generalizing graph with
  | nil => simp
  | cons target targets ih =>
      by_cases same : target = vertex
      · simp [ih, same, List.replicate_succ]
      · simp [ih, same, List.count_cons]

@[simp] theorem outNeighbours_foldl_addEdge_from (graph : Graph) (vertex : Nat) :
    (targets.foldl (fun graph target => graph.addEdge source target) graph).outNeighbours
      vertex = graph.outNeighbours vertex ++ if source = vertex then targets else [] := by
  induction targets generalizing graph with
  | nil => simp
  | cons target targets ih =>
      simp only [List.foldl_cons, ih, outNeighbours_addEdge]
      split <;> simp

end EdgesFrom

/-- The loop of `_merge_subgraph_vertex` adds one edge from each in-neighbour that has a
copy. -/
theorem foldl_copyEdges (sources : List Nat) (copy : Nat → Option Nat) (target : Nat)
    (graph : Graph) :
    sources.foldl (fun graph uIn =>
        match copy uIn with
        | some vIn => graph.addEdge vIn target
        | none => graph) graph =
      (sources.filterMap copy).foldl (fun graph source => graph.addEdge source target) graph := by
  induction sources generalizing graph with
  | nil => rfl
  | cons uIn sources ih => cases found : copy uIn <;> simp [found, ih]

end Graph

/-- The merged graph is a forest of derivations. -/
structure MergedForest (graph : Graph) : Prop where
  noPartial : ∀ v < graph.size, (graph.data v).origin ≠ .partialMarker
  single : ∀ v < graph.size, graph.inDegree v ≤ 1
  derived : ∀ v < graph.size, (graph.data v).origin ≠ .root → graph.inDegree v = 1
  target : ∀ edge ∈ graph.edges, edge.2 < graph.size
  /-- Every edge goes from an older vertex to a younger one, so no path returns. -/
  older : ∀ edge ∈ graph.edges, edge.1 < edge.2

namespace MergedForest

variable {graph : Graph}

theorem empty : MergedForest Graph.empty :=
  ⟨by simp [Graph.empty], by simp [Graph.empty], by simp [Graph.empty], by simp [Graph.empty],
    by simp [Graph.empty]⟩

theorem inNeighbours_size (forest : MergedForest graph) : graph.inNeighbours graph.size = [] :=
  List.eq_nil_iff_forall_not_mem.mpr fun _ member =>
    (Nat.lt_irrefl _) (forest.target _ (graph.mem_inNeighbours.mp member))

theorem modifyData (forest : MergedForest graph) {f : NodeData → NodeData}
    (keeps : ∀ data, (f data).origin = data.origin) (vertex : Nat) :
    MergedForest (graph.modifyData vertex f) := by
  have origin := graph.modifyData_origin vertex keeps
  refine ⟨fun v bound => ?_, forest.single, fun v bound notRoot => ?_, by simpa using forest.target,
    by simpa using forest.older⟩
  · rw [origin]; exact forest.noPartial v bound
  · rw [origin] at notRoot; exact forest.derived v bound notRoot

/-- A new vertex with an edge from each of `sources`, older vertices: at most one, and one if
it is not a ROOT. -/
theorem addVertex (forest : MergedForest graph) {data : NodeData}
    (notPartial : data.origin ≠ .partialMarker) (sources : List Nat)
    (single : sources.length ≤ 1) (derived : data.origin ≠ .root → sources.length = 1)
    (older : ∀ source ∈ sources, source < graph.size) :
    MergedForest (sources.foldl (fun g source => g.addEdge source graph.size)
      (graph.addVertex data).1) := by
  have inDegree : ∀ v, (sources.foldl (fun g source => g.addEdge source graph.size)
      (graph.addVertex data).1).inDegree v =
        if v = graph.size then sources.length else graph.inDegree v := by
    intro v
    by_cases fresh : v = graph.size
    · subst fresh; simp [Graph.inDegree, forest.inNeighbours_size]
    · simp [Graph.inDegree, fresh, Ne.symm fresh]
  refine ⟨fun v bound => ?_, fun v bound => ?_, fun v bound notRoot => ?_, ?_, ?_⟩
  · simp only [Graph.foldl_addEdge_into_data, Graph.addVertex_data]
    split
    · exact notPartial
    · exact forest.noPartial v (by simp at bound; omega)
  · simp at bound
    rw [inDegree v]
    split
    · exact single
    · exact forest.single v (by omega)
  · simp at bound
    simp only [Graph.foldl_addEdge_into_data, Graph.addVertex_data] at notRoot
    rw [inDegree v]
    split
    · exact derived (by simpa [*] using notRoot)
    · exact forest.derived v (by omega) (by simpa [*] using notRoot)
  · intro edge member
    simp only [Graph.foldl_addEdge_into_edges, Graph.addVertex_edges, List.mem_append,
      List.mem_map] at member
    rcases member with old | ⟨_, _, rfl⟩
    · have := forest.target edge old; simp; omega
    · simp
  · intro edge member
    simp only [Graph.foldl_addEdge_into_edges, Graph.addVertex_edges, List.mem_append,
      List.mem_map] at member
    rcases member with old | ⟨source, member, rfl⟩
    · exact forest.older edge old
    · exact older source member

end MergedForest

/-- The event logs of `graph` survive in `graph'`, each as a prefix of the new log. -/
structure LogsGrow (graph graph' : Graph) : Prop where
  size : graph.size ≤ graph'.size
  events : ∀ v < graph.size, (graph.data v).events <+: (graph'.data v).events

/-- Every event of `events` is in the log of some vertex of `graph`. -/
def EventsIn (graph : Graph) (events : List Event) : Prop :=
  ∀ event ∈ events, ∃ v < graph.size, event ∈ (graph.data v).events

namespace LogsGrow

variable {graph graph' graph'' : Graph}

theorem refl (graph : Graph) : LogsGrow graph graph := ⟨le_rfl, fun _ _ => List.prefix_refl _⟩

theorem trans (first : LogsGrow graph graph') (second : LogsGrow graph' graph'') :
    LogsGrow graph graph'' :=
  ⟨first.size.trans second.size, fun v bound =>
    (first.events v bound).trans (second.events v (by have := first.size; omega))⟩

theorem addVertex (graph : Graph) (data : NodeData) : LogsGrow graph (graph.addVertex data).1 :=
  ⟨by simp, fun v bound => by simp [Graph.addVertex_data, Nat.ne_of_lt bound]⟩

theorem of_edges (size : graph'.size = graph.size) (data : graph'.data = graph.data) :
    LogsGrow graph graph' :=
  ⟨size.ge, fun _ _ => data ▸ List.prefix_refl _⟩

/-- `_merge_partial_vertex_data` appends a whole log to the log of `v`. -/
theorem appendEvents (graph : Graph) (v : Nat) (events : List Event) :
    LogsGrow graph (graph.modifyData v fun data => { data with events := data.events ++ events }) :=
  ⟨le_rfl, fun w _ => by
    rw [Graph.modifyData_data]
    split
    · subst w; exact List.prefix_append _ _
    · exact List.prefix_refl _⟩

end LogsGrow

namespace EventsIn

variable {graph graph' : Graph} {events events' : List Event}

theorem mono (held : EventsIn graph events) (grows : LogsGrow graph graph') :
    EventsIn graph' events := fun event member => by
  obtain ⟨v, bound, found⟩ := held event member
  exact ⟨v, by have := grows.size; omega, (grows.events v bound).subset found⟩

theorem of_vertex {v : Nat} (bound : v < graph.size)
    (sub : ∀ event ∈ events, event ∈ (graph.data v).events) : EventsIn graph events :=
  fun event member => ⟨v, bound, sub event member⟩

theorem of_subset (held : EventsIn graph events) (sub : ∀ event ∈ events', event ∈ events) :
    EventsIn graph events' := fun event member => held event (sub event member)

/-- After `_merge_partial_vertex_data(u_data, v_data)` the log of `u_data` is in the graph. -/
theorem appendEvents {v : Nat} (bound : v < graph.size) :
    EventsIn (graph.modifyData v fun data => { data with events := data.events ++ events })
      events :=
  of_vertex (by simpa using bound) fun event member => by
    simp [Graph.modifyData_data, member]

end EventsIn

end Cheriplot.Provenance
