import Cheriplot.Parser.Scan

namespace Cheriplot.Provenance

/-! # The shape of a worker subgraph

Every worker subgraph is a forest hung from the 33 placeholders: the placeholders have no
in-edges, a ROOT has at most one in-neighbour and it is a placeholder (the edge
`_attach_subgraph_merge` adds), a derived vertex has exactly its parent, and every edge goes
from an older vertex to a newer one.  The merge relies on all of it.
-/

/-- The shape of a worker subgraph. -/
structure SubgraphShape (graph : Graph) : Prop where
  placeholders : 33 ≤ graph.size
  partial_iff : ∀ v < graph.size, (graph.data v).origin = .partialMarker ↔ v < 33
  ordered : ∀ edge ∈ graph.edges, edge.1 < edge.2 ∧ edge.2 < graph.size
  target : ∀ edge ∈ graph.edges, 33 ≤ edge.2
  root_in : ∀ v < graph.size, (graph.data v).origin = .root →
    graph.inDegree v ≤ 1 ∧ ∀ n ∈ graph.inNeighbours v, n < 33
  derived_in : ∀ v < graph.size, 33 ≤ v → (graph.data v).origin ≠ .root →
    graph.inDegree v = 1

namespace SubgraphShape

variable {graph : Graph}

theorem inNeighbours_size (shape : SubgraphShape graph) :
    graph.inNeighbours graph.size = [] := by
  refine List.eq_nil_iff_forall_not_mem.mpr fun n member => ?_
  have edge := shape.ordered _ ((graph.mem_inNeighbours).mp member)
  omega

theorem inNeighbours_lt (shape : SubgraphShape graph) {v n : Nat}
    (member : n ∈ graph.inNeighbours v) : n < v :=
  (shape.ordered _ ((graph.mem_inNeighbours).mp member)).1

theorem inNeighbours_placeholder (shape : SubgraphShape graph) {v : Nat} (low : v < 33) :
    graph.inNeighbours v = [] :=
  List.eq_nil_iff_forall_not_mem.mpr fun _ member =>
    absurd (shape.target _ (graph.mem_inNeighbours.mp member)) (by simp; omega)

/-- A ROOT child of a placeholder has that placeholder as its only in-neighbour. -/
theorem inNeighbours_root_child (shape : SubgraphShape graph) {u w : Nat}
    (child : w ∈ graph.outNeighbours u) (root : (graph.data w).origin = .root) :
    graph.inNeighbours w = [u] := by
  have edge := graph.mem_outNeighbours.mp child
  have parent : u ∈ graph.inNeighbours w := graph.mem_inNeighbours.mpr edge
  have single := (shape.root_in w (shape.ordered _ edge).2 root).1
  unfold Graph.inDegree at single
  match graph.inNeighbours w, parent, single with
  | [_], member, _ => rw [List.mem_singleton.mp member]

/-- A child of a vertex other than a placeholder is derived, and that vertex is its only
in-neighbour. -/
theorem inNeighbours_derived_child (shape : SubgraphShape graph) {r w : Nat}
    (child : w ∈ graph.outNeighbours r) (high : 33 ≤ r) :
    graph.inNeighbours w = [r] ∧ (graph.data w).origin ≠ .root := by
  have edge := graph.mem_outNeighbours.mp child
  have parent : r ∈ graph.inNeighbours w := graph.mem_inNeighbours.mpr edge
  have bound := (shape.ordered _ edge).2
  have derived : (graph.data w).origin ≠ .root := fun root =>
    absurd ((shape.root_in w bound root).2 r parent) (by omega)
  have single := shape.derived_in w bound (shape.target _ edge) derived
  unfold Graph.inDegree at single
  match graph.inNeighbours w, parent, single with
  | [_], member, _ => exact ⟨by rw [List.mem_singleton.mp member], derived⟩

/-- Adding a vertex with the data of a ROOT: it has no in-edge. -/
theorem addVertex_root (shape : SubgraphShape graph) {data : NodeData}
    (root : data.origin = .root) : SubgraphShape (graph.addVertex data).1 := by
  have none := shape.inNeighbours_size
  refine ⟨by simp; have := shape.placeholders; omega, ?_, ?_, by simpa using shape.target, ?_, ?_⟩
  · intro v bound
    by_cases fresh : v = graph.size
    · simp [Graph.addVertex_data, fresh, root]; have := shape.placeholders; omega
    · simp only [Graph.addVertex_data, fresh, if_false]
      exact shape.partial_iff v (by simp at bound; omega)
  · intro edge member
    have := shape.ordered edge (by simpa using member)
    simp; omega
  · intro v bound origin
    by_cases fresh : v = graph.size
    · subst fresh; simp [Graph.inDegree, none]
    · simp only [Graph.addVertex_data, fresh, if_false] at origin
      simpa [Graph.inDegree] using shape.root_in v (by simp at bound; omega) origin
  · intro v bound low origin
    by_cases fresh : v = graph.size
    · simp [Graph.addVertex_data, fresh, root] at origin
    · simp only [Graph.addVertex_data, fresh, if_false] at origin
      simpa [Graph.inDegree] using shape.derived_in v (by simp at bound; omega) low origin

/-- Adding a derived vertex with its edge from `parent`, as `make_node` does. -/
theorem addDerived (shape : SubgraphShape graph) {data : NodeData} {parent : Nat}
    (derived : data.origin ≠ .root) (notPartial : data.origin ≠ .partialMarker)
    (bound : parent < graph.size) :
    SubgraphShape (((graph.addVertex data).1).addEdge parent graph.size) := by
  have none := shape.inNeighbours_size
  refine ⟨by simp; have := shape.placeholders; omega, ?_, ?_, ?_, ?_, ?_⟩
  · intro v vBound
    by_cases fresh : v = graph.size
    · simp [Graph.addVertex_data, fresh, notPartial]; have := shape.placeholders; omega
    · simp only [Graph.addEdge_data, Graph.addVertex_data, fresh, if_false]
      exact shape.partial_iff v (by simp at vBound; omega)
  · intro edge member
    simp only [Graph.addEdge_edges, Graph.addVertex_edges, List.mem_append,
      List.mem_singleton] at member
    rcases member with old | rfl
    · have := shape.ordered edge old
      simp; omega
    · simp [bound]
  · intro edge member
    simp only [Graph.addEdge_edges, Graph.addVertex_edges, List.mem_append,
      List.mem_singleton] at member
    rcases member with old | rfl
    · exact shape.target edge old
    · exact shape.placeholders
  · intro v vBound origin
    by_cases fresh : v = graph.size
    · simp [Graph.addVertex_data, fresh] at origin; exact absurd origin derived
    · simp only [Graph.addEdge_data, Graph.addVertex_data, fresh, if_false] at origin
      have other : graph.size ≠ v := Ne.symm fresh
      simpa [Graph.inDegree, other] using shape.root_in v (by simp at vBound; omega) origin
  · intro v vBound low origin
    by_cases fresh : v = graph.size
    · subst fresh; simp [Graph.inDegree, none]
    · simp only [Graph.addEdge_data, Graph.addVertex_data, fresh, if_false] at origin
      have other : graph.size ≠ v := Ne.symm fresh
      simpa [Graph.inDegree, other] using
        shape.derived_in v (by simp at vBound; omega) low origin

/-- Changing the events of a vertex keeps the shape. -/
theorem modifyData (shape : SubgraphShape graph) {f : NodeData → NodeData}
    (keeps : ∀ data, (f data).origin = data.origin) (vertex : Nat) :
    SubgraphShape (graph.modifyData vertex f) := by
  have origin := graph.modifyData_origin vertex keeps
  refine ⟨shape.placeholders, fun v bound => ?_, shape.ordered, shape.target,
    fun v bound root => ?_, fun v bound low derived => ?_⟩
  · rw [origin]; exact shape.partial_iff v bound
  · rw [origin] at root; exact shape.root_in v bound root
  · rw [origin] at derived; exact shape.derived_in v bound low derived

/-- An edge from a placeholder to a ROOT that has no in-edge keeps the shape. -/
theorem addEdge_root (shape : SubgraphShape graph) {placeholder root : Nat}
    (placeholderLow : placeholder < 33) (rootHigh : 33 ≤ root) (rootBound : root < graph.size)
    (isRoot : (graph.data root).origin = .root) (rootFree : graph.inNeighbours root = []) :
    SubgraphShape (graph.addEdge placeholder root) := by
  refine ⟨shape.placeholders, shape.partial_iff, ?_, ?_, ?_, ?_⟩
  · intro edge member
    simp only [Graph.addEdge_edges, List.mem_append, List.mem_singleton] at member
    rcases member with old | rfl
    · exact shape.ordered edge old
    · exact ⟨by simp; omega, rootBound⟩
  · intro edge member
    simp only [Graph.addEdge_edges, List.mem_append, List.mem_singleton] at member
    rcases member with old | rfl
    · exact shape.target edge old
    · exact rootHigh
  · intro v bound origin
    by_cases same : root = v
    · subst same; simp [Graph.inDegree, rootFree, placeholderLow]
    · simpa [same, Graph.inDegree] using shape.root_in v bound origin
  · intro v bound low derived
    have other : root ≠ v := fun same => derived (same ▸ isRoot)
    simpa [Graph.inDegree, other] using shape.derived_in v bound low derived

/-- The edge `_attach_subgraph_merge` adds keeps the shape. -/
theorem attach (shape : SubgraphShape graph) {current input : Option Nat}
    (currentBound : ∀ c, current = some c → c < graph.size)
    (inputBound : ∀ i, input = some i → i < graph.size) :
    SubgraphShape (RegisterSet.attachSubgraphMerge graph current input) := by
  rcases RegisterSet.attachSubgraphMerge_cases graph current input with same | added
  · rw [same]; exact shape
  obtain ⟨placeholder, root, rfl, rfl, isRoot, noPartial, isPartial, edge⟩ := added
  rw [edge]
  have rootBound := inputBound root rfl
  have rootHigh : 33 ≤ root := by
    by_contra low
    have := (shape.partial_iff root rootBound).mpr (by omega)
    rw [isRoot] at this; contradiction
  refine shape.addEdge_root ((shape.partial_iff placeholder (currentBound placeholder rfl)).mp
    isPartial) rootHigh rootBound isRoot ?_
  refine List.eq_nil_iff_forall_not_mem.mpr fun n member => noPartial n member ?_
  exact (shape.partial_iff n (by have := shape.inNeighbours_lt member; omega)).mpr
    ((shape.root_in root rootBound isRoot).2 n member)

end SubgraphShape

end Cheriplot.Provenance
