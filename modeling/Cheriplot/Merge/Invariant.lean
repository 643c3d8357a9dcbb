import Cheriplot.Merge.Forest
import Cheriplot.Worker.Invariant

namespace Cheriplot.Provenance

/-! # The invariant of the merge walk

`bfs_transform` visits the vertices of a worker subgraph in order; `MergeInv worker base done`
is what holds once the first `done` of them are examined.  `MergeCore` is the part that every
operation of the walk keeps (the merged graph stays a forest and only grows, the subgraph keeps
its data and its edges out of unvisited vertices, and `Parents` says what
`_merge_subgraph_vertex` will read); `Resolved` is what examining one vertex establishes for
it: a copy, unless it is a placeholder whose children are all ROOTs, and its events in the
merged graph.

`worker` is the subgraph as `_do_parse` left it and `base` the merged graph before the step.
-/

namespace MergePartialSubgraph

/-- The edges `_merge_subgraph_vertex(u)` adds, as the copies they come from. -/
theorem mergeSubgraphVertex_graph (transform : MergePartialSubgraph) (u : Nat) :
    (transform.mergeSubgraphVertex u).graph =
      ((transform.subgraph.inNeighbours u).filterMap
          (Function.update transform.copyVertexMap u (some transform.graph.size))).foldl
        (fun graph source => graph.addEdge source transform.graph.size)
        (transform.graph.addVertex (transform.subgraph.data u)).1 :=
  Graph.foldl_copyEdges _ _ _ _

@[simp] theorem mergeSubgraphVertex_copyVertexMap (transform : MergePartialSubgraph) (u : Nat) :
    (transform.mergeSubgraphVertex u).copyVertexMap =
      Function.update transform.copyVertexMap u (some transform.graph.size) := rfl

theorem mergeSubgraphVertex_eq (transform : MergePartialSubgraph) (u : Nat) :
    transform.mergeSubgraphVertex u =
      { transform with graph := (transform.mergeSubgraphVertex u).graph }.setCopy u
        transform.graph.size := rfl

theorem isSome_update {copy : Nat → Option Nat} {u v n : Nat} (copied : (copy n).isSome) :
    (Function.update copy u (some v) n).isSome := by
  rw [Function.update_apply]; split <;> simp [copied]

theorem update_true {omits : Nat → Bool} {r n : Nat} (omitted : omits n = true) :
    Function.update omits r true n = true := by
  rw [Function.update_apply]; split <;> simp [omitted]

end MergePartialSubgraph

/-- What `_merge_subgraph_vertex(w)` reads: the in-neighbours `_do_parse` gave `w`, whose
omitted members all have a copy, or, once its parent `r` was suppressed, `r`, which has no
copy, and the placeholder `p` that took its place. -/
def Parents (worker subgraph : Graph) (copy : Nat → Option Nat) (omits : Nat → Bool)
    (w : Nat) : Prop :=
  (subgraph.inNeighbours w = worker.inNeighbours w ∧
      ∀ r ∈ worker.inNeighbours w, omits r = true → (copy r).isSome) ∨
    ∃ r p, worker.inNeighbours w = [r] ∧ subgraph.inNeighbours w = [r, p] ∧ omits r = true ∧
      copy r = none ∧ (copy p).isSome

theorem Parents.mono {worker subgraph : Graph} {copy copy' : Nat → Option Nat}
    {omits omits' : Nat → Bool} {w : Nat} (parents : Parents worker subgraph copy omits w)
    (copyGrows : ∀ n, (copy n).isSome → (copy' n).isSome)
    (omitGrows : ∀ n, omits n = true → omits' n = true)
    (noneKept : ∀ r, omits r = true → copy r = none → copy' r = none)
    (newlyOmitted : ∀ r ∈ worker.inNeighbours w, omits' r = true → omits r = false →
      (copy' r).isSome) :
    Parents worker subgraph copy' omits' w := by
  rcases parents with ⟨same, omitted⟩ | ⟨r, p, parent, added, omitted, none, copied⟩
  · refine .inl ⟨same, fun r member omitted' => ?_⟩
    cases old : omits r
    · exact newlyOmitted r member omitted' old
    · exact copyGrows r (omitted r member old)
  · exact .inr ⟨r, p, parent, added, omitGrows r omitted, noneKept r omitted none,
      copyGrows p copied⟩

/-- The part of the walk's invariant that every operation keeps; `bound` is the first vertex
not yet examined, or the one being examined plus one. -/
structure MergeCore (worker base : Graph) (bound : Nat) (transform : MergePartialSubgraph) :
    Prop where
  forest : MergedForest transform.graph
  grows : LogsGrow base transform.graph
  origin : ∀ v, (transform.subgraph.data v).origin = (worker.data v).origin
  logs : ∀ v, (worker.data v).events <+: (transform.subgraph.data v).events
  outNeighbours : ∀ u, 33 ≤ u ∨ bound ≤ u →
    transform.subgraph.outNeighbours u = worker.outNeighbours u
  parents : ∀ w, Parents worker transform.subgraph transform.copyVertexMap
    transform.omitVertexMap w
  /-- Only ROOT children of examined placeholders are omitted, and their events are merged. -/
  omitted : ∀ n, transform.omitVertexMap n = true → 33 ≤ n ∧
    (∃ p < bound, worker.inNeighbours n = [p]) ∧ EventsIn transform.graph (worker.data n).events
  fresh : ∀ n, bound ≤ n → (transform.copyVertexMap n).isSome → transform.omitVertexMap n = true
  copyBound : ∀ n v, transform.copyVertexMap n = some v → v < transform.graph.size
  regsetBound : transform.previousRegset.Bounded transform.graph.size

/-- `transform'` keeps every log, copy and omission of `transform`. -/
structure Extends (transform transform' : MergePartialSubgraph) : Prop where
  graph : LogsGrow transform.graph transform'.graph
  copy : ∀ n, (transform.copyVertexMap n).isSome → (transform'.copyVertexMap n).isSome
  omits : ∀ n, transform.omitVertexMap n = true → transform'.omitVertexMap n = true

/-- What examining vertex `n` establishes. -/
structure Resolved (worker : Graph) (transform : MergePartialSubgraph) (n : Nat) : Prop where
  copied : 33 ≤ n → transform.omitVertexMap n = false → (transform.copyVertexMap n).isSome
  placeholder : n < 33 → (transform.copyVertexMap n).isSome ∨
    ∀ c ∈ worker.outNeighbours n, (worker.data c).origin = .root
  kept : 33 ≤ n → EventsIn transform.graph (worker.data n).events

/-- The invariant of the walk once the vertices below `done` are examined. -/
structure MergeInv (worker base : Graph) (done : Nat) (transform : MergePartialSubgraph) :
    Prop where
  core : MergeCore worker base done transform
  resolved : ∀ n < done, Resolved worker transform n

namespace Extends

variable {transform transform' transform'' : MergePartialSubgraph}

theorem refl (transform : MergePartialSubgraph) : Extends transform transform :=
  ⟨LogsGrow.refl _, fun _ => id, fun _ => id⟩

theorem trans (first : Extends transform transform') (second : Extends transform' transform'') :
    Extends transform transform'' :=
  ⟨first.graph.trans second.graph, fun n copied => second.copy n (first.copy n copied),
    fun n omitted => second.omits n (first.omits n omitted)⟩

end Extends

/-- A placeholder is resolved by a copy, or by having only ROOT children. -/
theorem Resolved.ofPlaceholder {worker : Graph} {transform : MergePartialSubgraph} {n : Nat}
    (low : n < 33) (resolved : (transform.copyVertexMap n).isSome ∨
      ∀ c ∈ worker.outNeighbours n, (worker.data c).origin = .root) :
    Resolved worker transform n :=
  ⟨fun high => by omega, fun _ => resolved, fun high => by omega⟩

theorem Resolved.mono {worker : Graph} {transform transform' : MergePartialSubgraph} {n : Nat}
    (resolved : Resolved worker transform n) (ext : Extends transform transform') :
    Resolved worker transform' n := by
  refine ⟨fun high kept => ?_, fun low => ?_, fun high => (resolved.kept high).mono ext.graph⟩
  · cases old : transform.omitVertexMap n
    · exact ext.copy n (resolved.copied high old)
    · rw [ext.omits n old] at kept; contradiction
  · exact (resolved.placeholder low).imp_left (ext.copy n)

namespace MergeCore

variable {worker base : Graph} {bound : Nat} {transform : MergePartialSubgraph}

theorem weaken (core : MergeCore worker base bound transform) {bound' : Nat}
    (le : bound ≤ bound') : MergeCore worker base bound' transform :=
  { core with
    outNeighbours := fun u range => core.outNeighbours u (range.imp_right (le.trans ·))
    omitted := fun n omitted =>
      let ⟨high, ⟨p, low, parent⟩, kept⟩ := core.omitted n omitted
      ⟨high, ⟨p, by omega, parent⟩, kept⟩
    fresh := fun n high => core.fresh n (le.trans high) }

theorem placeholder_notOmitted (core : MergeCore worker base bound transform) {n : Nat}
    (low : n < 33) : transform.omitVertexMap n = false :=
  Bool.eq_false_iff.mpr fun omitted => by have := (core.omitted n omitted).1; omega

/-- A new merged graph that keeps the old logs and is still a forest. -/
theorem withGraph (core : MergeCore worker base bound transform) {graph : Graph}
    (forest : MergedForest graph) (grows : LogsGrow transform.graph graph) :
    MergeCore worker base bound { transform with graph } ∧
      Extends transform { transform with graph } :=
  ⟨{ core with
      forest, grows := core.grows.trans grows
      omitted := fun n omitted =>
        let ⟨high, parent, kept⟩ := core.omitted n omitted
        ⟨high, parent, kept.mono grows⟩
      copyBound := fun n v copied => (core.copyBound n v copied).trans_le grows.size
      regsetBound := core.regsetBound.mono grows.size },
    ⟨grows, fun _ => id, fun _ => id⟩⟩

/-- `_merge_partial_vertex_data(u_data, v_data)`. -/
theorem mergePartialVertexData (core : MergeCore worker base bound transform) (data : NodeData)
    (v : Nat) :
    MergeCore worker base bound (transform.mergePartialVertexData data v) ∧
      Extends transform (transform.mergePartialVertexData data v) :=
  core.withGraph
    (core.forest.modifyData (f := fun vData => { vData with events := vData.events ++ data.events })
      (fun _ => rfl) v)
    (LogsGrow.appendEvents _ v _)

/-- `copy_vertex_map[u] = v` for the vertex being examined. -/
theorem setCopy (core : MergeCore worker base bound transform) {u v : Nat} (low : u < bound)
    (notOmitted : transform.omitVertexMap u = true → (transform.copyVertexMap u).isSome)
    (vBound : v < transform.graph.size) :
    MergeCore worker base bound (transform.setCopy u v) ∧
      Extends transform (transform.setCopy u v) := by
  have grows n (copied : (transform.copyVertexMap n).isSome) :=
    MergePartialSubgraph.isSome_update (u := u) (v := v) copied
  refine ⟨{ core with
    parents := fun w => (core.parents w).mono grows (fun _ => id) (fun r omitted none => ?_)
      (fun r _ omitted old => by simp_all)
    fresh := fun n high copied => ?_
    copyBound := fun n v' copied => ?_ }, ⟨LogsGrow.refl _, grows, fun _ => id⟩⟩
  · have other : r ≠ u := fun same => by simp_all
    simp [Function.update_noteq other, none]
  · have other : n ≠ u := by omega
    simp only [MergePartialSubgraph.setCopy_copyVertexMap, Function.update_noteq other] at copied
    exact core.fresh n high copied
  · simp only [MergePartialSubgraph.setCopy_copyVertexMap, Function.update_apply] at copied
    split at copied
    · cases copied; exact vBound
    · exact core.copyBound n v' copied

/-- A ROOT fused into a merged vertex at the trace beginning: it gets that copy and is omitted
at once. -/
theorem coalesce (core : MergeCore worker base bound transform) {r m : Nat} (high : 33 ≤ r)
    (parent : ∃ p < bound, worker.inNeighbours r = [p])
    (kept : EventsIn transform.graph (worker.data r).events)
    (notSuppressed : transform.omitVertexMap r = true → (transform.copyVertexMap r).isSome)
    (mBound : m < transform.graph.size) :
    MergeCore worker base bound ((transform.setCopy r m).setOmit r) ∧
      Extends transform ((transform.setCopy r m).setOmit r) := by
  have grows n (copied : (transform.copyVertexMap n).isSome) :=
    MergePartialSubgraph.isSome_update (u := r) (v := m) copied
  have omitGrows n : transform.omitVertexMap n = true →
      Function.update transform.omitVertexMap r true n = true := MergePartialSubgraph.update_true
  refine ⟨{ core with
    parents := fun w => (core.parents w).mono grows omitGrows (fun r' omitted none => ?_)
      (fun r' _ omitted old => ?_)
    omitted := fun n omitted => ?_
    fresh := fun n low copied => ?_
    copyBound := fun n v copied => ?_ }, ⟨LogsGrow.refl _, grows, omitGrows⟩⟩
  · have other : r' ≠ r := fun same => by simp_all
    simp [Function.update_noteq other, none]
  · have same : r' = r := by by_contra other; simp_all [Function.update_noteq other]
    simp [same]
  · by_cases same : n = r
    · subst same; exact ⟨high, parent, kept⟩
    · simp only [MergePartialSubgraph.setOmit_omitVertexMap, Function.update_noteq same] at omitted
      exact core.omitted n omitted
  · by_cases same : n = r
    · simp [same]
    · simp only [MergePartialSubgraph.setOmit_copyVertexMap,
        MergePartialSubgraph.setCopy_copyVertexMap, Function.update_noteq same] at copied
      simp [Function.update_noteq same, core.fresh n low copied]
  · simp only [MergePartialSubgraph.setOmit_copyVertexMap,
      MergePartialSubgraph.setCopy_copyVertexMap, Function.update_apply] at copied
    split at copied
    · cases copied; exact mBound
    · exact core.copyBound n v copied

/-- `_merge_initial_vertex_to_prev` suppresses the ROOT child `r` of placeholder `u`: `r` is
omitted and its children are hung under `u`. -/
theorem suppress (core : MergeCore worker base bound transform) (shape : SubgraphShape worker)
    {u r : Nat} (uLow : u < 33) (uBound : u < bound) (parent : worker.inNeighbours r = [u])
    (notOmitted : transform.omitVertexMap r = false) (noCopy : transform.copyVertexMap r = none)
    (uCopied : (transform.copyVertexMap u).isSome)
    (kept : EventsIn transform.graph (worker.data r).events) :
    let transform' := { transform.setOmit r with
      subgraph := (transform.subgraph.outNeighbours r).foldl
        (fun subgraph w => subgraph.addEdge u w) transform.subgraph }
    MergeCore worker base bound transform' ∧ Extends transform transform' := by
  intro transform'
  have edge : (u, r) ∈ worker.edges := worker.mem_inNeighbours.mp (by simp [parent])
  have high : 33 ≤ r := shape.target _ edge
  have children : transform.subgraph.outNeighbours r = worker.outNeighbours r :=
    core.outNeighbours r (.inl high)
  have omitGrows n : transform.omitVertexMap n = true →
      Function.update transform.omitVertexMap r true n = true := MergePartialSubgraph.update_true
  refine ⟨{ core with
    origin := by simpa [transform'] using core.origin
    logs := by simpa [transform'] using core.logs
    outNeighbours := fun x range => ?_
    parents := fun w => ?_
    omitted := fun n omitted => ?_
    fresh := fun n low copied => omitGrows n (core.fresh n low copied) },
    ⟨LogsGrow.refl _, fun _ => id, omitGrows⟩⟩
  · have other : u ≠ x := by omega
    simpa [transform', other] using core.outNeighbours x range
  · by_cases child : w ∈ worker.outNeighbours r
    · obtain ⟨single, -⟩ := shape.inNeighbours_derived_child child high
      have count : (worker.outNeighbours r).count w = 1 := by
        rw [Graph.count_outNeighbours, single]; simp
      rcases core.parents w with ⟨same, -⟩ | ⟨r', p, parent', -, omitted, -⟩
      · refine .inr ⟨r, u, single, ?_, by simp [transform'], noCopy, uCopied⟩
        simp [transform', children, count, same, single]
      · rw [single, List.singleton_inj] at parent'
        rw [← parent', notOmitted] at omitted; contradiction
    · have count : (worker.outNeighbours r).count w = 0 := List.count_eq_zero.mpr child
      have unchanged : Parents worker transform.subgraph transform.copyVertexMap
          (Function.update transform.omitVertexMap r true) w := (core.parents w).mono (fun _ => id)
        omitGrows (fun _ _ => id) (fun r' member omitted old => by
          have other : r' ≠ r := fun same =>
            child (worker.mem_outNeighbours.mpr (same ▸ worker.mem_inNeighbours.mp member))
          simp_all [Function.update_noteq other])
      simpa [Parents, transform', children, count] using unchanged
  · by_cases same : n = r
    · subst same; exact ⟨high, ⟨u, uBound, parent⟩, kept⟩
    · simp only [transform', MergePartialSubgraph.setOmit_omitVertexMap,
        Function.update_noteq same] at omitted
      exact core.omitted n omitted

end MergeCore

end Cheriplot.Provenance
