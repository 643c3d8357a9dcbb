import Cheriplot.Parser.Scan

namespace Cheriplot.Provenance

/-! # Merging a worker's subgraph into the merged graph

`MergePartialSubgraph` walks a worker's subgraph and copies each vertex into the merged graph,
except the placeholders, which it resolves against the previous window's final register set:
a placeholder's ROOT children are coalesced into one vertex at the trace beginning, and
suppressed into the previous vertex they agree with afterwards.  `copyVertexMap` is
`copy_vertex_map` with `none` for its default `-1`.

The walk is `bfs_transform` over the subgraph.  It visits every vertex once, each after its
in-neighbours; the model visits the vertices in creation order, which is such an order
because every edge of a worker subgraph goes from an older vertex to a newer one.
-/

/-- `MergePartialSubgraphContext`: the merged graph, with its `stack` property, and what the
previous step left. -/
structure MergePartialSubgraphContext where
  pgm : Graph
  stack : Option CheriCap
  prevRegset : RegisterSet
  prevVmap : AddrMap
  prevPccFixup : PccFixupResult
  prevSyscall : Option SyscallResult
  stepIdx : Nat

/-- The context before the first step. -/
def MergePartialSubgraphContext.initial : MergePartialSubgraphContext :=
  { pgm := Graph.empty, stack := none, prevRegset := RegisterSet.empty, prevVmap := [],
    prevPccFixup := ⟨none, none, none, none⟩, prevSyscall := none, stepIdx := 0 }

/-- The mutable state of one `MergePartialSubgraph` transform: the merged graph, the subgraph
(the merge adds edges to it), the two vertex maps, and the previous register set, which the
pcc fix-up may rewrite. -/
structure MergePartialSubgraph where
  graph : Graph
  subgraph : Graph
  copyVertexMap : Nat → Option Nat
  omitVertexMap : Nat → Bool
  previousRegset : RegisterSet

namespace MergePartialSubgraph

variable (context : MergePartialSubgraphContext) (result : WorkerResult)
  (transform : MergePartialSubgraph)

/-- `_merge_partial_vertex_data(u_data, v_data)`: the events of `u_data` are appended to the
log of merged vertex `v`. -/
@[simps]
def mergePartialVertexData (uData : NodeData) (v : Nat) : MergePartialSubgraph :=
  { transform with
    graph := transform.graph.modifyData v fun vData =>
      { vData with events := vData.events ++ uData.events } }

/-- `_check_cap_compatible(u_data, v_data)`. -/
def checkCapCompatible (uData vData : NodeData) : Except Fault Bool :=
  match uData.cap, vData.cap with
  | some u, some v =>
      .ok (u.base = v.base ∧ u.length = v.length ∧ u.permissions = v.permissions ∧
        u.objtype = v.objtype)
  | _, _ => .error .attributeError

@[simps]
def setCopy (u v : Nat) : MergePartialSubgraph :=
  { transform with copyVertexMap := Function.update transform.copyVertexMap u (some v) }

@[simps]
def setOmit (u : Nat) : MergePartialSubgraph :=
  { transform with omitVertexMap := Function.update transform.omitVertexMap u true }

/-- One further ROOT child of a placeholder at the trace beginning is fused into the merged
root, whose capability is that of the first ROOT. -/
def coalesceRoot (rootData : NodeData) (mergedRoot : Nat) (v : Nat) :
    Except Fault MergePartialSubgraph := do
  let vData := transform.subgraph.data v
  if !(← checkCapCompatible rootData vData) then .error .subgraphMerge
  else .ok (((transform.mergePartialVertexData vData mergedRoot).setCopy v mergedRoot).setOmit v)

/-- `_merge_trace_beginning(u)`: the ROOT children of placeholder `u` become one new vertex,
which also takes the place of `u` for its other children. -/
def mergeTraceBeginning (u : Nat) : Except Fault MergePartialSubgraph := do
  let outs := transform.subgraph.outNeighbours u
  let roots := outs.filter fun w => (transform.subgraph.data w).origin = .root
  let other := outs.filter fun w => (transform.subgraph.data w).origin ≠ .root
  match roots with
  | [] => if other.isEmpty then .ok transform else .error .missingParent
  | first :: rest =>
      let rootData := transform.subgraph.data first
      let (graph, mergedRoot) := transform.graph.addVertex rootData
      let transform := ({ transform with graph }.setCopy first mergedRoot).setOmit first
      let transform ← rest.foldlM (fun transform v => transform.coalesceRoot rootData mergedRoot v)
        transform
      .ok (if other.isEmpty then transform else transform.setCopy u mergedRoot)

/-- `_merge_initial_vertex_to_none(u)`: a placeholder with no predecessor must not have been
dereferenced and may have only ROOT children. -/
def mergeInitialVertexToNone (u : Nat) : Except Fault MergePartialSubgraph :=
  if (transform.subgraph.data u).events.countP (·.type.isDeref) ≠ 0 then .error .subgraphMerge
  else if (transform.subgraph.outNeighbours u).any
      (fun w => (transform.subgraph.data w).origin ≠ .root) then .error .missingParent
  else .ok transform

/-- One child `uOut` of placeholder `u` in `_merge_initial_vertex_to_prev`: a ROOT gives its
events to the previous vertex `v` and, if it agrees with `vData`, is suppressed, its children
moving to `u`. -/
def suppressRoot (u v : Nat) (vData : NodeData) (uOut : Nat) :
    Except Fault MergePartialSubgraph := do
  let uOutData := transform.subgraph.data uOut
  if uOutData.origin ≠ .root then .ok transform
  else if (transform.subgraph.inNeighbours uOut).length ≠ 1 then .error .subgraphMerge
  else
    let transform := transform.mergePartialVertexData uOutData v
    if (← checkCapCompatible uOutData vData) then
      let children := transform.subgraph.outNeighbours uOut
      .ok { transform.setOmit uOut with
            subgraph := children.foldl (fun subgraph w => subgraph.addEdge u w)
              transform.subgraph }
    else .ok transform

/-- `_merge_initial_vertex_to_prev(u, v)`; the loop runs over the children `u` has when it
starts. -/
def mergeInitialVertexToPrev (u v : Nat) : Except Fault MergePartialSubgraph :=
  let uData := transform.subgraph.data u
  let transform := transform.setCopy u v
  let vData := transform.graph.data v
  let transform := transform.mergePartialVertexData uData v
  (transform.subgraph.outNeighbours u).foldlM (fun transform uOut =>
    transform.suppressRoot u v vData uOut) transform

/-- `_merge_subgraph_vertex(u)`: copy `u` and the edges from its translated in-neighbours. -/
def mergeSubgraphVertex (u : Nat) : MergePartialSubgraph :=
  let (graph, v) := transform.graph.addVertex (transform.subgraph.data u)
  let transform := { transform with graph }.setCopy u v
  { transform with
    graph := (transform.subgraph.inNeighbours u).foldl (fun graph uIn =>
      match transform.copyVertexMap uIn with
      | some vIn => graph.addEdge vIn v
      | none => graph) transform.graph }

/-- `_merge_initial_mem_vertex(u)`: a vertex of `initial_map` is fused into the vertex the
previous window left at its address, or copied if there is none. -/
def mergeInitialMemVertex (u : Nat) : Except Fault MergePartialSubgraph :=
  match (result.memVertexMap.initialMap.keyOf? u).bind context.prevVmap.get? with
  | none => .ok (transform.mergeSubgraphVertex u)
  | some v => do
      let uData := transform.subgraph.data u
      if !(← checkCapCompatible uData (transform.graph.data v)) then .error .subgraphMerge
      else .ok ((transform.setCopy u v).mergePartialVertexData uData v)

/-- `_merge_initial_vertex(u)` for a placeholder `u`. -/
def mergeInitialVertex (u : Nat) : Except Fault MergePartialSubgraph :=
  if context.stepIdx = 0 then transform.mergeTraceBeginning u
  else
    let v := match result.initialRegset.index? u with
      | some idx => transform.previousRegset.regNodes idx
      | none => transform.previousRegset.pcc
    match v with
    | none => transform.mergeInitialVertexToNone u
    | some v => transform.mergeInitialVertexToPrev u v

/-- `_merge_pcc_fixup(u)` for the vertex the worker saw in `epcc` at its first BadVAddr read.
With no saved branch address in the previous window, `jmp_instr_addr + 4` is `None + 4`. -/
def mergePccFixup (u : Nat) : Except Fault MergePartialSubgraph :=
  match result.subPccFixup.badvaddr, context.prevPccFixup.savedAddr with
  | none, none => .ok transform
  | some _, none => .error .typeError
  | none, some _ => .ok transform
  | some badvaddr, some jmpInstrAddr =>
      if badvaddr = jmpInstrAddr ∨ badvaddr = jmpInstrAddr + 4 then
        if (transform.subgraph.data u).origin = .partialMarker then
          match result.initialRegset.index? u with
          | none => .error .valueError
          | some idx =>
              .ok { transform with
                    previousRegset :=
                      { transform.previousRegset with
                        regNodes := Function.update transform.previousRegset.regNodes idx
                          context.prevPccFixup.savedPcc } }
        else .error .subgraphMerge
      else .ok transform

/-- `_merge_syscall(u)` for the vertex the worker saw in `$c3` at its first unmatched `eret`. -/
def mergeSyscall (u : Nat) : MergePartialSubgraph :=
  match context.prevSyscall with
  | some prev =>
      if prev.active ∧ prev.pcEret = result.subSyscall.eretAddr then
        { transform with
          subgraph := transform.subgraph.modifyData u
            (·.addUseSyscall (result.subSyscall.eretTime.getD 0) (prev.code.getD 0) false) }
      else transform
  | none => transform

/-- `examine_vertex(u)`. -/
def examineVertex (u : Nat) : Except Fault MergePartialSubgraph :=
  if transform.omitVertexMap u then .ok transform
  else if context.stepIdx = 0 then
    if result.initialRegset.holds u then transform.mergeInitialVertex context result u
    else .ok (transform.mergeSubgraphVertex u)
  else
    (if result.subPccFixup.epcc = some u then transform.mergePccFixup context result u
      else .ok transform) >>= fun transform =>
    let transform :=
      if result.subSyscall.eretCap = some u then transform.mergeSyscall context result u
      else transform
    if result.initialRegset.holds u then transform.mergeInitialVertex context result u
    else if u ∈ result.memVertexMap.initialMap.values then
      transform.mergeInitialMemVertex context result u
    else .ok (transform.mergeSubgraphVertex u)

/-- `bfs_transform(subgraph, [transform])`. -/
def bfsTransform : Except Fault MergePartialSubgraph :=
  (List.range transform.subgraph.size).foldlM
    (fun transform u => transform.examineVertex context result u) transform

end MergePartialSubgraph

end Cheriplot.Provenance
