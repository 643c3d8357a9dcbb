import Cheriplot.Merge.Transform

namespace Cheriplot.Provenance

/-! # The merge driver and the whole build

`MergePartialSubgraphContext.step` merges one worker result and, in `finalize`, translates the
worker's final register set, vertex-memory map and subparser states into the merged graph's
vertices for the next step.  `mp_merge` folds the steps over the results in trace order, and
`build` is the windowed build: one worker per window, then the merge.
-/

/-- `_merge_graph_properties()`: the first step copies the `stack` property of the worker's
graph; the later ones leave the merged graph's. -/
def MergePartialSubgraphContext.mergeGraphProperties (context : MergePartialSubgraphContext)
    (result : WorkerResult) : Option CheriCap :=
  if context.stepIdx = 0 then result.stack else context.stack

namespace MergePartialSubgraph

variable (context : MergePartialSubgraphContext) (result : WorkerResult)
  (transform : MergePartialSubgraph)

/-- `get_final_regset()`. -/
def getFinalRegset : RegisterSet :=
  { regNodes := fun idx => (result.finalRegset.regNodes idx).bind transform.copyVertexMap,
    pcc := result.finalRegset.pcc.bind transform.copyVertexMap }

/-- `get_final_vmap()`: the worker's final map, keeping the addresses whose vertex was
copied. -/
def getFinalVmap : AddrMap :=
  result.memVertexMap.vertexMap.filterMap fun entry =>
    (transform.copyVertexMap entry.2).map (entry.1, ·)

/-- `get_final_pcc_fixup()`. -/
def getFinalPccFixup : Except Fault PccFixupResult :=
  match result.subPccFixup.savedPcc with
  | none => .ok result.subPccFixup
  | some savedPcc =>
      match transform.copyVertexMap savedPcc with
      | none => .error .subgraphMerge
      | some v => .ok { result.subPccFixup with savedPcc := some v }

/-- `get_final_syscall()`; the first step leaves `eret_cap` untranslated. -/
def getFinalSyscall : Except Fault SyscallResult :=
  match result.subSyscall.eretCap with
  | some eretCap =>
      if 0 < context.stepIdx then
        match transform.copyVertexMap eretCap with
        | none => .error .subgraphMerge
        | some v => .ok { result.subSyscall with eretCap := some v }
      else .ok result.subSyscall
  | none => .ok result.subSyscall

/-- `finalize()`, which also ends the step (`step_idx += 1`). -/
def finalize : Except Fault MergePartialSubgraphContext := do
  let pccFixup ← transform.getFinalPccFixup result
  let syscall ← transform.getFinalSyscall context result
  .ok { pgm := transform.graph,
        stack := context.mergeGraphProperties result,
        prevRegset := transform.getFinalRegset result,
        prevVmap := transform.getFinalVmap result,
        prevPccFixup := pccFixup,
        prevSyscall := some syscall,
        stepIdx := context.stepIdx + 1 }

end MergePartialSubgraph

namespace MergePartialSubgraphContext

/-- `MergePartialSubgraphContext.step(result)`.  `_merge_graph_properties` sets the `stack`
property, which nothing else in the step reads; `finalize` passes it on. -/
def step (context : MergePartialSubgraphContext) (result : WorkerResult) :
    Except Fault MergePartialSubgraphContext := do
  let transform : MergePartialSubgraph :=
    { graph := context.pgm, subgraph := result.pgm, copyVertexMap := fun _ => none,
      omitVertexMap := fun _ => false, previousRegset := context.prevRegset }
  let transform ← transform.bfsTransform context result
  transform.finalize context result

end MergePartialSubgraphContext

/-- `mp_merge(results)`: the steps over the worker results, in trace order. -/
def mpMerge (results : List WorkerResult) : Except Fault MergePartialSubgraphContext :=
  results.foldlM MergePartialSubgraphContext.step MergePartialSubgraphContext.initial

/-- One worker per window; each numbers its records from where its window starts.  Its
initial-stack subparser sees the same records as the worker's other callbacks. -/
def runWorkers : Nat → List (List Record) → Except Fault (List WorkerResult)
  | _, [] => .ok []
  | start, window :: windows => do
      let parser ← doParse start window
      let results ← runWorkers (start + window.length) windows
      .ok (parser.mpResult (window.foldl InitialStackAccessSubparser.scan .initial) :: results)

/-- The build over a partition of the trace into consecutive windows.  The single-window build
is `build [trace]`. -/
def build (windows : List (List Record)) : Except Fault MergePartialSubgraphContext := do
  mpMerge (← runWorkers 0 windows)

/-- A first BadVAddr read in a window after one that left no pending branch: the merge adds 4
to the absent saved address, where the single-window build completes. -/
theorem build_split_badvaddr_typeError :
    (build [[Record.blank 1 0, Record.readBadvaddr 2 256]]).isOk = true ∧
    build [[Record.blank 1 0], [Record.readBadvaddr 2 256]] = .error .typeError :=
  ⟨by rfl, by rfl⟩

/-- `kcc` gets a ROOT in each window.  The second one is suppressed into the first without a
`copy_vertex_map` entry, so `$c1`, which the second window set from `kcc`, reaches the next
step empty; the single-window builder holds the ROOT of `kcc` there, merged vertex 0. -/
theorem build_split_drops_suppressed_root :
    (build [[Record.getKcc 1 2], [Record.getKcc 2 1]]).map (·.prevRegset.regNodes 1) =
      .ok none ∧
    (doParse 0 [Record.getKcc 1 2, Record.getKcc 2 1]).map (·.regset.regNodes 1) =
      .ok (some 33) ∧
    (build [[Record.getKcc 1 2, Record.getKcc 2 1]]).map (·.prevRegset.regNodes 1) =
      .ok (some 0) :=
  ⟨by rfl, by rfl, by rfl⟩

/-- The second window loads `wideCap` into `$c5`, which the first window narrowed to
`narrowCap`: the ROOT of the load, hung under the placeholder of `$c5`, does not agree with
`narrowCap`, is kept, and becomes a child of the `narrowCap` vertex. -/
theorem build_split_edge_widens :
    (Record.narrow 2 5 1).op0.value.within sampleCap = true ∧
    wideCap.within narrowCap = false ∧
    (build [[Record.getKcc 1 1, Record.narrow 2 5 1], [Record.loadCap 3 5 wideCap]]).map
      (fun context => (context.pgm.edges, (context.pgm.data 1).cap, (context.pgm.data 2).cap)) =
      .ok ([(0, 1), (1, 2)], some { narrowCap with tAlloc := 2 }, some { wideCap with tAlloc := 3 }) :=
  ⟨by rfl, by rfl, by rfl⟩

end Cheriplot.Provenance
