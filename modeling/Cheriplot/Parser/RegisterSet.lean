import Cheriplot.Model.Graph
import Mathlib.Data.List.FinRange

namespace Cheriplot.Provenance

/-! # Register set and vertex-memory map

`RegisterSet` maps each of the 32 capability registers, and `pcc`, to the vertex that stands
for the capability it holds.  Every assignment goes through `_attach_subgraph_merge`, which
hangs a ROOT under the placeholder the slot still holds, so the assignment is an operation on
the graph as well (`RegisterSet.attachSubgraphMerge`).
-/

structure RegisterSet where
  regNodes : Fin 32 → Option Nat
  pcc : Option Nat

namespace RegisterSet

/-- `RegisterSet(None)`: every slot empty. -/
def empty : RegisterSet := ⟨fun _ => none, none⟩

/-- `_attach_subgraph_merge(regset_vertex, input_vertex)`: a ROOT that no placeholder holds
yet becomes a child of the placeholder it replaces. -/
def attachSubgraphMerge (pgm : Graph) (regsetVertex inputVertex : Option Nat) : Graph :=
  match regsetVertex, inputVertex with
  | some current, some input =>
      if (pgm.data input).origin = .root then
        if (pgm.inNeighbours input).any fun n => (pgm.data n).origin = .partialMarker then pgm
        else if (pgm.data current).origin = .partialMarker then pgm.addEdge current input
        else pgm
      else pgm
  | _, _ => pgm

/-- `has_reg(idx, allow_root)`: the slot is filled and, when `allowRoot`, does not hold a
placeholder. -/
def hasReg (regset : RegisterSet) (pgm : Graph) (idx : Fin 32) (allowRoot : Bool) : Bool :=
  match regset.regNodes idx with
  | none => false
  | some vertex => !(allowRoot && (pgm.data vertex).origin = .partialMarker)

/-- `has_pcc(allow_root)`. -/
def hasPcc (regset : RegisterSet) (pgm : Graph) (allowRoot : Bool) : Bool :=
  match regset.pcc with
  | none => false
  | some vertex => !(allowRoot && (pgm.data vertex).origin = .partialMarker)

/-- `u in regset.reg_nodes or u == regset.pcc`. -/
def holds (regset : RegisterSet) (vertex : Nat) : Bool :=
  (List.finRange 32).any (fun idx => regset.regNodes idx == some vertex) ||
    regset.pcc == some vertex

/-- `regset.reg_nodes.index(u)`, `none` where Python raises `ValueError`. -/
def index? (regset : RegisterSet) (vertex : Nat) : Option (Fin 32) :=
  (List.finRange 32).find? fun idx => regset.regNodes idx == some vertex

/-- Which vertices a register set points to: `vertices` bounds every slot. -/
def Bounded (regset : RegisterSet) (vertices : Nat) : Prop :=
  (∀ idx vertex, regset.regNodes idx = some vertex → vertex < vertices) ∧
    ∀ vertex, regset.pcc = some vertex → vertex < vertices

theorem attachSubgraphMerge_size (pgm : Graph) (current input : Option Nat) :
    (attachSubgraphMerge pgm current input).size = pgm.size := by
  unfold attachSubgraphMerge
  split <;> (try split_ifs) <;> rfl

theorem attachSubgraphMerge_data (pgm : Graph) (current input : Option Nat) :
    (attachSubgraphMerge pgm current input).data = pgm.data := by
  unfold attachSubgraphMerge
  split <;> (try split_ifs) <;> rfl

/-- The only edge an assignment can add: from the placeholder the slot held to a ROOT that
no placeholder held before. -/
theorem attachSubgraphMerge_cases (pgm : Graph) (current input : Option Nat) :
    attachSubgraphMerge pgm current input = pgm ∨
      ∃ placeholder root, current = some placeholder ∧ input = some root ∧
        (pgm.data root).origin = .root ∧
        (∀ n ∈ pgm.inNeighbours root, (pgm.data n).origin ≠ .partialMarker) ∧
        (pgm.data placeholder).origin = .partialMarker ∧
        attachSubgraphMerge pgm current input = pgm.addEdge placeholder root := by
  unfold attachSubgraphMerge
  split
  · rename_i placeholder root
    split_ifs with isRoot held isPartial
    · exact .inl rfl
    · refine .inr ⟨placeholder, root, rfl, rfl, isRoot, ?_, isPartial, rfl⟩
      simpa using held
    · exact .inl rfl
    · exact .inl rfl
  · exact .inl rfl

/-- An assignment keeps the in-neighbours of every vertex other than a ROOT. -/
theorem attachSubgraphMerge_inNeighbours (pgm : Graph) (current input : Option Nat) {w : Nat}
    (notRoot : (pgm.data w).origin ≠ .root) :
    (attachSubgraphMerge pgm current input).inNeighbours w = pgm.inNeighbours w := by
  rcases attachSubgraphMerge_cases pgm current input with same | ⟨_, root, -, -, isRoot, -, -, added⟩
  · rw [same]
  · have other : root ≠ w := fun same => notRoot (same ▸ isRoot)
    simp [added, other]

end RegisterSet

/-- `MPVertexMemoryMap`: the vertex stored at each address, and the first vertex a worker
recorded for each address it loaded from before any store (`initial_map`). -/
structure MPVertexMemoryMap where
  vertexMap : AddrMap
  initialMap : AddrMap

namespace MPVertexMemoryMap

def empty : MPVertexMemoryMap := ⟨[], []⟩

/-- `mem_load(addr)`: the vertex stored at `addr`, if any. -/
def memLoad (map : MPVertexMemoryMap) (addr : Nat) : Option Nat := map.vertexMap.get? addr

/-- `mem_load(addr, vertex)`: record `vertex` at `addr`, and in `initial_map` if the address
is new to it. -/
def memLoadSet (map : MPVertexMemoryMap) (addr vertex : Nat) : MPVertexMemoryMap :=
  { initialMap :=
      if (map.initialMap.lookup addr).isSome then map.initialMap
      else map.initialMap.set addr vertex,
    vertexMap := map.vertexMap.set addr vertex }

/-- `mem_store(addr, vertex)`, which `MPVertexMemoryMap` inherits unchanged. -/
def memStore (map : MPVertexMemoryMap) (addr vertex : Nat) : MPVertexMemoryMap :=
  { map with vertexMap := map.vertexMap.set addr vertex }

/-- `clear(addr)`. -/
def clear (map : MPVertexMemoryMap) (addr : Nat) : MPVertexMemoryMap :=
  { map with vertexMap := map.vertexMap.erase addr }

end MPVertexMemoryMap

end Cheriplot.Provenance
