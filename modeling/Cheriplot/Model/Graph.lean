import Mathlib.Logic.Function.Basic

namespace Cheriplot.Provenance

/-! # Provenance graph data

The values the parser attaches to graph vertices (`cheriplot.provenance.model`, which the
parser imports with `*`) and the directed graph itself (the `graph_tool.Graph` behind a
`ProvenanceGraphManager`).  A vertex is its index, as in graph-tool; edges are kept in
insertion order, which is the order in which graph-tool reports neighbours.
-/

/-- A capability register value (`CheriCap`).  `tAlloc` is the allocation time the
parser stamps on the value it stores in a vertex. -/
structure CheriCap where
  base : Nat
  length : Nat
  offset : Nat
  permissions : Nat
  objtype : Nat
  valid : Bool
  tAlloc : Nat
deriving DecidableEq, Repr

namespace CheriCap

/-- `CheriCapPerm.EXEC`: the Permit_Execute bit of the CHERI permission mask. -/
def permExec : Nat := 2

def bound (cap : CheriCap) : Nat := cap.base + cap.length

def hasPerm (cap : CheriCap) (perm : Nat) : Bool := cap.permissions &&& perm != 0

/-- `cap` lies within `outer`: its bounds inside those of `outer` and its permissions among
those of `outer`. -/
def within (cap outer : CheriCap) : Bool :=
  outer.base ≤ cap.base && cap.bound ≤ outer.bound &&
    cap.permissions &&& outer.permissions == cap.permissions

end CheriCap

/-- `CheriNodeOrigin`, restricted to the tags the parser produces.  `partialMarker` is
`PARTIAL`, the dummy vertex a worker creates for each register at its window start. -/
inductive CheriNodeOrigin where
  | root
  | setbounds
  | fromptr
  | andperm
  | partialMarker
deriving DecidableEq, Repr

/-- `NodeData.EventType`, one tag per method of `NodeData` that appends an event. -/
inductive EventType where
  | derefLoad
  | derefStore
  | memLoad
  | memStore
  | useSyscallArg
  | useSyscallRet
deriving DecidableEq, Repr

/-- `EventType.deref_mask()`: the dereference events. -/
def EventType.isDeref : EventType → Bool
  | .derefLoad | .derefStore => true
  | _ => false

/-- One row of the event table of a vertex; for a syscall use `addr` holds the code. -/
structure Event where
  time : Nat
  addr : Nat
  type : EventType
  isCap : Bool
deriving DecidableEq, Repr

/-- `NodeData`.  `cap` is `none` for the data of `NodeData()`, which the placeholders keep. -/
structure NodeData where
  cap : Option CheriCap
  origin : CheriNodeOrigin
  pc : Nat
  isKernel : Bool
  events : List Event
deriving Repr

namespace NodeData

/-- The data `_do_parse` gives each placeholder: `NodeData()` with origin `PARTIAL`. -/
def placeholder : NodeData :=
  { cap := none, origin := .partialMarker, pc := 0, isKernel := false, events := [] }

def addEvent (data : NodeData) (event : Event) : NodeData :=
  { data with events := data.events ++ [event] }

def addDerefLoad (data : NodeData) (time addr : Nat) (isCap : Bool) : NodeData :=
  data.addEvent ⟨time, addr, .derefLoad, isCap⟩

def addDerefStore (data : NodeData) (time addr : Nat) (isCap : Bool) : NodeData :=
  data.addEvent ⟨time, addr, .derefStore, isCap⟩

def addMemLoad (data : NodeData) (time addr : Nat) : NodeData :=
  data.addEvent ⟨time, addr, .memLoad, false⟩

def addMemStore (data : NodeData) (time addr : Nat) : NodeData :=
  data.addEvent ⟨time, addr, .memStore, false⟩

def addUseSyscall (data : NodeData) (time code : Nat) (isArg : Bool) : NodeData :=
  data.addEvent ⟨time, code, if isArg then .useSyscallArg else .useSyscallRet, false⟩

@[simp] theorem addEvent_cap (data : NodeData) (event : Event) :
    (data.addEvent event).cap = data.cap := rfl

@[simp] theorem addEvent_origin (data : NodeData) (event : Event) :
    (data.addEvent event).origin = data.origin := rfl

@[simp] theorem addEvent_events (data : NodeData) (event : Event) :
    (data.addEvent event).events = data.events ++ [event] := rfl

end NodeData

/-- A directed graph with one `NodeData` per vertex.  Vertices are `0, …, size - 1`. -/
structure Graph where
  size : Nat
  data : Nat → NodeData
  edges : List (Nat × Nat)

namespace Graph

def empty : Graph := ⟨0, fun _ => NodeData.placeholder, []⟩

/-- `add_vertex()` followed by the assignment of its data; returns the new vertex. -/
def addVertex (graph : Graph) (data : NodeData) : Graph × Nat :=
  ({ size := graph.size + 1, data := Function.update graph.data graph.size data,
     edges := graph.edges }, graph.size)

def addEdge (graph : Graph) (source target : Nat) : Graph :=
  { graph with edges := graph.edges ++ [(source, target)] }

/-- Replace the data of one vertex, as the event-appending methods of `NodeData` do. -/
def modifyData (graph : Graph) (vertex : Nat) (f : NodeData → NodeData) : Graph :=
  { graph with data := Function.update graph.data vertex (f (graph.data vertex)) }

def inNeighbours (graph : Graph) (vertex : Nat) : List Nat :=
  graph.edges.filterMap fun edge => if edge.2 = vertex then some edge.1 else none

def outNeighbours (graph : Graph) (vertex : Nat) : List Nat :=
  graph.edges.filterMap fun edge => if edge.1 = vertex then some edge.2 else none

def inDegree (graph : Graph) (vertex : Nat) : Nat := (graph.inNeighbours vertex).length

def outDegree (graph : Graph) (vertex : Nat) : Nat := (graph.outNeighbours vertex).length

variable (graph : Graph) (data : NodeData) (vertex source target : Nat)

@[simp] theorem addVertex_vertex : (graph.addVertex data).2 = graph.size := rfl

@[simp] theorem addVertex_size : (graph.addVertex data).1.size = graph.size + 1 := rfl

@[simp] theorem addVertex_edges : (graph.addVertex data).1.edges = graph.edges := rfl

theorem addVertex_data :
    (graph.addVertex data).1.data vertex =
      if vertex = graph.size then data else graph.data vertex := by
  simp [addVertex, Function.update_apply]

@[simp] theorem addEdge_size : (graph.addEdge source target).size = graph.size := rfl

@[simp] theorem addEdge_data : (graph.addEdge source target).data = graph.data := rfl

@[simp] theorem addEdge_edges :
    (graph.addEdge source target).edges = graph.edges ++ [(source, target)] := rfl

@[simp] theorem modifyData_size (f : NodeData → NodeData) :
    (graph.modifyData vertex f).size = graph.size := rfl

@[simp] theorem modifyData_edges (f : NodeData → NodeData) :
    (graph.modifyData vertex f).edges = graph.edges := rfl

theorem modifyData_data (f : NodeData → NodeData) (other : Nat) :
    (graph.modifyData vertex f).data other =
      if other = vertex then f (graph.data vertex) else graph.data other := by
  simp [modifyData, Function.update_apply]

/-- Changing the events of a vertex keeps every origin. -/
theorem modifyData_origin {f : NodeData → NodeData}
    (keeps : ∀ data, (f data).origin = data.origin) (other : Nat) :
    ((graph.modifyData vertex f).data other).origin = (graph.data other).origin := by
  rw [modifyData_data]
  split
  · subst other; exact keeps _
  · rfl

theorem mem_inNeighbours {source target : Nat} :
    source ∈ graph.inNeighbours target ↔ (source, target) ∈ graph.edges := by
  simp only [inNeighbours, List.mem_filterMap]
  constructor
  · rintro ⟨⟨a, b⟩, member, found⟩
    by_cases same : b = target <;> simp_all
  · exact fun member => ⟨_, member, by simp⟩

theorem mem_outNeighbours {source target : Nat} :
    target ∈ graph.outNeighbours source ↔ (source, target) ∈ graph.edges := by
  simp only [outNeighbours, List.mem_filterMap]
  constructor
  · rintro ⟨⟨a, b⟩, member, found⟩
    by_cases same : a = source <;> simp_all
  · exact fun member => ⟨_, member, by simp⟩

@[simp] theorem inNeighbours_addEdge :
    (graph.addEdge source target).inNeighbours vertex =
      graph.inNeighbours vertex ++ if target = vertex then [source] else [] := by
  by_cases same : target = vertex <;> simp [inNeighbours, same]

@[simp] theorem outNeighbours_addEdge :
    (graph.addEdge source target).outNeighbours vertex =
      graph.outNeighbours vertex ++ if source = vertex then [target] else [] := by
  by_cases same : source = vertex <;> simp [outNeighbours, same]

@[simp] theorem inNeighbours_addVertex :
    (graph.addVertex data).1.inNeighbours vertex = graph.inNeighbours vertex := rfl

@[simp] theorem outNeighbours_addVertex :
    (graph.addVertex data).1.outNeighbours vertex = graph.outNeighbours vertex := rfl

@[simp] theorem inNeighbours_modifyData (f : NodeData → NodeData) (other : Nat) :
    (graph.modifyData vertex f).inNeighbours other = graph.inNeighbours other := rfl

@[simp] theorem outNeighbours_modifyData (f : NodeData → NodeData) (other : Nat) :
    (graph.modifyData vertex f).outNeighbours other = graph.outNeighbours other := rfl

end Graph

/-- A Python `dict` from addresses to vertices, as an association list in insertion order. -/
abbrev AddrMap := List (Nat × Nat)

namespace AddrMap

def get? (map : AddrMap) (addr : Nat) : Option Nat := map.lookup addr

/-- `map[addr] = vertex`: an existing key keeps its position. -/
def set (map : AddrMap) (addr vertex : Nat) : AddrMap :=
  if (map.lookup addr).isSome then
    map.map fun entry => if entry.1 = addr then (addr, vertex) else entry
  else map ++ [(addr, vertex)]

/-- `del map[addr]`. -/
def erase (map : AddrMap) (addr : Nat) : AddrMap := map.filter fun entry => entry.1 != addr

/-- `map.values()`. -/
def values (map : AddrMap) : List Nat := map.map Prod.snd

/-- The first key mapped to `vertex`, as the loop of `_merge_initial_mem_vertex` finds it. -/
def keyOf? (map : AddrMap) (vertex : Nat) : Option Nat :=
  (map.find? fun entry => entry.2 = vertex).map Prod.fst

end AddrMap

end Cheriplot.Provenance
