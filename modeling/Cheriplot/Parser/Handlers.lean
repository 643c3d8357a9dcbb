import Cheriplot.Model.Record
import Cheriplot.Parser.RegisterSet

namespace Cheriplot.Provenance

/-! # The worker state and the handlers of `PointerProvenanceParser`

A worker's state is the graph it builds, its register set, its vertex-memory map and the
state of its two subparsers.  Each `scan_*` callback is a function of the state and the
record; one that raises returns the exception as a `Fault`.
-/

/-- The exceptions a handler or a merge step can raise.  The first four are the errors the
parser module exports; the others are what Python raises on its own. -/
inductive Fault where
  | missingParent
  | dereferenceUnknown
  | unexpectedOperation
  | subgraphMerge
  /-- `NotImplementedError`, raised for `ccall`, `creturn` and `cclearregs`. -/
  | notImplemented
  /-- A failed `assert`. -/
  | assertion
  /-- `TypeError`, e.g. `None + 4` or a property-map lookup of `None`. -/
  | typeError
  /-- `AttributeError`, an attribute read on `None`. -/
  | attributeError
  /-- `ValueError` from `list.index`. -/
  | valueError
  /-- `IndexError` from a missing instruction operand. -/
  | indexError
  /-- The bare `RuntimeError` of `_handle_dereference`. -/
  | runtimeError
deriving DecidableEq, Repr

theorem Except.bind_eq_ok {ε α β : Type} {x : Except ε α} {f : α → Except ε β} {b : β} :
    x >>= f = .ok b ↔ ∃ a, x = .ok a ∧ f a = .ok b := by
  cases x <;> simp [bind, Except.bind]

theorem Except.map_eq_ok {ε α β : Type} {x : Except ε α} {f : α → β} {b : β} :
    x.map f = .ok b ↔ ∃ a, x = .ok a ∧ f a = b := by
  cases x <;> simp [Except.map]

structure CapabilityBranchSubparser where
  savedPcc : Option Nat
  savedAddr : Option Nat
  saveFirstMfc : Bool
  initialEpcc : Option Nat
  initialBadvaddr : Option Nat
  savedEpccOutNeighbours : Option (List Nat)

structure SyscallSubparser where
  inSyscall : Bool
  pcEret : Option Nat
  code : Option Nat
  exceptionDepth : Int
  initialEretCap : Option Nat
  initialEretAddr : Option Nat
  initialEretTime : Option Nat

/-- The state of one worker: `pgm`, `regset`, `vertex_map` and the two subparsers that touch
the graph (the initial-stack subparser only sets a graph property). -/
structure PointerProvenanceParser where
  pgm : Graph
  regset : RegisterSet
  vertexMap : MPVertexMemoryMap
  pccFixup : CapabilityBranchSubparser
  syscallSubparser : SyscallSubparser

namespace PointerProvenanceParser

variable (parser : PointerProvenanceParser) (record : Record)

/-- `self.regset[idx] = val`. -/
def setReg (idx : Fin 32) (val : Option Nat) : PointerProvenanceParser :=
  { parser with
    pgm := RegisterSet.attachSubgraphMerge parser.pgm (parser.regset.regNodes idx) val,
    regset := { parser.regset with regNodes := Function.update parser.regset.regNodes idx val } }

@[simp] theorem setReg_size (idx : Fin 32) (val : Option Nat) :
    (parser.setReg idx val).pgm.size = parser.pgm.size :=
  RegisterSet.attachSubgraphMerge_size _ _ _

/-- `self.regset.pcc = val`. -/
def setPcc (val : Option Nat) : PointerProvenanceParser :=
  { parser with
    pgm := RegisterSet.attachSubgraphMerge parser.pgm parser.regset.pcc val,
    regset := { parser.regset with pcc := val } }

@[simp] theorem setPcc_size (val : Option Nat) : (parser.setPcc val).pgm.size = parser.pgm.size :=
  RegisterSet.attachSubgraphMerge_size _ _ _

/-- `self.pgm.data[vertex]` updated by one of the event methods of `NodeData`. -/
def modifyData (vertex : Nat) (f : NodeData → NodeData) : PointerProvenanceParser :=
  { parser with pgm := parser.pgm.modifyData vertex f }

def hasReg (idx : Fin 32) (allowRoot : Bool) : Bool :=
  parser.regset.hasReg parser.pgm idx allowRoot

def hasPcc (allowRoot : Bool) : Bool := parser.regset.hasPcc parser.pgm allowRoot

/-- `make_root_node(entry, cap, time, pc)`. -/
def makeRootNode (cap : CheriCap) (time : Nat) (pc : Option Nat) :
    PointerProvenanceParser × Nat :=
  let data : NodeData :=
    { cap := some { cap with tAlloc := time }, origin := .root, pc := pc.getD record.pc,
      isKernel := record.isKernel, events := [] }
  let (pgm, vertex) := parser.pgm.addVertex data
  ({ parser with pgm }, vertex)

/-- `make_node(entry, inst, origin)`: a vertex made from operand 0 whose parent is the vertex
of the register in operand 1. -/
def makeNode (origin : CheriNodeOrigin) : Except Fault (PointerProvenanceParser × Nat) :=
  let data : NodeData :=
    { cap := some { record.op0.value with tAlloc := record.cycles }, origin, pc := record.pc,
      isKernel := record.isKernel, events := [] }
  match record.op1 with
  | none => .error .indexError
  | some op =>
      match parser.regset.regNodes op.capIndex with
      | none => .error .missingParent
      | some parent =>
          let (pgm, vertex) := parser.pgm.addVertex data
          .ok ({ parser with pgm := pgm.addEdge parent vertex }, vertex)

/-- What a `make_node` that returns has done: one vertex with the given origin and an empty log,
the edge to it from the vertex of the source register. -/
theorem makeNode_eq_ok {origin : CheriNodeOrigin} {result : PointerProvenanceParser × Nat}
    (made : parser.makeNode record origin = .ok result) :
    ∃ src parent data, record.op1 = some src ∧ parser.regset.regNodes src.capIndex = some parent ∧
      data.origin = origin ∧ data.events = [] ∧
      result = ({ parser with
        pgm := ((parser.pgm.addVertex data).1).addEdge parent parser.pgm.size }, parser.pgm.size) := by
  unfold makeNode at made
  split at made
  · cases made
  split at made
  · cases made
  cases made
  exact ⟨_, _, _, ‹_›, ‹_›, rfl, rfl, rfl⟩

/-- The body shared by `scan_csetbounds`, `scan_cfromptr` and `scan_candperm`. -/
def scanDerivation (origin : CheriNodeOrigin) : Except Fault PointerProvenanceParser :=
  (parser.makeNode record origin).map fun (parser, node) =>
    parser.setReg record.op0.capIndex (some node)

def scanCsetbounds : Except Fault PointerProvenanceParser := parser.scanDerivation record .setbounds

def scanCfromptr : Except Fault PointerProvenanceParser := parser.scanDerivation record .fromptr

def scanCandperm : Except Fault PointerProvenanceParser := parser.scanDerivation record .andperm

def handleCpregGet (regnum : Fin 32) : PointerProvenanceParser :=
  let parser :=
    if parser.hasReg regnum true then parser
    else
      let (parser, node) := parser.makeRootNode record record.op0.value record.cycles none
      parser.setReg regnum (some node)
  parser.setReg record.op0.capIndex (parser.regset.regNodes regnum)

def handleCpregSet (regnum : Fin 32) : Except Fault PointerProvenanceParser :=
  match record.op1 with
  | none => .error .attributeError
  | some op1 =>
      let parser :=
        if parser.hasReg op1.capIndex true then parser
        else
          let (parser, node) := parser.makeRootNode record record.op0.value record.cycles none
          parser.setReg op1.capIndex (some node)
      .ok (parser.setReg regnum (parser.regset.regNodes op1.capIndex))

def scanCgetepcc : PointerProvenanceParser := parser.handleCpregGet record 31

def scanCsetepcc : Except Fault PointerProvenanceParser := parser.handleCpregSet record 31

def scanCgetkcc : PointerProvenanceParser := parser.handleCpregGet record 29

def scanCsetkcc : Except Fault PointerProvenanceParser := parser.handleCpregSet record 29

def scanCgetkdc : PointerProvenanceParser := parser.handleCpregGet record 30

def scanCsetkdc : Except Fault PointerProvenanceParser := parser.handleCpregSet record 30

def scanCgetdefault : PointerProvenanceParser := parser.handleCpregGet record 0

def scanCsetdefault : Except Fault PointerProvenanceParser := parser.handleCpregSet record 0

/-- `scan_cgetpcc`, which `scan_cgetpccsetoffset` calls as it is. -/
def scanCgetpcc : PointerProvenanceParser :=
  let parser :=
    if parser.hasPcc true then parser
    else
      let (parser, node) := parser.makeRootNode record record.op0.value record.cycles none
      parser.setPcc (some node)
  parser.setReg record.op0.capIndex parser.regset.pcc

/-- The root branch of `update_regs`: a register that became valid with no known source gets
a ROOT, installed in the source slot and then the destination slot. -/
def updateRegsRoot (idx : Nat) : Except Fault PointerProvenanceParser :=
  let dst := record.op0
  if (!record.lastRegs.validCaps dst.capIndex && record.regs.validCaps dst.capIndex) || idx == 0
  then
    let (parser, dstVertex) := parser.makeRootNode record dst.value record.cycles (some record.pc)
    match record.op1 with
    | none => .error .attributeError
    | some src =>
        .ok ((parser.setReg src.capIndex (some dstVertex)).setReg dst.capIndex (some dstVertex))
  else .ok parser

def updateRegs (idx : Nat) : Except Fault PointerProvenanceParser :=
  if record.op0.isCapability then
    match record.op1 with
    | some src =>
        if src.isCapability && parser.hasReg src.capIndex true then
          .ok (parser.setReg record.op0.capIndex (parser.regset.regNodes src.capIndex))
        else parser.updateRegsRoot record idx
    | none => parser.updateRegsRoot record idx
  else .ok parser

/-- `scan_cap`: capability instructions without a handler of their own go to `update_regs`. -/
def scanCap (idx : Nat) : Except Fault PointerProvenanceParser :=
  if record.isStore || record.isLoad || record.opcode.inCbkNames then .ok parser
  else parser.updateRegs record idx

def handleDereference (ptrReg : Fin 32) : Except Fault PointerProvenanceParser :=
  match parser.regset.regNodes ptrReg with
  | none => .error .dereferenceUnknown
  | some node =>
      let isCap := record.opcode.isCapMnemonic
      if record.isLoad then
        .ok (parser.modifyData node (·.addDerefLoad record.cycles record.memoryAddress isCap))
      else if record.isStore then
        .ok (parser.modifyData node (·.addDerefStore record.cycles record.memoryAddress isCap))
      else if record.hasException then .ok parser
      else .error .runtimeError

/-- The register of the pointer operand of a load, by the mnemonic tests of `scan_cap_load`. -/
def loadPointer : Opcode → Option (Option Operand)
  | .capLoad .linked => some record.op1
  | .clcr | .clci | .capLoad .indexed => some (some record.op2)
  | .clc | .capLoad .plain => some (some record.op3)
  | _ => none

/-- The register of the pointer operand of a store, by the mnemonic tests of
`scan_cap_store`. -/
def storePointer : Opcode → Option Operand
  | .cscr | .csci | .capStore .indexed | .capStore .conditional => some record.op2
  | .csc | .capStore .plain => some record.op3
  | _ => none

def scanCapLoad : Except Fault PointerProvenanceParser :=
  match loadPointer record record.opcode with
  | some (some ptr) => parser.handleDereference record ptr.capIndex
  | some none => .error .attributeError
  | none => .ok parser

def scanCapStore : Except Fault PointerProvenanceParser :=
  match storePointer record record.opcode with
  | some ptr => parser.handleDereference record ptr.capIndex
  | none => .ok parser

/-- The vertex a committed `clc` loads: the one `vertex_map` holds for the address, or else a
new ROOT for the loaded value, recorded in the map. -/
def loadedNode : PointerProvenanceParser × Nat :=
  match parser.vertexMap.memLoad record.memoryAddress with
  | some node => (parser, node)
  | none =>
      let (parser, node) := parser.makeRootNode record record.op0.value record.cycles none
      ({ parser with vertexMap := parser.vertexMap.memLoadSet record.memoryAddress node }, node)

/-- `scan_clc` (also `scan_clcr` and `scan_clci`). -/
def scanClc : PointerProvenanceParser :=
  let cd := record.op0.capIndex
  let addr := record.memoryAddress
  if !record.op0.value.valid then
    let node := parser.vertexMap.memLoad addr
    let parser := parser.setReg cd none
    match node with
    | some _ => { parser with vertexMap := parser.vertexMap.clear addr }
    | none => parser
  else if record.lastRegs.capReg cd ≠ record.regs.capReg cd || !record.hasException then
    let (parser, node) := parser.loadedNode record
    (parser.modifyData node (·.addMemLoad record.cycles addr)).setReg cd (some node)
  else parser

/-- The vertex `scan_csc` stores: the one in the register, or else a new ROOT for the stored
value, installed in the register. -/
def storedNode : PointerProvenanceParser × Nat :=
  match parser.regset.regNodes record.op0.capIndex, parser.hasReg record.op0.capIndex true with
  | some node, true => (parser, node)
  | _, _ =>
      let (parser, node) := parser.makeRootNode record record.op0.value record.cycles none
      (parser.setReg record.op0.capIndex (some node), node)

/-- `scan_csc` (also `scan_cscr` and `scan_csci`). -/
def scanCsc : PointerProvenanceParser :=
  if record.op0.value.valid then
    let (parser, node) := parser.storedNode record
    { parser with vertexMap := parser.vertexMap.memStore record.memoryAddress node }.modifyData
      node (·.addMemStore record.cycles record.memoryAddress)
  else parser

end PointerProvenanceParser

end Cheriplot.Provenance
