import Cheriplot.Parser.Subparsers

namespace Cheriplot.Provenance

/-! # Callback dispatch and the worker run

The callback parser calls, for each record, the handlers registered for its opcode (those of
the parser, then those of the subparsers in the order they were added), then the handlers of
its instruction classes, then `scan_exception` when the entry took an exception.  A worker
(`_do_parse`) starts from 33 placeholder vertices, one per register and one for `pcc`, and
scans its window of the trace; `idx` is the index of the record in the whole trace.
-/

namespace PointerProvenanceParser

variable (parser : PointerProvenanceParser) (record : Record)

/-- The `scan_<opcode>` callbacks. -/
def scanOpcode : Except Fault PointerProvenanceParser :=
  match record.opcode with
  | .cjr => parser.scanCjr record
  | .cjalr => parser.scanCjalr record
  | .ccall | .creturn | .cclearregs => .error .notImplemented
  | .csetbounds => parser.scanCsetbounds record
  | .cfromptr => parser.scanCfromptr record
  | .candperm => parser.scanCandperm record
  | .cgetepcc => .ok (parser.scanCgetepcc record)
  | .csetepcc => parser.scanCsetepcc record
  | .cgetkcc => .ok (parser.scanCgetkcc record)
  | .csetkcc => parser.scanCsetkcc record
  | .cgetkdc => .ok (parser.scanCgetkdc record)
  | .csetkdc => parser.scanCsetkdc record
  | .cgetdefault => .ok (parser.scanCgetdefault record)
  | .csetdefault => parser.scanCsetdefault record
  | .cgetpcc | .cgetpccsetoffset => .ok (parser.scanCgetpcc record)
  | .clc | .clcr | .clci => .ok (parser.scanClc record)
  | .csc | .cscr | .csci => .ok (parser.scanCsc record)
  | .dmfc0 => parser.scanDmfc0 record
  | .eret => (parser.syscallScanEret record).map branchScanEret
  | .syscall => parser.scanSyscall record
  | .csetboundsexact | .capLoad _ | .capStore _ | .capOther | .other => .ok parser

/-- The instruction-class callbacks: `scan_cap`, `scan_cap_load`, `scan_cap_store`. -/
def scanIClass (idx : Nat) : Except Fault PointerProvenanceParser :=
  (if record.opcode.isCapInstruction then parser.scanCap record idx else .ok parser) >>=
    fun parser => (if record.opcode.isCapLoad then parser.scanCapLoad record else .ok parser) >>=
    fun parser => if record.opcode.isCapStore then parser.scanCapStore record else .ok parser

/-- All the callbacks of one record. -/
def scan (idx : Nat) : Except Fault PointerProvenanceParser := do
  let parser ← parser.scanOpcode record
  let parser ← parser.scanIClass record idx
  if record.hasException then parser.scanException else .ok parser

/-- Scan records one after the other, the first with trace index `idx`. -/
def run : PointerProvenanceParser → Nat → List Record → Except Fault PointerProvenanceParser
  | parser, _, [] => .ok parser
  | parser, idx, record :: records => do
      let parser ← parser.scan record idx
      run parser (idx + 1) records

end PointerProvenanceParser

/-- The placeholders of a worker: vertex `i` for register `i`, vertex 32 for `pcc`. -/
def initialRegset : RegisterSet := ⟨fun idx => some idx.val, some 32⟩

/-- The worker state `_do_parse` sets up before scanning: 33 `PARTIAL` vertices installed in
the register set, an empty `MPVertexMemoryMap`, fresh subparsers. -/
def initialParser : PointerProvenanceParser :=
  { pgm := { size := 33, data := fun _ => NodeData.placeholder, edges := [] },
    regset := initialRegset,
    vertexMap := MPVertexMemoryMap.empty,
    pccFixup :=
      { savedPcc := none, savedAddr := none, saveFirstMfc := true, initialEpcc := none,
        initialBadvaddr := none, savedEpccOutNeighbours := none },
    syscallSubparser :=
      { inSyscall := false, pcEret := none, code := none, exceptionDepth := 0,
        initialEretCap := none, initialEretAddr := none, initialEretTime := none } }

/-- `_do_parse(start, end)`: one worker over the records of its window. -/
def doParse (start : Nat) (records : List Record) : Except Fault PointerProvenanceParser :=
  initialParser.run start records

/-- A `clc` into `$c5`, which still holds its placeholder, hangs the ROOT it makes for the
loaded capability under that placeholder, although the window began with `$c5` null. -/
theorem doParse_attaches_loaded_root :
    (Record.loadCap 1 5 wideCap).lastRegs.capReg 5 = CheriCap.null ∧
    (doParse 0 [Record.loadCap 1 5 wideCap]).map (fun parser =>
      (parser.pgm.edges, (parser.pgm.data 33).origin, (parser.pgm.data 33).cap)) =
      .ok ([(5, 33)], .root, some { wideCap with tAlloc := 1 }) :=
  ⟨rfl, by rfl⟩

/-- A `clc` of an untagged value empties `$c3`; a later syscall taking `$c3` as argument then
reads the data of no vertex. -/
theorem doParse_syscall_arg_typeError :
    doParse 0 [Record.loadCap 1 3 CheriCap.null, Record.callSyscall 2 73] = .error .typeError := by
  rfl

/-- `cmove $c2, $c4` after `cgetkcc $c2`, with `$c4` unknown to the worker and `$c2` tagged
before and after: `update_regs` finds no vertex for `$c4` and, `$c2` having been valid already,
makes no ROOT, so `$c2` keeps vertex 33, the ROOT of the `kcc` value it held before the move. -/
theorem doParse_move_keeps_stale :
    (Record.move 2 2 4 wideCap).lastRegs.validCaps 2 = true ∧
    (Record.move 2 2 4 wideCap).regs.validCaps 2 = true ∧
    (doParse 0 [Record.getKcc 1 2, Record.move 2 2 4 wideCap]).map (fun parser =>
      (parser.regset.regNodes 2, parser.regset.regNodes 4, parser.pgm.size,
        (parser.pgm.data 33).cap)) = .ok (some 33, some 4, 34, some { sampleCap with tAlloc := 1 }) :=
  ⟨rfl, rfl, by rfl⟩

/-- `csetbounds $c3, $c2` at cycle 2 taking exception 2, with `$c3` the same before and
after. -/
def Record.trappedNarrow : Record := { Record.narrow 2 3 2 with exception := some 2 }

/-- `csetbounds $c3, $c2` taking an exception with `$c3` the same before and after, so without
committing: `scan_csetbounds` adds vertex 34 under the ROOT of `kcc` and installs it in `$c3`
all the same. -/
theorem doParse_uncommitted_derivation :
    Record.trappedNarrow.hasException = true ∧
    Record.trappedNarrow.lastRegs.capReg 3 = Record.trappedNarrow.regs.capReg 3 ∧
    (doParse 0 [Record.getKcc 1 2]).map (fun parser =>
      (parser.pgm.size, parser.regset.regNodes 3)) = .ok (34, some 3) ∧
    (doParse 0 [Record.getKcc 1 2, Record.trappedNarrow]).map (fun parser =>
      (parser.pgm.size, parser.pgm.inNeighbours 34, (parser.pgm.data 34).origin,
        parser.regset.regNodes 3)) = .ok (35, [33], .setbounds, some 34) :=
  ⟨rfl, rfl, by rfl, by rfl⟩

/-- What `CapabilityBranchSubparser.mp_result()` returns, without the saved out-neighbours,
which the merge does not read. -/
structure PccFixupResult where
  savedAddr : Option Nat
  savedPcc : Option Nat
  epcc : Option Nat
  badvaddr : Option Nat

/-- What `SyscallSubparser.mp_result()` returns. -/
structure SyscallResult where
  code : Option Nat
  active : Bool
  pcEret : Option Nat
  eretTime : Option Nat
  eretCap : Option Nat
  eretAddr : Option Nat

/-- What `PointerProvenanceParser.mp_result()` returns; `stack` is the `stack` property of
`pgm`. -/
structure WorkerResult where
  pgm : Graph
  stack : Option CheriCap
  initialRegset : RegisterSet
  finalRegset : RegisterSet
  memVertexMap : MPVertexMemoryMap
  subPccFixup : PccFixupResult
  subSyscall : SyscallResult

/-- `CapabilityBranchSubparser.mp_result()`. -/
def PointerProvenanceParser.pccFixupResult (parser : PointerProvenanceParser) : PccFixupResult :=
  { savedAddr := parser.pccFixup.savedAddr, savedPcc := parser.pccFixup.savedPcc,
    epcc := parser.pccFixup.initialEpcc, badvaddr := parser.pccFixup.initialBadvaddr }

/-- `SyscallSubparser.mp_result()`. -/
def PointerProvenanceParser.syscallResult (parser : PointerProvenanceParser) : SyscallResult :=
  { code := parser.syscallSubparser.code, active := parser.syscallSubparser.inSyscall,
    pcEret := parser.syscallSubparser.pcEret,
    eretTime := parser.syscallSubparser.initialEretTime,
    eretCap := parser.syscallSubparser.initialEretCap,
    eretAddr := parser.syscallSubparser.initialEretAddr }

/-- `mp_result()` of a worker whose initial-stack subparser ended in `initialStack`. -/
def PointerProvenanceParser.mpResult (parser : PointerProvenanceParser)
    (initialStack : InitialStackAccessSubparser) : WorkerResult :=
  { pgm := parser.pgm,
    stack := initialStack.stack,
    initialRegset := initialRegset,
    finalRegset := parser.regset,
    memVertexMap := parser.vertexMap,
    subPccFixup := parser.pccFixupResult,
    subSyscall := parser.syscallResult }

end Cheriplot.Provenance
