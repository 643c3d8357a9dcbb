import Cheriplot.Parser.Handlers

namespace Cheriplot.Provenance

/-! # The subparsers

`CapabilityBranchSubparser` moves `pcc` on capability branches and undoes a branch that took an
exception without committing, at the next read of BadVAddr; `SyscallSubparser` keeps the
exception depth and records the capabilities passed to and returned by the syscalls of
interest.  Both act on the worker state of `PointerProvenanceParser`.
`InitialStackAccessSubparser` writes one graph property, `pgm.stack`, at the first `eret`; it
reads only the record and its own flag, and no other callback reads what it writes, so it keeps
a state of its own.
-/

namespace PointerProvenanceParser

variable (parser : PointerProvenanceParser) (record : Record)

/-- `_save_branch_state(entry, branch_target)`. -/
def saveBranchState (branchTarget : Nat) : PointerProvenanceParser :=
  { parser with
    pccFixup :=
      { parser.pccFixup with
        saveFirstMfc := false, savedPcc := parser.regset.pcc, savedAddr := some record.pc,
        savedEpccOutNeighbours := some (parser.pgm.outNeighbours branchTarget) } }

/-- The part `scan_cjr` and `scan_cjalr` share: `pcc` takes the vertex of the target register,
which must be known and executable. -/
def branchToTarget (target : Fin 32) : Except Fault PointerProvenanceParser :=
  match parser.regset.regNodes target with
  | none => .error .unexpectedOperation
  | some newPcc =>
      let parser := if record.hasException then parser.saveBranchState record newPcc else parser
      let parser := parser.setPcc (some newPcc)
      match (parser.pgm.data newPcc).cap with
      | none => .error .attributeError
      | some cap => if cap.hasPerm CheriCap.permExec then .ok parser else .error .unexpectedOperation

/-- `scan_cjr`. -/
def scanCjr : Except Fault PointerProvenanceParser :=
  parser.branchToTarget record record.op0.capIndex

/-- The vertex `scan_cjalr` links: the old `pcc`, or a new ROOT if `pcc` is unknown. -/
def oldPccNode : PointerProvenanceParser × Nat :=
  match parser.regset.pcc, parser.hasPcc true with
  | some pcc, true => (parser, pcc)
  | _, _ => parser.makeRootNode record record.op0.value record.cycles none

/-- `scan_cjalr`: the link register takes the vertex of the old `pcc`, then `pcc` moves to the
target. -/
def scanCjalr : Except Fault PointerProvenanceParser :=
  let (parser, oldPccNode) := parser.oldPccNode record
  let parser := parser.setReg record.op0.capIndex (some oldPccNode)
  match record.op1 with
  | none => .error .attributeError
  | some op1 => parser.branchToTarget record op1.capIndex

/-- `CapabilityBranchSubparser.scan_dmfc0`: a read of BadVAddr (CP0 register 8) decides
whether the last branch with an exception committed; any CP0 read ends the pending branch. -/
def scanDmfc0 : Except Fault PointerProvenanceParser :=
  match parser.pccFixup.savedAddr with
  | some savedAddr =>
      match record.op1 with
      | none => .error .attributeError
      | some op1 =>
          let parser := { parser with pccFixup := { parser.pccFixup with saveFirstMfc := false } }
          let restored : Except Fault PointerProvenanceParser :=
            if op1.gprIndex = 8 ∧
                (record.op0.gprValue = savedAddr ∨ record.op0.gprValue = savedAddr + 4) then
              match parser.regset.regNodes 31, parser.pccFixup.savedEpccOutNeighbours with
              | none, _ => .error .attributeError
              | some _, none => .error .typeError
              | some epcc, some saved =>
                  if parser.pgm.outDegree epcc = saved.length then
                    .ok (parser.setReg 31 parser.pccFixup.savedPcc)
                  else .error .assertion
            else .ok parser
          restored.map fun parser =>
            { parser with pccFixup := { parser.pccFixup with savedAddr := none } }
  | none =>
      if parser.pccFixup.saveFirstMfc then
        match record.op1 with
        | none => .error .attributeError
        | some op1 =>
            if op1.gprIndex = 8 then
              .ok { parser with
                    pccFixup :=
                      { parser.pccFixup with
                        saveFirstMfc := false, initialBadvaddr := some record.op0.gprValue,
                        initialEpcc := parser.regset.regNodes 31 } }
            else .ok parser
      else .ok parser

/-- `CapabilityBranchSubparser.scan_eret`. -/
def branchScanEret : PointerProvenanceParser :=
  { parser with pccFixup := { parser.pccFixup with saveFirstMfc := false } }

/-- Where a syscall of interest keeps its capability: `SYS_RET` or an argument register. -/
inductive SyscallUse where
  | sysRet
  | arg (reg : Fin 32)
deriving DecidableEq, Repr

/-- `SyscallSubparser.syscall_codes`. -/
def syscallCodes : Nat → Option SyscallUse
  | 447 => some .sysRet
  | 228 => some .sysRet
  | 73 => some (.arg 3)
  | 230 => some (.arg 3)
  | _ => none

/-- `_get_syscall_code(regs)`: codes 0 and 198 are indirect and name the code in `$a0`. -/
def getSyscallCode (regs : RegisterFile) : Nat :=
  let code := regs.gpr 1
  let indirectCode := regs.gpr 3
  if code = 0 ∨ code = 198 then indirectCode else code

/-- `SyscallSubparser.scan_exception`.  The debug message it logs reads the data of `pcc` and
of `regset[29]`, which raises when either slot is empty. -/
def scanException : Except Fault PointerProvenanceParser :=
  let parser := { parser with
    syscallSubparser :=
      { parser.syscallSubparser with
        exceptionDepth := parser.syscallSubparser.exceptionDepth + 1 } }
  match parser.regset.pcc, parser.regset.regNodes 29 with
  | some _, some _ =>
      let parser := parser.setReg 31 parser.regset.pcc
      .ok (parser.setPcc (parser.regset.regNodes 29))
  | _, _ => .error .typeError

/-- `SyscallSubparser.scan_syscall`. -/
def scanSyscall : Except Fault PointerProvenanceParser :=
  let code := getSyscallCode record.regs
  let parser := { parser with
    syscallSubparser := { parser.syscallSubparser with code := some code } }
  match syscallCodes code with
  | none => .ok parser
  | some .sysRet =>
      .ok { parser with
            syscallSubparser :=
              { parser.syscallSubparser with inSyscall := true, pcEret := some (record.pc + 4) } }
  | some (.arg reg) =>
      match parser.regset.regNodes reg with
      | none => .error .typeError
      | some vertex => .ok (parser.modifyData vertex (·.addUseSyscall record.cycles code true))

/-- The syscall return of `scan_eret`: the vertex in `$c3` gets the `syscall_ret` event. -/
def recordSyscallReturn : Except Fault PointerProvenanceParser :=
  let parser := { parser with
    syscallSubparser := { parser.syscallSubparser with inSyscall := false } }
  match parser.regset.regNodes 3 with
  | none => .error .typeError
  | some vertex =>
      .ok (parser.modifyData vertex
        (·.addUseSyscall record.cycles (parser.syscallSubparser.code.getD 0) false))

/-- The exception level `scan_eret` pops; the `eret` of an exception the trace began in
records `$c3` and the return address, and the depth restarts at 0. -/
def popException (returnAddr : Nat) : SyscallSubparser :=
  let depth := parser.syscallSubparser.exceptionDepth - 1
  let syscall := { parser.syscallSubparser with exceptionDepth := depth }
  if depth < 0 then
    { syscall with
      initialEretCap := parser.regset.regNodes 3, initialEretAddr := some returnAddr,
      initialEretTime := some record.cycles, exceptionDepth := 0 }
  else syscall

/-- `SyscallSubparser.scan_eret`. -/
def syscallScanEret : Except Fault PointerProvenanceParser :=
  if !record.regs.validCaps 31 then .error .unexpectedOperation
  else
    let epcc := record.regs.capReg 31
    let returnAddr := epcc.base + epcc.offset
    let parser := { parser with syscallSubparser := parser.popException record returnAddr }
    let returned :=
      if parser.syscallSubparser.inSyscall ∧ parser.syscallSubparser.pcEret = some returnAddr then
        parser.recordSyscallReturn record
      else .ok parser
    returned.map fun parser => parser.setPcc (parser.regset.regNodes 31)

end PointerProvenanceParser

/-- The user stack at an `eret`: `$c11`, with the stack pointer `$sp` as offset. -/
def Record.userStack (record : Record) : CheriCap :=
  { record.regs.capReg 11 with offset := record.regs.gpr 29 }

/-- `InitialStackAccessSubparser`, with the `pgm.stack` property it writes; `none` is the
graph's default. -/
structure InitialStackAccessSubparser where
  firstEret : Bool
  stack : Option CheriCap
deriving DecidableEq, Repr

namespace InitialStackAccessSubparser

def initial : InitialStackAccessSubparser := ⟨false, none⟩

/-- `scan_eret`. -/
def scanEret (subparser : InitialStackAccessSubparser) (record : Record) :
    InitialStackAccessSubparser :=
  if subparser.firstEret then subparser else ⟨true, some record.userStack⟩

/-- The callbacks of one record: `scan_eret` at an `eret`. -/
def scan (subparser : InitialStackAccessSubparser) (record : Record) :
    InitialStackAccessSubparser :=
  if record.opcode = .eret then subparser.scanEret record else subparser

end InitialStackAccessSubparser

end Cheriplot.Provenance
