import Cheriplot.Model.Graph

namespace Cheriplot.Provenance

/-! # Trace records

One decoded trace entry as the callbacks of `PointerProvenanceParser` receive it: the parsed
instruction `inst`, the trace entry `entry`, and the register files after (`regs`) and before
(`last_regs`) the instruction.  Only the fields the parser reads are kept.
-/

/-- How a data load through a capability names its pointer, as `scan_cap_load` reads it off
the mnemonic: `clX[u]` (operand 3), `clXr`/`clXi` (operand 2), `cllX` (operand 1). -/
inductive LoadForm where
  | plain
  | indexed
  | linked
deriving DecidableEq, Repr

/-- How a data store through a capability names its pointer, as `scan_cap_store` reads it:
`csX` (operand 3), `csXr`/`csXi` (operand 2), `cscX` store-conditional (operand 2). -/
inductive StoreForm where
  | plain
  | indexed
  | conditional
deriving DecidableEq, Repr

/-- The opcodes the parser dispatches on by name, and one constructor for each instruction
class it handles as a whole. -/
inductive Opcode where
  | cjr
  | cjalr
  | ccall
  | creturn
  | cclearregs
  | cfromptr
  | csetbounds
  | csetboundsexact
  | candperm
  | cgetepcc
  | csetepcc
  | cgetkcc
  | csetkcc
  | cgetkdc
  | csetkdc
  | cgetdefault
  | csetdefault
  | cgetpcc
  | cgetpccsetoffset
  | clc
  | clcr
  | clci
  | csc
  | cscr
  | csci
  /-- Any other load through a capability (`IClass.I_CAP_LOAD`). -/
  | capLoad (form : LoadForm)
  /-- Any other store through a capability (`IClass.I_CAP_STORE`). -/
  | capStore (form : StoreForm)
  /-- Any other capability instruction (`IClass.I_CAP`), left to `update_regs`. -/
  | capOther
  | dmfc0
  | eret
  | syscall
  /-- An instruction outside the capability coprocessor. -/
  | other
deriving DecidableEq, Repr

namespace Opcode

/-- `IClass.I_CAP`: every instruction of the capability coprocessor. -/
def isCapInstruction : Opcode → Bool
  | .dmfc0 | .eret | .syscall | .other => false
  | _ => true

/-- `IClass.I_CAP_LOAD`. -/
def isCapLoad : Opcode → Bool
  | .clc | .clcr | .clci | .capLoad _ => true
  | _ => false

/-- `IClass.I_CAP_STORE`. -/
def isCapStore : Opcode → Bool
  | .csc | .cscr | .csci | .capStore _ => true
  | _ => false

/-- `inst.opcode in self._cbk_names`: the opcodes with handlers of their own, together with
`IClass.I_CAP_CPREG`. -/
def inCbkNames : Opcode → Bool
  | .cjr | .cjalr | .ccall | .creturn | .cfromptr | .csetbounds | .csetboundsexact
  | .candperm | .cgetepcc | .csetepcc | .cgetkcc | .csetkcc | .cgetkdc | .csetkdc
  | .cgetdefault | .csetdefault | .cgetpcc | .cgetpccsetoffset => true
  | _ => false

/-- `opcode.startswith("clc") or opcode.startswith("csc")`. -/
def isCapMnemonic : Opcode → Bool
  | .clc | .clcr | .clci | .csc | .cscr | .csci | .capStore .conditional => true
  | _ => false

end Opcode

/-- An instruction operand.  `value` is the capability a capability operand holds and
`gprValue` the integer a general-purpose or CP0 operand holds. -/
structure Operand where
  isCapability : Bool
  capIndex : Fin 32
  gprIndex : Nat
  value : CheriCap
  gprValue : Nat
deriving DecidableEq, Repr

/-- The register file of a trace entry (`pycheritrace` `register_set`). -/
structure RegisterFile where
  validCaps : Fin 32 → Bool
  capReg : Fin 32 → CheriCap
  gpr : Nat → Nat

/-- One callback invocation: `inst`, `entry`, `regs` and `last_regs`.  `exception` is
`none` when the entry carries exception code 31, the code for no exception. -/
structure Record where
  cycles : Nat
  pc : Nat
  opcode : Opcode
  op0 : Operand
  op1 : Option Operand
  op2 : Operand
  op3 : Operand
  regs : RegisterFile
  lastRegs : RegisterFile
  memoryAddress : Nat
  exception : Option Nat
  isLoad : Bool
  isStore : Bool
  isKernel : Bool

/-- `_has_exception(entry)` and `inst.has_exception`. -/
def Record.hasException (record : Record) : Bool := record.exception.isSome

/-! ## Sample records

The witnesses and counterexamples of the development run the parser on short traces built from
these.  `sampleCap` is an executable 4 KiB capability at 4096, `narrowCap` its first 16 bytes
and `wideCap` the first 64 KiB.  Record `n` of a sample trace runs at cycle `n` and address
`4 * n`; loads and stores go through `$c1` to address 8192, and `move` is a capability move left
to `update_regs`, with every capability register tagged before and after. -/

def CheriCap.null : CheriCap := ⟨0, 0, 0, 0, 0, false, 0⟩

def sampleCap : CheriCap := ⟨4096, 4096, 0, CheriCap.permExec, 0, true, 0⟩

def narrowCap : CheriCap := { sampleCap with length := 16 }

def wideCap : CheriCap := { sampleCap with base := 0, length := 65536 }

def Operand.cap (idx : Fin 32) (value : CheriCap) : Operand := ⟨true, idx, 0, value, 0⟩

def Operand.gpr (idx value : Nat) : Operand := ⟨false, 0, idx, CheriCap.null, value⟩

def RegisterFile.cleared : RegisterFile := ⟨fun _ => false, fun _ => CheriCap.null, fun _ => 0⟩

def Record.blank (cycles pc : Nat) : Record :=
  { cycles, pc, opcode := .other, op0 := .gpr 0 0, op1 := none, op2 := .gpr 0 0,
    op3 := .gpr 0 0, regs := .cleared, lastRegs := .cleared, memoryAddress := 0,
    exception := none, isLoad := false, isStore := false, isKernel := false }

def Record.getKcc (cycles : Nat) (cd : Fin 32) : Record :=
  { Record.blank cycles (4 * cycles) with opcode := .cgetkcc, op0 := .cap cd sampleCap }

def Record.narrow (cycles : Nat) (cd cb : Fin 32) : Record :=
  { Record.blank cycles (4 * cycles) with
    opcode := .csetbounds, op0 := .cap cd narrowCap, op1 := some (.cap cb sampleCap) }

def Record.loadCap (cycles : Nat) (cd : Fin 32) (value : CheriCap) : Record :=
  { Record.blank cycles (4 * cycles) with
    opcode := .clc, op0 := .cap cd value, op3 := .cap 1 sampleCap, memoryAddress := 8192,
    isLoad := true }

def Record.storeCap (cycles : Nat) (cs : Fin 32) (value : CheriCap) : Record :=
  { Record.blank cycles (4 * cycles) with
    opcode := .csc, op0 := .cap cs value, op3 := .cap 1 sampleCap, memoryAddress := 8192,
    isStore := true }

def Record.readBadvaddr (cycles value : Nat) : Record :=
  { Record.blank cycles (4 * cycles) with
    opcode := .dmfc0, op0 := .gpr 2 value, op1 := some (.gpr 8 0) }

def Record.readCp0 (cycles reg value : Nat) : Record :=
  { Record.blank cycles (4 * cycles) with
    opcode := .dmfc0, op0 := .gpr 2 value, op1 := some (.gpr reg 0) }

def Record.move (cycles : Nat) (cd cs : Fin 32) (value : CheriCap) : Record :=
  { Record.blank cycles (4 * cycles) with
    opcode := .capOther, op0 := .cap cd value, op1 := some (.cap cs value),
    regs := { RegisterFile.cleared with validCaps := fun _ => true },
    lastRegs := { RegisterFile.cleared with validCaps := fun _ => true } }

def Record.callSyscall (cycles code : Nat) : Record :=
  { Record.blank cycles (4 * cycles) with
    opcode := .syscall, regs := { RegisterFile.cleared with gpr := fun reg => if reg = 1 then code else 0 } }

end Cheriplot.Provenance
