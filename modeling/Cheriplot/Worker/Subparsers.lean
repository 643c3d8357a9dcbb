import Cheriplot.Parser.Scan
import Cheriplot.Worker.Memory

namespace Cheriplot.Provenance

/-! # What one record does to the subparsers

Beside the graph, a worker keeps the state of `CapabilityBranchSubparser` and
`SyscallSubparser`, and the merge reads part of it: the branch left pending at the end of the
window (`saved_addr`), the first BadVAddr read of the window with the vertex `epcc` held then
(`initial_badvaddr`, `initial_epcc`), the `eret` that left an exception the window did not see
begin (`initial_eret_*`), and the syscall still waiting for its return (`code`, `in_syscall`,
`pc_eret`).  Only the callbacks of the capability branches, `dmfc0`, `eret` and `syscall`, and
`scan_exception`, touch that state; the other callbacks are `Quiet`.

Most of this state is a function of the records alone.  `EretTracker` counts exception levels:
an exception pushes a level, an `eret` pops one, and an `eret` that finds no level open returns
from an exception taken before the window, which is recorded.  `CallTracker` follows the
syscalls: each sets the code, one whose return value is a capability opens a call returning to
the next instruction, and an `eret` to that address closes it.  `pendingBranch` follows the
branch a later BadVAddr read is checked against.  The first BadVAddr read also depends on the
register set, so `FirstReadStep` says what one record may do to it.

`LogsOnly` bounds what the callbacks may log on each vertex.  The opcode callbacks log memory
events (`MemLogged`: a `clc` or a `csc`, on the vertex that the register and the memory map then
both hold) and syscall events (`SyscallLogged`); the instruction-class callbacks log only
dereferences (`DerefLogged`, on the vertex in the pointer register); `scan_exception` logs
nothing.  `SubparserStep` collects what the callbacks of one record do, the syscall events they
log included: a record logs a syscall return only at an `eret` that closes the open call.
-/

/-- The return address of an `eret`: the cursor of `epcc` in the entry's register file. -/
def Record.eretAddr (record : Record) : Nat :=
  (record.regs.capReg 31).base + (record.regs.capReg 31).offset

/-- A `dmfc0` from BadVAddr, CP0 register 8. -/
def Record.readsBadvaddr (record : Record) : Bool :=
  decide (record.opcode = .dmfc0) && record.op1.any (·.gprIndex == 8)

theorem Record.readsBadvaddr_of_ne {record : Record} (other : record.opcode ≠ .dmfc0) :
    record.readsBadvaddr = false := by
  simp [Record.readsBadvaddr, other]

/-! ## Exception levels -/

/-- The exception levels as `SyscallSubparser` counts them: the depth, and the return address
and cycle of the last `eret` that found no level open. -/
structure EretTracker where
  depth : Int
  eretAddr : Option Nat
  eretTime : Option Nat
deriving DecidableEq, Repr

namespace EretTracker

def initial : EretTracker := ⟨0, none, none⟩

/-- The `eret` of a record closes a level; with none open it is recorded and the count
restarts at 0. -/
def closeLevel (tracker : EretTracker) (record : Record) : EretTracker :=
  if record.opcode = .eret then
    if tracker.depth ≤ 0 then ⟨0, some record.eretAddr, some record.cycles⟩
    else { tracker with depth := tracker.depth - 1 }
  else tracker

def openLevel (tracker : EretTracker) (record : Record) : EretTracker :=
  if record.hasException then { tracker with depth := tracker.depth + 1 } else tracker

/-- One record: its `eret`, then the exception it took. -/
def step (tracker : EretTracker) (record : Record) : EretTracker :=
  (tracker.closeLevel record).openLevel record

/-- What the tracker guarantees after `records`: no negative depth, and a recorded `eret` that is
one of the records, with time and return address both taken from it. -/
structure Sound (tracker : EretTracker) (records : List Record) : Prop where
  nonneg : 0 ≤ tracker.depth
  recorded : tracker.eretAddr = none ∧ tracker.eretTime = none ∨
    ∃ record ∈ records, record.opcode = .eret ∧ tracker.eretAddr = some record.eretAddr ∧
      tracker.eretTime = some record.cycles

variable {tracker : EretTracker} {seen : List Record}

theorem closeLevel_of_ne {record : Record} (other : record.opcode ≠ .eret) :
    tracker.closeLevel record = tracker :=
  if_neg other

theorem Sound.initial : initial.Sound [] := ⟨le_refl 0, .inl ⟨rfl, rfl⟩⟩

theorem Sound.closeLevel (sound : tracker.Sound seen) (record : Record) :
    (tracker.closeLevel record).Sound (seen ++ [record]) := by
  have earlier : tracker.Sound (seen ++ [record]) :=
    ⟨sound.nonneg, sound.recorded.imp_right fun ⟨eret, member, rest⟩ =>
      ⟨eret, List.mem_append_left _ member, rest⟩⟩
  unfold EretTracker.closeLevel
  split_ifs with eret closed
  · exact ⟨le_refl 0, .inr ⟨record, by simp, eret, rfl, rfl⟩⟩
  · exact ⟨by simp only; omega, earlier.recorded⟩
  · exact earlier

theorem Sound.openLevel (sound : tracker.Sound seen) (record : Record) :
    (tracker.openLevel record).Sound seen := by
  unfold EretTracker.openLevel
  split_ifs
  · exact ⟨Int.le_add_one sound.nonneg, sound.recorded⟩
  · exact sound

theorem Sound.foldl (sound : tracker.Sound seen) (records : List Record) :
    (records.foldl step tracker).Sound (seen ++ records) := by
  induction records generalizing tracker seen with
  | nil => simpa using sound
  | cons record records ih => simpa using ih ((sound.closeLevel record).openLevel record)

end EretTracker

/-- What `SyscallSubparser` keeps of the exception levels. -/
def SyscallSubparser.tracker (syscall : SyscallSubparser) : EretTracker :=
  ⟨syscall.exceptionDepth, syscall.initialEretAddr, syscall.initialEretTime⟩

/-! ## Syscalls waiting for their return -/

open PointerProvenanceParser (getSyscallCode syscallCodes)

/-- The syscall `SyscallSubparser` waits on: the code of the last syscall, whether a call whose
return value is a capability is open, and the address its `eret` returns to. -/
structure CallTracker where
  code : Option Nat
  active : Bool
  pcEret : Option Nat
deriving DecidableEq, Repr

namespace CallTracker

def initial : CallTracker := ⟨none, false, none⟩

/-- One record: a syscall sets the code, and one whose return value is a capability opens a
call returning to the next instruction; an `eret` to that address closes the open call. -/
def step (calls : CallTracker) (record : Record) : CallTracker :=
  if record.opcode = .syscall then
    if syscallCodes (getSyscallCode record.regs) = some .sysRet then
      ⟨some (getSyscallCode record.regs), true, some (record.pc + 4)⟩
    else { calls with code := some (getSyscallCode record.regs) }
  else if record.opcode = .eret ∧ calls.active ∧ calls.pcEret = some record.eretAddr then
    { calls with active := false }
  else calls

/-- What the tracker guarantees after `records`: an open return address is `pc + 4` of a
syscall of the records whose return value is a capability, an open call has a code and a return
address, and the code is that of the last syscall of the records. -/
structure Sound (calls : CallTracker) (records : List Record) : Prop where
  opened : ∀ addr, calls.pcEret = some addr → ∃ call ∈ records, call.opcode = .syscall ∧
    syscallCodes (getSyscallCode call.regs) = some .sysRet ∧ call.pc + 4 = addr
  coded : calls.active = true → calls.code.isSome
  returning : calls.active = true → calls.pcEret.isSome
  last : ∀ code, calls.code = some code →
    ∃ front call back, records = front ++ call :: back ∧ call.opcode = .syscall ∧
      getSyscallCode call.regs = code ∧ ∀ later ∈ back, later.opcode ≠ .syscall

variable {calls : CallTracker} {seen : List Record} {record : Record}

theorem step_of_ne (notSyscall : record.opcode ≠ .syscall) (notEret : record.opcode ≠ .eret) :
    calls.step record = calls := by
  simp [step, notSyscall, notEret]

theorem Sound.initial : initial.Sound [] :=
  ⟨fun _ opened => (by cases opened), fun active => (by cases active),
    fun active => (by cases active), fun _ coded => (by cases coded)⟩

theorem Sound.extend (sound : calls.Sound seen) (notSyscall : record.opcode ≠ .syscall) :
    calls.Sound (seen ++ [record]) := by
  refine ⟨fun addr opened => ?_, sound.coded, sound.returning, fun code coded => ?_⟩
  · obtain ⟨call, member, rest⟩ := sound.opened addr opened
    exact ⟨call, List.mem_append_left _ member, rest⟩
  · obtain ⟨front, call, back, split, syscall, same, later⟩ := sound.last code coded
    refine ⟨front, call, back ++ [record], by simp [split], syscall, same,
      fun other member => ?_⟩
    rcases List.mem_append.mp member with old | new
    · exact later other old
    · rw [List.mem_singleton.mp new]
      exact notSyscall

theorem Sound.step (sound : calls.Sound seen) (record : Record) :
    (calls.step record).Sound (seen ++ [record]) := by
  have newest : ∀ code, getSyscallCode record.regs = code → record.opcode = .syscall →
      ∃ front call back, seen ++ [record] = front ++ call :: back ∧ call.opcode = .syscall ∧
        getSyscallCode call.regs = code ∧ ∀ later ∈ back, later.opcode ≠ .syscall :=
    fun _ same syscall =>
      ⟨seen, record, [], rfl, syscall, same, fun _ member => by cases member⟩
  unfold CallTracker.step
  split_ifs with syscall returns closing
  · refine ⟨fun addr opened => ⟨record, by simp, syscall, returns, ?_⟩, fun _ => rfl,
      fun _ => rfl, fun code coded => newest code (by simpa using coded) syscall⟩
    simpa using opened
  · refine ⟨fun addr opened => ?_, fun _ => rfl, sound.returning,
      fun code coded => newest code (by simpa using coded) syscall⟩
    obtain ⟨call, member, rest⟩ := sound.opened addr opened
    exact ⟨call, List.mem_append_left _ member, rest⟩
  · have extended := sound.extend syscall
    exact ⟨extended.opened, fun active => (by cases active), fun active => (by cases active),
      extended.last⟩
  · exact sound.extend syscall

theorem Sound.foldl (sound : calls.Sound seen) (records : List Record) :
    (records.foldl CallTracker.step calls).Sound (seen ++ records) := by
  induction records generalizing calls seen with
  | nil => simpa using sound
  | cons record records ih => simpa using ih (sound.step record)

end CallTracker

/-- What `SyscallSubparser` keeps of the syscalls: the code, `in_syscall` and `pc_eret`. -/
def SyscallSubparser.calls (syscall : SyscallSubparser) : CallTracker :=
  ⟨syscall.code, syscall.inSyscall, syscall.pcEret⟩

/-! ## The pending branch -/

/-- The branch left pending after a record: a capability branch that took an exception leaves its
own address, a `dmfc0` ends any pending branch, and any other record leaves it as it was. -/
def pendingBranch (pending : Option Nat) (record : Record) : Option Nat :=
  if (record.opcode = .cjr ∨ record.opcode = .cjalr) ∧ record.hasException then some record.pc
  else if record.opcode = .dmfc0 then none
  else pending

/-! ## The first BadVAddr read -/

/-- The first BadVAddr read `CapabilityBranchSubparser` records: the value read and the vertex
of `epcc` at that moment. -/
def CapabilityBranchSubparser.firstRead (fixup : CapabilityBranchSubparser) :
    Option Nat × Option Nat :=
  (fixup.initialBadvaddr, fixup.initialEpcc)

/-- A handler that leaves the recorded read alone and does not raise `save_first_mfc`. -/
def CapabilityBranchSubparser.Keeps (fixup fixup' : CapabilityBranchSubparser) : Prop :=
  fixup'.firstRead = fixup.firstRead ∧ (fixup'.saveFirstMfc = true → fixup.saveFirstMfc = true)

theorem CapabilityBranchSubparser.Keeps.refl (fixup : CapabilityBranchSubparser) :
    fixup.Keeps fixup :=
  ⟨rfl, id⟩

/-- What one record can do to the first BadVAddr read: the flag only falls, and a record after
which it is still up is neither an `eret` nor a BadVAddr read; the recorded read changes only at
a BadVAddr read made while the flag is up, which takes the flag down and records the value read
and the vertex of `epcc` before the record. -/
structure FirstReadStep (record : Record) (parser parser' : PointerProvenanceParser) : Prop where
  raised : parser'.pccFixup.saveFirstMfc = true →
    parser.pccFixup.saveFirstMfc = true ∧ record.opcode ≠ .eret ∧ record.readsBadvaddr = false
  read : parser'.pccFixup.firstRead = parser.pccFixup.firstRead ∨
    parser.pccFixup.saveFirstMfc = true ∧ parser'.pccFixup.saveFirstMfc = false ∧
      record.readsBadvaddr = true ∧
      parser'.pccFixup.firstRead = (some record.op0.gprValue, parser.regset.regNodes 31)

namespace FirstReadStep

variable {record : Record} {parser mid parser' : PointerProvenanceParser}

theorem of_keeps (keeps : parser.pccFixup.Keeps parser'.pccFixup)
    (notEret : record.opcode ≠ .eret) (notRead : record.readsBadvaddr = false) :
    FirstReadStep record parser parser' :=
  ⟨fun up => ⟨keeps.2 up, notEret, notRead⟩, .inl keeps.1⟩

theorem congr (step : FirstReadStep record parser mid) (same : parser'.pccFixup = mid.pccFixup) :
    FirstReadStep record parser parser' :=
  ⟨by rw [same]; exact step.raised, by rw [same]; exact step.read⟩

end FirstReadStep

/-! ## Logs -/

/-- At each vertex `v`, `graph'` logs the events `graph` logs there and otherwise only events
that `allowed v` admits. -/
def LogsOnly (allowed : Nat → Event → Prop) (graph graph' : Graph) : Prop :=
  ∀ v, ∀ event ∈ (graph'.data v).events, event ∈ (graph.data v).events ∨ allowed v event

namespace LogsOnly

variable {allowed : Nat → Event → Prop} {graph graph' graph'' : Graph}

theorem refl : LogsOnly allowed graph graph := fun _ _ member => .inl member

theorem of_data (data : graph'.data = graph.data) : LogsOnly allowed graph graph' :=
  fun v _ member => .inl (by rwa [data] at member)

theorem trans (first : LogsOnly allowed graph graph') (second : LogsOnly allowed graph' graph'') :
    LogsOnly allowed graph graph'' :=
  fun v event member => (second v event member).elim (first v event) .inr

theorem mono {allowed' : Nat → Event → Prop} (logs : LogsOnly allowed graph graph')
    (wider : ∀ v event, allowed v event → allowed' v event) : LogsOnly allowed' graph graph' :=
  fun v event member => (logs v event member).imp_right (wider v event)

theorem addVertex {data : NodeData} (empty : data.events = []) :
    LogsOnly allowed graph (graph.addVertex data).1 := by
  intro v event member
  rw [Graph.addVertex_data] at member
  split at member
  · rw [empty] at member
    cases member
  · exact .inl member

theorem addEvent (vertex : Nat) {event : Event} (admitted : allowed vertex event) :
    LogsOnly allowed graph (graph.modifyData vertex (·.addEvent event)) := by
  intro v other member
  rw [Graph.modifyData_data] at member
  split at member
  · subst v
    rcases List.mem_append.mp member with old | new
    · exact .inl old
    · exact .inr (List.mem_singleton.mp new ▸ admitted)
  · exact .inl member

end LogsOnly

/-- The syscall-return events a record may log: at an `eret` that returns where the open call
returns, the event at the record's cycle carrying the code of the last syscall. -/
def RetLogged (calls : CallTracker) (record : Record) (event : Event) : Prop :=
  event.type = .useSyscallRet → record.opcode = .eret ∧ calls.active = true ∧
    calls.pcEret = some record.eretAddr ∧ event.time = record.cycles ∧
    event.addr = calls.code.getD 0

open PointerProvenanceParser (getSyscallCode syscallCodes) in
/-- The syscall-argument events a record may log on vertex `v`: at a syscall whose code takes a
capability argument, on the vertex its argument register holds, at the record's cycle and with
the syscall's code. -/
def ArgLogged (parser : PointerProvenanceParser) (record : Record) (v : Nat) (event : Event) :
    Prop :=
  event.type = .useSyscallArg → record.opcode = .syscall ∧
    ∃ reg, syscallCodes (getSyscallCode record.regs) = some (.arg reg) ∧
      parser.regset.regNodes reg = some v ∧
      event = ⟨record.cycles, getSyscallCode record.regs, .useSyscallArg, false⟩

/-- The syscall events a record may log on vertex `v`, from the worker state `parser` it starts
in. -/
def SyscallLogged (parser : PointerProvenanceParser) (record : Record) (v : Nat) (event : Event) :
    Prop :=
  RetLogged parser.syscallSubparser.calls record event ∧ ArgLogged parser record v event

def Event.NotSyscall (event : Event) : Prop :=
  event.type ≠ .useSyscallArg ∧ event.type ≠ .useSyscallRet

theorem Event.NotSyscall.syscallLogged {event : Event} (other : event.NotSyscall)
    {parser : PointerProvenanceParser} {record : Record} {v : Nat} :
    SyscallLogged parser record v event :=
  ⟨fun ret => absurd ret other.2, fun arg => absurd arg other.1⟩

theorem Event.notSyscall_of_isDeref {event : Event} (deref : event.type.isDeref = true) :
    event.NotSyscall :=
  ⟨fun arg => by simp [arg, EventType.isDeref] at deref,
    fun ret => by simp [ret, EventType.isDeref] at deref⟩

/-- The event `_handle_dereference` logs for a load or a store: at the record's cycle and memory
address, marked as a capability access for the `clc` and `csc` mnemonics. -/
def DerefEvent (record : Record) (event : Event) : Prop :=
  record.isLoad = true ∧
      event = ⟨record.cycles, record.memoryAddress, .derefLoad, record.opcode.isCapMnemonic⟩ ∨
    record.isLoad = false ∧ record.isStore = true ∧
      event = ⟨record.cycles, record.memoryAddress, .derefStore, record.opcode.isCapMnemonic⟩

theorem DerefEvent.access {record : Record} {event : Event} (deref : DerefEvent record event) :
    record.isLoad = true ∨ record.isStore = true :=
  deref.imp (·.1) (·.2.1)

/-- The dereference events the instruction-class callbacks of a record may log on vertex `v`,
from the state `parser` its opcode callbacks left: the event of the load or the store, on the
vertex in its pointer register. -/
def DerefLogged (parser : PointerProvenanceParser) (record : Record) (v : Nat) (event : Event) :
    Prop :=
  ∃ ptr : Operand, (PointerProvenanceParser.loadPointer record record.opcode = some (some ptr) ∨
      PointerProvenanceParser.storePointer record record.opcode = some ptr) ∧
    parser.regset.regNodes ptr.capIndex = some v ∧ DerefEvent record event

theorem DerefLogged.isDeref {parser : PointerProvenanceParser} {record : Record} {v : Nat}
    {event : Event} (logged : DerefLogged parser record v event) : event.type.isDeref = true := by
  obtain ⟨-, -, -, ⟨-, rfl⟩ | ⟨-, -, rfl⟩⟩ := logged <;> rfl

/-- The memory events the opcode callbacks of a record may log on vertex `v`, read off the state
`parser` they leave: a `clc` of a valid capability whose load committed logs `memLoad`, a `csc`
of a valid capability logs `memStore`, each at the record's cycle and memory address, on the
vertex that both the register of operand 0 and the memory map at that address then hold. -/
def MemLogged (parser : PointerProvenanceParser) (record : Record) (v : Nat) (event : Event) :
    Prop :=
  record.op0.value.valid = true ∧ parser.regset.regNodes record.op0.capIndex = some v ∧
    parser.vertexMap.memLoad record.memoryAddress = some v ∧
    ((record.opcode = .clc ∨ record.opcode = .clcr ∨ record.opcode = .clci) ∧
        (record.lastRegs.capReg record.op0.capIndex ≠ record.regs.capReg record.op0.capIndex ||
          !record.hasException) = true ∧
        event = ⟨record.cycles, record.memoryAddress, .memLoad, false⟩ ∨
      (record.opcode = .csc ∨ record.opcode = .cscr ∨ record.opcode = .csci) ∧
        event = ⟨record.cycles, record.memoryAddress, .memStore, false⟩)

theorem MemLogged.notSyscall {parser : PointerProvenanceParser} {record : Record} {v : Nat}
    {event : Event} (logged : MemLogged parser record v event) : event.NotSyscall := by
  obtain ⟨-, -, -, ⟨-, -, rfl⟩ | ⟨-, rfl⟩⟩ := logged <;> exact ⟨nofun, nofun⟩

theorem MemLogged.notDeref {parser : PointerProvenanceParser} {record : Record} {v : Nat}
    {event : Event} (logged : MemLogged parser record v event) : event.type.isDeref = false := by
  obtain ⟨-, -, -, ⟨-, -, rfl⟩ | ⟨-, rfl⟩⟩ := logged <;> rfl

/-- The events the opcode callbacks of a record may log on vertex `v`, from the state `parser`
they start in to the state `parser'` they leave: memory events as `MemLogged` says, and syscall
events as `SyscallLogged` says. -/
def OpcodeLogged (parser parser' : PointerProvenanceParser) (record : Record) (v : Nat)
    (event : Event) : Prop :=
  MemLogged parser' record v event ∨ ¬event.NotSyscall ∧ SyscallLogged parser record v event

/-- What the callbacks of one record do to the subparser state the merge reads, and to the
syscall events of the graph.  The exception levels are apart: the opcode callbacks and
`scan_exception` each move them. -/
structure SubparserStep (record : Record) (parser parser' : PointerProvenanceParser) : Prop where
  calls : parser'.syscallSubparser.calls = parser.syscallSubparser.calls.step record
  firstRead : FirstReadStep record parser parser'
  pending : parser'.pccFixup.savedAddr = pendingBranch parser.pccFixup.savedAddr record
  logs : LogsOnly (SyscallLogged parser record) parser.pgm parser'.pgm

theorem SubparserStep.extend {record : Record} {parser mid parser' : PointerProvenanceParser}
    (step : SubparserStep record parser mid) (fixup : parser'.pccFixup = mid.pccFixup)
    (calls : parser'.syscallSubparser.calls = mid.syscallSubparser.calls)
    (logs : LogsOnly (fun _ => Event.NotSyscall) mid.pgm parser'.pgm) :
    SubparserStep record parser parser' :=
  ⟨calls.trans step.calls, step.firstRead.congr fixup, by rw [fixup]; exact step.pending,
    step.logs.trans (logs.mono fun _ _ other => other.syscallLogged)⟩

/-- The opcodes whose callbacks can change a subparser's state. -/
def Opcode.drivesSubparsers : Opcode → Bool
  | .cjr | .cjalr | .dmfc0 | .eret | .syscall => true
  | _ => false

theorem Opcode.drivesSubparsers_cases {opcode : Opcode} (drives : opcode.drivesSubparsers = true) :
    opcode = .cjr ∨ opcode = .cjalr ∨ opcode = .dmfc0 ∨ opcode = .eret ∨
      opcode = .syscall := by
  cases opcode <;> simp_all [Opcode.drivesSubparsers]

namespace PointerProvenanceParser

variable {parser parser' mid next : PointerProvenanceParser} {record : Record}

@[simp] theorem setReg_pgm_data (idx : Fin 32) (val : Option Nat) :
    (parser.setReg idx val).pgm.data = parser.pgm.data :=
  RegisterSet.attachSubgraphMerge_data _ _ _

@[simp] theorem setPcc_pgm_data (val : Option Nat) :
    (parser.setPcc val).pgm.data = parser.pgm.data :=
  RegisterSet.attachSubgraphMerge_data _ _ _

@[simp] theorem modifyData_syscallSubparser (vertex : Nat) (f : NodeData → NodeData) :
    (parser.modifyData vertex f).syscallSubparser = parser.syscallSubparser := rfl

@[simp] theorem popException_code (returnAddr : Nat) :
    (parser.popException record returnAddr).code = parser.syscallSubparser.code := by
  unfold popException; dsimp only; split <;> rfl

@[simp] theorem popException_inSyscall (returnAddr : Nat) :
    (parser.popException record returnAddr).inSyscall = parser.syscallSubparser.inSyscall := by
  unfold popException; dsimp only; split <;> rfl

@[simp] theorem popException_pcEret (returnAddr : Nat) :
    (parser.popException record returnAddr).pcEret = parser.syscallSubparser.pcEret := by
  unfold popException; dsimp only; split <;> rfl

/-! ## The callbacks of the parser itself -/

/-- What a callback of the parser itself does: it leaves both subparsers alone and logs only what
`allowed` admits.  A callback that logs nothing is `Quiet` for every `allowed`. -/
structure Quiet (allowed : Nat → Event → Prop) (parser parser' : PointerProvenanceParser) :
    Prop where
  fixup : parser'.pccFixup = parser.pccFixup
  syscall : parser'.syscallSubparser = parser.syscallSubparser
  logs : LogsOnly allowed parser.pgm parser'.pgm

namespace Quiet

variable {allowed : Nat → Event → Prop}

theorem refl (parser : PointerProvenanceParser) : Quiet allowed parser parser := ⟨rfl, rfl, .refl⟩

theorem mono {allowed' : Nat → Event → Prop} (quiet : Quiet allowed parser parser')
    (wider : ∀ v event, allowed v event → allowed' v event) : Quiet allowed' parser parser' :=
  ⟨quiet.fixup, quiet.syscall, quiet.logs.mono wider⟩

theorem trans (first : Quiet allowed parser mid) (second : Quiet allowed mid next) :
    Quiet allowed parser next :=
  ⟨second.fixup.trans first.fixup, second.syscall.trans first.syscall,
    first.logs.trans second.logs⟩

theorem setReg (first : Quiet allowed parser mid) (idx : Fin 32) (val : Option Nat) :
    Quiet allowed parser (mid.setReg idx val) :=
  ⟨first.fixup, first.syscall, first.logs.trans (.of_data (setReg_pgm_data idx val))⟩

theorem setPcc (first : Quiet allowed parser mid) (val : Option Nat) :
    Quiet allowed parser (mid.setPcc val) :=
  ⟨first.fixup, first.syscall, first.logs.trans (.of_data (setPcc_pgm_data val))⟩

theorem withVertexMap (first : Quiet allowed parser mid) (map : MPVertexMemoryMap) :
    Quiet allowed parser { mid with vertexMap := map } :=
  ⟨first.fixup, first.syscall, first.logs⟩

theorem addEvent (first : Quiet allowed parser mid) (vertex : Nat) {event : Event}
    (admitted : allowed vertex event) :
    Quiet allowed parser (mid.modifyData vertex (·.addEvent event)) :=
  ⟨first.fixup, first.syscall, first.logs.trans (.addEvent vertex admitted)⟩

theorem makeRootNode (first : Quiet allowed parser mid) {other : Record} {cap : CheriCap}
    {time : Nat} {pc : Option Nat} {node : Nat}
    (made : mid.makeRootNode other cap time pc = (next, node)) : Quiet allowed parser next := by
  simp only [PointerProvenanceParser.makeRootNode, Prod.mk.injEq] at made
  obtain ⟨rfl, -⟩ := made
  exact ⟨first.fixup, first.syscall, first.logs.trans (.addVertex rfl)⟩

theorem makeNode (first : Quiet allowed parser mid) {other : Record} {origin : CheriNodeOrigin}
    {node : Nat} (made : mid.makeNode other origin = .ok (next, node)) :
    Quiet allowed parser next := by
  obtain ⟨src, parent, data, -, -, -, empty, made⟩ := mid.makeNode_eq_ok other made
  cases made
  exact ⟨first.fixup, first.syscall,
    first.logs.trans ((LogsOnly.addVertex empty).trans (.of_data rfl))⟩

end Quiet

variable {allowed : Nat → Event → Prop}

theorem scanDerivation_quiet {origin : CheriNodeOrigin}
    (scanned : parser.scanDerivation record origin = .ok parser') :
    Quiet allowed parser parser' := by
  obtain ⟨⟨mid, node⟩, made, rfl⟩ := Except.map_eq_ok.mp scanned
  exact ((Quiet.refl parser).makeNode made).setReg _ _

theorem handleCpregGet_quiet (regnum : Fin 32) :
    Quiet allowed parser (parser.handleCpregGet record regnum) := by
  unfold handleCpregGet
  cases made : parser.makeRootNode record record.op0.value record.cycles none with
  | mk root node =>
      simp only [made]
      refine Quiet.setReg ?_ _ _
      split
      · exact .refl parser
      · exact ((Quiet.refl parser).makeRootNode made).setReg _ _

theorem handleCpregSet_quiet {regnum : Fin 32}
    (scanned : parser.handleCpregSet record regnum = .ok parser') :
    Quiet allowed parser parser' := by
  unfold handleCpregSet at scanned
  split at scanned
  · cases scanned
  cases made : parser.makeRootNode record record.op0.value record.cycles none with
  | mk root node =>
      simp only [made, Except.ok.injEq] at scanned
      subst scanned
      refine Quiet.setReg ?_ _ _
      split
      · exact .refl parser
      · exact ((Quiet.refl parser).makeRootNode made).setReg _ _

theorem scanCgetpcc_quiet : Quiet allowed parser (parser.scanCgetpcc record) := by
  unfold scanCgetpcc
  cases made : parser.makeRootNode record record.op0.value record.cycles none with
  | mk root node =>
      simp only [made]
      refine Quiet.setReg ?_ _ _
      split
      · exact .refl parser
      · exact ((Quiet.refl parser).makeRootNode made).setPcc _

theorem updateRegs_quiet {idx : Nat} (scanned : parser.updateRegs record idx = .ok parser') :
    Quiet allowed parser parser' := by
  have root : parser.updateRegsRoot record idx = .ok parser' → Quiet allowed parser parser' :=
    fun scanned => by
      unfold updateRegsRoot at scanned
      cases made : parser.makeRootNode record record.op0.value record.cycles (some record.pc) with
      | mk root node =>
          simp only [made] at scanned
          split_ifs at scanned
          · split at scanned
            · cases scanned
            · cases scanned
              exact (((Quiet.refl parser).makeRootNode made).setReg _ _).setReg _ _
          · cases scanned; exact .refl parser
  unfold updateRegs at scanned
  split at scanned
  · split at scanned
    · split at scanned
      · cases scanned; exact (Quiet.refl parser).setReg _ _
      · exact root scanned
    · exact root scanned
  · cases scanned; exact .refl parser

/-- `_handle_dereference(ptr)` keeps both subparsers and the register set, and logs only the
dereference of the record, on the vertex in `ptr`. -/
theorem handleDereference_logs {ptrReg : Fin 32}
    (scanned : parser.handleDereference record ptrReg = .ok parser') :
    parser'.pccFixup = parser.pccFixup ∧ parser'.syscallSubparser = parser.syscallSubparser ∧
      parser'.regset = parser.regset ∧
      LogsOnly (fun v event => parser.regset.regNodes ptrReg = some v ∧ DerefEvent record event)
        parser.pgm parser'.pgm := by
  unfold handleDereference at scanned
  split at scanned
  · cases scanned
  next node found =>
    split at scanned
    · next load =>
      cases scanned
      exact ⟨rfl, rfl, rfl, .addEvent _ ⟨found, .inl ⟨load, rfl⟩⟩⟩
    · next notLoad =>
      split at scanned
      · next store =>
        cases scanned
        exact ⟨rfl, rfl, rfl,
          .addEvent _ ⟨found, .inr ⟨Bool.eq_false_iff.mpr notLoad, store, rfl⟩⟩⟩
      · split at scanned
        · cases scanned; exact ⟨rfl, rfl, rfl, .refl⟩
        · cases scanned

/-- The instruction-class callbacks keep both subparsers and log only dereferences, as
`DerefLogged` says from the state they start in. -/
theorem scanIClass_logs {idx : Nat} (scanned : parser.scanIClass record idx = .ok parser') :
    parser'.pccFixup = parser.pccFixup ∧ parser'.syscallSubparser = parser.syscallSubparser ∧
      LogsOnly (DerefLogged parser record) parser.pgm parser'.pgm := by
  unfold scanIClass at scanned
  obtain ⟨capped, capScan, rest⟩ := Except.bind_eq_ok.mp scanned
  obtain ⟨loaded, loadScan, storeScan⟩ := Except.bind_eq_ok.mp rest
  have capQuiet : Quiet (DerefLogged parser record) parser capped ∧
      (record.isLoad = true ∨ record.isStore = true → capped = parser) := by
    split at capScan
    · unfold scanCap at capScan
      split at capScan
      · cases capScan; exact ⟨.refl parser, fun _ => rfl⟩
      · next plain =>
        refine ⟨updateRegs_quiet capScan, fun access => absurd ?_ plain⟩
        rcases access with access | access <;> simp [access]
    · cases capScan; exact ⟨.refl parser, fun _ => rfl⟩
  obtain ⟨capQuiet, unchanged⟩ := capQuiet
  have loadLogs : loaded.pccFixup = capped.pccFixup ∧
      loaded.syscallSubparser = capped.syscallSubparser ∧ loaded.regset = capped.regset ∧
      LogsOnly (fun v event => ∃ ptr, loadPointer record record.opcode = some (some ptr) ∧
        capped.regset.regNodes ptr.capIndex = some v ∧ DerefEvent record event)
        capped.pgm loaded.pgm := by
    split at loadScan
    · unfold scanCapLoad at loadScan
      split at loadScan
      · next ptr pointer =>
        obtain ⟨fixup, syscall, regset, logs⟩ := handleDereference_logs loadScan
        exact ⟨fixup, syscall, regset,
          logs.mono fun _ _ ⟨held, deref⟩ => ⟨ptr, pointer, held, deref⟩⟩
      · cases loadScan
      · cases loadScan; exact ⟨rfl, rfl, rfl, .refl⟩
    · cases loadScan; exact ⟨rfl, rfl, rfl, .refl⟩
  have storeLogs : parser'.pccFixup = loaded.pccFixup ∧
      parser'.syscallSubparser = loaded.syscallSubparser ∧
      LogsOnly (fun v event => ∃ ptr, storePointer record record.opcode = some ptr ∧
        loaded.regset.regNodes ptr.capIndex = some v ∧ DerefEvent record event)
        loaded.pgm parser'.pgm := by
    split at storeScan
    · unfold scanCapStore at storeScan
      split at storeScan
      · next ptr pointer =>
        obtain ⟨fixup, syscall, -, logs⟩ := handleDereference_logs storeScan
        exact ⟨fixup, syscall, logs.mono fun _ _ ⟨held, deref⟩ => ⟨ptr, pointer, held, deref⟩⟩
      · cases storeScan; exact ⟨rfl, rfl, .refl⟩
    · cases storeScan; exact ⟨rfl, rfl, .refl⟩
  have held : ∀ {v : Nat} {event : Event} {ptr : Operand}, DerefEvent record event →
      capped.regset.regNodes ptr.capIndex = some v → parser.regset.regNodes ptr.capIndex = some v :=
    fun deref found => by rwa [unchanged deref.access] at found
  exact ⟨storeLogs.1.trans (loadLogs.1.trans capQuiet.fixup),
    storeLogs.2.1.trans (loadLogs.2.1.trans capQuiet.syscall),
    (capQuiet.logs.trans (loadLogs.2.2.2.mono fun _ _ ⟨ptr, pointer, found, deref⟩ =>
        ⟨ptr, .inl pointer, held deref found, deref⟩)).trans
      (storeLogs.2.2.mono fun _ _ ⟨ptr, pointer, found, deref⟩ =>
        ⟨ptr, .inr pointer, held deref (loadLogs.2.2.1 ▸ found), deref⟩)⟩

theorem scanClc_quiet
    (loadOp : record.opcode = .clc ∨ record.opcode = .clcr ∨ record.opcode = .clci) :
    Quiet (MemLogged (parser.scanClc record) record) parser (parser.scanClc record) := by
  unfold scanClc
  dsimp only
  split_ifs with invalid committed
  · split
    · exact ((Quiet.refl parser).setReg _ _).withVertexMap _
    · exact (Quiet.refl parser).setReg _ _
  · cases loaded : parser.loadedNode record with
    | mk mid node =>
        have first : Quiet (fun _ _ => False) parser mid := by
          unfold loadedNode at loaded
          split at loaded
          · cases loaded; exact .refl parser
          · cases made : parser.makeRootNode record record.op0.value record.cycles none with
            | mk root fresh =>
                simp only [made, Prod.mk.injEq] at loaded
                obtain ⟨rfl, rfl⟩ := loaded
                exact ((Quiet.refl parser).makeRootNode made).withVertexMap _
        simp only [loaded]
        exact ((first.mono fun _ _ => False.elim).addEvent node ⟨by simpa using invalid,
          by simp [setReg], by simpa using loadedNode_memLoad loaded,
          .inl ⟨loadOp, committed, rfl⟩⟩).setReg _ _
  · exact .refl parser

theorem scanCsc_quiet
    (storeOp : record.opcode = .csc ∨ record.opcode = .cscr ∨ record.opcode = .csci) :
    Quiet (MemLogged (parser.scanCsc record) record) parser (parser.scanCsc record) := by
  unfold scanCsc
  split_ifs with valid
  · cases stored : parser.storedNode record with
    | mk mid node =>
        have first : Quiet (fun _ _ => False) parser mid := by
          unfold storedNode at stored
          split at stored
          · cases stored; exact .refl parser
          · cases made : parser.makeRootNode record record.op0.value record.cycles none with
            | mk root fresh =>
                simp only [made, Prod.mk.injEq] at stored
                obtain ⟨rfl, rfl⟩ := stored
                exact ((Quiet.refl parser).makeRootNode made).setReg _ _
        simp only [stored]
        exact ((first.mono fun _ _ => False.elim).withVertexMap _).addEvent node
          ⟨valid, (storedNode_regNodes stored : mid.regset.regNodes _ = _), by simp,
            .inr ⟨storeOp, rfl⟩⟩
  · exact .refl parser

/-- The callbacks of every opcode without a subparser callback are quiet, and log only memory
events. -/
theorem scanOpcode_quiet (scanned : parser.scanOpcode record = .ok parser')
    (other : record.opcode.drivesSubparsers = false) :
    Quiet (MemLogged parser' record) parser parser' := by
  unfold scanOpcode at scanned
  cases opcode : record.opcode <;> simp only [opcode] at scanned <;>
    simp only [opcode, Opcode.drivesSubparsers] at other
  case cjr | cjalr | dmfc0 | eret | syscall => cases other
  case ccall | creturn | cclearregs => cases scanned
  case cfromptr | csetbounds | candperm => exact scanDerivation_quiet scanned
  case csetepcc | csetkcc | csetkdc | csetdefault => exact handleCpregSet_quiet scanned
  case cgetepcc | cgetkcc | cgetkdc | cgetdefault =>
    cases scanned; exact handleCpregGet_quiet _
  case cgetpcc | cgetpccsetoffset => cases scanned; exact scanCgetpcc_quiet
  case clc | clcr | clci => cases scanned; exact scanClc_quiet (by simp [opcode])
  case csc | cscr | csci => cases scanned; exact scanCsc_quiet (by simp [opcode])
  all_goals cases scanned; exact .refl parser

/-! ## The subparser callbacks -/

/-- A capability branch keeps the syscall subparser and the recorded read, never raises
`save_first_mfc` and logs no syscall return; with an exception it takes the flag down and leaves
its address pending. -/
theorem branchToTarget_subparsers {target : Fin 32}
    (scanned : parser.branchToTarget record target = .ok parser') :
    parser'.syscallSubparser = parser.syscallSubparser ∧
      parser.pccFixup.Keeps parser'.pccFixup ∧
      parser'.pccFixup.savedAddr =
        (if record.hasException then some record.pc else parser.pccFixup.savedAddr) ∧
      LogsOnly (fun _ _ => False) parser.pgm parser'.pgm := by
  unfold branchToTarget at scanned
  split at scanned
  · cases scanned
  dsimp only at scanned
  split at scanned
  · cases scanned
  · split_ifs at scanned ⊢ <;> cases scanned
    · exact ⟨rfl, ⟨rfl, nofun⟩, rfl, .of_data (setPcc_pgm_data _)⟩
    · exact ⟨rfl, .refl _, rfl, .of_data (setPcc_pgm_data _)⟩

theorem scanCjalr_subparsers (scanned : parser.scanCjalr record = .ok parser') :
    parser'.syscallSubparser = parser.syscallSubparser ∧
      parser.pccFixup.Keeps parser'.pccFixup ∧
      parser'.pccFixup.savedAddr =
        (if record.hasException then some record.pc else parser.pccFixup.savedAddr) ∧
      LogsOnly (fun _ _ => False) parser.pgm parser'.pgm := by
  unfold scanCjalr at scanned
  cases linked : parser.oldPccNode record with
  | mk mid node =>
      have first :
          Quiet (fun _ _ => False) parser (mid.setReg record.op0.capIndex (some node)) := by
        refine Quiet.setReg ?_ _ _
        unfold oldPccNode at linked
        split at linked
        · cases linked; exact .refl parser
        · exact (Quiet.refl parser).makeRootNode linked
      simp only [linked] at scanned
      split at scanned
      · cases scanned
      · obtain ⟨syscall, keeps, pending, logs⟩ := branchToTarget_subparsers scanned
        rw [← first.fixup]
        exact ⟨syscall.trans first.syscall, keeps, pending, first.logs.trans logs⟩

/-- `scan_dmfc0` keeps the syscall subparser, leaves no branch pending and logs nothing.  With a
branch pending it takes the flag down; otherwise, with the flag up, a read of BadVAddr is
recorded with the vertex of `epcc`. -/
theorem scanDmfc0_subparsers (dmfc0 : record.opcode = .dmfc0)
    (scanned : parser.scanDmfc0 record = .ok parser') :
    parser'.syscallSubparser = parser.syscallSubparser ∧ FirstReadStep record parser parser' ∧
      parser'.pccFixup.savedAddr = none ∧
      LogsOnly (fun _ _ => False) parser.pgm parser'.pgm := by
  have notEret : record.opcode ≠ .eret := by rw [dmfc0]; decide
  unfold scanDmfc0 at scanned
  split at scanned
  · split at scanned
    · cases scanned
    obtain ⟨restored, found, rfl⟩ := Except.map_eq_ok.mp scanned
    have kept : restored.pccFixup = { parser.pccFixup with saveFirstMfc := false } ∧
        restored.syscallSubparser = parser.syscallSubparser ∧
        restored.pgm.data = parser.pgm.data := by
      split_ifs at found
      · repeat' split at found
        all_goals first | (cases found; exact ⟨rfl, rfl, setReg_pgm_data _ _⟩) | cases found
      · cases found; exact ⟨rfl, rfl, rfl⟩
    refine ⟨kept.2.1, ⟨fun raised => ?_, .inl ?_⟩, rfl, .of_data kept.2.2⟩
    · simp [kept.1] at raised
    · simp [CapabilityBranchSubparser.firstRead, kept.1]
  · next cleared =>
    split_ifs at scanned with saving
    · split at scanned
      · cases scanned
      · next op1 op =>
        split_ifs at scanned with badvaddr
        · cases scanned
          exact ⟨rfl, ⟨nofun,
            .inr ⟨saving, rfl, by simp [Record.readsBadvaddr, dmfc0, op, badvaddr], rfl⟩⟩,
            cleared, .refl⟩
        · cases scanned
          exact ⟨rfl, .of_keeps (.refl _) notEret (by simp [Record.readsBadvaddr, op, badvaddr]),
            cleared, .refl⟩
    · cases scanned
      exact ⟨rfl, ⟨fun raised => absurd raised saving, .inl rfl⟩, cleared, .refl⟩

/-- The `eret` callback of `SyscallSubparser` keeps the branch subparser and closes a level; it
closes the open call if the `eret` returns where that call returns, and logs the syscall
return then. -/
theorem syscallScanEret_subparsers (eret : record.opcode = .eret)
    (scanned : parser.syscallScanEret record = .ok parser') :
    parser'.pccFixup = parser.pccFixup ∧
      parser'.syscallSubparser.tracker = parser.syscallSubparser.tracker.closeLevel record ∧
      parser'.syscallSubparser.calls = parser.syscallSubparser.calls.step record ∧
      LogsOnly (fun v event => ¬event.NotSyscall ∧ SyscallLogged parser record v event)
        parser.pgm parser'.pgm := by
  unfold syscallScanEret at scanned
  split at scanned
  · cases scanned
  dsimp only at scanned
  obtain ⟨returned, found, rfl⟩ := Except.map_eq_ok.mp scanned
  have kept : returned.pccFixup = parser.pccFixup ∧
      returned.syscallSubparser.tracker = (parser.popException record record.eretAddr).tracker ∧
      returned.syscallSubparser.calls = parser.syscallSubparser.calls.step record ∧
      LogsOnly (fun v event => ¬event.NotSyscall ∧ SyscallLogged parser record v event)
        parser.pgm returned.pgm := by
    split at found
    · next closing =>
      simp only [popException_inSyscall, popException_pcEret] at closing
      unfold recordSyscallReturn at found
      dsimp only at found
      split at found
      · cases found
      · cases found
        refine ⟨rfl, rfl, ?_, LogsOnly.addEvent _ ⟨fun other => other.2 rfl, fun _ => ?_, nofun⟩⟩
        · simp [SyscallSubparser.calls, CallTracker.step, eret, Record.eretAddr, closing]
        · simp [SyscallSubparser.calls, eret, Record.eretAddr, closing]
    · next notClosing =>
      simp only [popException_inSyscall, popException_pcEret] at notClosing
      cases found
      refine ⟨rfl, rfl, ?_, .of_data rfl⟩
      simp [SyscallSubparser.calls, CallTracker.step, eret, Record.eretAddr, notClosing]
  refine ⟨kept.1, kept.2.1.trans ?_, kept.2.2.1,
    kept.2.2.2.trans (.of_data (setPcc_pgm_data _))⟩
  unfold popException EretTracker.closeLevel SyscallSubparser.tracker
  simp only [eret, if_true]
  split_ifs <;> first | rfl | omega

theorem scanSyscall_subparsers (syscall : record.opcode = .syscall)
    (scanned : parser.scanSyscall record = .ok parser') :
    parser'.pccFixup = parser.pccFixup ∧
      parser'.syscallSubparser.tracker = parser.syscallSubparser.tracker ∧
      parser'.syscallSubparser.calls = parser.syscallSubparser.calls.step record ∧
      LogsOnly (fun v event => ¬event.NotSyscall ∧ SyscallLogged parser record v event)
        parser.pgm parser'.pgm := by
  unfold scanSyscall at scanned
  dsimp only at scanned
  split at scanned
  · next untracked =>
    cases scanned
    exact ⟨rfl, rfl, by simp [SyscallSubparser.calls, CallTracker.step, syscall, untracked],
      .refl⟩
  · next returns =>
    cases scanned
    exact ⟨rfl, rfl, by simp [SyscallSubparser.calls, CallTracker.step, syscall, returns],
      .refl⟩
  · next reg argument =>
    split at scanned
    · cases scanned
    · next vertex found =>
      cases scanned
      exact ⟨rfl, rfl, by simp [SyscallSubparser.calls, CallTracker.step, syscall, argument],
        .addEvent _
          ⟨fun other => other.1 rfl, nofun, fun _ => ⟨syscall, reg, argument, found, rfl⟩⟩⟩

/-- `scan_exception` keeps the branch subparser and the syscall, opens a level and logs
nothing. -/
theorem scanException_subparsers (scanned : parser.scanException = .ok parser') :
    parser'.pccFixup = parser.pccFixup ∧
      parser'.syscallSubparser.tracker =
        { parser.syscallSubparser.tracker with
          depth := parser.syscallSubparser.tracker.depth + 1 } ∧
      parser'.syscallSubparser.calls = parser.syscallSubparser.calls ∧
      LogsOnly (fun _ _ => False) parser.pgm parser'.pgm := by
  unfold scanException at scanned
  dsimp only at scanned
  split at scanned
  · cases scanned
    exact ⟨rfl, rfl, rfl, .of_data (by simp)⟩
  · cases scanned

/-- Callbacks of a record that is neither an `eret`, a `dmfc0` nor a syscall, that keep the
syscall subparser and the recorded read and log no syscall return. -/
theorem scanOpcode_of_keeps (notEret : record.opcode ≠ .eret)
    (notDmfc0 : record.opcode ≠ .dmfc0) (notSyscall : record.opcode ≠ .syscall)
    (syscall : parser'.syscallSubparser = parser.syscallSubparser)
    (keeps : parser.pccFixup.Keeps parser'.pccFixup)
    (pending : parser'.pccFixup.savedAddr = pendingBranch parser.pccFixup.savedAddr record)
    (logs : LogsOnly (MemLogged parser' record) parser.pgm parser'.pgm) :
    parser'.syscallSubparser.tracker = parser.syscallSubparser.tracker.closeLevel record ∧
      SubparserStep record parser parser' ∧
      LogsOnly (OpcodeLogged parser parser' record) parser.pgm parser'.pgm :=
  ⟨by rw [syscall, EretTracker.closeLevel_of_ne notEret],
    ⟨by rw [syscall, CallTracker.step_of_ne notSyscall notEret],
      .of_keeps keeps notEret (Record.readsBadvaddr_of_ne notDmfc0), pending,
      logs.mono fun _ _ logged => logged.notSyscall.syscallLogged⟩, logs.mono fun _ _ => .inl⟩

/-- The opcode callbacks of one record: an `eret` closes a level, the rest moves as
`SubparserStep` says, and they log only as `OpcodeLogged` says. -/
theorem scanOpcode_step (scanned : parser.scanOpcode record = .ok parser') :
    parser'.syscallSubparser.tracker = parser.syscallSubparser.tracker.closeLevel record ∧
      SubparserStep record parser parser' ∧
      LogsOnly (OpcodeLogged parser parser' record) parser.pgm parser'.pgm := by
  cases drives : record.opcode.drivesSubparsers
  · have quiet := scanOpcode_quiet scanned drives
    have other : ∀ opcode, record.opcode = opcode → opcode.drivesSubparsers = true → False :=
      fun _ opcode driving => by rw [opcode, driving] at drives; cases drives
    refine scanOpcode_of_keeps (other .eret · rfl) (other .dmfc0 · rfl) (other .syscall · rfl)
      quiet.syscall (quiet.fixup ▸ .refl _) ?_ quiet.logs
    rw [quiet.fixup, pendingBranch, if_neg, if_neg (other .dmfc0 · rfl)]
    exact fun ⟨branch, _⟩ =>
      branch.elim (fun cjr => other _ cjr rfl) (fun cjalr => other _ cjalr rfl)
  · unfold scanOpcode at scanned
    rcases Opcode.drivesSubparsers_cases drives with opcode | opcode | opcode | opcode | opcode <;>
      simp only [opcode] at scanned
    case inl =>
      obtain ⟨syscall, keeps, pending, logs⟩ := branchToTarget_subparsers scanned
      exact scanOpcode_of_keeps (by rw [opcode]; decide) (by rw [opcode]; decide)
        (by rw [opcode]; decide) syscall keeps (by rw [pending]; simp [pendingBranch, opcode])
        (logs.mono fun _ _ => False.elim)
    case inr.inl =>
      obtain ⟨syscall, keeps, pending, logs⟩ := scanCjalr_subparsers scanned
      exact scanOpcode_of_keeps (by rw [opcode]; decide) (by rw [opcode]; decide)
        (by rw [opcode]; decide) syscall keeps (by rw [pending]; simp [pendingBranch, opcode])
        (logs.mono fun _ _ => False.elim)
    case inr.inr.inl =>
      obtain ⟨syscall, step, pending, logs⟩ := scanDmfc0_subparsers opcode scanned
      have notEret : record.opcode ≠ .eret := by rw [opcode]; decide
      exact ⟨by rw [syscall, EretTracker.closeLevel_of_ne notEret],
        ⟨by rw [syscall, CallTracker.step_of_ne (by rw [opcode]; decide) notEret], step,
          by rw [pending]; simp [pendingBranch, opcode],
          logs.mono fun _ _ => False.elim⟩, logs.mono fun _ _ => False.elim⟩
    case inr.inr.inr.inl =>
      obtain ⟨eret, popped, rfl⟩ := Except.map_eq_ok.mp scanned
      obtain ⟨kept, closed, calls, logs⟩ := syscallScanEret_subparsers opcode popped
      refine ⟨closed, ⟨calls, ⟨nofun, .inl ?_⟩, ?_, logs.mono fun _ _ logged => logged.2⟩,
        logs.mono fun _ _ => .inr⟩
      · rw [← kept]
        rfl
      · show eret.pccFixup.savedAddr = _
        rw [kept]
        simp [pendingBranch, opcode]
    case inr.inr.inr.inr =>
      obtain ⟨kept, tracked, calls, logs⟩ := scanSyscall_subparsers opcode scanned
      have notEret : record.opcode ≠ .eret := by rw [opcode]; decide
      exact ⟨by rw [tracked, EretTracker.closeLevel_of_ne notEret], ⟨calls,
        .of_keeps (kept ▸ .refl _) notEret (Record.readsBadvaddr_of_ne (by rw [opcode]; decide)),
        by rw [kept]; simp [pendingBranch, opcode], logs.mono fun _ _ logged => logged.2⟩,
        logs.mono fun _ _ => .inr⟩

/-- The last callback of a record, `scan_exception` when the entry took an exception: it keeps
the branch subparser and the syscall, opens a level then, and logs nothing. -/
theorem exceptionCallback_subparsers
    (scanned : (if record.hasException then parser.scanException else .ok parser) =
      .ok parser') :
    parser'.pccFixup = parser.pccFixup ∧
      parser'.syscallSubparser.tracker = parser.syscallSubparser.tracker.openLevel record ∧
      parser'.syscallSubparser.calls = parser.syscallSubparser.calls ∧
      LogsOnly (fun _ _ => False) parser.pgm parser'.pgm := by
  unfold EretTracker.openLevel
  split at scanned
  · next trapped =>
    rw [if_pos trapped]
    exact scanException_subparsers scanned
  · next clean =>
    cases scanned
    rw [if_neg clean]
    exact ⟨rfl, rfl, rfl, .refl⟩

/-- All the callbacks of one record: the tracker takes one step, and the rest moves as
`SubparserStep` says. -/
theorem scan_subparsers {idx : Nat} (scanned : parser.scan record idx = .ok parser') :
    parser'.syscallSubparser.tracker = parser.syscallSubparser.tracker.step record ∧
      SubparserStep record parser parser' := by
  unfold scan at scanned
  obtain ⟨opcoded, opcodeScan, rest⟩ := Except.bind_eq_ok.mp scanned
  obtain ⟨classed, classScan, exceptionScan⟩ := Except.bind_eq_ok.mp rest
  obtain ⟨closed, step, -⟩ := scanOpcode_step opcodeScan
  obtain ⟨classFixup, classSyscall, classLogs⟩ := scanIClass_logs classScan
  obtain ⟨fixup, opened, calls, logs⟩ := exceptionCallback_subparsers exceptionScan
  refine ⟨?_, step.extend (fixup.trans classFixup) (by rw [calls, classSyscall])
    ((classLogs.mono fun _ _ logged => Event.notSyscall_of_isDeref logged.isDeref).trans
      (logs.mono fun _ _ => False.elim))⟩
  rw [opened, classSyscall, closed]
  rfl

/-- Besides its syscall events, all the callbacks of one record log only memory events as
`MemLogged` says and dereferences as `DerefLogged` says, both from the state its opcode callbacks
leave. -/
theorem scan_logs {idx : Nat} (scanned : parser.scan record idx = .ok parser') :
    LogsOnly (fun v event => event.NotSyscall → ∃ mid, parser.scanOpcode record = .ok mid ∧
      (MemLogged mid record v event ∨ DerefLogged mid record v event)) parser.pgm parser'.pgm := by
  unfold scan at scanned
  obtain ⟨opcoded, opcodeScan, rest⟩ := Except.bind_eq_ok.mp scanned
  obtain ⟨classed, classScan, exceptionScan⟩ := Except.bind_eq_ok.mp rest
  exact (((scanOpcode_step opcodeScan).2.2.mono fun _ _ logged other =>
      ⟨opcoded, opcodeScan, .inl (logged.resolve_right fun syscall => syscall.1 other)⟩).trans
    ((scanIClass_logs classScan).2.2.mono fun _ _ logged _ =>
      ⟨opcoded, opcodeScan, .inr logged⟩)).trans
    ((exceptionCallback_subparsers exceptionScan).2.2.2.mono fun _ _ => False.elim)

end PointerProvenanceParser

end Cheriplot.Provenance
