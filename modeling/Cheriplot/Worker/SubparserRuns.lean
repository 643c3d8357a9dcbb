import Cheriplot.Worker.Subparsers
import Cheriplot.Worker.Events
import Cheriplot.Worker.Derivation

namespace Cheriplot.Provenance

/-! # The subparsers over a run

From `scan_subparsers`, by induction over the records: after any run the exception levels, the
syscall waited on and the pending branch are the trackers folded over the records; the first
BadVAddr read is written at most once, by the first BadVAddr read of the window; every
syscall-return event of a worker's graph was logged at an `eret` of its window that closed the
call opened by a syscall whose return value is a capability, with the code of the last syscall
before it. Every syscall-argument event was logged at a syscall taking a capability argument, on
the vertex in `$c3` at that point.  Every dereference event was logged at a load or a store, on
the vertex its pointer register held once the record's opcode callbacks had run, and every memory
event at a `clc` or a `csc`, on the vertex its register and the memory map then held.  These
three come through `run_logsOnly`, which lifts what one record may log to a whole run.  The
order of the callbacks also makes a `clc` that loads an untagged value into its own pointer
register fail the worker: `scan_clc` clears the register before `scan_cap_load` dereferences it.
Over a window, the initial-stack subparser ends with the user stack at the window's first `eret`.
-/

/-- What a run can do to the recorded read: keep it without raising the flag, or, starting with
the flag up, record a BadVAddr read of the run that no `eret` and no other BadVAddr read
precedes. -/
def FirstReadRun (records : List Record) (parser parser' : PointerProvenanceParser) : Prop :=
  parser.pccFixup.Keeps parser'.pccFixup ∨
    parser.pccFixup.saveFirstMfc = true ∧
    ∃ pre read post, records = pre ++ read :: post ∧ read.readsBadvaddr = true ∧
      parser'.pccFixup.initialBadvaddr = some read.op0.gprValue ∧
      ∀ earlier ∈ pre, earlier.opcode ≠ .eret ∧ earlier.readsBadvaddr = false

/-- A syscall-return event logged at an `eret` of `records`, at the cycle of that `eret`, while
the call tracker over the records before it had a call open returning there; the event carries
that tracker's code. -/
def RetExplained (records : List Record) (event : Event) : Prop :=
  ∃ pre eret post, records = pre ++ eret :: post ∧ eret.opcode = .eret ∧
    event.time = eret.cycles ∧ (pre.foldl CallTracker.step .initial).active = true ∧
    (pre.foldl CallTracker.step .initial).pcEret = some eret.eretAddr ∧
    event.addr = (pre.foldl CallTracker.step .initial).code.getD 0

theorem RetExplained.append {records : List Record} {event : Event}
    (explained : RetExplained records event) (more : List Record) :
    RetExplained (records ++ more) event := by
  obtain ⟨pre, eret, post, split, rest⟩ := explained
  exact ⟨pre, eret, post ++ more, by simp [split], rest⟩

namespace PointerProvenanceParser

variable {parser parser' : PointerProvenanceParser}

/-! ## Whole runs -/

/-- A run over `pre ++ post` whose part over `pre` completes goes on from where that part ends. -/
theorem run_append_of_ok {idx : Nat} {pre : List Record} (ran : parser.run idx pre = .ok parser')
    (post : List Record) : parser.run idx (pre ++ post) = parser'.run (idx + pre.length) post := by
  induction pre generalizing parser idx with
  | nil => cases ran; rfl
  | cons record pre ih =>
      obtain ⟨mid, scanned, rest⟩ := Except.bind_eq_ok.mp ran
      show (parser.scan record idx >>= fun parser => parser.run (idx + 1) (pre ++ post)) = _
      rw [scanned]
      exact (ih rest).trans (congrArg (parser'.run · post) (by simp only [List.length_cons]; omega))

/-- A `clc` that loads an untagged value into its own pointer register fails from any state:
`scan_clc` clears the register, and `scan_cap_load` then dereferences it. -/
theorem scan_selfLoad_invalid {idx : Nat} {ptr : Operand}
    (loadOp : record.opcode = .clc ∨ record.opcode = .clcr ∨ record.opcode = .clci)
    (isLoad : record.isLoad = true) (pointer : loadPointer record record.opcode = some (some ptr))
    (self : ptr.capIndex = record.op0.capIndex) (invalid : record.op0.value.valid = false) :
    parser.scan record idx = .error .dereferenceUnknown := by
  have cleared : (parser.scanClc record).regset.regNodes ptr.capIndex = none := by
    unfold scanClc
    simp only [invalid, Bool.not_false, if_true, self]
    split <;> simp [setReg]
  have capKept : (if record.opcode.isCapInstruction then (parser.scanClc record).scanCap record idx
      else .ok (parser.scanClc record)) = .ok (parser.scanClc record) := by
    split <;> simp [scanCap, isLoad]
  have capLoad : record.opcode.isCapLoad = true := by
    rcases loadOp with opcode | opcode | opcode <;> simp [opcode, Opcode.isCapLoad]
  have classFails : (parser.scanClc record).scanIClass record idx = .error .dereferenceUnknown := by
    simp only [scanIClass, capKept, capLoad, if_true, scanCapLoad, pointer, handleDereference,
      cleared, bind, Except.bind]
  simp only [scan, scanOpcode_clc loadOp, classFails, bind, Except.bind]

/-- After a run, the exception levels, the syscall waited on and the pending branch are the
trackers folded over the records. -/
theorem run_folds {idx : Nat} {records : List Record}
    (ran : parser.run idx records = .ok parser') :
    parser'.syscallSubparser.tracker =
        records.foldl EretTracker.step parser.syscallSubparser.tracker ∧
      parser'.syscallSubparser.calls =
        records.foldl CallTracker.step parser.syscallSubparser.calls ∧
      parser'.pccFixup.savedAddr = records.foldl pendingBranch parser.pccFixup.savedAddr := by
  induction records generalizing parser idx with
  | nil => cases ran; exact ⟨rfl, rfl, rfl⟩
  | cons record records ih =>
      obtain ⟨mid, scanned, rest⟩ := Except.bind_eq_ok.mp ran
      obtain ⟨tracked, step⟩ := scan_subparsers scanned
      obtain ⟨levels, calls, pending⟩ := ih rest
      rw [levels, calls, pending, tracked, step.calls, step.pending]
      exact ⟨rfl, rfl, rfl⟩

/-- Over a run that starts with the call tracker of `seen`, a syscall-return event the run logs
is explained by the records scanned so far. -/
theorem run_syscallRets {idx : Nat} {records seen : List Record}
    (ran : parser.run idx records = .ok parser')
    (tracked : parser.syscallSubparser.calls = seen.foldl CallTracker.step .initial)
    (explained : ∀ v, ∀ event ∈ (parser.pgm.data v).events, event.type = .useSyscallRet →
      RetExplained seen event) :
    ∀ v, ∀ event ∈ (parser'.pgm.data v).events, event.type = .useSyscallRet →
      RetExplained (seen ++ records) event := by
  induction records generalizing parser idx seen with
  | nil => cases ran; simpa using explained
  | cons record records ih =>
      obtain ⟨mid, scanned, rest⟩ := Except.bind_eq_ok.mp ran
      have step := (scan_subparsers scanned).2
      have midTracked : mid.syscallSubparser.calls =
          (seen ++ [record]).foldl CallTracker.step .initial := by
        rw [step.calls, tracked, List.foldl_append]
        rfl
      have midExplained : ∀ v, ∀ event ∈ (mid.pgm.data v).events,
          event.type = .useSyscallRet → RetExplained (seen ++ [record]) event := by
        intro v event member ret
        rcases step.logs v event member with old | logged
        · exact (explained v event old ret).append [record]
        · obtain ⟨eret, active, closes, time, code⟩ := logged.1 ret
          rw [tracked] at active closes code
          exact ⟨seen, record, [], rfl, eret, time, active, closes, code⟩
      simpa using ih rest midTracked midExplained

/-- Over a run, an event the run logs on vertex `v` was logged at one of its records, as
`explain` says from the state the records before it reached, when the callbacks of any record
log only as `explain` says from the state they start in. -/
theorem run_logsOnly (explain : PointerProvenanceParser → Record → Nat → Event → Prop)
    (scanLogs : ∀ {before after : PointerProvenanceParser} {record : Record} {idx : Nat},
      before.scan record idx = .ok after → LogsOnly (explain before record) before.pgm after.pgm)
    {idx : Nat} {records : List Record} (ran : parser.run idx records = .ok parser') :
    LogsOnly (fun v event => ∃ pre record post reached, records = pre ++ record :: post ∧
      parser.run idx pre = .ok reached ∧ explain reached record v event)
      parser.pgm parser'.pgm := by
  induction records generalizing parser idx with
  | nil => cases ran; exact .refl
  | cons record records ih =>
      obtain ⟨mid, scanned, rest⟩ := Except.bind_eq_ok.mp ran
      refine ((scanLogs scanned).mono fun _ _ explained =>
        ⟨[], record, records, parser, rfl, rfl, explained⟩).trans ((ih rest).mono ?_)
      rintro v event ⟨pre, later, post, reached, split, reachedRun, explained⟩
      refine ⟨record :: pre, later, post, reached, by rw [split]; rfl, ?_, explained⟩
      show (parser.scan record idx >>= fun parser => parser.run (idx + 1) pre) = .ok reached
      rw [scanned]
      exact reachedRun

/-- Over a run the recorded read moves only as `FirstReadRun` allows. -/
theorem run_firstReadRun {idx : Nat} {records : List Record}
    (ran : parser.run idx records = .ok parser') : FirstReadRun records parser parser' := by
  induction records generalizing parser idx with
  | nil => cases ran; exact .inl (.refl _)
  | cons record records ih =>
      obtain ⟨mid, scanned, rest⟩ := Except.bind_eq_ok.mp ran
      have step := (scan_subparsers scanned).2.firstRead
      rcases ih rest with
        ⟨kept, unraised⟩ | ⟨up, pre, read, post, split, reads, recorded, clean⟩
      · rcases step.read with same | ⟨up, -, reads, recorded⟩
        · exact .inl ⟨kept.trans same, fun raised => (step.raised (unraised raised)).1⟩
        · have first : parser'.pccFixup.initialBadvaddr = some record.op0.gprValue :=
            congrArg Prod.fst (kept.trans recorded)
          exact .inr ⟨up, [], record, records, rfl, reads, first,
            fun _ member => by cases member⟩
      · obtain ⟨before, notEret, notRead⟩ := step.raised up
        exact .inr ⟨before, record :: pre, read, post, by rw [split]; rfl, reads, recorded,
          List.forall_mem_cons.mpr ⟨⟨notEret, notRead⟩, clean⟩⟩

/-- Once `save_first_mfc` is down, no run raises it again or changes the recorded read. -/
theorem run_keeps_firstRead {idx : Nat} {records : List Record}
    (lowered : parser.pccFixup.saveFirstMfc = false) (ran : parser.run idx records = .ok parser') :
    parser'.pccFixup.saveFirstMfc = false ∧
      parser'.pccFixup.initialBadvaddr = parser.pccFixup.initialBadvaddr ∧
      parser'.pccFixup.initialEpcc = parser.pccFixup.initialEpcc := by
  rcases run_firstReadRun ran with ⟨kept, unraised⟩ | ⟨up, -⟩
  · refine ⟨Bool.eq_false_iff.mpr fun raised => ?_, congrArg Prod.fst kept,
      congrArg Prod.snd kept⟩
    simp [unraised raised] at lowered
  · simp [up] at lowered

end PointerProvenanceParser

def afterEret : PointerProvenanceParser :=
  (doParse 0 [Record.eretTo 1 12]).toOption.getD initialParser

def readAfterEret : PointerProvenanceParser :=
  (afterEret.run 1 [Record.readBadvaddr 2 4096]).toOption.getD initialParser

/-- After an `eret` the flag is down, and a later read of BadVAddr is not recorded. -/
theorem run_keeps_firstRead_afterEret :
    afterEret.pccFixup.saveFirstMfc = false ∧
      afterEret.run 1 [Record.readBadvaddr 2 4096] = .ok readAfterEret ∧
      afterEret.pccFixup.initialBadvaddr = none ∧
      (readAfterEret.pccFixup.saveFirstMfc = false ∧
        readAfterEret.pccFixup.initialBadvaddr = afterEret.pccFixup.initialBadvaddr ∧
        readAfterEret.pccFixup.initialEpcc = afterEret.pccFixup.initialEpcc) :=
  have lowered : afterEret.pccFixup.saveFirstMfc = false := by rfl
  have ran : afterEret.run 1 [Record.readBadvaddr 2 4096] = .ok readAfterEret := by rfl
  ⟨lowered, ran, by rfl, PointerProvenanceParser.run_keeps_firstRead lowered ran⟩

/-- A BadVAddr value a worker hands to the merge was read by the window's first BadVAddr read,
and no `eret` of the window comes before that read. -/
theorem doParse_initialBadvaddr {start : Nat} {records : List Record}
    {parser : PointerProvenanceParser} (parsed : doParse start records = .ok parser) {value : Nat}
    (recorded : parser.pccFixup.initialBadvaddr = some value) :
    ∃ pre read post, records = pre ++ read :: post ∧ read.readsBadvaddr = true ∧
      read.op0.gprValue = value ∧
      ∀ earlier ∈ pre, earlier.opcode ≠ .eret ∧ earlier.readsBadvaddr = false := by
  rcases PointerProvenanceParser.run_firstReadRun parsed with
    ⟨kept, -⟩ | ⟨-, pre, read, post, split, reads, first, clean⟩
  · cases recorded.symm.trans (congrArg Prod.fst kept)
  · exact ⟨pre, read, post, split, reads, Option.some.inj (first.symm.trans recorded), clean⟩

def twoReads : PointerProvenanceParser :=
  (doParse 0 [Record.readBadvaddr 1 4096, .readBadvaddr 2 8192]).toOption.getD initialParser

/-- Of two BadVAddr reads the first is recorded. -/
theorem doParse_initialBadvaddr_first :
    doParse 0 [Record.readBadvaddr 1 4096, .readBadvaddr 2 8192] = .ok twoReads ∧
      twoReads.pccFixup.initialBadvaddr = some 4096 ∧
      ∃ pre read post,
        [Record.readBadvaddr 1 4096, .readBadvaddr 2 8192] = pre ++ read :: post ∧
        read.readsBadvaddr = true ∧ read.op0.gprValue = 4096 ∧
        ∀ earlier ∈ pre, earlier.opcode ≠ .eret ∧ earlier.readsBadvaddr = false :=
  have parsed : doParse 0 [Record.readBadvaddr 1 4096, .readBadvaddr 2 8192] = .ok twoReads := by
    rfl
  have recorded : twoReads.pccFixup.initialBadvaddr = some 4096 := by rfl
  ⟨parsed, recorded, doParse_initialBadvaddr parsed recorded⟩

/-- A worker's exception depth and recorded `eret` are the tracker run over its window. -/
theorem doParse_eretTracker {start : Nat} {records : List Record}
    {parser : PointerProvenanceParser} (parsed : doParse start records = .ok parser) :
    parser.syscallSubparser.tracker = records.foldl EretTracker.step EretTracker.initial :=
  (PointerProvenanceParser.run_folds parsed).1

def twoErets : PointerProvenanceParser :=
  (doParse 0 [Record.eretTo 1 12, .eretTo 2 20]).toOption.getD initialParser

/-- With no exception before them both `eret`s find no level open, and the second is the one
recorded. -/
theorem doParse_eretTracker_last :
    doParse 0 [Record.eretTo 1 12, .eretTo 2 20] = .ok twoErets ∧
      twoErets.syscallSubparser.tracker = ⟨0, some 20, some 2⟩ :=
  have parsed : doParse 0 [Record.eretTo 1 12, .eretTo 2 20] = .ok twoErets := by rfl
  ⟨parsed, (doParse_eretTracker parsed).trans (by decide)⟩

/-- A worker's exception depth is never negative, and an `eret` it hands to the merge is one of
its window, with the return address and cycle of that record. -/
theorem doParse_eretSound {start : Nat} {records : List Record}
    {parser : PointerProvenanceParser} (parsed : doParse start records = .ok parser) :
    parser.syscallSubparser.tracker.Sound records := by
  rw [(PointerProvenanceParser.run_folds parsed).1]
  simpa using EretTracker.Sound.initial.foldl records

def trappedErets : PointerProvenanceParser :=
  (doParse 0 [{ Record.blank 1 4 with exception := some 8 }, .eretTo 2 12,
    .eretTo 3 20]).toOption.getD initialParser

/-- The first `eret` closes the exception of cycle 1; the second finds no level open and is
recorded. -/
theorem doParse_eretSound_trapped :
    doParse 0 [{ Record.blank 1 4 with exception := some 8 }, .eretTo 2 12, .eretTo 3 20] =
        .ok trappedErets ∧
      trappedErets.syscallSubparser.initialEretTime = some 3 ∧
      trappedErets.syscallSubparser.tracker.Sound
        [{ Record.blank 1 4 with exception := some 8 }, .eretTo 2 12, .eretTo 3 20] :=
  have parsed : doParse 0 [{ Record.blank 1 4 with exception := some 8 }, .eretTo 2 12,
      .eretTo 3 20] = .ok trappedErets := by rfl
  ⟨parsed, by rfl, doParse_eretSound parsed⟩

/-- The branch a worker leaves pending for the merge is `pendingBranch` run over its window: the
address of the last capability branch that took an exception, unless a `dmfc0` follows it. -/
theorem doParse_pendingBranch {start : Nat} {records : List Record}
    {parser : PointerProvenanceParser} (parsed : doParse start records = .ok parser) :
    parser.pccFixup.savedAddr = records.foldl pendingBranch none :=
  (PointerProvenanceParser.run_folds parsed).2.2

def trappedBranch : PointerProvenanceParser :=
  (doParse 0 [Record.getKcc 1 1, branchTrap]).toOption.getD initialParser

/-- The trapped branch is left pending, at its own address. -/
theorem doParse_pendingBranch_trap :
    doParse 0 [Record.getKcc 1 1, branchTrap] = .ok trappedBranch ∧
      trappedBranch.pccFixup.savedAddr = some 8 :=
  have parsed : doParse 0 [Record.getKcc 1 1, branchTrap] = .ok trappedBranch := by rfl
  ⟨parsed, (doParse_pendingBranch parsed).trans (by rfl)⟩

/-- A worker's syscall state that the merge reads, `code`, `in_syscall` and `pc_eret`, is the
call tracker run over its window. -/
theorem doParse_syscallCalls {start : Nat} {records : List Record}
    {parser : PointerProvenanceParser} (parsed : doParse start records = .ok parser) :
    parser.syscallSubparser.calls = records.foldl CallTracker.step CallTracker.initial :=
  (PointerProvenanceParser.run_folds parsed).2.1

def mmapWindow : List Record := [Record.getKcc 1 3, .callSyscall 2 447, .eretTo 3 12]

def mmapReturned : PointerProvenanceParser :=
  (doParse 0 mmapWindow).toOption.getD initialParser

/-- The `eret` to 12 closes the call, and the code stays that of the `mmap`. -/
theorem doParse_syscallCalls_closed :
    doParse 0 mmapWindow = .ok mmapReturned ∧
      mmapReturned.syscallSubparser.calls = ⟨some 447, false, some 12⟩ :=
  have parsed : doParse 0 mmapWindow = .ok mmapReturned := by rfl
  ⟨parsed, (doParse_syscallCalls parsed).trans (by rfl)⟩

open PointerProvenanceParser (getSyscallCode syscallCodes) in
/-- Every syscall-return event in a worker's graph was logged at an `eret` of its window, at that
`eret`'s cycle.  Some syscall before the `eret` whose return value is a capability (code 447 or
228) has its next instruction, `pc + 4`, where the `eret` returns; and the event carries the code
of the last syscall before the `eret`, which need not be that one. -/
theorem doParse_syscallRet_logged {start : Nat} {records : List Record}
    {parser : PointerProvenanceParser} (parsed : doParse start records = .ok parser) :
    ∀ v, ∀ event ∈ (parser.pgm.data v).events, event.type = .useSyscallRet →
      ∃ pre eret post, records = pre ++ eret :: post ∧ eret.opcode = .eret ∧
        event.time = eret.cycles ∧
        (∃ call ∈ pre, call.opcode = .syscall ∧
          syscallCodes (getSyscallCode call.regs) = some .sysRet ∧
          call.pc + 4 = eret.eretAddr) ∧
        ∃ front call back, pre = front ++ call :: back ∧ call.opcode = .syscall ∧
          event.addr = getSyscallCode call.regs ∧
          ∀ later ∈ back, later.opcode ≠ .syscall := by
  intro v event member ret
  have fresh : initialParser.syscallSubparser.calls =
      ([] : List Record).foldl CallTracker.step .initial := rfl
  have explained : RetExplained ([] ++ records) event :=
    PointerProvenanceParser.run_syscallRets parsed fresh (fun _ _ member _ => by cases member) v
      event member ret
  obtain ⟨pre, eret, post, split, isEret, time, active, closes, code⟩ := explained
  have sound := CallTracker.Sound.initial.foldl pre
  rw [List.nil_append] at sound
  obtain ⟨last, coded⟩ := Option.isSome_iff_exists.mp (sound.coded active)
  obtain ⟨front, call, back, divided, syscall, same, later⟩ := sound.last last coded
  refine ⟨pre, eret, post, split, isEret, time, sound.opened _ closes, front, call, back,
    divided, syscall, ?_, later⟩
  rw [code, coded, same]
  rfl

def handlerWindow : List Record :=
  [Record.getKcc 1 3, .callSyscall 2 447, .eretTo 3 100, .callSyscall 4 20, .eretTo 5 12]

def handlerReturned : PointerProvenanceParser :=
  (doParse 0 handlerWindow).toOption.getD initialParser

/-- The return is logged at the `eret` of cycle 5; the call that opened it is the `mmap`, and the
code it carries is that of the handler's syscall. -/
theorem doParse_syscallRet_logged_handler :
    doParse 0 handlerWindow = .ok handlerReturned ∧
      (handlerReturned.pgm.data 33).events = [⟨5, 20, .useSyscallRet, false⟩] ∧
      ∃ pre eret post, handlerWindow = pre ++ eret :: post ∧ eret.opcode = .eret ∧
        5 = eret.cycles ∧
        (∃ call ∈ pre, call.opcode = .syscall ∧
          PointerProvenanceParser.syscallCodes
            (PointerProvenanceParser.getSyscallCode call.regs) = some .sysRet ∧
          call.pc + 4 = eret.eretAddr) ∧
        ∃ front call back, pre = front ++ call :: back ∧ call.opcode = .syscall ∧
          20 = PointerProvenanceParser.getSyscallCode call.regs ∧
          ∀ later ∈ back, later.opcode ≠ .syscall :=
  have parsed : doParse 0 handlerWindow = .ok handlerReturned := by rfl
  have logged : (handlerReturned.pgm.data 33).events = [⟨5, 20, .useSyscallRet, false⟩] := by
    rfl
  ⟨parsed, logged, doParse_syscallRet_logged parsed 33 _
    (by rw [logged]; exact List.mem_singleton_self _) rfl⟩

/-- Every event of a worker's graph was logged at a record of its window, as `explain` says from
the state the records before it reached, when the callbacks of any record log only as `explain`
says: the placeholders a worker starts from log nothing. -/
theorem doParse_explained (explain : PointerProvenanceParser → Record → Nat → Event → Prop)
    (scanLogs : ∀ {before after : PointerProvenanceParser} {record : Record} {idx : Nat},
      before.scan record idx = .ok after → LogsOnly (explain before record) before.pgm after.pgm)
    {start : Nat} {records : List Record} {parser : PointerProvenanceParser}
    (parsed : doParse start records = .ok parser) {v : Nat} {event : Event}
    (member : event ∈ (parser.pgm.data v).events) :
    ∃ pre record post reached, records = pre ++ record :: post ∧
      doParse start pre = .ok reached ∧ explain reached record v event :=
  (PointerProvenanceParser.run_logsOnly explain scanLogs parsed v event member).resolve_left
    (by simp [initialParser, NodeData.placeholder])

/-- Only codes 73 and 230 take a capability argument, and both take it in `$c3`. -/
theorem PointerProvenanceParser.syscallCodes_arg {code : Nat} {reg : Fin 32}
    (argument : PointerProvenanceParser.syscallCodes code = some (.arg reg)) : reg = 3 := by
  unfold PointerProvenanceParser.syscallCodes at argument
  split at argument <;> cases argument <;> rfl

open PointerProvenanceParser (getSyscallCode syscallCodes) in
/-- Every syscall-argument event in a worker's graph was logged at a syscall of its window whose
code takes a capability argument, on the vertex `$c3` held after the records before it, at the
syscall's cycle and with its code. -/
theorem doParse_syscallArg_logged {start : Nat} {records : List Record}
    {parser : PointerProvenanceParser} (parsed : doParse start records = .ok parser) :
    ∀ v, ∀ event ∈ (parser.pgm.data v).events, event.type = .useSyscallArg →
      ∃ pre call post reached, records = pre ++ call :: post ∧
        doParse start pre = .ok reached ∧ call.opcode = .syscall ∧
        syscallCodes (getSyscallCode call.regs) = some (.arg 3) ∧
        reached.regset.regNodes 3 = some v ∧
        event = ⟨call.cycles, getSyscallCode call.regs, .useSyscallArg, false⟩ := by
  intro v event member arg
  obtain ⟨pre, call, post, reached, split, reachedRun, logged⟩ := doParse_explained ArgLogged
    (fun scanned => (PointerProvenanceParser.scan_subparsers scanned).2.logs.mono
      fun _ _ logged => logged.2) parsed member
  obtain ⟨syscall, reg, argument, held, rfl⟩ := logged arg
  obtain rfl := PointerProvenanceParser.syscallCodes_arg argument
  exact ⟨pre, call, post, reached, split, reachedRun, syscall, argument, held, rfl⟩

def argWindow : List Record := [Record.getKcc 1 3, .callSyscall 2 73]

def argCalled : PointerProvenanceParser := (doParse 0 argWindow).toOption.getD initialParser

/-- The syscall logs its argument on vertex 33, the `kcc` that `cgetkcc` put in `$c3`. -/
theorem doParse_syscallArg_logged_kcc :
    doParse 0 argWindow = .ok argCalled ∧
      (argCalled.pgm.data 33).events = [⟨2, 73, .useSyscallArg, false⟩] ∧
      ∃ pre call post reached, argWindow = pre ++ call :: post ∧
        doParse 0 pre = .ok reached ∧ call.opcode = .syscall ∧
        PointerProvenanceParser.syscallCodes
          (PointerProvenanceParser.getSyscallCode call.regs) = some (.arg 3) ∧
        reached.regset.regNodes 3 = some 33 ∧
        (⟨2, 73, .useSyscallArg, false⟩ : Event) =
          ⟨call.cycles, PointerProvenanceParser.getSyscallCode call.regs, .useSyscallArg, false⟩ :=
  have parsed : doParse 0 argWindow = .ok argCalled := by rfl
  have logged : (argCalled.pgm.data 33).events = [⟨2, 73, .useSyscallArg, false⟩] := by rfl
  ⟨parsed, logged, doParse_syscallArg_logged parsed 33 _
    (by rw [logged]; exact List.mem_singleton_self _) rfl⟩

/-- Every dereference event in a worker's graph was logged at a record of its window that loads
or stores through a capability register, at its cycle and memory address, on the vertex that
register held once the record's own opcode callbacks had run after the records before it. -/
theorem doParse_deref_logged {start : Nat} {records : List Record}
    {parser : PointerProvenanceParser} (parsed : doParse start records = .ok parser) :
    ∀ v, ∀ event ∈ (parser.pgm.data v).events, event.type.isDeref = true →
      ∃ pre access post reached mid, records = pre ++ access :: post ∧
        doParse start pre = .ok reached ∧ reached.scanOpcode access = .ok mid ∧
        DerefLogged mid access v event := by
  intro v event member deref
  obtain ⟨pre, access, post, reached, split, reachedRun, logged⟩ :=
    doParse_explained _ PointerProvenanceParser.scan_logs parsed member
  obtain ⟨mid, opcoded, memory | logged⟩ := logged (Event.notSyscall_of_isDeref deref)
  · cases memory.notDeref.symm.trans deref
  exact ⟨pre, access, post, reached, mid, split, reachedRun, opcoded, logged⟩

def selfLoadWindow : List Record := [Record.getKcc 1 1, .loadCap 2 1 wideCap]

def selfLoaded : PointerProvenanceParser :=
  (doParse 0 selfLoadWindow).toOption.getD initialParser

/-- The `clc` dereferences `$c1`, which held the `kcc` on vertex 33; but `scan_clc` has put the
loaded capability's vertex 34 in `$c1` before `scan_cap_load` reads it, so the load is logged on
vertex 34 and vertex 33 logs nothing. -/
theorem doParse_deref_logged_selfLoad :
    doParse 0 selfLoadWindow = .ok selfLoaded ∧
      (doParse 0 [Record.getKcc 1 1]).map (·.regset.regNodes 1) = .ok (some 33) ∧
      (selfLoaded.pgm.data 33).events = [] ∧
      (selfLoaded.pgm.data 34).events =
        [⟨2, 8192, .memLoad, false⟩, ⟨2, 8192, .derefLoad, true⟩] ∧
      ∃ pre access post reached mid, selfLoadWindow = pre ++ access :: post ∧
        doParse 0 pre = .ok reached ∧ reached.scanOpcode access = .ok mid ∧
        DerefLogged mid access 34 ⟨2, 8192, .derefLoad, true⟩ :=
  have parsed : doParse 0 selfLoadWindow = .ok selfLoaded := by rfl
  have logged : (selfLoaded.pgm.data 34).events =
      [⟨2, 8192, .memLoad, false⟩, ⟨2, 8192, .derefLoad, true⟩] := by rfl
  ⟨parsed, by rfl, by rfl, logged, doParse_deref_logged parsed 34 _ (by rw [logged]; simp) rfl⟩

/-- Every memory event in a worker's graph was logged at a `clc` or a `csc` of its window, at its
cycle and memory address, on the vertex that the register of its operand 0 and the memory map at
that address both held once the record's own opcode callbacks had run after the records before
it. -/
theorem doParse_memEvent_logged {start : Nat} {records : List Record}
    {parser : PointerProvenanceParser} (parsed : doParse start records = .ok parser) :
    ∀ v, ∀ event ∈ (parser.pgm.data v).events, event.type = .memLoad ∨ event.type = .memStore →
      ∃ pre access post reached mid, records = pre ++ access :: post ∧
        doParse start pre = .ok reached ∧ reached.scanOpcode access = .ok mid ∧
        MemLogged mid access v event := by
  intro v event member memory
  obtain ⟨pre, access, post, reached, split, reachedRun, logged⟩ :=
    doParse_explained _ PointerProvenanceParser.scan_logs parsed member
  obtain ⟨other, notDeref⟩ : event.NotSyscall ∧ event.type.isDeref = false := by
    rcases memory with memory | memory <;>
      exact ⟨⟨by rw [memory]; nofun, by rw [memory]; nofun⟩, by rw [memory]; rfl⟩
  obtain ⟨mid, opcoded, logged | deref⟩ := logged other
  · exact ⟨pre, access, post, reached, mid, split, reachedRun, opcoded, logged⟩
  · cases notDeref.symm.trans deref.isDeref

/-- A `clc $c31` from 8192 at cycle 3 that commits but takes an exception. -/
def trappedLoad : Record :=
  { Record.loadCap 3 31 sampleCap with
    exception := some 0, regs := { RegisterFile.cleared with capReg := fun _ => sampleCap } }

def trappedLoadWindow : List Record := [Record.getKcc 1 2, .storeCap 2 2 sampleCap, trappedLoad]

def trappedLoaded : PointerProvenanceParser :=
  (doParse 0 trappedLoadWindow).toOption.getD initialParser

/-- The load is logged on vertex 33, the `kcc` stored to 8192, which `scan_clc` put in `$c31`;
by the end of the record `scan_exception` has put `pcc`, placeholder 32, in `$c31` instead. -/
theorem doParse_memEvent_logged_trapped :
    doParse 0 trappedLoadWindow = .ok trappedLoaded ∧
      (trappedLoaded.pgm.data 33).events =
        [⟨2, 8192, .memStore, false⟩, ⟨3, 8192, .memLoad, false⟩] ∧
      trappedLoaded.regset.regNodes 31 = some 32 ∧
      ∃ pre access post reached mid, trappedLoadWindow = pre ++ access :: post ∧
        doParse 0 pre = .ok reached ∧ reached.scanOpcode access = .ok mid ∧
        MemLogged mid access 33 ⟨3, 8192, .memLoad, false⟩ :=
  have parsed : doParse 0 trappedLoadWindow = .ok trappedLoaded := by rfl
  have logged : (trappedLoaded.pgm.data 33).events =
      [⟨2, 8192, .memStore, false⟩, ⟨3, 8192, .memLoad, false⟩] := by rfl
  ⟨parsed, logged, by rfl,
    doParse_memEvent_logged parsed 33 _ (by rw [logged]; simp) (.inl rfl)⟩

/-- A worker whose window holds a `clc` that loads an untagged value into its own pointer
register fails with `DereferenceUnknownCapabilityError` once the records before it complete. -/
theorem doParse_selfLoad_invalid {start : Nat} {pre post : List Record} {access : Record}
    {reached : PointerProvenanceParser} (reachedRun : doParse start pre = .ok reached)
    (loadOp : access.opcode = .clc ∨ access.opcode = .clcr ∨ access.opcode = .clci)
    (isLoad : access.isLoad = true) {ptr : Operand}
    (pointer : PointerProvenanceParser.loadPointer access access.opcode = some (some ptr))
    (self : ptr.capIndex = access.op0.capIndex) (invalid : access.op0.value.valid = false) :
    doParse start (pre ++ access :: post) = .error .dereferenceUnknown := by
  rw [doParse, PointerProvenanceParser.run_append_of_ok reachedRun]
  show (reached.scan access _ >>= _) = _
  rw [PointerProvenanceParser.scan_selfLoad_invalid loadOp isLoad pointer self invalid]
  rfl

def kccInC1 : PointerProvenanceParser := (doParse 0 [Record.getKcc 1 1]).toOption.getD initialParser

/-- `$c1` holds the `kcc`, yet a `clc` of an untagged value into `$c1` through `$c1` fails the
worker. -/
theorem doParse_selfLoad_invalid_kcc :
    doParse 0 [Record.getKcc 1 1] = .ok kccInC1 ∧ kccInC1.regset.regNodes 1 = some 33 ∧
      doParse 0 ([Record.getKcc 1 1] ++ Record.loadCap 2 1 CheriCap.null :: []) =
        .error .dereferenceUnknown :=
  have reached : doParse 0 [Record.getKcc 1 1] = .ok kccInC1 := by rfl
  ⟨reached, by rfl, doParse_selfLoad_invalid reached (.inl rfl) rfl rfl rfl rfl⟩

open PointerProvenanceParser (getSyscallCode syscallCodes) in
/-- A call that the records of `before` leave open, returning where the `eret` recorded over
`window` returns: that `eret` is one of `window`, a syscall of `before` whose return value is a
capability returns there, and the code is that of the last syscall of `before`. -/
theorem CallTracker.foldl_returnsTo {before window : List Record}
    (active : (before.foldl CallTracker.step .initial).active = true)
    (closes : (before.foldl CallTracker.step .initial).pcEret =
      (window.foldl EretTracker.step .initial).eretAddr) :
    ∃ eret ∈ window, eret.opcode = .eret ∧
      (window.foldl EretTracker.step .initial).eretTime = some eret.cycles ∧
      (∃ opener ∈ before, opener.opcode = .syscall ∧
        syscallCodes (getSyscallCode opener.regs) = some .sysRet ∧
        opener.pc + 4 = eret.eretAddr) ∧
      ∃ early call late, before = early ++ call :: late ∧ call.opcode = .syscall ∧
        (∀ later ∈ late, later.opcode ≠ .syscall) ∧
        (before.foldl CallTracker.step .initial).code = some (getSyscallCode call.regs) := by
  have calls := CallTracker.Sound.initial.foldl before
  have erets := EretTracker.Sound.initial.foldl window
  rw [List.nil_append] at calls erets
  have returning := calls.returning active
  obtain ⟨code, coded⟩ := Option.isSome_iff_exists.mp (calls.coded active)
  rcases erets.recorded with ⟨none, -⟩ | ⟨eret, member, isEret, recorded, time⟩
  · rw [closes, none] at returning
    cases returning
  obtain ⟨early, call, late, split, syscall, same, later⟩ := calls.last code coded
  exact ⟨eret, member, isEret, time, calls.opened _ (closes.trans recorded), early, call, late,
    split, syscall, later, same ▸ coded⟩

/-- The branch pending after `records` is the one pending before them, with no `dmfc0` and no
trapped capability branch among the records, or the last capability branch of the records that
took an exception, with no `dmfc0` after it. -/
theorem foldl_pendingBranch_eq_some {records : List Record} {pending : Option Nat} {addr : Nat}
    (left : records.foldl pendingBranch pending = some addr) :
    pending = some addr ∧ (∀ other ∈ records, other.opcode ≠ .dmfc0 ∧
        ¬((other.opcode = .cjr ∨ other.opcode = .cjalr) ∧ other.hasException = true)) ∨
      ∃ early branch late, records = early ++ branch :: late ∧
        (branch.opcode = .cjr ∨ branch.opcode = .cjalr) ∧ branch.hasException = true ∧
        branch.pc = addr ∧ ∀ other ∈ late, other.opcode ≠ .dmfc0 ∧
          ¬((other.opcode = .cjr ∨ other.opcode = .cjalr) ∧ other.hasException = true) := by
  induction records generalizing pending with
  | nil => exact .inl ⟨left, fun _ member => by cases member⟩
  | cons record records ih =>
      rcases ih left with ⟨kept, clean⟩ | ⟨early, branch, late, split, rest⟩
      · unfold pendingBranch at kept
        split_ifs at kept with trapped read
        · exact .inr ⟨[], record, records, rfl, trapped.1, trapped.2, Option.some.inj kept, clean⟩
        · exact .inl ⟨kept, List.forall_mem_cons.mpr ⟨⟨read, trapped⟩, clean⟩⟩
      · exact .inr ⟨record :: early, branch, late, by rw [split]; rfl, rest⟩

/-! ## The initial stack

Over a window, `InitialStackAccessSubparser` ends with the user stack at the window's first
`eret`, `$c11` with `$sp` as offset, or with the default stack if the window has none. -/

namespace InitialStackAccessSubparser

theorem foldl_scan_of_firstEret {subparser : InitialStackAccessSubparser}
    (seen : subparser.firstEret = true) (records : List Record) :
    records.foldl scan subparser = subparser := by
  induction records with
  | nil => rfl
  | cons record records ih =>
      have kept : subparser.scan record = subparser := by simp [scan, scanEret, seen]
      rw [List.foldl_cons, kept, ih]

/-- Over a window, the stack is the user stack at the window's first `eret`. -/
theorem foldl_scan_stack (records : List Record) :
    (records.foldl scan initial).stack =
      (records.find? fun record => record.opcode = .eret).map Record.userStack := by
  induction records with
  | nil => rfl
  | cons record records ih =>
      by_cases eret : record.opcode = .eret
      · have stepped : initial.scan record = ⟨true, some record.userStack⟩ := by
          simp [scan, scanEret, eret, initial]
        rw [List.foldl_cons, stepped, foldl_scan_of_firstEret rfl]
        simp [eret]
      · have stepped : initial.scan record = initial := if_neg eret
        rw [List.foldl_cons, stepped, ih]
        simp [eret]

end InitialStackAccessSubparser

end Cheriplot.Provenance
