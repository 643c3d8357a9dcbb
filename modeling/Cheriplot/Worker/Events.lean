import Cheriplot.Worker.Step
import Cheriplot.Merge.Driver
import Mathlib.Data.List.Sort

namespace Cheriplot.Provenance

/-! # Event logs in cycle order

A worker stamps every event with the cycle of the record that makes it and only appends, so on
records whose cycle counts do not decrease every log of its subgraph is in cycle order.  The
merge does not keep that order: it appends the log of a placeholder, and the `syscall_ret`
event of a syscall split by a window boundary, to logs with later events.
-/

/-- Every log of `graph` is in cycle order, and no event is later than `time`. -/
def LogsBefore (time : Nat) (graph : Graph) : Prop :=
  ∀ v < graph.size, ((graph.data v).events.map (·.time)).Sorted (· ≤ ·) ∧
    ∀ event ∈ (graph.data v).events, event.time ≤ time

/-- A log whose events all have the same time is in cycle order. -/
theorem sorted_of_timed {events : List Event} {time : Nat}
    (timed : ∀ event ∈ events, event.time = time) : (events.map (·.time)).Sorted (· ≤ ·) :=
  List.pairwise_map.mpr (List.pairwise_of_forall_mem_list fun a member b member' => by
    rw [timed a member, timed b member'])

theorem Grows.logsBefore {time earlier : Nat} {graph graph' : Graph}
    (grows : Grows time graph graph') (before : LogsBefore earlier graph) (later : earlier ≤ time) :
    LogsBefore time graph' := by
  intro v bound
  by_cases old : v < graph.size
  · obtain ⟨new, grown, timed⟩ := grows.events v old
    obtain ⟨sorted, bounded⟩ := before v old
    rw [grown]
    refine ⟨?_, fun event member => ?_⟩
    · rw [List.map_append]
      refine List.pairwise_append.mpr ⟨sorted, sorted_of_timed timed, fun a member b member' => ?_⟩
      obtain ⟨e, eMember, rfl⟩ := List.mem_map.mp member
      obtain ⟨e', eMember', rfl⟩ := List.mem_map.mp member'
      rw [timed e' eMember']
      exact (bounded e eMember).trans later
    · rcases List.mem_append.mp member with inOld | inNew
      · exact (bounded event inOld).trans later
      · exact (timed event inNew).le
  · have timed := grows.fresh v (by omega) bound
    exact ⟨sorted_of_timed timed, fun event member => (timed event member).le⟩

theorem PointerProvenanceParser.run_logsBefore {parser parser' : PointerProvenanceParser}
    {idx time : Nat} {records : List Record} (before : LogsBefore time parser.pgm)
    (ordered : (records.map (·.cycles)).Sorted (· ≤ ·))
    (after : ∀ record ∈ records, time ≤ record.cycles)
    (ran : parser.run idx records = .ok parser') : ∃ last, LogsBefore last parser'.pgm := by
  induction records generalizing parser idx time with
  | nil => cases ran; exact ⟨time, before⟩
  | cons record records ih =>
      obtain ⟨mid, scanned, rest⟩ := Except.bind_eq_ok.mp ran
      rw [List.map_cons, List.sorted_cons] at ordered
      exact ih ((Step.scan scanned).grows.logsBefore before (after record (List.mem_cons_self _ _)))
        ordered.2 (fun other member => ordered.1 _ (List.mem_map_of_mem _ member)) rest

/-- Every log of a worker subgraph is in cycle order when the window's cycle counts do not
decrease. -/
theorem doParse_logs_sorted {start : Nat} {records : List Record}
    {parser : PointerProvenanceParser} (parsed : doParse start records = .ok parser)
    (ordered : (records.map (·.cycles)).Sorted (· ≤ ·)) :
    ∀ v < parser.pgm.size, ((parser.pgm.data v).events.map (·.time)).Sorted (· ≤ ·) := by
  have initial : LogsBefore 0 initialParser.pgm := fun v _ => by
    simp [initialParser, NodeData.placeholder]
  obtain ⟨last, logs⟩ := initialParser.run_logsBefore initial ordered (fun _ _ => Nat.zero_le _)
    parsed
  exact fun v bound => (logs v bound).1

/-- A load through `ptr` at cycle `cycles`. -/
def Record.loadThrough (cycles : Nat) (ptr : Fin 32) : Record :=
  { Record.blank cycles (4 * cycles) with
    opcode := .capLoad .plain, op3 := .cap ptr sampleCap, memoryAddress := 4096, isLoad := true }

/-- `cgetkcc $c3`, then two loads through `$c3`. -/
def loadingWindow : List Record := [Record.getKcc 1 3, .loadThrough 2 3, .loadThrough 3 3]

def loadingState : PointerProvenanceParser :=
  (doParse 0 loadingWindow).toOption.getD initialParser

theorem doParse_logs_sorted_sample :
    doParse 0 loadingWindow = .ok loadingState ∧
    (loadingWindow.map (·.cycles)).Sorted (· ≤ ·) ∧
    ∀ v < loadingState.pgm.size,
      ((loadingState.pgm.data v).events.map (·.time)).Sorted (· ≤ ·) :=
  have parsed : doParse 0 loadingWindow = .ok loadingState := by rfl
  have ordered : (loadingWindow.map (·.cycles)).Sorted (· ≤ ·) := by decide
  ⟨parsed, ordered, doParse_logs_sorted parsed ordered⟩

/-- `eret` at cycle `cycles` to address `target`, with `epcc` tagged. -/
def Record.eretTo (cycles target : Nat) : Record :=
  { Record.blank cycles (4 * cycles) with
    opcode := .eret,
    regs := { RegisterFile.cleared with
      validCaps := fun reg => reg == 31,
      capReg := fun reg => if reg = 31 then { CheriCap.null with base := target } else .null } }

/-- An `mmap` syscall (code 447) at address 8 in one window, its `eret` to 12 at the start of the
next, then a load through `$c3`.  The merge appends the `syscall_ret` event at cycle 3 to the log
of the placeholder of `$c3`, after the load at cycle 4, and fuses that log into the vertex of
`$c3`, merged vertex 0. -/
theorem build_split_log_unsorted :
    ([Record.getKcc 1 3, .callSyscall 2 447, .eretTo 3 12, .loadThrough 4 3].map
      (·.cycles)).Sorted (· ≤ ·) ∧
    (build [[Record.getKcc 1 3, .callSyscall 2 447], [.eretTo 3 12, .loadThrough 4 3]]).map
      (fun context => (context.pgm.data 0).events.map (·.time)) = .ok [4, 3] :=
  ⟨by decide, by rfl⟩

/-- An `mmap` (code 447) at address 8 whose `eret` goes to a handler at 100 rather than to 12;
the handler's syscall 20, which is not tracked, replaces the code, and the `eret` to 12 then
gives the vertex of `$c3`, merged vertex 0, a `syscall_ret` event with code 20. -/
theorem build_syscall_ret_wrong_code :
    PointerProvenanceParser.syscallCodes 20 = none ∧
    (build [[Record.getKcc 1 3, .callSyscall 2 447, .eretTo 3 100, .callSyscall 4 20,
      .eretTo 5 12]]).map (fun context => (context.pgm.data 0).events) =
      .ok [⟨5, 20, .useSyscallRet, false⟩] :=
  ⟨rfl, by rfl⟩

end Cheriplot.Provenance
