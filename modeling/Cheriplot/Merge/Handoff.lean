import Cheriplot.Merge.Embedding
import Cheriplot.Worker.SubparserRuns

namespace Cheriplot.Provenance

/-! # What the merge carries from one window to the next

Two events can span the boundary between consecutive windows.  A syscall whose return value is
a capability can return in the next window: the earlier worker ends with the call open, the
later one records an `eret` that found no exception level open, with the vertex in `$c3` there,
and `_merge_syscall` logs the return on that vertex (`MergedRet`).  A capability branch can trap
at the end of a window: the earlier worker ends with the branch pending, the later one records
its first BadVAddr read, and `_merge_pcc_fixup` puts the saved `pcc` in the register of the
later worker's initial `epcc`.  Each step of `mp_merge` hands the next one the worker's
subparser states and memory map (`step_handoff`); here both cases are traced back to the records
of the two windows.  The memory map, by contrast, spans no more than one boundary: the map a step
hands on holds only the addresses its own window loaded or stored a capability at.  The `stack`
property crosses every boundary unchanged: the first step sets it, from the first window.
-/

namespace MergePartialSubgraph

variable {context : MergePartialSubgraphContext} {result : WorkerResult}
  {transform transform' : MergePartialSubgraph}

/-- `get_final_pcc_fixup()` changes at most `saved_pcc`. -/
theorem getFinalPccFixup_eq_ok {pccFixup : PccFixupResult}
    (final : transform.getFinalPccFixup result = .ok pccFixup) :
    { pccFixup with savedPcc := result.subPccFixup.savedPcc } = result.subPccFixup := by
  unfold getFinalPccFixup at final
  repeat' split at final
  all_goals first | cases final; rfl | cases final

/-- `get_final_syscall()` changes at most `eret_cap`. -/
theorem getFinalSyscall_eq_ok {syscall : SyscallResult}
    (final : transform.getFinalSyscall context result = .ok syscall) :
    { syscall with eretCap := result.subSyscall.eretCap } = result.subSyscall := by
  unfold getFinalSyscall at final
  repeat' split at final
  all_goals first | cases final; rfl | cases final

/-- `_merge_pcc_fixup(u)` changes nothing, or, when the worker's first BadVAddr read is the
address of the branch the previous window left pending or the next one, and `u` is a
placeholder, puts the saved `pcc` in the previous register set at the register of `u`. -/
theorem mergePccFixup_cases {u : Nat}
    (fixed : transform.mergePccFixup context result u = .ok transform') :
    transform' = transform ∨ ∃ badvaddr jmpInstrAddr idx,
      result.subPccFixup.badvaddr = some badvaddr ∧
      context.prevPccFixup.savedAddr = some jmpInstrAddr ∧
      (badvaddr = jmpInstrAddr ∨ badvaddr = jmpInstrAddr + 4) ∧
      (transform.subgraph.data u).origin = .partialMarker ∧
      result.initialRegset.index? u = some idx ∧
      transform' =
        { transform with
          previousRegset :=
            { transform.previousRegset with
              regNodes := Function.update transform.previousRegset.regNodes idx
                context.prevPccFixup.savedPcc } } := by
  unfold mergePccFixup at fixed
  split at fixed
  · exact .inl (Except.ok.inj fixed).symm
  · cases fixed
  · exact .inl (Except.ok.inj fixed).symm
  next badvaddr jmpInstrAddr read saved =>
    split_ifs at fixed with near marked
    · split at fixed
      · cases fixed
      next idx indexed =>
        exact .inr ⟨badvaddr, jmpInstrAddr, idx, read, saved, near, marked, indexed,
          (Except.ok.inj fixed).symm⟩
    · exact .inl (Except.ok.inj fixed).symm

/-- `get_final_vmap()` keeps an address only where the worker's own map holds a copied vertex. -/
theorem getFinalVmap_get? {addr v : Nat}
    (held : (transform.getFinalVmap result).get? addr = some v) :
    ∃ u, (addr, u) ∈ result.memVertexMap.vertexMap ∧ transform.copyVertexMap u = some v := by
  unfold getFinalVmap AddrMap.get? at held
  generalize result.memVertexMap.vertexMap = map at held ⊢
  induction map with
  | nil => cases held
  | cons entry map ih =>
      rw [List.filterMap_cons] at held
      cases copied : transform.copyVertexMap entry.2 with
      | none =>
          exact (ih (by simpa [copied] using held)).imp fun _ ⟨member, copy⟩ =>
            ⟨.tail _ member, copy⟩
      | some w =>
          simp only [copied, Option.map_some', AddrMap.lookup_cons] at held
          split at held
          · next same =>
            cases held
            exact ⟨entry.2, by rw [same]; exact .head _, copied⟩
          · exact (ih held).imp fun _ ⟨member, copy⟩ => ⟨.tail _ member, copy⟩

end MergePartialSubgraph

namespace MergePartialSubgraphContext

variable {context context' before : MergePartialSubgraphContext} {result : WorkerResult}

/-- A step of `mp_merge` hands the next one the worker's pending branch, syscall state and memory
map, with the vertices in them translated. -/
theorem step_handoff (stepped : context.step result = .ok context') :
    { context'.prevPccFixup with savedPcc := result.subPccFixup.savedPcc } = result.subPccFixup ∧
      (∃ syscall, context'.prevSyscall = some syscall ∧
        { syscall with eretCap := result.subSyscall.eretCap } = result.subSyscall) ∧
      ∃ transform : MergePartialSubgraph, context'.prevVmap = transform.getFinalVmap result := by
  obtain ⟨transform, -, finalized⟩ := Except.bind_eq_ok.mp stepped
  obtain ⟨pccFixup, fixup, rest⟩ := Except.bind_eq_ok.mp finalized
  obtain ⟨syscall, final, rest⟩ := Except.bind_eq_ok.mp rest
  cases rest
  exact ⟨MergePartialSubgraph.getFinalPccFixup_eq_ok fixup,
    ⟨syscall, rfl, MergePartialSubgraph.getFinalSyscall_eq_ok final⟩, transform, rfl⟩

/-- Steps of `mp_merge` over no result, or ending with a step over the last one. -/
theorem foldlM_step_last {pre : List WorkerResult} (ran : pre.foldlM step context = .ok before) :
    pre = [] ∧ before = context ∨
      ∃ early last, ∃ middle : MergePartialSubgraphContext,
        pre = early ++ [last] ∧ middle.step last = .ok before := by
  rcases pre.eq_nil_or_concat with rfl | ⟨early, last, rfl⟩
  · cases ran
    exact .inl ⟨rfl, rfl⟩
  rw [List.concat_eq_append, List.foldlM_append] at ran
  obtain ⟨middle, -, stepped⟩ := Except.bind_eq_ok.mp ran
  simp only [List.foldlM_cons, List.foldlM_nil, bind_pure] at stepped
  exact .inr ⟨early, last, middle, List.concat_eq_append early last, stepped⟩

end MergePartialSubgraphContext

/-- The first worker and the workers after it. -/
theorem runWorkers_cons {start : Nat} {windows : List (List Record)} {result : WorkerResult}
    {rest : List WorkerResult} (ran : runWorkers start windows = .ok (result :: rest)) :
    ∃ window windows' parser, windows = window :: windows' ∧ doParse start window = .ok parser ∧
      result = parser.mpResult (window.foldl InitialStackAccessSubparser.scan .initial) ∧
        runWorkers (start + window.length) windows' = .ok rest := by
  cases windows with
  | nil => cases ran
  | cons window windows =>
      obtain ⟨parser, parsed, ran⟩ := Except.bind_eq_ok.mp ran
      obtain ⟨results, ran, final⟩ := Except.bind_eq_ok.mp ran
      cases final
      exact ⟨window, windows, parser, rfl, parsed, rfl, ran⟩

/-- The results after a prefix are those of the workers over the windows after as many. -/
theorem runWorkers_append :
    ∀ {start : Nat} {windows : List (List Record)} {pre rest : List WorkerResult},
      runWorkers start windows = .ok (pre ++ rest) →
        ∃ early late start', windows = early ++ late ∧ early.length = pre.length ∧
          runWorkers start' late = .ok rest
  | start, windows, [], _, ran => ⟨[], windows, start, rfl, rfl, ran⟩
  | start, windows, result :: pre, rest, ran => by
      obtain ⟨window, windows, -, rfl, -, -, ran⟩ :=
        runWorkers_cons (show runWorkers start windows = .ok (result :: (pre ++ rest)) from ran)
      obtain ⟨early, late, start', rfl, length, ranLate⟩ := runWorkers_append ran
      exact ⟨window :: early, late, start', rfl, by simp [length], ranLate⟩

/-- Two consecutive results come from the workers of two consecutive windows. -/
theorem runWorkers_consecutive {start : Nat} {windows : List (List Record)}
    {early post : List WorkerResult} {first second : WorkerResult}
    (ran : runWorkers start windows = .ok (early ++ first :: second :: post)) :
    ∃ front before window back, windows = front ++ before :: window :: back ∧
      front.length = early.length ∧
      (∃ start parser, doParse start before = .ok parser ∧
        first = parser.mpResult (before.foldl InitialStackAccessSubparser.scan .initial)) ∧
      ∃ start parser, doParse start window = .ok parser ∧
        second = parser.mpResult (window.foldl InitialStackAccessSubparser.scan .initial) := by
  obtain ⟨front, late, start, rfl, length, ranLate⟩ := runWorkers_append ran
  obtain ⟨before, rest, earlier, rfl, parsedBefore, rfl, ranRest⟩ := runWorkers_cons ranLate
  obtain ⟨window, back, later, rfl, parsedWindow, rfl, -⟩ := runWorkers_cons ranRest
  exact ⟨front, before, window, back, rfl, length, ⟨start, earlier, parsedBefore, rfl⟩, _, later,
    parsedWindow, rfl⟩

/-! ## Syscall returns -/

open PointerProvenanceParser (getSyscallCode syscallCodes) in
/-- A call that the worker of `before` leaves open, handed to the merge in `prev`, and that
returns where the worker of `window` recorded an `eret`: the `eret` is one of `window`, a syscall
of `before` whose return value is a capability returns there, and the return `_merge_syscall`
logs has the `eret`'s cycle and the code of the last syscall of `before`. -/
theorem doParse_returnsAcross {before window : List Record} {start start' : Nat}
    {earlier later : PointerProvenanceParser} {prev : SyscallResult}
    (parsedBefore : doParse start before = .ok earlier)
    (parsedWindow : doParse start' window = .ok later)
    (handed : { prev with eretCap := earlier.syscallResult.eretCap } =
      earlier.syscallResult)
    (active : prev.active = true) (closes : prev.pcEret = later.syscallResult.eretAddr) :
    ∃ eret ∈ window, eret.opcode = .eret ∧
      (∃ opener ∈ before, opener.opcode = .syscall ∧
        syscallCodes (getSyscallCode opener.regs) = some .sysRet ∧
        opener.pc + 4 = eret.eretAddr) ∧
      ∃ early call late, before = early ++ call :: late ∧ call.opcode = .syscall ∧
        (∀ other ∈ late, other.opcode ≠ .syscall) ∧
        (⟨later.syscallResult.eretTime.getD 0, prev.code.getD 0, .useSyscallRet, false⟩ :
          Event) = ⟨eret.cycles, getSyscallCode call.regs, .useSyscallRet, false⟩ := by
  have folded : earlier.syscallSubparser.calls = before.foldl CallTracker.step .initial :=
    (PointerProvenanceParser.run_folds parsedBefore).2.1
  have levels : later.syscallSubparser.tracker = window.foldl EretTracker.step .initial :=
    (PointerProvenanceParser.run_folds parsedWindow).1
  have calls : (⟨prev.code, prev.active, prev.pcEret⟩ : CallTracker) =
      before.foldl CallTracker.step .initial :=
    (congrArg (fun syscall : SyscallResult => (⟨syscall.code, syscall.active, syscall.pcEret⟩ :
      CallTracker)) handed).trans folded
  obtain ⟨eret, member, isEret, time, opener, early, call, late, divided, syscall, after, code⟩ :=
    CallTracker.foldl_returnsTo (by rw [← calls]; exact active)
      (by rw [← calls, ← levels]; exact closes)
  refine ⟨eret, member, isEret, opener, early, call, late, divided, syscall, after, ?_⟩
  have eretTime : later.syscallSubparser.initialEretTime = some eret.cycles :=
    (congrArg EretTracker.eretTime levels).trans time
  have prevCode : prev.code = some (getSyscallCode call.regs) :=
    (congrArg CallTracker.code calls).trans code
  simp only [PointerProvenanceParser.syscallResult, eretTime, prevCode, Option.getD_some]

open PointerProvenanceParser (getSyscallCode syscallCodes) in
/-- The merge logs a syscall return only for a call that spans two windows.  Every event in the
log of a merged vertex is an event of some worker's subgraph, or a syscall return for two
consecutive windows: an `eret` of the later window returns where a syscall of the earlier window
whose return value is a capability returns, and the event carries that `eret`'s cycle and the
code of the earlier window's last syscall, which need not be that one. -/
theorem build_syscallRet_logged {windows : List (List Record)} {results : List WorkerResult}
    {context : MergePartialSubgraphContext} (workers : runWorkers 0 windows = .ok results)
    (merged : mpMerge results = .ok context) :
    ∀ v < context.pgm.size, ∀ event ∈ (context.pgm.data v).events,
      (∃ result ∈ results, ∃ u, event ∈ (result.pgm.data u).events) ∨
      ∃ front before window back, windows = front ++ before :: window :: back ∧
        ∃ eret ∈ window, eret.opcode = .eret ∧
          (∃ opener ∈ before, opener.opcode = .syscall ∧
            syscallCodes (getSyscallCode opener.regs) = some .sysRet ∧
            opener.pc + 4 = eret.eretAddr) ∧
          ∃ early call late, before = early ++ call :: late ∧ call.opcode = .syscall ∧
            (∀ later ∈ late, later.opcode ≠ .syscall) ∧
            event = ⟨eret.cycles, getSyscallCode call.regs, .useSyscallRet, false⟩ := by
  intro v bound event member
  rcases (MergePartialSubgraphContext.foldlM_step_from_workers MergedForest.empty
      ContextBounded.initial (runWorkers_merge_ready workers) merged).2 v bound event member with
    ⟨old, -⟩ | fromWorker |
      ⟨pre, result, post, before, split, ran, prev, found, active, closes, rfl⟩
  · exact absurd old (Nat.not_lt_zero v)
  · exact .inl fromWorker
  rcases MergePartialSubgraphContext.foldlM_step_last ran with
    ⟨-, rfl⟩ | ⟨early, last, middle, rfl, stepped⟩
  · cases found
  obtain ⟨_, handedOver, handed⟩ := (MergePartialSubgraphContext.step_handoff stepped).2.1
  cases found.symm.trans handedOver
  rw [split, List.append_assoc, List.singleton_append] at workers
  obtain ⟨front, before, window, back, rfl, -, ⟨start, earlier, parsedBefore, rfl⟩, start', later,
    parsedWindow, rfl⟩ := runWorkers_consecutive workers
  exact .inr ⟨front, before, window, back, rfl,
    doParse_returnsAcross parsedBefore parsedWindow handed active closes⟩

/-- An `mmap` (code 447) at address 8 that ends one window, and its `eret` to 12 that opens the
next. -/
def mmapWindows : List (List Record) := [[Record.getKcc 1 3, .callSyscall 2 447], [.eretTo 3 12]]

def mmapResults : List WorkerResult := (runWorkers 0 mmapWindows).toOption.getD []

def mmapContext : MergePartialSubgraphContext := (mpMerge mmapResults).toOption.getD .initial

/-- The merge logs the return on vertex 0, the `kcc` in `$c3` at the `eret`, with the `eret`'s
cycle and the `mmap`'s code. -/
theorem build_syscallRet_logged_mmap :
    runWorkers 0 mmapWindows = .ok mmapResults ∧ mpMerge mmapResults = .ok mmapContext ∧
    (mmapContext.pgm.data 0).events = [⟨3, 447, .useSyscallRet, false⟩] ∧
    ((∃ result ∈ mmapResults, ∃ u, ⟨3, 447, .useSyscallRet, false⟩ ∈ (result.pgm.data u).events) ∨
      ∃ front before window back, mmapWindows = front ++ before :: window :: back ∧
        ∃ eret ∈ window, eret.opcode = .eret ∧
          (∃ opener ∈ before, opener.opcode = .syscall ∧
            PointerProvenanceParser.syscallCodes
              (PointerProvenanceParser.getSyscallCode opener.regs) = some .sysRet ∧
            opener.pc + 4 = eret.eretAddr) ∧
          ∃ early call late, before = early ++ call :: late ∧ call.opcode = .syscall ∧
            (∀ later ∈ late, later.opcode ≠ .syscall) ∧
            (⟨3, 447, .useSyscallRet, false⟩ : Event) =
              ⟨eret.cycles, PointerProvenanceParser.getSyscallCode call.regs, .useSyscallRet,
                false⟩) :=
  have workers : runWorkers 0 mmapWindows = .ok mmapResults := by rfl
  have merged : mpMerge mmapResults = .ok mmapContext := by rfl
  have logged : (mmapContext.pgm.data 0).events = [⟨3, 447, .useSyscallRet, false⟩] := by rfl
  ⟨workers, merged, logged, build_syscallRet_logged workers merged 0 (by decide) _
    (by rw [logged]; exact List.mem_singleton_self _)⟩

/-! ## The pending capability branch -/

/-- A branch that the worker of `before` leaves pending, handed to the merge in `pccFixup`, and a
first BadVAddr read of the worker of `window` at its address or the next: the branch is the last
capability branch of `before` that took an exception, with no `dmfc0` after it, and the read is
the first of `window` and comes before any `eret`. -/
theorem doParse_fixupAcross {before window : List Record} {start start' : Nat}
    {earlier later : PointerProvenanceParser} {pccFixup : PccFixupResult}
    {badvaddr jmpInstrAddr : Nat}
    (parsedBefore : doParse start before = .ok earlier)
    (parsedWindow : doParse start' window = .ok later)
    (handed : { pccFixup with savedPcc := earlier.pccFixupResult.savedPcc } =
      earlier.pccFixupResult)
    (read : later.pccFixupResult.badvaddr = some badvaddr)
    (saved : pccFixup.savedAddr = some jmpInstrAddr)
    (near : badvaddr = jmpInstrAddr ∨ badvaddr = jmpInstrAddr + 4) :
    ∃ early branch late, before = early ++ branch :: late ∧
      (branch.opcode = .cjr ∨ branch.opcode = .cjalr) ∧ branch.hasException = true ∧
      (∀ other ∈ late, other.opcode ≠ .dmfc0 ∧
        ¬((other.opcode = .cjr ∨ other.opcode = .cjalr) ∧ other.hasException = true)) ∧
      ∃ pre first post, window = pre ++ first :: post ∧ first.readsBadvaddr = true ∧
        (∀ other ∈ pre, other.opcode ≠ .eret ∧ other.readsBadvaddr = false) ∧
        (first.op0.gprValue = branch.pc ∨ first.op0.gprValue = branch.pc + 4) := by
  have pending : earlier.pccFixup.savedAddr = before.foldl pendingBranch none :=
    (PointerProvenanceParser.run_folds parsedBefore).2.2
  have left : before.foldl pendingBranch none = some jmpInstrAddr := by
    rw [← pending, ← saved]
    exact (congrArg PccFixupResult.savedAddr handed).symm
  rcases foldl_pendingBranch_eq_some left with ⟨none, -⟩ | ⟨early, branch, late, split, kind,
    trapped, pc, clean⟩
  · cases none
  refine ⟨early, branch, late, split, kind, trapped, clean, ?_⟩
  rcases PointerProvenanceParser.run_firstReadRun parsedWindow with ⟨kept, -⟩ |
    ⟨-, pre, first, post, divided, reads, recorded, before⟩
  · cases (congrArg Prod.fst kept).symm.trans read
  have value : first.op0.gprValue = badvaddr :=
    Option.some.inj (recorded.symm.trans read)
  exact ⟨pre, first, post, divided, reads, before, by rw [value, pc]; exact near⟩

/-- The merge rewires a register only for a capability branch that traps across windows.  In the
step of `mp_merge` that merges the `k`-th worker result, `_merge_pcc_fixup(u)` changes nothing,
or: `k` is not the first step; the window before the `k`-th ends with a capability branch that
took an exception, with no `dmfc0` and no other such branch after it; the first BadVAddr read of
the `k`-th window, before any `eret`, read the address of that branch or the next one; `u` is a
placeholder; and the previous register set gets the saved `pcc` at the register of `u`. -/
theorem build_pccFixup_spans {windows : List (List Record)} {results : List WorkerResult}
    {k : Nat} {context : MergePartialSubgraphContext} {result : WorkerResult}
    {transform transform' : MergePartialSubgraph} {u : Nat}
    (workers : runWorkers 0 windows = .ok results)
    (merged : (results.take k).foldlM MergePartialSubgraphContext.step .initial = .ok context)
    (current : results[k]? = some result)
    (fixed : transform.mergePccFixup context result u = .ok transform') :
    transform' = transform ∨
      ∃ front before window back, windows = front ++ before :: window :: back ∧
        front.length + 1 = k ∧
        (∃ early branch late, before = early ++ branch :: late ∧
          (branch.opcode = .cjr ∨ branch.opcode = .cjalr) ∧ branch.hasException = true ∧
          (∀ other ∈ late, other.opcode ≠ .dmfc0 ∧
            ¬((other.opcode = .cjr ∨ other.opcode = .cjalr) ∧ other.hasException = true)) ∧
          ∃ pre first post, window = pre ++ first :: post ∧ first.readsBadvaddr = true ∧
            (∀ other ∈ pre, other.opcode ≠ .eret ∧ other.readsBadvaddr = false) ∧
            (first.op0.gprValue = branch.pc ∨ first.op0.gprValue = branch.pc + 4)) ∧
        (transform.subgraph.data u).origin = .partialMarker ∧
        ∃ idx, result.initialRegset.index? u = some idx ∧
          transform' =
            { transform with
              previousRegset :=
                { transform.previousRegset with
                  regNodes := Function.update transform.previousRegset.regNodes idx
                    context.prevPccFixup.savedPcc } } := by
  rcases MergePartialSubgraph.mergePccFixup_cases fixed with same |
    ⟨badvaddr, jmpInstrAddr, idx, read, saved, near, marked, indexed, rewired⟩
  · exact .inl same
  rcases MergePartialSubgraphContext.foldlM_step_last merged with
    ⟨-, rfl⟩ | ⟨early, last, middle, taken, stepped⟩
  · cases saved
  obtain ⟨bound, found⟩ := List.getElem?_eq_some_iff.mp current
  have split : results = early ++ last :: result :: results.drop (k + 1) := by
    conv_lhs => rw [← List.take_append_drop k results, List.drop_eq_getElem_cons bound]
    rw [taken, found, List.append_assoc, List.singleton_append]
  have steps : early.length + 1 = k := by
    have := congrArg List.length taken
    simp only [List.length_take, List.length_append, List.length_singleton] at this
    omega
  rw [split] at workers
  obtain ⟨front, before, window, back, rfl, length, ⟨start, earlier, parsedBefore, rfl⟩, start',
    later, parsedWindow, rfl⟩ := runWorkers_consecutive workers
  exact .inr ⟨front, before, window, back, rfl, length ▸ steps,
    doParse_fixupAcross parsedBefore parsedWindow (MergePartialSubgraphContext.step_handoff
      stepped).1 read saved near, marked, idx, indexed, rewired⟩

/-- `cjr $c1` at address 4. -/
def capJump : Record := { Record.blank 3 4 with opcode := .cjr, op0 := .cap 1 sampleCap }

/-- `cjr $c2` at address 8, taking an exception. -/
def capTrap : Record :=
  { Record.blank 4 8 with opcode := .cjr, op0 := .cap 2 sampleCap, exception := some 0 }

/-- `kcc` in `$c1`, narrowed into `$c2`, a jump through `$c1` and a trapped branch through `$c2`
at address 8; the next window reads BadVAddr = 8. -/
def fixupWindows : List (List Record) :=
  [[Record.getKcc 1 1, Record.narrow 2 2 1, capJump, capTrap], [Record.readBadvaddr 5 8]]

def fixupResults : List WorkerResult := (runWorkers 0 fixupWindows).toOption.getD []

def fixupFirst : MergePartialSubgraphContext :=
  ((fixupResults.take 1).foldlM MergePartialSubgraphContext.step .initial).toOption.getD .initial

def fixupResult : WorkerResult :=
  ((doParse 4 [Record.readBadvaddr 5 8]).toOption.getD initialParser).mpResult .initial

def fixupStart : MergePartialSubgraph :=
  { graph := fixupFirst.pgm, subgraph := fixupResult.pgm, copyVertexMap := fun _ => none,
    omitVertexMap := fun _ => false, previousRegset := fixupFirst.prevRegset }

def fixupFixed : MergePartialSubgraph :=
  (fixupStart.mergePccFixup fixupFirst fixupResult 31).toOption.getD fixupStart

/-- The first window leaves the trapped branch's target, merged vertex 1, in `$c31`; the fix-up
puts there the saved `pcc`, merged vertex 0, the `kcc` the jump installed. -/
theorem build_pccFixup_spans_epcc :
    runWorkers 0 fixupWindows = .ok fixupResults ∧
    (fixupResults.take 1).foldlM MergePartialSubgraphContext.step .initial = .ok fixupFirst ∧
    fixupResults[1]? = some fixupResult ∧
    fixupStart.mergePccFixup fixupFirst fixupResult 31 = .ok fixupFixed ∧
    fixupStart.previousRegset.regNodes 31 = some 1 ∧
    fixupFixed.previousRegset.regNodes 31 = some 0 ∧
    (fixupFixed = fixupStart ∨
      ∃ front before window back, fixupWindows = front ++ before :: window :: back ∧
        front.length + 1 = 1 ∧
        (∃ early branch late, before = early ++ branch :: late ∧
          (branch.opcode = .cjr ∨ branch.opcode = .cjalr) ∧ branch.hasException = true ∧
          (∀ other ∈ late, other.opcode ≠ .dmfc0 ∧
            ¬((other.opcode = .cjr ∨ other.opcode = .cjalr) ∧ other.hasException = true)) ∧
          ∃ pre first post, window = pre ++ first :: post ∧ first.readsBadvaddr = true ∧
            (∀ other ∈ pre, other.opcode ≠ .eret ∧ other.readsBadvaddr = false) ∧
            (first.op0.gprValue = branch.pc ∨ first.op0.gprValue = branch.pc + 4)) ∧
        (fixupStart.subgraph.data 31).origin = .partialMarker ∧
        ∃ idx, fixupResult.initialRegset.index? 31 = some idx ∧
          fixupFixed =
            { fixupStart with
              previousRegset :=
                { fixupStart.previousRegset with
                  regNodes := Function.update fixupStart.previousRegset.regNodes idx
                    fixupFirst.prevPccFixup.savedPcc } }) :=
  have workers : runWorkers 0 fixupWindows = .ok fixupResults := by rfl
  have merged : (fixupResults.take 1).foldlM MergePartialSubgraphContext.step .initial =
      .ok fixupFirst := by rfl
  have current : fixupResults[1]? = some fixupResult := by rfl
  have fixed : fixupStart.mergePccFixup fixupFirst fixupResult 31 = .ok fixupFixed := by rfl
  ⟨workers, merged, current, fixed, by rfl, by rfl,
    build_pccFixup_spans workers merged current fixed⟩

/-! ## The memory map -/

/-- The memory map the merge carries from one step to the next forgets what earlier windows
stored.  After the steps over `pre`, it holds an address only if the window of the last of them
loaded or stored a capability there: `get_final_vmap` reads the last worker's map alone, and a
worker's map starts empty. -/
theorem build_prevVmap_lastWindow {windows : List (List Record)} {pre post : List WorkerResult}
    {context : MergePartialSubgraphContext} (workers : runWorkers 0 windows = .ok (pre ++ post))
    (merged : pre.foldlM MergePartialSubgraphContext.step .initial = .ok context)
    {addr v : Nat} (held : context.prevVmap.get? addr = some v) :
    ∃ front window back, windows = front ++ window :: back ∧ front.length + 1 = pre.length ∧
      ∃ access ∈ window, access.opcode.isCapTransfer = true ∧ access.memoryAddress = addr := by
  rcases MergePartialSubgraphContext.foldlM_step_last merged with
    ⟨-, rfl⟩ | ⟨early, last, middle, rfl, stepped⟩
  · cases held
  obtain ⟨transform, carried⟩ := (MergePartialSubgraphContext.step_handoff stepped).2.2
  rw [carried] at held
  obtain ⟨u, member, -⟩ := MergePartialSubgraph.getFinalVmap_get? held
  rw [List.append_assoc, List.singleton_append] at workers
  obtain ⟨front, late, start, rfl, length, ranLate⟩ := runWorkers_append workers
  obtain ⟨window, back, parser, rfl, parsed, rfl, -⟩ := runWorkers_cons ranLate
  exact ⟨front, window, back, rfl, by simp [length], doParse_vertexMap_touched parsed member⟩

/-- `kcc` in `$c1` and `$c4`, and `csc $c4` to 8192 through `$c1`; a window that touches no
memory; then `clc $c6` from 8192 through `$c1`. -/
def spreadWindows : List (List Record) :=
  [[Record.getKcc 1 1, .getKcc 2 4, .storeCap 3 4 sampleCap], [Record.blank 4 16],
    [.loadCap 5 6 sampleCap]]

def spreadResults : List WorkerResult := (runWorkers 0 spreadWindows).toOption.getD []

def spreadStored : MergePartialSubgraphContext :=
  ((spreadResults.take 1).foldlM MergePartialSubgraphContext.step .initial).toOption.getD .initial

def spreadContext : MergePartialSubgraphContext := (mpMerge spreadResults).toOption.getD .initial

/-- The map carried out of the first step holds the stored `kcc`, merged vertex 0, at 8192, as
the first window's `csc` explains.  The second window touches no memory, so the map carried out
of it is empty, and the merge gives the capability the third window reloads into `$c6` a new
vertex, 1; one parse of the whole trace puts the stored vertex back in `$c6`. -/
theorem build_prevVmap_lastWindow_spread :
    runWorkers 0 spreadWindows = .ok spreadResults ∧
    (spreadResults.take 1).foldlM MergePartialSubgraphContext.step .initial = .ok spreadStored ∧
    spreadStored.prevVmap.get? 8192 = some 0 ∧
    ((spreadResults.take 2).foldlM MergePartialSubgraphContext.step .initial).map
      (·.prevVmap.get? 8192) = .ok none ∧
    mpMerge spreadResults = .ok spreadContext ∧
    spreadContext.prevRegset.regNodes 4 = some 0 ∧ spreadContext.prevRegset.regNodes 6 = some 1 ∧
    (doParse 0 spreadWindows.flatten).map (fun parser =>
      (parser.regset.regNodes 4, parser.regset.regNodes 6)) = .ok (some 33, some 33) ∧
    ∃ front window back, spreadWindows = front ++ window :: back ∧ front.length + 1 = 1 ∧
      ∃ access ∈ window, access.opcode.isCapTransfer = true ∧ access.memoryAddress = 8192 :=
  have workers : runWorkers 0 spreadWindows = .ok spreadResults := by rfl
  have split : runWorkers 0 spreadWindows = .ok (spreadResults.take 1 ++ spreadResults.drop 1) := by
    rw [List.take_append_drop]
    exact workers
  have merged : (spreadResults.take 1).foldlM MergePartialSubgraphContext.step .initial =
      .ok spreadStored := by rfl
  have held : spreadStored.prevVmap.get? 8192 = some 0 := by rfl
  ⟨workers, merged, held, by rfl, by rfl, by rfl, by rfl, by rfl,
    build_prevVmap_lastWindow split merged held⟩

/-! ## The stack property -/

namespace MergePartialSubgraphContext

variable {context context' : MergePartialSubgraphContext} {result : WorkerResult}

/-- A step sets the stack by `_merge_graph_properties` and counts itself. -/
theorem step_stack (stepped : context.step result = .ok context') :
    context'.stack = context.mergeGraphProperties result ∧ context'.stepIdx = context.stepIdx + 1 := by
  obtain ⟨_, -, finalized⟩ := Except.bind_eq_ok.mp stepped
  obtain ⟨_, -, rest⟩ := Except.bind_eq_ok.mp finalized
  obtain ⟨_, -, rest⟩ := Except.bind_eq_ok.mp rest
  cases rest
  exact ⟨rfl, rfl⟩

/-- The steps after the first keep the merged graph's stack. -/
theorem foldlM_step_stack : ∀ {results : List WorkerResult} {context context' : MergePartialSubgraphContext},
    context.stepIdx ≠ 0 → results.foldlM step context = .ok context' → context'.stack = context.stack
  | [], _, _, _, ran => by cases ran; rfl
  | _ :: _, _, _, later, ran => by
      rw [List.foldlM_cons] at ran
      obtain ⟨_, stepped, ran⟩ := Except.bind_eq_ok.mp ran
      obtain ⟨stack, counted⟩ := step_stack stepped
      rw [foldlM_step_stack (by omega) ran, stack, mergeGraphProperties, if_neg later]

end MergePartialSubgraphContext

/-- The merged graph's stack is the user stack at the first `eret` of the first window: `$c11`,
with `$sp` as its offset.  The merge copies the stack of the first worker's graph only, so an
`eret` of a later window is never used, even when the first window has none; with no window
the stack keeps its default. -/
theorem build_stack_firstWindow {windows : List (List Record)}
    {context : MergePartialSubgraphContext} (built : build windows = .ok context) :
    context.stack = (windows.head?.bind fun window =>
      window.find? fun record => record.opcode = .eret).map Record.userStack := by
  obtain ⟨results, workers, merged⟩ := Except.bind_eq_ok.mp built
  cases windows with
  | nil => cases workers; cases merged; rfl
  | cons window windows =>
      obtain ⟨_, -, rest⟩ := Except.bind_eq_ok.mp workers
      obtain ⟨_, -, final⟩ := Except.bind_eq_ok.mp rest
      cases final
      rw [mpMerge, List.foldlM_cons] at merged
      obtain ⟨first, stepped, later⟩ := Except.bind_eq_ok.mp merged
      obtain ⟨stack, counted⟩ := MergePartialSubgraphContext.step_stack stepped
      rw [MergePartialSubgraphContext.foldlM_step_stack (by simp [counted]) later, stack]
      simpa [MergePartialSubgraphContext.mergeGraphProperties, MergePartialSubgraphContext.initial,
        PointerProvenanceParser.mpResult] using InitialStackAccessSubparser.foldl_scan_stack window

/-- `kcc` read into `$c3` in the first window, and an `eret` in the second window only. -/
def laterEretWindows : List (List Record) := [[Record.getKcc 1 3], [Record.eretTo 2 12]]

def laterEretContext : MergePartialSubgraphContext :=
  (build laterEretWindows).toOption.getD .initial

/-- The build succeeds, and the merged graph keeps the default stack. -/
theorem build_stack_firstWindow_laterEret :
    build laterEretWindows = .ok laterEretContext ∧
      laterEretContext.stack = (laterEretWindows.head?.bind fun window =>
        window.find? fun record => record.opcode = .eret).map Record.userStack ∧
      laterEretContext.stack = none :=
  have built : build laterEretWindows = .ok laterEretContext := by rfl
  ⟨built, build_stack_firstWindow built, by rfl⟩

end Cheriplot.Provenance
