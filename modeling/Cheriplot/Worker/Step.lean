import Cheriplot.Parser.Scan

namespace Cheriplot.Provenance

/-! # What the callbacks of one record do

The callbacks of a record only add to the graph: old vertices keep their capability and origin
and their logs grow by events stamped with the record's cycle (`Grows`).  Besides, a register
slot that holds a vertex other than a placeholder keeps it unless the record may write that
slot (`Step`); the slots a handler may write are its `written` footprint.
-/

/-- `graph'` extends `graph` at time `time`. -/
structure Grows (time : Nat) (graph graph' : Graph) : Prop where
  size : graph.size ≤ graph'.size
  cap : ∀ v < graph.size, (graph'.data v).cap = (graph.data v).cap
  origin : ∀ v < graph.size, (graph'.data v).origin = (graph.data v).origin
  events : ∀ v < graph.size, ∃ new, (graph'.data v).events = (graph.data v).events ++ new ∧
    ∀ event ∈ new, event.time = time
  fresh : ∀ v, graph.size ≤ v → v < graph'.size →
    ∀ event ∈ (graph'.data v).events, event.time = time

namespace Grows

variable {time : Nat} {graph graph' graph'' : Graph}

theorem of_data (size : graph'.size = graph.size) (data : graph'.data = graph.data) :
    Grows time graph graph' :=
  ⟨size.ge, fun _ _ => by rw [data], fun _ _ => by rw [data],
    fun _ _ => ⟨[], by simp [data], by simp⟩, fun _ low high => absurd high (by omega)⟩

theorem trans (first : Grows time graph graph') (second : Grows time graph' graph'') :
    Grows time graph graph'' := by
  refine ⟨first.size.trans second.size, fun v bound => ?_, fun v bound => ?_, fun v bound => ?_,
    fun v low high => ?_⟩
  · rw [second.cap v (by have := first.size; omega), first.cap v bound]
  · rw [second.origin v (by have := first.size; omega), first.origin v bound]
  · obtain ⟨new, grown, timed⟩ := first.events v bound
    obtain ⟨new', grown', timed'⟩ := second.events v (by have := first.size; omega)
    refine ⟨new ++ new', by rw [grown', grown, List.append_assoc], fun event member => ?_⟩
    rcases List.mem_append.mp member with old | young
    · exact timed event old
    · exact timed' event young
  · by_cases older : v < graph'.size
    · obtain ⟨new', grown', timed'⟩ := second.events v older
      intro event member
      rw [grown'] at member
      rcases List.mem_append.mp member with old | young
      · exact first.fresh v low older event old
      · exact timed' event young
    · exact second.fresh v (by omega) high

theorem addVertex {data : NodeData} (empty : data.events = []) :
    Grows time graph (graph.addVertex data).1 := by
  refine ⟨by simp, fun v bound => ?_, fun v bound => ?_, fun v bound => ⟨[], ?_, by simp⟩,
    fun v low high => ?_⟩
  · simp [Graph.addVertex_data, Nat.ne_of_lt bound]
  · simp [Graph.addVertex_data, Nat.ne_of_lt bound]
  · simp [Graph.addVertex_data, Nat.ne_of_lt bound]
  · simp only [Graph.addVertex_size] at high
    simp [Graph.addVertex_data, show v = graph.size by omega, empty]

theorem addEvent (vertex : Nat) {event : Event} (timed : event.time = time) :
    Grows time graph (graph.modifyData vertex (·.addEvent event)) := by
  refine ⟨by simp, fun v _ => ?_, fun v _ => ?_, fun v _ => ?_, fun v low high => ?_⟩
  · rw [Graph.modifyData_data]; split <;> simp_all
  · rw [Graph.modifyData_data]; split <;> simp_all
  · rw [Graph.modifyData_data]
    split
    · subst v; exact ⟨[event], by simp, by simpa using timed⟩
    · exact ⟨[], by simp, by simp⟩
  · simp only [Graph.modifyData_size] at high; omega

end Grows

/-- A slot holding a vertex other than a placeholder still does, if its handle is unchanged
and no vertex became a placeholder. -/
theorem PointerProvenanceParser.hasReg_keep {parser parser' : PointerProvenanceParser}
    {slot : Fin 32} (held : parser.hasReg slot true)
    (same : parser'.regset.regNodes slot = parser.regset.regNodes slot)
    (origin : ∀ v, (parser.pgm.data v).origin ≠ .partialMarker →
      (parser'.pgm.data v).origin ≠ .partialMarker) :
    parser'.hasReg slot true := by
  unfold PointerProvenanceParser.hasReg RegisterSet.hasReg at *
  rw [same]
  split at held
  · cases held
  · simp only [Bool.true_and, Bool.not_eq_true', decide_eq_false_iff_not] at held ⊢
    exact origin _ held

/-- What the callbacks of `record` do to a worker outside the slots `written`. -/
structure Step (record : Record) (written : Fin 32 → Prop)
    (parser parser' : PointerProvenanceParser) : Prop where
  grows : Grows record.cycles parser.pgm parser'.pgm
  frame : ∀ slot, parser.hasReg slot true → ¬ written slot →
    parser'.regset.regNodes slot = parser.regset.regNodes slot ∧ parser'.hasReg slot true

namespace Step

variable {record : Record} {written : Fin 32 → Prop} {parser mid next : PointerProvenanceParser}

theorem refl (parser : PointerProvenanceParser) : Step record written parser parser :=
  ⟨.of_data rfl rfl, fun _ held _ => ⟨rfl, held⟩⟩

theorem weaken {written' : Fin 32 → Prop} (step : Step record written parser mid)
    (wider : ∀ slot, written slot → written' slot) : Step record written' parser mid :=
  ⟨step.grows, fun slot held other => step.frame slot held fun w => other (wider slot w)⟩

/-- One more state operation after `first`: it grows the graph, makes no vertex a placeholder,
and keeps the slots that `first` keeps. -/
theorem extend (first : Step record written parser mid)
    (grows : Grows record.cycles mid.pgm next.pgm)
    (origin : ∀ v, (mid.pgm.data v).origin ≠ .partialMarker →
      (next.pgm.data v).origin ≠ .partialMarker)
    (slots : ∀ slot, parser.hasReg slot true → ¬ written slot →
      next.regset.regNodes slot = mid.regset.regNodes slot) :
    Step record written parser next :=
  ⟨first.grows.trans grows, fun slot held other =>
    have kept := first.frame slot held other
    ⟨(slots slot held other).trans kept.1,
      PointerProvenanceParser.hasReg_keep kept.2 (slots slot held other) origin⟩⟩

/-- A slot write, allowed when the slot is in the footprint or did not hold a vertex other than
a placeholder when the record began. -/
theorem setReg (first : Step record written parser mid) {idx : Fin 32} {val : Option Nat}
    (allowed : parser.hasReg idx true = false ∨ written idx) :
    Step record written parser (mid.setReg idx val) := by
  refine first.extend (.of_data (by simp) (RegisterSet.attachSubgraphMerge_data _ _ _))
    (fun v => by simp [PointerProvenanceParser.setReg, RegisterSet.attachSubgraphMerge_data])
    fun slot held other => ?_
  have differ : slot ≠ idx := by
    rintro rfl
    rcases allowed with unheld | inside
    · rw [held] at unheld; cases unheld
    · exact other inside
  simp [PointerProvenanceParser.setReg, Function.update_noteq differ]

theorem setPcc (first : Step record written parser mid) {val : Option Nat} :
    Step record written parser (mid.setPcc val) :=
  first.extend (.of_data (by simp) (RegisterSet.attachSubgraphMerge_data _ _ _))
    (fun v => by simp [PointerProvenanceParser.setPcc, RegisterSet.attachSubgraphMerge_data])
    fun _ _ _ => rfl

theorem addEvent (first : Step record written parser mid) (vertex : Nat) {event : Event}
    (timed : event.time = record.cycles) :
    Step record written parser (mid.modifyData vertex (·.addEvent event)) :=
  first.extend (.addEvent vertex timed)
    (fun v => by
      simp only [PointerProvenanceParser.modifyData, Graph.modifyData_data]
      split <;> simp_all)
    fun _ _ _ => rfl

theorem sameGraph (first : Step record written parser mid) (pgm : next.pgm = mid.pgm)
    (regset : next.regset = mid.regset) : Step record written parser next :=
  first.extend (.of_data (by rw [pgm]) (by rw [pgm])) (fun v => by rw [pgm]; exact id)
    fun slot _ _ => by rw [regset]

theorem trans (first : Step record written parser mid) (second : Step record written mid next) :
    Step record written parser next :=
  ⟨first.grows.trans second.grows, fun slot held other =>
    have kept := first.frame slot held other
    have kept' := second.frame slot kept.2 other
    ⟨kept'.1.trans kept.1, kept'.2⟩⟩

theorem makeRootNode (first : Step record written parser mid) {other : Record}
    {cap : CheriCap} {time : Nat} {pc : Option Nat} {node : Nat}
    (made : mid.makeRootNode other cap time pc = (next, node)) :
    Step record written parser next := by
  simp only [PointerProvenanceParser.makeRootNode, Prod.mk.injEq] at made
  obtain ⟨rfl, -⟩ := made
  refine first.extend (.addVertex rfl) (fun v notPartial => ?_) fun _ _ _ => rfl
  simp only [Graph.addVertex_data]
  split <;> simp_all

theorem makeNode (first : Step record written parser mid) {other : Record}
    {origin : CheriNodeOrigin} {node : Nat} (notPartial : origin ≠ .partialMarker)
    (made : mid.makeNode other origin = .ok (next, node)) :
    Step record written parser next := by
  obtain ⟨-, parent, data, -, -, rfl, empty, made⟩ := mid.makeNode_eq_ok other made
  cases made
  refine first.extend ((Grows.addVertex empty).trans (.of_data rfl rfl)) (fun v old => ?_)
    fun _ _ _ => rfl
  simp only [Graph.addEdge_data, Graph.addVertex_data]
  split <;> simp_all

/-! ## The handlers -/

variable {parser' : PointerProvenanceParser}

theorem scanDerivation {origin : CheriNodeOrigin} (notPartial : origin ≠ .partialMarker)
    (scanned : parser.scanDerivation record origin = .ok parser') :
    Step record (· = record.op0.capIndex) parser parser' := by
  obtain ⟨⟨mid, node⟩, made, rfl⟩ := Except.map_eq_ok.mp scanned
  exact ((refl parser).makeNode notPartial made).setReg (.inr rfl)

theorem handleCpregGet (regnum : Fin 32) :
    Step record (· = record.op0.capIndex) parser (parser.handleCpregGet record regnum) := by
  unfold PointerProvenanceParser.handleCpregGet
  cases made : parser.makeRootNode record record.op0.value record.cycles none with
  | mk root node =>
      simp only [made]
      refine Step.setReg ?_ (.inr rfl)
      split
      · exact refl parser
      · exact ((refl parser).makeRootNode made).setReg (.inl (Bool.eq_false_iff.mpr ‹_›))

theorem handleCpregSet {regnum : Fin 32}
    (scanned : parser.handleCpregSet record regnum = .ok parser') :
    Step record (· = regnum) parser parser' := by
  unfold PointerProvenanceParser.handleCpregSet at scanned
  split at scanned
  · cases scanned
  rename_i op1 _
  cases made : parser.makeRootNode record record.op0.value record.cycles none with
  | mk root node =>
      simp only [made, Except.ok.injEq] at scanned
      subst scanned
      refine Step.setReg ?_ (.inr rfl)
      split
      · exact refl parser
      · exact ((refl parser).makeRootNode made).setReg (.inl (Bool.eq_false_iff.mpr ‹_›))

theorem scanCgetpcc : Step record (· = record.op0.capIndex) parser (parser.scanCgetpcc record) := by
  unfold PointerProvenanceParser.scanCgetpcc
  cases made : parser.makeRootNode record record.op0.value record.cycles none with
  | mk root node =>
      simp only [made]
      refine Step.setReg ?_ (.inr rfl)
      split
      · exact refl parser
      · exact ((refl parser).makeRootNode made).setPcc

theorem updateRegsRoot {idx : Nat} (dest : written record.op0.capIndex)
    (source : ∀ src, record.op1 = some src →
      parser.hasReg src.capIndex true = false ∨ written src.capIndex)
    (scanned : parser.updateRegsRoot record idx = .ok parser') :
    Step record written parser parser' := by
  unfold PointerProvenanceParser.updateRegsRoot at scanned
  cases made : parser.makeRootNode record record.op0.value record.cycles (some record.pc) with
  | mk root node =>
      simp only [made] at scanned
      split_ifs at scanned
      · split at scanned
        · cases scanned
        · rename_i src found
          cases scanned
          exact (((refl parser).makeRootNode made).setReg (source src found)).setReg (.inr dest)
      · cases scanned; exact refl parser

theorem updateRegs {idx : Nat} (dest : written record.op0.capIndex)
    (source : ∀ src, record.op1 = some src → src.isCapability = false → written src.capIndex)
    (scanned : parser.updateRegs record idx = .ok parser') :
    Step record written parser parser' := by
  unfold PointerProvenanceParser.updateRegs at scanned
  split at scanned
  · split at scanned
    · rename_i src found
      split at scanned
      · cases scanned; exact (refl parser).setReg (.inr dest)
      · rename_i notMoved
        refine updateRegsRoot dest (fun other same => ?_) scanned
        cases found.symm.trans same
        cases capability : src.isCapability
        · exact .inr (source src found capability)
        · rw [capability, Bool.true_and] at notMoved
          exact .inl (Bool.eq_false_iff.mpr notMoved)
    · exact updateRegsRoot dest (fun _ none => by simp_all) scanned
  · cases scanned; exact refl parser

theorem scanCap {idx : Nat}
    (dest : (record.isStore || record.isLoad || record.opcode.inCbkNames) = false →
      written record.op0.capIndex)
    (source : (record.isStore || record.isLoad || record.opcode.inCbkNames) = false →
      ∀ src, record.op1 = some src → src.isCapability = false → written src.capIndex)
    (scanned : parser.scanCap record idx = .ok parser') :
    Step record written parser parser' := by
  unfold PointerProvenanceParser.scanCap at scanned
  split at scanned
  · cases scanned; exact refl parser
  · next plain =>
    have plain := Bool.eq_false_iff.mpr plain
    exact updateRegs (dest plain) (source plain) scanned

theorem handleDereference {ptrReg : Fin 32}
    (scanned : parser.handleDereference record ptrReg = .ok parser') :
    Step record written parser parser' := by
  unfold PointerProvenanceParser.handleDereference at scanned
  split at scanned
  · cases scanned
  · split at scanned
    · cases scanned; exact (refl parser).addEvent _ (by rfl)
    · split at scanned
      · cases scanned; exact (refl parser).addEvent _ (by rfl)
      · split at scanned
        · cases scanned; exact refl parser
        · cases scanned

theorem scanCapLoad (scanned : parser.scanCapLoad record = .ok parser') :
    Step record written parser parser' := by
  unfold PointerProvenanceParser.scanCapLoad at scanned
  split at scanned
  · exact handleDereference scanned
  · cases scanned
  · cases scanned; exact refl parser

theorem scanCapStore (scanned : parser.scanCapStore record = .ok parser') :
    Step record written parser parser' := by
  unfold PointerProvenanceParser.scanCapStore at scanned
  split at scanned
  · exact handleDereference scanned
  · cases scanned; exact refl parser

theorem loadedNode {node : Nat} (loaded : parser.loadedNode record = (mid, node)) :
    Step record written parser mid := by
  unfold PointerProvenanceParser.loadedNode at loaded
  split at loaded
  · cases loaded; exact refl parser
  · cases made : parser.makeRootNode record record.op0.value record.cycles none with
    | mk root fresh =>
        simp only [made, Prod.mk.injEq] at loaded
        obtain ⟨rfl, rfl⟩ := loaded
        exact ((refl parser).makeRootNode made).sameGraph rfl rfl

theorem scanClc : Step record (· = record.op0.capIndex) parser (parser.scanClc record) := by
  unfold PointerProvenanceParser.scanClc
  dsimp only
  split_ifs
  · have cleared : Step record (· = record.op0.capIndex) parser
        (parser.setReg record.op0.capIndex none) := (refl parser).setReg (.inr rfl)
    split
    · exact cleared.sameGraph rfl rfl
    · exact cleared
  · cases loaded : parser.loadedNode record with
    | mk mid node =>
        simp only [loaded]
        exact ((loadedNode loaded).addEvent node (by rfl)).setReg (.inr rfl)
  · exact refl parser

theorem storedNode {node : Nat} (stored : parser.storedNode record = (mid, node)) :
    Step record written parser mid := by
  unfold PointerProvenanceParser.storedNode at stored
  split at stored
  · cases stored; exact refl parser
  · rename_i notHeld
    have unheld : parser.hasReg record.op0.capIndex true = false := by
      cases held : parser.hasReg record.op0.capIndex true
      · rfl
      · cases slot : parser.regset.regNodes record.op0.capIndex with
        | none => simp [PointerProvenanceParser.hasReg, RegisterSet.hasReg, slot] at held
        | some v => exact absurd held (notHeld v slot)
    cases made : parser.makeRootNode record record.op0.value record.cycles none with
    | mk root fresh =>
        simp only [made, Prod.mk.injEq] at stored
        obtain ⟨rfl, rfl⟩ := stored
        exact ((refl parser).makeRootNode made).setReg (.inl unheld)

theorem scanCsc : Step record written parser (parser.scanCsc record) := by
  unfold PointerProvenanceParser.scanCsc
  split_ifs
  · cases stored : parser.storedNode record with
    | mk mid node =>
        simp only [stored]
        refine Step.addEvent ?_ node (by rfl)
        exact (storedNode stored).sameGraph rfl rfl
  · exact refl parser

theorem branchToTarget {target : Fin 32}
    (scanned : parser.branchToTarget record target = .ok parser') :
    Step record written parser parser' := by
  unfold PointerProvenanceParser.branchToTarget at scanned
  split at scanned
  · cases scanned
  rename_i newPcc _
  have saved : Step record written parser
      (if record.hasException then parser.saveBranchState record newPcc else parser) := by
    split
    · exact (refl parser).sameGraph rfl rfl
    · exact refl parser
  dsimp only at scanned
  generalize (if record.hasException then parser.saveBranchState record newPcc else parser) = mid
    at saved scanned
  split at scanned
  · cases scanned
  · split_ifs at scanned
    · cases scanned; exact saved.setPcc

theorem scanCjalr (scanned : parser.scanCjalr record = .ok parser') :
    Step record (· = record.op0.capIndex) parser parser' := by
  unfold PointerProvenanceParser.scanCjalr at scanned
  cases linked : parser.oldPccNode record with
  | mk mid node =>
      have first : Step record (· = record.op0.capIndex) parser mid := by
        unfold PointerProvenanceParser.oldPccNode at linked
        split at linked
        · cases linked; exact refl parser
        · exact (refl parser).makeRootNode linked
      simp only [linked] at scanned
      split at scanned
      · cases scanned
      · exact (first.setReg (.inr rfl)).trans (branchToTarget scanned)

theorem scanDmfc0 (scanned : parser.scanDmfc0 record = .ok parser') :
    Step record (· = 31) parser parser' := by
  unfold PointerProvenanceParser.scanDmfc0 at scanned
  split at scanned
  · split at scanned
    · cases scanned
    obtain ⟨restored, found, rfl⟩ := Except.map_eq_ok.mp scanned
    have cleared : Step record (· = 31) parser
        { parser with pccFixup := { parser.pccFixup with saveFirstMfc := false } } :=
      (refl parser).sameGraph rfl rfl
    have restoredStep : Step record (· = 31) parser restored := by
      split_ifs at found
      · split at found
        · cases found
        · cases found
        · split_ifs at found
          · cases found; exact cleared.setReg (.inr rfl)
      · cases found; exact cleared
    exact restoredStep.sameGraph rfl rfl
  · split_ifs at scanned
    · split at scanned
      · cases scanned
      · split_ifs at scanned <;> cases scanned
        · exact (refl parser).sameGraph rfl rfl
        · exact refl parser
    · cases scanned; exact refl parser

theorem scanException (scanned : parser.scanException = .ok parser') :
    Step record (· = 31) parser parser' := by
  unfold PointerProvenanceParser.scanException at scanned
  dsimp only at scanned
  split at scanned
  · cases scanned
    refine Step.setPcc (Step.setReg ?_ (.inr (by rfl)))
    exact (refl parser).sameGraph rfl rfl
  · cases scanned

theorem scanSyscall (scanned : parser.scanSyscall record = .ok parser') :
    Step record written parser parser' := by
  unfold PointerProvenanceParser.scanSyscall at scanned
  dsimp only at scanned
  split at scanned
  · cases scanned; exact (refl parser).sameGraph rfl rfl
  · cases scanned; exact (refl parser).sameGraph rfl rfl
  · split at scanned
    · cases scanned
    · cases scanned
      refine Step.addEvent ?_ _ (by rfl)
      exact (refl parser).sameGraph rfl rfl

theorem syscallScanEret (scanned : parser.syscallScanEret record = .ok parser') :
    Step record written parser parser' := by
  unfold PointerProvenanceParser.syscallScanEret at scanned
  split at scanned
  · cases scanned
  dsimp only at scanned
  obtain ⟨returned, found, rfl⟩ := Except.map_eq_ok.mp scanned
  have returnedStep : Step record written parser returned := by
    split at found
    · unfold PointerProvenanceParser.recordSyscallReturn at found
      dsimp only at found
      split at found
      · cases found
      · cases found
        refine Step.addEvent ?_ _ (by rfl)
        exact (refl parser).sameGraph rfl rfl
    · cases found; exact (refl parser).sameGraph rfl rfl
  exact returnedStep.setPcc

end Step

namespace PointerProvenanceParser

variable {parser parser' : PointerProvenanceParser}

/-- `scan_exception` moves `pcc` into `$c31` and the vertex of `$c29` into `pcc`; the graph keeps
its vertices and the in-neighbours of every vertex other than a ROOT. -/
theorem scanException_eq_ok (scanned : parser.scanException = .ok parser') :
    parser'.regset.regNodes = Function.update parser.regset.regNodes 31 parser.regset.pcc ∧
      parser'.pgm.size = parser.pgm.size ∧ parser'.pgm.data = parser.pgm.data ∧
      ∀ w, (parser.pgm.data w).origin ≠ .root →
        parser'.pgm.inNeighbours w = parser.pgm.inNeighbours w := by
  unfold scanException at scanned
  dsimp only at scanned
  split at scanned
  · cases scanned
    refine ⟨rfl, by simp, by simp [setPcc, setReg, RegisterSet.attachSubgraphMerge_data],
      fun w notRoot => ?_⟩
    simp only [setPcc, setReg]
    rw [RegisterSet.attachSubgraphMerge_inNeighbours _ _ _
      (by rwa [RegisterSet.attachSubgraphMerge_data]),
      RegisterSet.attachSubgraphMerge_inNeighbours _ _ _ notRoot]
  · cases scanned

theorem scanException_regNodes (scanned : parser.scanException = .ok parser') {slot : Fin 32}
    (other : slot ≠ 31) : parser'.regset.regNodes slot = parser.regset.regNodes slot := by
  rw [(scanException_eq_ok scanned).1, Function.update_noteq other]

end PointerProvenanceParser

/-- The special register a `cset` move writes. -/
def Opcode.specialSlot : Opcode → Option (Fin 32)
  | .csetepcc => some 31
  | .csetkcc => some 29
  | .csetkdc => some 30
  | .csetdefault => some 0
  | _ => none

/-- The opcodes whose handler writes operand 0: the derivations, the link register of `cjalr`,
the `cget` moves, `cgetpcc` and the loads of `scan_clc`. -/
def Opcode.writesOp0 : Opcode → Bool
  | .csetbounds | .cfromptr | .candperm | .cjalr | .cgetepcc | .cgetkcc | .cgetkdc
  | .cgetdefault | .cgetpcc | .cgetpccsetoffset | .clc | .clcr | .clci => true
  | _ => false

/-- `scan_cap` hands the record to `update_regs`: a capability instruction that neither loads
nor stores and has no handler of its own. -/
def Record.updatesRegs (record : Record) : Bool :=
  record.opcode.isCapInstruction && !(record.isStore || record.isLoad || record.opcode.inCbkNames)

/-- The slots the callbacks of `record` may write while they hold a vertex other than a
placeholder: operand 0 of a handler that writes it or of a record `update_regs` handles, and the
general-purpose operand 1 that `update_regs` may give a ROOT; the special register of a `cset`
move; `epcc` on an exception or a CP0 read.  A store writes its register only when it held no
such vertex. -/
def Record.writesSlot (record : Record) (slot : Fin 32) : Bool :=
  (record.opcode.writesOp0 || record.updatesRegs) && record.op0.capIndex == slot ||
    record.updatesRegs && record.op1.any (fun src => !src.isCapability && src.capIndex == slot) ||
    record.opcode.specialSlot == some slot ||
    slot == 31 && (record.hasException || record.opcode == .dmfc0)

namespace Step

variable {record : Record} {parser parser' : PointerProvenanceParser}

theorem scanOpcode (scanned : parser.scanOpcode record = .ok parser') :
    Step record (record.writesSlot · = true) parser parser' := by
  have dest : ∀ {opcode}, record.opcode = opcode → opcode.writesOp0 = true →
      ∀ slot, slot = record.op0.capIndex → record.writesSlot slot = true := by
    intro opcode same writes slot slotSame; simp [Record.writesSlot, same, writes, slotSame]
  have special : ∀ slot, record.opcode.specialSlot = some slot → record.writesSlot slot = true :=
    fun slot found => by simp [Record.writesSlot, found]
  unfold PointerProvenanceParser.scanOpcode at scanned
  cases opcode : record.opcode <;> simp only [opcode] at scanned
  case cjr => exact branchToTarget scanned
  case cjalr => exact (scanCjalr scanned).weaken (dest opcode rfl)
  case ccall | creturn | cclearregs => cases scanned
  case cfromptr | csetbounds | candperm =>
    exact (scanDerivation (by decide) scanned).weaken (dest opcode rfl)
  case cgetepcc | cgetkcc | cgetkdc | cgetdefault =>
    cases scanned; exact (handleCpregGet _).weaken (dest opcode rfl)
  case csetepcc | csetkcc | csetkdc | csetdefault =>
    exact (handleCpregSet scanned).weaken fun slot same => special slot (by rw [opcode, same]; rfl)
  case cgetpcc | cgetpccsetoffset =>
    cases scanned; exact scanCgetpcc.weaken (dest opcode rfl)
  case clc | clcr | clci => cases scanned; exact scanClc.weaken (dest opcode rfl)
  case csc | cscr | csci => cases scanned; exact scanCsc
  case dmfc0 =>
    exact (scanDmfc0 scanned).weaken fun slot same => by simp [Record.writesSlot, opcode, same]
  case eret =>
    obtain ⟨mid, eret, rfl⟩ := Except.map_eq_ok.mp scanned
    exact (syscallScanEret eret).sameGraph rfl rfl
  case syscall => exact scanSyscall scanned
  all_goals cases scanned; exact refl parser

theorem scanIClass {idx : Nat} (scanned : parser.scanIClass record idx = .ok parser') :
    Step record (record.writesSlot · = true) parser parser' := by
  unfold PointerProvenanceParser.scanIClass at scanned
  obtain ⟨capped, capScan, rest⟩ := Except.bind_eq_ok.mp scanned
  obtain ⟨loaded, loadScan, storeScan⟩ := Except.bind_eq_ok.mp rest
  have cappedStep : Step record (record.writesSlot · = true) parser capped := by
    split at capScan
    · rename_i cap
      refine scanCap (fun plain => ?_) (fun plain src found gpr => ?_) capScan
      · simp [Record.writesSlot, Record.updatesRegs, cap, plain]
      · simp [Record.writesSlot, Record.updatesRegs, cap, plain, found, gpr]
    · cases capScan; exact refl parser
  have loadedStep : Step record (record.writesSlot · = true) parser loaded := by
    split at loadScan
    · exact cappedStep.trans (scanCapLoad loadScan)
    · cases loadScan; exact cappedStep
  split at storeScan
  · exact loadedStep.trans (scanCapStore storeScan)
  · cases storeScan; exact loadedStep

/-- All the callbacks of one record. -/
theorem scan {idx : Nat} (scanned : parser.scan record idx = .ok parser') :
    Step record (record.writesSlot · = true) parser parser' := by
  unfold PointerProvenanceParser.scan at scanned
  obtain ⟨opcoded, opcodeScan, rest⟩ := Except.bind_eq_ok.mp scanned
  obtain ⟨classed, classScan, exceptionScan⟩ := Except.bind_eq_ok.mp rest
  have classedStep := (scanOpcode opcodeScan).trans (scanIClass classScan)
  split at exceptionScan
  · rename_i raised
    refine classedStep.trans ((scanException exceptionScan).weaken fun slot same => ?_)
    simp [Record.writesSlot, same, raised]
  · cases exceptionScan; exact classedStep

end Step

end Cheriplot.Provenance
