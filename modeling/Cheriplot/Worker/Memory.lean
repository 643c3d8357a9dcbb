import Cheriplot.Worker.Step
import Cheriplot.Worker.Invariant

namespace Cheriplot.Provenance

/-! # Capabilities through memory

`scan_csc` records in `vertex_map` the vertex of the stored capability, and `scan_clc` hands
that vertex back to the register it loads.  Only the capability loads and stores (`clc`, `csc`
and their register and immediate forms) touch the map, each at its own address; every other
handler leaves it alone.  So a capability stored to `A` and loaded back from `A`, with no
capability load or store at `A` in between, is the same vertex, and its log holds the store
and then the load.
-/

namespace AddrMap

theorem lookup_cons (entry : Nat × Nat) (map : AddrMap) (other : Nat) :
    (entry :: map).lookup other = if other = entry.1 then some entry.2 else map.lookup other := by
  obtain ⟨key, value⟩ := entry
  by_cases same : other = key
  · subst same; simp
  · have differ : (other == key) = false := by simpa using same
    simp [List.lookup_cons, differ, same]

theorem lookup_map_set (map : AddrMap) (addr vertex other : Nat) :
    (map.map fun entry => if entry.1 = addr then (addr, vertex) else entry).lookup other =
      if other = addr then (map.lookup addr).map fun _ => vertex else map.lookup other := by
  induction map with
  | nil => split <;> rfl
  | cons entry map ih =>
      obtain ⟨key, value⟩ := entry
      by_cases same : key = addr
      · subst same
        by_cases found : other = key <;> simp [lookup_cons, found, ih]
      · have differ : addr ≠ key := Ne.symm same
        by_cases found : other = addr
        · subst found; simp [lookup_cons, same, differ, ih]
        · by_cases here : other = key <;> simp [lookup_cons, same, found, here, ih]

/-- `map[addr] = vertex`, read back at any address. -/
theorem get?_set (map : AddrMap) (addr vertex other : Nat) :
    (map.set addr vertex).get? other = if other = addr then some vertex else map.get? other := by
  unfold set get?
  split
  · rename_i present
    rw [lookup_map_set]
    split
    · obtain ⟨old, found⟩ := Option.isSome_iff_exists.mp present
      simp_all
    · rfl
  · rename_i absent
    rw [List.lookup_append]
    by_cases same : other = addr
    · subst same; simp [Option.not_isSome_iff_eq_none.mp absent, lookup_cons]
    · simp [lookup_cons, same]

/-- An address the map has an entry for is found. -/
theorem get?_ne_none {map : AddrMap} {addr vertex : Nat} (member : (addr, vertex) ∈ map) :
    map.get? addr ≠ none := by
  induction map with
  | nil => cases member
  | cons entry map ih =>
      unfold get? at ih ⊢
      rw [lookup_cons]
      split
      · exact Option.some_ne_none _
      · next differ =>
        exact ih ((List.mem_cons.mp member).resolve_left fun same => differ (by rw [← same]))

/-- `del map[addr]` leaves the other addresses alone. -/
theorem get?_erase (map : AddrMap) {addr other : Nat} (differ : other ≠ addr) :
    (map.erase addr).get? other = map.get? other := by
  unfold erase get?
  induction map with
  | nil => rfl
  | cons entry map ih =>
      rw [List.filter_cons, lookup_cons]
      by_cases same : entry.1 = addr
      · simp [same, ih, differ]
      · simp [same, lookup_cons, ih]

end AddrMap

namespace MPVertexMemoryMap

variable (map : MPVertexMemoryMap) (addr vertex other : Nat)

@[simp] theorem memLoad_memStore :
    (map.memStore addr vertex).memLoad other =
      if other = addr then some vertex else map.memLoad other :=
  AddrMap.get?_set _ _ _ _

@[simp] theorem memLoad_memLoadSet :
    (map.memLoadSet addr vertex).memLoad other =
      if other = addr then some vertex else map.memLoad other :=
  AddrMap.get?_set _ _ _ _

theorem memLoad_clear {addr other : Nat} (differ : other ≠ addr) :
    (map.clear addr).memLoad other = map.memLoad other :=
  AddrMap.get?_erase _ differ

end MPVertexMemoryMap

/-- The capability loads and stores, the records that read or write `vertex_map`. -/
def Opcode.isCapTransfer : Opcode → Bool
  | .clc | .clcr | .clci | .csc | .cscr | .csci => true
  | _ => false

namespace PointerProvenanceParser

variable {parser parser' mid : PointerProvenanceParser} {record : Record}

/-! ## Every other handler leaves the map alone -/

@[simp] theorem setReg_vertexMap (idx : Fin 32) (val : Option Nat) :
    (parser.setReg idx val).vertexMap = parser.vertexMap := rfl

@[simp] theorem setPcc_vertexMap (val : Option Nat) :
    (parser.setPcc val).vertexMap = parser.vertexMap := rfl

@[simp] theorem modifyData_vertexMap (vertex : Nat) (f : NodeData → NodeData) :
    (parser.modifyData vertex f).vertexMap = parser.vertexMap := rfl

@[simp] theorem makeRootNode_vertexMap (cap : CheriCap) (time : Nat) (pc : Option Nat) :
    (parser.makeRootNode record cap time pc).1.vertexMap = parser.vertexMap := rfl

theorem scanDerivation_vertexMap {origin : CheriNodeOrigin}
    (scanned : parser.scanDerivation record origin = .ok parser') :
    parser'.vertexMap = parser.vertexMap := by
  obtain ⟨⟨mid, node⟩, made, rfl⟩ := Except.map_eq_ok.mp scanned
  obtain ⟨src, parent, data, -, -, -, -, made⟩ := parser.makeNode_eq_ok record made
  simp only [Prod.mk.injEq] at made
  obtain ⟨rfl, -⟩ := made
  rfl

@[simp] theorem handleCpregGet_vertexMap (regnum : Fin 32) :
    (parser.handleCpregGet record regnum).vertexMap = parser.vertexMap := by
  unfold handleCpregGet; split <;> rfl

theorem handleCpregSet_vertexMap {regnum : Fin 32}
    (scanned : parser.handleCpregSet record regnum = .ok parser') :
    parser'.vertexMap = parser.vertexMap := by
  unfold handleCpregSet at scanned
  split at scanned
  · cases scanned
  · cases scanned; split <;> rfl

@[simp] theorem scanCgetpcc_vertexMap :
    (parser.scanCgetpcc record).vertexMap = parser.vertexMap := by
  unfold scanCgetpcc; split <;> rfl

theorem updateRegsRoot_vertexMap {idx : Nat}
    (scanned : parser.updateRegsRoot record idx = .ok parser') :
    parser'.vertexMap = parser.vertexMap := by
  unfold updateRegsRoot at scanned
  cases made : parser.makeRootNode record record.op0.value record.cycles (some record.pc) with
  | mk root node =>
      simp only [made] at scanned
      split_ifs at scanned
      · split at scanned
        · cases scanned
        · cases scanned
          simp only [setReg_vertexMap]
          exact congrArg (·.1.vertexMap) made.symm
      · cases scanned; rfl

theorem updateRegs_vertexMap {idx : Nat} (scanned : parser.updateRegs record idx = .ok parser') :
    parser'.vertexMap = parser.vertexMap := by
  unfold updateRegs at scanned
  split at scanned
  · split at scanned
    · split at scanned
      · cases scanned; rfl
      · exact updateRegsRoot_vertexMap scanned
    · exact updateRegsRoot_vertexMap scanned
  · cases scanned; rfl

theorem handleDereference_vertexMap {ptrReg : Fin 32}
    (scanned : parser.handleDereference record ptrReg = .ok parser') :
    parser'.vertexMap = parser.vertexMap ∧ parser'.regset = parser.regset := by
  unfold handleDereference at scanned
  repeat' split at scanned
  all_goals first | (cases scanned; exact ⟨rfl, rfl⟩) | cases scanned

theorem scanCapLoad_vertexMap (scanned : parser.scanCapLoad record = .ok parser') :
    parser'.vertexMap = parser.vertexMap ∧ parser'.regset = parser.regset := by
  unfold scanCapLoad at scanned
  split at scanned
  · exact handleDereference_vertexMap scanned
  · cases scanned
  · cases scanned; exact ⟨rfl, rfl⟩

theorem scanCapStore_vertexMap (scanned : parser.scanCapStore record = .ok parser') :
    parser'.vertexMap = parser.vertexMap := by
  unfold scanCapStore at scanned
  split at scanned
  · exact (handleDereference_vertexMap scanned).1
  · cases scanned; rfl

theorem scanIClass_vertexMap {idx : Nat} (scanned : parser.scanIClass record idx = .ok parser') :
    parser'.vertexMap = parser.vertexMap := by
  unfold scanIClass at scanned
  obtain ⟨capped, capScan, rest⟩ := Except.bind_eq_ok.mp scanned
  obtain ⟨loaded, loadScan, storeScan⟩ := Except.bind_eq_ok.mp rest
  have capMap : capped.vertexMap = parser.vertexMap := by
    split at capScan
    · unfold scanCap at capScan
      split at capScan
      · cases capScan; rfl
      · exact updateRegs_vertexMap capScan
    · cases capScan; rfl
  have loadMap : loaded.vertexMap = capped.vertexMap := by
    split at loadScan
    · exact (scanCapLoad_vertexMap loadScan).1
    · cases loadScan; rfl
  have storeMap : parser'.vertexMap = loaded.vertexMap := by
    split at storeScan
    · exact scanCapStore_vertexMap storeScan
    · cases storeScan; rfl
  rw [storeMap, loadMap, capMap]

theorem branchToTarget_vertexMap {target : Fin 32}
    (scanned : parser.branchToTarget record target = .ok parser') :
    parser'.vertexMap = parser.vertexMap := by
  unfold branchToTarget at scanned
  split at scanned
  · cases scanned
  dsimp only at scanned
  split at scanned
  · cases scanned
  · split_ifs at scanned <;> cases scanned <;> rfl

theorem scanCjalr_vertexMap (scanned : parser.scanCjalr record = .ok parser') :
    parser'.vertexMap = parser.vertexMap := by
  unfold scanCjalr at scanned
  cases linked : parser.oldPccNode record with
  | mk mid node =>
      have first : mid.vertexMap = parser.vertexMap := by
        unfold oldPccNode at linked
        split at linked
        · cases linked; rfl
        · exact congrArg (·.1.vertexMap) linked.symm
      simp only [linked] at scanned
      split at scanned
      · cases scanned
      · exact (branchToTarget_vertexMap scanned).trans first

theorem scanDmfc0_vertexMap (scanned : parser.scanDmfc0 record = .ok parser') :
    parser'.vertexMap = parser.vertexMap := by
  unfold scanDmfc0 at scanned
  split at scanned
  · split at scanned
    · cases scanned
    obtain ⟨restored, found, rfl⟩ := Except.map_eq_ok.mp scanned
    show restored.vertexMap = parser.vertexMap
    split_ifs at found
    · repeat' split at found
      all_goals first | (cases found; rfl) | cases found
    · cases found; rfl
  · split_ifs at scanned
    · split at scanned
      · cases scanned
      · split_ifs at scanned <;> cases scanned <;> rfl
    · cases scanned; rfl

theorem scanException_vertexMap (scanned : parser.scanException = .ok parser') :
    parser'.vertexMap = parser.vertexMap := by
  unfold scanException at scanned
  dsimp only at scanned
  split at scanned
  · cases scanned; rfl
  · cases scanned

theorem scanSyscall_vertexMap (scanned : parser.scanSyscall record = .ok parser') :
    parser'.vertexMap = parser.vertexMap := by
  unfold scanSyscall at scanned
  dsimp only at scanned
  repeat' split at scanned
  all_goals first | (cases scanned; rfl) | cases scanned

theorem syscallScanEret_vertexMap (scanned : parser.syscallScanEret record = .ok parser') :
    parser'.vertexMap = parser.vertexMap := by
  unfold syscallScanEret at scanned
  split at scanned
  · cases scanned
  dsimp only at scanned
  obtain ⟨returned, found, rfl⟩ := Except.map_eq_ok.mp scanned
  show returned.vertexMap = parser.vertexMap
  split at found
  · unfold recordSyscallReturn at found
    dsimp only at found
    split at found
    · cases found
    · cases found; rfl
  · cases found; rfl

/-- The handlers of every opcode but the capability loads and stores keep the map. -/
theorem scanOpcode_vertexMap (scanned : parser.scanOpcode record = .ok parser')
    (other : record.opcode.isCapTransfer = false) : parser'.vertexMap = parser.vertexMap := by
  unfold scanOpcode at scanned
  cases opcode : record.opcode <;> simp only [opcode] at scanned <;>
    simp only [opcode, Opcode.isCapTransfer] at other
  case cjr => exact branchToTarget_vertexMap scanned
  case cjalr => exact scanCjalr_vertexMap scanned
  case ccall | creturn | cclearregs => cases scanned
  case cfromptr | csetbounds | candperm => exact scanDerivation_vertexMap scanned
  case csetepcc | csetkcc | csetkdc | csetdefault => exact handleCpregSet_vertexMap scanned
  case dmfc0 => exact scanDmfc0_vertexMap scanned
  case cgetepcc | cgetkcc | cgetkdc | cgetdefault => cases scanned; exact handleCpregGet_vertexMap _
  case cgetpcc | cgetpccsetoffset => cases scanned; exact scanCgetpcc_vertexMap
  case eret =>
    obtain ⟨mid, eret, rfl⟩ := Except.map_eq_ok.mp scanned
    have kept := syscallScanEret_vertexMap eret
    exact kept
  case syscall => exact scanSyscall_vertexMap scanned
  case clc | clcr | clci | csc | cscr | csci => cases other
  all_goals cases scanned; rfl

/-! ## Loads and stores at other addresses -/

theorem isCapTransfer_cases {opcode : Opcode} (transfer : opcode.isCapTransfer = true) :
    (opcode = .clc ∨ opcode = .clcr ∨ opcode = .clci) ∨
      (opcode = .csc ∨ opcode = .cscr ∨ opcode = .csci) := by
  cases opcode <;> simp_all [Opcode.isCapTransfer]

theorem scanOpcode_clc (loadOp : record.opcode = .clc ∨ record.opcode = .clcr ∨
    record.opcode = .clci) : parser.scanOpcode record = .ok (parser.scanClc record) := by
  rcases loadOp with opcode | opcode | opcode <;> simp [scanOpcode, opcode]

theorem scanOpcode_csc (storeOp : record.opcode = .csc ∨ record.opcode = .cscr ∨
    record.opcode = .csci) : parser.scanOpcode record = .ok (parser.scanCsc record) := by
  rcases storeOp with opcode | opcode | opcode <;> simp [scanOpcode, opcode]

theorem scanClc_memLoad {addr : Nat} (differ : addr ≠ record.memoryAddress) :
    (parser.scanClc record).vertexMap.memLoad addr = parser.vertexMap.memLoad addr := by
  unfold scanClc
  dsimp only
  split_ifs
  · split
    · exact MPVertexMemoryMap.memLoad_clear _ differ
    · rfl
  · cases loaded : parser.loadedNode record with
    | mk mid node =>
        unfold loadedNode at loaded
        split at loaded
        · cases loaded; rfl
        · simp only [Prod.mk.injEq] at loaded
          obtain ⟨rfl, rfl⟩ := loaded
          simp [differ]
  · rfl

theorem scanCsc_memLoad {addr : Nat} (differ : addr ≠ record.memoryAddress) :
    (parser.scanCsc record).vertexMap.memLoad addr = parser.vertexMap.memLoad addr := by
  unfold scanCsc
  split_ifs
  · cases stored : parser.storedNode record with
    | mk mid node =>
        have kept : mid.vertexMap = parser.vertexMap := by
          unfold storedNode at stored
          split at stored
          · cases stored; rfl
          · simp only [Prod.mk.injEq] at stored
            obtain ⟨rfl, rfl⟩ := stored
            rfl
        simp [differ, kept]
  · rfl

/-- The vertex `scan_clc` loads is the one the map then holds at the record's address. -/
theorem loadedNode_memLoad {node : Nat} (loaded : parser.loadedNode record = (mid, node)) :
    mid.vertexMap.memLoad record.memoryAddress = some node := by
  unfold loadedNode at loaded
  split at loaded
  · next found => cases loaded; exact found
  · simp only [Prod.mk.injEq] at loaded
    obtain ⟨rfl, rfl⟩ := loaded
    simp

/-- The vertex `scan_csc` stores is the one its register then holds. -/
theorem storedNode_regNodes {node : Nat} (stored : parser.storedNode record = (mid, node)) :
    mid.regset.regNodes record.op0.capIndex = some node := by
  unfold storedNode at stored
  split at stored
  · next found _ => cases stored; exact found
  · simp only [Prod.mk.injEq] at stored
    obtain ⟨rfl, rfl⟩ := stored
    simp [setReg]

/-- One record keeps what the map holds at `addr` unless it is a capability load or store at
`addr`. -/
theorem scan_memLoad {idx addr : Nat} (scanned : parser.scan record idx = .ok parser')
    (untouched : record.opcode.isCapTransfer = true → record.memoryAddress ≠ addr) :
    parser'.vertexMap.memLoad addr = parser.vertexMap.memLoad addr := by
  unfold scan at scanned
  obtain ⟨opcoded, opcodeScan, rest⟩ := Except.bind_eq_ok.mp scanned
  obtain ⟨classed, classScan, exceptionScan⟩ := Except.bind_eq_ok.mp rest
  have opcodeMap : opcoded.vertexMap.memLoad addr = parser.vertexMap.memLoad addr := by
    cases transfer : record.opcode.isCapTransfer
    · rw [scanOpcode_vertexMap opcodeScan transfer]
    · have differ := Ne.symm (untouched transfer)
      rcases isCapTransfer_cases transfer with loadOp | storeOp
      · rw [scanOpcode_clc loadOp, Except.ok.injEq] at opcodeScan
        exact opcodeScan ▸ scanClc_memLoad differ
      · rw [scanOpcode_csc storeOp, Except.ok.injEq] at opcodeScan
        exact opcodeScan ▸ scanCsc_memLoad differ
  have exceptionMap : parser'.vertexMap = classed.vertexMap := by
    split at exceptionScan
    · exact scanException_vertexMap exceptionScan
    · cases exceptionScan; rfl
  rw [exceptionMap, scanIClass_vertexMap classScan, opcodeMap]

/-- A run with no capability load or store at `addr` keeps what the map holds there. -/
theorem run_memLoad {idx addr : Nat} {records : List Record}
    (untouched : ∀ record ∈ records,
      record.opcode.isCapTransfer = true → record.memoryAddress ≠ addr)
    (ran : parser.run idx records = .ok parser') :
    parser'.vertexMap.memLoad addr = parser.vertexMap.memLoad addr := by
  induction records generalizing parser idx with
  | nil => cases ran; rfl
  | cons record records ih =>
      obtain ⟨mid, scanned, rest⟩ := Except.bind_eq_ok.mp ran
      rw [ih (fun other member => untouched other (.tail _ member)) rest,
        scan_memLoad scanned (untouched record (.head _))]

/-- Over a run the old vertices stay and their logs only grow. -/
theorem run_events {idx : Nat} {records : List Record}
    (ran : parser.run idx records = .ok parser') :
    ∀ v < parser.pgm.size, v < parser'.pgm.size ∧
      ∃ new, (parser'.pgm.data v).events = (parser.pgm.data v).events ++ new := by
  induction records generalizing parser idx with
  | nil => cases ran; exact fun v bound => ⟨bound, [], by simp⟩
  | cons record records ih =>
      obtain ⟨mid, scanned, rest⟩ := Except.bind_eq_ok.mp ran
      intro v bound
      have grows := (Step.scan scanned).grows
      obtain ⟨new, grown, -⟩ := grows.events v bound
      obtain ⟨later, new', grown'⟩ := ih rest v (bound.trans_le grows.size)
      exact ⟨later, new ++ new', by rw [grown', grown, List.append_assoc]⟩

/-! ## The store and the load -/

/-- After the opcode handler, the instruction-class handlers and `scan_exception` only add
events stamped with the record's cycle, and keep the map. -/
theorem scanTail {idx : Nat}
    (rest : (mid.scanIClass record idx >>= fun parser =>
      if record.hasException = true then parser.scanException else .ok parser) = .ok parser') :
    Grows record.cycles mid.pgm parser'.pgm ∧ parser'.vertexMap = mid.vertexMap := by
  obtain ⟨classed, classScan, exceptionScan⟩ := Except.bind_eq_ok.mp rest
  have classStep := Step.scanIClass classScan
  split at exceptionScan
  · have exceptionStep : Step record (· = 31) classed parser' := Step.scanException exceptionScan
    exact ⟨classStep.grows.trans exceptionStep.grows,
      (scanException_vertexMap exceptionScan).trans (scanIClass_vertexMap classScan)⟩
  · cases exceptionScan
    exact ⟨classStep.grows, scanIClass_vertexMap classScan⟩

/-- What `scan_csc` records for a valid capability: the vertex of the register, or a new ROOT
installed in it, mapped at the address and given a `mem_store` event. -/
theorem scanCsc_stores (inv : WorkerInv parser) (valid : record.op0.value.valid = true) :
    ∃ node before,
      ((parser.hasReg record.op0.capIndex true ∧
          parser.regset.regNodes record.op0.capIndex = some node ∧
          before = (parser.pgm.data node).events) ∨
        (parser.hasReg record.op0.capIndex true = false ∧ node = parser.pgm.size ∧
          ((parser.scanCsc record).pgm.data node).origin = .root ∧ before = [])) ∧
      node < (parser.scanCsc record).pgm.size ∧
      (parser.scanCsc record).regset.regNodes record.op0.capIndex = some node ∧
      (parser.scanCsc record).vertexMap.memLoad record.memoryAddress = some node ∧
      ((parser.scanCsc record).pgm.data node).events =
        before ++ [⟨record.cycles, record.memoryAddress, .memStore, false⟩] := by
  unfold scanCsc
  rw [if_pos valid]
  cases stored : parser.storedNode record with
  | mk mid node =>
      have bound := (inv.storedNode stored).2
      dsimp only
      refine ⟨node, (mid.pgm.data node).events, ?_, by simpa using bound,
        by simpa [modifyData] using storedNode_regNodes stored, by simp,
        by simp [modifyData, Graph.modifyData_data, NodeData.addMemStore]⟩
      unfold storedNode at stored
      split at stored
      · rename_i slot held
        simp only [Prod.mk.injEq] at stored
        obtain ⟨rfl, rfl⟩ := stored
        exact .inl ⟨held, slot, rfl⟩
      · rename_i notHeld
        have unheld : parser.hasReg record.op0.capIndex true = false := by
          cases held : parser.hasReg record.op0.capIndex true
          · rfl
          · cases slot : parser.regset.regNodes record.op0.capIndex with
            | none => simp [hasReg, RegisterSet.hasReg, slot] at held
            | some v => exact absurd held (notHeld v slot)
        simp only [makeRootNode, Graph.addVertex, Prod.mk.injEq] at stored
        obtain ⟨rfl, rfl⟩ := stored
        refine .inr ⟨unheld, rfl, ?_, ?_⟩ <;>
          simp [setReg, modifyData, Graph.modifyData_data, RegisterSet.attachSubgraphMerge_data,
            NodeData.addMemStore]

theorem scanIClass_clc {idx : Nat}
    (loadOp : record.opcode = .clc ∨ record.opcode = .clcr ∨ record.opcode = .clci)
    (isLoad : record.isLoad = true) : parser.scanIClass record idx = parser.scanCapLoad record := by
  rcases loadOp with opcode | opcode | opcode <;>
    simp [scanIClass, scanCap, opcode, isLoad, Opcode.isCapInstruction, Opcode.isCapLoad,
      Opcode.isCapStore, bind, Except.bind] <;> cases parser.scanCapLoad record <;> rfl

theorem scanIClass_csc {idx : Nat}
    (storeOp : record.opcode = .csc ∨ record.opcode = .cscr ∨ record.opcode = .csci)
    (isStore : record.isStore = true) :
    parser.scanIClass record idx = parser.scanCapStore record := by
  rcases storeOp with opcode | opcode | opcode <;>
    simp [scanIClass, scanCap, opcode, isStore, Opcode.isCapInstruction, Opcode.isCapLoad,
      Opcode.isCapStore, bind, Except.bind]

theorem scanCapStore_regset (scanned : parser.scanCapStore record = .ok parser') :
    parser'.regset = parser.regset := by
  unfold scanCapStore at scanned
  split at scanned
  · exact (handleDereference_vertexMap scanned).2
  · cases scanned; rfl

/-- The instruction-class handlers and `scan_exception` of a store, or of a load, change no
register slot but `$c31`, and only on an exception. -/
theorem scanTail_regNodes {idx : Nat} {slot : Fin 32}
    (transfer : (record.opcode = .csc ∨ record.opcode = .cscr ∨ record.opcode = .csci) ∧
        record.isStore = true ∨
      (record.opcode = .clc ∨ record.opcode = .clcr ∨ record.opcode = .clci) ∧
        record.isLoad = true)
    (kept : slot ≠ 31 ∨ record.hasException = false)
    (rest : (mid.scanIClass record idx >>= fun parser =>
      if record.hasException = true then parser.scanException else .ok parser) = .ok parser') :
    parser'.regset.regNodes slot = mid.regset.regNodes slot := by
  obtain ⟨classed, classScan, exceptionScan⟩ := Except.bind_eq_ok.mp rest
  have classed_eq : classed.regset = mid.regset := by
    rcases transfer with ⟨storeOp, isStore⟩ | ⟨loadOp, isLoad⟩
    · rw [scanIClass_csc storeOp isStore] at classScan
      exact scanCapStore_regset classScan
    · rw [scanIClass_clc loadOp isLoad] at classScan
      exact (scanCapLoad_vertexMap classScan).2
  split at exceptionScan
  · next raised =>
    rw [scanException_regNodes exceptionScan (kept.resolve_right (by simp [raised])), classed_eq]
  · cases exceptionScan; rw [classed_eq]

/-- A `csc` of a valid capability, with all its callbacks: the vertex it records at the address,
left in the register unless the exception entry overwrote `$c31`, and its log, which holds the
`mem_store` event after what it held before. -/
theorem scan_storeCap {idx : Nat} (inv : WorkerInv parser)
    (storeOp : record.opcode = .csc ∨ record.opcode = .cscr ∨ record.opcode = .csci)
    (valid : record.op0.value.valid = true) (scanned : parser.scan record idx = .ok parser') :
    ∃ node before,
      ((parser.hasReg record.op0.capIndex true ∧
          parser.regset.regNodes record.op0.capIndex = some node ∧
          before = (parser.pgm.data node).events) ∨
        (parser.hasReg record.op0.capIndex true = false ∧ node = parser.pgm.size ∧
          (parser'.pgm.data node).origin = .root ∧ before = [])) ∧
      (record.isStore = true → record.op0.capIndex ≠ 31 ∨ record.hasException = false →
        parser'.regset.regNodes record.op0.capIndex = some node) ∧
      node < parser'.pgm.size ∧ parser'.vertexMap.memLoad record.memoryAddress = some node ∧
      ∃ after, (parser'.pgm.data node).events =
        before ++ ⟨record.cycles, record.memoryAddress, .memStore, false⟩ :: after := by
  unfold scan at scanned
  obtain ⟨opcoded, opcodeScan, rest⟩ := Except.bind_eq_ok.mp scanned
  rw [scanOpcode_csc storeOp, Except.ok.injEq] at opcodeScan
  subst opcodeScan
  obtain ⟨grows, sameMap⟩ := scanTail rest
  obtain ⟨node, before, recorded, bound, installed, mapped, logged⟩ := scanCsc_stores inv valid
  obtain ⟨after, grown, -⟩ := grows.events node bound
  refine ⟨node, before, recorded.imp_right fun ⟨unheld, fresh, root, empty⟩ =>
    ⟨unheld, fresh, (grows.origin node bound).trans root, empty⟩,
    fun isStore kept => (scanTail_regNodes (.inl ⟨storeOp, isStore⟩) kept rest).trans installed,
    bound.trans_le grows.size, sameMap ▸ mapped, after, by simp [grown, logged]⟩

theorem scanClc_pcc : (parser.scanClc record).regset.pcc = parser.regset.pcc := by
  unfold scanClc loadedNode
  dsimp only
  split_ifs
  · split <;> rfl
  · split <;> rfl
  · rfl

/-- A committed `clc` of a valid capability from an address the map holds `node` at: `node`
goes to the destination, unless the exception entry then puts `pcc` in `$c31`, and its log gets
the `mem_load` event. -/
theorem scan_loadCap {idx node : Nat} (inv : WorkerInv parser)
    (loadOp : record.opcode = .clc ∨ record.opcode = .clcr ∨ record.opcode = .clci)
    (valid : record.op0.value.valid = true) (isLoad : record.isLoad = true)
    (committed : record.lastRegs.capReg record.op0.capIndex ≠
      record.regs.capReg record.op0.capIndex ∨ record.hasException = false)
    (found : parser.vertexMap.memLoad record.memoryAddress = some node)
    (scanned : parser.scan record idx = .ok parser') :
    (record.op0.capIndex ≠ 31 ∨ record.hasException = false →
      parser'.regset.regNodes record.op0.capIndex = some node) ∧
    (record.hasException = true → parser'.regset.regNodes 31 = parser.regset.pcc) ∧
    ∃ after, (parser'.pgm.data node).events =
      (parser.pgm.data node).events ++
        ⟨record.cycles, record.memoryAddress, .memLoad, false⟩ :: after := by
  unfold scan at scanned
  obtain ⟨opcoded, opcodeScan, rest⟩ := Except.bind_eq_ok.mp scanned
  rw [scanOpcode_clc loadOp, Except.ok.injEq] at opcodeScan
  subst opcodeScan
  have loaded : parser.scanClc record =
      (parser.modifyData node (·.addMemLoad record.cycles record.memoryAddress)).setReg
        record.op0.capIndex (some node) := by
    rcases committed with changed | noException
    · simp [scanClc, loadedNode, valid, found, changed]
    · simp [scanClc, loadedNode, valid, found, noException]
  have bound : node < parser.pgm.size := inv.stored _ (AddrMap.mem_of_get? found)
  obtain ⟨grows, -⟩ := scanTail rest
  obtain ⟨after, grown, -⟩ := grows.events node (by simpa [loaded] using bound)
  refine ⟨fun kept => ?_, fun raised => ?_, after, by simp [grown, loaded, setReg, modifyData,
    Graph.modifyData_data, RegisterSet.attachSubgraphMerge_data, NodeData.addMemLoad]⟩
  · rw [scanTail_regNodes (.inr ⟨loadOp, isLoad⟩) kept rest, loaded]
    simp [setReg]
  · obtain ⟨classed, classScan, exceptionScan⟩ := Except.bind_eq_ok.mp rest
    rw [scanIClass_clc loadOp isLoad] at classScan
    rw [if_pos raised] at exceptionScan
    rw [(scanException_eq_ok exceptionScan).1, Function.update_same,
      (scanCapLoad_vertexMap classScan).2, scanClc_pcc]

end PointerProvenanceParser

/-- A capability stored to `A` and loaded back from `A` is the same vertex.  From a reachable
state, a `csc` of a valid capability from `r` to `A` records at `A` the vertex of `r`, or a ROOT
it makes; once the store is over, `r` holds that vertex, unless the exception entry overwrote
`$c31`.  After any records with no capability load or store at `A`, a committed `clc` of a valid
capability from `A` into `d` installs that vertex in `d`; if the `clc` took an exception, its
entry then puts `pcc` in `$c31`, over the vertex when `d` is `$c31`.  The vertex's log holds the
`mem_store` at the store's cycle and, after it, the `mem_load` at the load's cycle. -/
theorem store_load_same_vertex {start idx loadIdx : Nat} {records middle : List Record}
    {parser stored beforeLoad loaded : PointerProvenanceParser} {store load : Record}
    (reached : doParse start records = .ok parser)
    (storeOp : store.opcode = .csc ∨ store.opcode = .cscr ∨ store.opcode = .csci)
    (storeValid : store.op0.value.valid = true) (storeScan : parser.scan store idx = .ok stored)
    (untouched : ∀ record ∈ middle,
      record.opcode.isCapTransfer = true → record.memoryAddress ≠ store.memoryAddress)
    (ran : stored.run (idx + 1) middle = .ok beforeLoad)
    (loadOp : load.opcode = .clc ∨ load.opcode = .clcr ∨ load.opcode = .clci)
    (loadValid : load.op0.value.valid = true) (isLoad : load.isLoad = true)
    (sameAddress : load.memoryAddress = store.memoryAddress)
    (committed : load.lastRegs.capReg load.op0.capIndex ≠ load.regs.capReg load.op0.capIndex ∨
      load.hasException = false)
    (loadScan : beforeLoad.scan load loadIdx = .ok loaded) :
    ∃ node before,
      ((parser.hasReg store.op0.capIndex true ∧
          parser.regset.regNodes store.op0.capIndex = some node ∧
          before = (parser.pgm.data node).events) ∨
        (parser.hasReg store.op0.capIndex true = false ∧ node = parser.pgm.size ∧
          (stored.pgm.data node).origin = .root ∧ before = [])) ∧
      (store.isStore = true → store.op0.capIndex ≠ 31 ∨ store.hasException = false →
        stored.regset.regNodes store.op0.capIndex = some node) ∧
      stored.vertexMap.memLoad store.memoryAddress = some node ∧
      (load.op0.capIndex ≠ 31 ∨ load.hasException = false →
        loaded.regset.regNodes load.op0.capIndex = some node) ∧
      (load.hasException = true → loaded.regset.regNodes 31 = beforeLoad.regset.pcc) ∧
      ∃ between after, (loaded.pgm.data node).events =
        before ++ ⟨store.cycles, store.memoryAddress, .memStore, false⟩ :: between ++
          ⟨load.cycles, store.memoryAddress, .memLoad, false⟩ :: after := by
  have inv := doParse_inv reached
  obtain ⟨node, before, recorded, installed, bound, mapped, after, logged⟩ :=
    PointerProvenanceParser.scan_storeCap inv storeOp storeValid storeScan
  have mappedLater := PointerProvenanceParser.run_memLoad untouched ran
  obtain ⟨-, new, grown⟩ := PointerProvenanceParser.run_events ran node bound
  obtain ⟨reloaded, entered, after', logged'⟩ := PointerProvenanceParser.scan_loadCap
    ((inv.scan storeScan).run ran) loadOp loadValid isLoad committed
    (by rw [sameAddress, mappedLater, mapped]) loadScan
  refine ⟨node, before, recorded, installed, mapped, reloaded, entered, after ++ new, after', ?_⟩
  rw [logged', grown, logged, sameAddress]
  simp

def kccInC4 : PointerProvenanceParser :=
  (doParse 0 [Record.getKcc 1 4]).toOption.getD initialParser

def storedC4 : PointerProvenanceParser :=
  (kccInC4.scan (Record.storeCap 2 4 sampleCap) 1).toOption.getD kccInC4

def reloadedC6 : PointerProvenanceParser :=
  (storedC4.scan (Record.loadCap 4 6 sampleCap) 3).toOption.getD storedC4

/-- `cgetkcc $c4`; `csc $c4` to 8192 at cycle 2; an instruction the parser ignores; `clc $c6`
from 8192 at cycle 4. -/
theorem store_load_same_vertex_roundtrip :
    doParse 0 [Record.getKcc 1 4] = .ok kccInC4 ∧
    kccInC4.scan (Record.storeCap 2 4 sampleCap) 1 = .ok storedC4 ∧
    storedC4.run (1 + 1) [Record.blank 3 12] = .ok storedC4 ∧
    storedC4.scan (Record.loadCap 4 6 sampleCap) 3 = .ok reloadedC6 ∧
    ∃ node before,
      ((kccInC4.hasReg 4 true ∧ kccInC4.regset.regNodes 4 = some node ∧
          before = (kccInC4.pgm.data node).events) ∨
        (kccInC4.hasReg 4 true = false ∧ node = kccInC4.pgm.size ∧
          (storedC4.pgm.data node).origin = .root ∧ before = [])) ∧
      ((Record.storeCap 2 4 sampleCap).isStore = true →
        (Record.storeCap 2 4 sampleCap).op0.capIndex ≠ 31 ∨
          (Record.storeCap 2 4 sampleCap).hasException = false →
        storedC4.regset.regNodes 4 = some node) ∧
      storedC4.vertexMap.memLoad 8192 = some node ∧
      ((Record.loadCap 4 6 sampleCap).op0.capIndex ≠ 31 ∨
          (Record.loadCap 4 6 sampleCap).hasException = false →
        reloadedC6.regset.regNodes 6 = some node) ∧
      ((Record.loadCap 4 6 sampleCap).hasException = true →
        reloadedC6.regset.regNodes 31 = storedC4.regset.pcc) ∧
      ∃ between after, (reloadedC6.pgm.data node).events =
        before ++ ⟨2, 8192, .memStore, false⟩ :: between ++ ⟨4, 8192, .memLoad, false⟩ :: after :=
  have reached : doParse 0 [Record.getKcc 1 4] = .ok kccInC4 := by rfl
  have storeScan : kccInC4.scan (Record.storeCap 2 4 sampleCap) 1 = .ok storedC4 := by rfl
  have ran : storedC4.run (1 + 1) [Record.blank 3 12] = .ok storedC4 := by rfl
  have loadScan : storedC4.scan (Record.loadCap 4 6 sampleCap) 3 = .ok reloadedC6 := by rfl
  ⟨reached, storeScan, ran, loadScan, store_load_same_vertex reached (.inl (by rfl)) (by rfl)
    storeScan (by decide) ran (.inl (by rfl)) (by rfl) (by rfl) (by rfl) (.inr (by rfl))
    loadScan⟩

/-- `csc $c2` of the ROOT of `kcc`, vertex 33, to 8192; then a `clc $c31` from 8192 that commits
(`$c31` changes) but takes an exception: `scan_clc` installs vertex 33 in `$c31`, and the
exception entry of `scan_exception` then puts `pcc`, placeholder 32, there. -/
theorem doParse_epcc_load_overwritten :
    let trapped := { Record.loadCap 3 31 sampleCap with
      exception := some 0, regs := { RegisterFile.cleared with capReg := fun _ => sampleCap } }
    trapped.lastRegs.capReg 31 ≠ trapped.regs.capReg 31 ∧ trapped.hasException = true ∧
    (doParse 0 [Record.getKcc 1 2, Record.storeCap 2 2 sampleCap]).map
      (·.vertexMap.memLoad 8192) = .ok (some 33) ∧
    (doParse 0 [Record.getKcc 1 2, Record.storeCap 2 2 sampleCap, trapped]).map
      (·.regset.regNodes 31) = .ok (some 32) :=
  ⟨by decide, rfl, by rfl, by rfl⟩

/-- A worker's `vertex_map` holds only addresses that a capability load or store of its window
accessed. -/
theorem doParse_vertexMap_touched {start addr vertex : Nat} {records : List Record}
    {parser : PointerProvenanceParser} (parsed : doParse start records = .ok parser)
    (held : (addr, vertex) ∈ parser.vertexMap.vertexMap) :
    ∃ access ∈ records, access.opcode.isCapTransfer = true ∧ access.memoryAddress = addr :=
  Classical.byContradiction fun untouched => AddrMap.get?_ne_none held
    (PointerProvenanceParser.run_memLoad
      (fun access member transfer same => untouched ⟨access, member, transfer, same⟩) parsed)

end Cheriplot.Provenance
