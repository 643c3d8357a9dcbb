import Cheriplot.Worker.Shape

namespace Cheriplot.Provenance

/-! # The worker invariant

`WorkerInv` is what every handler keeps: the subgraph has its shape and every vertex handle
the worker holds (register slots, `pcc`, vertex-memory map, saved branch `pcc`) names a vertex
of the subgraph.  Each handler is built from a few state operations; each operation keeps the
invariant, and so each handler, each record and each run does.
-/

theorem RegisterSet.Bounded.mono {regset : RegisterSet} {n m : Nat} (bounded : regset.Bounded n)
    (le : n ≤ m) : regset.Bounded m :=
  ⟨fun idx v slot => by have := bounded.1 idx v slot; omega,
    fun v slot => by have := bounded.2 v slot; omega⟩

namespace AddrMap

theorem mem_set {map : AddrMap} {addr vertex : Nat} {entry : Nat × Nat}
    (member : entry ∈ map.set addr vertex) : entry ∈ map ∨ entry = (addr, vertex) := by
  unfold set at member
  split at member
  · obtain ⟨old, oldMember, rfl⟩ := List.mem_map.mp member
    split
    · exact .inr rfl
    · exact .inl oldMember
  · simpa using member

theorem mem_of_get? {map : AddrMap} {addr vertex : Nat} (found : map.get? addr = some vertex) :
    (addr, vertex) ∈ map := by
  obtain ⟨before, after, rfl, -⟩ := List.lookup_eq_some_iff.mp found
  simp

theorem mem_erase {map : AddrMap} {addr : Nat} {entry : Nat × Nat}
    (member : entry ∈ map.erase addr) : entry ∈ map := (List.mem_filter.mp member).1

end AddrMap

theorem someBound {node size : Nat} (bound : node < size) :
    ∀ v, some node = some v → v < size :=
  fun _ held => Option.some.inj held ▸ bound

/-- The invariant of a worker state. -/
structure WorkerInv (parser : PointerProvenanceParser) : Prop where
  shape : SubgraphShape parser.pgm
  regset : parser.regset.Bounded parser.pgm.size
  stored : ∀ entry ∈ parser.vertexMap.vertexMap, entry.2 < parser.pgm.size
  savedPcc : ∀ v, parser.pccFixup.savedPcc = some v → v < parser.pgm.size

namespace WorkerInv

variable {parser parser' : PointerProvenanceParser} {record : Record}

theorem setReg (inv : WorkerInv parser) (idx : Fin 32) {val : Option Nat}
    (bound : ∀ v, val = some v → v < parser.pgm.size) : WorkerInv (parser.setReg idx val) := by
  have size := RegisterSet.attachSubgraphMerge_size parser.pgm (parser.regset.regNodes idx) val
  refine ⟨inv.shape.attach (inv.regset.1 idx) bound, ⟨fun slot v held => ?_, fun v held => ?_⟩,
    fun entry member => ?_, fun v saved => ?_⟩
  all_goals simp only [PointerProvenanceParser.setReg, size] at *
  · rw [Function.update_apply] at held
    split at held
    · exact bound v held
    · exact inv.regset.1 slot v held
  · exact inv.regset.2 v held
  · exact inv.stored entry member
  · exact inv.savedPcc v saved

theorem setPcc (inv : WorkerInv parser) {val : Option Nat}
    (bound : ∀ v, val = some v → v < parser.pgm.size) : WorkerInv (parser.setPcc val) := by
  have size := RegisterSet.attachSubgraphMerge_size parser.pgm parser.regset.pcc val
  refine ⟨inv.shape.attach inv.regset.2 bound, ⟨fun slot v held => ?_, fun v held => ?_⟩,
    fun entry member => ?_, fun v saved => ?_⟩
  all_goals simp only [PointerProvenanceParser.setPcc, size] at *
  · exact inv.regset.1 slot v held
  · exact bound v held
  · exact inv.stored entry member
  · exact inv.savedPcc v saved

theorem modifyData (inv : WorkerInv parser) {f : NodeData → NodeData}
    (keeps : ∀ data, (f data).origin = data.origin) (vertex : Nat) :
    WorkerInv (parser.modifyData vertex f) :=
  ⟨inv.shape.modifyData keeps vertex, inv.regset, inv.stored, inv.savedPcc⟩

theorem makeRootNode (inv : WorkerInv parser) {cap : CheriCap} {time : Nat} {pc : Option Nat}
    {mid : PointerProvenanceParser} {node : Nat}
    (made : parser.makeRootNode record cap time pc = (mid, node)) :
    WorkerInv mid ∧ node < mid.pgm.size := by
  simp only [PointerProvenanceParser.makeRootNode, Graph.addVertex, Prod.mk.injEq] at made
  obtain ⟨rfl, rfl⟩ := made
  refine ⟨⟨inv.shape.addVertex_root rfl, inv.regset.mono (by simp), fun entry member => ?_,
    fun v saved => ?_⟩, by simp⟩
  · have := inv.stored entry member; simp; omega
  · have := inv.savedPcc v saved; simp; omega

theorem makeNode (inv : WorkerInv parser) {origin : CheriNodeOrigin} {node : Nat}
    (derived : origin ≠ .root) (notPartial : origin ≠ .partialMarker)
    (made : parser.makeNode record origin = .ok (parser', node)) :
    WorkerInv parser' ∧ node < parser'.pgm.size := by
  unfold PointerProvenanceParser.makeNode at made
  split at made
  · cases made
  split at made
  · cases made
  rename_i parent held
  cases made
  have bound := inv.regset.1 _ parent held
  refine ⟨⟨inv.shape.addDerived derived notPartial bound, inv.regset.mono (by simp),
    fun entry member => ?_, fun v saved => ?_⟩, by simp⟩
  · have := inv.stored entry member; simp; omega
  · have := inv.savedPcc v saved; simp; omega

theorem ite {c : Prop} [Decidable c] {a b : PointerProvenanceParser} (left : WorkerInv a)
    (right : WorkerInv b) : WorkerInv (if c then a else b) := by
  split
  · exact left
  · exact right

theorem scanDerivation (inv : WorkerInv parser) {origin : CheriNodeOrigin}
    (derived : origin ≠ .root) (notPartial : origin ≠ .partialMarker)
    (scanned : parser.scanDerivation record origin = .ok parser') : WorkerInv parser' := by
  unfold PointerProvenanceParser.scanDerivation at scanned
  cases made : parser.makeNode record origin with
  | error fault => simp [made, Except.map] at scanned
  | ok result =>
      simp only [made, Except.map, Except.ok.injEq] at scanned
      subst scanned
      obtain ⟨mid, bound⟩ := inv.makeNode derived notPartial made
      exact mid.setReg _ (someBound bound)

theorem handleCpregGet (inv : WorkerInv parser) (regnum : Fin 32) :
    WorkerInv (parser.handleCpregGet record regnum) := by
  unfold PointerProvenanceParser.handleCpregGet
  cases made : parser.makeRootNode record record.op0.value record.cycles none with
  | mk root node =>
      obtain ⟨rootInv, bound⟩ := inv.makeRootNode made
      have mid := WorkerInv.ite (c := parser.hasReg regnum true) inv
        (rootInv.setReg regnum (someBound bound))
      simp only [made]
      exact mid.setReg _ (mid.regset.1 regnum)

theorem handleCpregSet (inv : WorkerInv parser) {regnum : Fin 32}
    (scanned : parser.handleCpregSet record regnum = .ok parser') : WorkerInv parser' := by
  unfold PointerProvenanceParser.handleCpregSet at scanned
  split at scanned
  · cases scanned
  · rename_i op1 _
    cases made : parser.makeRootNode record record.op0.value record.cycles none with
    | mk root node =>
        obtain ⟨rootInv, bound⟩ := inv.makeRootNode made
        have mid := WorkerInv.ite (c := parser.hasReg op1.capIndex true) inv
          (rootInv.setReg op1.capIndex (someBound bound))
        simp only [made, Except.ok.injEq] at scanned
        subst scanned
        exact mid.setReg _ (mid.regset.1 _)

theorem scanCgetpcc (inv : WorkerInv parser) : WorkerInv (parser.scanCgetpcc record) := by
  unfold PointerProvenanceParser.scanCgetpcc
  cases made : parser.makeRootNode record record.op0.value record.cycles none with
  | mk root node =>
      obtain ⟨rootInv, bound⟩ := inv.makeRootNode made
      have mid := WorkerInv.ite (c := parser.hasPcc true) inv
        (rootInv.setPcc (someBound bound))
      simp only [made]
      exact mid.setReg _ mid.regset.2

theorem updateRegsRoot (inv : WorkerInv parser) {idx : Nat}
    (scanned : parser.updateRegsRoot record idx = .ok parser') : WorkerInv parser' := by
  unfold PointerProvenanceParser.updateRegsRoot at scanned
  cases made : parser.makeRootNode record record.op0.value record.cycles (some record.pc) with
  | mk root node =>
      obtain ⟨rootInv, bound⟩ := inv.makeRootNode made
      simp only [made] at scanned
      split_ifs at scanned
      · split at scanned
        · cases scanned
        · rename_i src _
          cases scanned
          have first := rootInv.setReg src.capIndex (someBound bound)
          exact first.setReg _ (someBound (by simpa using bound))
      · cases scanned; exact inv

theorem updateRegs (inv : WorkerInv parser) {idx : Nat}
    (scanned : parser.updateRegs record idx = .ok parser') : WorkerInv parser' := by
  unfold PointerProvenanceParser.updateRegs at scanned
  split at scanned
  · split at scanned
    · split at scanned
      · cases scanned; exact inv.setReg _ (inv.regset.1 _)
      · exact inv.updateRegsRoot scanned
    · exact inv.updateRegsRoot scanned
  · cases scanned; exact inv

theorem scanCap (inv : WorkerInv parser) {idx : Nat}
    (scanned : parser.scanCap record idx = .ok parser') : WorkerInv parser' := by
  unfold PointerProvenanceParser.scanCap at scanned
  split at scanned
  · cases scanned; exact inv
  · exact inv.updateRegs scanned

theorem handleDereference (inv : WorkerInv parser) {ptrReg : Fin 32}
    (scanned : parser.handleDereference record ptrReg = .ok parser') : WorkerInv parser' := by
  unfold PointerProvenanceParser.handleDereference at scanned
  split at scanned
  · cases scanned
  · split at scanned
    · cases scanned; exact inv.modifyData (by intro; rfl) _
    · split at scanned
      · cases scanned; exact inv.modifyData (by intro; rfl) _
      · split at scanned
        · cases scanned; exact inv
        · cases scanned

theorem scanCapLoad (inv : WorkerInv parser)
    (scanned : parser.scanCapLoad record = .ok parser') : WorkerInv parser' := by
  unfold PointerProvenanceParser.scanCapLoad at scanned
  split at scanned
  · exact inv.handleDereference scanned
  · cases scanned
  · cases scanned; exact inv

theorem scanCapStore (inv : WorkerInv parser)
    (scanned : parser.scanCapStore record = .ok parser') : WorkerInv parser' := by
  unfold PointerProvenanceParser.scanCapStore at scanned
  split at scanned
  · exact inv.handleDereference scanned
  · cases scanned; exact inv

theorem setVertexMap (inv : WorkerInv parser) {map : MPVertexMemoryMap}
    (bounded : ∀ entry ∈ map.vertexMap, entry.2 < parser.pgm.size) :
    WorkerInv { parser with vertexMap := map } :=
  ⟨inv.shape, inv.regset, bounded, inv.savedPcc⟩

theorem setPccFixup (inv : WorkerInv parser) {fixup : CapabilityBranchSubparser}
    (bounded : ∀ v, fixup.savedPcc = some v → v < parser.pgm.size) :
    WorkerInv { parser with pccFixup := fixup } :=
  ⟨inv.shape, inv.regset, inv.stored, bounded⟩

theorem setSyscall (inv : WorkerInv parser) (syscall : SyscallSubparser) :
    WorkerInv { parser with syscallSubparser := syscall } :=
  ⟨inv.shape, inv.regset, inv.stored, inv.savedPcc⟩

theorem stored_set (inv : WorkerInv parser) {addr node : Nat} (bound : node < parser.pgm.size) :
    ∀ entry ∈ parser.vertexMap.vertexMap.set addr node, entry.2 < parser.pgm.size := by
  intro entry member
  rcases AddrMap.mem_set member with old | rfl
  · exact inv.stored entry old
  · exact bound

theorem loadedNode (inv : WorkerInv parser) {mid : PointerProvenanceParser} {node : Nat}
    (loaded : parser.loadedNode record = (mid, node)) : WorkerInv mid ∧ node < mid.pgm.size := by
  unfold PointerProvenanceParser.loadedNode at loaded
  split at loaded
  · rename_i found
    cases loaded
    exact ⟨inv, inv.stored _ (AddrMap.mem_of_get? found)⟩
  · cases made : parser.makeRootNode record record.op0.value record.cycles none with
    | mk root fresh =>
        obtain ⟨rootInv, bound⟩ := inv.makeRootNode made
        simp only [made, Prod.mk.injEq] at loaded
        obtain ⟨rfl, rfl⟩ := loaded
        exact ⟨rootInv.setVertexMap (rootInv.stored_set bound), bound⟩

theorem storedNode (inv : WorkerInv parser) {mid : PointerProvenanceParser} {node : Nat}
    (stored : parser.storedNode record = (mid, node)) : WorkerInv mid ∧ node < mid.pgm.size := by
  unfold PointerProvenanceParser.storedNode at stored
  split at stored
  · rename_i held _
    cases stored
    exact ⟨inv, inv.regset.1 _ _ held⟩
  · cases made : parser.makeRootNode record record.op0.value record.cycles none with
    | mk root fresh =>
        obtain ⟨rootInv, bound⟩ := inv.makeRootNode made
        simp only [made, Prod.mk.injEq] at stored
        obtain ⟨rfl, rfl⟩ := stored
        exact ⟨rootInv.setReg _ (someBound bound), by simpa using bound⟩

theorem scanClc (inv : WorkerInv parser) : WorkerInv (parser.scanClc record) := by
  unfold PointerProvenanceParser.scanClc
  dsimp only
  split_ifs
  · have mid : WorkerInv (parser.setReg record.op0.capIndex none) :=
      inv.setReg _ fun _ held => by cases held
    split
    · exact mid.setVertexMap fun entry member => mid.stored entry (AddrMap.mem_erase member)
    · exact mid
  · cases loaded : parser.loadedNode record with
    | mk mid node =>
        obtain ⟨midInv, bound⟩ := inv.loadedNode loaded
        simp only [loaded]
        exact (midInv.modifyData (by intro; rfl) node).setReg _ (someBound bound)
  · exact inv

theorem scanCsc (inv : WorkerInv parser) : WorkerInv (parser.scanCsc record) := by
  unfold PointerProvenanceParser.scanCsc
  split_ifs
  · cases stored : parser.storedNode record with
    | mk mid node =>
        obtain ⟨midInv, bound⟩ := inv.storedNode stored
        simp only [stored]
        exact (midInv.setVertexMap (midInv.stored_set bound)).modifyData (by intro; rfl) node
  · exact inv

theorem saveBranchState (inv : WorkerInv parser) (target : Nat) :
    WorkerInv (parser.saveBranchState record target) :=
  inv.setPccFixup inv.regset.2

theorem branchToTarget (inv : WorkerInv parser) {target : Fin 32}
    (scanned : parser.branchToTarget record target = .ok parser') : WorkerInv parser' := by
  unfold PointerProvenanceParser.branchToTarget at scanned
  split at scanned
  · cases scanned
  rename_i newPcc held
  have saved : WorkerInv (if record.hasException then parser.saveBranchState record newPcc
      else parser) := ite (inv.saveBranchState newPcc) inv
  have moved := saved.setPcc (someBound (by split <;> exact inv.regset.1 _ _ held))
  dsimp only at scanned
  generalize (if record.hasException then parser.saveBranchState record newPcc else parser) = mid
    at moved scanned
  split at scanned
  · cases scanned
  · split_ifs at scanned
    · cases scanned; exact moved

theorem scanCjr (inv : WorkerInv parser) (scanned : parser.scanCjr record = .ok parser') :
    WorkerInv parser' :=
  inv.branchToTarget scanned

theorem oldPccNode (inv : WorkerInv parser) {mid : PointerProvenanceParser} {node : Nat}
    (linked : parser.oldPccNode record = (mid, node)) : WorkerInv mid ∧ node < mid.pgm.size := by
  unfold PointerProvenanceParser.oldPccNode at linked
  split at linked
  · rename_i pcc held _
    cases linked
    exact ⟨inv, inv.regset.2 _ held⟩
  · exact inv.makeRootNode linked

theorem scanCjalr (inv : WorkerInv parser) (scanned : parser.scanCjalr record = .ok parser') :
    WorkerInv parser' := by
  unfold PointerProvenanceParser.scanCjalr at scanned
  cases linked : parser.oldPccNode record with
  | mk mid node =>
      obtain ⟨midInv, bound⟩ := inv.oldPccNode linked
      simp only [linked] at scanned
      split at scanned
      · cases scanned
      · exact (midInv.setReg _ (someBound bound)).branchToTarget scanned

theorem scanDmfc0 (inv : WorkerInv parser) (scanned : parser.scanDmfc0 record = .ok parser') :
    WorkerInv parser' := by
  unfold PointerProvenanceParser.scanDmfc0 at scanned
  split at scanned
  · split at scanned
    · cases scanned
    obtain ⟨restored, found, rfl⟩ := Except.map_eq_ok.mp scanned
    have cleared : WorkerInv
        { parser with pccFixup := { parser.pccFixup with saveFirstMfc := false } } :=
      inv.setPccFixup inv.savedPcc
    have restoredInv : WorkerInv restored := by
      split_ifs at found
      · split at found
        · cases found
        · cases found
        · split_ifs at found
          · cases found; exact cleared.setReg _ cleared.savedPcc
      · cases found; exact cleared
    exact restoredInv.setPccFixup restoredInv.savedPcc
  · split_ifs at scanned
    · split at scanned
      · cases scanned
      · split_ifs at scanned <;> cases scanned
        · exact inv.setPccFixup inv.savedPcc
        · exact inv
    · cases scanned; exact inv

theorem branchScanEret (inv : WorkerInv parser) : WorkerInv parser.branchScanEret :=
  inv.setPccFixup inv.savedPcc

theorem scanException (inv : WorkerInv parser)
    (scanned : parser.scanException = .ok parser') : WorkerInv parser' := by
  unfold PointerProvenanceParser.scanException at scanned
  dsimp only at scanned
  split at scanned
  · cases scanned
    have counted := inv.setSyscall
      { parser.syscallSubparser with exceptionDepth := parser.syscallSubparser.exceptionDepth + 1 }
    have saved := counted.setReg 31 counted.regset.2
    exact saved.setPcc (saved.regset.1 29)
  · cases scanned

theorem scanSyscall (inv : WorkerInv parser) (scanned : parser.scanSyscall record = .ok parser') :
    WorkerInv parser' := by
  unfold PointerProvenanceParser.scanSyscall at scanned
  have coded := inv.setSyscall
    { parser.syscallSubparser with
      code := some (PointerProvenanceParser.getSyscallCode record.regs) }
  dsimp only at scanned
  split at scanned
  · cases scanned; exact coded
  · cases scanned; exact coded.setSyscall _
  · split at scanned
    · cases scanned
    · cases scanned; exact coded.modifyData (by intro; rfl) _

theorem recordSyscallReturn (inv : WorkerInv parser)
    (scanned : parser.recordSyscallReturn record = .ok parser') : WorkerInv parser' := by
  unfold PointerProvenanceParser.recordSyscallReturn at scanned
  dsimp only at scanned
  split at scanned
  · cases scanned
  · cases scanned; exact (inv.setSyscall _).modifyData (by intro; rfl) _

theorem syscallScanEret (inv : WorkerInv parser)
    (scanned : parser.syscallScanEret record = .ok parser') : WorkerInv parser' := by
  unfold PointerProvenanceParser.syscallScanEret at scanned
  split at scanned
  · cases scanned
  dsimp only at scanned
  obtain ⟨returned, found, rfl⟩ := Except.map_eq_ok.mp scanned
  have returnedInv : WorkerInv returned := by
    split at found
    · exact (inv.setSyscall _).recordSyscallReturn found
    · cases found; exact inv.setSyscall _
  exact returnedInv.setPcc (returnedInv.regset.1 31)

theorem scanOpcode (inv : WorkerInv parser) (scanned : parser.scanOpcode record = .ok parser') :
    WorkerInv parser' := by
  unfold PointerProvenanceParser.scanOpcode at scanned
  split at scanned
  all_goals first
    | cases scanned; done
    | (cases scanned
       first
         | exact inv
         | exact inv.handleCpregGet _
         | exact inv.scanCgetpcc
         | exact inv.scanClc
         | exact inv.scanCsc)
    | skip
  · exact inv.scanCjr scanned
  · exact inv.scanCjalr scanned
  · exact inv.scanDerivation (by decide) (by decide) scanned
  · exact inv.scanDerivation (by decide) (by decide) scanned
  · exact inv.scanDerivation (by decide) (by decide) scanned
  all_goals try exact inv.handleCpregSet scanned
  · exact inv.scanDmfc0 scanned
  · obtain ⟨mid, eret, rfl⟩ := Except.map_eq_ok.mp scanned
    exact (inv.syscallScanEret eret).branchScanEret
  · exact inv.scanSyscall scanned

theorem scanIClass (inv : WorkerInv parser) {idx : Nat}
    (scanned : parser.scanIClass record idx = .ok parser') : WorkerInv parser' := by
  unfold PointerProvenanceParser.scanIClass at scanned
  obtain ⟨capped, capScan, rest⟩ := Except.bind_eq_ok.mp scanned
  obtain ⟨loaded, loadScan, storeScan⟩ := Except.bind_eq_ok.mp rest
  have cappedInv : WorkerInv capped := by
    split at capScan
    · exact inv.scanCap capScan
    · cases capScan; exact inv
  have loadedInv : WorkerInv loaded := by
    split at loadScan
    · exact cappedInv.scanCapLoad loadScan
    · cases loadScan; exact cappedInv
  split at storeScan
  · exact loadedInv.scanCapStore storeScan
  · cases storeScan; exact loadedInv

theorem scan (inv : WorkerInv parser) {idx : Nat}
    (scanned : parser.scan record idx = .ok parser') : WorkerInv parser' := by
  unfold PointerProvenanceParser.scan at scanned
  obtain ⟨opcoded, opcodeScan, rest⟩ := Except.bind_eq_ok.mp scanned
  obtain ⟨classed, classScan, exceptionScan⟩ := Except.bind_eq_ok.mp rest
  have classedInv := (inv.scanOpcode opcodeScan).scanIClass classScan
  split at exceptionScan
  · exact classedInv.scanException exceptionScan
  · cases exceptionScan; exact classedInv

theorem run (inv : WorkerInv parser) {idx : Nat} {records : List Record}
    (ran : parser.run idx records = .ok parser') : WorkerInv parser' := by
  induction records generalizing parser idx with
  | nil => cases ran; exact inv
  | cons record records ih =>
      obtain ⟨scanned, scan, rest⟩ := Except.bind_eq_ok.mp ran
      exact ih (inv.scan scan) rest

end WorkerInv

theorem initialParser_inv : WorkerInv initialParser := by
  refine ⟨⟨le_rfl, fun v _ => ?_, by simp [initialParser], by simp [initialParser],
    fun v _ root => ?_, fun v bound low => ?_⟩, ⟨fun idx v held => ?_, fun v held => ?_⟩,
    by simp [initialParser, MPVertexMemoryMap.empty], by simp [initialParser]⟩
  · simpa [initialParser, NodeData.placeholder]
  · simp [initialParser, NodeData.placeholder] at root
  · simp [initialParser] at bound; omega
  all_goals simp only [initialParser, initialRegset, Option.some.injEq] at held ⊢; omega

/-- Every state a worker reaches satisfies the invariant. -/
theorem doParse_inv {start : Nat} {records : List Record} {parser : PointerProvenanceParser}
    (parsed : doParse start records = .ok parser) : WorkerInv parser :=
  initialParser_inv.run parsed

/-- The subgraph of a worker as the merge relies on it: a forest of derivations hung from the
33 placeholders of `_do_parse`. -/
structure WorkerForest (graph : Graph) : Prop where
  /-- The placeholders are vertices `0..32`, and they are the only `PARTIAL` vertices. -/
  placeholders : 33 ≤ graph.size ∧
    ∀ v < graph.size, (graph.data v).origin = .partialMarker ↔ v < 33
  placeholder_in : ∀ v < 33, graph.inDegree v = 0
  root_in : ∀ v < graph.size, (graph.data v).origin = .root →
    graph.inDegree v ≤ 1 ∧ ∀ n ∈ graph.inNeighbours v, (graph.data n).origin = .partialMarker
  derived_in : ∀ v < graph.size, (graph.data v).origin ∈ [.setbounds, .fromptr, .andperm] →
    graph.inDegree v = 1
  /-- Every edge goes from an older vertex to a newer one, so the subgraph is acyclic. -/
  older : ∀ edge ∈ graph.edges, edge.1 < edge.2
  /-- The test of `_merge_initial_vertex_to_prev` that a ROOT child of a placeholder has one
  in-neighbour holds of every such child. -/
  root_child : ∀ u < 33, ∀ w ∈ graph.outNeighbours u, (graph.data w).origin = .root →
    graph.inNeighbours w = [u]

theorem SubgraphShape.workerForest {graph : Graph} (shape : SubgraphShape graph) :
    WorkerForest graph := by
  refine ⟨⟨shape.placeholders, shape.partial_iff⟩, fun v low => ?_, fun v bound root => ?_,
    fun v bound derived => ?_, fun edge member => (shape.ordered edge member).1,
    fun u _ w child root => shape.inNeighbours_root_child child root⟩
  · simp [Graph.inDegree, shape.inNeighbours_placeholder low]
  · refine ⟨(shape.root_in v bound root).1, fun n member => ?_⟩
    exact (shape.partial_iff n (by have := shape.inNeighbours_lt member; omega)).mpr
      ((shape.root_in v bound root).2 n member)
  · have notPartial : ¬ v < 33 := fun low => by
      rw [(shape.partial_iff v bound).mpr low] at derived; simp at derived
    refine shape.derived_in v bound (by omega) ?_
    intro root; rw [root] at derived; simp at derived

theorem doParse_workerForest {start : Nat} {records : List Record}
    {parser : PointerProvenanceParser} (parsed : doParse start records = .ok parser) :
    WorkerForest parser.pgm :=
  (doParse_inv parsed).shape.workerForest

/-- `cgetkcc $c2`, which gives `kcc` a ROOT, then `csetbounds $c3, $c2`. -/
def sampleWindow : List Record :=
  [Record.getKcc 1 2, Record.narrow 2 3 2]

def sampleState : PointerProvenanceParser := (doParse 0 sampleWindow).toOption.getD initialParser

theorem doParse_workerForest_sample :
    doParse 0 sampleWindow = .ok sampleState ∧ WorkerForest sampleState.pgm :=
  have parsed : doParse 0 sampleWindow = .ok sampleState := by rfl
  ⟨parsed, doParse_workerForest parsed⟩

end Cheriplot.Provenance
