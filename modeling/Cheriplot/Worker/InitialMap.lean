import Cheriplot.Worker.Memory

namespace Cheriplot.Provenance

/-! # What a worker records in `initial_map`

`MPVertexMemoryMap.mem_load(addr, vertex)` records `vertex` in `initial_map` when `addr` is new
to it, and `scan_clc` is its only caller, with the ROOT it has just made for a capability
loaded from an address that `vertex_map` knows nothing of.  So over a whole run `initial_map`
only grows at its end, and each of its entries maps an address to a ROOT whose log begins with
the load from that address.  The merge reads it this way: a vertex of `initial_map` stands for
the capability memory held at its address when the window began.
-/

@[simp] theorem MPVertexMemoryMap.memLoadSet_initialMap (map : MPVertexMemoryMap)
    (addr vertex : Nat) :
    (map.memLoadSet addr vertex).initialMap =
      if (map.initialMap.lookup addr).isSome then map.initialMap
      else map.initialMap ++ [(addr, vertex)] := by
  unfold MPVertexMemoryMap.memLoadSet
  split
  · rfl
  · simp_all [AddrMap.set]

@[simp] theorem MPVertexMemoryMap.memStore_initialMap (map : MPVertexMemoryMap)
    (addr vertex : Nat) : (map.memStore addr vertex).initialMap = map.initialMap := rfl

@[simp] theorem MPVertexMemoryMap.clear_initialMap (map : MPVertexMemoryMap) (addr : Nat) :
    (map.clear addr).initialMap = map.initialMap := rfl

namespace PointerProvenanceParser

/-- What one record does to `initial_map`: nothing, or one entry at its end for the record's
address, new to the map, holding a new ROOT whose log begins with the record's load. -/
def InitialMapStep (record : Record) (parser parser' : PointerProvenanceParser) : Prop :=
  parser'.vertexMap.initialMap = parser.vertexMap.initialMap ∨
    parser.vertexMap.initialMap.lookup record.memoryAddress = none ∧
    parser'.vertexMap.initialMap =
      parser.vertexMap.initialMap ++ [(record.memoryAddress, parser.pgm.size)] ∧
    parser.pgm.size < parser'.pgm.size ∧
    (parser'.pgm.data parser.pgm.size).origin = .root ∧
    ∃ later, (parser'.pgm.data parser.pgm.size).events =
      ⟨record.cycles, record.memoryAddress, .memLoad, false⟩ :: later

variable {parser mid parser' : PointerProvenanceParser} {record : Record}

namespace InitialMapStep

theorem initialMap_le (step : InitialMapStep record parser parser') :
    parser.vertexMap.initialMap <+: parser'.vertexMap.initialMap := by
  rcases step with same | ⟨-, grown, -⟩
  · exact same ▸ List.prefix_refl _
  · rw [grown]; exact List.prefix_append _ _

/-- Later callbacks of the record that grow the graph and keep the map keep what it did. -/
theorem grows (step : InitialMapStep record parser mid) {time : Nat}
    (grows : Grows time mid.pgm parser'.pgm)
    (same : parser'.vertexMap.initialMap = mid.vertexMap.initialMap) :
    InitialMapStep record parser parser' := by
  rcases step with kept | ⟨fresh, grown, bound, root, later, loaded⟩
  · exact .inl (same.trans kept)
  · obtain ⟨new, events, -⟩ := grows.events _ bound
    refine .inr ⟨fresh, same.trans grown, bound.trans_le grows.size,
      (grows.origin _ bound).trans root, later ++ new, ?_⟩
    rw [events, loaded, List.cons_append]

end InitialMapStep

theorem scanClc_initialMapStep : InitialMapStep record parser (parser.scanClc record) := by
  unfold scanClc
  dsimp only
  split_ifs
  · left; split <;> rfl
  · cases loaded : parser.loadedNode record with
    | mk mid node =>
        unfold loadedNode at loaded
        split at loaded
        · cases loaded; left; rfl
        · simp only [makeRootNode, Graph.addVertex, Prod.mk.injEq] at loaded
          obtain ⟨rfl, rfl⟩ := loaded
          by_cases present : (parser.vertexMap.initialMap.lookup record.memoryAddress).isSome
          · left; simp [present]
          · right
            refine ⟨Option.not_isSome_iff_eq_none.mp present, by simp [present], ?_, ?_, ?_⟩ <;>
              simp [setReg, modifyData, Graph.modifyData_data, RegisterSet.attachSubgraphMerge_size,
                RegisterSet.attachSubgraphMerge_data, NodeData.addMemLoad, NodeData.addEvent]
  · left; rfl

theorem scanCsc_initialMap :
    (parser.scanCsc record).vertexMap.initialMap = parser.vertexMap.initialMap := by
  unfold scanCsc
  split_ifs
  · cases stored : parser.storedNode record with
    | mk mid node =>
        unfold storedNode at stored
        split at stored <;> simp only [makeRootNode, Prod.mk.injEq] at stored <;>
          obtain ⟨rfl, rfl⟩ := stored <;> rfl
  · rfl

theorem scanOpcode_initialMapStep (scanned : parser.scanOpcode record = .ok parser') :
    InitialMapStep record parser parser' := by
  cases transfer : record.opcode.isCapTransfer
  · exact .inl (by rw [scanOpcode_vertexMap scanned transfer])
  · rcases isCapTransfer_cases transfer with loadOp | storeOp
    · rw [scanOpcode_clc loadOp, Except.ok.injEq] at scanned
      exact scanned ▸ scanClc_initialMapStep
    · rw [scanOpcode_csc storeOp, Except.ok.injEq] at scanned
      exact .inl (scanned ▸ scanCsc_initialMap)

/-- All the callbacks of one record. -/
theorem scan_initialMapStep {idx : Nat} (scanned : parser.scan record idx = .ok parser') :
    InitialMapStep record parser parser' := by
  unfold scan at scanned
  obtain ⟨opcoded, opcodeScan, rest⟩ := Except.bind_eq_ok.mp scanned
  obtain ⟨grows, same⟩ := scanTail rest
  exact (scanOpcode_initialMapStep opcodeScan).grows grows (congrArg _ same)

/-- `initial_map` is written once per address: over any run of a worker, every entry stays where
it is, with its address and its vertex, and new entries only come at the end. -/
theorem run_keeps_initialMap :
    ∀ {parser parser' : PointerProvenanceParser} {idx : Nat} {records : List Record},
      parser.run idx records = .ok parser' →
      parser.vertexMap.initialMap <+: parser'.vertexMap.initialMap
  | _, _, _, [], ran => by cases ran; exact List.prefix_refl _
  | _, _, _, _ :: _, ran =>
      have ⟨_, scanned, rest⟩ := Except.bind_eq_ok.mp ran
      (scan_initialMapStep scanned).initialMap_le.trans (run_keeps_initialMap rest)

end PointerProvenanceParser

def loadedRoot : PointerProvenanceParser :=
  (doParse 0 [Record.loadCap 1 5 wideCap]).toOption.getD initialParser

def reloadedRoot : PointerProvenanceParser :=
  (loadedRoot.run 1 [Record.loadCap 2 6 wideCap]).toOption.getD loadedRoot

theorem run_keeps_initialMap_reload :
    loadedRoot.vertexMap.initialMap = [(8192, 33)] ∧
      loadedRoot.run 1 [Record.loadCap 2 6 wideCap] = .ok reloadedRoot ∧
      loadedRoot.vertexMap.initialMap <+: reloadedRoot.vertexMap.initialMap :=
  have ran : loadedRoot.run 1 [Record.loadCap 2 6 wideCap] = .ok reloadedRoot := by rfl
  ⟨by rfl, ran, PointerProvenanceParser.run_keeps_initialMap ran⟩

/-- What `initial_map` holds in a worker: each address at most once, each vertex at most once,
and each vertex a ROOT the worker made for a capability load from the entry's address, its log
beginning with that load. -/
structure InitialEntries (parser : PointerProvenanceParser) : Prop where
  addresses : (parser.vertexMap.initialMap.map Prod.fst).Nodup
  vertices : parser.vertexMap.initialMap.values.Nodup
  root : ∀ entry ∈ parser.vertexMap.initialMap, entry.2 < parser.pgm.size ∧
    (parser.pgm.data entry.2).origin = .root ∧
    ∃ time later, (parser.pgm.data entry.2).events = ⟨time, entry.1, .memLoad, false⟩ :: later

namespace InitialEntries

variable {parser parser' : PointerProvenanceParser} {record : Record}

theorem initial : InitialEntries initialParser :=
  ⟨List.nodup_nil, List.nodup_nil, fun _ member => nomatch member⟩

/-- An entry that stays keeps its ROOT and the load at the head of its log. -/
theorem entry_grows {time : Nat} (entries : InitialEntries parser)
    (grows : Grows time parser.pgm parser'.pgm) {entry : Nat × Nat}
    (member : entry ∈ parser.vertexMap.initialMap) :
    entry.2 < parser'.pgm.size ∧ (parser'.pgm.data entry.2).origin = .root ∧
      ∃ time later, (parser'.pgm.data entry.2).events =
        ⟨time, entry.1, .memLoad, false⟩ :: later := by
  obtain ⟨bound, root, time', later, loaded⟩ := entries.root entry member
  obtain ⟨new, events, -⟩ := grows.events _ bound
  exact ⟨bound.trans_le grows.size, (grows.origin _ bound).trans root, time', later ++ new,
    by rw [events, loaded, List.cons_append]⟩

theorem step {time : Nat} (entries : InitialEntries parser)
    (step : PointerProvenanceParser.InitialMapStep record parser parser')
    (grows : Grows time parser.pgm parser'.pgm) : InitialEntries parser' := by
  rcases step with same | ⟨fresh, grown, bound, root, later, loaded⟩
  · exact ⟨by rw [same]; exact entries.addresses, by rw [same]; exact entries.vertices,
      fun entry member => entries.entry_grows grows (same ▸ member)⟩
  · have keys : record.memoryAddress ∉ parser.vertexMap.initialMap.map Prod.fst := by
      simp only [List.mem_map, not_exists, not_and]
      intro entry member same
      simpa [same] using List.lookup_eq_none_iff.mp fresh entry member
    have values : parser.pgm.size ∉ parser.vertexMap.initialMap.values := by
      simp only [AddrMap.values, List.mem_map, not_exists, not_and]
      exact fun entry member same => Nat.ne_of_lt (same ▸ (entries.root entry member).1) rfl
    refine ⟨?_, ?_, fun entry member => ?_⟩
    · rw [grown, List.map_append, List.nodup_append_comm]
      exact List.Nodup.cons keys entries.addresses
    · rw [grown, AddrMap.values, List.map_append, List.nodup_append_comm]
      exact List.Nodup.cons values entries.vertices
    · rw [grown, List.mem_append, List.mem_singleton] at member
      rcases member with old | rfl
      · exact entries.entry_grows grows old
      · exact ⟨bound, root, _, later, loaded⟩

theorem run : ∀ {parser parser' : PointerProvenanceParser} {idx : Nat} {records : List Record},
    InitialEntries parser → parser.run idx records = .ok parser' → InitialEntries parser'
  | _, _, _, [], entries, ran => by cases ran; exact entries
  | _, _, _, _ :: _, entries, ran =>
      have ⟨_, scanned, rest⟩ := Except.bind_eq_ok.mp ran
      (entries.step (PointerProvenanceParser.scan_initialMapStep scanned)
        (Step.scan scanned).grows).run rest

end InitialEntries

/-- What a worker hands the merge in `initial_map`: distinct addresses, distinct vertices, and
for each address a ROOT of the worker's subgraph made for a capability load from that address,
whose log begins with that load. -/
theorem doParse_initialEntries {start : Nat} {records : List Record}
    {parser : PointerProvenanceParser} (parsed : doParse start records = .ok parser) :
    InitialEntries parser :=
  InitialEntries.initial.run parsed

theorem doParse_initialEntries_load :
    doParse 0 [Record.loadCap 1 5 wideCap] = .ok loadedRoot ∧
      loadedRoot.vertexMap.initialMap = [(8192, 33)] ∧ InitialEntries loadedRoot :=
  have parsed : doParse 0 [Record.loadCap 1 5 wideCap] = .ok loadedRoot := by rfl
  ⟨parsed, by rfl, doParse_initialEntries parsed⟩

end Cheriplot.Provenance
