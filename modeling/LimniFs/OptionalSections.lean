import LimniFs.DeltaLinkage
import LimniFs.DmsPolicy
import LimniFs.EcParams

/-!
# OptionalSections — the grammars of the optional sections

The erasure coding parameters, the escrow policy and the delta linkage are each read from a counted
layout with checks on the fields and between them.  Every parser accepts its layout and nothing
else, so another reader of the same grammar accepts the same images.
-/

namespace LimniFs

open Wire

theorem optionalSections_acceptExactly [UnicodeData] :
    AcceptsExactly parseEcParamsSection EcParams.InRange EcParams.wire ∧
      AcceptsExactly (parseDmsPolicySection defaultShareDataMaxBytes defaultHintMaxBytes)
        (DmsPolicy.InRange defaultShareDataMaxBytes defaultHintMaxBytes) DmsPolicy.wire ∧
      AcceptsExactly parseDeltaLinkageSection DeltaLinkage.InRange DeltaLinkage.wire :=
  ⟨parseEcParamsSection_decodes.acceptsExactly,
    (parseDmsPolicySection_decodes _ _).acceptsExactly,
    parseDeltaLinkageSection_decodes.acceptsExactly⟩

/-- Parameters without overrides end behind their count. -/
example : ((parseEcParamsSection (.start [1, 4, 2, 0x1D, 0x01, 0, 0, 0, 0, 0xFF])).toOption.map
    fun r => (r.1, r.2.remaining)) = some (⟨4, 2, 0x011D, []⟩, [0xFF]) := by
  decide

/-- The shortest operation removes a path of one byte and has no inode number. -/
example : ((parseDeltaLinkageSection (.start ([1] ++ List.replicate 32 0 ++
    [1, 0, 0, 0, 2, 1, 0, 0, 0, 0x61]))).toOption.map fun r => r.1.treeOps) =
      some [⟨.remove, "a", none⟩] := by
  decide

end LimniFs
