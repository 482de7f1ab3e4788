/-! What a caller chooses about compilation: which checks run and how strict they are. -/

set_option autoImplicit false

namespace Orchestration

/-- What becomes of a region whose declared joins differ from its last batch. -/
inductive JoinPolicy where
  | ignore
  | warn
  | enforce
  deriving DecidableEq, Repr

/-- Errors of the review stop a compilation, those of the audit withhold its machine; under full coverage a
node that no entry lists is an error, otherwise a warning. -/
structure Settings where
  reviewPartition : Bool := true
  auditMachine : Bool := true
  joinPolicy : JoinPolicy := .warn
  fullCoverage : Bool := false
  deriving DecidableEq, Repr

end Orchestration
