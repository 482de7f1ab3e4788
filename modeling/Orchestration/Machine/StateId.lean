/-! Names of compiled states. They depend only on node ids, region ids and batch numbers,
so compiling the same partition twice names every state alike. -/

set_option autoImplicit false

namespace Orchestration

inductive Ending where
  | success
  | failure
  deriving DecidableEq, Repr

def Ending.id : Ending → String
  | success => "success"
  | failure => "failure"

/-- What a compiled state stands for. Batches are numbered from one. -/
inductive StateId where
  | task (node : String)
  | batchStart (region : String) (batch : Nat)
  | batchJoin (region : String) (batch : Nat)
  | final (ending : Ending)
  deriving DecidableEq, Repr

namespace StateId

def text : StateId → String
  | task node => "exec_" ++ node
  | batchStart region batch => "bu_" ++ region ++ "_batch_" ++ toString batch ++ "_start"
  | batchJoin region batch => "bu_" ++ region ++ "_batch_" ++ toString batch ++ "_join"
  | final ending => ending.id

end StateId

def startInstruction (region : String) (batch : Nat) : String :=
  s!"Bottom-Up {region}: run batch #{batch} in parallel (inputs ready)."

def joinInstruction (region : String) (batch : Nat) : String :=
  s!"Bottom-Up {region}: join for batch #{batch} (wait for all)."

end Orchestration
