import Orchestration.Graph.Basic
import Orchestration.Machine.Basic
import Orchestration.Partition.Basic

/-! The draft of a machine: its states in the order in which they are emitted, with a gap
wherever a listing names no node. Whether the draft makes a machine is decided later. -/

set_option autoImplicit false

namespace Orchestration

/-- A place of a draft: a state, or the listing that should have given one. -/
abbrev Slot := Except Listing State

def proceedTo (target : String) : Transition :=
  ⟨.proceed, target, false⟩

def branchTo (target : String) : Transition :=
  ⟨.proceed, target, true⟩

def failOver : Transition :=
  ⟨.error, Ending.failure.id, false⟩

def Node.stage (node : Node) (next : String) : Stage where
  id := (StateId.task node.id).text
  task := node.task
  transitions := [proceedTo next, failOver]
  role := .task
  node := node.id

def Listing.slot (graph : Graph) (listing : Listing) (next : String) : Slot :=
  match graph.find? listing.node with
  | some node => .ok (.stage (node.stage next))
  | none => .error listing

def Chain.followers (chain : Chain) : List String :=
  chain.path.tail.map (fun key => (StateId.task key).text) ++ [Ending.success.id]

def Chain.draft (graph : Graph) (chain : Chain) : List Slot :=
  List.zipWith (Listing.slot graph) chain.listings chain.followers

namespace Region

/-- The stage that dispatches a batch; without nodes it goes straight to the join. -/
def start (region : Region) (batch : List String) (number : Nat) : Stage where
  id := (StateId.batchStart region.id number).text
  task := startInstruction region.id number
  transitions :=
    (if batch = [] then [proceedTo (StateId.batchJoin region.id number).text]
      else batch.map fun key => branchTo (StateId.task key).text) ++ [failOver]
  role := .batchStart

def follower (region : Region) (number : Nat) : String :=
  if number = region.batches.length then Ending.success.id
  else (StateId.batchStart region.id (number + 1)).text

def join (region : Region) (number : Nat) : Stage where
  id := (StateId.batchJoin region.id number).text
  task := joinInstruction region.id number
  transitions := [proceedTo (region.follower number), failOver]
  role := .batchJoin

def batchDraft (graph : Graph) (region : Region) (batch : List String) (number : Nat) : List Slot :=
  .ok (.stage (region.start batch number)) ::
    batch.map (fun key =>
      (Listing.mk ⟨.region, region.id⟩ key).slot graph (StateId.batchJoin region.id number).text) ++
    [.ok (.stage (region.join number))]

def draft (graph : Graph) (region : Region) : List Slot :=
  region.numbered.flatMap fun (batch, number) => region.batchDraft graph batch number

end Region

def Partition.draft (graph : Graph) (partition : Partition) : List Slot :=
  partition.chains.flatMap (Chain.draft graph) ++
    partition.regions.flatMap (Region.draft graph) ++
    [.ok (.final Ending.success.id), .ok (.final Ending.failure.id)]

theorem Chain.length_draft (graph : Graph) (chain : Chain) :
    (chain.draft graph).length = chain.path.length := by
  simp only [draft, listings, followers, List.length_zipWith, List.length_map, List.length_append,
    List.length_tail, List.length_cons, List.length_nil]
  omega

/-- A batch has a slot for every node and two of its own. -/
theorem Region.length_batchDraft (graph : Graph) (region : Region) (batch : List String)
    (number : Nat) : (region.batchDraft graph batch number).length = batch.length + 2 := by
  simp [batchDraft]

end Orchestration
