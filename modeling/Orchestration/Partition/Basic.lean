import Std.Data.TreeMap

/-! Partitions: how the nodes of a graph are grouped into serial chains and batched
regions. Like a graph, a partition is plain data that may name nodes that do not exist. -/

set_option autoImplicit false

namespace Orchestration

structure Chain where
  id : String
  path : List String := []
  deriving DecidableEq, Repr

structure Region where
  id : String
  batches : List (List String) := []
  joins : List String := []
  deriving DecidableEq, Repr

namespace Region

def numbered (region : Region) : List (List String × Nat) :=
  region.batches.zipIdx 1

def lastBatch (region : Region) : List String :=
  region.batches.getLastD []

def batchNumbers (region : Region) : Std.TreeMap String Nat :=
  region.numbered.foldl (fun numbers (batch, number) => batch.foldl (·.insertIfNew · number) numbers) ∅

def batchOf? (region : Region) (node : String) : Option Nat :=
  region.batchNumbers[node]?

end Region

structure Partition where
  chains : List Chain := []
  regions : List Region := []
  deriving DecidableEq, Repr

inductive EntryKind where
  | chain
  | region
  deriving DecidableEq, Repr

def EntryKind.name : EntryKind → String
  | chain => "Chain"
  | region => "Region"

structure Entry where
  kind : EntryKind
  id : String
  deriving DecidableEq, Repr

/-- One place of a partition where a node is named. -/
structure Listing where
  entry : Entry
  node : String
  deriving DecidableEq, Repr

def Chain.listings (chain : Chain) : List Listing :=
  chain.path.map (⟨⟨.chain, chain.id⟩, ·⟩)

def Region.listings (region : Region) : List Listing :=
  region.batches.flatten.map (⟨⟨.region, region.id⟩, ·⟩)

namespace Partition

/-- Every listing, those of chains first, each entry from its start to its end. -/
def listings (partition : Partition) : List Listing :=
  partition.chains.flatMap Chain.listings ++ partition.regions.flatMap Region.listings

def listed (partition : Partition) : List String :=
  partition.listings.map Listing.node

def referenceCount (partition : Partition) : Nat :=
  partition.listings.length

/-- Chain paths come first, then the batches. -/
theorem listed_eq (partition : Partition) :
    partition.listed =
      partition.chains.flatMap Chain.path ++ partition.regions.flatMap (·.batches.flatten) := by
  simp [listed, listings, List.map_flatMap, Chain.listings, Region.listings, Function.comp_def]

end Partition

end Orchestration
