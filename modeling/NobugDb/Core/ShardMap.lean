import NobugDb.Core.Partition
import NobugDb.Misc.AssocMap

/-!
# The shard map

Workers and the placement of child partitions on them (`src/core/shard_map.cc`), and the routing
of keys and pruned scans to workers (`src/core/shard_router.cc`).
-/

namespace NobugDb

open Misc (AssocMap)

structure ShardEndpoint where
  shardId : Int := 0
  host : String
  port : UInt16
  deriving DecidableEq

/-- `ShardMap`, as `build` and `loadFromFile` accept it (`shard_map.cc:49-72`): `workers_` by shard
    id in increasing order and `placements_` by child name. -/
structure ShardMap where
  workers : AssocMap Int ShardEndpoint
  placements : AssocMap String Int
  increasing : (workers.map Prod.fst).Pairwise (· < ·)
  workers_ne_nil : workers ≠ []
  placements_ne_nil : placements ≠ []
  known : ∀ e ∈ placements, (workers.lookup e.2).isSome = true
  labelled : ∀ e ∈ workers, e.2.shardId = e.1

namespace ShardMap

variable (map : ShardMap)

def listWorkers : List ShardEndpoint := map.workers.map Prod.snd

def findEndpoint (shardId : Int) : Option ShardEndpoint := map.workers.lookup shardId

def findShardId (child : String) : Option Int := map.placements.lookup child

def hasPlacement (child : String) : Bool := map.placements.contains child

def firstWorker : Option ShardEndpoint := map.listWorkers.head?

/-- `ShardRouter::resolveChildName` (`shard_router.cc:36-56`). -/
def resolveChildName (child : String) : Except String ShardEndpoint :=
  match map.findShardId child with
  | none => .error ("no shard placement for partition " ++ child)
  | some shardId =>
    match map.findEndpoint shardId with
    | none => .error ("unknown shard id " ++ toString shardId)
    | some endpoint => .ok endpoint

/-- The map `unique` of `resolveChildren` (`shard_map.cc:206-223`). -/
def uniqueEndpoints (map : ShardMap) :
    List String → AssocMap Int ShardEndpoint → Except String (AssocMap Int ShardEndpoint)
  | [], unique => .ok unique
  | child :: children, unique => do
    let endpoint ← map.resolveChildName child
    map.uniqueEndpoints children (AssocMap.assign endpoint.shardId endpoint unique)

/-- `resolveChildren` (`shard_map.cc:204-231`). -/
def resolveChildren (children : List String) : Except String (List ShardEndpoint) := do
  return (← map.uniqueEndpoints children []).map Prod.snd

/-- `ShardRouter::resolveKey` (`shard_router.cc:10-21`). -/
def resolveKey (metadata : PartitionedTableMetadata) (key : Value) : Except String ShardEndpoint :=
  match metadata.resolveChild key with
  | none => .error ("no partition for key " ++ key.toString)
  | some child => map.resolveChildName child

/-- `ShardRouter::resolvePrune` (`shard_router.cc:23-34`). -/
def resolvePrune (metadata : PartitionedTableMetadata)
    (constraints : List PartitionPruneConstraint) : Except String (List ShardEndpoint) :=
  match metadata.prune constraints with
  | [] => .error "partition prune selected no children"
  | children => map.resolveChildren children

end ShardMap

end NobugDb
