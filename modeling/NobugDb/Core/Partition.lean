import NobugDb.Types.Value

/-!
# Partitions

Routing of keys to the children of a partitioned table, and pruning of children by constraints
on the key (`src/core/partition.cc`).
-/

namespace NobugDb

inductive PartitionKind where
  | range
  | hash
  deriving DecidableEq, Repr

structure RangePartitionBound where
  minInclusive : Value
  maxExclusive : Value
  deriving DecidableEq

structure HashPartitionBound where
  modulus : Int := 0
  remainder : Int := 0
  deriving DecidableEq

structure PartitionBound where
  range : Option RangePartitionBound := none
  hash : Option HashPartitionBound := none
  deriving DecidableEq

structure PartitionDescriptor where
  childTableName : String
  bound : PartitionBound
  deriving DecidableEq

/-- `PartitionPruneConstraint::Op`. -/
inductive PruneOp where
  | equal
  | less
  | lessEqual
  | greater
  | greaterEqual
  | between
  deriving DecidableEq, Repr

structure PartitionPruneConstraint where
  op : PruneOp := .equal
  lower : Value := .null
  upper : Value := .null
  lowerInclusive : Bool := true
  upperInclusive : Bool := true
  deriving DecidableEq

/-! ## Hashing -/

namespace Value

/-- `Value::get_type` (`value.cc:87-93`). -/
def getType : Value → DataType
  | .int _ => .int
  | .float _ => .float
  | .string _ => .string
  | .bool _ => .boolean
  | .null => .string

end Value

namespace PartitionHash

/-- `kFnvOffset`. -/
def fnvOffset : UInt64 := 14695981039346656037

/-- `kFnvPrime`. -/
def fnvPrime : UInt64 := 1099511628211

/-- `mixBytes` (`partition.cc:11-17`). -/
def mixBytes (hash : UInt64) (data : List UInt8) : UInt64 :=
  data.foldl (fun hash byte => (hash ^^^ byte.toUInt64) * fnvPrime) hash

/-- The bytes of a 64-bit word in memory, the lowest first. -/
def bytesOf (word : UInt64) : List UInt8 :=
  (List.range 8).map (fun i => (word >>> (8 * UInt64.ofNat i)).toUInt8)

/-- `static_cast<uint8_t>(value.get_type())`: the position in the enumeration. -/
def typeTag : DataType → UInt8
  | .int => 0
  | .float => 1
  | .string => 2
  | .boolean => 3
  | .date => 4
  | .uuid => 5

/-- `computePartitionHash` (`partition.cc:183-208`). -/
def computePartitionHash (value : Value) : UInt64 :=
  let hash := mixBytes fnvOffset [typeTag value.getType]
  match value with
  | .null => hash
  | .int v => mixBytes hash (bytesOf (UInt64.ofInt v))
  | .float v => mixBytes hash (bytesOf v.toBits)
  | .bool v => mixBytes hash [if v then 1 else 0]
  | .string v => mixBytes hash v.toUTF8.data.toList

end PartitionHash

/-! ## Ranges -/

namespace RangePartitionBound

/-- `rangesOverlap` (`partition.cc:19-21`). -/
def overlaps (a b : RangePartitionBound) : Bool :=
  a.minInclusive.lt b.maxExclusive && b.minInclusive.lt a.maxExclusive

/-- `rangeContains` (`partition.cc:23-25`). -/
def contains (bound : RangePartitionBound) (key : Value) : Bool :=
  bound.minInclusive.le key && key.lt bound.maxExclusive

/-- `rangeIntersectsConstraint` (`partition.cc:27-80`). -/
def intersectsConstraint (bound : RangePartitionBound) (constraint : PartitionPruneConstraint) :
    Bool :=
  match constraint.op with
  | .equal => bound.contains constraint.lower
  | .less =>
    if !constraint.upperInclusive then bound.minInclusive.lt constraint.upper
    else bound.minInclusive.le constraint.upper
  | .lessEqual => bound.minInclusive.le constraint.upper
  | .greater =>
    if constraint.lowerInclusive then bound.maxExclusive.gt constraint.lower
    else bound.maxExclusive.gt constraint.lower && !bound.maxExclusive.le constraint.lower
  | .greaterEqual => bound.maxExclusive.gt constraint.lower
  | .between =>
    if constraint.lowerInclusive && constraint.upperInclusive then
      bound.minInclusive.le constraint.upper && constraint.lower.lt bound.maxExclusive
    else if constraint.lowerInclusive && !constraint.upperInclusive then
      bound.minInclusive.lt constraint.upper && constraint.lower.lt bound.maxExclusive
    else if !constraint.lowerInclusive && constraint.upperInclusive then
      bound.minInclusive.le constraint.upper && constraint.lower.lt bound.maxExclusive &&
        !bound.maxExclusive.le constraint.lower
    else bound.minInclusive.lt constraint.upper && constraint.lower.lt bound.maxExclusive

end RangePartitionBound

/-! ## Routers -/

/-- The test of `HashPartitionRouter::resolveChild` for one partition. -/
def HashPartitionBound.holds (bound : HashPartitionBound) (hashed : UInt64) : Bool :=
  0 < bound.modulus &&
    ((hashed.toNat % bound.modulus.toNat : Nat) : Int) == bound.remainder

namespace PartitionDescriptor

/-- The partition takes the key (`partition.cc:90-97`, `136-149`). -/
def takes (kind : PartitionKind) (part : PartitionDescriptor) (key : Value) : Bool :=
  match kind with
  | .range => part.bound.range.any (fun bound => bound.contains key)
  | .hash =>
    part.bound.hash.any (fun bound => bound.holds (PartitionHash.computePartitionHash key))

end PartitionDescriptor

structure PartitionedTableMetadata where
  kind : PartitionKind
  keyColumn : String
  partitions : List PartitionDescriptor := []
  deriving DecidableEq

namespace PartitionedTableMetadata

variable (metadata : PartitionedTableMetadata)

/-- `resolveChild` of the two routers (`partition.cc:86-99`, `132-151`). -/
def resolveChild (key : Value) : Option String :=
  if key.isNull then none
  else (metadata.partitions.find? (fun part => part.takes metadata.kind key)).map (·.childTableName)

/-- `RangePartitionRouter::prune` (`partition.cc:101-121`). -/
def pruneRange (constraints : List PartitionPruneConstraint) : List String :=
  (metadata.partitions.filter (fun part =>
    part.bound.range.any (fun bound => constraints.all bound.intersectsConstraint))).map
      (·.childTableName)

/-- `HashPartitionRouter::prune` (`partition.cc:153-175`). -/
def pruneHash (constraints : List PartitionPruneConstraint) : List String :=
  match constraints.find? (fun constraint => constraint.op = .equal) with
  | none => metadata.partitions.map (·.childTableName)
  | some constraint => (metadata.resolveChild constraint.lower).toList

/-- `createRouter()->prune(request)`. -/
def prune (constraints : List PartitionPruneConstraint) : List String :=
  match metadata.kind with
  | .range => metadata.pruneRange constraints
  | .hash => metadata.pruneHash constraints

/-! ## Adding and removing partitions -/

def hasChild (childTableName : String) : Bool :=
  metadata.partitions.any (fun part => part.childTableName == childTableName)

/-- `validateNewBound` for a RANGE partition (`partition.cc:231-255`). -/
def validateRange (bound : PartitionBound) : Except String Unit :=
  match bound.range, bound.hash with
  | some range, none =>
    if !range.minInclusive.lt range.maxExclusive then .error "RANGE bound requires min < max"
    else
      match metadata.partitions.find? (fun existing => existing.bound.range.any range.overlaps) with
      | some existing =>
        .error ("RANGE partition overlaps existing partition '" ++ existing.childTableName ++ "'")
      | none => .ok ()
  | _, _ => .error "RANGE partition requires FROM/TO bounds"

/-- The loop over the existing HASH partitions (`partition.cc:275-292`). -/
def validateHashAgainst (hash : HashPartitionBound) : List PartitionDescriptor → Except String Unit
  | [] => .ok ()
  | existing :: rest =>
    match existing.bound.hash with
    | none => validateHashAgainst hash rest
    | some other =>
      if other.modulus ≠ hash.modulus then .error "HASH MODULUS must match existing partitions"
      else if other.remainder = hash.remainder then
        .error ("HASH REMAINDER already used by '" ++ existing.childTableName ++ "'")
      else validateHashAgainst hash rest

/-- `validateNewBound` for a HASH partition (`partition.cc:256-294`). -/
def validateHash (bound : PartitionBound) : Except String Unit :=
  match bound.hash, bound.range with
  | some hash, none =>
    if hash.modulus ≤ 0 then .error "HASH MODULUS must be positive"
    else if hash.remainder < 0 ∨ hash.modulus ≤ hash.remainder then
      .error "HASH REMAINDER must be in [0, MODULUS)"
    else validateHashAgainst hash metadata.partitions
  | _, _ => .error "HASH partition requires MODULUS/REMAINDER"

/-- `validateNewBound` (`partition.cc:229-294`). -/
def validateNewBound (bound : PartitionBound) : Except String Unit :=
  match metadata.kind with
  | .range => metadata.validateRange bound
  | .hash => metadata.validateHash bound

/-- `addPartition` (`partition.cc:296-315`). -/
def addPartition (descriptor : PartitionDescriptor) : Except String PartitionedTableMetadata :=
  if descriptor.childTableName = "" then .error "Partition child name is empty"
  else if metadata.hasChild descriptor.childTableName then
    .error ("Partition '" ++ descriptor.childTableName ++ "' already exists")
  else do
    metadata.validateNewBound descriptor.bound
    return { metadata with partitions := metadata.partitions ++ [descriptor] }

/-- `removePartition` (`partition.cc:317-329`). -/
def removePartition (childTableName : String) : PartitionedTableMetadata :=
  { metadata with partitions :=
      metadata.partitions.eraseP (fun part => part.childTableName == childTableName) }

/-- The metadata of a table as partitions are accepted and dropped. -/
inductive Accepted : PartitionedTableMetadata → Prop
  | new (kind : PartitionKind) (keyColumn : String) : Accepted { kind, keyColumn }
  | add {metadata result : PartitionedTableMetadata} {descriptor : PartitionDescriptor}
      (accepted : Accepted metadata) (added : metadata.addPartition descriptor = .ok result) :
      Accepted result
  | remove {metadata : PartitionedTableMetadata} (accepted : Accepted metadata) (childTableName : String) :
      Accepted (metadata.removePartition childTableName)

end PartitionedTableMetadata

end NobugDb
