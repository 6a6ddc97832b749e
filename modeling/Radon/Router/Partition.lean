import Mathlib.Data.List.Sort
import Radon.Router.Literal

/-!
# Partitions of a table

A table configuration lists the physical tables of a table with their backends. A hash partition
divides the slots of the jump consistent hash among them by ranges, a list partition gives every
value its own physical table, and global and single tables have no key.

The hash function, the checksum of strings and the conversion of floating point literals come with
a `Hasher`.
-/

namespace Radon

/-- `router.MethodType`. -/
inductive MethodType
  | hash
  | global
  | single
  | list
  deriving DecidableEq

/-- `config.PartitionConfig`. -/
structure PartitionConfig where
  table : String
  segment : String
  backend : String
  listValue : String
  deriving DecidableEq

/-- The segment and the backend of a partition. -/
def PartitionConfig.place (p : PartitionConfig) : String × String := (p.segment, p.backend)

/-- `config.TableConfig`. -/
structure TableConfig where
  name : String
  slots : ℕ
  blocks : ℕ
  shardType : MethodType
  shardKey : String
  partitions : List PartitionConfig
  deriving DecidableEq

/-- `router.KeyRange`, the pointer in a segment: `origin` is the position of the partition
configuration for which the range was allocated, so that equal ranges are the same object. -/
inductive KeyRange
  | nil
  | hash (origin start stop : ℕ)
  | list (origin : ℕ)
  | global (origin : ℕ)
  | single (origin : ℕ)
  deriving DecidableEq

/-- The lower end by which `Less` compares hash ranges. -/
def KeyRange.start : KeyRange → ℕ
  | .hash _ start _ => start
  | _ => 0

/-- `router.Segment`. -/
structure Segment where
  table : String := ""
  backend : String := ""
  range : KeyRange := .nil
  listValue : String := ""
  deriving DecidableEq

/-- The packages that turn a key into a slot: `jump.Hash`, the CRC-64 of a string, and
`strconv.ParseFloat` followed by the conversion to `uint64`. -/
structure Hasher where
  jump : UInt64 → ℕ → ℕ
  jump_lt : ∀ key buckets, jump key buckets < max buckets 1
  crc64 : String → UInt64
  parseFloat : String → Except String UInt64

instance : Inhabited Hasher :=
  ⟨⟨fun _ _ => 0, fun _ _ => lt_max_of_lt_right Nat.one_pos, fun _ => 0, fun _ => .ok 0⟩⟩

/-- `strconv.Atoi` on text without a minus sign. -/
def atoi (cs : List Char) : Option ℕ :=
  let digits := match cs with
    | '+' :: cs => cs
    | cs => cs
  if digits = [] then none
  else match parseDigits 10 0 digits with
    | .error _ => none
    | .ok n => if n < 2 ^ 63 then some n else none

/-- The bounds in a hash segment such as `0-64`. -/
def parseSegment (segment : String) : Except String (ℕ × ℕ) :=
  match segment.toList.splitOn '-' with
  | [low, high] =>
    match atoi low with
    | none => .error ("hash.partition.segment.malformed[" ++ segment ++
        "].start.can.not.parser.to.int")
    | some start =>
      match atoi high with
      | none => .error ("hash.partition.segment.malformed[" ++ segment ++
          "].end.can.not.parser.to.int")
      | some stop =>
        if stop ≤ start then .error ("hash.partition.segment.malformed[" ++ segment ++ "].start[" ++
          toString start ++ "]>=end[" ++ toString stop ++ "]")
        else .ok (start, stop)
  | _ => .error ("hash.partition.segment.malformed[" ++ segment ++ "]")

/-- The map from slots to segments, with its length. -/
structure SlotMap where
  find : ℕ → Option Segment
  size : ℕ

/-- The map without slots. -/
def SlotMap.empty : SlotMap := ⟨fun _ => none, 0⟩

/-- Give the slots `start, start + 1, …` to a segment. -/
def SlotMap.fill (text : String) (seg : Segment) : List ℕ → SlotMap → Except String SlotMap
  | [], m => .ok m
  | i :: slots, m =>
    match m.find i with
    | some _ => .error ("hash.partition.segment[" ++ text ++ "].overlapped[" ++ toString i ++ "]")
    | none => SlotMap.fill text seg slots ⟨fun k => if k = i then some seg else m.find k, m.size + 1⟩

/-- `router.Hash`. -/
structure Hash where
  slots : ℕ
  partitions : SlotMap
  segments : List Segment

/-- The loop of `Hash.Build` from the n-th partition on. -/
def Hash.buildFrom : ℕ → List PartitionConfig → Hash → Except String Hash
  | _, [], h => .ok h
  | n, part :: parts, h => do
    let bounds ← parseSegment part.segment
    let seg : Segment :=
      { table := part.table, backend := part.backend, range := .hash n bounds.1 bounds.2 }
    let filled ← h.partitions.fill part.segment seg (List.range' bounds.1 (bounds.2 - bounds.1))
    Hash.buildFrom (n + 1) parts { h with partitions := filled, segments := h.segments ++ [seg] }

/-- `Hash.Build` for the slots of the table. -/
def Hash.build (slots : ℕ) (conf : TableConfig) : Except String Hash := do
  let h ← Hash.buildFrom 0 conf.partitions ⟨slots, .empty, []⟩
  if h.partitions.size ≠ slots then
    .error ("hash.partition.last.segment[" ++ toString h.partitions.size ++
      "].upper.bound.must.be[" ++ toString slots ++ "]")
  else .ok { h with segments := h.segments.insertionSort fun a b => a.range.start ≤ b.range.start }

/-- `Hash.GetIndex`. -/
def Hash.getIndex (H : Hasher) (h : Hash) (sqlval : SQLVal) : Except String ℕ :=
  match sqlval.type with
  | .intVal =>
    match parseInt sqlval.val.toList with
    | .error e => .error ("hash.getindex.val.key.parser.uint64.error:[strconv.ParseInt: parsing \"" ++
        sqlval.val ++ "\": " ++ e.text ++ "]")
    | .ok n => .ok (H.jump (UInt64.ofInt n) h.slots)
  | .floatVal =>
    match H.parseFloat sqlval.val with
    | .error e => .error ("hash.getindex.val.key.parser.float.error:[" ++ e ++ "]")
    | .ok key => .ok (H.jump key h.slots)
  | .strVal => .ok (H.jump (H.crc64 sqlval.val) h.slots)
  | .hexNum => .error "hash.unsupported.key.type:[3]"
  | .hexVal => .error "hash.unsupported.key.type:[4]"
  | .valArg => .error "hash.unsupported.key.type:[5]"
  | .strValWithoutQuote => .error "hash.unsupported.key.type:[6]"

/-- `Hash.GetSegment`; a slot that the map does not have yields the zero segment. -/
def Hash.getSegment (h : Hash) (index : ℕ) : Except String Segment :=
  if h.slots ≤ index then .error ("hash.getsegment.index.[" ++ toString index ++ "].out.of.range")
  else .ok ((h.partitions.find index).getD {})

/-- `router.List`. -/
structure ListPartition where
  segments : List Segment

/-- `List.Build` from the n-th partition on. -/
def ListPartition.buildFrom : ℕ → List PartitionConfig → List Segment
  | _, [] => []
  | n, part :: parts =>
    { table := part.table, backend := part.backend, listValue := part.listValue, range := .list n } ::
      ListPartition.buildFrom (n + 1) parts

/-- `List.Build`. -/
def ListPartition.build (conf : TableConfig) : ListPartition :=
  ⟨ListPartition.buildFrom 0 conf.partitions⟩

/-- `List.GetIndex`. -/
def ListPartition.getIndex (l : ListPartition) (sqlval : SQLVal) : Except String ℕ :=
  match l.segments.findIdx? fun seg => seg.listValue = sqlval.val with
  | some idx => .ok idx
  | none => .error ("Table has no partition for value " ++ sqlval.val)

/-- `List.GetSegment`. -/
def ListPartition.getSegment (l : ListPartition) (index : ℕ) : Except String Segment :=
  match l.segments[index]? with
  | some seg => .ok seg
  | none => .error ("single.getsegment.index.[" ++ toString index ++ "].out.of.range")

/-- `Global.Build` and `Single.Build` from the n-th partition on. -/
def plainSegments (range : ℕ → KeyRange) : ℕ → List PartitionConfig → List Segment
  | _, [] => []
  | n, part :: parts =>
    { table := part.table, backend := part.backend, range := range n } ::
      plainSegments range (n + 1) parts

/-- `router.Partition`. -/
inductive Partition
  | hash (h : Hash)
  | list (l : ListPartition)
  | global (segments : List Segment)
  | single (segments : List Segment)

/-- `Partition.Type`. -/
def Partition.type : Partition → MethodType
  | .hash _ => .hash
  | .list _ => .list
  | .global _ => .global
  | .single _ => .single

/-- `Partition.Build`, as `Router.addTable` chooses it by the shard type. -/
def Partition.build (defaultSlots : ℕ) (conf : TableConfig) : Except String Partition :=
  match conf.shardType with
  | .hash => (Hash.build (if conf.slots = 0 then defaultSlots else conf.slots) conf).map .hash
  | .list => .ok (.list (ListPartition.build conf))
  | .global => .ok (.global (plainSegments .global 0 conf.partitions))
  | .single => .ok (.single (plainSegments .single 0 conf.partitions))

/-- `Partition.GetSegments`. -/
def Partition.getSegments : Partition → List Segment
  | .hash h => h.segments
  | .list l => l.segments
  | .global segments => segments
  | .single segments => segments

/-- `Partition.GetIndex`; a global table answers -1, which no segment has. -/
def Partition.getIndex (H : Hasher) (p : Partition) (sqlval : SQLVal) : Except String (Option ℕ) :=
  match p with
  | .hash h => (h.getIndex H sqlval).map some
  | .list l => (l.getIndex sqlval).map some
  | .global _ => .ok none
  | .single _ => .ok (some 0)

/-- `Partition.GetSegment`. -/
def Partition.getSegment (p : Partition) (index : ℕ) : Except String Segment :=
  match p with
  | .hash h => h.getSegment index
  | .list l => l.getSegment index
  | .global segments =>
    match segments[index]? with
    | some seg => .ok seg
    | none => .error ("global.getsegment.index.[" ++ toString index ++ "].out.of.range")
  | .single segments =>
    match segments[index]? with
    | some seg => .ok seg
    | none => .error ("single.getsegment.index.[" ++ toString index ++ "].out.of.range")

/-- `Partition.Lookup` for the key range from a literal to the same literal. -/
def Partition.lookup (H : Hasher) (p : Partition) (key : SQLVal) : Except String (List Segment) :=
  match p with
  | .hash h => (h.getIndex H key).map fun idx => [(h.partitions.find idx).getD {}]
  | .list l => do
    let idx ← l.getIndex key
    return (l.segments[idx]?).toList
  | .global segments => .ok segments
  | .single segments => .ok segments

/-- `hash.Lookup` and `list.Lookup` between two literals, with the name of the method in the error. -/
def Partition.lookupBetween (H : Hasher) (p : Partition) (method : String) (start stop : SQLVal) :
    Except String (List Segment) :=
  if start.type ≠ stop.type then
    .error (method ++ ".lookup.key.type.must.be.same:[" ++ toString start.type.ctorIdx ++ "!=" ++
      toString stop.type.ctorIdx ++ "]")
  else if start.val = stop.val then p.lookup H start
  else .ok p.getSegments

/-- `Partition.Lookup` for a key range, which may be open. -/
def Partition.lookupRange (H : Hasher) (p : Partition) :
    Option SQLVal → Option SQLVal → Except String (List Segment)
  | some start, some stop =>
    match p with
    | .hash _ => p.lookupBetween H "hash" start stop
    | .list _ => p.lookupBetween H "list" start stop
    | .global segments | .single segments => .ok segments
  | none, _ | _, none => .ok p.getSegments

/-- The loop of `Router.GetSegments`: the segments of the indexes, every range once. -/
def Partition.pickSegments (p : Partition) : List ℕ → List Segment → Except String (List Segment)
  | [], segs => .ok segs
  | idx :: indexes, segs => do
    let segment ← p.getSegment idx
    p.pickSegments indexes
      (if segs.any fun seg => seg.range = segment.range then segs else segs ++ [segment])

/-- `Router.GetSegments` on the partition of the table. -/
def Partition.segmentsOf (p : Partition) (indexes : List ℕ) : Except String (List Segment) :=
  if indexes = [] then .ok p.getSegments else p.pickSegments indexes []

end Radon
