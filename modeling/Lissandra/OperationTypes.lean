import Lissandra.ByteCodec

/-! # The types the processes exchange

`operation_types.h`, `network_types.h` and `shared_types.h`: the enumerations of
processes and of socket operations, the inputs of the requests and the records that
answer them.  C integers keep their width; a `char*` that may be `NULL` is an
`Option`.  A payload travels as a `void*` whose real type depends on the operation
next to it; `Content` is that dependency.
-/
namespace Lissandra

/-- `process_t`. -/
inductive Process where
  | unknown
  | kernel
  | filesystem
  | memory
  deriving DecidableEq, Repr

/-- `socket_operation_t`. -/
inductive SocketOperation where
  | handshakeIn
  | handshakeOut
  | selectIn
  | selectOut
  | insertIn
  | insertOut
  | createIn
  | createOut
  | describeIn
  | describeOut
  | dropIn
  | dropOut
  | journalIn
  | journalOut
  | gossipIn
  | gossipOut
  | valueIn
  | valueOut
  | multiinsertIn
  | multiinsertOut
  | last
  deriving DecidableEq, Repr

/-- `consistency_t`, packed into one byte. -/
inductive Consistency where
  | strongConsistency
  | strongHashConsistency
  | eventualConsistency
  deriving DecidableEq, Repr

def consistencyCodec : ScalarCodec Consistency where
  width := 1
  encode
    | .strongConsistency => [0]
    | .strongHashConsistency => [1]
    | .eventualConsistency => [2]
  decode
    | [0] => some .strongConsistency
    | [1] => some .strongHashConsistency
    | [2] => some .eventualConsistency
    | _ => none
  length_encode c := by cases c <;> rfl
  decode_encode c := by cases c <;> rfl

@[simp] theorem consistencyCodec_width : consistencyCodec.width = 1 := rfl

structure SelectInput where
  tableName : CString
  key : UInt16
  deriving DecidableEq

structure InsertInput where
  tableName : CString
  key : UInt16
  value : CString
  timestamp : Int64
  deriving DecidableEq

structure CreateInput where
  tableName : CString
  consistency : Consistency
  partitions : Int32
  compactionTime : Int64
  deriving DecidableEq

/-- `table_name` is `NULL` in a DESCRIBE of every table. -/
structure DescribeInput where
  tableName : Option CString
  deriving DecidableEq

structure DropInput where
  tableName : CString
  deriving DecidableEq

/-- `record_t`.  `fs_archive_where_it_was_found` never travels; `none` is a field
nobody has written. -/
structure RecordT where
  tableName : CString
  timestamp : Int64
  key : Int32
  value : CString
  fsArchiveWhereItWasFound : Option CString
  deriving DecidableEq

structure TableMetadataT where
  tableName : CString
  consistency : Consistency
  partitions : Int32
  compactionTime : Int64
  deriving DecidableEq

structure MemoryT where
  id : Int32
  ip : CString
  port : Int32
  alive : Bool
  timestamp : Int64
  deriving DecidableEq

/-- What the `void*` of a packet points to.  Operations without a payload carry
`NULL`. -/
abbrev Content : SocketOperation → Type
  | .selectIn => SelectInput
  | .selectOut => RecordT
  | .insertIn => InsertInput
  | .insertOut => Int32
  | .createIn => CreateInput
  | .createOut => Int32
  | .describeIn => DescribeInput
  | .describeOut => List TableMetadataT
  | .dropIn => DropInput
  | .dropOut => Int32
  | .journalOut => Int32
  | .gossipIn => List MemoryT
  | .gossipOut => List MemoryT
  | .valueOut => Int32
  | .multiinsertIn => List InsertInput
  | .multiinsertOut => Int32
  | .handshakeIn | .handshakeOut | .journalIn | .valueIn | .last => Unit

/-- The part of a payload that travels: a record loses
`fs_archive_where_it_was_found`, anything else is sent whole. -/
def transmitted : (operation : SocketOperation) → Content operation → Content operation
  | .selectOut, record => { record with fsArchiveWhereItWasFound := none }
  | .selectIn, c => c | .insertIn, c => c | .insertOut, c => c
  | .createIn, c => c | .createOut, c => c | .describeIn, c => c | .describeOut, c => c
  | .dropIn, c => c | .dropOut, c => c | .journalOut, c => c
  | .gossipIn, c => c | .gossipOut, c => c | .valueOut, c => c
  | .multiinsertIn, c => c | .multiinsertOut, c => c
  | .handshakeIn, c => c | .handshakeOut, c => c | .journalIn, c => c | .valueIn, c => c
  | .last, c => c

end Lissandra
