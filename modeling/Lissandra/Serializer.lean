import Lissandra.OperationTypes

/-! # Payloads on the wire

`serializer.c` describes each message three times: the `elements_*_info` functions
list the sizes of its fields, `serialize_content` copies the fields one after the
other, and `deserialize_content` reads them back at offsets it recomputes from the
received sizes.  This module embeds the three tables and proves that they agree for
every operation (`deserializeContent_serializeContent`).

The list messages read `stride` sizes per element, keep a running offset and stop at
the received element count; `strideLoop` is that loop, and its invariant
(`strideLoop_flatMap`) is the only induction of the module.
-/
namespace Lissandra

theorem length_flatMap_const {α β : Type} {f : α → List β} {k : Nat}
    (hf : ∀ a, (f a).length = k) (l : List α) : (l.flatMap f).length = k * l.length := by
  induction l with
  | nil => rfl
  | cons a l ih =>
    rw [List.flatMap_cons, List.length_append, hf, ih, List.length_cons, Nat.mul_succ, Nat.add_comm]

/-! ## The sizes of the fields -/

/-- `elements_network_t`: the element count and the array of sizes, which has one
entry for each element. -/
structure ElementsNetwork where
  elements : Nat
  elementsSize : List Nat
  length_eq : elementsSize.length = elements

/-- The number of content bytes an `elements_network_t` announces. -/
def ElementsNetwork.contentLength (info : ElementsNetwork) : Nat := info.elementsSize.sum

def elementsSelectInInfo (select : SelectInput) : ElementsNetwork where
  elements := 2
  elementsSize := [select.tableName.strlen + 1, 2]
  length_eq := rfl

def elementsSelectOutInfo (record : RecordT) : ElementsNetwork where
  elements := 4
  elementsSize := [record.tableName.strlen + 1, 8, 4, record.value.strlen + 1]
  length_eq := rfl

/-- The four sizes of one inserted record, in INSERT_IN and in MULTIINSERT_IN. -/
def insertSizes (insert : InsertInput) : List Nat :=
  [insert.tableName.strlen + 1, 2, insert.value.strlen + 1, 8]

def elementsInsertInInfo (insert : InsertInput) : ElementsNetwork where
  elements := 4
  elementsSize := insertSizes insert
  length_eq := rfl

/-- INSERT_OUT, MULTIINSERT_OUT, CREATE_OUT, DROP_OUT, JOURNAL_OUT and VALUE_OUT
carry one `int`. -/
def elementsStatusInfo : ElementsNetwork where
  elements := 1
  elementsSize := [4]
  length_eq := rfl

def elementsInsertOutInfo (_ : Int32) : ElementsNetwork := elementsStatusInfo

def elementsMultiinsertInInfo (inserts : List InsertInput) : ElementsNetwork where
  elements := 4 * inserts.length
  elementsSize := inserts.flatMap insertSizes
  length_eq := length_flatMap_const (f := insertSizes) (fun _ => rfl) inserts

def elementsMultiinsertOutInfo (_ : Int32) : ElementsNetwork := elementsStatusInfo

def elementsCreateInInfo (create : CreateInput) : ElementsNetwork where
  elements := 4
  elementsSize := [create.tableName.strlen + 1, 1, 4, 8]
  length_eq := rfl

def elementsCreateOutInfo (_ : Int32) : ElementsNetwork := elementsStatusInfo

def elementsDescribeInInfo (describe : DescribeInput) : ElementsNetwork :=
  match describe.tableName with
  | none => { elements := 0, elementsSize := [], length_eq := rfl }
  | some tableName =>
    { elements := 1, elementsSize := [tableName.strlen + 1], length_eq := rfl }

def metadataSizes (metadata : TableMetadataT) : List Nat :=
  [metadata.tableName.strlen + 1, 1, 4, 8]

def elementsDescribeOutInfo (describeList : List TableMetadataT) : ElementsNetwork where
  elements := 4 * describeList.length
  elementsSize := describeList.flatMap metadataSizes
  length_eq := length_flatMap_const (f := metadataSizes) (fun _ => rfl) describeList

def elementsDropInInfo (drop : DropInput) : ElementsNetwork where
  elements := 1
  elementsSize := [drop.tableName.strlen + 1]
  length_eq := rfl

def elementsDropOutInfo (_ : Int32) : ElementsNetwork := elementsStatusInfo

def elementsJournalOutInfo (_ : Int32) : ElementsNetwork := elementsStatusInfo

def elementsValueOutInfo (_ : Int32) : ElementsNetwork := elementsStatusInfo

def memorySizes (memory : MemoryT) : List Nat :=
  [4, memory.ip.strlen + 1, 4, 1, 8]

def elementsGossipInfo (memories : List MemoryT) : ElementsNetwork where
  elements := 5 * memories.length
  elementsSize := memories.flatMap memorySizes
  length_eq := length_flatMap_const (f := memorySizes) (fun _ => rfl) memories

/-- `init_elements_info(0)`, also what `elements_journal_in_info` and
`elements_value_in_info` return. -/
def initElementsInfo : ElementsNetwork where
  elements := 0
  elementsSize := []
  length_eq := rfl

/-- `get_out_element_info`: the sizes of an answer. -/
def getOutElementInfo : (operation : SocketOperation) → Content operation → ElementsNetwork
  | .selectOut, record => elementsSelectOutInfo record
  | .insertOut, status => elementsInsertOutInfo status
  | .createOut, status => elementsCreateOutInfo status
  | .describeOut, list => elementsDescribeOutInfo list
  | .dropOut, status => elementsDropOutInfo status
  | .journalOut, status => elementsJournalOutInfo status
  | .valueOut, value => elementsValueOutInfo value
  | .gossipOut, memories => elementsGossipInfo memories
  | .multiinsertOut, status => elementsMultiinsertOutInfo status
  | _, _ => initElementsInfo

/-- The sizes that go with a payload: requests take theirs from the function the
caller of `do_simple_request` uses, answers from `get_out_element_info`. -/
def elementsInfo : (operation : SocketOperation) → Content operation → ElementsNetwork
  | .selectIn, select => elementsSelectInInfo select
  | .insertIn, insert => elementsInsertInInfo insert
  | .createIn, create => elementsCreateInInfo create
  | .describeIn, describe => elementsDescribeInInfo describe
  | .dropIn, drop => elementsDropInInfo drop
  | .gossipIn, memories => elementsGossipInfo memories
  | .multiinsertIn, inserts => elementsMultiinsertInInfo inserts
  | operation, content => getOutElementInfo operation content

/-! ## Writing -/

def serializeInsert (insert : InsertInput) : Bytes :=
  insert.tableName.terminated ++ uint16Codec.encode insert.key
    ++ insert.value.terminated ++ int64Codec.encode insert.timestamp

def serializeMetadata (metadata : TableMetadataT) : Bytes :=
  metadata.tableName.terminated ++ consistencyCodec.encode metadata.consistency
    ++ int32Codec.encode metadata.partitions ++ int64Codec.encode metadata.compactionTime

def serializeMemory (memory : MemoryT) : Bytes :=
  int32Codec.encode memory.id ++ memory.ip.terminated ++ int32Codec.encode memory.port
    ++ boolCodec.encode memory.alive ++ int64Codec.encode memory.timestamp

/-- `serialize_content`: each `memcpy` lands where the previous one ended. -/
def serializeContent : (operation : SocketOperation) → Content operation → Bytes
  | .selectIn, select => select.tableName.terminated ++ uint16Codec.encode select.key
  | .selectOut, record =>
    record.tableName.terminated ++ int64Codec.encode record.timestamp
      ++ int32Codec.encode record.key ++ record.value.terminated
  | .insertIn, insert => serializeInsert insert
  | .insertOut, response => int32Codec.encode response
  | .multiinsertIn, inserts => inserts.flatMap serializeInsert
  | .multiinsertOut, response => int32Codec.encode response
  | .createIn, create =>
    create.tableName.terminated ++ consistencyCodec.encode create.consistency
      ++ int32Codec.encode create.partitions ++ int64Codec.encode create.compactionTime
  | .createOut, response => int32Codec.encode response
  | .describeIn, describe =>
    match describe.tableName with
    | none => []
    | some tableName => tableName.terminated
  | .describeOut, metadata => metadata.flatMap serializeMetadata
  | .dropIn, drop => drop.tableName.terminated
  | .dropOut, response => int32Codec.encode response
  | .journalOut, response => int32Codec.encode response
  | .valueOut, value => int32Codec.encode value
  | .gossipIn, memories => memories.flatMap serializeMemory
  | .gossipOut, memories => memories.flatMap serializeMemory
  | .handshakeIn, _ | .handshakeOut, _ | .journalIn, _ | .valueIn, _ | .last, _ => []

/-! ## Reading -/

section Deserialize
variable (src : Bytes) (elementsSize : List Nat)

/-- The one `int` of a status answer: `memcpy(_, from, elements_size[0])` into
`sizeof(int)` bytes. -/
def deserializeStatus : Option Int32 := do
  let length ← elementsSize[0]?
  if length = int32Codec.width then scalarAt int32Codec src 0 else none

/-- One inserted record, from the sizes at `i` and the bytes at `offset`; also the
offset after it. -/
def deserializeInsert (i offset : Nat) : Option (InsertInput × Nat) := do
  let length ← elementsSize[i]?
  let tableName ← stringAt src offset length
  let offset := offset + length
  let length ← elementsSize[i + 1]?
  let key ← scalarAt uint16Codec src offset
  let offset := offset + length
  let length ← elementsSize[i + 2]?
  let value ← stringAt src offset length
  let offset := offset + length
  let length ← elementsSize[i + 3]?
  let timestamp ← scalarAt int64Codec src offset
  some (⟨tableName, key, value, timestamp⟩, offset + length)

/-- One table of a DESCRIBE_OUT. -/
def deserializeMetadata (i offset : Nat) : Option (TableMetadataT × Nat) := do
  let length ← elementsSize[i]?
  let tableName ← stringAt src offset length
  let offset := offset + length
  let length ← elementsSize[i + 1]?
  let consistency ← scalarAt consistencyCodec src offset
  let offset := offset + length
  let length ← elementsSize[i + 2]?
  let partitions ← scalarAt int32Codec src offset
  let offset := offset + length
  let length ← elementsSize[i + 3]?
  let compactionTime ← scalarAt int64Codec src offset
  some (⟨tableName, consistency, partitions, compactionTime⟩, offset + length)

/-- One memory of a gossip list. -/
def deserializeMemory (i offset : Nat) : Option (MemoryT × Nat) := do
  let length ← elementsSize[i]?
  let id ← scalarAt int32Codec src offset
  let offset := offset + length
  let length ← elementsSize[i + 1]?
  let ip ← stringAt src offset length
  let offset := offset + length
  let length ← elementsSize[i + 2]?
  let port ← scalarAt int32Codec src offset
  let offset := offset + length
  let length ← elementsSize[i + 3]?
  let alive ← scalarAt boolCodec src offset
  let offset := offset + length
  let length ← elementsSize[i + 4]?
  let timestamp ← scalarAt int64Codec src offset
  some (⟨id, ip, port, alive, timestamp⟩, offset + length)

end Deserialize

/-- `for (int i = 0; i < elements; i = i + stride)` with a running offset.  The
counter moves by at least one, so `elements` rounds are enough. -/
def strideLoop {α : Type} (stride elements : Nat) (body : Nat → Nat → Option (α × Nat)) :
    Nat → Nat → Nat → Option (List α)
  | 0, _, _ => some []
  | fuel + 1, i, offset =>
    if i < elements then do
      let (a, offset) ← body i offset
      let rest ← strideLoop stride elements body fuel (i + stride) offset
      some (a :: rest)
    else some []

/-- `deserialize_content`.  `none` is a read outside the buffer or the size array. -/
def deserializeContent (src : Bytes) : (operation : SocketOperation) → (elements : Nat) →
    (elementsSize : List Nat) → Option (Content operation)
  | .selectIn, _, elementsSize => do
    let length ← elementsSize[0]?
    let tableName ← stringAt src 0 length
    let key ← scalarAt uint16Codec src length
    some ⟨tableName, key⟩
  | .selectOut, _, elementsSize => do
    let length ← elementsSize[0]?
    let tableName ← stringAt src 0 length
    let offset := length
    let length ← elementsSize[1]?
    let timestamp ← scalarAt int64Codec src offset
    let offset := offset + length
    let length ← elementsSize[2]?
    let key ← scalarAt int32Codec src offset
    let offset := offset + length
    let length ← elementsSize[3]?
    let value ← stringAt src offset length
    some ⟨tableName, timestamp, key, value, none⟩
  | .insertIn, _, elementsSize => (deserializeInsert src elementsSize 0 0).map Prod.fst
  | .insertOut, _, elementsSize => deserializeStatus src elementsSize
  | .multiinsertIn, elements, elementsSize =>
    strideLoop 4 elements (deserializeInsert src elementsSize) elements 0 0
  | .multiinsertOut, _, elementsSize => deserializeStatus src elementsSize
  | .createIn, _, elementsSize => do
    let length ← elementsSize[0]?
    let tableName ← stringAt src 0 length
    let offset := length
    let length ← elementsSize[1]?
    let consistency ← scalarAt consistencyCodec src offset
    let offset := offset + length
    let length ← elementsSize[2]?
    let partitions ← scalarAt int32Codec src offset
    let offset := offset + length
    let compactionTime ← scalarAt int64Codec src offset
    some ⟨tableName, consistency, partitions, compactionTime⟩
  | .createOut, _, elementsSize => deserializeStatus src elementsSize
  | .describeIn, elements, elementsSize =>
    if elements = 0 then some ⟨none⟩
    else do
      let length ← elementsSize[0]?
      let tableName ← stringAt src 0 length
      some ⟨some tableName⟩
  | .describeOut, elements, elementsSize =>
    strideLoop 4 elements (deserializeMetadata src elementsSize) elements 0 0
  | .dropIn, _, elementsSize => do
    let length ← elementsSize[0]?
    let tableName ← stringAt src 0 length
    some ⟨tableName⟩
  | .dropOut, _, elementsSize => deserializeStatus src elementsSize
  | .journalOut, _, elementsSize => deserializeStatus src elementsSize
  | .valueOut, _, elementsSize => deserializeStatus src elementsSize
  | .gossipIn, elements, elementsSize =>
    strideLoop 5 elements (deserializeMemory src elementsSize) elements 0 0
  | .gossipOut, elements, elementsSize =>
    strideLoop 5 elements (deserializeMemory src elementsSize) elements 0 0
  | .handshakeIn, _, _ | .handshakeOut, _, _ | .journalIn, _, _ | .valueIn, _, _
  | .last, _, _ => some ()

/-! ## The three tables agree -/

/-- The loop reads back a list written element by element, given that one round reads
back the element the cursors stand at.  The invariant is what the two cursors have
ahead of them: the sizes and the bytes of the elements still to read. -/
theorem strideLoop_flatMap {α : Type} {stride elements : Nat} {sizes : α → List Nat}
    {bytes : α → Bytes} {body : Nat → Nat → Option (α × Nat)} {src : Bytes}
    {elementsSize : List Nat} (hpos : 0 < stride) (hstride : ∀ a, (sizes a).length = stride)
    (hbody : ∀ a i offset sq bq, elementsSize.drop i = sizes a ++ sq →
      src.drop offset = bytes a ++ bq → body i offset = some (a, offset + (bytes a).length))
    (todo : List α) : ∀ fuel i offset, todo.length ≤ fuel →
      i + stride * todo.length = elements → elementsSize.drop i = todo.flatMap sizes →
      src.drop offset = todo.flatMap bytes →
      strideLoop stride elements body fuel i offset = some todo := by
  induction todo with
  | nil =>
    intro fuel i offset _ hi _ _
    cases fuel with
    | zero => rfl
    | succ fuel => rw [strideLoop, if_neg (by simp at hi; omega)]
  | cons a todo ih =>
    intro fuel i offset hfuel hi hsizes hbytes
    obtain ⟨fuel, rfl⟩ : ∃ f, fuel = f + 1 := ⟨fuel - 1, by simp at hfuel; omega⟩
    rw [List.flatMap_cons] at hsizes hbytes
    rw [List.length_cons, Nat.mul_succ] at hi
    rw [strideLoop, if_pos (by omega), hbody a i offset _ _ hsizes hbytes]
    simp only [Option.bind_eq_bind, Option.bind_some]
    rw [ih fuel (i + stride) _ (by simpa using hfuel) (by omega)
      (drop_add_of_drop hsizes (hstride a).symm) (drop_add_of_drop hbytes rfl), Option.bind_some]

section Rounds
variable {src : Bytes} {elementsSize : List Nat} {i offset : Nat} {sq : List Nat} {bq : Bytes}

theorem getElem?_of_drop {l : List Nat} {i : Nat} {field rest : List Nat} (j : Nat)
    (h : l.drop i = field ++ rest) (hj : j < field.length) : l[i + j]? = field[j]? := by
  rw [← List.getElem?_drop, h, List.getElem?_append_left hj]

theorem deserializeStatus_encode (status : Int32) :
    deserializeStatus (int32Codec.encode status) [4] = some status := by
  have hd : (int32Codec.encode status).drop 0 = int32Codec.encode status ++ [] := by simp
  simp [deserializeStatus, scalarAt_of_drop hd]

theorem deserializeInsert_serializeInsert (insert : InsertInput)
    (hsizes : elementsSize.drop i = insertSizes insert ++ sq)
    (hbytes : src.drop offset = serializeInsert insert ++ bq) :
    deserializeInsert src elementsSize i offset =
      some (insert, offset + (serializeInsert insert).length) := by
  have z0 : elementsSize[i]? = some (insert.tableName.strlen + 1) :=
    getElem?_of_drop 0 hsizes (by simp [insertSizes])
  have z1 : elementsSize[i + 1]? = some uint16Codec.width :=
    getElem?_of_drop 1 hsizes (by simp [insertSizes])
  have z2 : elementsSize[i + 2]? = some (insert.value.strlen + 1) :=
    getElem?_of_drop 2 hsizes (by simp [insertSizes])
  have z3 : elementsSize[i + 3]? = some int64Codec.width :=
    getElem?_of_drop 3 hsizes (by simp [insertSizes])
  simp only [serializeInsert, List.append_assoc] at hbytes
  have h1 := drop_string hbytes
  have h2 := drop_scalar h1
  have h3 := drop_string h2
  simp only [deserializeInsert, Option.bind_eq_bind, Option.bind_some, z0, z1, z2, z3,
    stringAt_of_drop hbytes, scalarAt_of_drop h1, stringAt_of_drop h2, scalarAt_of_drop h3]
  simp only [serializeInsert, List.length_append, CString.length_terminated,
    ScalarCodec.length_encode, Nat.add_assoc]

theorem deserializeMetadata_serializeMetadata (metadata : TableMetadataT)
    (hsizes : elementsSize.drop i = metadataSizes metadata ++ sq)
    (hbytes : src.drop offset = serializeMetadata metadata ++ bq) :
    deserializeMetadata src elementsSize i offset =
      some (metadata, offset + (serializeMetadata metadata).length) := by
  have z0 : elementsSize[i]? = some (metadata.tableName.strlen + 1) :=
    getElem?_of_drop 0 hsizes (by simp [metadataSizes])
  have z1 : elementsSize[i + 1]? = some consistencyCodec.width :=
    getElem?_of_drop 1 hsizes (by simp [metadataSizes])
  have z2 : elementsSize[i + 2]? = some int32Codec.width :=
    getElem?_of_drop 2 hsizes (by simp [metadataSizes])
  have z3 : elementsSize[i + 3]? = some int64Codec.width :=
    getElem?_of_drop 3 hsizes (by simp [metadataSizes])
  simp only [serializeMetadata, List.append_assoc] at hbytes
  have h1 := drop_string hbytes
  have h2 := drop_scalar h1
  have h3 := drop_scalar h2
  simp only [deserializeMetadata, Option.bind_eq_bind, Option.bind_some, z0, z1, z2, z3,
    stringAt_of_drop hbytes, scalarAt_of_drop h1, scalarAt_of_drop h2, scalarAt_of_drop h3]
  simp [serializeMetadata, Nat.add_assoc]

theorem deserializeMemory_serializeMemory (memory : MemoryT)
    (hsizes : elementsSize.drop i = memorySizes memory ++ sq)
    (hbytes : src.drop offset = serializeMemory memory ++ bq) :
    deserializeMemory src elementsSize i offset =
      some (memory, offset + (serializeMemory memory).length) := by
  have z0 : elementsSize[i]? = some int32Codec.width :=
    getElem?_of_drop 0 hsizes (by simp [memorySizes])
  have z1 : elementsSize[i + 1]? = some (memory.ip.strlen + 1) :=
    getElem?_of_drop 1 hsizes (by simp [memorySizes])
  have z2 : elementsSize[i + 2]? = some int32Codec.width :=
    getElem?_of_drop 2 hsizes (by simp [memorySizes])
  have z3 : elementsSize[i + 3]? = some boolCodec.width :=
    getElem?_of_drop 3 hsizes (by simp [memorySizes])
  have z4 : elementsSize[i + 4]? = some int64Codec.width :=
    getElem?_of_drop 4 hsizes (by simp [memorySizes])
  simp only [serializeMemory, List.append_assoc] at hbytes
  have h1 := drop_scalar hbytes
  have h2 := drop_string h1
  have h3 := drop_scalar h2
  have h4 := drop_scalar h3
  simp only [deserializeMemory, Option.bind_eq_bind, Option.bind_some, z0, z1, z2, z3, z4,
    scalarAt_of_drop hbytes, stringAt_of_drop h1, scalarAt_of_drop h2, scalarAt_of_drop h3,
    scalarAt_of_drop h4]
  simp [serializeMemory, Nat.add_assoc]

end Rounds

/-- A list message is read back whole, of any length. -/
theorem strideLoop_list {α : Type} {stride : Nat} (sizes : α → List Nat) (bytes : α → Bytes)
    (body : Bytes → List Nat → Nat → Nat → Option (α × Nat)) (hpos : 0 < stride)
    (hstride : ∀ a, (sizes a).length = stride)
    (hbody : ∀ a src elementsSize i offset sq bq, elementsSize.drop i = sizes a ++ sq →
      src.drop offset = bytes a ++ bq →
      body src elementsSize i offset = some (a, offset + (bytes a).length)) (list : List α) :
    strideLoop stride (stride * list.length) (body (list.flatMap bytes) (list.flatMap sizes))
      (stride * list.length) 0 0 = some list := by
  refine strideLoop_flatMap hpos hstride
    (fun a i offset sq bq => hbody a _ _ i offset sq bq) list _ 0 0 ?_ (by simp) rfl rfl
  exact Nat.le_mul_of_pos_left list.length hpos

/-! ## The round trip -/

/-- The bytes written are as many as the sizes announce. -/
theorem length_serializeContent (operation : SocketOperation) (content : Content operation) :
    (serializeContent operation content).length =
      (elementsInfo operation content).contentLength := by
  have flat : ∀ {α : Type} {bytes : α → Bytes} {sizes : α → List Nat},
      (∀ a, (bytes a).length = (sizes a).sum) → ∀ l : List α,
        (l.flatMap bytes).length = (l.flatMap sizes).sum := by
    intro α bytes sizes h l
    induction l with
    | nil => rfl
    | cons a l ih => simp [h, ih]
  have insert : ∀ a, (serializeInsert a).length = (insertSizes a).sum := fun a => by
    simp [serializeInsert, insertSizes, Nat.add_assoc]
  have metadata : ∀ a, (serializeMetadata a).length = (metadataSizes a).sum := fun a => by
    simp [serializeMetadata, metadataSizes, Nat.add_assoc]
  have memory : ∀ a, (serializeMemory a).length = (memorySizes a).sum := fun a => by
    simp [serializeMemory, memorySizes, Nat.add_assoc]
  have status : ∀ a, (int32Codec.encode a).length = elementsStatusInfo.contentLength :=
    int32Codec.length_encode
  cases operation with
  | insertOut | multiinsertOut | createOut | dropOut | journalOut | valueOut => exact status content
  | insertIn => exact insert content
  | multiinsertIn => exact flat insert content
  | describeOut => exact flat metadata content
  | gossipIn | gossipOut => exact flat memory content
  | describeIn =>
    obtain ⟨_ | tableName⟩ := content
    · rfl
    · exact tableName.length_terminated
  | selectIn =>
    simp [serializeContent, elementsInfo, elementsSelectInInfo, ElementsNetwork.contentLength]
  | selectOut =>
    simp [serializeContent, elementsInfo, getOutElementInfo, elementsSelectOutInfo,
      ElementsNetwork.contentLength, Nat.add_assoc]
  | createIn =>
    simp [serializeContent, elementsInfo, elementsCreateInInfo, ElementsNetwork.contentLength,
      Nat.add_assoc]
  | dropIn => exact content.tableName.length_terminated
  | handshakeIn | handshakeOut | journalIn | valueIn | last => rfl

/-- **The three tables agree.**  For every operation and every value of its payload,
`serialize_content` writes the bytes the sizes announce, and `deserialize_content` of
these bytes with these sizes returns the value, a record without
`fs_archive_where_it_was_found`. -/
theorem deserializeContent_serializeContent (operation : SocketOperation)
    (content : Content operation) :
    (serializeContent operation content).length
        = (elementsInfo operation content).elementsSize.sum ∧
      deserializeContent (serializeContent operation content) operation
          (elementsInfo operation content).elements (elementsInfo operation content).elementsSize
        = some (transmitted operation content) := by
  refine ⟨length_serializeContent operation content, ?_⟩
  cases operation with
  | insertOut | multiinsertOut | createOut | dropOut | journalOut | valueOut =>
    exact deserializeStatus_encode content
  | selectIn =>
    have h0 : (serializeContent .selectIn content).drop 0
        = content.tableName.terminated ++ (uint16Codec.encode content.key ++ []) := by
      simp [serializeContent]
    have h1 := drop_string h0
    rw [Nat.zero_add] at h1
    simp [deserializeContent, elementsInfo, elementsSelectInInfo, stringAt_of_drop h0,
      scalarAt_of_drop h1, transmitted]
  | selectOut =>
    have h0 : (serializeContent .selectOut content).drop 0
        = content.tableName.terminated ++ (int64Codec.encode content.timestamp
          ++ (int32Codec.encode content.key ++ (content.value.terminated ++ []))) := by
      simp [serializeContent]
    have h1 := drop_string h0
    rw [Nat.zero_add] at h1
    have h2 := drop_scalar h1
    have h3 := drop_scalar h2
    simp only [int32Codec_width, int64Codec_width] at h2 h3
    simp [deserializeContent, elementsInfo, getOutElementInfo, elementsSelectOutInfo,
      stringAt_of_drop h0, scalarAt_of_drop h1, scalarAt_of_drop h2, stringAt_of_drop h3,
      transmitted]
  | insertIn =>
    have hsizes : (insertSizes content).drop 0 = insertSizes content ++ [] := by simp
    have hbytes : (serializeInsert content).drop 0 = serializeInsert content ++ [] := by simp
    have h := deserializeInsert_serializeInsert content hsizes hbytes
    simp [deserializeContent, serializeContent, elementsInfo, elementsInsertInInfo, h, transmitted]
  | createIn =>
    have h0 : (serializeContent .createIn content).drop 0
        = content.tableName.terminated ++ (consistencyCodec.encode content.consistency
          ++ (int32Codec.encode content.partitions
            ++ (int64Codec.encode content.compactionTime ++ []))) := by
      simp [serializeContent]
    have h1 := drop_string h0
    rw [Nat.zero_add] at h1
    have h2 := drop_scalar h1
    have h3 := drop_scalar h2
    simp only [int32Codec_width, consistencyCodec_width] at h2 h3
    simp [deserializeContent, elementsInfo, elementsCreateInInfo, stringAt_of_drop h0,
      scalarAt_of_drop h1, scalarAt_of_drop h2, scalarAt_of_drop h3, transmitted]
  | describeIn =>
    obtain ⟨_ | tableName⟩ := content
    · rfl
    · have h0 : (serializeContent .describeIn ⟨some tableName⟩).drop 0
          = tableName.terminated ++ [] := by simp [serializeContent]
      simp [deserializeContent, elementsInfo, elementsDescribeInInfo, stringAt_of_drop h0,
        transmitted]
  | dropIn =>
    have h0 : (serializeContent .dropIn content).drop 0 = content.tableName.terminated ++ [] := by
      simp [serializeContent]
    simp [deserializeContent, elementsInfo, elementsDropInInfo, stringAt_of_drop h0, transmitted]
  | multiinsertIn =>
    exact strideLoop_list insertSizes serializeInsert deserializeInsert (by decide) (fun _ => rfl)
      (fun a _ _ _ _ _ _ => deserializeInsert_serializeInsert a) content
  | describeOut =>
    exact strideLoop_list metadataSizes serializeMetadata deserializeMetadata (by decide)
      (fun _ => rfl) (fun a _ _ _ _ _ _ => deserializeMetadata_serializeMetadata a) content
  | gossipIn | gossipOut =>
    exact strideLoop_list memorySizes serializeMemory deserializeMemory (by decide) (fun _ => rfl)
      (fun a _ _ _ _ _ _ => deserializeMemory_serializeMemory a) content
  | handshakeIn | handshakeOut | journalIn | valueIn | last => rfl

end Lissandra
