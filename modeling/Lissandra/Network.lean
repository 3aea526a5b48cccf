import Lissandra.Serializer
import Mathlib.Algebra.Order.BigOperators.Group.List
import Mathlib.Algebra.Order.Group.Nat

/-! # Packets on a stream socket

`network.c`.  `send2` writes
`[process|operation|keep_alive|elements|elements_size|success][content]` and `recv2` reads it
back in three parts: a prefix of fixed width, the sizes with the success flag, the content.
TCP keeps the bytes and their order but not their grouping, so a socket is the list of
segments that successive calls of `recv` find; nothing below depends on where the cuts are
(`recvAll_flatten`).

`recv2` takes `elements` from one signed byte of the four it was sent in
(`charAt`, `recv2_send2`).  A packet therefore arrives whole exactly when it has at most
127 elements and its length is an `int` (`roundTrips_iff`).
-/
namespace Lissandra

/-- `INT_MAX`. -/
def intMax : Int := 2147483647

/-! ## Enumerators as bytes -/

def Process.toInt : Process → Int32
  | .unknown => 0
  | .kernel => 1
  | .filesystem => 2
  | .memory => 3

/-- A cast to `process_t`.  Nothing tells a number outside the enumeration from
`UNKNOWN`: `valid_source` rejects both. -/
def Process.ofInt (i : Int32) : Process :=
  if i = 1 then .kernel else if i = 2 then .filesystem else if i = 3 then .memory else .unknown

def SocketOperation.all : List SocketOperation :=
  [.handshakeIn, .handshakeOut, .selectIn, .selectOut, .insertIn, .insertOut, .createIn,
    .createOut, .describeIn, .describeOut, .dropIn, .dropOut, .journalIn, .journalOut, .gossipIn,
    .gossipOut, .valueIn, .valueOut, .multiinsertIn, .multiinsertOut, .last]

def SocketOperation.toInt (operation : SocketOperation) : Int32 :=
  Int32.ofNat (SocketOperation.all.idxOf operation)

/-- A cast to `socket_operation_t`.  A number outside the enumeration is as little an
index of the callbacks as `_LAST` is. -/
def SocketOperation.ofInt (i : Int32) : SocketOperation :=
  if i < 0 then .last else SocketOperation.all.getD i.toNatClampNeg .last

/-! ## The packet -/

/-- `header_t`. -/
structure Header where
  process : Process
  operation : SocketOperation
  keepAlive : Bool
  elements : Int32
  elementsSize : List Int32
  success : Bool
  deriving DecidableEq

/-- `packet_t`; a `NULL` content is the empty one. -/
structure Packet where
  header : Header
  content : Bytes
  deriving DecidableEq

/-- The content bytes a header announces. -/
def Header.contentLength (header : Header) : Int := (header.elementsSize.map Int32.toInt).sum

/-- The bytes of the content that belong to the packet: those its sizes announce. -/
def Packet.payload (packet : Packet) : Bytes :=
  packet.content.take packet.header.contentLength.toNat

/-- A packet whose parts fit together, as `build_packet` makes them: one size for each
element, no size negative, and as many content bytes as the sizes add up to. -/
structure BuiltPacket extends Packet where
  elements_eq : header.elements.toInt = header.elementsSize.length
  sizes_nonneg : ∀ size ∈ header.elementsSize, 0 ≤ size.toInt
  content_length : (content.length : Int) = header.contentLength

/-- `build_packet`, with the sizes of the matching `elements_*_info`. -/
def buildPacket (process : Process) (operation : SocketOperation) (keepAlive : Bool)
    (content : Content operation) (success : Bool) : Packet where
  header :=
    { process, operation, keepAlive, success
      elements := Int32.ofNat (elementsInfo operation content).elements
      elementsSize := (elementsInfo operation content).elementsSize.map Int32.ofNat }
  content := serializeContent operation content

/-! ## Sending -/

/-- The whole length of a packet, `wrapper_length`. -/
def Packet.wrapperLength (packet : Packet) : Int :=
  4 + 4 + 1 + 4 + 4 * packet.header.elements.toInt + 1 + packet.header.contentLength

/-- The bytes `send2` lays out in `send_wrapper`. -/
def Packet.wrapper (packet : Packet) : Bytes :=
  int32Codec.encode packet.header.process.toInt
    ++ int32Codec.encode packet.header.operation.toInt
    ++ boolCodec.encode packet.header.keepAlive
    ++ int32Codec.encode packet.header.elements
    ++ packet.header.elementsSize.flatMap int32Codec.encode
    ++ boolCodec.encode packet.header.success
    ++ packet.content

/-- `send2`.  `wrapper_length` is an `int`: past `INT_MAX` the sum overflows and the
buffer for the copies does not exist. -/
def send2 (packet : Packet) : Option Bytes :=
  if packet.wrapperLength ≤ intMax then some packet.wrapper else none

/-! ## Receiving -/

/-- A connection: the segments that successive calls of `recv` find.  At the end of the
list the peer has closed it. -/
abbrev Socket := List Bytes

/-- `recv`: at most `bytesToRead` bytes of the next segment; no byte when closed. -/
def recv (bytesToRead : Nat) : Socket → Bytes × Socket
  | [] => ([], [])
  | segment :: rest =>
    if segment.length ≤ bytesToRead then (segment, rest)
    else (segment.take bytesToRead, segment.drop bytesToRead :: rest)

/-- The loop of `__recv`, after `stored` bytes: its return value, the bytes in the
buffer, the socket.  A round reads at least one byte, so `bytesToRead` rounds are
enough. -/
def recvLoop : Nat → Nat → Bytes → Socket → Int × Bytes × Socket
  | 0, _, stored, socket => (stored.length, stored, socket)
  | fuel + 1, bytesToRead, stored, socket =>
    if bytesToRead = 0 then (stored.length, stored, socket)
    else
      let (bytes, socket) := recv bytesToRead socket
      if bytes.length = 0 then (0, stored, socket)
      else recvLoop fuel (bytesToRead - bytes.length) (stored ++ bytes) socket

/-- `__recv`. -/
def recvAll (bytesToRead : Nat) (socket : Socket) : Int × Bytes × Socket :=
  recvLoop bytesToRead bytesToRead [] socket

/-- A `malloc`ed buffer of `n` bytes that `stored` was read into: what was not read is
`garbage`. -/
def buffer (garbage : Nat → Byte) (n : Nat) (stored : Bytes) : Bytes :=
  (List.range n).map fun i => stored.getD i (garbage i)

/-- `*(partial_buffer + offset)`: one `char`, which is signed. -/
def charAt (buf : Bytes) (offset : Nat) : Int32 := (buf.getD offset 0).toInt8.toInt32

/-- The array copied into `elements_size`. -/
def sizesAt : Nat → Bytes → List Int32
  | 0, _ => []
  | elements + 1, buf => (scalarAt int32Codec buf 0).getD 0 :: sizesAt elements (buf.drop 4)

/-- `recv2`: its return value, the packet and the socket.  `none` is a crash: a negative
count asks for a buffer that cannot be had, and a content length past `INT_MAX`
overflows. -/
def recv2 (garbage : Nat → Byte) (socket : Socket) (packet : Packet) :
    Option (Int × Packet × Socket) :=
  let partialHeaderSize := 4 + 4 + 1 + 4
  let (read, stored, socket) := recvAll partialHeaderSize socket
  if read ≤ 0 then some (read, packet, socket)
  else
    let partialBuffer := buffer garbage partialHeaderSize stored
    let process := Process.ofInt (charAt partialBuffer 0)
    let operation := SocketOperation.ofInt (charAt partialBuffer 4)
    let keepAlive := partialBuffer.getD 8 0 != 0
    let elements := charAt partialBuffer 9
    if elements < 0 then none
    else
      let n := elements.toNatClampNeg
      let (read', stored, socket) := recvAll (4 * n + 1) socket
      let partialBuffer := buffer garbage (4 * n + 1) stored
      let success := partialBuffer.getD (4 * n) 0 != 0
      let header : Header := ⟨process, operation, keepAlive, elements, sizesAt n partialBuffer,
        success⟩
      if n = 0 then some (read + read', ⟨header, packet.content⟩, socket)
      else if header.contentLength ≤ intMax then
        let total := header.contentLength.toNat
        let (read'', stored, socket) := recvAll total socket
        some (read + read' + read'', ⟨header, buffer garbage total stored⟩, socket)
      else none

/-- A packet arrives whole: `send2` writes it, and on any socket that carries the bytes it
wrote and then others, however they are cut into segments and whatever the receiving
packet held, `recv2` gives back the header and the content and leaves the others. -/
def RoundTrips (packet : Packet) : Prop :=
  ∃ bytes, send2 packet = some bytes ∧
    ∀ (garbage : Nat → Byte) (old : Packet) (socket : Socket) (rest : Bytes),
      (∀ segment ∈ socket, segment ≠ []) → socket.flatten = bytes ++ rest →
      ∃ received socket', recv2 garbage socket old =
      some ((bytes.length : Int), received, socket') ∧
        received.header = packet.header ∧ received.payload = packet.content ∧
        socket'.flatten = rest

/-! ## Reading from a cut stream -/

theorem recv_spec {n : Nat} (hn : 0 < n) {socket : Socket} (hseg : ∀ segment ∈ socket, segment ≠ [])
    (hne : socket.flatten ≠ []) :
    ∃ bytes socket', recv n socket = (bytes, socket') ∧ 0 < bytes.length ∧ bytes.length ≤ n ∧
      bytes ++ socket'.flatten = socket.flatten ∧ ∀ segment ∈ socket', segment ≠ [] := by
  cases socket with
  | nil => exact absurd rfl hne
  | cons segment rest =>
    have hpos : 0 < segment.length := List.length_pos_iff.mpr (hseg segment (by simp))
    rw [recv]
    split
    · exact ⟨segment, rest, rfl, hpos, ‹_›, rfl, fun s hs => hseg s (List.mem_cons_of_mem _ hs)⟩
    · rename_i hlong
      refine ⟨_, _, rfl, by simp; omega, by simp, ?_, ?_⟩
      · simp [← List.append_assoc, List.take_append_drop]
      · intro s hs
        rcases List.mem_cons.mp hs with rfl | hs
        · simp; omega
        · exact hseg s (List.mem_cons_of_mem _ hs)

theorem recvLoop_flatten : ∀ (fuel n : Nat) (stored : Bytes) (socket : Socket), n ≤ fuel →
    (∀ segment ∈ socket, segment ≠ []) → n ≤ socket.flatten.length →
    ∃ socket', recvLoop fuel n stored socket =
        (((stored ++ socket.flatten.take n).length : Int), stored ++ socket.flatten.take n,
          socket') ∧
      socket'.flatten = socket.flatten.drop n ∧ ∀ segment ∈ socket', segment ≠ [] := by
  intro fuel
  induction fuel with
  | zero =>
    intro n stored socket hn hseg _
    obtain rfl : n = 0 := Nat.le_zero.mp hn
    exact ⟨socket, by simp [recvLoop], by simp, hseg⟩
  | succ fuel ih =>
    intro n stored socket hn hseg hlen
    rw [recvLoop]
    by_cases hzero : n = 0
    · subst hzero
      exact ⟨socket, by simp, by simp, hseg⟩
    · rw [if_neg hzero]
      have hne : socket.flatten ≠ [] := fun h => by rw [h] at hlen; simp at hlen; exact hzero hlen
      obtain ⟨bytes, socket₁, hrecv, hpos, hle, happ, hseg'⟩ :=
        recv_spec (Nat.pos_of_ne_zero hzero) hseg hne
      have hlen₁ : n - bytes.length ≤ socket₁.flatten.length := by
        have := congrArg List.length happ
        rw [List.length_append] at this
        omega
      obtain ⟨socket', hrun, hflat, hseg''⟩ :=
        ih (n - bytes.length) (stored ++ bytes) socket₁ (by omega) hseg' hlen₁
      have htake : socket.flatten.take n = bytes ++ socket₁.flatten.take (n - bytes.length) := by
        rw [← happ, List.take_append, List.take_of_length_le hle]
      have hdrop : socket.flatten.drop n = socket₁.flatten.drop (n - bytes.length) := by
        rw [← happ, List.drop_append, List.drop_of_length_le hle, List.nil_append]
      refine ⟨socket', ?_, by rw [hflat, hdrop], hseg''⟩
      simp only [hrecv]
      rw [if_neg (by omega), hrun, htake, List.append_assoc]

/-- **The cuts do not matter**: `__recv` returns the next `n` bytes of the stream. -/
theorem recvAll_flatten {field rest : Bytes} {socket : Socket}
    (hseg : ∀ segment ∈ socket, segment ≠ []) (hflat : socket.flatten = field ++ rest) :
    ∃ socket', recvAll field.length socket = ((field.length : Int), field, socket') ∧
      socket'.flatten = rest ∧ ∀ segment ∈ socket', segment ≠ [] := by
  obtain ⟨socket', hrun, hrest, hseg'⟩ :=
    recvLoop_flatten field.length field.length [] socket le_rfl hseg (by simp [hflat])
  rw [hflat] at hrun hrest
  exact ⟨socket', by simpa [recvAll] using hrun, by simpa using hrest, hseg'⟩

@[simp] theorem buffer_length (garbage : Nat → Byte) (stored : Bytes) :
    buffer garbage stored.length stored = stored := by
  refine List.ext_getElem (by simp [buffer]) fun i _ h => ?_
  simp [buffer, h]

/-! ## What the fixed part of the header says -/

theorem Process.ofInt_charAt (process : Process) (rest : Bytes) :
    Process.ofInt (charAt (int32Codec.encode process.toInt ++ rest) 0) = process := by
  cases process <;> rfl

theorem SocketOperation.ofInt_charAt (operation : SocketOperation) (rest : Bytes) :
    SocketOperation.ofInt (charAt (int32Codec.encode operation.toInt ++ rest) 0) = operation := by
  cases operation <;> rfl

theorem charAt_drop (pre rest : Bytes) (offset : Nat) (h : offset = pre.length) :
    charAt (pre ++ rest) offset = charAt rest 0 := by
  rw [charAt, charAt, List.getD_eq_getElem?_getD, List.getD_eq_getElem?_getD, h,
    List.getElem?_append_right le_rfl, Nat.sub_self]

/-- One byte of the count is read, and it has a sign. -/
theorem charAt_le (buf : Bytes) (offset : Nat) : (charAt buf offset).toInt ≤ 127 := by
  have h := ((buf.getD offset 0).toInt8).toInt_lt
  rw [charAt, Int8.toInt_toInt32]
  omega

theorem flag_getD (pre : Bytes) (flag : Bool) (rest : Bytes) :
    ((pre ++ (boolCodec.encode flag ++ rest)).getD pre.length 0 != 0) = flag := by
  rw [List.getD_eq_getElem?_getD, List.getElem?_append_right le_rfl, Nat.sub_self]
  cases flag <;> rfl

theorem charAt_count {n : Nat} (hn : n ≤ 127) (rest : Bytes) :
    charAt (int32Codec.encode (Int32.ofNat n) ++ rest) 0 = Int32.ofNat n := by
  have key : ∀ k : Fin 128,
      (UInt8.ofNat (Int32.ofNat k).toUInt32.toNat).toInt8.toInt32 = Int32.ofNat k := by decide
  exact key ⟨n, by omega⟩

theorem sizesAt_encode (sizes : List Int32) (rest : Bytes) :
    sizesAt sizes.length (sizes.flatMap int32Codec.encode ++ rest) = sizes := by
  induction sizes with
  | nil => rfl
  | cons size sizes ih =>
    have h0 : (int32Codec.encode size ++ (sizes.flatMap int32Codec.encode ++ rest)).drop 0
        = int32Codec.encode size ++ (sizes.flatMap int32Codec.encode ++ rest) := rfl
    have h1 := drop_scalar h0
    rw [List.length_cons, List.flatMap_cons, List.append_assoc, sizesAt, scalarAt_of_drop h0]
    rw [Nat.zero_add, int32Codec_width] at h1
    rw [h1, ih, Option.getD_some]

theorem BuiltPacket.elements_ofNat (packet : BuiltPacket) :
    packet.header.elements = Int32.ofNat packet.header.elementsSize.length := by
  rw [← Int32.ofInt_toInt packet.header.elements, packet.elements_eq]
  rfl

/-! ## When a packet arrives whole -/

/-- Whatever `recv2` makes of a packet, it has at most 127 elements. -/
theorem recv2_elements_le {garbage : Nat → Byte} {socket socket' : Socket} {old received : Packet}
    {read : Int} (h : recv2 garbage socket old = some (read, received, socket')) :
    received = old ∨ received.header.elements.toInt ≤ 127 := by
  unfold recv2 at h
  simp only at h
  split at h
  · left
    simp only [Option.some.injEq, Prod.mk.injEq] at h
    exact h.2.1.symm
  · right
    split at h
    · cases h
    · split at h
      · simp only [Option.some.injEq, Prod.mk.injEq] at h
        rw [← h.2.1]
        exact charAt_le _ _
      · split at h
        · simp only [Option.some.injEq, Prod.mk.injEq] at h
          rw [← h.2.1]
          exact charAt_le _ _
        · cases h

/-- A packet with more elements is not read as what it is. -/
theorem not_roundTrips_of_elements {packet : Packet} (h : 127 < packet.header.elements.toInt) :
    ¬ RoundTrips packet := by
  rintro ⟨bytes, _, hrecv⟩
  let empty : Packet := ⟨{ packet.header with elements := 0 }, []⟩
  obtain ⟨received, socket', hrun, hheader, -, -⟩ :=
    hrecv (fun _ => 0) empty ([bytes].filter (· ≠ [])) [] (by simp) (by
      by_cases hb : bytes = [] <;> simp [hb])
  rcases recv2_elements_le hrun with rfl | hle
  · have := congrArg Header.elements hheader
    have hzero : (0 : Int32).toInt = 0 := by decide
    rw [← this, hzero] at h
    omega
  · rw [hheader] at hle
    omega

/-- The first thirteen bytes: process, operation, `keep_alive`, `elements`. -/
def Header.start (header : Header) : Bytes :=
  int32Codec.encode header.process.toInt ++ (int32Codec.encode header.operation.toInt
    ++ (boolCodec.encode header.keepAlive ++ int32Codec.encode header.elements))

/-- The sizes and the success flag. -/
def Header.sizes (header : Header) : Bytes :=
  header.elementsSize.flatMap int32Codec.encode ++ boolCodec.encode header.success

theorem Packet.wrapper_eq (packet : Packet) :
    packet.wrapper = packet.header.start ++ (packet.header.sizes ++ packet.content) := by
  simp [Packet.wrapper, Header.start, Header.sizes, List.append_assoc]

@[simp] theorem Header.start_length (header : Header) : header.start.length = 13 := by
  simp [Header.start]

theorem flatMap_int32_length (sizes : List Int32) :
    (sizes.flatMap int32Codec.encode).length = 4 * sizes.length := by
  induction sizes with
  | nil => rfl
  | cons size sizes ih => simp [ih, Nat.mul_succ, Nat.add_comm]

@[simp] theorem Header.sizes_length (header : Header) :
    header.sizes.length = 4 * header.elementsSize.length + 1 := by
  rw [Header.sizes, List.length_append, flatMap_int32_length]
  simp

theorem Header.start_fields (header : Header) :
    Process.ofInt (charAt header.start 0) = header.process ∧
    SocketOperation.ofInt (charAt header.start 4) = header.operation ∧
    (header.start.getD 8 0 != 0) = header.keepAlive := by
  refine ⟨Process.ofInt_charAt _ _, ?_, ?_⟩
  · rw [Header.start, charAt_drop _ _ 4 (by simp), SocketOperation.ofInt_charAt]
  · rw [Header.start, ← List.append_assoc]
    exact flag_getD _ _ _

theorem BuiltPacket.charAt_elements (packet : BuiltPacket)
    (hn : packet.header.elements.toInt ≤ 127) :
    charAt packet.header.start 9 = packet.header.elements := by
  have hle : packet.header.elementsSize.length ≤ 127 := by
    have := packet.elements_eq
    omega
  have hcount := charAt_count hle []
  rw [List.append_nil] at hcount
  rw [packet.elements_ofNat, ← hcount, Header.start, ← List.append_assoc, ← List.append_assoc,
    charAt_drop _ _ 9 (by simp), packet.elements_ofNat]

theorem Header.sizes_fields (header : Header) :
    sizesAt header.elementsSize.length header.sizes = header.elementsSize ∧
    (header.sizes.getD (4 * header.elementsSize.length) 0 != 0) = header.success := by
  refine ⟨sizesAt_encode _ _, ?_⟩
  have hflag := flag_getD (header.elementsSize.flatMap int32Codec.encode) header.success []
  rwa [flatMap_int32_length, List.append_nil] at hflag

/-- The three reads of `recv2`, on a stream that starts with the packet's bytes. -/
theorem recv2_wrapper (packet : BuiltPacket) (hn : packet.header.elements.toInt ≤ 127)
    (hfit : packet.wrapperLength ≤ intMax) (garbage : Nat → Byte) (old : Packet) {socket : Socket}
    {rest : Bytes} (hseg : ∀ segment ∈ socket, segment ≠ [])
    (hflat : socket.flatten = packet.wrapper ++ rest) :
    ∃ content socket', recv2 garbage socket old =
        some ((packet.wrapper.length : Int), ⟨packet.header, content⟩, socket') ∧
      (packet.header.elementsSize ≠ [] → content = packet.content) ∧ socket'.flatten = rest := by
  have hcount := packet.elements_eq
  have hnat : packet.header.elements.toNatClampNeg = packet.header.elementsSize.length := by
    rw [Int32.toNatClampNeg, hcount, Int.toNat_natCast]
  have hnonneg : ¬ packet.header.elements < 0 := by
    rw [Int32.lt_iff_toInt_lt, hcount]
    simp
  have hcontent : packet.header.contentLength ≤ intMax := by
    rw [Packet.wrapperLength] at hfit
    omega
  rw [packet.wrapper_eq, List.append_assoc, List.append_assoc] at hflat
  obtain ⟨socket₁, hrun₁, hflat₁, hseg₁⟩ := recvAll_flatten hseg hflat
  obtain ⟨socket₂, hrun₂, hflat₂, hseg₂⟩ := recvAll_flatten hseg₁ hflat₁
  obtain ⟨socket₃, hrun₃, hflat₃, -⟩ := recvAll_flatten hseg₂ hflat₂
  obtain ⟨hprocess, hoperation, hkeep⟩ := packet.header.start_fields
  obtain ⟨hsizes, hsuccess⟩ := packet.header.sizes_fields
  have hbuf₁ := buffer_length garbage packet.header.start
  have hbuf₂ := buffer_length garbage packet.header.sizes
  have hbuf₃ := buffer_length garbage packet.content
  rw [Header.start_length] at hrun₁ hbuf₁
  rw [Header.sizes_length] at hrun₂ hbuf₂
  have hlen : packet.header.contentLength.toNat = packet.content.length := by
    rw [← packet.content_length, Int.toNat_natCast]
  rw [recv2]
  simp only [Nat.reduceAdd, hrun₁, hbuf₁, hprocess, hoperation, hkeep, packet.charAt_elements hn,
    hnat, hrun₂, hbuf₂, hsizes, hsuccess]
  rw [if_neg (by decide), if_neg hnonneg]
  rw [packet.wrapper_eq]
  by_cases hnil : packet.header.elementsSize = []
  · have hempty : packet.content = [] := by
      have := packet.content_length
      exact List.length_eq_zero_iff.mp (by simp_all [Header.contentLength])
    refine ⟨old.content, socket₂, ?_, fun h => absurd hnil h, by simpa [hempty] using hflat₂⟩
    rw [if_pos (by rw [hnil]; rfl)]
    simp [hempty]
  · refine ⟨packet.content, socket₃, ?_, fun _ => rfl, hflat₃⟩
    rw [if_neg (fun h => hnil (List.length_eq_zero_iff.mp h)), if_pos hcontent]
    have hself : (⟨packet.header.process, packet.header.operation, packet.header.keepAlive,
      packet.header.elements, packet.header.elementsSize, packet.header.success⟩ : Header)
        = packet.header := rfl
    simp only [hself, hlen, hrun₃, hbuf₃]
    simp [Int.add_assoc]

/-- A packet with at most 127 elements whose length is an `int` arrives whole. -/
theorem roundTrips_of_elements (packet : BuiltPacket)
    (hn : packet.header.elements.toInt ≤ 127) (hfit : packet.wrapperLength ≤ intMax) :
    RoundTrips packet.toPacket := by
  refine ⟨packet.wrapper, by rw [send2, if_pos hfit], ?_⟩
  intro garbage old socket rest hseg hflat
  obtain ⟨content, socket', hrun, hcontent, hrest⟩ :=
    recv2_wrapper packet hn hfit garbage old hseg hflat
  refine ⟨_, socket', hrun, rfl, ?_, hrest⟩
  have hlen := packet.content_length
  by_cases hnil : packet.header.elementsSize = []
  · have hzero : packet.header.contentLength = 0 := by simp [Header.contentLength, hnil]
    have : packet.content = [] := List.length_eq_zero_iff.mp (by omega)
    simp [Packet.payload, hzero, this]
  · rw [Packet.payload, hcontent hnil, ← hlen, Int.toNat_natCast, List.take_length]

/-- **Exactly the packets that arrive whole**: at most 127 elements, and a length that is
an `int`. -/
theorem roundTrips_iff (packet : BuiltPacket) :
    RoundTrips packet.toPacket ↔
      packet.header.elements.toInt ≤ 127 ∧ packet.wrapperLength ≤ intMax := by
  constructor
  · intro h
    refine ⟨Int.not_lt.mp fun hlt => not_roundTrips_of_elements hlt h, ?_⟩
    obtain ⟨bytes, hsend, -⟩ := h
    rw [send2] at hsend
    split at hsend
    · assumption
    · cases hsend
  · rintro ⟨hn, hfit⟩
    exact roundTrips_of_elements packet hn hfit

/-! ## Messages -/

theorem Int32.toInt_ofNat_of_le {n : Nat} (h : (n : Int) ≤ intMax) : (Int32.ofNat n).toInt = n := by
  rw [intMax] at h
  exact Int32.toInt_ofNat_of_lt (by omega)

/-- Sizes that add up to an `int` are `int`s. -/
theorem toInt_ofNat_of_mem {sizes : List Nat} (h : (sizes.sum : Int) ≤ intMax) {n : Nat}
    (hn : n ∈ sizes) : (Int32.ofNat n).toInt = n := by
  have hle : n ≤ sizes.sum := List.single_le_sum (fun _ _ => Nat.zero_le _) n hn
  exact Int32.toInt_ofNat_of_le (by omega)

theorem sum_toInt_ofNat {sizes : List Nat} (h : (sizes.sum : Int) ≤ intMax) :
    ((sizes.map Int32.ofNat).map Int32.toInt).sum = sizes.sum := by
  have hmap : sizes.map (Int32.toInt ∘ Int32.ofNat) = sizes.map (fun n : Nat => (n : Int)) :=
    List.map_congr_left fun n hn => toInt_ofNat_of_mem h hn
  rw [List.map_map, hmap]
  clear h hmap
  induction sizes with
  | nil => rfl
  | cons n sizes ih =>
    rw [List.map_cons, List.sum_cons, List.sum_cons, ih]
    omega

/-- A message whose content length and number of elements are `int`s gives a packet whose
parts fit together. -/
def BuiltPacket.ofContent (process : Process) (operation : SocketOperation) (keepAlive : Bool)
    (content : Content operation) (success : Bool)
    (helements : ((elementsInfo operation content).elements : Int) ≤ intMax)
    (hlength : ((elementsInfo operation content).contentLength : Int) ≤ intMax) : BuiltPacket where
  toPacket := buildPacket process operation keepAlive content success
  elements_eq := by
    simp only [buildPacket, List.length_map, Int32.toInt_ofNat_of_le helements,
      (elementsInfo operation content).length_eq]
  sizes_nonneg := by
    intro size hsize
    obtain ⟨n, hn, rfl⟩ := List.mem_map.mp hsize
    rw [toInt_ofNat_of_mem hlength hn]
    exact Int.natCast_nonneg n
  content_length := by
    rw [buildPacket, length_serializeContent, Header.contentLength]
    exact (sum_toInt_ofNat hlength).symm

/-- **A message arrives**: `deserialize_content` of what `recv2` read is the value that was
sent, provided it has at most 127 elements. -/
theorem deserializeContent_recv2 {process : Process} {operation : SocketOperation}
    {keepAlive success : Bool} {content : Content operation}
    (helements : (elementsInfo operation content).elements ≤ 127)
    (hlength : ((elementsInfo operation content).contentLength : Int) ≤ intMax)
    (hfit : (buildPacket process operation keepAlive content success).wrapperLength ≤ intMax)
    {garbage : Nat → Byte} {old : Packet} {socket : Socket} {rest : Bytes}
    (hseg : ∀ segment ∈ socket, segment ≠ [])
    (hflat : socket.flatten = (buildPacket process operation keepAlive content success).wrapper ++
      rest) :
    ∃ read received socket', recv2 garbage socket old = some (read, received, socket') ∧
      received.header.operation = operation ∧
      deserializeContent received.payload operation received.header.elements.toNatClampNeg
          (received.header.elementsSize.map Int32.toNatClampNeg)
        = some (transmitted operation content) ∧
      socket'.flatten = rest := by
  have hbound : ((elementsInfo operation content).elements : Int) ≤ intMax :=
    le_trans (Int.ofNat_le.mpr helements) (by decide)
  let packet := BuiltPacket.ofContent process operation keepAlive content success hbound hlength
  have hn : packet.header.elements.toInt = (elementsInfo operation content).elements :=
    Int32.toInt_ofNat_of_le hbound
  obtain ⟨bytes, hsend, hrecv⟩ := roundTrips_of_elements packet (by omega) hfit
  obtain rfl : packet.wrapper = bytes := by
    have hsent : send2 packet.toPacket = some packet.wrapper := by rw [send2]; exact if_pos hfit
    exact Option.some.inj (hsent.symm.trans hsend)
  obtain ⟨received, socket', hrun, hheader, hpayload, hrest⟩ :=
    hrecv garbage old socket rest hseg hflat
  refine ⟨_, received, socket', hrun, by rw [hheader]; rfl, ?_, hrest⟩
  have hcount : received.header.elements.toNatClampNeg =
    (elementsInfo operation content).elements := by
    rw [hheader, Int32.toNatClampNeg, hn, Int.toNat_natCast]
  have hsizes : received.header.elementsSize.map Int32.toNatClampNeg
      = (elementsInfo operation content).elementsSize := by
    rw [hheader]
    change ((elementsInfo operation content).elementsSize.map Int32.ofNat).map _ = _
    rw [List.map_map]
    refine (List.map_congr_left fun n hmem => ?_).trans (List.map_id _)
    rw [Function.comp, Int32.toNatClampNeg, toInt_ofNat_of_mem hlength hmem, Int.toNat_natCast, id]
  rw [hcount, hsizes, hpayload]
  exact (deserializeContent_serializeContent operation content).2

/-- Thirty-two records of a journal make 128 elements, and `recv2` reads −128. -/
theorem not_roundTrips_multiinsert :
    ¬ RoundTrips (BuiltPacket.ofContent .memory .multiinsertIn true
        (List.replicate 32 ⟨⟨[84], by decide⟩, 1, ⟨[97], by decide⟩, 10⟩) true
        (by decide) (by decide +kernel)).toPacket :=
  not_roundTrips_of_elements (by decide +kernel)

end Lissandra
