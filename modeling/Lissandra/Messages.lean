import Lissandra.Network

/-! # Messages

A payload with its operation, which one process sends and another one receives: `send2` on one
side, `recv2` and `deserialize_content` on the other.  A message within the limits of the format
arrives as it was sent, in whatever pieces (`Message.Small.deliver_eq`).  Of another one `recv2`
takes the number of its elements for what one byte with a sign makes of it.
-/
namespace Lissandra

/-- A payload and the operation that says what it is. -/
structure Message where
  operation : SocketOperation
  content : Content operation

/-- What a packet gives to a callback; `none` is a read outside its content. -/
def Packet.message (packet : Packet) : Option Message :=
  (deserializeContent packet.payload packet.header.operation
      packet.header.elements.toNatClampNeg
      (packet.header.elementsSize.map Int32.toNatClampNeg)).map fun content =>
    ⟨packet.header.operation, content⟩

/-- The message that a caller is told. -/
def Message.told (message : Message) : Message :=
  ⟨message.operation, transmitted message.operation message.content⟩

/-- A socket that has these bytes, in pieces. -/
def Carries (socket : Socket) (bytes : Bytes) : Prop := [] ∉ socket ∧ socket.flatten = bytes

instance (socket : Socket) (bytes : Bytes) : Decidable (Carries socket bytes) :=
  inferInstanceAs (Decidable (_ ∧ _))

/-- How a message comes: its pieces, and what the receiver's memory has before. -/
structure Delivery where
  socket : Socket
  garbage : Nat → Byte
  packet : Packet

/-! ## Small messages -/

/-- The limits of the format: at most 127 elements, and a length that is an `int`. -/
structure Message.Small (message : Message) : Prop where
  elements_le : (elementsInfo message.operation message.content).elements ≤ 127
  length_le : (14 + 4 * (elementsInfo message.operation message.content).elements +
    (elementsInfo message.operation message.content).contentLength : Int) ≤ intMax

instance : DecidablePred Message.Small := fun _ =>
  decidable_of_iff (_ ∧ _) ⟨fun h => ⟨h.1, h.2⟩, fun h => ⟨h.elements_le, h.length_le⟩⟩

section Messages
variable {process : Process} {message : Message} {keepAlive success : Bool}

/-- The packet of a message. -/
def Message.packet (message : Message) (process : Process) (keepAlive success : Bool) : Packet :=
  buildPacket process message.operation keepAlive message.content success

/-- What another process reads of a message, in the only packet of its stream. -/
def Message.deliver (message : Message) (process : Process) (delivery : Delivery) :
    Option Message := do
  let bytes ← send2 (message.packet process false true)
  if Carries delivery.socket bytes then
    let (_, packet, _) ← recv2 delivery.garbage delivery.socket delivery.packet
    packet.message
  else none

theorem Message.Small.wrapperLength_eq (h : message.Small) :
    (message.packet process keepAlive success).wrapperLength =
      14 + 4 * (elementsInfo message.operation message.content).elements +
        (elementsInfo message.operation message.content).contentLength := by
  have helements := h.elements_le
  have hlength := h.length_le
  have hcount : ((elementsInfo message.operation message.content).elements : Int) ≤ intMax := by
    unfold intMax
    omega
  have hsum :
      ((elementsInfo message.operation message.content).elementsSize.sum : Int) ≤ intMax := by
    unfold ElementsNetwork.contentLength at hlength
    omega
  rw [Packet.wrapperLength, Message.packet, buildPacket, Header.contentLength,
    Int32.toInt_ofNat_of_le hcount, sum_toInt_ofNat hsum]
  unfold ElementsNetwork.contentLength
  omega

/-- What `send2` writes for it. -/
theorem Message.Small.send2_eq (h : message.Small) :
    send2 (message.packet process keepAlive success) =
      some (message.packet process keepAlive success).wrapper := by
  rw [send2, if_pos (h.wrapperLength_eq.trans_le h.length_le)]

/-- **A message is received** by one `recv2`, in whatever pieces it comes. -/
theorem Message.Small.recv2_eq (h : message.Small) {garbage : Nat → Byte} {old : Packet}
    {socket : Socket} {rest : Bytes}
    (hcarries : Carries socket ((message.packet process keepAlive success).wrapper ++ rest)) :
    ∃ received packet socket', recv2 garbage socket old = some (received, packet, socket') ∧
      0 < received ∧ packet.header = (message.packet process keepAlive success).header ∧
      packet.message =
        some ⟨message.operation, transmitted message.operation message.content⟩ ∧
      socket'.flatten = rest := by
  have helements := h.elements_le
  have hlength := h.length_le
  have hfit : (message.packet process keepAlive success).wrapperLength ≤ intMax :=
    h.wrapperLength_eq.trans_le hlength
  have hcontent : ((elementsInfo message.operation message.content).contentLength : Int) ≤
      intMax := by omega
  have hcount : ((elementsInfo message.operation message.content).elements : Int) ≤ intMax := by
    unfold intMax
    omega
  have hseg : ∀ segment ∈ socket, segment ≠ [] :=
    fun segment hmem hnil => hcarries.1 (hnil ▸ hmem)
  let built := BuiltPacket.ofContent process message.operation keepAlive message.content success
    hcount hcontent
  have hn : built.header.elements.toInt ≤ 127 :=
    (Int32.toInt_ofNat_of_le hcount).trans_le (Int.ofNat_le.mpr helements)
  obtain ⟨content, socket', hrun, -, hrest⟩ :=
    recv2_wrapper built hn hfit garbage old hseg hcarries.2
  obtain ⟨read, received, socket'', hrun', -, hpayload, -⟩ :=
    @deserializeContent_recv2 _ _ _ success _ helements hcontent hfit garbage old _ _ hseg
      hcarries.2
  -- both lemmas are about the same call
  obtain ⟨-, hsame⟩ := Prod.mk.inj (Option.some.inj (hrun'.symm.trans hrun))
  obtain ⟨rfl, -⟩ := Prod.mk.inj hsame
  refine ⟨_, _, socket', hrun, ?_, rfl, ?_, hrest⟩
  · rw [built.wrapper_eq, List.length_append, Header.start_length]
    omega
  · exact congrArg (Option.map (Message.mk message.operation)) hpayload

/-- **A small message arrives** as it was sent. -/
theorem Message.Small.deliver_eq (h : message.Small) {delivery : Delivery} {received : Message}
    (hdeliver : message.deliver process delivery = some received) : received = message.told := by
  unfold Message.deliver at hdeliver
  rw [h.send2_eq, Option.bind_eq_bind, Option.bind_some] at hdeliver
  split at hdeliver
  · rename_i hcarries
    rw [← List.append_nil (Packet.wrapper _)] at hcarries
    obtain ⟨n, packet, socket', hrun, -, -, hmessage, -⟩ :=
      @Message.Small.recv2_eq _ _ _ _ h delivery.garbage delivery.packet _ _ hcarries
    rw [hrun, Option.bind_eq_bind, Option.bind_some] at hdeliver
    exact Option.some.inj (hdeliver.symm.trans hmessage)
  · cases hdeliver

end Messages

end Lissandra
