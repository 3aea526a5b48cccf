import Lissandra.Messages
import Lissandra.RequestServer
import Lissandra.Linearization
import Lissandra.Runs

/-! # Calls of another process

`do_request` of `generic_client.c` against `handle_request` of `generic_server.c`.  A call is a
thread of its own with a connection of its own: it shakes hands, sends one request and waits for
the answer; a thread of the server answers the handshake, calls back, waits for the response and
closes.  Calls run at the same time, bytes arrive in any pieces, and either end may die.
In every run the calls are a `SharedObject` (`refines_of_run`), so what the callbacks do and what
the callers are told could have happened one call after the other.
-/
namespace Lissandra

/-! ## The two ends of a connection -/

/-- The operation of an answer, `packet->header.operation + 1`. -/
def SocketOperation.answer (operation : SocketOperation) : SocketOperation :=
  SocketOperation.ofInt (operation.toInt + 1)

/-- The thread of `do_request`. -/
inductive ClientStage where
  /-- not yet in `setup_connection` -/
  | start
  /-- the handshake was sent -/
  | handshaking
  /-- the request was sent -/
  | waiting
  /-- the callback was called, perhaps with `NULL` -/
  | finished (result : Option Message)
  | crashed
  | dead

/-- The thread of `handle_request`. -/
inductive ServerStage where
  | absent
  /-- at the head of the loop -/
  | receiving (packet : Packet) (receivedBytes : Int)
  /-- between the callback's call and `wait_for_response` -/
  | serving (request : Message) (response : Option (Content request.operation.answer))
  | closed
  | crashed

/-- The ends of a connection, and what each has sent and the other has not received. -/
structure Connection where
  client : ClientStage
  server : ServerStage
  toServer : Bytes
  toClient : Bytes

namespace Connection

/-- A call that was not made yet. -/
def initial : Connection := ⟨.start, .absent, [], []⟩

/-- The client has not shut its end down. -/
def clientOpen (c : Connection) : Bool :=
  match c.client with
  | .handshaking | .waiting => true
  | .start | .finished _ | .crashed | .dead => false

/-- The server has not shut its end down. -/
def serverOpen (c : Connection) : Bool :=
  match c.server with
  | .receiving _ _ | .serving _ _ => true
  | .absent | .closed | .crashed => false

end Connection

/-- A `recv2` of these bytes does not block: they have a whole packet, or no more will come. -/
def Ready (bytes : Bytes) (peerOpen : Bool) : Prop :=
  packetLength bytes ≠ none ∨ peerOpen = false

instance (bytes : Bytes) (peerOpen : Bool) : Decidable (Ready bytes peerOpen) :=
  inferInstanceAs (Decidable (_ ∨ _))

/-- What a process asks for, and as which process. -/
structure RemoteRequest where
  process : Process
  message : Message

namespace RemoteRequest
variable (request : RemoteRequest)

/-- The packet of `setup_connection`. -/
def handshake : Packet := buildPacket request.process .handshakeIn true () true

/-- The packet of `do_request`. -/
def packet : Packet :=
  buildPacket request.process request.message.operation false request.message.content true

end RemoteRequest

namespace Connection

/-- Up to the handshake's `send2` in `setup_connection`; the server's thread has a packet with
whatever its memory had. -/
def connect (request : RemoteRequest) (memory : Packet) (c : Connection) : Option Connection :=
  match c.client with
  | .start => do
    let bytes ← send2 request.handshake
    some ⟨.handshaking, .receiving { memory with header.keepAlive := true } 1, bytes, []⟩
  | _ => none

/-- `setup_connection` returns an error code before it sends anything. -/
def connectFails (c : Connection) : Option Connection :=
  match c.client with
  | .start => some { c with client := .finished none }
  | _ => none

/-- The client's `recv2`, and what it does before the next one. -/
def clientReceives (request : RemoteRequest) (garbage : Nat → Byte) (socket : Socket)
    (c : Connection) : Option Connection :=
  if ¬ (Carries socket c.toClient ∧ Ready c.toClient c.serverOpen) then none
  else
    match c.client with
    | .handshaking =>
      match recv2 garbage socket request.handshake with
      | none => some { c with client := .crashed }
      | some (_, packet, socket') =>
        -- the return value is not looked at
        if packet.header.operation ≠ .handshakeOut then
          some { c with client := .finished none, toClient := socket'.flatten }
        else
          match send2 request.packet with
          | none => some { c with client := .crashed }
          | some bytes =>
            some { c with client := .waiting, toServer := c.toServer ++ bytes,
                          toClient := socket'.flatten }
    | .waiting =>
      match recv2 garbage socket { request.packet with content := [] } with
      | none => some { c with client := .crashed }
      | some (receivedBytes, packet, socket') =>
        if receivedBytes ≤ 0 then
          some { c with client := .finished none, toClient := socket'.flatten }
        else
          match packet.message with
          | none => some { c with client := .crashed }
          | some message =>
            some { c with client := .finished (some message), toClient := socket'.flatten }
    | _ => none

/-- A round of `handle_request`, up to the callback's call or the next round. -/
def serverReceives (me : Process) (garbage : Nat → Byte) (socket : Socket) (c : Connection) :
    Option Connection :=
  match c.server with
  | .receiving packet receivedBytes =>
    if packet.header.keepAlive = false ∨ receivedBytes ≤ 0 then some { c with server := .closed }
    else if ¬ (Carries socket c.toServer ∧ Ready c.toServer c.clientOpen) then none
    else
      match recv2 garbage socket packet with
      | none => some { c with server := .crashed }
      | some (receivedBytes, packet, socket') =>
        if validSource me packet.header.process = false then
          some { c with server := .closed, toServer := socket'.flatten }
        else if packet.header.operation = .handshakeIn then
          match send2 (handshakeAnswer me) with
          | none => some { c with server := .crashed }
          | some bytes =>
            some { c with server := .receiving (handshakeAnswer me) receivedBytes,
                          toServer := socket'.flatten, toClient := c.toClient ++ bytes }
        else
          match packet.message with
          | none => some { c with server := .crashed }
          | some message =>
            some { c with server := .serving message none, toServer := socket'.flatten }
  | _ => none

/-- `set_response` of the callback: its effect, and the result in the response. -/
def callback {O : Type} (apply : O → (message : Message) → O × Content message.operation.answer)
    (object : O) (c : Connection) : Option (O × Connection × Message) :=
  match c.server with
  | .serving message none =>
    let (object', result) := apply object message
    some (object', { c with server := .serving message (some result) },
      ⟨message.operation.answer, transmitted _ result⟩)
  | _ => none

/-- `wait_for_response` returns: the answer is sent and the connection closed. -/
def serverAnswers (me : Process) (c : Connection) : Option Connection :=
  match c.server with
  | .serving message (some result) =>
    match send2 (buildPacket me message.operation.answer false result true) with
    | none => some { c with server := .crashed }
    | some bytes => some { c with server := .closed, toClient := c.toClient ++ bytes }
  | _ => none

/-- The client's process ends; what it has sent arrives. -/
def clientDies (c : Connection) : Option Connection :=
  if c.clientOpen then some { c with client := .dead } else none

/-- The server's process ends; what it has sent arrives. -/
def serverDies (c : Connection) : Option Connection :=
  if c.serverOpen then some { c with server := .closed } else none

end Connection

/-! ## All calls together -/

/-- What one of the two threads of a call does next. -/
inductive RemoteAction where
  | connect (memory : Packet)
  | connectFails
  | clientReceives (garbage : Nat → Byte) (socket : Socket)
  | serverReceives (garbage : Nat → Byte) (socket : Socket)
  | callback
  | serverAnswers
  | clientDies
  | serverDies

/-- A server's object, the connections of the calls, and what has happened: calls made, callbacks'
effects, callers' callbacks. -/
structure RemoteCalls (Call O : Type) where
  object : O
  connection : Call → Connection
  history : List (CallEvent Call Message)

namespace RemoteCalls
variable {Call O : Type} [DecidableEq Call]

def initial (object : O) : RemoteCalls Call O := ⟨object, fun _ => .initial, []⟩

/-- A connection after a step, with what happened. -/
def update (s : RemoteCalls Call O) (object : O) (call : Call) (c : Connection)
    (events : List (CallEvent Call Message)) : RemoteCalls Call O :=
  ⟨object, Function.update s.connection call c, s.history ++ events⟩

/-- The callback that `do_request` calls when its thread finishes. -/
def respondEvents (call : Call) (c : Connection) : List (CallEvent Call Message) :=
  match c.client with
  | .finished result => [.respond call result]
  | _ => []

/-- A step of the system. -/
def step (me : Process) (request : Call → RemoteRequest)
    (apply : O → (message : Message) → O × Content message.operation.answer)
    (s : RemoteCalls Call O) (action : Call × RemoteAction) : Option (RemoteCalls Call O) :=
  let call := action.1
  let c := s.connection call
  match action.2 with
  | .connect memory => do
    let c' ← c.connect (request call) memory
    some (s.update s.object call c' [.invoke call])
  | .connectFails => do
    let c' ← c.connectFails
    some (s.update s.object call c' (.invoke call :: respondEvents call c'))
  | .clientReceives garbage socket => do
    let c' ← c.clientReceives (request call) garbage socket
    some (s.update s.object call c' (respondEvents call c'))
  | .serverReceives garbage socket => do
    let c' ← c.serverReceives me garbage socket
    some (s.update s.object call c' [])
  | .callback => do
    let (object, c', result) ← c.callback apply s.object
    some (s.update object call c' [.effect call result])
  | .serverAnswers => do
    let c' ← c.serverAnswers me
    some (s.update s.object call c' [])
  | .clientDies => do
    let c' ← c.clientDies
    some (s.update s.object call c' [])
  | .serverDies => do
    let c' ← c.serverDies
    some (s.update s.object call c' [])

end RemoteCalls

/-! ## A message in one piece -/

section Messages
variable {process : Process} {message : Message} {keepAlive success : Bool}

/-- The length of a packet at the head of a stream is its own. -/
theorem BuiltPacket.packetLength_eq (packet : BuiltPacket)
    (hn : packet.header.elements.toInt ≤ 127) (hfit : packet.header.contentLength ≤ intMax)
    (rest : Bytes) : packetLength (packet.wrapper ++ rest) = some packet.wrapper.length := by
  have hcount := packet.elements_eq
  have hcontent := packet.content_length
  obtain ⟨hsizes, -⟩ := packet.header.sizes_fields
  have hflat : packet.wrapper ++ rest =
      packet.header.start ++ (packet.header.sizes ++ (packet.content ++ rest)) := by
    rw [packet.wrapper_eq, List.append_assoc, List.append_assoc]
  have hlength : packet.wrapper.length =
      13 + (4 * packet.header.elementsSize.length + 1) + packet.content.length := by
    rw [packet.wrapper_eq, List.length_append, List.length_append, Header.start_length,
      Header.sizes_length]
    omega
  have hchar : charAt (packet.wrapper ++ rest) 9 = packet.header.elements := by
    have htake : (packet.wrapper ++ rest).take 13 = packet.header.start := by
      rw [hflat, List.take_left' packet.header.start_length]
    rw [← @charAt_take _ 13 9 (by decide), htake, packet.charAt_elements hn]
  have hdrop : ((packet.wrapper ++ rest).drop 13).take (4 * packet.header.elementsSize.length + 1) =
      packet.header.sizes := by
    rw [hflat, List.drop_left' packet.header.start_length,
      List.take_left' packet.header.sizes_length]
  have hnat : packet.header.elements.toNatClampNeg = packet.header.elementsSize.length := by
    rw [Int32.toNatClampNeg, hcount, Int.toNat_natCast]
  have hnonneg : ¬ packet.header.elements < 0 := by
    rw [Int32.lt_iff_toInt_lt, hcount]
    exact Int.not_lt.mpr (Int.natCast_nonneg _)
  unfold packetLength
  dsimp only
  rw [hchar, hnat, hdrop, hsizes, if_neg (by rw [List.length_append]; omega), if_neg hnonneg]
  change (if intMax < packet.header.contentLength ∨ _ < _ + packet.header.contentLength.toNat
    then none else some (_ + packet.header.contentLength.toNat)) = _
  rw [if_neg, hlength, ← hcontent, Int.toNat_natCast]
  rw [List.length_append, hlength, ← hcontent, Int.toNat_natCast]
  omega

/-- A message that has come is a whole packet. -/
theorem Message.Small.packetLength_ne (h : message.Small) (rest : Bytes) :
    packetLength ((message.packet process keepAlive success).wrapper ++ rest) ≠ none := by
  have helements := h.elements_le
  have hlength := h.length_le
  have hcontent : ((elementsInfo message.operation message.content).contentLength : Int) ≤
      intMax := by omega
  have hcount : ((elementsInfo message.operation message.content).elements : Int) ≤ intMax := by
    unfold intMax
    omega
  let built := BuiltPacket.ofContent process message.operation keepAlive message.content success
    hcount hcontent
  have hn : built.header.elements.toInt ≤ 127 :=
    (Int32.toInt_ofNat_of_le hcount).trans_le (Int.ofNat_le.mpr helements)
  have hsum : built.header.contentLength ≤ intMax :=
    (sum_toInt_ofNat hcontent).trans_le hcontent
  have heq := built.packetLength_eq hn hsum rest
  intro hnone
  cases hnone.symm.trans heq

end Messages

/-! ## What a step makes of a connection -/

/-- A request that a server can take and answer. -/
structure RemoteRequest.Valid (me : Process) (request : RemoteRequest) : Prop where
  source : validSource me request.process = true
  operation_ne : request.message.operation ≠ .handshakeIn
  small : request.message.Small
  whole : transmitted request.message.operation request.message.content = request.message.content

namespace Connection
variable {me : Process} {request : RemoteRequest} {c c' : Connection} {garbage : Nat → Byte}
  {socket : Socket} {packet : Packet} {receivedBytes : Int}

theorem handshake_small : (⟨.handshakeIn, ()⟩ : Message).Small := ⟨by decide, by decide⟩

theorem handshakeAnswer_small : (⟨.handshakeOut, ()⟩ : Message).Small := ⟨by decide, by decide⟩

/-- Nothing is received before `recv2` returns. -/
theorem serverReceives_ready (hkeep : packet.header.keepAlive = true)
    (hreceived : 0 < receivedBytes)
    (hserver : c.server = .receiving packet receivedBytes)
    (h : c.serverReceives me garbage socket = some c') :
    Carries socket c.toServer ∧ Ready c.toServer c.clientOpen := by
  unfold serverReceives at h
  rw [hserver] at h
  dsimp only at h
  rw [if_neg (not_ended hkeep hreceived)] at h
  split at h
  · cases h
  · next hready => exact not_not.mp hready

/-- The server receives the handshake. -/
theorem serverReceives_handshake (hvalid : request.Valid me)
    (hkeep : packet.header.keepAlive = true) (hreceived : 0 < receivedBytes)
    (hserver : c.server = .receiving packet receivedBytes)
    (hbytes : c.toServer = request.handshake.wrapper)
    (hready : Carries socket c.toServer ∧ Ready c.toServer c.clientOpen) :
    ∃ n, 0 < n ∧ c.serverReceives me garbage socket =
      some { c with server := .receiving (handshakeAnswer me) n, toServer := [],
                    toClient := c.toClient ++ (handshakeAnswer me).wrapper } := by
  have hcarries := hready.1
  rw [hbytes, ← List.append_nil request.handshake.wrapper] at hcarries
  obtain ⟨n, received, socket', hrun, hn, hheader, -, hrest⟩ :=
    @Message.Small.recv2_eq request.process _ true true handshake_small garbage packet socket []
      hcarries
  have hsource : validSource me received.header.process = true := by
    rw [hheader]
    exact hvalid.source
  have hoperation : received.header.operation = .handshakeIn := by
    rw [hheader]
    rfl
  have hsend : send2 (handshakeAnswer me) = some (handshakeAnswer me).wrapper :=
    handshakeAnswer_small.send2_eq
  refine ⟨n, hn, ?_⟩
  unfold serverReceives
  simp only [hserver, if_neg (not_ended hkeep hreceived), if_neg (not_not.mpr hready), hrun,
    hsource, hoperation, hsend, hrest]
  rfl

/-- The server receives the request. -/
theorem serverReceives_request (hvalid : request.Valid me) (hkeep : packet.header.keepAlive = true)
    (hreceived : 0 < receivedBytes) (hserver : c.server = .receiving packet receivedBytes)
    (hbytes : c.toServer = request.packet.wrapper)
    (hready : Carries socket c.toServer ∧ Ready c.toServer c.clientOpen) :
    c.serverReceives me garbage socket =
      some { c with server := .serving request.message none, toServer := [] } := by
  have hcarries := hready.1
  rw [hbytes, ← List.append_nil request.packet.wrapper] at hcarries
  obtain ⟨n, received, socket', hrun, -, hheader, hmessage, hrest⟩ :=
    @Message.Small.recv2_eq request.process _ false true hvalid.small garbage packet socket []
      hcarries
  have hsource : validSource me received.header.process = true := by
    rw [hheader]
    exact hvalid.source
  have hoperation : ¬ received.header.operation = .handshakeIn := by
    rw [hheader]
    exact hvalid.operation_ne
  rw [hvalid.whole] at hmessage
  unfold serverReceives
  simp only [hserver, if_neg (not_ended hkeep hreceived), if_neg (not_not.mpr hready), hrun,
    hsource, hoperation, hmessage, hrest]
  rfl

/-- Only memories listen to their own kind. -/
theorem validSource_self {me : Process} (hme : me ≠ .memory) : validSource me me = false := by
  cases me with
  | memory => exact absurd rfl hme
  | _ => rfl

/-- A `recv2` where nothing more comes. -/
theorem recv2_ended {peerOpen : Bool} (h : Carries socket [] ∧ Ready [] peerOpen)
    (packet : Packet) :
    peerOpen = false ∧ ∃ socket', recv2 garbage socket packet = some (0, packet, socket') ∧
      socket'.flatten = [] := by
  obtain ⟨hcarries, hready⟩ := h
  have hsocket : socket = [] := by
    cases socket with
    | nil => rfl
    | cons segment rest =>
      have hnil := (List.append_eq_nil_iff.mp hcarries.2).1
      exact absurd (hnil ▸ List.mem_cons_self) hcarries.1
  subst hsocket
  exact ⟨hready.resolve_left fun hwhole => hwhole rfl, [], rfl, rfl⟩

/-- The server waits for a request, and the client has left. -/
theorem serverReceives_ended (hme : me ≠ .memory) {n : Int} (hn : 0 < n)
    (hserver : c.server = .receiving (handshakeAnswer me) n) (hbytes : c.toServer = [])
    (h : c.serverReceives me garbage socket = some c') :
    c' = { c with server := .closed, toServer := [] } := by
  have hready := serverReceives_ready rfl hn hserver h
  have hended := hready
  rw [hbytes] at hended
  obtain ⟨-, socket', hrun, hrest⟩ := @recv2_ended garbage socket _ hended (handshakeAnswer me)
  have hsource : validSource me (handshakeAnswer me).header.process = false :=
    validSource_self hme
  have hgoes : ¬ ((handshakeAnswer me).header.keepAlive = false ∨ n ≤ 0) := not_ended rfl hn
  unfold serverReceives at h
  simp only [hserver, if_neg hgoes, if_neg (not_not.mpr hready), hrun, hsource, hrest] at h
  exact (Option.some.inj h).symm

/-- The server does not go on while the client keeps the connection. -/
theorem serverReceives_open {n : Int} (hn : 0 < n)
    (hserver : c.server = .receiving (handshakeAnswer me) n) (hbytes : c.toServer = [])
    (h : c.serverReceives me garbage socket = some c') : c.clientOpen = false := by
  have hready := serverReceives_ready rfl hn hserver h
  rw [hbytes] at hready
  exact (@recv2_ended garbage socket _ hready (handshakeAnswer me)).1

theorem clientReceives_ready (h : c.clientReceives request garbage socket = some c') :
    Carries socket c.toClient ∧ Ready c.toClient c.serverOpen := by
  unfold clientReceives at h
  split at h
  · cases h
  · next hready => exact not_not.mp hready

/-- The client receives the answer to its handshake, and sends the request. -/
theorem clientReceives_handshake (hvalid : request.Valid me) (hclient : c.client = .handshaking)
    (hbytes : c.toClient = (handshakeAnswer me).wrapper)
    (hready : Carries socket c.toClient ∧ Ready c.toClient c.serverOpen) :
    c.clientReceives request garbage socket =
      some { c with client := .waiting, toServer := c.toServer ++ request.packet.wrapper,
                    toClient := [] } := by
  have hcarries := hready.1
  rw [hbytes, ← List.append_nil (handshakeAnswer me).wrapper] at hcarries
  obtain ⟨n, received, socket', hrun, -, hheader, -, hrest⟩ :=
    @Message.Small.recv2_eq me _ true true handshakeAnswer_small garbage request.handshake socket
      [] hcarries
  have hoperation : received.header.operation = .handshakeOut := by
    rw [hheader]
    rfl
  have hsend : send2 request.packet = some request.packet.wrapper := hvalid.small.send2_eq
  unfold clientReceives
  simp only [if_neg (not_not.mpr hready), hclient, hrun, hoperation, hsend, hrest]
  rfl

/-- The client receives the answer, and calls back with it. -/
theorem clientReceives_answer {answer : Message} (hsmall : answer.Small)
    (hclient : c.client = .waiting) (hbytes : c.toClient = (answer.packet me false true).wrapper)
    (hready : Carries socket c.toClient ∧ Ready c.toClient c.serverOpen) :
    c.clientReceives request garbage socket =
      some { c with client := .finished (some answer.told), toClient := [] } := by
  have hcarries := hready.1
  rw [hbytes, ← List.append_nil (answer.packet me false true).wrapper] at hcarries
  obtain ⟨n, received, socket', hrun, hn, -, hmessage, hrest⟩ :=
    @Message.Small.recv2_eq me _ false true hsmall garbage
      { request.packet with content := [] } socket [] hcarries
  unfold clientReceives
  simp only [if_neg (not_not.mpr hready), hclient, hrun, hmessage, hrest,
    if_neg (Int.not_le.mpr hn)]
  rfl

/-- The client waits, and the server has left. -/
theorem clientReceives_ended (hclient : c.client = .handshaking ∨ c.client = .waiting)
    (hbytes : c.toClient = [])
    (hready : Carries socket c.toClient ∧ Ready c.toClient c.serverOpen) :
    c.serverOpen = false ∧ c.clientReceives request garbage socket =
      some { c with client := .finished none, toClient := [] } := by
  have hended := hready
  rw [hbytes] at hended
  unfold clientReceives
  rcases hclient with hclient | hclient
  · obtain ⟨hopen, socket', hrun, hrest⟩ :=
      @recv2_ended garbage socket _ hended request.handshake
    have hoperation : request.handshake.header.operation ≠ .handshakeOut :=
      SocketOperation.noConfusion
    refine ⟨hopen, ?_⟩
    simp only [if_neg (not_not.mpr hready), hclient, hrun, hrest, if_pos hoperation]
  · obtain ⟨hopen, socket', hrun, hrest⟩ :=
      @recv2_ended garbage socket _ hended { request.packet with content := [] }
    refine ⟨hopen, ?_⟩
    simp only [if_neg (not_not.mpr hready), hclient, hrun, hrest, if_pos (le_refl (0 : Int))]

end Connection

end Lissandra
