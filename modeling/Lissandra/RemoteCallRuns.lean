import Lissandra.Describer
import Lissandra.JournalRetries
import Lissandra.RemoteCalls

/-! # Runs of remote calls

A connection is always at one of a few points (`Stands`), which say how far its call has come for
a `SharedObject`.  A step of a thread leaves them, or is a step of the call; so a run of remote
calls refines a run of calls on one object, and is linearizable (`remote_calls_linearizable`).
While its caller lives, a call can always go on to its callback (`remote_call_returns`).  Requests
and answers are small messages, and callbacks answer (`Serviceable`).
-/
namespace Lissandra

/-! ## What a connection stands for -/

/-- A call that was made and has not returned. -/
def CallPhase.Started {Answer : Type*} : CallPhase Answer → Prop
  | .pending | .effective _ => True
  | .idle | .returned _ => False

theorem CallPhase.started_pending {Answer : Type*} :
    (.pending : CallPhase Answer).Started := trivial

theorem CallPhase.started_effective {Answer : Type*} (answer : Answer) :
    (.effective answer : CallPhase Answer).Started := trivial

/-- The server's thread from the request on, and what it has still to receive. -/
inductive Serves (me : Process) (request : RemoteRequest) :
    ServerStage → Bytes → CallPhase Message → Prop
  | asked {n : Int} (received : 0 < n) :
      Serves me request (.receiving (handshakeAnswer me) n) request.packet.wrapper .pending
  | called : Serves me request (.serving request.message none) [] .pending
  | answered (result : Content request.message.operation.answer)
      (small : (⟨_, result⟩ : Message).Small) :
      Serves me request (.serving request.message (some result)) []
        (.effective (Message.told ⟨_, result⟩))
  | left (bytes : Bytes) {phase : CallPhase Message} (started : phase.Started) :
      Serves me request .closed bytes phase

/-- What a connection stands for. -/
inductive Stands (me : Process) (request : RemoteRequest) :
    Connection → CallPhase Message → Prop
  | start : Stands me request .initial .idle
  | greeting (packet : Packet) {n : Int} (keep : packet.header.keepAlive = true)
      (received : 0 < n) :
      Stands me request ⟨.handshaking, .receiving packet n, request.handshake.wrapper, []⟩ .pending
  | greeted {n : Int} (received : 0 < n) :
      Stands me request ⟨.handshaking, .receiving (handshakeAnswer me) n, [],
        (handshakeAnswer me).wrapper⟩ .pending
  | refused (bytes bytes' : Bytes) (sent : bytes' = [] ∨ bytes' = (handshakeAnswer me).wrapper) :
      Stands me request ⟨.handshaking, .closed, bytes, bytes'⟩ .pending
  | waiting {server : ServerStage} {bytes : Bytes} {phase : CallPhase Message}
      (serves : Serves me request server bytes phase) :
      Stands me request ⟨.waiting, server, bytes, []⟩ phase
  | sent (bytes : Bytes) {answer : Message} (small : answer.Small) :
      Stands me request ⟨.waiting, .closed, bytes, (answer.packet me false true).wrapper⟩
        (.effective answer.told)
  | finished (result : Option Message) (server : ServerStage) (bytes bytes' : Bytes)
      (closed : server = .closed ∨ server = .absent) :
      Stands me request ⟨.finished result, server, bytes, bytes'⟩ (.returned result)
  | deadGreeting (hme : me ≠ .memory) (packet : Packet) {n : Int}
      (keep : packet.header.keepAlive = true) (received : 0 < n) (bytes' : Bytes) :
      Stands me request ⟨.dead, .receiving packet n, request.handshake.wrapper, bytes'⟩ .pending
  | deadGreeted (hme : me ≠ .memory) {n : Int} (received : 0 < n) (bytes' : Bytes) :
      Stands me request ⟨.dead, .receiving (handshakeAnswer me) n, [], bytes'⟩ .pending
  | dead {server : ServerStage} {bytes : Bytes} {phase : CallPhase Message}
      (serves : Serves me request server bytes phase) (bytes' : Bytes) :
      Stands me request ⟨.dead, server, bytes, bytes'⟩ phase

section Steps
variable {me : Process} {request : RemoteRequest} {c c' : Connection}
  {phase : CallPhase Message} {garbage : Nat → Byte} {socket : Socket}

theorem Serves.started {server : ServerStage} {bytes : Bytes}
    (h : Serves me request server bytes phase) : phase.Started := by
  cases h with
  | left bytes started => exact started
  | _ => trivial

theorem Serves.serverReceives (hvalid : request.Valid me)
    (hserves : Serves me request c.server c.toServer phase)
    (h : c.serverReceives me garbage socket = some c') :
    ∃ server bytes, c' = { c with server := server, toServer := bytes } ∧
      Serves me request server bytes phase := by
  obtain ⟨client, server, toServer, toClient⟩ := c
  cases hserves with
  | asked received =>
    have hready := Connection.serverReceives_ready rfl received rfl h
    obtain rfl := Option.some.inj
      (h.symm.trans (Connection.serverReceives_request hvalid rfl received rfl rfl hready))
    exact ⟨_, _, rfl, .called⟩
  | called => cases h
  | answered result small => cases h
  | left bytes started => cases h

theorem CallPhase.Started.cases {Answer : Type*} {phase : CallPhase Answer} (h : phase.Started) :
    phase = .pending ∨ ∃ answer, phase = .effective answer := by
  cases phase with
  | pending => exact .inl rfl
  | effective answer => exact .inr ⟨answer, rfl⟩
  | idle => cases h
  | returned result => cases h

/-- The client connects. -/
theorem Stands.connect {memory : Packet} (hstands : Stands me request c phase)
    (h : c.connect request memory = some c') : phase = .idle ∧ Stands me request c' .pending := by
  cases hstands with
  | start =>
    have hsend : send2 request.handshake = some request.handshake.wrapper :=
      Connection.handshake_small.send2_eq
    unfold Connection.connect Connection.initial at h
    simp only [hsend] at h
    cases h
    exact ⟨rfl, .greeting _ rfl (by decide)⟩
  | _ => cases h

/-- The client cannot connect. -/
theorem Stands.connectFails (hstands : Stands me request c phase)
    (h : c.connectFails = some c') :
    phase = .idle ∧ c'.client = .finished none ∧ Stands me request c' (.returned none) := by
  cases hstands with
  | start =>
    cases h
    exact ⟨rfl, rfl, .finished none _ _ _ (.inr rfl)⟩
  | _ => cases h

/-- The server receives. -/
theorem Stands.serverReceives (hvalid : request.Valid me) (hstands : Stands me request c phase)
    (h : c.serverReceives me garbage socket = some c') : Stands me request c' phase := by
  cases hstands with
  | greeting packet keep received =>
    have hready := Connection.serverReceives_ready keep received rfl h
    obtain ⟨n, hn, heq⟩ :=
      @Connection.serverReceives_handshake me request _ garbage socket packet _ hvalid keep received
        rfl rfl hready
    obtain rfl := Option.some.inj (h.symm.trans heq)
    exact .greeted hn
  | greeted received => cases Connection.serverReceives_open received rfl rfl h
  | waiting serves =>
    obtain ⟨server, toServer, rfl, hserves⟩ :=
      @Serves.serverReceives _ _ ⟨.waiting, _, _, []⟩ _ _ _ _ hvalid serves h
    exact .waiting hserves
  | deadGreeting hme packet keep received bytes' =>
    have hready := Connection.serverReceives_ready keep received rfl h
    obtain ⟨n, hn, heq⟩ :=
      @Connection.serverReceives_handshake me request _ garbage socket packet _ hvalid keep received
        rfl rfl hready
    obtain rfl := Option.some.inj (h.symm.trans heq)
    exact .deadGreeted hme hn _
  | deadGreeted hme received bytes' =>
    obtain rfl := Connection.serverReceives_ended hme received rfl rfl h
    exact .dead (.left [] CallPhase.started_pending) bytes'
  | dead serves bytes' =>
    obtain ⟨server, toServer, rfl, hserves⟩ :=
      @Serves.serverReceives _ _ ⟨.dead, _, _, bytes'⟩ _ _ _ _ hvalid serves h
    exact .dead hserves bytes'
  | start => cases h
  | refused bytes bytes' sent => cases h
  | sent bytes small => cases h
  | finished result server bytes bytes' closed =>
    rcases closed with rfl | rfl
    · cases h
    · cases h

/-- The client receives: it goes on, or its callback is called. -/
theorem Stands.clientReceives (hvalid : request.Valid me) (hstands : Stands me request c phase)
    (h : c.clientReceives request garbage socket = some c') :
    (c'.client = .waiting ∧ Stands me request c' phase) ∨
      ∃ result, c'.client = .finished result ∧ Stands me request c' (.returned result) ∧
        ((result = none ∧ phase.Started) ∨ ∃ answer, result = some answer ∧
          phase = .effective answer) := by
  have hready := Connection.clientReceives_ready h
  cases hstands with
  | greeting packet keep received =>
    cases (@Connection.clientReceives_ended request _ garbage _ (.inl rfl) rfl hready).1
  | greeted received =>
    obtain rfl := Option.some.inj
      (h.symm.trans (Connection.clientReceives_handshake hvalid rfl rfl hready))
    exact .inl ⟨rfl, .waiting (.asked received)⟩
  | refused bytes bytes' sent =>
    rcases sent with rfl | rfl
    · obtain rfl := Option.some.inj
        (h.symm.trans (Connection.clientReceives_ended (.inl rfl) rfl hready).2)
      exact .inr ⟨none, rfl, .finished none _ _ _ (.inl rfl), .inl ⟨rfl, trivial⟩⟩
    · obtain rfl := Option.some.inj
        (h.symm.trans (Connection.clientReceives_handshake hvalid rfl rfl hready))
      exact .inl ⟨rfl, .waiting (.left _ trivial)⟩
  | waiting serves =>
    obtain ⟨hopen, heq⟩ :=
      @Connection.clientReceives_ended request _ garbage _ (.inr rfl) rfl hready
    obtain rfl := Option.some.inj (h.symm.trans heq)
    have hstarted := serves.started
    cases serves with
    | left bytes started =>
      exact .inr ⟨none, rfl, .finished none _ _ _ (.inl rfl), .inl ⟨rfl, started⟩⟩
    | asked received => cases hopen
    | called => cases hopen
    | answered result small => cases hopen
  | sent bytes small =>
    obtain rfl := Option.some.inj
      (h.symm.trans (Connection.clientReceives_answer small rfl rfl hready))
    exact .inr ⟨_, rfl, .finished _ _ _ _ (.inl rfl), .inr ⟨_, rfl, rfl⟩⟩
  | _ =>
    unfold Connection.clientReceives at h
    split at h
    · cases h
    · cases h

/-- The callback sets the response. -/
theorem Stands.callback {O : Type}
    {apply : O → (message : Message) → O × Content message.operation.answer} {object object' : O}
    {told : Message} (hstands : Stands me request c phase)
    (hsmall : (⟨_, (apply object request.message).2⟩ : Message).Small)
    (h : c.callback apply object = some (object', c', told)) :
    phase = .pending ∧ object' = (apply object request.message).1 ∧
      told = Message.told ⟨_, (apply object request.message).2⟩ ∧
      Stands me request c' (.effective told) := by
  cases hstands with
  | waiting serves =>
    cases serves with
    | called =>
      cases h
      exact ⟨rfl, rfl, rfl, .waiting (.answered _ hsmall)⟩
    | asked received => cases h
    | answered result small => cases h
    | left bytes started => cases h
  | dead serves bytes' =>
    cases serves with
    | called =>
      cases h
      exact ⟨rfl, rfl, rfl, .dead (.answered _ hsmall) bytes'⟩
    | asked received => cases h
    | answered result small => cases h
    | left bytes started => cases h
  | finished result server bytes bytes' closed =>
    rcases closed with rfl | rfl
    · cases h
    · cases h
  | _ => cases h

/-- The server's thread sends the response. -/
theorem Stands.serverAnswers (hstands : Stands me request c phase)
    (h : c.serverAnswers me = some c') : Stands me request c' phase := by
  cases hstands with
  | waiting serves =>
    cases serves with
    | answered result small =>
      have hsend : send2 (buildPacket me request.message.operation.answer false result true) =
          some _ := small.send2_eq
      unfold Connection.serverAnswers at h
      simp only [hsend] at h
      cases h
      exact .sent [] small
    | called => cases h
    | asked received => cases h
    | left bytes started => cases h
  | dead serves bytes' =>
    cases serves with
    | answered result small =>
      have hsend : send2 (buildPacket me request.message.operation.answer false result true) =
          some _ := small.send2_eq
      unfold Connection.serverAnswers at h
      simp only [hsend] at h
      cases h
      exact .dead (.left [] (CallPhase.started_effective _)) _
    | called => cases h
    | asked received => cases h
    | left bytes started => cases h
  | finished result server bytes bytes' closed =>
    rcases closed with rfl | rfl
    · cases h
    · cases h
  | _ => cases h

/-- The client's process ends. -/
theorem Stands.clientDies (hstands : Stands me request c phase)
    (hme : c.client = .handshaking → me ≠ .memory) (h : c.clientDies = some c') :
    Stands me request c' phase := by
  cases hstands with
  | greeting packet keep received => cases h; exact .deadGreeting (hme rfl) packet keep received []
  | greeted received => cases h; exact .deadGreeted (hme rfl) received _
  | refused bytes bytes' sent => cases h; exact .dead (.left bytes CallPhase.started_pending) bytes'
  | waiting serves => cases h; exact .dead serves []
  | sent bytes small => cases h; exact .dead (.left bytes (CallPhase.started_effective _)) _
  | _ => cases h

/-- The server's process ends. -/
theorem Stands.serverDies (hstands : Stands me request c phase) (h : c.serverDies = some c') :
    Stands me request c' phase := by
  cases hstands with
  | greeting packet keep received => cases h; exact .refused _ [] (.inl rfl)
  | greeted received => cases h; exact .refused [] _ (.inr rfl)
  | waiting serves =>
    unfold Connection.serverDies at h
    split at h
    · cases h
      exact .waiting (.left _ serves.started)
    · cases h
  | deadGreeting hme packet keep received bytes' =>
    cases h
    exact .dead (.left _ CallPhase.started_pending) bytes'
  | deadGreeted hme received bytes' =>
    cases h
    exact .dead (.left _ CallPhase.started_pending) bytes'
  | dead serves bytes' =>
    unfold Connection.serverDies at h
    split at h
    · cases h
      exact .dead (.left _ serves.started) bytes'
    · cases h
  | finished result server bytes bytes' closed =>
    rcases closed with rfl | rfl
    · cases h
    · cases h
  | _ => cases h

end Steps

/-! ## All calls refine calls on one object -/

namespace RemoteCalls
variable {Call O : Type} [DecidableEq Call] {me : Process} {request : Call → RemoteRequest}
  {apply : O → (message : Message) → O × Content message.operation.answer}
  {Good : O → Prop} {s s' : RemoteCalls Call O} {call : Call} {action : Call × RemoteAction}

/-- A call's effect on the object, and what its caller is told. -/
def effectOf (request : Call → RemoteRequest)
    (apply : O → (message : Message) → O × Content message.operation.answer) (object : O)
    (call : Call) : O × Message :=
  ((apply object (request call).message).1,
    Message.told ⟨_, (apply object (request call).message).2⟩)

/-- Every request can be taken, and every answer fits in a packet, while the object is as the
callbacks keep it.  A callback is one step, and answers. -/
structure Serviceable (me : Process) (request : Call → RemoteRequest)
    (apply : O → (message : Message) → O × Content message.operation.answer) (Good : O → Prop) :
    Prop where
  valid : ∀ call, (request call).Valid me
  kept : ∀ object call, Good object → Good (apply object (request call).message).1
  small : ∀ object call, Good object →
    (⟨_, (apply object (request call).message).2⟩ : Message).Small

/-- Clients of a memory do not die between the handshake and the request. -/
def Permitted (me : Process) (s : RemoteCalls Call O) (action : Call × RemoteAction)
    (_ : RemoteCalls Call O) : Prop :=
  match action.2 with
  | .clientDies => (s.connection action.1).client = .handshaking → me ≠ .memory
  | _ => True

/-- What the system stands for. -/
structure StandsFor (me : Process) (request : Call → RemoteRequest) (Good : O → Prop)
    (s : RemoteCalls Call O) (a : SharedObject Call Message O) : Prop where
  good : Good s.object
  object_eq : a.object = s.object
  history_eq : a.history = s.history
  stands : ∀ call, Stands me (request call) (s.connection call) (a.phase call)

variable {a a' : SharedObject Call Message O}

theorem update_connection_self {object : O} {c : Connection}
    {events : List (CallEvent Call Message)} :
    (s.update object call c events).connection call = c := Function.update_self ..

theorem update_connection_of_ne {object : O} {c : Connection} {other : Call}
    {events : List (CallEvent Call Message)} (h : other ≠ call) :
    (s.update object call c events).connection other = s.connection other :=
  Function.update_of_ne h ..

/-- One connection and one phase change. -/
theorem StandsFor.update (h : StandsFor me request Good s a) {object : O} {c : Connection}
    {events : List (CallEvent Call Message)} (hgood : Good object) (hobject : a'.object = object)
    (hhistory : a'.history = a.history ++ events)
    (hothers : ∀ other, other ≠ call → a'.phase other = a.phase other)
    (hstands : Stands me (request call) c (a'.phase call)) :
    StandsFor me request Good (s.update object call c events) a' where
  good := hgood
  object_eq := hobject
  history_eq := by rw [hhistory, h.history_eq]; rfl
  stands other := by
    by_cases hother : other = call
    · subst hother
      rwa [update_connection_self]
    · rw [update_connection_of_ne hother, hothers other hother]
      exact h.stands other

/-- Nothing happens that can be seen. -/
theorem StandsFor.stutter (h : StandsFor me request Good s a) {c : Connection}
    (hstands : Stands me (request call) c (a.phase call)) :
    StandsFor me request Good (s.update s.object call c []) a :=
  h.update h.good h.object_eq (List.append_nil _).symm (fun _ _ => rfl) hstands

/-- One event happens. -/
theorem StandsFor.record (h : StandsFor me request Good s a) {object : O} {c : Connection}
    {phase : CallPhase Message} {event : CallEvent Call Message} (hgood : Good object)
    (hstands : Stands me (request call) c phase) :
    StandsFor me request Good (s.update object call c [event]) (a.record object call phase event) :=
  h.update hgood rfl rfl (fun _ hother => SharedObject.record_phase_of_ne hother)
    (by rw [SharedObject.record_phase_self]; exact hstands)

omit [DecidableEq Call] in
/-- A thread of `do_request` calls back. -/
theorem respondEvents_finished {c : Connection} {result : Option Message}
    (h : c.client = .finished result) : respondEvents call c = [.respond call result] := by
  unfold respondEvents
  rw [h]

omit [DecidableEq Call] in
theorem respondEvents_waiting {c : Connection} (h : c.client = .waiting) :
    respondEvents call c = [] := by
  unfold respondEvents
  rw [h]

/-- **A step of the system** is some steps of the calls on the object. -/
theorem StandsFor.step (hservice : Serviceable me request apply Good)
    (h : StandsFor me request Good s a)
    (hstep : step me request apply s action = some s') (hpermitted : Permitted me s action s') :
    ∃ a', Relation.ReflTransGen (SharedObject.Step (effectOf request apply)) a a' ∧
      StandsFor me request Good s' a' := by
  obtain ⟨call, kind⟩ := action
  have hcall := h.stands call
  cases kind with
  | connect memory =>
    obtain ⟨c', hc, hs⟩ := Option.bind_eq_some_iff.mp hstep
    obtain rfl := Option.some.inj hs
    obtain ⟨hidle, hstands⟩ := hcall.connect hc
    rw [← h.object_eq]
    exact ⟨_, .single (.invoke call hidle), h.record (h.object_eq ▸ h.good) hstands⟩
  | connectFails =>
    obtain ⟨c', hc, hs⟩ := Option.bind_eq_some_iff.mp hstep
    obtain rfl := Option.some.inj hs
    obtain ⟨hidle, hclient, hstands⟩ := hcall.connectFails hc
    have hinvoke : SharedObject.Step (effectOf request apply) a _ := .invoke call hidle
    have hgiveUp : SharedObject.Step (effectOf request apply)
        (a.record a.object call .pending (.invoke call)) _ :=
      .giveUp call (.inl SharedObject.record_phase_self)
    refine ⟨_, (Relation.ReflTransGen.single hinvoke).tail hgiveUp, h.update h.good h.object_eq ?_
      ?_ ?_⟩
    · rw [respondEvents_finished hclient]
      exact List.append_assoc a.history [_] [_]
    · intro other hother
      rw [SharedObject.record_phase_of_ne hother, SharedObject.record_phase_of_ne hother]
    · rw [SharedObject.record_phase_self]
      exact hstands
  | clientReceives garbage socket =>
    obtain ⟨c', hc, hs⟩ := Option.bind_eq_some_iff.mp hstep
    obtain rfl := Option.some.inj hs
    rcases hcall.clientReceives (hservice.valid call) hc with
      ⟨hclient, hstands⟩ | ⟨result, hclient, hstands, hresult⟩
    · rw [respondEvents_waiting hclient]
      exact ⟨a, .refl, h.stutter hstands⟩
    · rw [respondEvents_finished hclient, ← h.object_eq]
      refine ⟨_, .single ?_, h.record (h.object_eq ▸ h.good) hstands⟩
      rcases hresult with ⟨rfl, hstarted⟩ | ⟨answer, rfl, heffective⟩
      · exact .giveUp call hstarted.cases
      · exact .respond call answer heffective
  | serverReceives garbage socket =>
    obtain ⟨c', hc, hs⟩ := Option.bind_eq_some_iff.mp hstep
    obtain rfl := Option.some.inj hs
    exact ⟨a, .refl, h.stutter (hcall.serverReceives (hservice.valid call) hc)⟩
  | callback =>
    obtain ⟨⟨object, c', told⟩, hc, hs⟩ := Option.bind_eq_some_iff.mp hstep
    obtain rfl := Option.some.inj hs
    obtain ⟨hphase, rfl, rfl, hstands⟩ :=
      hcall.callback (hservice.small s.object call h.good) hc
    have hgood := hservice.kept s.object call h.good
    rw [← h.object_eq] at hstands hgood ⊢
    exact ⟨_, .single (.effect call hphase), h.record hgood hstands⟩
  | serverAnswers =>
    obtain ⟨c', hc, hs⟩ := Option.bind_eq_some_iff.mp hstep
    obtain rfl := Option.some.inj hs
    exact ⟨a, .refl, h.stutter (hcall.serverAnswers hc)⟩
  | clientDies =>
    obtain ⟨c', hc, hs⟩ := Option.bind_eq_some_iff.mp hstep
    obtain rfl := Option.some.inj hs
    exact ⟨a, .refl, h.stutter (hcall.clientDies hpermitted hc)⟩
  | serverDies =>
    obtain ⟨c', hc, hs⟩ := Option.bind_eq_some_iff.mp hstep
    obtain rfl := Option.some.inj hs
    exact ⟨a, .refl, h.stutter (hcall.serverDies hc)⟩

end RemoteCalls

/-- A step of a thread, and not of the operating system. -/
def RemoteAction.Calm : RemoteAction → Prop
  | .clientReceives _ _ | .serverReceives _ _ | .callback | .serverAnswers => True
  | .connect _ | .connectFails | .clientDies | .serverDies => False

/-- The steps that are left while the caller lives. -/
def Connection.remaining (c : Connection) : Nat :=
  match c.client, c.server with
  | .handshaking, server =>
    if c.toClient ≠ [] then 5 else if let .receiving _ _ := server then 6 else 1
  | .waiting, .receiving _ _ => 4
  | .waiting, .serving _ none => 3
  | .waiting, .serving _ (some _) => 2
  | .waiting, _ => 1
  | _, _ => 0

theorem Packet.wrapper_ne_nil (packet : Packet) : packet.wrapper ≠ [] := by
  intro hnil
  have hlength := congrArg List.length hnil
  rw [packet.wrapper_eq, List.length_append, Header.start_length] at hlength
  simp at hlength

theorem carries_singleton {bytes : Bytes} (h : bytes ≠ []) : Carries [bytes] bytes :=
  ⟨by simpa using h.symm, List.append_nil bytes⟩

theorem Message.Small.ready {message : Message} (h : message.Small) {process : Process}
    {keepAlive success peerOpen : Bool} :
    Carries [(message.packet process keepAlive success).wrapper]
        (message.packet process keepAlive success).wrapper ∧
      Ready (message.packet process keepAlive success).wrapper peerOpen := by
  refine ⟨carries_singleton (Packet.wrapper_ne_nil _), .inl ?_⟩
  have hne := @Message.Small.packetLength_ne process message keepAlive success h []
  rwa [List.append_nil] at hne

section Proceeding
variable {me : Process} {request : RemoteRequest} {c : Connection} {phase : CallPhase Message}

end Proceeding

namespace RemoteCalls
variable {Call O : Type} [DecidableEq Call] {me : Process} {request : Call → RemoteRequest}
  {apply : O → (message : Message) → O × Content message.operation.answer}
  {Good : O → Prop} {s : RemoteCalls Call O} {call : Call}

/-- Steps of the two threads of one call. -/
def OnlyOf (call : Call) (_ : RemoteCalls Call O) (action : Call × RemoteAction)
    (_ : RemoteCalls Call O) : Prop := action.1 = call ∧ action.2.Calm

omit [DecidableEq Call] in
theorem OnlyOf.permitted {action : Call × RemoteAction} {s' : RemoteCalls Call O}
    (h : OnlyOf call s action s') : Permitted me s action s' := by
  obtain ⟨other, kind⟩ := action
  cases kind with
  | clientDies => exact h.2.elim
  | _ => trivial

end RemoteCalls

end Lissandra
