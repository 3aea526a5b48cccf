import Lissandra.Network

/-! # Requests of a connection

`handle_request` of `generic_server.c`: a loop that receives packets into one `packet_t`,
answers handshakes, and hands the first other packet to its callback.  What `recv2` says is
looked at only where the loop goes on, after the packet was used; and for a packet of which
thirteen bytes have come, `recv2` adds up what its three reads say, so the end of the stream
is not seen.  `rejectsTruncated_iff` is when a truncated packet is rejected all the same.
-/
namespace Lissandra

/-! ## The loop -/

/-- `valid_source`. -/
def validSource (me client : Process) : Bool :=
  match me with
  | .kernel => false
  | .memory => client = .kernel || client = .memory
  | .filesystem => client = .memory
  | .unknown => false

/-- The packet after the answer to a handshake, which `build_packet` has written to it. -/
def handshakeAnswer (me : Process) : Packet := buildPacket me .handshakeOut true () true

/-- A round of the loop: the bytes that were there to receive, what `recv2` returned (nothing if
it crashed), and the callback that was called. -/
structure Round where
  available : Bytes
  received : Option Int
  called : Option SocketOperation
  deriving DecidableEq

/-- The loop of `handle_request`.  A round that does not leave it takes fourteen bytes, so it has
fewer rounds than there are bytes, and one. -/
def requestLoop (me : Process) (garbage : Nat → Nat → Byte) :
    Nat → Packet → Int → Socket → List Round
  | 0, _, _, _ => []
  | fuel + 1, packet, receivedBytes, socket =>
    if packet.header.keepAlive = false ∨ receivedBytes ≤ 0 then []
    else
      match recv2 (garbage fuel) socket packet with
      | none => [⟨socket.flatten, none, none⟩]
      | some (receivedBytes, packet, socket') =>
        if validSource me packet.header.process = false then
          [⟨socket.flatten, some receivedBytes, none⟩]
        else if packet.header.operation = .handshakeIn then
          ⟨socket.flatten, some receivedBytes, none⟩ ::
            requestLoop me garbage fuel (handshakeAnswer me) receivedBytes socket'
        else
          -- The answer does not keep the connection alive.
          [⟨socket.flatten, some receivedBytes, some packet.header.operation⟩]

/-- `handle_request`; `packet` is what its memory had. -/
def handleRequest (me : Process) (garbage : Nat → Nat → Byte) (packet : Packet) (socket : Socket) :
    List Round :=
  requestLoop me garbage (socket.flatten.length + 1)
    { packet with header.keepAlive := true } 1 socket

/-! ## Whole packets -/

/-- The length of the first packet of a stream, if all of it is there. -/
def packetLength (bytes : Bytes) : Option Nat :=
  if bytes.length < 13 then none
  else if charAt bytes 9 < 0 then none
  else
    let n := (charAt bytes 9).toNatClampNeg
    let contentLength := ((sizesAt n ((bytes.drop 13).take (4 * n + 1))).map Int32.toInt).sum
    if intMax < contentLength ∨ bytes.length < 13 + (4 * n + 1) + contentLength.toNat then none
    else some (13 + (4 * n + 1) + contentLength.toNat)

/-- A truncated packet: `recv2` says so, and no callback is called. -/
def Round.Rejected (round : Round) : Prop :=
  (∃ received, round.received = some received ∧ received ≤ 0) ∧ round.called = none

/-- Every packet of the stream that is not whole is rejected. -/
def RejectsTruncated (me : Process) (garbage : Nat → Nat → Byte) (packet : Packet)
    (socket : Socket) : Prop :=
  ∀ round ∈ handleRequest me garbage packet socket,
    packetLength round.available = none → round.Rejected

/-- The stream begins with this many handshakes, and goes on with these bytes. -/
inductive Handshakes (me : Process) : Nat → Bytes → Bytes → Prop
  | zero (bytes : Bytes) : Handshakes me 0 bytes bytes
  | succ {count length : Nat} {bytes rest : Bytes} (whole : packetLength bytes = some length)
      (source : validSource me (Process.ofInt (charAt bytes 0)) = true)
      (handshake : SocketOperation.ofInt (charAt bytes 4) = .handshakeIn)
      (others : Handshakes me count (bytes.drop length) rest) : Handshakes me (count + 1) bytes rest

/-- What the packet has is taken for a request. -/
def Packet.TakenBy (packet : Packet) (me : Process) : Prop :=
  validSource me packet.header.process = true ∧ packet.header.operation ≠ .handshakeIn

/-- What the packet has before the next is received. -/
def packetBefore (me : Process) (packet : Packet) : Nat → Packet
  | 0 => packet
  | _ + 1 => handshakeAnswer me

/-! ## What `recv2` makes of the bytes that are there -/

section Receiving
variable {garbage : Nat → Byte} {packet : Packet} {socket : Socket}

theorem recvLoop_nonneg : ∀ (fuel n : Nat) (stored : Bytes) (socket : Socket),
    0 ≤ (recvLoop fuel n stored socket).1 := by
  intro fuel
  induction fuel with
  | zero => exact fun n stored socket => Int.natCast_nonneg _
  | succ fuel ih =>
    intro n stored socket
    rw [recvLoop]
    split
    · exact Int.natCast_nonneg _
    · dsimp only
      split
      · exact le_rfl
      · exact ih _ _ _

theorem recvAll_nonneg (n : Nat) (socket : Socket) : 0 ≤ (recvAll n socket).1 :=
  recvLoop_nonneg n n [] socket

/-- The end of the stream is seen where bytes are missing. -/
theorem recvLoop_short : ∀ (fuel n : Nat) (stored : Bytes) (socket : Socket), n ≤ fuel →
    (∀ segment ∈ socket, segment ≠ []) → socket.flatten.length < n →
    ∃ stored' socket', recvLoop fuel n stored socket = (0, stored', socket') := by
  intro fuel
  induction fuel with
  | zero =>
    intro n stored socket hn _ hlen
    omega
  | succ fuel ih =>
    intro n stored socket hn hseg hlen
    have hzero : n ≠ 0 := by omega
    rw [recvLoop, if_neg hzero]
    by_cases hne : socket.flatten = []
    · have hnil : socket = [] := by
        cases socket with
        | nil => rfl
        | cons segment rest =>
          exact absurd (List.append_eq_nil_iff.mp hne).1 (hseg segment List.mem_cons_self)
      subst hnil
      exact ⟨stored, [], rfl⟩
    · obtain ⟨bytes, socket₁, hrecv, hpos, hle, happ, hseg'⟩ :=
        recv_spec (Nat.pos_of_ne_zero hzero) hseg hne
      -- what is asked for and what is there get shorter by the same number of bytes
      have hlength := congrArg List.length happ
      rw [List.length_append] at hlength
      obtain ⟨stored', socket', hrun⟩ :=
        ih (n - bytes.length) (stored ++ bytes) socket₁ (by omega) hseg' (by omega)
      refine ⟨stored', socket', ?_⟩
      simp only [hrecv]
      rw [if_neg (by omega), hrun]

/-- As many bytes as are there. -/
theorem recvAll_take {n : Nat} (hseg : ∀ segment ∈ socket, segment ≠ [])
    (hlen : n ≤ socket.flatten.length) :
    ∃ socket', recvAll n socket = ((n : Int), socket.flatten.take n, socket') ∧
      socket'.flatten = socket.flatten.drop n ∧ ∀ segment ∈ socket', segment ≠ [] := by
  have hfield : (socket.flatten.take n).length = n := by
    rw [List.length_take]
    omega
  obtain ⟨socket', hrun, hflat, hseg'⟩ := recvAll_flatten hseg
    (List.take_append_drop n socket.flatten).symm
  rw [hfield] at hrun
  exact ⟨socket', hrun, hflat, hseg'⟩

theorem charAt_take {bytes : Bytes} {n offset : Nat} (h : offset < n) :
    charAt (bytes.take n) offset = charAt bytes offset := by
  unfold charAt
  rw [List.getD_eq_getElem?_getD, List.getD_eq_getElem?_getD, List.getElem?_take_of_lt h]

theorem buffer_take {bytes : Bytes} {n : Nat} (h : n ≤ bytes.length) :
    buffer garbage n (bytes.take n) = bytes.take n := by
  have hlength : (bytes.take n).length = n := by
    rw [List.length_take]
    omega
  have hbuffer := buffer_length garbage (bytes.take n)
  rwa [hlength] at hbuffer

/-- **Less than the fixed part**: `recv2` fails, and leaves the packet as it was. -/
theorem recv2_short (hseg : ∀ segment ∈ socket, segment ≠ []) (hlen : socket.flatten.length < 13) :
    ∃ socket', recv2 garbage socket packet = some (0, packet, socket') := by
  obtain ⟨stored, socket', hrun⟩ := recvLoop_short 13 13 [] socket le_rfl hseg hlen
  refine ⟨socket', ?_⟩
  unfold recv2
  have hrun' : recvAll (4 + 4 + 1 + 4) socket = (0, stored, socket') := hrun
  simp only [hrun']
  rfl

/-- **The fixed part is there**: `recv2` does not fail, whatever else is missing. -/
theorem recv2_pos (hseg : ∀ segment ∈ socket, segment ≠ []) (hlen : 13 ≤ socket.flatten.length)
    {received : Int} {packet' : Packet} {socket' : Socket}
    (h : recv2 garbage socket packet = some (received, packet', socket')) : 0 < received := by
  obtain ⟨socket₁, hrun, -⟩ := recvAll_take hseg hlen
  have hrun' : recvAll (4 + 4 + 1 + 4) socket = (13, socket.flatten.take 13, socket₁) := hrun
  unfold recv2 at h
  simp only [hrun'] at h
  rw [if_neg (by decide)] at h
  split at h
  · cases h
  · split at h
    · obtain ⟨hreceived, -⟩ := Prod.mk.inj (Option.some.inj h)
      rw [← hreceived]
      exact Int.add_pos_of_pos_of_nonneg (by decide) (recvAll_nonneg _ _)
    · split at h
      · obtain ⟨hreceived, -⟩ := Prod.mk.inj (Option.some.inj h)
        rw [← hreceived]
        exact Int.add_pos_of_pos_of_nonneg
          (Int.add_pos_of_pos_of_nonneg (by decide) (recvAll_nonneg _ _)) (recvAll_nonneg _ _)
      · cases h

/-- **A whole packet** is received, and what comes after it is left. -/
theorem recv2_whole (hseg : ∀ segment ∈ socket, segment ≠ []) {length : Nat}
    (hwhole : packetLength socket.flatten = some length) :
    ∃ received socket', recv2 garbage socket packet = some ((length : Int), received, socket') ∧
      received.header.process = Process.ofInt (charAt socket.flatten 0) ∧
      received.header.operation = SocketOperation.ofInt (charAt socket.flatten 4) ∧
      socket'.flatten = socket.flatten.drop length ∧ (∀ segment ∈ socket', segment ≠ []) ∧
      0 < length ∧ length ≤ socket.flatten.length := by
  unfold packetLength at hwhole
  split at hwhole
  · cases hwhole
  · next hstart =>
    split at hwhole
    · cases hwhole
    · next hcount =>
      dsimp only at hwhole
      split at hwhole
      · cases hwhole
      · next hfit =>
        obtain rfl := Option.some.inj hwhole
        have hlen : 13 ≤ socket.flatten.length := by omega
        obtain ⟨socket₁, hrun, hflat₁, hseg₁⟩ := recvAll_take hseg hlen
        have hrun' : recvAll (4 + 4 + 1 + 4) socket = (13, socket.flatten.take 13, socket₁) := hrun
        have hbuffer : buffer garbage (4 + 4 + 1 + 4) (socket.flatten.take 13) =
            socket.flatten.take 13 := buffer_take hlen
        have hcharAt : charAt (socket.flatten.take 13) 9 = charAt socket.flatten 9 :=
          charAt_take (by decide)
        rw [not_or] at hfit
        obtain ⟨hmax, hthere⟩ := hfit
        generalize hn : (charAt socket.flatten 9).toNatClampNeg = n at hmax hthere ⊢
        have hlen₁ : 4 * n + 1 ≤ socket₁.flatten.length := by
          rw [hflat₁, List.length_drop]
          omega
        obtain ⟨socket₂, hrun₂, hflat₂, hseg₂⟩ := recvAll_take hseg₁ hlen₁
        have hbuffer₂ : buffer garbage (4 * n + 1) (socket₁.flatten.take (4 * n + 1)) =
            socket₁.flatten.take (4 * n + 1) := buffer_take hlen₁
        have hprocess : charAt (socket.flatten.take 13) 0 = charAt socket.flatten 0 :=
          charAt_take (by decide)
        have hoperation : charAt (socket.flatten.take 13) 4 = charAt socket.flatten 4 :=
          charAt_take (by decide)
        -- what the packet says of its sizes is the same in the stream and in the buffer
        rw [hflat₁] at hrun₂ hbuffer₂ hflat₂
        unfold recv2
        simp only [hrun', hbuffer, hcharAt, hprocess, hoperation, hn]
        rw [if_neg (by decide), if_neg hcount, hrun₂]
        simp only [hbuffer₂, Header.contentLength]
        by_cases hzero : n = 0
        · subst hzero
          refine ⟨_, socket₂, if_pos rfl, rfl, rfl, ?_, hseg₂, by omega, by omega⟩
          rw [hflat₂, List.drop_drop]
          rfl
        · have hlen₂ :
              ((sizesAt n ((socket.flatten.drop 13).take (4 * n + 1))).map Int32.toInt).sum.toNat ≤
                socket₂.flatten.length := by
            rw [hflat₂, List.drop_drop, List.length_drop]
            omega
          obtain ⟨socket₃, hrun₃, hflat₃, hseg₃⟩ := recvAll_take hseg₂ hlen₂
          rw [if_neg hzero, if_pos (Int.not_lt.mp hmax), hrun₃]
          refine ⟨_, socket₃, congrArg some (Prod.ext ?_ rfl), rfl, rfl, ?_,
            hseg₃, by omega, by omega⟩
          · show 13 + ((4 * n + 1 : Nat) : Int) + (_ : Nat) = ((13 + (4 * n + 1) + _ : Nat) : Int)
            omega
          · rw [hflat₃, hflat₂, List.drop_drop, List.drop_drop, Nat.add_assoc 13]

end Receiving

/-! ## Truncated packets -/

section Truncated
variable {me : Process} {garbage : Nat → Nat → Byte} {packet : Packet} {socket : Socket}

theorem handshakeAnswer_taken : (handshakeAnswer me).TakenBy me ↔ me = .memory := by
  unfold Packet.TakenBy
  cases me <;> decide

theorem not_ended {receivedBytes : Int} (hkeep : packet.header.keepAlive = true)
    (hreceived : 0 < receivedBytes) :
    ¬ (packet.header.keepAlive = false ∨ receivedBytes ≤ 0) := by
  rw [hkeep]
  simpa using hreceived

/-- An incomplete packet at the head of the loop: rejected if the fixed part is missing and what the
packet has is not taken for a request. -/
theorem requestLoop_truncated (fuel : Nat) (hkeep : packet.header.keepAlive = true)
    {receivedBytes : Int} (hreceived : 0 < receivedBytes) (hseg : ∀ segment ∈ socket, segment ≠ [])
    (hpart : packetLength socket.flatten = none) :
    (∀ round ∈ requestLoop me garbage (fuel + 1) packet receivedBytes socket,
        packetLength round.available = none → round.Rejected) ↔
      socket.flatten.length < 13 ∧ ¬ packet.TakenBy me := by
  rw [requestLoop, if_neg (not_ended hkeep hreceived)]
  by_cases hlen : socket.flatten.length < 13
  · obtain ⟨socket', hrun⟩ := @recv2_short (garbage fuel) packet socket hseg hlen
    -- after a failed `recv2` there is no other round
    have hstops : requestLoop me garbage fuel (handshakeAnswer me) 0 socket' = [] := by
      cases fuel with
      | zero => rfl
      | succ fuel => rw [requestLoop, if_pos (.inr le_rfl)]
    rw [hrun]
    dsimp only
    rw [hstops]
    have hzero : Round.Rejected ⟨socket.flatten, some 0, none⟩ := ⟨⟨0, rfl, le_rfl⟩, rfl⟩
    split
    · next hsource =>
      refine iff_of_true (fun round hround _ => ?_) ⟨hlen, fun htaken => ?_⟩
      · obtain rfl := List.mem_singleton.mp hround
        exact hzero
      · cases hsource.symm.trans htaken.1
    · next hsource =>
      split
      · next hoperation =>
        refine iff_of_true (fun round hround _ => ?_) ⟨hlen, fun htaken => htaken.2 hoperation⟩
        obtain rfl := List.mem_singleton.mp hround
        exact hzero
      · next hoperation =>
        refine iff_of_false (fun hrejects => ?_) fun ⟨_, htaken⟩ => htaken ⟨?_, hoperation⟩
        · cases (hrejects _ List.mem_cons_self hpart).2
        · exact eq_true_of_ne_false hsource
  · -- the first round says that bytes were received, so it is no rejection
    refine iff_of_false (fun hrejects => ?_) fun h => hlen h.1
    cases hrun : recv2 (garbage fuel) socket packet with
    | none =>
      rw [hrun] at hrejects
      obtain ⟨⟨received, hnone, -⟩, -⟩ := hrejects _ List.mem_cons_self hpart
      cases hnone
    | some result =>
      obtain ⟨received, packet', socket'⟩ := result
      have hpos := recv2_pos hseg (Nat.le_of_not_lt hlen) hrun
      rw [hrun] at hrejects
      dsimp only at hrejects
      have hfirst : ∀ called rest,
          (∀ round ∈ (⟨socket.flatten, some received, called⟩ : Round) :: rest,
            packetLength round.available = none → round.Rejected) → False := by
        intro called rest hrejects
        obtain ⟨⟨other, hother, hfails⟩, -⟩ := hrejects _ List.mem_cons_self hpart
        obtain rfl := Option.some.inj hother
        exact absurd hpos (Int.not_lt.mpr hfails)
      split at hrejects
      · exact hfirst _ _ hrejects
      · split at hrejects
        · exact hfirst _ _ hrejects
        · exact hfirst _ _ hrejects

theorem requestLoop_rejects_iff :
    ∀ (fuel : Nat) (packet : Packet) (receivedBytes : Int) (socket : Socket),
    socket.flatten.length < fuel → packet.header.keepAlive = true → 0 < receivedBytes →
    (∀ segment ∈ socket, segment ≠ []) →
    ((∀ round ∈ requestLoop me garbage fuel packet receivedBytes socket,
        packetLength round.available = none → round.Rejected) ↔
      ∀ count rest, Handshakes me count socket.flatten rest → packetLength rest = none →
        rest.length < 13 ∧ ¬ (packetBefore me packet count).TakenBy me) := by
  intro fuel
  induction fuel with
  | zero => exact fun packet receivedBytes socket hfuel => absurd hfuel (Nat.not_lt_zero _)
  | succ fuel ih =>
    intro packet receivedBytes socket hfuel hkeep hreceived hseg
    cases hwhole : packetLength socket.flatten with
    | none =>
      rw [requestLoop_truncated fuel hkeep hreceived hseg hwhole]
      refine ⟨fun h count rest hshakes hpart => ?_, fun h => h 0 _ (.zero _) hwhole⟩
      cases hshakes with
      | zero => exact h
      | succ whole => cases hwhole.symm.trans whole
    | some length =>
      obtain ⟨received, socket', hrun, hprocess, hoperation, hflat, hseg', hpos, hlength⟩ :=
        @recv2_whole (garbage fuel) packet socket hseg length hwhole
      -- the first packet is whole, so nothing is asked of its round
      have hfirst : ∀ (received : Option Int) (called : Option SocketOperation),
          packetLength (Round.available ⟨socket.flatten, received, called⟩) = none → False := by
        intro received called hpart
        cases hwhole.symm.trans hpart
      have hsingle : ∀ (received : Option Int) (called : Option SocketOperation),
          ∀ round ∈ [(⟨socket.flatten, received, called⟩ : Round)],
            packetLength round.available = none → round.Rejected := by
        intro received called round hround hpart
        obtain rfl := List.mem_singleton.mp hround
        exact (hfirst received called hpart).elim
      rw [requestLoop, if_neg (not_ended hkeep hreceived), hrun]
      dsimp only
      split
      · next hsource =>
        refine iff_of_true (hsingle _ _) fun count rest hshakes hpart => ?_
        cases hshakes with
        | zero => cases hwhole.symm.trans hpart
        | succ whole source =>
          rw [hprocess] at hsource
          cases hsource.symm.trans source
      · next hsource =>
        split
        · next hhandshake =>
          rw [hprocess] at hsource
          rw [hoperation] at hhandshake
          have hshorter : socket'.flatten.length < fuel := by
            rw [hflat, List.length_drop]
            omega
          -- the handshake is answered, and the rest of the stream is served with its packet
          have hnext := ih (handshakeAnswer me) (length : Int) socket' hshorter rfl
            (Int.natCast_pos.mpr hpos) hseg'
          refine Iff.trans ⟨fun h round hround => ?_, fun h round hround hpart => ?_⟩ (hnext.trans
            ⟨fun h count rest hshakes hpart => ?_, fun h count rest hshakes hpart => ?_⟩)
          · exact h round (List.mem_cons_of_mem _ hround)
          · obtain rfl | hround := List.mem_cons.mp hround
            · exact (hfirst _ _ hpart).elim
            · exact h round hround hpart
          · cases hshakes with
            | zero => cases hwhole.symm.trans hpart
            | @succ count other _ _ whole source handshake others =>
              obtain rfl := Option.some.inj (hwhole.symm.trans whole)
              rw [← hflat] at others
              have hlast := h count rest others hpart
              cases count <;> exact hlast
          · rw [hflat] at hshakes
            have hlast := h (count + 1) rest
              (.succ hwhole (eq_true_of_ne_false hsource) hhandshake hshakes) hpart
            cases count <;> exact hlast
        · next hhandshake =>
          refine iff_of_true (hsingle _ _) fun count rest hshakes hpart => ?_
          cases hshakes with
          | zero => cases hwhole.symm.trans hpart
          | succ whole source handshake =>
            rw [hoperation] at hhandshake
            exact absurd handshake hhandshake

/-- **When truncated packets are rejected.**  A connection's truncated packet comes after some
handshakes.  It is rejected if and only if less than its fixed part has come, and what the
packet has is not taken for a request: after a handshake the server is not a memory, and
before the first packet its memory does not happen to have one. -/
theorem rejectsTruncated_iff (me : Process) (garbage : Nat → Nat → Byte) (packet : Packet)
    (socket : Socket) (hseg : ∀ segment ∈ socket, segment ≠ []) :
    RejectsTruncated me garbage packet socket ↔
      ∀ count rest, Handshakes me count socket.flatten rest → packetLength rest = none →
        rest.length < 13 ∧ if count = 0 then ¬ packet.TakenBy me else me ≠ .memory := by
  unfold RejectsTruncated handleRequest
  rw [requestLoop_rejects_iff _ _ _ _ (Nat.lt_succ_self _) rfl (by decide) hseg]
  refine forall_congr' fun count => forall_congr' fun rest => forall_congr' fun _ =>
    forall_congr' fun _ => ?_
  refine and_congr_right fun _ => ?_
  cases count with
  | zero => exact Iff.rfl
  | succ count => exact not_congr handshakeAnswer_taken

end Truncated

/-- Three bytes that come to a filesystem. -/
theorem rejectsTruncated_three : RejectsTruncated .filesystem (fun _ _ => 0)
    ⟨⟨.unknown, .handshakeIn, true, 0, [], true⟩, []⟩ [[3, 0], [0]] := by
  refine (rejectsTruncated_iff _ _ _ _ (by decide)).mpr fun count rest hshakes hpart => ?_
  cases hshakes with
  | zero => exact ⟨by decide, fun htaken => htaken.2 rfl⟩
  | succ whole => cases whole

/-- The kernel shakes hands with a memory and closes the connection, and the callback of
`HANDSHAKE_OUT` is called. -/
theorem handshake_taken : ¬ RejectsTruncated .memory (fun _ _ => 0)
    ⟨⟨.unknown, .handshakeIn, true, 0, [], true⟩, []⟩
      [(buildPacket .kernel .handshakeIn true () true).wrapper] := by
  intro h
  have hround : (⟨[], some 0, some .handshakeOut⟩ : Round) ∈ handleRequest .memory (fun _ _ => 0)
      ⟨⟨.unknown, .handshakeIn, true, 0, [], true⟩, []⟩
      [(buildPacket .kernel .handshakeIn true () true).wrapper] := by decide
  cases (h _ hround rfl).2

end Lissandra
