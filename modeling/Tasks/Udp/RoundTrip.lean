import Tasks.Udp.ServerLoop
import Tasks.Udp.Client

/-! A message from the client to the server and its reply back, byte by byte: each program
reads from the other's packet what was written into it. -/
namespace Tasks.Udp
open Kit Kit.Bytes Kit.Lines Server Client

section Decoding

variable (beyond : Option UInt8) (id : UInt16) (saddr daddr : UInt32) (source dest : UInt16)
  {text : Bytes}

def sentUdphdr (text : Bytes) : Udphdr :=
  let data := text ++ [0]
  { packetUdphdr source dest data.length with
    check := udpChecksum beyond (packetIphdr id saddr daddr data.length)
      (packetUdphdr source dest data.length) data }

theorem received_packet (fits : 20 + 8 + text.length + 1 ≤ bufferSize) :
    ∃ rest, received (packetBytes beyond id saddr daddr source dest text) =
      (packetIphdr id saddr daddr (text.length + 1)).bytes.toList ++
        (sentUdphdr beyond id saddr daddr source dest text).bytes.toList ++ text ++ 0 :: rest := by
  rw [received_short (by rw [packetBytes_length]; exact fits)]
  refine ⟨zeros (bufferSize - (packetBytes beyond id saddr daddr source dest text).length), ?_⟩
  simp [packetBytes, sentUdphdr]

theorem loadIphdr_packet (fits : 20 + 8 + text.length + 1 ≤ bufferSize) :
    loadIphdr (received (packetBytes beyond id saddr daddr source dest text)) =
      .ok (packetIphdr id saddr daddr (text.length + 1)) := by
  obtain ⟨rest, same⟩ := received_packet beyond id saddr daddr source dest fits
  rw [same, List.append_assoc, List.append_assoc]
  exact loadIphdr_append _ _

theorem loadUdphdr_packet (fits : 20 + 8 + text.length + 1 ≤ bufferSize) :
    loadUdphdr (received (packetBytes beyond id saddr daddr source dest text)) 20 =
      .ok (sentUdphdr beyond id saddr daddr source dest text) := by
  obtain ⟨rest, same⟩ := received_packet beyond id saddr daddr source dest fits
  have read := loadUdphdr_append (packetIphdr id saddr daddr (text.length + 1)).bytes.toList
    (sentUdphdr beyond id saddr daddr source dest text) (text ++ 0 :: rest)
  rw [Vector.length_toList, ← List.append_assoc] at read
  rw [same, read]

theorem cstr_packet (fits : 20 + 8 + text.length + 1 ≤ bufferSize) (clean : 0 ∉ text) :
    cstr (received (packetBytes beyond id saddr daddr source dest text)) 28 = .ok text := by
  obtain ⟨rest, same⟩ := received_packet beyond id saddr daddr source dest fits
  have read := cstr_append ((packetIphdr id saddr daddr (text.length + 1)).bytes.toList ++
    (sentUdphdr beyond id saddr daddr source dest text).bytes.toList) clean rest
  rw [List.length_append, Vector.length_toList, Vector.length_toList] at read
  rw [same, read]

theorem strcmp_packet (fits : 20 + 8 + text.length + 1 ≤ bufferSize) (clean : 0 ∉ text)
    (literal : Bytes) (cleanLiteral : 0 ∉ literal) :
    strcmp (received (packetBytes beyond id saddr daddr source dest text)) 28 literal =
      .ok (text == literal) := by
  obtain ⟨rest, same⟩ := received_packet beyond id saddr daddr source dest fits
  have read := strcmp_append ((packetIphdr id saddr daddr (text.length + 1)).bytes.toList ++
    (sentUdphdr beyond id saddr daddr source dest text).bytes.toList) clean literal cleanLiteral rest
  rw [List.length_append, Vector.length_toList, Vector.length_toList] at read
  rw [same, read]

/-- Both length fields count the bytes that are sent. -/
theorem packet_lengths (fits : 20 + 8 + text.length + 1 ≤ bufferSize) :
    (ntohs (packetIphdr id saddr daddr (text.length + 1)).totLen).toNat =
        (packetBytes beyond id saddr daddr source dest text).length ∧
      (ntohs (sentUdphdr beyond id saddr daddr source dest text).len).toNat =
        (packetBytes beyond id saddr daddr source dest text).length - 20 := by
  simp only [bufferSize] at fits
  constructor
  · rw [packetIphdr_totLen, UInt16.toNat_ofNat', packetBytes_length]
    omega
  · simp only [sentUdphdr, packetUdphdr, ntohs, htons, swap_swap, UInt16.toNat_ofNat',
      packetBytes_length, List.length_append, List.length_singleton]
    omega

/-- The server's view of a packet sent to its port. -/
theorem parse_packet (fits : 20 + 8 + text.length + 1 ≤ bufferSize) (clean : 0 ∉ text)
    (here : ntohs dest = serverPort) :
    parse serverPort (received (packetBytes beyond id saddr daddr source dest text)) =
      .ok (some ⟨packetIphdr id saddr daddr (text.length + 1),
        sentUdphdr beyond id saddr daddr source dest text, text == closeConnection⟩) := by
  have offset : dataOffset (packetIphdr id saddr daddr (text.length + 1)) = 28 := rfl
  have udp : 4 * (packetIphdr id saddr daddr (text.length + 1)).ihl.val = 20 := rfl
  have port : ntohs (sentUdphdr beyond id saddr daddr source dest text).dest = serverPort := here
  have protocol : (packetIphdr id saddr daddr (text.length + 1)).protocol = ipprotoUdp := rfl
  simp only [parse, loadIphdr_packet beyond id saddr daddr source dest fits, ok_bind, udp,
    loadUdphdr_packet beyond id saddr daddr source dest fits, offset, protocol, port,
    strcmp_packet beyond id saddr daddr source dest fits clean _ closeConnection_clean]
  simp [pure, Except.pure]

theorem parse_foreign (fits : 20 + 8 + text.length + 1 ≤ bufferSize) (elsewhere : ntohs dest ≠ serverPort) :
    parse serverPort (received (packetBytes beyond id saddr daddr source dest text)) = .ok none := by
  have udp : 4 * (packetIphdr id saddr daddr (text.length + 1)).ihl.val = 20 := rfl
  have port : ntohs (sentUdphdr beyond id saddr daddr source dest text).dest ≠ serverPort := elsewhere
  simp only [parse, loadIphdr_packet beyond id saddr daddr source dest fits, ok_bind, udp,
    loadUdphdr_packet beyond id saddr daddr source dest fits]
  rw [if_pos (.inr port)]
  rfl

/-- The client's view of a packet sent to its port. -/
theorem readReply_packet (fits : 20 + 8 + text.length + 1 ≤ bufferSize) (clean : 0 ∉ text)
    (here : ntohs dest = cfg.clientPort) :
    readReply cfg (packetBytes beyond id saddr daddr source dest text) = .ok (some text) := by
  have udp : 4 * (packetIphdr id saddr daddr (text.length + 1)).ihl.val = 20 := rfl
  have port : ntohs (sentUdphdr beyond id saddr daddr source dest text).dest = cfg.clientPort := here
  have protocol : (packetIphdr id saddr daddr (text.length + 1)).protocol = ipprotoUdp := rfl
  simp only [readReply, loadIphdr_packet beyond id saddr daddr source dest fits, ok_bind, udp,
    loadUdphdr_packet beyond id saddr daddr source dest fits, protocol, port,
    cstr_packet beyond id saddr daddr source dest fits clean]
  simp [pure, Except.pure]

theorem readReply_foreign (fits : 20 + 8 + text.length + 1 ≤ bufferSize)
    (elsewhere : ntohs dest ≠ cfg.clientPort) :
    readReply cfg (packetBytes beyond id saddr daddr source dest text) = .ok none := by
  have udp : 4 * (packetIphdr id saddr daddr (text.length + 1)).ihl.val = 20 := rfl
  have port : ntohs (sentUdphdr beyond id saddr daddr source dest text).dest ≠ cfg.clientPort :=
    elsewhere
  simp only [readReply, loadIphdr_packet beyond id saddr daddr source dest fits, ok_bind, udp,
    loadUdphdr_packet beyond id saddr daddr source dest fits]
  rw [if_pos (.inr port)]
  rfl

def Measured (packet : Bytes) : Prop :=
  ∃ iph udph, loadIphdr (received packet) = .ok iph ∧
    loadUdphdr (received packet) (4 * iph.ihl.val) = .ok udph ∧
    (ntohs iph.totLen).toNat = packet.length ∧ (ntohs udph.len).toNat = packet.length - 20

theorem packet_measured (fits : 20 + 8 + text.length + 1 ≤ bufferSize) :
    Measured (packetBytes beyond id saddr daddr source dest text) :=
  ⟨_, _, loadIphdr_packet beyond id saddr daddr source dest fits,
    loadUdphdr_packet beyond id saddr daddr source dest fits,
    packet_lengths beyond id saddr daddr source dest fits⟩

end Decoding

structure Echoed (cfg : Config) (beyond beyond' : Option UInt8) (clients : Clients maxClients)
    (m : Bytes) (count : Int) (request reply : Bytes) : Prop where
  typed : ∀ rest, fgets bufferSize (m ++ 10 :: rest) = some (m ++ [10], rest)
  sent : sendLine cfg beyond (m ++ [10]) = .ok (some request)
  decoded : ∃ r, parse cfg.serverPort (received request) = .ok (some r) ∧
    r.datagram = ⟨⟨loopback, cfg.clientPort⟩, false⟩ ∧
    cstr (received request) (dataOffset r.iph) = .ok m
  replied : iterate cfg.serverPort beyond' clients request =
    .ok ((dispatch clients ⟨loopback, cfg.clientPort⟩ false).1, some reply)
  printed : readReply cfg reply = .ok (some (m ++ 32 :: decimal count))
  requestMeasured : Measured request
  replyMeasured : Measured reply

section Echo

variable (cfg : Config) (beyond : Option UInt8) {clients : Clients maxClients} {m : Bytes} {count : Int}

def requestBytes (m : Bytes) : Bytes :=
  packetBytes beyond 12345 loopback cfg.serverIp (htons cfg.clientPort) (htons cfg.serverPort) m

def replyBytes (m : Bytes) (count : Int) : Bytes :=
  packetBytes beyond 54321 cfg.serverIp loopback (htons cfg.serverPort) (htons cfg.clientPort)
    (m ++ 32 :: decimal count)

def requestRead (m : Bytes) : Request :=
  ⟨packetIphdr 12345 loopback cfg.serverIp (m.length + 1),
    sentUdphdr beyond 12345 loopback cfg.serverIp (htons cfg.clientPort) (htons cfg.serverPort) m,
    m == closeConnection⟩

theorem requestRead_datagram :
    (requestRead cfg beyond m).datagram = ⟨⟨loopback, cfg.clientPort⟩, m == closeConnection⟩ := by
  simp [requestRead, Request.datagram, packetIphdr, sentUdphdr, packetUdphdr]

theorem parse_request (clean : 0 ∉ m) (fits : 20 + 8 + m.length + 1 ≤ bufferSize) :
    parse cfg.serverPort (received (requestBytes cfg beyond m)) = .ok (some (requestRead cfg beyond m)) :=
  parse_packet beyond 12345 loopback cfg.serverIp (htons cfg.clientPort) (htons cfg.serverPort) fits
    clean (swap_swap cfg.serverPort)

theorem cstr_request (clean : 0 ∉ m) (fits : 20 + 8 + m.length + 1 ≤ bufferSize) :
    cstr (received (requestBytes cfg beyond m)) (dataOffset (requestRead cfg beyond m).iph) = .ok m :=
  cstr_packet beyond 12345 loopback cfg.serverIp (htons cfg.clientPort) (htons cfg.serverPort) fits clean

theorem sendLine_request (nonempty : m ≠ []) (clean : 0 ∉ m) (oneLine : 10 ∉ m)
    (fits : 20 + 8 + m.length + 1 ≤ bufferSize) :
    sendLine cfg beyond (m ++ [10]) = .ok (some (requestBytes cfg beyond m)) := by
  have text : message (m ++ [10]) = m := message_text m clean oneLine []
  rw [sendLine, text, if_neg (by simpa using nonempty), sendMessage,
    sendPacket_eq _ _ _ _ _ _ _ (by omega), if_pos fits]
  rfl

theorem iterate_turn (beyond' : Option UInt8) (clients : Clients maxClients) (clean : 0 ∉ m)
    (fits : 20 + 8 + m.length + 1 ≤ bufferSize) :
    (∃ count, (dispatch clients ⟨loopback, cfg.clientPort⟩ (m == closeConnection)).2 = .answered count ∧
      iterate cfg.serverPort beyond' clients (requestBytes cfg beyond m) =
        (answer beyond' (received (requestBytes cfg beyond m)) (requestRead cfg beyond m).iph
          (requestRead cfg beyond m).udph count).map fun packet =>
            ((dispatch clients ⟨loopback, cfg.clientPort⟩ (m == closeConnection)).1, some packet)) ∨
    (∀ count, (dispatch clients ⟨loopback, cfg.clientPort⟩ (m == closeConnection)).2 ≠ .answered count) ∧
      iterate cfg.serverPort beyond' clients (requestBytes cfg beyond m) =
        .ok ((dispatch clients ⟨loopback, cfg.clientPort⟩ (m == closeConnection)).1, none) := by
  have source := requestRead_datagram cfg beyond (m := m)
  have endpoint := congrArg Datagram.source source
  have closes : (requestRead cfg beyond m).close = (m == closeConnection) := congrArg Datagram.close source
  rcases iterate_cases cfg.serverPort beyond' clients (requestBytes cfg beyond m) with
    ⟨skipped, _⟩ | ⟨r, read, turned⟩
  · rw [parse_request cfg beyond clean fits] at skipped
    cases skipped
  · rw [parse_request cfg beyond clean fits] at read
    cases read
    rwa [endpoint, closes] at turned

/-- The packet that the client leaves behind is the command that frees its slot. -/
theorem iterate_close (beyond' : Option UInt8) (clients : Clients maxClients) :
    ∃ packet, sendCloseMessage cfg beyond = .ok packet ∧
      iterate cfg.serverPort beyond' clients packet =
        .ok (removeClient clients ⟨loopback, cfg.clientPort⟩, none) := by
  have clean := closeConnection_clean
  have fits : 20 + 8 + closeConnection.length + 1 ≤ bufferSize := by decide
  have sent : sendCloseMessage cfg beyond = .ok (requestBytes cfg beyond closeConnection) := by
    rw [sendCloseMessage, sendPacket_eq _ _ _ _ _ _ _ (by decide)]
    exact if_pos fits
  refine ⟨_, sent, ?_⟩
  have turn := iterate_turn cfg beyond beyond' clients clean fits
  rw [beq_self_eq_true] at turn
  rcases turn with ⟨_, answered, _⟩ | ⟨_, turned⟩
  · simp [dispatch] at answered
  · simpa only [dispatch, if_true] using turned

/-- Whatever is sent for a line is a request. -/
theorem sendLine_some (typed : fgets bufferSize input = some (line, rest))
    (built : sendLine cfg beyond line = .ok (some packet)) :
    20 + 8 + (message line).length + 1 ≤ bufferSize ∧
      packet = requestBytes cfg beyond (message line) := by
  have short : (message line).length < bufferSize := by
    rw [message_fgets typed]
    have := List.length_take_le (bufferSize - 1) (message input)
    simp only [bufferSize] at this ⊢
    omega
  unfold sendLine at built
  split at built
  next => cases built
  next =>
    rw [sendMessage, sendPacket_eq _ _ _ _ _ _ _ short] at built
    split at built
    next fits =>
      cases built
      exact ⟨fits, rfl⟩
    next => cases built

theorem iterate_request (beyond' : Option UInt8) (clean : 0 ∉ m) (notClose : m ≠ closeConnection)
    (fits : 20 + 8 + m.length + 1 ≤ bufferSize)
    (answered : (dispatch clients ⟨loopback, cfg.clientPort⟩ false).2 = .answered count)
    (replyFits : 20 + 8 + (m ++ 32 :: decimal count).length + 1 ≤ bufferSize) :
    iterate cfg.serverPort beyond' clients (requestBytes cfg beyond m) =
      .ok ((dispatch clients ⟨loopback, cfg.clientPort⟩ false).1,
        some (replyBytes cfg beyond' m count)) := by
  have turn := iterate_turn cfg beyond beyond' clients clean fits
  have whole : replyText m count = m ++ 32 :: decimal count := by
    apply List.take_of_length_le
    simp only [bufferSize] at replyFits ⊢
    omega
  have payload := cstr_request cfg beyond clean fits
  rw [← whole] at replyFits
  have packet := answer_eq beyond' (requestRead cfg beyond m).iph (requestRead cfg beyond m).udph
    count payload replyFits
  rw [beq_false_of_ne notClose, answered] at turn
  rcases turn with ⟨other, same, turned⟩ | ⟨unanswered, _⟩
  · cases same
    rw [turned, packet, whole]
    rfl
  · exact absurd rfl (unanswered count)

theorem readReply_reply (beyond' : Option UInt8) (clean : 0 ∉ m)
    (replyFits : 20 + 8 + (m ++ 32 :: decimal count).length + 1 ≤ bufferSize) :
    readReply cfg (replyBytes cfg beyond' m count) = .ok (some (m ++ 32 :: decimal count)) :=
  readReply_packet _ _ _ _ _ _ replyFits (by simp [clean, decimal_clean]) (swap_swap cfg.clientPort)

theorem echo_round_trip (beyond beyond' : Option UInt8) (clients : Clients maxClients) (m : Bytes)
    (count : Int) (nonempty : m ≠ []) (clean : 0 ∉ m) (oneLine : 10 ∉ m)
    (notClose : m ≠ closeConnection) (requestFits : 20 + 8 + m.length + 1 ≤ bufferSize)
    (answered : (dispatch clients ⟨loopback, cfg.clientPort⟩ false).2 = .answered count)
    (replyFits : 20 + 8 + (m ++ 32 :: decimal count).length + 1 ≤ bufferSize) :
    ∃ request reply, Echoed cfg beyond beyond' clients m count request reply := by
  have source := requestRead_datagram cfg beyond (m := m)
  rw [beq_false_of_ne notClose] at source
  refine ⟨requestBytes cfg beyond m, replyBytes cfg beyond' m count, ?_⟩
  constructor
  case typed =>
    intro rest
    apply fgets_line m rest oneLine
    simp only [bufferSize] at requestFits ⊢
    omega
  case sent => exact sendLine_request cfg beyond nonempty clean oneLine requestFits
  case decoded =>
    exact ⟨_, parse_request cfg beyond clean requestFits, source,
      cstr_request cfg beyond clean requestFits⟩
  case replied => exact iterate_request cfg beyond beyond' clean notClose requestFits answered replyFits
  case printed => exact readReply_reply cfg beyond' clean replyFits
  case requestMeasured => exact packet_measured _ _ _ _ _ _ requestFits
  case replyMeasured => exact packet_measured _ _ _ _ _ _ replyFits

/-- "hi" is answered by "hi 1". -/
theorem echo_round_trip_first : ∃ request reply,
    Echoed ⟨loopback, 9090, 54321⟩ (some 0) (some 0) (fun _ => zeroed) (ascii "hi") 1 request reply :=
  echo_round_trip _ _ _ _ _ _ (by decide) (by decide) (by decide) (by decide) (by decide)
    (by decide +kernel) (by decide)

end Echo
end Tasks.Udp
