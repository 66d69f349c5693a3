import Tasks.Udp.Packet
import Tasks.Udp.ClientRuns

/-! The receive loop of `server.c` on the bytes of each datagram, and what it makes of a
run of them: the table is the one that the decoded datagrams give. -/
namespace Tasks.Udp.Server
open Kit Kit.Bytes

def closeConnection : Bytes := ascii "CLOSE_CONNECTION"

/-- `snprintf(reply, BUFFER_SIZE, "%s %d", ...)` -/
def replyText (data : Bytes) (count : Int) : Bytes :=
  (data ++ 32 :: decimal count).take (bufferSize - 1)

def dataOffset (iph : Iphdr) : Nat := 4 * iph.ihl.val + 8

def answer (beyond : Option UInt8) (buffer : Bytes) (iph : Iphdr) (udph : Udphdr) (count : Int) :
    Except Fault Bytes := do
  let data ← cstr buffer (dataOffset iph)
  sendPacket beyond 54321 iph.daddr iph.saddr udph.dest udph.source (replyText data count)

structure Request where
  iph : Iphdr
  udph : Udphdr
  close : Bool

def Request.datagram (r : Request) : Datagram :=
  ⟨⟨r.iph.saddr, ntohs r.udph.source⟩, r.close⟩

def parse (serverPort : UInt16) (buffer : Bytes) : Except Fault (Option Request) := do
  let iph ← loadIphdr buffer
  let udph ← loadUdphdr buffer (4 * iph.ihl.val)
  if iph.protocol ≠ ipprotoUdp ∨ ntohs udph.dest ≠ serverPort then
    return none
  let close ← strcmp buffer (dataOffset iph) closeConnection
  return some ⟨iph, udph, close⟩

/-- One turn of the loop: the next table and the packet sent, if there is one. -/
def iterate (serverPort : UInt16) (beyond : Option UInt8) (clients : Clients maxClients)
    (datagram : Bytes) : Except Fault (Clients maxClients × Option Bytes) := do
  let buffer := received datagram
  match ← parse serverPort buffer with
  | none => return (clients, none)
  | some r =>
    match dispatch clients r.datagram.source r.close with
    | (clients, .answered count) =>
      let packet ← answer beyond buffer r.iph r.udph count
      return (clients, some packet)
    | (clients, _) => return (clients, none)

section Turns

variable {serverPort : UInt16} {beyond : Option UInt8} {clients : Clients maxClients}
  {datagram : Bytes}

theorem closeConnection_clean : 0 ∉ closeConnection := by decide

theorem parse_isOk (serverPort : UInt16) (buffer : Bytes) (full : buffer.length = bufferSize) :
    ∃ r, parse serverPort buffer = .ok r := by
  obtain ⟨first, read⟩ := load_isOk buffer 0 20 (by simp [full, bufferSize])
  have short := (Iphdr.ofBytes first).ihl.isLt
  obtain ⟨second, read'⟩ := load_isOk buffer (4 * (Iphdr.ofBytes first).ihl.val) 8
    (by simp only [full, bufferSize]; omega)
  obtain ⟨close, compared⟩ := strcmp_isOk buffer (dataOffset (Iphdr.ofBytes first)) closeConnection
    (by simp only [full, bufferSize, dataOffset, show closeConnection.length = 16 from rfl]; omega)
  simp only [parse, loadIphdr, loadUdphdr, read, ok_bind, pure, Except.pure, read', compared]
  split
  · exact ⟨_, rfl⟩
  · exact ⟨_, rfl⟩

theorem parse_iph (read : parse serverPort buffer = .ok (some r)) :
    loadIphdr buffer = .ok r.iph := by
  obtain ⟨iph, first, read⟩ := bind_eq_ok.mp read
  obtain ⟨udph, _, read⟩ := bind_eq_ok.mp read
  split at read
  next => cases read
  next =>
    obtain ⟨close, _, read⟩ := bind_eq_ok.mp read
    cases read
    exact first

/-- A turn by what was read and what the table decided. -/
theorem iterate_cases (serverPort : UInt16) (beyond : Option UInt8) (clients : Clients maxClients)
    (datagram : Bytes) :
    (parse serverPort (received datagram) = .ok none ∧
      iterate serverPort beyond clients datagram = .ok (clients, none)) ∨
    ∃ r, parse serverPort (received datagram) = .ok (some r) ∧
      ((∃ count, (dispatch clients r.datagram.source r.close).2 = .answered count ∧
        iterate serverPort beyond clients datagram =
          (answer beyond (received datagram) r.iph r.udph count).map fun packet =>
            ((dispatch clients r.datagram.source r.close).1, some packet)) ∨
      (∀ count, (dispatch clients r.datagram.source r.close).2 ≠ .answered count) ∧
        iterate serverPort beyond clients datagram =
          .ok ((dispatch clients r.datagram.source r.close).1, none)) := by
  obtain ⟨decoded, read⟩ := parse_isOk serverPort (received datagram) (received_length datagram)
  simp only [iterate, read, ok_bind]
  cases decoded with
  | none => exact .inl ⟨rfl, rfl⟩
  | some r =>
    refine .inr ⟨r, rfl, ?_⟩
    rcases decision : dispatch clients r.datagram.source r.close with ⟨next, outcome⟩
    cases outcome with
    | answered count =>
      refine .inl ⟨count, rfl, ?_⟩
      simp only [decision]
      cases answer beyond (received datagram) r.iph r.udph count <;> rfl
    | closed => exact .inr ⟨nofun, by simp [decision]; rfl⟩
    | refused => exact .inr ⟨nofun, by simp [decision]; rfl⟩

theorem replyText_short (data : Bytes) (count : Int) : (replyText data count).length < bufferSize := by
  have := List.length_take_le (bufferSize - 1) (data ++ 32 :: decimal count)
  simp only [replyText, bufferSize] at this ⊢
  omega

theorem answer_eq (beyond : Option UInt8) (iph : Iphdr) (udph : Udphdr) (count : Int)
    (found : cstr buffer (dataOffset iph) = .ok text)
    (fits : 20 + 8 + (replyText text count).length + 1 ≤ bufferSize) :
    answer beyond buffer iph udph count = .ok (packetBytes beyond 54321 iph.daddr iph.saddr
      udph.dest udph.source (replyText text count)) := by
  rw [answer, found, ok_bind, sendPacket_eq _ _ _ _ _ _ _ (replyText_short text count), if_pos fits]

end Turns

section Refinement

/-- What a datagram means to the table; none where it is skipped. -/
def decoded (serverPort : UInt16) (datagram : Bytes) : Option Datagram :=
  match parse serverPort (received datagram) with
  | .ok (some r) => some r.datagram
  | _ => none

/-- A turn, as far as the table goes. The input is a datagram and the byte that
`udp_checksum` finds after its scratch buffer. -/
def turn (serverPort : UInt16) (clients : Clients maxClients) (input : Option UInt8 × Bytes) :
    Except Fault (Clients maxClients) :=
  (iterate serverPort input.1 clients input.2).map Prod.fst

theorem turn_receives (done : turn serverPort s.clients input = .ok next) :
    next = (((decoded serverPort input.2).toList).foldl Session.receive s).clients := by
  unfold turn at done
  rcases iterate_cases serverPort input.1 s.clients input.2 with
    ⟨skipped, same⟩ | ⟨r, read, ⟨count, _, same⟩ | ⟨_, same⟩⟩
  · rw [same] at done
    cases done
    simp [decoded, skipped]
  · rw [same] at done
    cases sent : answer input.1 (received input.2) r.iph r.udph count with
    | error fault => simp [sent, Except.map] at done
    | ok packet =>
      simp only [sent, Except.map, Except.ok.injEq] at done
      simp [decoded, read, ← done, Session.receive, Request.datagram]
  · rw [same] at done
    cases done
    simp [decoded, read, Session.receive, Request.datagram]

/-- The loop over bytes keeps the table that `serve` keeps over decoded datagrams. -/
theorem loop_serves (serverPort : UInt16) (inputs : List (Option UInt8 × Bytes))
    (done : run (turn serverPort) (fun _ => zeroed) inputs = .ok clients) :
    clients = (serve ((inputs.map Prod.snd).filterMap (decoded serverPort))).clients := by
  have general (s : Session) (ended : run (turn serverPort) s.clients inputs = .ok clients) :
      clients = (((inputs.map Prod.snd).filterMap (decoded serverPort)).foldl
        Session.receive s).clients := by
    clear done
    induction inputs generalizing s with
    | nil =>
      cases ended
      rfl
    | cons input rest ih =>
      obtain ⟨next, first, later⟩ := bind_eq_ok.mp ended
      have received := turn_receives first
      rw [received] at later
      rw [ih _ later]
      cases meaning : decoded serverPort input.2 <;> simp [meaning]
  exact general .start done

end Refinement
end Tasks.Udp.Server
