import Tasks.Udp.Checksum

/-! How both programs build a packet and read one. The packet array is zeroed, so the
NUL after the text is the last byte that is copied. -/
namespace Tasks.Udp
open Kit Kit.Bytes

/-- The header of a packet with `dataLen` bytes of data, its own checksum filled in. -/
def packetIphdr (id : UInt16) (saddr daddr : UInt32) (dataLen : Nat) : Iphdr :=
  let iph : Iphdr := {
    version := 4
    ihl := 5
    tos := 0
    totLen := htons (UInt16.ofNat (20 + 8 + dataLen))
    id := htons id
    fragOff := 0
    ttl := 64
    protocol := ipprotoUdp
    saddr := saddr
    daddr := daddr
    check := 0 }
  { iph with check := csum iph.bytes.toList (iph.ihl.val * 2) }

def packetUdphdr (source dest : UInt16) (dataLen : Nat) : Udphdr :=
  ⟨source, dest, htons (UInt16.ofNat (8 + dataLen)), 0⟩

/-- `sendto`, which reads `len` bytes of the packet. -/
def sendto (packet : Bytes) (len : Nat) : Except Fault Bytes :=
  if len ≤ packet.length then .ok (packet.take len) else .error .outOfBounds

/-- The bytes that are sent. Source and destination port are as in the header. -/
def sendPacket (beyond : Option UInt8) (id : UInt16) (saddr daddr : UInt32) (source dest : UInt16)
    (text : Bytes) : Except Fault Bytes := do
  let data := text ++ [0]
  let iph := packetIphdr id saddr daddr data.length
  let udph := packetUdphdr source dest data.length
  let packet ← memcpy (zeros bufferSize) 0 iph.bytes.toList
  let packet ← memcpy packet 20 udph.bytes.toList
  let packet ← memcpy packet (20 + 8) data
  let udph := { udph with check := udpChecksum beyond iph udph data }
  let packet ← memcpy packet 20 udph.bytes.toList
  sendto packet (ntohs iph.totLen).toNat

/-- `recvfrom` into the zeroed buffer; a longer datagram is cut. -/
def received (datagram : Bytes) : Bytes :=
  datagram.take bufferSize ++ zeros (bufferSize - datagram.length)

def packetBytes (beyond : Option UInt8) (id : UInt16) (saddr daddr : UInt32) (source dest : UInt16)
    (text : Bytes) : Bytes :=
  let data := text ++ [0]
  let iph := packetIphdr id saddr daddr data.length
  let udph := packetUdphdr source dest data.length
  let check := udpChecksum beyond iph udph data
  iph.bytes.toList ++ { udph with check }.bytes.toList ++ text ++ [0]

section Packets

variable {text : Bytes}

@[simp] theorem received_length (datagram : Bytes) : (received datagram).length = bufferSize := by
  simp only [received, List.length_append, List.length_take, zeros_length]
  omega

theorem received_short (fits : datagram.length ≤ bufferSize) :
    received datagram = datagram ++ zeros (bufferSize - datagram.length) := by
  rw [received, List.take_of_length_le fits]

@[simp] theorem packetIphdr_totLen (id : UInt16) (saddr daddr : UInt32) (dataLen : Nat) :
    ntohs (packetIphdr id saddr daddr dataLen).totLen = UInt16.ofNat (20 + 8 + dataLen) := by
  simp [packetIphdr]

/-- The copies in order, for headers and data of any content. -/
theorem packet_copies (ip udp udp' data : Bytes) (ipLength : ip.length = 20)
    (udpLength : udp.length = 8) (sameLength : udp'.length = udp.length) (len : Nat)
    (exact : len = 20 + 8 + data.length) :
    (do
      let packet ← memcpy (zeros bufferSize) 0 ip
      let packet ← memcpy packet 20 udp
      let packet ← memcpy packet (20 + 8) data
      let packet ← memcpy packet 20 udp'
      sendto packet len) =
    if 20 + 8 + data.length ≤ bufferSize then .ok (ip ++ udp' ++ data) else .error .outOfBounds := by
  have first : memcpy (zeros bufferSize) 0 ip = .ok (ip ++ zeros 1004) := by
    simpa [ipLength, bufferSize] using memcpy_zeros [] ip 1024
  have second : memcpy (ip ++ zeros 1004) 20 udp = .ok (ip ++ udp ++ zeros 996) := by
    simpa [ipLength, udpLength] using memcpy_zeros ip udp 1004
  have third := memcpy_zeros (ip ++ udp) data 996
  rw [List.length_append, ipLength, udpLength] at third
  rw [first, ok_bind, second, ok_bind, third]
  by_cases fits : data.length ≤ 996
  · have fourth := memcpy_append ip udp (data ++ zeros (996 - data.length)) udp' sameLength
    rw [ipLength, ← List.append_assoc] at fourth
    rw [if_pos fits, ok_bind, fourth, ok_bind, sendto, if_pos, if_pos]
    · simp [exact, ipLength, udpLength, sameLength, ← List.append_assoc]
    · simp only [bufferSize]
      omega
    · simp [exact, ipLength, udpLength, sameLength]
      omega
  · rw [if_neg fits, if_neg]
    · rfl
    · simp only [bufferSize]
      omega

/-- A packet is built and sent exactly when headers, text and NUL fit into the array. -/
theorem sendPacket_eq (beyond : Option UInt8) (id : UInt16) (saddr daddr : UInt32)
    (source dest : UInt16) (text : Bytes) (small : text.length < bufferSize) :
    sendPacket beyond id saddr daddr source dest text =
      if 20 + 8 + text.length + 1 ≤ bufferSize then
        .ok (packetBytes beyond id saddr daddr source dest text)
      else .error .outOfBounds := by
  have exact : (ntohs (packetIphdr id saddr daddr (text ++ [0]).length).totLen).toNat =
      20 + 8 + (text ++ [0]).length := by
    rw [packetIphdr_totLen, UInt16.toNat_ofNat']
    simp only [List.length_append, List.length_singleton, bufferSize] at small ⊢
    omega
  rw [sendPacket, packet_copies _ _ _ _ (by simp) (by simp) (by simp) _ exact]
  simp [packetBytes, Nat.add_assoc]

@[simp] theorem packetBytes_length (beyond : Option UInt8) (id : UInt16) (saddr daddr : UInt32)
    (source dest : UInt16) (text : Bytes) :
    (packetBytes beyond id saddr daddr source dest text).length = 20 + 8 + text.length + 1 := by
  simp [packetBytes]
  omega

end Packets
end Tasks.Udp
