import Tasks.Kit.Lines
import Tasks.Udp.Packet

/-! `client.c`: one line of input is one packet, and one datagram is read for it. -/
namespace Tasks.Udp.Client
open Kit Kit.Bytes Kit.Lines

/-- `inet_addr("127.0.0.1")` -/
def loopback : UInt32 := 0x0100007f

/-- The ports and the server's address, as they are set at the start. -/
structure Config where
  serverIp : UInt32
  serverPort : UInt16
  clientPort : UInt16

def sendMessage (cfg : Config) (beyond : Option UInt8) (text : Bytes) : Except Fault Bytes :=
  sendPacket beyond 12345 loopback cfg.serverIp (htons cfg.clientPort) (htons cfg.serverPort) text

/-- The packet sent for a line, none for an empty message. -/
def sendLine (cfg : Config) (beyond : Option UInt8) (line : Bytes) : Except Fault (Option Bytes) :=
  if (message line).length = 0 then return none
  else do
    let packet ← sendMessage cfg beyond (message line)
    return some packet

def sendCloseMessage (cfg : Config) (beyond : Option UInt8) : Except Fault Bytes :=
  sendPacket beyond 12345 loopback cfg.serverIp (htons cfg.clientPort) (htons cfg.serverPort)
    (ascii "CLOSE_CONNECTION")

/-- The text printed after `Server reply: `, none where the datagram is for another port. -/
def readReply (cfg : Config) (datagram : Bytes) : Except Fault (Option Bytes) := do
  let buffer := received datagram
  let iph ← loadIphdr buffer
  let udph ← loadUdphdr buffer (4 * iph.ihl.val)
  if iph.protocol ≠ ipprotoUdp ∨ ntohs udph.dest ≠ cfg.clientPort then
    return none
  let data ← cstr buffer (4 * iph.ihl.val + 8)
  return some data

end Tasks.Udp.Client
