import Tasks.Kit.Bytes

/-! Additional Task 1: the headers that `server.c` and `client.c` lay over their buffers.
Fields hold what is in memory, so a field in network order is byte-swapped. -/
namespace Tasks.Udp
open Kit Kit.Bytes

def bufferSize : Nat := 1024
def ipprotoUdp : UInt8 := 17

abbrev htons : UInt16 → UInt16 := swap
abbrev ntohs : UInt16 → UInt16 := swap

@[ext] structure Iphdr where
  ihl : Fin 16
  version : Fin 16
  tos : UInt8
  totLen : UInt16
  id : UInt16
  fragOff : UInt16
  ttl : UInt8
  protocol : UInt8
  check : UInt16
  saddr : UInt32
  daddr : UInt32
  deriving DecidableEq, Repr

@[ext] structure Udphdr where
  source : UInt16
  dest : UInt16
  len : UInt16
  check : UInt16
  deriving DecidableEq, Repr

def Iphdr.bytes (h : Iphdr) : Vector UInt8 20 := #v[
  UInt8.ofNat (h.ihl.val + 16 * h.version.val), h.tos, low h.totLen, high h.totLen,
  low h.id, high h.id, low h.fragOff, high h.fragOff,
  h.ttl, h.protocol, low h.check, high h.check,
  low (lower h.saddr), high (lower h.saddr), low (upper h.saddr), high (upper h.saddr),
  low (lower h.daddr), high (lower h.daddr), low (upper h.daddr), high (upper h.daddr)]

def Iphdr.ofBytes (v : Vector UInt8 20) : Iphdr where
  ihl := ⟨(v.get 0).toNat % 16, Nat.mod_lt _ (by decide)⟩
  version := ⟨(v.get 0).toNat / 16 % 16, Nat.mod_lt _ (by decide)⟩
  tos := v.get 1
  totLen := pair (v.get 2) (v.get 3)
  id := pair (v.get 4) (v.get 5)
  fragOff := pair (v.get 6) (v.get 7)
  ttl := v.get 8
  protocol := v.get 9
  check := pair (v.get 10) (v.get 11)
  saddr := quad (pair (v.get 12) (v.get 13)) (pair (v.get 14) (v.get 15))
  daddr := quad (pair (v.get 16) (v.get 17)) (pair (v.get 18) (v.get 19))

def Udphdr.bytes (h : Udphdr) : Vector UInt8 8 := #v[
  low h.source, high h.source, low h.dest, high h.dest,
  low h.len, high h.len, low h.check, high h.check]

def Udphdr.ofBytes (v : Vector UInt8 8) : Udphdr where
  source := pair (v.get 0) (v.get 1)
  dest := pair (v.get 2) (v.get 3)
  len := pair (v.get 4) (v.get 5)
  check := pair (v.get 6) (v.get 7)

/-- The cast `(struct iphdr *)buffer`. -/
def loadIphdr (buffer : Bytes) : Except Fault Iphdr := do
  let v ← load buffer 0 20
  return .ofBytes v

/-- The cast `(struct udphdr *)(buffer + iphdrlen)`. -/
def loadUdphdr (buffer : Bytes) (iphdrlen : Nat) : Except Fault Udphdr := do
  let v ← load buffer iphdrlen 8
  return .ofBytes v

@[simp] theorem iphdr_ofBytes_bytes (h : Iphdr) : Iphdr.ofBytes h.bytes = h := by
  have := h.ihl.isLt
  have := h.version.isLt
  have packed : (UInt8.ofNat (h.ihl.val + 16 * h.version.val)).toNat =
      h.ihl.val + 16 * h.version.val := by
    rw [UInt8.toNat_ofNat']
    omega
  have first : (Iphdr.ofBytes h.bytes).ihl = h.ihl := by
    have read : (Iphdr.ofBytes h.bytes).ihl.val =
        (UInt8.ofNat (h.ihl.val + 16 * h.version.val)).toNat % 16 := rfl
    apply Fin.ext
    omega
  have second : (Iphdr.ofBytes h.bytes).version = h.version := by
    have read : (Iphdr.ofBytes h.bytes).version.val =
        (UInt8.ofNat (h.ihl.val + 16 * h.version.val)).toNat / 16 % 16 := rfl
    apply Fin.ext
    omega
  have address (w : UInt32) : quad (pair (low (lower w)) (high (lower w)))
      (pair (low (upper w)) (high (upper w))) = w := by simp
  exact Iphdr.ext first second rfl (pair_low_high _) (pair_low_high _) (pair_low_high _) rfl rfl
    (pair_low_high _) (address _) (address _)

@[simp] theorem udphdr_ofBytes_bytes (h : Udphdr) : Udphdr.ofBytes h.bytes = h := by
  exact Udphdr.ext (pair_low_high _) (pair_low_high _) (pair_low_high _) (pair_low_high _)

theorem loadIphdr_append (h : Iphdr) (rest : Bytes) :
    loadIphdr (h.bytes.toList ++ rest) = .ok h := by
  have read := load_append [] h.bytes rest
  simp only [List.nil_append, List.length_nil] at read
  simp [loadIphdr, read, pure, Except.pure]

theorem loadUdphdr_append (before : Bytes) (h : Udphdr) (rest : Bytes) :
    loadUdphdr (before ++ h.bytes.toList ++ rest) before.length = .ok h := by
  rw [loadUdphdr, load_append]
  simp [pure, Except.pure]

end Tasks.Udp
