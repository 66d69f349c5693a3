import Tasks.Udp.Client

/-! Module 3, Task 17: `raw.c` appends to `file.bin` what the chat server, which sends plain text, sends over
the loopback. It skips an `int` in front of the text. -/
namespace Tasks.Udp.Sniffer

open Kit Kit.Bytes Client

/-- What a packet comes to; `open` fails in the fourth case. -/
inductive Outcome where
  | tooShort
  | foreign
  | noData
  | notOpened
  | written (data : Bytes)
  deriving DecidableEq

def Outcome.appended : Outcome → Bytes
  | .written data => data
  | _ => []

/-- The port of a foreign address is not read. -/
def handlePacket (opens : Bool) (buffer : Bytes) (size : Nat) : Except Fault Outcome := do
  if size < 20 + 8 + 4 then return .tooShort
  let iph ← loadIphdr buffer
  if iph.saddr ≠ loopback then return .foreign
  let udph ← loadUdphdr buffer (iph.ihl.val * 4)
  if udph.source ≠ htons 8080 then return .foreign
  let data ← cstr buffer (iph.ihl.val * 4 + 8 + 4)
  if 0 < data.length then
    if opens then return .written data else return .notOpened
  else return .noData

def datagram (iph : Iphdr) (options : Bytes) (udph : Udphdr) (payload : Bytes) : Bytes :=
  iph.bytes.toList ++ options ++ udph.bytes.toList ++ payload

def FromServer (iph : Iphdr) (udph : Udphdr) : Prop := iph.saddr = loopback ∧ udph.source = htons 8080

instance (iph : Iphdr) (udph : Udphdr) : Decidable (FromServer iph udph) := inferInstanceAs (Decidable (_ ∧ _))

/-- The payload of the server's datagrams is appended and that of no other; `spare` zeros of the buffer
are behind the datagram. -/
def Keeps (opens : Bool) (iph : Iphdr) (options : Bytes) (udph : Udphdr) (payload : Bytes) (spare : Nat) :
    Prop :=
  ∃ outcome, handlePacket opens (datagram iph options udph payload ++ zeros spare)
      (datagram iph options udph payload).length = .ok outcome ∧
    outcome.appended = if FromServer iph udph then payload else []

section Packets

variable {opens : Bool} {iph : Iphdr} {udph : Udphdr} {options payload : Bytes} {outcome : Outcome}

theorem load_datagram (ihl : 5 ≤ iph.ihl.val) (filled : options.length = 4 * (iph.ihl.val - 5)) (udph : Udphdr)
    (payload rest : Bytes) :
    loadIphdr (datagram iph options udph payload ++ rest) = .ok iph ∧
      loadUdphdr (datagram iph options udph payload ++ rest) (iph.ihl.val * 4) = .ok udph := by
  constructor
  · rw [datagram, List.append_assoc, List.append_assoc, List.append_assoc]
    exact loadIphdr_append iph _
  · have front : (iph.bytes.toList ++ options).length = iph.ihl.val * 4 := by
      rw [List.length_append, Vector.length_toList, filled]
      omega
    rw [datagram, List.append_assoc, ← front]
    exact loadUdphdr_append _ udph _

/-- The text that is stored starts four bytes behind the start of the payload. -/
theorem cstr_datagram (ihl : 5 ≤ iph.ihl.val) (filled : options.length = 4 * (iph.ihl.val - 5))
    (clean : 0 ∉ payload)
    (found : cstr (datagram iph options udph payload ++ zeros spare) (iph.ihl.val * 4 + 8 + 4) = .ok data) :
    data = payload.drop 4 := by
  have front : (iph.bytes.toList ++ options ++ udph.bytes.toList).length = iph.ihl.val * 4 + 8 := by
    rw [List.length_append, List.length_append, Vector.length_toList, Vector.length_toList, filled]
    omega
  obtain ⟨_, rfl⟩ := cstr_text found
  have behind : (zeros spare).drop (4 - payload.length) = zeros (spare - (4 - payload.length)) :=
    List.drop_replicate
  rw [datagram, List.append_assoc, ← front, List.drop_length_add_append, List.drop_append, behind,
    takeWhile_zeros]
  exact text_clean fun member => clean (List.mem_of_mem_drop member)

/-- No datagram of the server is stored whole. -/
theorem appended_shorter (ihl : 5 ≤ iph.ihl.val) (filled : options.length = 4 * (iph.ihl.val - 5))
    (clean : 0 ∉ payload) (some : payload ≠ []) (server : FromServer iph udph)
    (done : handlePacket opens (datagram iph options udph payload ++ zeros spare) size = .ok outcome) :
    outcome.appended.length < payload.length := by
  have positive := List.length_pos_iff.mpr some
  obtain ⟨ip, udp⟩ := load_datagram ihl filled udph payload (zeros spare)
  by_cases short : size < 20 + 8 + 4
  · simp only [handlePacket, if_pos short] at done
    cases done
    exact positive
  · simp only [handlePacket, if_neg short, ip, ok_bind, udp, server.1, server.2, ne_eq, not_true,
      if_false] at done
    obtain ⟨data, found, done⟩ := bind_eq_ok.mp done
    obtain rfl := cstr_datagram ihl filled clean found
    split at done
    next more =>
      rw [List.length_drop] at more
      cases opens with
      | true =>
        cases done
        rw [Outcome.appended, List.length_drop]
        omega
      | false =>
        cases done
        exact positive
    next =>
      cases done
      exact positive

theorem handlePacket_foreign (opens : Bool) (ihl : 5 ≤ iph.ihl.val)
    (filled : options.length = 4 * (iph.ihl.val - 5)) (other : ¬ FromServer iph udph) (payload : Bytes)
    (spare size : Nat) :
    ∃ outcome, handlePacket opens (datagram iph options udph payload ++ zeros spare) size = .ok outcome ∧
      outcome.appended = [] := by
  obtain ⟨ip, udp⟩ := load_datagram ihl filled udph payload (zeros spare)
  by_cases short : size < 20 + 8 + 4
  · exact ⟨.tooShort, by simp only [handlePacket, if_pos short]; rfl, rfl⟩
  · refine ⟨.foreign, ?_, rfl⟩
    by_cases address : iph.saddr = loopback
    · have port : udph.source ≠ htons 8080 := fun same => other ⟨address, same⟩
      simp only [handlePacket, if_neg short, ip, ok_bind, udp, address, ne_eq, not_true, if_false, if_pos port]
      rfl
    · simp only [handlePacket, if_neg short, ip, ok_bind, ne_eq, if_pos address]
      rfl

theorem keeps_iff (opens : Bool) (ihl : 5 ≤ iph.ihl.val) (filled : options.length = 4 * (iph.ihl.val - 5))
    (clean : 0 ∉ payload) (some : payload ≠ []) (spare : Nat) :
    Keeps opens iph options udph payload spare ↔ ¬ FromServer iph udph := by
  constructor
  · rintro ⟨outcome, done, kept⟩ server
    have shorter := appended_shorter ihl filled clean some server done
    rw [kept, if_pos server] at shorter
    exact Nat.lt_irrefl _ shorter
  · intro other
    obtain ⟨outcome, done, nothing⟩ := handlePacket_foreign opens ihl filled other payload spare _
    exact ⟨outcome, done, by rw [nothing, if_neg other]⟩

/-- A header without options; addresses are as they are in memory. -/
def plainIphdr (saddr : UInt32) : Iphdr :=
  ⟨⟨5, by decide⟩, ⟨4, by decide⟩, 0, 0, 0, 0, 64, ipprotoUdp, 0, saddr, loopback⟩

theorem keeps_iff_foreign :
    Keeps true (plainIphdr loopback) [] ⟨htons 9090, htons 8080, 0, 0⟩ (ascii "hello") 995 :=
  (keeps_iff true (by decide) (by decide) (by decide) (by decide) 995).mpr (by decide)

/-- Of `hello` one byte is stored. -/
theorem hello_cut :
    ¬ ∀ iph options udph payload spare, 5 ≤ iph.ihl.val → options.length = 4 * (iph.ihl.val - 5) → 0 ∉ payload →
      1 ≤ payload.length → payload.length ≤ 960 → Keeps true iph options udph payload spare := by
  intro all
  obtain ⟨outcome, done, kept⟩ := all (plainIphdr loopback) [] ⟨htons 8080, htons 9091, 0, 0⟩
    (ascii "hello") 995 (by decide) (by decide) (by decide) (by decide) (by decide)
  have shorter := appended_shorter (by decide) (by decide) (by decide) (by decide) ⟨rfl, rfl⟩ done
  rw [kept, if_pos ⟨rfl, rfl⟩] at shorter
  exact Nat.lt_irrefl _ shorter

end Packets
end Tasks.Udp.Sniffer
