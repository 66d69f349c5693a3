import Tasks.Udp.ServerLoop
import Tasks.Udp.Client

/-! Which inputs keep both programs inside their three arrays of `bufferSize` bytes: the
received datagram, the reply text and the packet. -/
namespace Tasks.Udp
open Kit Kit.Bytes Kit.Lines Server Client

/-- What `recvfrom` can store in the buffer. -/
structure Received where
  bytes : Bytes
  fits : bytes.length ≤ bufferSize

def Received.offset (r : Received) : Nat := 4 * ((r.bytes.headD 0).toNat % 16) + 8

/-- The payload up to its NUL or to the end of the datagram. -/
def Received.payload (r : Received) : Bytes := (r.bytes.drop r.offset).takeWhile (· ≠ 0)

/-- For a datagram that is answered with `count`: the payload is a string in the buffer, its
reply fits into the packet and no turn of the loop leaves an array. -/
structure ServerBounded (r : Received) (count : Int) : Prop where
  string : ∃ text, cstr (received r.bytes) r.offset = .ok text ∧
    20 + 8 + (replyText text count).length + 1 ≤ bufferSize
  accesses : ∀ serverPort beyond clients,
    (∀ request other, parse serverPort (received r.bytes) = .ok (some request) →
      (dispatch clients request.datagram.source request.close).2 = .answered other → other = count) →
    ∃ result, iterate serverPort beyond clients r.bytes = .ok result

structure ClientBounded (input : Bytes) : Prop where
  packet : ∀ line rest, fgets bufferSize input = some (line, rest) →
    20 + 8 + (message line).length + 1 ≤ bufferSize
  accesses : ∀ line rest cfg beyond, fgets bufferSize input = some (line, rest) →
    ∃ result, sendLine cfg beyond line = .ok result

section Server

variable {r : Received} {count : Int}

theorem received_eq (r : Received) :
    received r.bytes = r.bytes ++ zeros (bufferSize - r.bytes.length) :=
  received_short r.fits

theorem loadIphdr_offset (read : loadIphdr (received r.bytes) = .ok iph) :
    dataOffset iph = r.offset := by
  obtain ⟨v, loaded, same⟩ := bind_eq_ok.mp read
  cases same
  have first : (received r.bytes)[0]? = some (r.bytes.headD 0) := by
    rw [received_eq]
    cases r.bytes with
    | nil => rfl
    | cons x rest => rfl
  have head := load_get loaded 0 (by decide)
  rw [Nat.zero_add, first] at head
  have byte : v.get 0 = r.bytes.headD 0 := (Option.some.inj head).symm
  rw [dataOffset, Received.offset, ← byte]
  rfl

theorem string_eq (r : Received) :
    ((received r.bytes).drop r.offset).takeWhile (· ≠ 0) = r.payload := by
  rw [received_eq, List.drop_append, zeros, List.drop_replicate]
  exact takeWhile_zeros _ _

theorem payload_isOk (r : Received) :
    (∃ text, cstr (received r.bytes) r.offset = .ok text) ↔
      r.bytes.length < bufferSize ∨ 0 ∈ r.bytes.drop r.offset := by
  have near : r.offset < bufferSize := by
    simp only [Received.offset, bufferSize]
    omega
  have fits := r.fits
  rw [cstr_isOk, received_eq, List.drop_append, List.mem_append, zeros, List.drop_replicate,
    List.mem_replicate, or_comm]
  simp only [and_true]
  apply or_congr_left
  omega

theorem payload_eq (found : cstr (received r.bytes) r.offset = .ok text) : text = r.payload :=
  (cstr_text found).2.trans (string_eq r)

/-- The cut of `snprintf` decides nothing: what it cuts does not fit the packet either. -/
theorem replyText_fits (text : Bytes) (count : Int) :
    20 + 8 + (replyText text count).length + 1 ≤ bufferSize ↔
      text.length + (decimal count).length ≤ 994 := by
  simp only [replyText, bufferSize, List.length_take, List.length_append, List.length_cons]
  omega

theorem serverBounded_iff (r : Received) (count : Int) :
    ServerBounded r count ↔ (r.bytes.length < bufferSize ∨ 0 ∈ r.bytes.drop r.offset) ∧
      r.payload.length + (decimal count).length ≤ 994 := by
  constructor
  · intro bounded
    obtain ⟨text, found, fits⟩ := bounded.string
    rw [replyText_fits, payload_eq found] at fits
    exact ⟨(payload_isOk r).mp ⟨text, found⟩, fits⟩
  · intro ⟨ends, short⟩
    obtain ⟨text, found⟩ := (payload_isOk r).mpr ends
    rw [← payload_eq found, ← replyText_fits] at short
    refine ⟨⟨text, found, short⟩, fun serverPort beyond clients counted => ?_⟩
    rcases iterate_cases serverPort beyond clients r.bytes with
      ⟨_, same⟩ | ⟨request, read, ⟨other, answered, same⟩ | ⟨_, same⟩⟩
    · exact ⟨_, same⟩
    · have offset : dataOffset request.iph = r.offset := loadIphdr_offset (parse_iph read)
      rw [← offset] at found
      rw [counted request other read answered, answer_eq _ _ _ _ found short] at same
      exact ⟨_, same⟩
    · exact ⟨_, same⟩

end Server

section Client

theorem clientBounded_iff (input : Bytes) :
    ClientBounded input ↔ (message input).length ≤ 995 := by
  constructor
  · intro bounded
    by_cases empty : input = []
    · simp [empty, message]
    · obtain ⟨line, rest, found⟩ := fgets_isSome bufferSize empty
      have fits := bounded.packet line rest found
      rw [message_fgets found, List.length_take] at fits
      simp only [bufferSize] at fits
      omega
  · intro short
    have fits (line rest : Bytes) (found : fgets bufferSize input = some (line, rest)) :
        20 + 8 + (message line).length + 1 ≤ bufferSize := by
      rw [message_fgets found, List.length_take]
      simp only [bufferSize]
      omega
    refine ⟨fits, fun line rest cfg beyond found => ?_⟩
    have packet := fits line rest found
    unfold sendLine
    split
    · exact ⟨none, rfl⟩
    · rw [sendMessage, sendPacket_eq _ _ _ _ _ _ _ (by omega), if_pos packet]
      exact ⟨_, rfl⟩

end Client

/-- `csum` stays inside the scratch buffer of `udp_checksum` for even payloads only. -/
theorem checksumWords_inside (dataLen : Nat) :
    2 * checksumWords dataLen ≤ 12 + 8 + dataLen ↔ Even dataLen := by
  rw [Nat.even_iff, checksumWords]
  omega

theorem buffer_bounds_iff (r : Received) (count : Int) (input : Bytes) :
    (ServerBounded r count ↔ (r.bytes.length < bufferSize ∨ 0 ∈ r.bytes.drop r.offset) ∧
      r.payload.length + (decimal count).length ≤ 994) ∧
    (ClientBounded input ↔ (message input).length ≤ 995) ∧
    ∀ dataLen, 2 * checksumWords dataLen ≤ 12 + 8 + dataLen ↔ Even dataLen :=
  ⟨serverBounded_iff r count, clientBounded_iff input, checksumWords_inside⟩

/-- A datagram for port 9090 that fills the buffer and has no NUL. -/
def fullDatagram : Received where
  bytes := 0x45 :: List.replicate 8 65 ++ ipprotoUdp :: List.replicate 12 65 ++
    [0x23, 0x82] ++ List.replicate 1000 65
  fits := by simp [-List.reduceReplicate, bufferSize]

theorem buffer_bounds_fail :
    ¬ ((∀ r : Received, 5 * 4 + 8 ≤ r.offset → ∀ count, ServerBounded r count) ∧
      ∀ input, ClientBounded input) := by
  intro law
  have bounded := law.1 fullDatagram (by decide) 1
  obtain ⟨text, found, _⟩ := bounded.string
  have ends := (payload_isOk fullDatagram).mp ⟨text, found⟩
  rcases ends with shorter | member
  · simp [-List.reduceReplicate, fullDatagram, bufferSize] at shorter
  · have anywhere := List.mem_of_mem_drop member
    simp [-List.reduceReplicate, fullDatagram, ipprotoUdp] at anywhere

end Tasks.Udp
