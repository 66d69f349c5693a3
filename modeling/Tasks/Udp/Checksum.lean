import Tasks.Udp.Headers
import Tasks.Kit.OnesComplement

/-! `csum` and `udp_checksum`, which both programs define alike. `udp_checksum` copies what it
sums into a scratch buffer, and an odd payload makes `csum` read one byte past its end. -/
namespace Tasks.Udp
open Kit Kit.Bytes Kit.OnesComplement

/-- One turn of the loop, on the `unsigned long` sum. -/
def addWord (sum : UInt64) (word : UInt16) : UInt64 :=
  let sum := sum + word.toUInt64
  (sum >>> 16) + (sum &&& 0xffff)

def csum (buf : Bytes) (nwords : Nat) : UInt16 :=
  let sum := ((words buf).take nwords).foldl addWord 0
  (~~~ sum).toUInt16

structure Pseudohdr where
  saddr : UInt32
  daddr : UInt32
  zero : UInt8
  protocol : UInt8
  length : UInt16

def Pseudohdr.bytes (ph : Pseudohdr) : Vector UInt8 12 := #v[
  low (lower ph.saddr), high (lower ph.saddr), low (upper ph.saddr), high (upper ph.saddr),
  low (lower ph.daddr), high (lower ph.daddr), low (upper ph.daddr), high (upper ph.daddr),
  ph.zero, ph.protocol, low ph.length, high ph.length]

def pseudohdr (iph : Iphdr) (udph : Udphdr) : Pseudohdr :=
  ⟨iph.saddr, iph.daddr, 0, ipprotoUdp, udph.len⟩

/-- The scratch buffer as `udp_checksum` fills it. -/
def scratch (iph : Iphdr) (udph : Udphdr) (data : Bytes) : Bytes :=
  (pseudohdr iph udph).bytes.toList ++ udph.bytes.toList ++ data

/-- The length passed to `csum`. -/
def checksumWords (dataLen : Nat) : Nat := (12 + 8 + dataLen + 1) / 2

/-- `beyond` is the byte of memory after the scratch buffer, `none` where `malloc` fails. -/
def udpChecksum (beyond : Option UInt8) (iph : Iphdr) (udph : Udphdr) (data : Bytes) : UInt16 :=
  match beyond with
  | none => 0
  | some beyond => csum (scratch iph udph data ++ [beyond]) (checksumWords data.length)

def sumWords (b : Bytes) : Nat := ((words b).map UInt16.toNat).sum

section Sums

theorem addWord_toNat (sum : UInt64) (word : UInt16) (small : sum.toNat ≤ ones 16) :
    (addWord sum word).toNat = carry 16 (sum.toNat + word.toNat) := by
  have := word.toNat_lt
  have added : (sum + word.toUInt64).toNat = sum.toNat + word.toNat := by
    rw [UInt64.toNat_add, UInt16.toNat_toUInt64]
    simp only [ones] at small
    omega
  have masked : (sum.toNat + word.toNat) &&& 65535 = (sum.toNat + word.toNat) % 2 ^ 16 :=
    Nat.and_two_pow_sub_one_eq_mod _ 16
  have fold : carry 16 (sum.toNat + word.toNat) < 2 ^ 64 := by
    simp only [ones] at small
    simp only [carry]
    omega
  simp only [addWord, UInt64.toNat_add, UInt64.toNat_shiftRight, UInt64.toNat_and, added]
  simpa [carry, masked, Nat.shiftRight_eq_div_pow] using fold

theorem foldl_addWord (ws : List UInt16) (sum : UInt64) (small : sum.toNat ≤ ones 16) :
    (ws.foldl addWord sum).toNat =
      (ws.map UInt16.toNat).foldl (fun s x => carry 16 (s + x)) sum.toNat := by
  induction ws generalizing sum with
  | nil => rfl
  | cons w rest ih =>
    have bound := w.toNat_lt
    have next := addWord_toNat sum w small
    have kept : (addWord sum w).toNat ≤ ones 16 := by
      rw [next]
      simp only [ones] at small ⊢
      simp only [carry]
      omega
    rw [List.foldl_cons, ih _ kept, next]
    rfl

theorem toNat_le_ones (ws : List UInt16) : ∀ x ∈ ws.map UInt16.toNat, x ≤ ones 16 := by
  intro x member
  obtain ⟨w, _, rfl⟩ := List.mem_map.mp member
  have := w.toNat_lt
  simp only [ones]
  omega

/-- The loop on the words is a residue of their plain sum. -/
theorem foldl_residue (ws : List UInt16) :
    (ws.foldl addWord 0).toNat = residue 16 (ws.map UInt16.toNat).sum := by
  have sum := foldl_addWord ws 0 (by simp [ones])
  exact sum.trans (total_eq (by decide) (toNat_le_ones ws))

/-- The loop and its last complement, on the plain sum. -/
theorem csum_toNat (buf : Bytes) (nwords : Nat) :
    (csum buf nwords).toNat =
      ones 16 - residue 16 (((words buf).take nwords).map UInt16.toNat).sum := by
  have folded := foldl_residue ((words buf).take nwords)
  have bound := residue_le (w := 16) (by decide) (((words buf).take nwords).map UInt16.toNat).sum
  rw [← folded] at bound ⊢
  simp only [csum, UInt64.toNat_toUInt16, UInt64.toNat_not, UInt64.size]
  simp only [ones] at bound ⊢
  omega

theorem sumWords_append (a b : Bytes) (even : Even a.length) :
    sumWords (a ++ b) = sumWords a + sumWords b := by
  simp [sumWords, words_append a b even]

theorem sumWords_last (b : Bytes) (x : UInt8) :
    sumWords (b ++ [x]) = sumWords (b ++ [0]) + if Even b.length then 0 else 256 * x.toNat := by
  induction b using words.induct with
  | case1 lo hi rest ih =>
    simp only [sumWords, List.cons_append, words, List.map_cons, List.sum_cons, List.length_cons,
      Nat.even_add_one, not_not] at ih ⊢
    omega
  | case2 b short =>
    rcases short_cases b short with rfl | ⟨y, rfl⟩
    · simp [sumWords, words]
    · simp [sumWords, words, pair_toNat]

theorem scratch_length (iph : Iphdr) (udph : Udphdr) (data : Bytes) :
    (scratch iph udph data).length = 12 + 8 + data.length := by
  simp only [scratch, List.length_append, Vector.length_toList]

theorem scratch_even (iph : Iphdr) (udph : Udphdr) (data : Bytes) :
    Even (scratch iph udph data).length ↔ Even data.length := by
  rw [scratch_length, Nat.even_add]
  exact iff_true_left (by decide)

theorem udphdr_words (h : Udphdr) : words h.bytes.toList = [h.source, h.dest, h.len, h.check] := by
  simp [Udphdr.bytes, words]

theorem sumWords_check (iph : Iphdr) (udph : Udphdr) (data : Bytes) (check : UInt16) :
    sumWords (scratch iph { udph with check } data) =
      sumWords (scratch iph { udph with check := 0 } data) + check.toNat := by
  have split (check : UInt16) : sumWords (scratch iph { udph with check } data) =
      sumWords (pseudohdr iph udph).bytes.toList +
        (udph.source.toNat + udph.dest.toNat + udph.len.toNat + check.toNat) + sumWords data := by
    simp only [scratch]
    rw [sumWords_append _ _ (by simp; decide), sumWords_append _ _ (by simp; decide)]
    simp [sumWords, udphdr_words, pseudohdr, Nat.add_assoc]
  rw [split check, split 0]
  simp
  omega

theorem sumWords_positive (iph : Iphdr) (udph : Udphdr) (data : Bytes) :
    0 < sumWords (scratch iph udph data) := by
  rw [scratch, sumWords_append _ _ (by simp; decide), sumWords_append _ _ (by simp; decide)]
  have protocol : 0 < (pair 0 ipprotoUdp).toNat := by decide
  have counted : (pair 0 ipprotoUdp).toNat ≤ sumWords (pseudohdr iph udph).bytes.toList := by
    simp only [sumWords, pseudohdr, Pseudohdr.bytes, Vector.toList_mk, words, List.map_cons,
      List.sum_cons]
    omega
  omega

/-- `csum` sums the scratch buffer and the byte after it. -/
theorem udpChecksum_toNat (beyond : UInt8) (iph : Iphdr) (udph : Udphdr) (data : Bytes) :
    (udpChecksum (some beyond) iph udph data).toNat =
      ones 16 - residue 16 (sumWords (scratch iph udph data ++ [beyond])) := by
  have whole : checksumWords data.length = (words (scratch iph udph data ++ [beyond])).length := by
    rw [words_length, List.length_append, scratch_length]
    rfl
  rw [udpChecksum, csum_toNat, whole, List.take_length, sumWords]

end Sums

/-- Zero-padded to an even length. -/
def padded (b : Bytes) : Bytes := if Even b.length then b else b ++ [0]

def receiverSum (iph : Iphdr) (udph : Udphdr) (data : Bytes) : Nat :=
  total 16 ((words (padded (scratch iph udph data))).map UInt16.toNat)

/-- The stored check field, for any content of the byte after the scratch buffer, depends on
nothing else, is not zero and is accepted. -/
structure Rfc768 (iph : Iphdr) (udph : Udphdr) (data : Bytes) : Prop where
  reads : ∀ beyond, udpChecksum (some beyond) iph { udph with check := 0 } data =
    udpChecksum (some 0) iph { udph with check := 0 } data
  nonzero : ∀ beyond, udpChecksum (some beyond) iph { udph with check := 0 } data ≠ 0
  accepted : ∀ beyond, receiverSum iph
    { udph with check := udpChecksum (some beyond) iph { udph with check := 0 } data } data = 0xffff

section Receiver

variable {iph : Iphdr} {udph : Udphdr} {data : Bytes}

theorem receiverSum_eq (iph : Iphdr) (udph : Udphdr) (data : Bytes) :
    receiverSum iph udph data = residue 16 (sumWords (padded (scratch iph udph data))) := by
  apply total_eq (by decide)
  exact toNat_le_ones _

theorem sumWords_beyond (even : Even data.length) (beyond : UInt8) :
    sumWords (scratch iph udph data ++ [beyond]) = sumWords (scratch iph udph data) := by
  rw [sumWords_append _ _ ((scratch_even iph udph data).mpr even)]
  simp [sumWords, words]

theorem udpChecksum_even (iph : Iphdr) (udph : Udphdr) (even : Even data.length) (beyond : UInt8) :
    (udpChecksum (some beyond) iph udph data).toNat =
      ones 16 - residue 16 (sumWords (scratch iph udph data)) := by
  rw [udpChecksum_toNat, sumWords_beyond even]

/-- After an odd payload a different stray byte gives a different checksum. -/
theorem udpChecksum_odd (odd : ¬ Even data.length) :
    udpChecksum (some 1) iph udph data ≠ udpChecksum (some 0) iph udph data := by
  intro same
  have equal := congrArg UInt16.toNat same
  have last := sumWords_last (scratch iph udph data) 1
  rw [if_neg fun even => odd ((scratch_even iph udph data).mp even)] at last
  have left := residue_le (w := 16) (by decide) (sumWords (scratch iph udph data ++ [1]))
  have right := residue_le (w := 16) (by decide) (sumWords (scratch iph udph data ++ [0]))
  rw [udpChecksum_toNat, udpChecksum_toNat] at equal
  have residues : residue 16 (sumWords (scratch iph udph data ++ [1])) =
      residue 16 (sumWords (scratch iph udph data ++ [0])) := by omega
  rw [last] at residues
  exact residue_add_ne _ (by decide) (by decide) residues

/-- The check field is right exactly for an even payload that does not sum to a zero. -/
theorem udp_checksum_rfc768_iff (iph : Iphdr) (udph : Udphdr) (data : Bytes) :
    Rfc768 iph udph data ↔
      Even data.length ∧ ¬ 65535 ∣ sumWords (scratch iph { udph with check := 0 } data) := by
  have positive := sumWords_positive iph { udph with check := 0 } data
  have full := residue_eq_ones (w := 16) (by decide)
    (sumWords (scratch iph { udph with check := 0 } data))
  have bound := residue_le (w := 16) (by decide)
    (sumWords (scratch iph { udph with check := 0 } data))
  constructor
  · intro right
    have even : Even data.length := by
      by_contra odd
      exact udpChecksum_odd odd (right.reads 1)
    refine ⟨even, fun divides => right.nonzero 0 ?_⟩
    apply UInt16.toNat_inj.mp
    rw [udpChecksum_even _ _ even, full.mpr ⟨positive, divides⟩]
    rfl
  · intro ⟨even, indivisible⟩
    have incomplete : residue 16 (sumWords (scratch iph { udph with check := 0 } data)) ≠ ones 16 :=
      fun all => indivisible (full.mp all).2
    have value (beyond : UInt8) := udpChecksum_even iph { udph with check := 0 } even beyond
    constructor
    · intro beyond
      apply UInt16.toNat_inj.mp
      rw [value, value]
    · intro beyond zero
      have zeroed := value beyond
      rw [zero] at zeroed
      simp at zeroed
      omega
    · intro beyond
      rw [receiverSum_eq, padded, if_pos ((scratch_even _ _ _).mpr even), sumWords_check, value]
      exact residue_complement (by decide) _

end Receiver

/-- The client's message "hi": with its NUL three bytes long. -/
theorem odd_payload_depends_on_memory :
    ¬ ∀ (iph : Iphdr) (udph : Udphdr) (data : Bytes), 20 + 8 + data.length ≤ bufferSize →
      Rfc768 iph udph data := by
  intro law
  have right := law ⟨5, 4, 0, htons 31, htons 12345, 0, 64, ipprotoUdp, 0, 0x0100007f, 0x0100007f⟩
    ⟨htons 54321, htons 9090, htons 11, 0⟩ [104, 105, 0] (by decide)
  exact udpChecksum_odd (by decide) (right.reads 1)

end Tasks.Udp
