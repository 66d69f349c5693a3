import Tasks.Udp.Packet

/-! `csum` on words in general, and on a header that carries it. -/
namespace Tasks.Udp
open Kit Kit.Bytes Kit.OnesComplement

def image (ws : List UInt16) : Bytes := ws.flatMap fun w => [low w, high w]

/-- The sum of `csum` after `n` turns of the loop. -/
def running (buf : Bytes) (n : Nat) : UInt64 := ((words buf).take n).foldl addWord 0

/-- One's complement addition: a carry out of the top comes in at the bottom. -/
def endAround (a b : UInt16) : UInt16 := if a.toNat + b.toNat < 2 ^ 16 then a + b else a + b + 1

section Words

variable {ws others : List UInt16}

@[simp] theorem words_image (ws : List UInt16) : words (image ws) = ws := by
  induction ws with
  | nil => rfl
  | cons w ws ih =>
    have shape : image (w :: ws) = low w :: high w :: image ws := rfl
    rw [shape, words, pair_low_high, ih]

theorem running_toNat (ws : List UInt16) (n : Nat) :
    (running (image ws) n).toNat = residue 16 ((ws.take n).map UInt16.toNat).sum := by
  rw [running, words_image, foldl_residue]

/-- One fold after each word keeps the sum in sixteen bits. -/
theorem running_le (ws : List UInt16) (n : Nat) : (running (image ws) n).toNat ≤ 0xffff := by
  rw [running_toNat]
  exact residue_le (by decide) _

theorem endAround_toNat (a b : UInt16) : (endAround a b).toNat = carry 16 (a.toNat + b.toNat) := by
  have := a.toNat_lt
  have := b.toNat_lt
  rw [endAround, carry]
  split
  · rw [UInt16.toNat_add]
    omega
  · rw [UInt16.toNat_add, UInt16.toNat_add]
    simp only [UInt16.toNat_one]
    omega

theorem foldl_endAround (ws : List UInt16) (a : UInt16) :
    (ws.foldl endAround a).toNat = (ws.map UInt16.toNat).foldl (fun s x => carry 16 (s + x)) a.toNat := by
  induction ws generalizing a with
  | nil => rfl
  | cons w ws ih => rw [List.foldl_cons, ih, endAround_toNat, List.map_cons, List.foldl_cons]

theorem endAround_residue (ws : List UInt16) :
    (ws.foldl endAround 0).toNat = residue 16 (ws.map UInt16.toNat).sum := by
  rw [← foldl_residue, foldl_endAround, foldl_addWord ws 0 (by simp [ones])]
  rfl

theorem csum_image (ws : List UInt16) :
    (csum (image ws) ws.length).toNat = ones 16 - residue 16 (ws.map UInt16.toNat).sum := by
  rw [csum_toNat, words_image, List.take_length]

theorem csum_complement (ws : List UInt16) :
    csum (image ws) ws.length = ~~~ ws.foldl endAround 0 := by
  apply UInt16.toNat_inj.mp
  rw [csum_image, UInt16.toNat_not, endAround_residue]
  rfl

theorem csum_perm (same : others.Perm ws) :
    csum (image others) others.length = csum (image ws) ws.length := by
  apply UInt16.toNat_inj.mp
  rw [csum_image, csum_image, (same.map UInt16.toNat).sum_eq]

theorem sum_stored (ws : List UInt16) (i : Nat) (check : UInt16) (zeroed : ws[i]? = some 0) :
    ((ws.set i check).map UInt16.toNat).sum = (ws.map UInt16.toNat).sum + check.toNat := by
  obtain ⟨inside, here⟩ := List.getElem?_eq_some_iff.mp zeroed
  have whole : ws = ws.take i ++ 0 :: ws.drop (i + 1) := by
    rw [← here, ← List.drop_eq_getElem_cons inside, List.take_append_drop]
  have stored : ws.set i check = ws.take i ++ check :: ws.drop (i + 1) := by
    rw [List.set_eq_take_append_cons_drop, if_pos inside]
  conv_rhs => rw [whole]
  rw [stored]
  simp only [List.map_append, List.map_cons, List.sum_append, List.sum_cons, UInt16.toNat_zero]
  omega

/-- A header verifies once its checksum stands where a zero word was. -/
theorem csum_stored (ws : List UInt16) (i : Nat) (zeroed : ws[i]? = some 0) :
    csum (image (ws.set i (csum (image ws) ws.length))) ws.length = 0 := by
  have check := csum_image ws
  have verified := csum_image (ws.set i (csum (image ws) ws.length))
  rw [sum_stored ws i _ zeroed, check, residue_complement (by decide), List.length_set] at verified
  apply UInt16.toNat_inj.mp
  rw [verified]
  rfl

/-- The loop on any words: its sum stays in sixteen bits, and its result is the complement of the
end-around-carry sum, in any order of the words, so that a header with its checksum sums to 0. -/
theorem csum_correct (ws : List UInt16) :
    (∀ n, (running (image ws) n).toNat ≤ 0xffff) ∧
      csum (image ws) ws.length = ~~~ ws.foldl endAround 0 ∧
      (∀ others, others.Perm ws → csum (image others) others.length = csum (image ws) ws.length) ∧
      ∀ i, ws[i]? = some 0 → csum (image (ws.set i (csum (image ws) ws.length))) ws.length = 0 :=
  ⟨running_le ws, csum_complement ws, fun _ same => csum_perm same, fun i zeroed => csum_stored ws i zeroed⟩

end Words

def Iphdr.words (h : Iphdr) : List UInt16 := Bytes.words h.bytes.toList

theorem image_words (h : Iphdr) : image h.words = h.bytes.toList := by
  simp [image, Iphdr.words, Iphdr.bytes, Bytes.words]

theorem words_check (h : Iphdr) (check : UInt16) :
    { h with check }.words = h.words.set 5 check := by
  simp [Iphdr.words, Iphdr.bytes, Bytes.words]

/-- The header that the server replies with verifies. -/
theorem packetIphdr_verifies (id : UInt16) (saddr daddr : UInt32) (dataLen : Nat) :
    csum (packetIphdr id saddr daddr dataLen).bytes.toList 10 = 0 := by
  have filled (h : Iphdr) (zeroed : h.check = 0) :
      csum { h with check := csum h.bytes.toList 10 }.bytes.toList 10 = 0 := by
    have length : h.words.length = 10 := by simp [Iphdr.words, Iphdr.bytes, Bytes.words]
    have stored := csum_stored h.words 5 (by simp [Iphdr.words, Iphdr.bytes, Bytes.words, zeroed])
    rwa [← words_check, image_words, image_words, length] at stored
  exact filled _ rfl

end Tasks.Udp
