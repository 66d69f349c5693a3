import Tasks.Subnet.Address
import Tasks.Subnet.Packets

/-! Module 2, Task 3.2: the program, and which arguments its format checks let through. -/
namespace Tasks.Subnet

open Kit Kit.Bytes Kit.Strtok Kit.Strtol

inductive Outcome where
  | usage
  | notPositive
  | invalidIp (text : Bytes)
  | invalidMask (text : Bytes)
  | counted (ownSubnetCount n : Nat)
  deriving DecidableEq, Repr

/-- `0.0.0.0` is the one text whose value may be 0. -/
def Rejected (copied : Bool) (text : Bytes) : Prop :=
  ipToUint32 copied text = 0 ∧ text ≠ ascii "0.0.0.0"

instance (copied : Bool) (text : Bytes) : Decidable (Rejected copied text) :=
  inferInstanceAs (Decidable (_ ∧ _))

/-- `copied` tells which calls of `strdup` succeed, `packets` what `rand` returns. -/
def main (copied : Bool × Bool) (packets : Nat → Fin 4 → Rand) : List Bytes → Outcome
  | [_, ip, mask, number] =>
    let n := atoi number
    if n ≤ 0 then .notPositive
    else if Rejected copied.1 ip then .invalidIp ip
    else if Rejected copied.2 mask then .invalidMask mask
    else
      let own := ownSubnetCount (ipToUint32 copied.1 ip) (ipToUint32 copied.2 mask)
        ((List.range n.toNat).map packets)
      .counted own n.toNat
  | _ => .usage

def IsQuad (s : Bytes) : Prop := ∃ q : Quad, q.text = s

structure Refused (s : Bytes) : Prop where
  asIp : ∀ copied packets name mask number, 0 < atoi number →
    main copied packets [name, s, mask, number] = .invalidIp s
  asMask : ∀ copied packets name ip number, 0 < atoi number →
    main copied packets [name, ip, s, number] = .invalidMask s ∨
      main copied packets [name, ip, s, number] = .invalidIp ip

def Validated (s : Bytes) : Prop := ¬ IsQuad s → Refused s

section Zero

variable {s field : Bytes}

/-- A field that starts with a multiple of 256, or with a number below the bounds of `long`. -/
def Vanishes (field : Bytes) : Prop :=
  signed 10 field ≤ longMin ∨ (signed 10 field ≤ longMax ∧ 256 ∣ signed 10 field)

theorem octet_eq_zero (field : Bytes) : octet field = 0 ↔ Vanishes field := by
  have cast := Int.bmod_emod (x := strtol 10 field) (m := 2 ^ 32)
  have value : octet field = 0 ↔ atoi field % 256 = 0 := by
    rw [← UInt8.toNat_inj, octet, UInt8.ofInt, UInt8.toNat_ofNat']
    simp only [UInt8.toNat_zero]
    omega
  rw [value, Vanishes, Int.dvd_iff_emod_eq_zero]
  unfold atoi strtol at *
  simp only [longMin, longMax] at *
  omega

theorem readOctets_eq_zero (s : Bytes) :
    ipToUint32 true s = 0 ↔ (fields dot s).length < 4 ∨ ∀ f ∈ (fields dot s).take 4, Vanishes f := by
  rw [ipToUint32, if_pos rfl, readOctets_fields]
  by_cases few : (fields dot s).length < 4
  · simp only [few, if_true, true_or]
  · have four : ((fields dot s).take 4).length = 4 := List.length_take_of_le (by omega)
    obtain ⟨a, b, c, d, same, assembled⟩ := foldl_push _ four
    rw [if_neg few, ← UInt32.toNat_inj, assembled, same]
    have zero (f : Bytes) : Vanishes f ↔ (octet f).toNat = 0 := by
      rw [← octet_eq_zero, ← UInt8.toNat_inj]
      rfl
    simp only [few, false_or, List.forall_mem_cons, List.not_mem_nil, false_implies, implies_true, and_true,
      zero, UInt32.toNat_zero]
    omega

theorem main_ip (copied : Bool × Bool) (packets : Nat → Fin 4 → Rand) (name ip mask number : Bytes)
    (positive : 0 < atoi number) :
    main copied packets [name, ip, mask, number] = .invalidIp ip ↔ Rejected copied.1 ip := by
  have some : ¬ atoi number ≤ 0 := by omega
  simp only [main, if_neg some]
  by_cases rejected : Rejected copied.1 ip
  · rw [if_pos rejected]
    exact iff_of_true rfl rejected
  · rw [if_neg rejected]
    apply iff_of_false _ rejected
    split <;> nofun

theorem main_mask (copied : Bool × Bool) (packets : Nat → Fin 4 → Rand) (name ip mask number : Bytes)
    (positive : 0 < atoi number) (rejected : Rejected copied.2 mask) :
    main copied packets [name, ip, mask, number] = .invalidMask mask ∨
      main copied packets [name, ip, mask, number] = .invalidIp ip := by
  have some : ¬ atoi number ≤ 0 := by omega
  simp only [main, if_neg some, if_pos rejected]
  split
  · exact .inr rfl
  · exact .inl rfl

theorem zero_isQuad : IsQuad (ascii "0.0.0.0") := by
  have zero : ∃ o : Octet, o.text = [48] := ⟨⟨[48], by decide, by simp [digit], by decide⟩, rfl⟩
  obtain ⟨o, text⟩ := zero
  refine ⟨⟨o, o, o, o⟩, ?_⟩
  rw [Quad.text, text]
  rfl

/-- Texts that are no address are refused when their value is 0. -/
theorem refused_of_zero (other : ¬ IsQuad s) (value : ipToUint32 true s = 0) : Refused s := by
  have rejected (copied : Bool) : Rejected copied s := by
    refine ⟨?_, fun same => other (same ▸ zero_isQuad)⟩
    cases copied with
    | true => exact value
    | false => rfl
  constructor
  · intro copied packets name mask number positive
    exact (main_ip copied packets name s mask number positive).mpr (rejected _)
  · intro copied packets name ip number positive
    exact main_mask copied packets name ip s number positive (rejected _)

/-- The format checks let through, besides addresses, exactly the texts with four fields or more of
which one of the first four does not vanish. -/
theorem validated_iff (s : Bytes) :
    Validated s ↔
      IsQuad s ∨ (fields dot s).length < 4 ∨ ∀ f ∈ (fields dot s).take 4, Vanishes f := by
  rw [← readOctets_eq_zero]
  constructor
  · intro validated
    by_cases address : IsQuad s
    · exact .inl address
    · have refused := (validated address).asIp (true, true) (fun _ _ => 0) [] [] (ascii "1") (by decide)
      exact .inr ((main_ip _ _ _ _ _ _ (by decide)).mp refused).1
  · rintro (address | value) other
    · exact absurd address other
    · exact refused_of_zero other value

theorem surplus_not_quad : ¬ IsQuad (ascii "1.2.3.4.5") := by
  rintro ⟨q, same⟩
  have five : (fields dot (ascii "1.2.3.4.5")).length = 5 := by decide
  rw [← same, q.fields_text] at five
  simp at five

/-- 1.2.3.4.5 is taken for 1.2.3.4. -/
theorem surplus_field_accepted :
    ¬ Validated (ascii "1.2.3.4.5") ∧
      main (true, true) (fun _ _ => 0) [ascii "task", ascii "1.2.3.4.5", ascii "255.255.255.255", ascii "1"] =
        .counted 0 1 := by
  have ran : main (true, true) (fun _ _ => 0)
      [ascii "task", ascii "1.2.3.4.5", ascii "255.255.255.255", ascii "1"] = .counted 0 1 := by decide
  refine ⟨fun validated => ?_, ran⟩
  have refused := (validated surplus_not_quad).asIp (true, true) (fun _ _ => 0) (ascii "task")
    (ascii "255.255.255.255") (ascii "1") (by decide)
  rw [ran] at refused
  contradiction

end Zero
end Tasks.Subnet
