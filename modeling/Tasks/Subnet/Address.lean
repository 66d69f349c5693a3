import Tasks.Kit.Strtok
import Tasks.Kit.Strtol
import Mathlib.Tactic.Ring

/-! Module 2, Task 3.2: reading addresses in dotted notation. -/
namespace Tasks.Subnet

open Kit Kit.Strtok Kit.Strtol

def dot : UInt8 := 46

/-- `(uint8_t)atoi(token)` -/
def octet (token : Bytes) : UInt8 := .ofInt (atoi token)

def push (val : UInt32) (token : Bytes) : UInt32 := (val <<< 8) ||| (octet token).toUInt32

/-- The loop of `IpToUint32`, on a token and the text behind it. -/
def readOctets (val : UInt32) : Nat → Option (Bytes × Bytes) → UInt32
  | 0, _ => val
  | _ + 1, none => 0
  | i + 1, some (token, rest) => readOctets (push val token) i (strtok dot rest)

/-- `copied` tells whether `strdup` succeeds. -/
def ipToUint32 (copied : Bool) (ip : Bytes) : UInt32 :=
  if copied then readOctets 0 4 (strtok dot ip) else 0

section Reading

variable {ip token : Bytes}

theorem push_toNat (val : UInt32) (token : Bytes) (small : val.toNat < 2 ^ 24) :
    (push val token).toNat = val.toNat * 2 ^ 8 + (octet token).toNat := by
  have bound := (octet token).toNat_lt
  have shifted : (val <<< 8).toNat = val.toNat <<< 8 := by
    have amount : (8 : UInt32).toNat % 32 = 8 := rfl
    rw [UInt32.toNat_shiftLeft, amount, Nat.shiftLeft_eq]
    omega
  rw [push, UInt32.toNat_or, shifted, UInt8.toNat_toUInt32, ← Nat.shiftLeft_add_eq_or_of_lt bound,
    Nat.shiftLeft_eq]

/-- The loop takes the first fields, and wants them all. -/
theorem readOctets_fields (val : UInt32) (n : Nat) (ip : Bytes) :
    readOctets val n (strtok dot ip) =
      if (fields dot ip).length < n then 0 else ((fields dot ip).take n).foldl push val := by
  induction n generalizing val ip with
  | zero => simp [readOctets]
  | succ n ih =>
    rcases strtok_cases dot ip with ⟨none, empty⟩ | ⟨token, rest, found, more⟩
    · rw [none, empty, readOctets, List.length_nil, if_pos (Nat.succ_pos n)]
    · rw [found, more, readOctets, ih]
      simp

/-- What four fields are assembled to. -/
theorem foldl_push (fs : List Bytes) (four : fs.length = 4) :
    ∃ a b c d, fs = [a, b, c, d] ∧ (fs.foldl push 0).toNat =
      (octet a).toNat * 2 ^ 24 + (octet b).toNat * 2 ^ 16 + (octet c).toNat * 2 ^ 8 + (octet d).toNat := by
  match fs, four with
  | [a, b, c, d], _ =>
    refine ⟨a, b, c, d, rfl, ?_⟩
    have := (octet a).toNat_lt
    have := (octet b).toNat_lt
    have := (octet c).toNat_lt
    have := (octet d).toNat_lt
    have first := push_toNat 0 a (by simp)
    simp only [UInt32.toNat_zero] at first
    have second := push_toNat (push 0 a) b (by omega)
    have third := push_toNat (push (push 0 a) b) c (by omega)
    have fourth := push_toNat (push (push (push 0 a) b) c) d (by omega)
    rw [List.foldl_cons, List.foldl_cons, List.foldl_cons, List.foldl_cons, List.foldl_nil, fourth, third,
      second, first]
    ring

end Reading

section Values

/-- A decimal number of at most 255, with any number of zeros in front. -/
structure Octet where
  text : Bytes
  nonempty : text ≠ []
  digits : ∀ x ∈ text, digit 10 x
  small : value 10 text ≤ 255

def Octet.value (o : Octet) : Nat := Strtol.value 10 o.text

structure Quad where
  a : Octet
  b : Octet
  c : Octet
  d : Octet

/-- The numbers joined by single dots. -/
def Quad.text (q : Quad) : Bytes :=
  q.a.text ++ dot :: (q.b.text ++ dot :: (q.c.text ++ dot :: q.d.text))

def Quad.value (q : Quad) : Nat :=
  q.a.value * 2 ^ 24 + q.b.value * 2 ^ 16 + q.c.value * 2 ^ 8 + q.d.value

theorem Octet.clean (o : Octet) : dot ∉ o.text := by
  intro member
  exact absurd (o.digits dot member) (by decide)

theorem Octet.octet_text (o : Octet) : (octet o.text).toNat = o.value := by
  have small := o.small
  have read := atoi_digits o.nonempty o.digits (by omega)
  rw [octet, read, UInt8.ofInt, UInt8.toNat_ofNat', Octet.value]
  omega

theorem Quad.fields_text (q : Quad) : fields dot q.text = [q.a.text, q.b.text, q.c.text, q.d.text] := by
  rw [Quad.text, fields_cons q.a.clean q.a.nonempty, fields_cons q.b.clean q.b.nonempty,
    fields_cons q.c.clean q.c.nonempty, fields_single q.d.clean q.d.nonempty]

/-- The value of an address, when `strdup` succeeds. -/
theorem ipToUint32_quad (q : Quad) : (ipToUint32 true q.text).toNat = q.value := by
  obtain ⟨a, b, c, d, same, assembled⟩ := foldl_push [q.a.text, q.b.text, q.c.text, q.d.text] rfl
  have read := readOctets_fields 0 4 q.text
  rw [q.fields_text, if_neg (by simp), List.take_of_length_le (by simp)] at read
  rw [ipToUint32, if_pos rfl, read, assembled]
  simp only [List.cons.injEq, and_true] at same
  obtain ⟨rfl, rfl, rfl, rfl⟩ := same
  simp only [Octet.octet_text, Quad.value]

example : ipToUint32 true (Bytes.ascii "192.168.0.010") = 0xc0a8000a := by decide

end Values
end Tasks.Subnet
