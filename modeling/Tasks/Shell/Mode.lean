import Tasks.Kit.Bits
import Tasks.Kit.Bytes

/-! Module 2, Task 3.1: the mode of a file, and the two ways in which the program prints it. -/
namespace Tasks.Shell

open Kit Kit.Bits Kit.Bytes

/-- `mode_t` -/
abbrev Mode := UInt32

/-- A character constant. -/
def chr (c : Char) : UInt8 := UInt8.ofNat c.toNat

inductive Who where
  | user
  | group
  | other
  deriving DecidableEq, Repr

inductive Perm where
  | read
  | write
  | exec
  deriving DecidableEq, Repr

def place : Who → Perm → Nat
  | .user, .read => 8
  | .user, .write => 7
  | .user, .exec => 6
  | .group, .read => 5
  | .group, .write => 4
  | .group, .exec => 3
  | .other, .read => 2
  | .other, .write => 1
  | .other, .exec => 0

/-- `S_IRUSR` to `S_IXOTH` -/
def flag : Who → Perm → Mode
  | .user, .read => 0o400
  | .user, .write => 0o200
  | .user, .exec => 0o100
  | .group, .read => 0o040
  | .group, .write => 0o020
  | .group, .exec => 0o010
  | .other, .read => 0o004
  | .other, .write => 0o002
  | .other, .exec => 0o001

/-- `S_IFMT` -/
def typeMask : Mode := 0o170000

def isDir (mode : Mode) : Prop := mode &&& typeMask = 0o040000

/-- `mode & S_IRUSR` and so on, as a condition. -/
def has (mode : Mode) (who : Who) (perm : Perm) : Prop := mode &&& flag who perm ≠ 0

instance (mode : Mode) : Decidable (isDir mode) := inferInstanceAs (Decidable (_ = _))

instance (mode : Mode) (who : Who) (perm : Perm) : Decidable (has mode who perm) :=
  inferInstanceAs (Decidable (_ ≠ _))

/-- What `coolCheck` prints in front of a name. -/
def coolMode (mode : Mode) : Bytes := [
  if isDir mode then chr 'd' else chr '-',
  if has mode .user .read then chr 'r' else chr '-',
  if has mode .user .write then chr 'w' else chr '-',
  if has mode .user .exec then chr 'x' else chr '-',
  if has mode .group .read then chr 'r' else chr '-',
  if has mode .group .write then chr 'w' else chr '-',
  if has mode .group .exec then chr 'x' else chr '-',
  if has mode .other .read then chr 'r' else chr '-',
  if has mode .other .write then chr 'w' else chr '-',
  if has mode .other .exec then chr 'x' else chr '-']

/-- `if (condition) str[i] = x;` -/
def mark (condition : Prop) [Decidable condition] (i : Nat) (x : UInt8) (str : Bytes) : Bytes :=
  if condition then str.set i x else str

def toString (mode : Mode) : Bytes :=
  let str := ascii "----------"
  let str := mark (isDir mode) 0 (chr 'd') str
  let str := mark (has mode .user .read) 1 (chr 'r') str
  let str := mark (has mode .user .write) 2 (chr 'w') str
  let str := mark (has mode .user .exec) 3 (chr 'x') str
  let str := mark (has mode .group .read) 4 (chr 'r') str
  let str := mark (has mode .group .write) 5 (chr 'w') str
  let str := mark (has mode .group .exec) 6 (chr 'x') str
  let str := mark (has mode .other .read) 7 (chr 'r') str
  let str := mark (has mode .other .write) 8 (chr 'w') str
  mark (has mode .other .exec) 9 (chr 'x') str

def printBit (mode : Mode) : Bytes :=
  (List.range 9).reverse.map fun i => if (mode >>> UInt32.ofNat i) &&& 1 = 1 then chr '1' else chr '0'

/-- The names in the directory, with the modes that `stat` finds. -/
abbrev Files := Bytes → Option Mode

/-- What `ls -l` prints, without the names that `stat` fails on. The test for a leading `.`
compares a character with a pointer and skips nothing. -/
def coolCheck (files : Files) (entries : List Bytes) : List (Bytes × Bytes) :=
  entries.filterMap fun name => (files name).map fun mode => (coolMode mode, name)

section Printing

variable {mode other : Mode} {who : Who} {perm : Perm}

theorem place_inside (who : Who) (perm : Perm) : place who perm < 9 := by
  cases who <;> cases perm <;> decide

theorem flag_place (who : Who) (perm : Perm) : (flag who perm).toBitVec = BitVec.twoPow 32 (place who perm) := by
  cases who <;> cases perm <;> rfl

theorem has_bit (mode : Mode) (who : Who) (perm : Perm) : has mode who perm ↔ bit mode (place who perm) := by
  have single : (mode &&& flag who perm).toBitVec =
      if mode.toBitVec.getLsbD (place who perm) then BitVec.twoPow 32 (place who perm) else 0 := by
    rw [UInt32.toBitVec_and, flag_place, BitVec.and_twoPow]
    rfl
  have some : BitVec.twoPow 32 (place who perm) ≠ 0 := by
    cases who <;> cases perm <;> decide
  rw [has, bit, Ne, ← UInt32.toBitVec_inj, single]
  split <;> simp_all

theorem mark_zero (condition : Prop) [Decidable condition] (x y : UInt8) (str : Bytes) :
    mark condition 0 x (y :: str) = (if condition then x else y) :: str := by
  unfold mark
  split <;> rfl

theorem mark_succ (condition : Prop) [Decidable condition] (i : Nat) (x y : UInt8) (str : Bytes) :
    mark condition (i + 1) x (y :: str) = y :: mark condition i x str := by
  unfold mark
  split <;> rfl

/-- Both ways print the same. -/
theorem toString_coolMode (mode : Mode) : toString mode = coolMode mode := by
  have dashes : ascii "----------" =
      [chr '-', chr '-', chr '-', chr '-', chr '-', chr '-', chr '-', chr '-', chr '-', chr '-'] := by decide
  simp only [toString, coolMode, dashes, mark_zero, mark_succ]

theorem coolMode_congr (type : isDir mode ↔ isDir other) (same : ∀ i, i < 9 → bit mode i = bit other i) :
    coolMode mode = coolMode other := by
  have agree (who : Who) (perm : Perm) : has mode who perm ↔ has other who perm := by
    rw [has_bit, has_bit, same _ (place_inside who perm)]
  simp only [coolMode, type, agree]

end Printing
end Tasks.Shell
