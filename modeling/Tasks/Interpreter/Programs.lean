import Tasks.Interpreter.Lines
import Tasks.Kit.Strtol
import Mathlib.Algebra.Order.Ring.Int

/-! `sum.c` and `maxNumber.c` of Module 3, Task 2, which the interpreter is there to start: from the numbers
typed to the results. -/
namespace Tasks.Interpreter

open Kit Kit.Bytes Kit.Strtok Kit.Strtol

/-- A result of `int` arithmetic, which must not overflow. -/
def int (z : Int) : Option Int := if -2 ^ 31 ≤ z ∧ z < 2 ^ 31 then some z else none

/-- What `main` of `sum.c` prints. -/
def sum (argv : List Bytes) : Option Bytes := do
  let result ← (argv.drop 1).foldlM (fun result arg => int (result + atoi arg)) 0
  return ascii "Result = " ++ decimal result ++ ascii "\n"

/-- The inner loop of `maxNumber.c`, which begins at `argv[2]`. -/
def larger (argv : List Bytes) (max : Int) : Int :=
  (argv.drop 2).foldl (fun max arg => if atoi arg > max then atoi arg else max) max

structure Command where
  path : Bytes
  numbers : List (Bytes × Int)

def Command.argv (c : Command) : List Bytes := c.path :: c.numbers.map Prod.fst

def Command.line (c : Command) : Bytes := c.path ++ c.numbers.flatMap (32 :: ·.1)

/-- What fits into a line of the interpreter. -/
structure Command.Typed (c : Command) : Prop where
  path : c.path ≠ [] ∧ 32 ∉ c.path ∧ 10 ∉ c.path ∧ 0 ∉ c.path ∧ c.path ≠ ascii "exit"
  numbers : ∀ x ∈ c.numbers, Scan.Numeral x.1 x.2 ∧ -2 ^ 31 ≤ x.2 ∧ x.2 < 2 ^ 31
  few : c.numbers.length < maxArgs
  short : c.line.length ≤ 125

section Sums

variable {zs : List Int} {x : UInt8}

end Sums

namespace Command

variable {c : Command} {x : UInt8}

theorem Typed.atoi (typed : c.Typed) : (c.numbers.map Prod.fst).map Strtol.atoi = c.numbers.map Prod.snd := by
  rw [List.map_map]
  refine List.map_congr_left fun x member => ?_
  obtain ⟨numeral, low, high⟩ := typed.numbers x member
  exact atoi_numeral numeral low high

theorem numeral_other (numeral : Scan.Numeral word z) (other : Scan.digit x = false ∧ x ≠ 43 ∧ x ≠ 45) :
    x ∉ word := by
  intro member
  rcases numeral.bytes member with isDigit | plus | minus
  · rw [other.1] at isDigit
    cases isDigit
  · exact other.2.1 plus
  · exact other.2.2 minus

theorem Typed.line_clean (typed : c.Typed) (x : UInt8) (path : x ∉ c.path) (space : x ≠ 32)
    (other : Scan.digit x = false ∧ x ≠ 43 ∧ x ≠ 45) : x ∉ c.line := by
  intro member
  rcases List.mem_append.mp member with inside | later
  · exact path inside
  · obtain ⟨number, inside, member⟩ := List.mem_flatMap.mp later
    rcases List.mem_cons.mp member with same | digits
    · exact space same
    · exact numeral_other (typed.numbers number inside).1 other digits

end Command

end Tasks.Interpreter
