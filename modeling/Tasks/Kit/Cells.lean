import Tasks.Kit.Run
import Mathlib.Data.List.Basic
import Mathlib.Data.List.DropRight

/-! Arrays whose front part is in use: reading, writing and the loops over them, every index
checked against the array. -/
namespace Tasks.Kit.Cells

variable {α β : Type}

def read (cells : List α) (i : Nat) : Except Fault α :=
  match cells[i]? with
  | some x => .ok x
  | none => .error .outOfBounds

def write (cells : List α) (i : Nat) (x : α) : Except Fault (List α) :=
  if i < cells.length then .ok (cells.set i x) else .error .outOfBounds

/-- The loop `cells[j] = cells[j + 1]` for `n` indices from `j` on. -/
def shift (cells : List α) (j : Nat) : Nat → Except Fault (List α)
  | 0 => .ok cells
  | n + 1 => do
    let x ← read cells (j + 1)
    let cells ← write cells j x
    shift cells (j + 1) n

/-- The first of `n` indices from `i` on whose cell passes the test. -/
def search (cells : List α) (test : α → Bool) (i : Nat) : Nat → Except Fault (Option Nat)
  | 0 => .ok none
  | n + 1 => do
    let x ← read cells i
    if test x then return some i else search cells test (i + 1) n

/-- A loop that reads `n` cells from `i` on. -/
def visit (cells : List α) (i : Nat) : Nat → Except Fault (List α)
  | 0 => .ok []
  | n + 1 => do
    let x ← read cells i
    let rest ← visit cells (i + 1) n
    return x :: rest

section Access

variable {cells before after spare : List α} {x y : α}

@[simp] theorem read_append (before : List α) (x : α) (after : List α) :
    read (before ++ x :: after) before.length = .ok x := by
  simp [read]

@[simp] theorem write_append (before : List α) (x y : α) (after : List α) :
    write (before ++ x :: after) before.length y = .ok (before ++ y :: after) := by
  simp [write]

/-- Closing a gap: what was behind it moves up, and the last cell keeps a stale copy. -/
theorem shift_append (before : List α) (x : α) (after spare : List α) :
    ∃ y, shift (before ++ x :: (after ++ spare)) before.length after.length =
      .ok (before ++ after ++ y :: spare) := by
  induction after generalizing before x with
  | nil => exact ⟨x, by simp [shift]⟩
  | cons z after ih =>
    obtain ⟨y, rest⟩ := ih (before ++ [z]) z
    have next : read (before ++ x :: z :: (after ++ spare)) (before.length + 1) = .ok z := by
      simpa using read_append (before ++ [x]) z (after ++ spare)
    simp only [List.append_assoc, List.cons_append, List.nil_append, List.length_append,
      List.length_singleton] at rest
    refine ⟨y, ?_⟩
    simp only [List.length_cons, List.cons_append, List.append_assoc]
    rw [shift, next, ok_bind, write_append, ok_bind, rest]

theorem search_append (test : α → Bool) (before used spare : List α) :
    search (before ++ used ++ spare) test before.length used.length =
      .ok ((used.findIdx? test).map (before.length + ·)) := by
  induction used generalizing before with
  | nil => rfl
  | cons x used ih =>
    have later := ih (before ++ [x])
    simp only [List.append_assoc, List.cons_append, List.nil_append, List.length_append,
      List.length_singleton] at later
    simp only [List.length_cons, List.cons_append, List.append_assoc, List.findIdx?_cons]
    rw [search, read_append, ok_bind]
    by_cases found : test x = true
    · simp [found, pure, Except.pure]
    · rw [if_neg found, if_neg found, later]
      cases used.findIdx? test with
      | none => rfl
      | some i =>
        simp only [Option.map_some]
        congr 2
        omega

/-- The first match among the cells in use. -/
theorem search_used (test : α → Bool) (used spare : List α) :
    search (used ++ spare) test 0 used.length = .ok (used.findIdx? test) := by
  simpa using search_append test [] used spare

theorem visit_append (before used spare : List α) :
    visit (before ++ used ++ spare) before.length used.length = .ok used := by
  induction used generalizing before with
  | nil => rfl
  | cons x used ih =>
    have later := ih (before ++ [x])
    simp only [List.append_assoc, List.cons_append, List.nil_append, List.length_append,
      List.length_singleton] at later
    simp only [List.length_cons, List.cons_append, List.append_assoc]
    rw [visit, read_append, ok_bind, later]
    rfl

theorem visit_used (used spare : List α) : visit (used ++ spare) 0 used.length = .ok used :=
  visit_append [] used spare

theorem visit_inside (inside : i ≤ cells.length) (done : visit cells i n = .ok used) :
    i + n ≤ cells.length := by
  induction n generalizing i used with
  | zero => exact inside
  | succ n ih =>
    obtain ⟨x, here, done⟩ := bind_eq_ok.mp done
    obtain ⟨rest, later, _⟩ := bind_eq_ok.mp done
    have next : i + 1 ≤ cells.length := by
      by_contra outside
      have missing : cells[i]? = none := List.getElem?_eq_none (Nat.le_of_lt_succ (Nat.lt_of_not_le outside))
      rw [read, missing] at here
      cases here
    have last := ih next later
    omega

theorem shift_used (used spare : List α) (i : Nat) (inside : i < used.length) :
    ∃ y, shift (used ++ spare) i (used.length - 1 - i) = .ok (used.eraseIdx i ++ y :: spare) := by
  obtain ⟨y, done⟩ := shift_append (used.take i) used[i] (used.drop (i + 1)) spare
  refine ⟨y, ?_⟩
  have whole : used.take i ++ used[i] :: used.drop (i + 1) = used := by
    rw [← List.drop_eq_getElem_cons inside, List.take_append_drop]
  have front : (used.take i).length = i := List.length_take_of_le inside.le
  have back : (used.drop (i + 1)).length = used.length - 1 - i := by
    rw [List.length_drop]
    omega
  rw [← List.cons_append, ← List.append_assoc, whole, front, back] at done
  rw [done, List.eraseIdx_eq_take_drop_succ, List.append_assoc]

theorem split_count (cells : List α) (count : Nat) (inside : count ≤ cells.length) :
    ∃ used spare, cells = used ++ spare ∧ count = used.length :=
  ⟨cells.take count, cells.drop count, (List.take_append_drop ..).symm,
    (List.length_take_of_le inside).symm⟩

theorem eraseP_missing {used : List α} {test : α → Bool} (missing : used.findIdx? test = none) :
    used.eraseP test = used := by
  rw [List.eraseP_eq_eraseIdx, missing]

theorem found_split (found : used.findIdx? test = some i) :
    ∃ before x after, used = before ++ x :: after ∧ before.length = i := by
  have inside : i < used.length := (List.findIdx?_eq_some_iff_findIdx_eq.mp found).1
  refine ⟨used.take i, used[i], used.drop (i + 1), ?_, List.length_take_of_le inside.le⟩
  rw [← List.drop_eq_getElem_cons inside, List.take_append_drop]

theorem shift_found (spare : List α) (found : used.findIdx? test = some i) :
    ∃ y, shift (used ++ spare) i (used.length - 1 - i) = .ok (used.eraseP test ++ y :: spare) ∧
      (used.eraseP test).length = used.length - 1 ∧
      (used.eraseP test ++ y :: spare).length = (used ++ spare).length := by
  have inside : i < used.length := (List.findIdx?_eq_some_iff_findIdx_eq.mp found).1
  obtain ⟨y, shifted⟩ := shift_used used spare i inside
  have erased : used.eraseP test = used.eraseIdx i := by rw [List.eraseP_eq_eraseIdx, found]
  have shorter : (used.eraseP test).length = used.length - 1 := by
    rw [erased, List.length_eraseIdx_of_lt inside]
  refine ⟨y, by rw [erased, shifted], shorter, ?_⟩
  simp only [List.length_append, List.length_cons, shorter]
  omega

end Access
end Tasks.Kit.Cells
