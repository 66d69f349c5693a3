import Tasks.Kit.Run
import Mathlib.Data.List.Range
import Mathlib.Logic.Function.Basic

/-! The descriptor sets of `select`, with every access checked against their size. -/
namespace Tasks.Kit

def fdSetsize : Nat := 1024

/-- A bit for each descriptor. -/
structure FdSet where
  bits : Fin fdSetsize → Bool

namespace FdSet

def zero : FdSet := ⟨fun _ => false⟩

def has (fds : FdSet) (fd : Nat) : Bool := if h : fd < fdSetsize then fds.bits ⟨fd, h⟩ else false

/-- `FD_ISSET` -/
def isset (fds : FdSet) (fd : Nat) : Except Fault Bool :=
  if fd < fdSetsize then .ok (fds.has fd) else .error .outOfBounds

def put (fds : FdSet) (fd : Nat) (bit : Bool) : Except Fault FdSet :=
  if h : fd < fdSetsize then .ok ⟨Function.update fds.bits ⟨fd, h⟩ bit⟩ else .error .outOfBounds

/-- `FD_SET` -/
def set (fds : FdSet) (fd : Nat) : Except Fault FdSet := fds.put fd true

/-- `FD_CLR` -/
def clr (fds : FdSet) (fd : Nat) : Except Fault FdSet := fds.put fd false

def collect (fds : FdSet) : Nat → Nat → Except Fault (List Nat)
  | 0, _ => .ok []
  | n + 1, i => do
    let here ← fds.isset i
    let rest ← fds.collect n (i + 1)
    return if here then i :: rest else rest

def files (fds : FdSet) (table : Nat → Option α) (i : Nat) : List α :=
  ((List.range' i (fdSetsize - i)).filter fds.has).filterMap table

variable {fds fds' : FdSet} {fd i n : Nat} {table : Nat → Option α} {bit : Bool}

@[simp] theorem has_zero (fd : Nat) : zero.has fd = false := by simp [has, zero]

theorem has_lt (member : fds.has fd) : fd < fdSetsize := by
  by_contra beyond
  simp [has, beyond] at member

theorem isset_eq (fits : fd < fdSetsize) : fds.isset fd = .ok (fds.has fd) := if_pos fits

theorem put_isOk (fds : FdSet) (bit : Bool) (fits : fd < fdSetsize) : ∃ fds', fds.put fd bit = .ok fds' :=
  ⟨_, dif_pos fits⟩

theorem has_put (done : fds.put fd bit = .ok fds') (other : Nat) :
    fds'.has other = if other = fd then bit else fds.has other := by
  unfold put at done
  split at done
  next fits =>
    cases done
    by_cases same : other = fd
    · subst same
      simp [has, fits]
    · simp only [has, if_neg same]
      split
      next inside => exact Function.update_of_ne (fun equal => same (Fin.mk.inj equal)) ..
      next => rfl
  next => contradiction

theorem has_set (done : fds.set fd = .ok fds') (other : Nat) :
    fds'.has other ↔ other = fd ∨ fds.has other := by
  rw [has_put done]
  by_cases same : other = fd <;> simp [same]

theorem has_clr (done : fds.clr fd = .ok fds') (other : Nat) :
    fds'.has other ↔ other ≠ fd ∧ fds.has other := by
  rw [has_put done]
  by_cases same : other = fd <;> simp [same]

theorem collect_eq (fits : i + n ≤ fdSetsize) : fds.collect n i = .ok ((List.range' i n).filter fds.has) := by
  induction n generalizing i with
  | zero => rfl
  | succ n ih =>
    rw [collect, isset_eq (by omega), ih (by omega), List.range'_succ, List.filter_cons]
    rfl

theorem files_cons (fits : i < fdSetsize) (member : fds.has i) (found : table i = some file) :
    fds.files table i = file :: fds.files table (i + 1) := by
  have range : fdSetsize - i = (fdSetsize - (i + 1)) + 1 := by omega
  simp [files, range, List.range'_succ, member, found]

theorem files_skip (missing : fds.has i = false) : fds.files table i = fds.files table (i + 1) := by
  by_cases fits : i < fdSetsize
  · have range : fdSetsize - i = (fdSetsize - (i + 1)) + 1 := by omega
    simp [files, range, List.range'_succ, missing]
  · have none : fdSetsize - i = 0 ∧ fdSetsize - (i + 1) = 0 := by omega
    simp [files, none]

theorem files_nil (none : ∀ fd, i ≤ fd → fds.has fd = false) : fds.files table i = [] := by
  have empty : (List.range' i (fdSetsize - i)).filter fds.has = [] := by
    apply List.filter_eq_nil_iff.mpr
    intro fd member
    simp [none fd (List.mem_range'_1.mp member).1]
  rw [files, empty]
  rfl

theorem files_congr {table' : Nat → Option α} (same : ∀ fd, i ≤ fd → fds.has fd → table' fd = table fd) :
    fds.files table' i = fds.files table i := by
  apply List.filterMap_congr
  intro fd member
  obtain ⟨range, has⟩ := List.mem_filter.mp member
  exact same fd (List.mem_range'_1.mp range).1 has

theorem files_nodup (apart : ∀ fd fd' file, table fd = some file → table fd' = some file →
    fds.has fd → fds.has fd' → fd = fd') (i : Nat) : (fds.files table i).Nodup := by
  have range : ((List.range' i (fdSetsize - i)).filter fds.has).Nodup := (List.nodup_range').filter _
  rw [files, List.Nodup, List.pairwise_filterMap]
  apply range.imp_of_mem
  intro fd fd' member member' different file found file' found' same
  subst same
  exact different (apart fd fd' file found found' (List.mem_filter.mp member).2 (List.mem_filter.mp member').2)

end FdSet
end Tasks.Kit
