import Tasks.Numbers.Deadlock

/-! Module 3, Task 8: the child waits for the semaphore in every turn and never signals it, so each run
comes to a standstill before anything is appended to `number.txt`. The source lacks the semicolon behind its
`union semun` and is read as if it were there. -/
namespace Tasks.Numbers

open Kit

namespace Task8

/-- One reader and one semaphore, which `semctl` sets to 1. Behind its `write` the reader goes to the next
`semWait`, and a reader that cannot open the file exits; neither calls `semSignal`. -/
def lock : Lock Nat 1 where
  startRead sem _ := semWait sem
  endRead sem _ := some sem
  startWrite := semWait
  polls := false
  unread _ := true
  endWrite sem := some (semPost sem)
  giveUp sem _ := sem

inductive Point where
  | fresh
  | opening
  | writing
  | leaving
  /-- The reader is back in front of `semWait`. -/
  | stuck
  | quitting
  | gone
  /-- The writer was the first to take the semaphore. -/
  | reading
  deriving DecidableEq, Repr

def Point.sem : Point → Nat
  | .fresh => 1
  | _ => 0

def Point.reader : Point → Reading
  | .fresh | .stuck | .reading => .idle
  | .opening => .opening
  | .writing => .writing
  | .leaving => .leaving
  | .quitting => .quitting
  | .gone => .gone

def Point.writer : Point → Writing
  | .reading => .reading
  | _ => .idle

def Point.wrote : Point → Bool
  | .leaving | .stuck => true
  | _ => false

def Point.left : Point → Nat
  | .fresh => 4
  | .opening => 3
  | .writing => 2
  | .leaving | .quitting => 1
  | .stuck | .gone | .reading => 0

structure At (receivedNumber : Int) (file : List Int) (point : Point) (s : System Nat 1) : Prop where
  sem : s.lock = point.sem
  reader : s.reader 0 = point.reader
  writer : s.writer = point.writer
  pipe : s.pipe.length = if point.wrote then 1 else 0
  number : s.receivedNumber = receivedNumber
  file : s.file = file

/-- What every run comes to: few steps, at most one number, which nobody takes, and nothing appended;
where no step is left, every process waits. -/
structure Stalled (capacity : Nat) (receivedNumber : Int) (file : List Int)
    (steps : List (System Nat 1 × Action 1)) (s : System Nat 1) : Prop where
  short : steps.length ≤ 4
  number : s.receivedNumber = receivedNumber
  pipe : s.pipe.length ≤ 1
  file : s.file = file
  waits : (∀ action t, ¬ Step lock capacity s action t) → Deadlock lock capacity s

section Runs

variable {receivedNumber : Int} {file : List Int} {point : Point} {capacity : Nat} {s t : System Nat 1}
  {action : Action 1} {steps : List (System Nat 1 × Action 1)}

theorem start_at (receivedNumber : Int) (file : List Int) :
    At receivedNumber file .fresh (.start 1 receivedNumber file) := ⟨rfl, rfl, rfl, rfl, rfl, rfl⟩

theorem reader_at (here : At receivedNumber file point s) (next : Point)
    (reader : t.reader = (s.readerTo 0 next.reader).reader) (sem : t.lock = next.sem)
    (writer : t.writer = s.writer) (still : next.writer = point.writer)
    (pipe : t.pipe.length = if next.wrote then 1 else 0)
    (number : t.receivedNumber = s.receivedNumber) (same : t.file = s.file) :
    At receivedNumber file next t := by
  refine ⟨sem, ?_, ?_, pipe, number.trans here.number, same.trans here.file⟩
  · rw [reader, readerTo_same]
  · rw [writer, here.writer, still]

theorem startRead_at (here : At receivedNumber file point s) (idle : s.reader 0 = .idle)
    (taken : semWait s.lock = some l) : point = .fresh ∧ l = 0 := by
  rw [here.sem] at taken
  rw [here.reader] at idle
  cases point <;> simp [Point.reader, Point.sem, semWait] at idle taken ⊢
  exact taken.symm

theorem step_at (here : At receivedNumber file point s) (step : Step lock capacity s action t) :
    ∃ next, At receivedNumber file next t ∧ next.left < point.left := by
  have readers (i : Fin 1) : i = 0 := Subsingleton.elim i 0
  cases step with
  | startRead i idle taken =>
    cases readers i
    obtain ⟨rfl, rfl⟩ := startRead_at here idle taken
    exact ⟨.opening, reader_at here .opening rfl rfl rfl rfl here.pipe rfl rfl, by decide⟩
  | readFile i at_ =>
    cases readers i
    rw [here.reader] at at_
    cases point <;> simp only [Point.reader, reduceCtorEq] at at_
    exact ⟨.writing, reader_at here .writing rfl here.sem rfl rfl here.pipe rfl rfl, by decide⟩
  | openFails i at_ =>
    cases readers i
    rw [here.reader] at at_
    cases point <;> simp only [Point.reader, reduceCtorEq] at at_
    exact ⟨.quitting, reader_at here .quitting rfl here.sem rfl rfl here.pipe rfl rfl, by decide⟩
  | write i random at_ room =>
    cases readers i
    rw [here.reader] at at_
    cases point <;> simp only [Point.reader, reduceCtorEq] at at_
    refine ⟨.leaving, reader_at here .leaving rfl here.sem rfl rfl ?_ rfl rfl, by decide⟩
    have empty : s.pipe.length = 0 := here.pipe
    rw [List.length_append, empty]
    rfl
  | endRead i at_ given =>
    cases readers i
    cases given
    rw [here.reader] at at_
    cases point <;> simp only [Point.reader, reduceCtorEq] at at_
    exact ⟨.stuck, reader_at here .stuck rfl here.sem rfl rfl here.pipe rfl rfl, by decide⟩
  | exit i at_ =>
    cases readers i
    rw [here.reader] at at_
    cases point <;> simp only [Point.reader, reduceCtorEq] at at_
    exact ⟨.gone, reader_at here .gone rfl here.sem rfl rfl here.pipe rfl rfl, by decide⟩
  | startWrite at_ taken =>
    have sem : semWait point.sem = some _ := here.sem ▸ taken
    cases point <;> simp [Point.sem, semWait] at sem
    subst sem
    exact ⟨.reading, ⟨rfl, here.reader, rfl, here.pipe, here.number, here.file⟩, by decide⟩
  | poll at_ unread =>
    rw [here.writer] at at_
    cases point <;> simp only [Point.writer, reduceCtorEq] at at_
  | read at_ more =>
    rw [here.writer] at at_
    cases point <;> simp only [Point.writer, reduceCtorEq] at at_
    have empty : s.pipe.length = 0 := here.pipe
    rw [more] at empty
    cases empty
  | readEnd at_ empty closed =>
    rw [here.writer] at at_
    cases point <;> simp only [Point.writer, reduceCtorEq] at at_
    have idle : s.reader 0 = .idle := here.reader
    rw [closed 0] at idle
    cases idle
  | append at_ =>
    rw [here.writer] at at_
    cases point <;> simp only [Point.writer, reduceCtorEq] at at_
  | endWrite at_ given =>
    rw [here.writer] at at_
    cases point <;> simp only [Point.writer, reduceCtorEq] at at_

/-- A process waits at each point at which the others have to move. -/
theorem final_deadlock (here : At receivedNumber file point s)
    (final : ∀ action t, ¬ Step lock capacity s action t) : Deadlock lock capacity s := by
  have none_left (sem : s.lock = 0) : semWait s.lock = none := by rw [sem]; rfl
  have writerWaits (sem : s.lock = 0) (idle : s.writer = .idle) : Blocked lock capacity s none :=
    .inl ⟨idle, none_left sem⟩
  have both (reader : s.Live (some 0) → Blocked lock capacity s (some 0))
      (writer : Blocked lock capacity s none) : Deadlock lock capacity s := by
    intro p live
    match p with
    | some 0 => exact reader live
    | none => exact writer
  cases point with
  | fresh => exact absurd (.startRead 0 here.reader (by rw [here.sem]; rfl)) (final _ _)
  | opening => exact absurd (.readFile 0 here.reader) (final _ _)
  | writing =>
    refine both (fun _ => .inr ⟨here.reader, Nat.not_lt.mp fun room => ?_⟩) (writerWaits here.sem here.writer)
    exact final _ _ (.write 0 0 here.reader room)
  | leaving => exact absurd (.endRead 0 here.reader rfl) (final _ _)
  | stuck => exact both (fun _ => .inl ⟨here.reader, none_left here.sem⟩) (writerWaits here.sem here.writer)
  | quitting => exact absurd (.exit 0 here.reader) (final _ _)
  | gone => exact both (fun live => absurd here.reader live) (writerWaits here.sem here.writer)
  | reading =>
    have empty : s.pipe = [] := List.length_eq_zero_iff.mp here.pipe
    have stays : s.reader 0 ≠ .gone := by
      rw [here.reader]
      decide
    exact both (fun _ => .inl ⟨here.reader, none_left here.sem⟩) (.inr ⟨here.writer, empty, 0, stays⟩)

theorem trace_at (trace : Trace (Step lock capacity) (.start 1 receivedNumber file) steps s) :
    ∃ point, At receivedNumber file point s ∧ steps.length + point.left ≤ 4 := by
  induction trace with
  | nil => exact ⟨.fresh, start_at receivedNumber file, Nat.le_refl 4⟩
  | snoc _ last ih =>
    obtain ⟨point, here, bound⟩ := ih
    obtain ⟨next, there, fewer⟩ := step_at here last
    refine ⟨next, there, ?_⟩
    rw [List.length_append, List.length_singleton]
    omega

/-- Every run of the two processes, for a pipe of any capacity and whatever is in the file: whoever comes
first, the file stays as it is. -/
theorem nothing_filed (capacity : Nat) (receivedNumber : Int) (file : List Int)
    (steps : List (System Nat 1 × Action 1)) (s : System Nat 1)
    (trace : Trace (Step lock capacity) (.start 1 receivedNumber file) steps s) :
    Stalled capacity receivedNumber file steps s := by
  obtain ⟨point, here, bound⟩ := trace_at trace
  refine ⟨Nat.le_of_add_right_le bound, here.number, ?_, here.file, final_deadlock here⟩
  rw [here.pipe]
  split <;> decide

/-- The child's first number stays in the pipe. -/
theorem nothing_filed_turn : ∃ steps s, s.pipe = [7] ∧ Stalled 16384 0 [3] steps s := by
  have started : Trace (Step lock 16384) (.start 1 0 [3]) _ _ := .snoc .nil (.startRead 0 rfl rfl)
  have read := started.snoc (.readFile 0 rfl)
  have wrote := read.snoc (.write 0 7 rfl (by decide))
  have slept := wrote.snoc (.endRead 0 rfl rfl)
  exact ⟨_, _, rfl, nothing_filed 16384 0 [3] _ _ slept⟩

end Runs
end Task8
end Tasks.Numbers
