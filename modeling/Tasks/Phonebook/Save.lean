import Tasks.Kit.Writes
import Tasks.Phonebook.RoundTrip

/-! What `phonebook.txt` holds after `saveToFile`, at any failure of its calls. -/
namespace Tasks.Phonebook

open Kit Kit.Cells

/-- The writes of `saveToFile` from index `i` on: the bytes that get into the file, and whether
the loop came to its end. -/
def writeRecords (accept : Nat → Option Nat) (user : List Person) (i : Nat) :
    Nat → Except Overrun (Bytes × Bool)
  | 0 => .ok ([], true)
  | n + 1 => do
    let person ← inArray (read user i)
    let text ← data person
    match accept i with
    | none => return ([], false)
    | some bytesWritten =>
      let (written, ended) ← writeRecords accept user (i + 1) n
      return (text.take bytesWritten ++ written, ended)

/-- The file after `saveToFile`, none if there is no such file, and whether "Data saved to file." is
printed. Opening the file truncates it. -/
def save (opened : Bool) (accept : Nat → Option Nat) (previous : Option Bytes) (book : Book) :
    Except Overrun (Option Bytes × Bool) :=
  if opened then do
    let (written, ended) ← writeRecords accept book.user 0 book.userCount
    return (some written, ended)
  else return (previous, false)

def Book.complete (book : Book) : Bytes := book.entries.flatMap Entry.line

/-- The file is as it was before or has every record, and only then is it said to be saved. -/
def AllOrNothing (opened : Bool) (accept : Nat → Option Nat) (previous : Option Bytes) (book : Book) :
    Prop :=
  ∃ file printed, save opened accept previous book = .ok (file, printed) ∧
    (file = previous ∨ file = some book.complete) ∧ (printed = true → file = some book.complete)

section Saving

variable {book : Book} {accept : Nat → Option Nat}

/-- The loop with the number of bytes that each write takes is one of those with its bytes. -/
theorem saveRecords_eq (accept : Nat → Option Nat) (user : List Person) (i n : Nat) :
    saveRecords (fun i text => (accept i).map text.take) user i n =
      (writeRecords accept user i n).map Prod.fst := by
  induction n generalizing i with
  | zero => rfl
  | succ n ih =>
    rw [saveRecords, writeRecords]
    cases inArray (read user i) with
    | error fault => rfl
    | ok person =>
      rw [ok_bind, ok_bind]
      cases data person with
      | error fault => rfl
      | ok text =>
        rw [ok_bind, ok_bind]
        cases accept i with
        | none => rfl
        | some bytesWritten =>
          simp only [Option.map_some, ih]
          cases writeRecords accept user (i + 1) n with
          | error fault => rfl
          | ok result => rfl

/-- What `saveToFile` leaves, without the file from before. -/
theorem save_content (opened : Bool) (accept : Nat → Option Nat) (book : Book) :
    saveToFile opened (fun i text => (accept i).map text.take) book =
      (save opened accept none book).map Prod.fst := by
  cases opened with
  | false => rfl
  | true =>
    simp only [saveToFile, save, if_true, saveRecords_eq]
    cases writeRecords accept book.user 0 book.userCount with
    | error fault => rfl
    | ok result => rfl

theorem writeRecords_series (accept : Nat → Option Nat) (before used spare : List Person)
    (ended : ∀ person ∈ used, Ended person) :
    writeRecords accept (before ++ used ++ spare) before.length used.length =
      .ok (Writes.series (fun i => accept (before.length + i))
        (used.map fun person => person.entry.line)) := by
  induction used generalizing before with
  | nil => rfl
  | cons person used ih =>
    have later := ih (before ++ [person]) fun other member => ended other (by simp [member])
    simp only [List.append_assoc, List.cons_append, List.nil_append, List.length_append,
      List.length_singleton, Nat.add_assoc, Nat.add_comm 1] at later
    simp only [List.length_cons, List.append_assoc, List.cons_append, writeRecords, read_append,
      inArray_ok, ok_bind, data_line (ended person (by simp)), later, List.map_cons, Writes.series,
      Nat.add_zero]
    cases accept before.length with
    | none => rfl
    | some bytesWritten => rfl

theorem save_series (fits : Fits book) (ended : ∀ person ∈ book.used, Ended person)
    (previous : Option Bytes) :
    save true accept previous book =
      .ok (some (Writes.series accept (book.entries.map Entry.line)).1,
        (Writes.series accept (book.entries.map Entry.line)).2) := by
  obtain ⟨used, spare, rfl, _⟩ := fits.split
  simp only [Book.entries, used_append, List.map_map] at ended ⊢
  have written := writeRecords_series accept [] used spare ended
  simp only [List.nil_append, List.length_nil, Nat.zero_add] at written
  simp only [save, if_true, written, ok_bind]
  rfl

/-- Only a file that was not opened, a series of whole records and a failure behind what the file
held before leave one of the two contents. -/
theorem all_or_nothing_iff (opened : Bool) (accept : Nat → Option Nat) (previous : Option Bytes)
    (book : Book) (fits : Fits book) (ended : ∀ person ∈ book.used, Ended person) :
    AllOrNothing opened accept previous book ↔
      opened = false ∨ Writes.Taken accept (book.entries.map Entry.line) ∨
        ∃ i, Writes.FirstFailure accept (book.entries.map Entry.line).length i ∧
          previous = some (Writes.takenBefore accept (book.entries.map Entry.line) i) := by
  cases opened with
  | false => exact iff_of_true ⟨previous, false, rfl, .inl rfl, nofun⟩ (.inl rfl)
  | true =>
    have solid : ∀ line ∈ book.entries.map Entry.line, line ≠ [] := by
      intro line member
      obtain ⟨entry, _, rfl⟩ := List.mem_map.mp member
      simp [Entry.line]
    have whole : book.complete = (book.entries.map Entry.line).flatten := List.flatMap_def
    have atomic := Writes.series_atomic_iff accept previous solid
    simp only [AllOrNothing, save_series fits ended previous, Except.ok.injEq, Prod.mk.injEq, whole,
      reduceCtorEq, false_or, ← atomic]
    constructor
    · rintro ⟨_, _, ⟨rfl, rfl⟩, either, printed⟩
      exact ⟨either.imp_right Option.some.inj, fun all => Option.some.inj (printed all)⟩
    · rintro ⟨either, printed⟩
      exact ⟨_, _, ⟨rfl, rfl⟩, either.imp_right (congrArg some),
        fun all => congrArg some (printed all)⟩

def one : Book := ⟨List.replicate 30 blank, 1⟩

theorem one_fits : Fits one := ⟨rfl, by decide⟩

theorem one_ended : ∀ person ∈ one.used, Ended person := by
  intro person member
  have same : person = blank := List.eq_of_mem_replicate (List.mem_of_mem_take member)
  have empty : Chars.Holds (Vector.replicate 30 (0 : UInt8)) [] :=
    ⟨List.not_mem_nil, List.replicate 29 0, rfl⟩
  rw [same]
  exact ⟨⟨[], empty⟩, ⟨[], empty⟩, by decide, by decide⟩

theorem all_or_nothing_taken : AllOrNothing true (fun _ => some 90) none one := by
  apply (all_or_nothing_iff true (fun _ => some 90) none one one_fits one_ended).mpr
  refine .inr (.inl fun i line found => ⟨90, rfl, ?_⟩)
  have only : line ∈ [Entry.line ⟨0, [], []⟩] := List.mem_of_getElem? found
  rw [List.mem_singleton.mp only]
  decide

/-- A write that fails at once leaves nothing of the file that was there. -/
theorem failed_write_empties : ¬ ∀ opened accept previous book, Fits book →
    (∀ person ∈ book.used, Ended person) → AllOrNothing opened accept previous book := by
  intro law
  obtain ⟨file, printed, saved, either, _⟩ :=
    law true (fun _ => none) (some (Bytes.ascii "1|Ann|Lee\n")) one one_fits one_ended
  have empty : save true (fun _ => none) (some (Bytes.ascii "1|Ann|Lee\n")) one =
      .ok (some [], false) := rfl
  cases empty.symm.trans saved
  exact absurd either (by decide)

end Saving
end Tasks.Phonebook
