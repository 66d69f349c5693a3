import Tasks.Phonebook.Book

/-! What a phonebook becomes when it is saved and loaded again. The table is what counts: an id
and two texts for each person. -/
namespace Tasks.Phonebook

open Kit Kit.Strtol

def Person.entry (person : Person) : Entry := ⟨person.id, person.name.shown, person.surname.shown⟩

def Book.entries (book : Book) : List Entry := book.used.map Person.entry

def Entry.line (entry : Entry) : Bytes :=
  Bytes.decimal entry.id ++ 124 :: entry.name ++ 124 :: entry.surname ++ [10]

/-- The entries that the format of `loadFromFile` can give. -/
structure Entry.Valid (entry : Entry) : Prop where
  id : IsInt entry.id
  name : entry.name ≠ []
  bar : 124 ∉ entry.name
  nameShort : entry.name.length < 30
  surname : entry.surname ≠ []
  newline : 10 ∉ entry.surname
  surnameShort : entry.surname.length < 30

section Reading

variable {entry : Entry} {input rest text : Bytes}

theorem record_valid (found : record input = some (entry, rest)) : entry.Valid := by
  obtain ⟨first, second, third, number, former, latter, _⟩ := record_found found
  obtain ⟨_, name, nameShort, bar⟩ := column_found former
  obtain ⟨_, surname, surnameShort, newline⟩ := column_found latter
  exact ⟨int_isInt number, name, bar, nameShort, surname, newline, surnameShort⟩

/-- What every record keeps on the way through the file. -/
theorem records_all {P : Entry → Prop} {Q : Bytes → Prop}
    (each : ∀ input entry rest, Q input → record input = some (entry, rest) → P entry ∧ Q rest)
    (n : Nat) (start : Q input) : ∀ entry ∈ records n input, P entry := by
  induction n generalizing input with
  | zero => simp [records]
  | succ n ih =>
    rw [records]
    split
    · simp
    next entry rest found =>
      obtain ⟨first, later⟩ := each input entry rest start found
      intro other member
      rcases List.mem_cons.mp member with rfl | member
      · exact first
      · exact ih later other member

theorem records_valid (n : Nat) (input : Bytes) : ∀ entry ∈ records n input, entry.Valid :=
  records_all (Q := fun _ => True) (fun _ _ _ _ found => ⟨record_valid found, trivial⟩) n trivial

theorem column_append (kept : stop ∉ text) (nonempty : text ≠ []) (short : text.length < 30)
    (rest : Bytes) : column stop (124 :: (text ++ stop :: rest)) = some (text, stop :: rest) := by
  have matched : Scan.set 29 (· ≠ stop) (text ++ stop :: rest) = some (text, stop :: rest) := by
    refine Scan.set_append (fun x member => ?_) nonempty (Nat.le_of_lt_succ short) (.inr (by simp))
    simpa using fun same : x = stop => kept (same ▸ member)
  simpa [column, Scan.literal] using matched

/-- The format takes a line apart the way it was put together. -/
theorem record_line (valid : entry.Valid) (rest : Bytes) :
    record (entry.line ++ rest) = some (entry, Scan.skip rest) := by
  have number : Strtol.int (entry.line ++ rest) =
      some (entry.id, 124 :: (entry.name ++ 124 :: (entry.surname ++ 10 :: rest))) := by
    have found : Strtol.int (Bytes.decimal entry.id ++ 124 :: (entry.name ++ 124 ::
        (entry.surname ++ 10 :: rest))) = some (entry.id, _) :=
      int_decimal valid.id (by simp [Scan.digit])
    simpa [Entry.line] using found
  have former := column_append valid.bar valid.name valid.nameShort (entry.surname ++ 10 :: rest)
  have latter := column_append valid.newline valid.surname valid.surnameShort rest
  have ended : Scan.skip (10 :: rest) = Scan.skip rest := by simp [Scan.skip, Scan.blank]
  simp [record, number, former, latter, ended]

theorem records_skip (n : Nat) (input : Bytes) : records n (Scan.skip input) = records n input := by
  cases n with
  | zero => rfl
  | succ n => rw [records, records, record, int_skip, ← record]

theorem records_lines (n : Nat) (entries : List Entry) (valid : ∀ entry ∈ entries, entry.Valid)
    (fits : entries.length ≤ n) : records n (entries.flatMap Entry.line) = entries := by
  induction entries generalizing n with
  | nil =>
    cases n with
    | zero => rfl
    | succ n => rfl
  | cons entry entries ih =>
    cases n with
    | zero => simp at fits
    | succ n =>
      have later := ih n (fun other member => valid other (by simp [member])) (by simpa using fits)
      rw [List.flatMap_cons, records, record_line (valid entry (by simp))]
      dsimp only
      rw [records_skip, later]

end Reading

section Saving

variable {person : Person} {book : Book}

structure Ended (person : Person) : Prop where
  name : ∃ t, person.name.Holds t
  surname : ∃ t, person.surname.Holds t
  id : IsInt person.id

theorem data_line (ended : Ended person) : data person = .ok person.entry.line := by
  obtain ⟨⟨name, holdsName⟩, ⟨surname, holdsSurname⟩, isInt⟩ := ended
  have nameShort := holdsName.length
  have surnameShort := holdsSurname.length
  have number := Scan.decimal_length person.id isInt.lower isInt.upper
  have short : person.entry.line.length ≤ 89 := by
    simp only [Person.entry, holdsName.shown, holdsSurname.shown, Entry.line, List.length_append,
      List.length_cons, List.length_nil]
    omega
  have whole := List.take_of_length_le short
  simp only [Person.entry, holdsName.shown, holdsSurname.shown, Entry.line] at whole
  simp only [data, holdsName.text, holdsSurname.text, ok_bind, Person.entry, holdsName.shown,
    holdsSurname.shown, Entry.line, whole]
  rfl

theorem saveRecords_lines (before used spare : List Person) (ended : ∀ person ∈ used, Ended person) :
    saveRecords (fun _ text => some text) (before ++ used ++ spare) before.length used.length =
      .ok ((used.map Person.entry).flatMap Entry.line) := by
  induction used generalizing before with
  | nil => rfl
  | cons person used ih =>
    have later := ih (before ++ [person]) fun other member => ended other (by simp [member])
    simp only [List.append_assoc, List.cons_append, List.nil_append, List.length_append,
      List.length_singleton] at later
    simp only [List.length_cons, List.append_assoc, List.cons_append, saveRecords, Cells.read_append,
      inArray_ok, ok_bind, data_line (ended person (by simp)), later]
    rfl

theorem saveToFile_lines (fits : Fits book) (ended : ∀ person ∈ book.used, Ended person) :
    saveToFile true (fun _ text => some text) book = .ok (some (book.entries.flatMap Entry.line)) := by
  obtain ⟨used, spare, rfl, _⟩ := fits.split
  rw [used_append] at ended
  have saved := saveRecords_lines [] used spare ended
  rw [List.nil_append, List.length_nil] at saved
  simp only [saveToFile, if_true, saved, ok_bind, Book.entries, used_append]
  rfl

end Saving

section Texts

variable {entry : Entry} {person : Person} {input rest : Bytes}

structure Entry.Clean (entry : Entry) : Prop where
  name : 0 ∉ entry.name
  surname : 0 ∉ entry.surname

theorem record_clean (clean : 0 ∉ input) (found : record input = some (entry, rest)) :
    entry.Clean ∧ 0 ∉ rest := by
  obtain ⟨first, second, third, number, former, latter, rfl⟩ := record_found found
  have behind : 0 ∉ first := fun member => clean ((int_suffix number).mem member)
  rw [(column_found former).1] at behind
  simp only [List.mem_cons, List.mem_append, not_or] at behind
  obtain ⟨_, name, tail⟩ := behind
  rw [(column_found latter).1] at tail
  simp only [List.mem_cons, List.mem_append, not_or] at tail
  exact ⟨⟨name, tail.2.1⟩, fun member => tail.2.2 ((List.dropWhile_suffix _).mem member)⟩

theorem records_clean (n : Nat) (clean : 0 ∉ input) : ∀ entry ∈ records n input, entry.Clean :=
  records_all (fun _ _ _ clean found => record_clean clean found) n clean

theorem line_clean (clean : entry.Clean) : 0 ∉ entry.line := by
  simp [Entry.line, Bytes.decimal_clean, clean.name, clean.surname]

theorem entry_clean (ended : Ended person) : person.entry.Clean := by
  obtain ⟨⟨name, holdsName⟩, ⟨surname, holdsSurname⟩, _⟩ := ended
  constructor
  · rw [Person.entry, holdsName.shown]
    exact holdsName.1
  · rw [Person.entry, holdsSurname.shown]
    exact holdsSurname.1

theorem stores_entry (stores : Stores person entry) (clean : entry.Clean) :
    person.entry = entry ∧ (∃ t, person.name.Holds t) ∧ ∃ t, person.surname.Holds t := by
  obtain ⟨id, name, surname⟩ := stores
  have holdsName : person.name.Holds entry.name := ⟨clean.name, name⟩
  have holdsSurname : person.surname.Holds entry.surname := ⟨clean.surname, surname⟩
  refine ⟨?_, ⟨_, holdsName⟩, _, holdsSurname⟩
  rw [Person.entry, id, holdsName.shown, holdsSurname.shown]

/-- A file without NUL bytes is loaded as the format reads it. -/
theorem loadFromFile_entries (people : Vector Person 30) (content : Bytes) (clean : 0 ∉ content) :
    ∃ book, loadFromFile (.empty people) (some content) = .ok book ∧ Fits book ∧
      book.entries = records 2 content ∧
      ∀ person ∈ book.used, (∃ t, person.name.Holds t) ∧ ∃ t, person.surname.Holds t := by
  obtain ⟨used, spare, done, stored, declared⟩ := loadFromFile_spec people content
  have cleanRecords := records_clean 2 clean
  refine ⟨_, done, ⟨declared, by simp only [List.length_append] at declared; dsimp only; omega⟩, ?_⟩
  rw [Book.entries, used_append]
  clear done declared
  generalize records 2 content = entries at stored cleanRecords
  induction stored with
  | nil => simp
  | cons first _ ih =>
    obtain ⟨same, name, surname⟩ := stores_entry first (cleanRecords _ (by simp))
    obtain ⟨others, ended⟩ := ih fun entry member => cleanRecords entry (by simp [member])
    exact ⟨by rw [List.map_cons, same, others], by simpa using ⟨⟨name, surname⟩, ended⟩⟩

end Texts

section Again

variable {book next : Book}

/-- Saving a table and loading it in a new run gives the records of its lines. -/
theorem saved_loaded (fits : Fits book) (ended : ∀ person ∈ book.used, Ended person)
    (people : Vector Person 30) :
    ∃ content loaded, saveToFile true (fun _ text => some text) book = .ok (some content) ∧
      loadFromFile (.empty people) (some content) = .ok loaded ∧
      loaded.entries = records 2 (book.entries.flatMap Entry.line) := by
  have clean : 0 ∉ book.entries.flatMap Entry.line := by
    intro member
    obtain ⟨entry, inside, zero⟩ := List.mem_flatMap.mp member
    obtain ⟨person, used, rfl⟩ := List.mem_map.mp inside
    exact line_clean (entry_clean (ended person used)) zero
  obtain ⟨loaded, done, _, entries, _⟩ := loadFromFile_entries people _ clean
  exact ⟨_, loaded, saveToFile_lines fits ended, done, entries⟩

/-- A table comes back if and only if the format can give it. -/
theorem records_entries_iff (ended : ∀ person ∈ book.used, Ended person)
    (oneLine : ∀ person ∈ book.used, Written person) :
    records 2 (book.entries.flatMap Entry.line) = book.entries ↔
      book.entries.length ≤ 2 ∧ ∀ entry ∈ book.entries,
        entry.name ≠ [] ∧ 124 ∉ entry.name ∧ entry.surname ≠ [] := by
  constructor
  · intro same
    constructor
    · rw [← same]
      exact records_length 2 _
    · intro entry member
      rw [← same] at member
      have valid := records_valid 2 _ entry member
      exact ⟨valid.name, valid.bar, valid.surname⟩
  · rintro ⟨short, shaped⟩
    refine records_lines 2 book.entries ?_ short
    intro entry member
    obtain ⟨name, bar, surname⟩ := shaped entry member
    obtain ⟨person, used, rfl⟩ := List.mem_map.mp member
    obtain ⟨⟨t, holdsName⟩, ⟨u, holdsSurname⟩, isInt⟩ := ended person used
    obtain ⟨v, holdsLine, newline⟩ := (oneLine person used).surname
    refine ⟨isInt, name, bar, ?_, surname, ?_, ?_⟩
    · rw [Person.entry, holdsName.shown]
      exact holdsName.length
    · rw [Person.entry, holdsLine.shown]
      exact newline
    · rw [Person.entry, holdsSurname.shown]
      exact holdsSurname.length

/-- A person that was entered: both members from lines of input, and an id from `atoi`. -/
structure Entered (person : Person) : Prop where
  written : Written person
  id : IsInt person.id

theorem step_entered (fits : Fits book) (entered : ∀ person ∈ book.used, Entered person) (call : Call)
    (done : step book call = .ok next) : ∀ person ∈ next.used, Entered person := by
  have effect := (step_effect fits call done).2
  cases call with
  | addPerson buffer input =>
    obtain ⟨person, new, isInt, grown⟩ := effect
    intro other member
    rw [grown, List.mem_append, List.mem_singleton] at member
    rcases member with member | rfl
    · exact entered other member
    · exact ⟨new, isInt⟩
  | deletePerson id =>
    intro other member
    rw [effect] at member
    exact entered other (List.mem_of_mem_eraseP member)
  | editPerson id input =>
    rcases effect with same | ⟨before, person, person', after, shape, shape', id, new⟩
    · rwa [same]
    · intro other member
      rw [shape', List.mem_append, List.mem_cons] at member
      rcases member with member | rfl | member
      · exact entered other (by simp [shape, member])
      · exact ⟨new, id ▸ (entered person (by simp [shape])).id⟩
      · exact entered other (by simp [shape, member])
  | saveToFile opened accept => rwa [effect]

/-- Saving and loading a phonebook made from an empty one. -/
theorem round_trip_iff (people people' : Vector Person 30) (calls : List Call)
    (reached : run step (.empty people) calls = .ok book) :
    ∃ content loaded, saveToFile true (fun _ text => some text) book = .ok (some content) ∧
      loadFromFile (.empty people') (some content) = .ok loaded ∧
      (loaded.entries = book.entries ↔ book.entries.length ≤ 2 ∧ ∀ entry ∈ book.entries,
        entry.name ≠ [] ∧ 124 ∉ entry.name ∧ entry.surname ≠ []) := by
  have good := run_invariant (fun book => Fits book ∧ ∀ person ∈ book.used, Entered person)
    (fun book call next good done =>
      ⟨(step_effect good.1 call done).1, step_entered good.1 good.2 call done⟩)
    ⟨empty_fits people, by simp [Book.empty, Book.used]⟩ calls reached
  have ended : ∀ person ∈ book.used, Ended person := by
    intro person used
    obtain ⟨⟨⟨name, holdsName, _⟩, surname, holdsSurname, _⟩, isInt⟩ := good.2 person used
    exact ⟨⟨name, holdsName⟩, ⟨surname, holdsSurname⟩, isInt⟩
  obtain ⟨content, loaded, saved, done, entries⟩ := saved_loaded good.1 ended people'
  refine ⟨content, loaded, saved, done, ?_⟩
  rw [entries]
  exact records_entries_iff ended fun person used => (good.2 person used).written

theorem round_trip_annLee :
    ∃ book content loaded, run step (.empty (Vector.replicate 30 blank)) [annLee] = .ok book ∧
      saveToFile true (fun _ text => some text) book = .ok (some content) ∧
      loadFromFile (.empty (Vector.replicate 30 blank)) (some content) = .ok loaded ∧
      loaded.entries = book.entries := by
  have entered : (run step (.empty (Vector.replicate 30 blank)) [annLee] >>= fun book =>
      .ok book.entries) = .ok [⟨1, Bytes.ascii "Ann", Bytes.ascii "Lee"⟩] := rfl
  obtain ⟨book, reached, same⟩ := bind_eq_ok.mp entered
  have shape := Except.ok.inj same
  obtain ⟨content, loaded, saved, done, restored⟩ := round_trip_iff (Vector.replicate 30 blank)
    (Vector.replicate 30 blank) [annLee] reached
  refine ⟨book, content, loaded, reached, saved, done, restored.mpr ?_⟩
  rw [shape]
  decide

/-- The record limit of `loadFromFile` loses the third person. -/
theorem round_trip_three :
    ¬ ∀ book content loaded,
      run step (.empty (Vector.replicate 30 blank)) [annLee, annLee, annLee] = .ok book →
      saveToFile true (fun _ text => some text) book = .ok (some content) →
      loadFromFile (.empty (Vector.replicate 30 blank)) (some content) = .ok loaded →
      loaded.entries = book.entries := by
  intro restores
  have same := restores _ _ _ rfl rfl rfl
  exact absurd (congrArg List.length same) (by decide)

/-- What one load accepts, a save and another load reproduce. -/
theorem normalisation_stable (people people' : Vector Person 30) (content : Bytes) (clean : 0 ∉ content) :
    ∃ loaded content' again, loadFromFile (.empty people) (some content) = .ok loaded ∧
      saveToFile true (fun _ text => some text) loaded = .ok (some content') ∧
      loadFromFile (.empty people') (some content') = .ok again ∧ again.entries = loaded.entries := by
  obtain ⟨loaded, done, fits, entries, texts⟩ := loadFromFile_entries people content clean
  have ended : ∀ person ∈ loaded.used, Ended person := by
    intro person used
    obtain ⟨name, surname⟩ := texts person used
    have member : person.entry ∈ records 2 content := entries ▸ List.mem_map_of_mem used
    exact ⟨name, surname, (records_valid 2 content _ member).id⟩
  obtain ⟨content', again, saved, done', entries'⟩ := saved_loaded fits ended people'
  refine ⟨loaded, content', again, done, saved, done', ?_⟩
  rw [entries', entries]
  exact records_lines 2 _ (records_valid 2 content) (records_length 2 content)

theorem normalisation_stable_tail :
    ∃ loaded content' again,
      loadFromFile (.empty (Vector.replicate 30 blank)) (some (Bytes.ascii "1|An\nn|L|e\n 2|B|C")) =
        .ok loaded ∧
      saveToFile true (fun _ text => some text) loaded = .ok (some content') ∧
      loadFromFile (.empty (Vector.replicate 30 blank)) (some content') = .ok again ∧
      again.entries = loaded.entries :=
  normalisation_stable _ _ _ (by decide)

end Again

end Tasks.Phonebook
