import Tasks.Phonebook.RoundTrip

/-! The phonebook over many runs of the program, which share `phonebook.txt`, against a plain
list of persons and the content of the file. -/
namespace Tasks.Phonebook

open Kit Kit.Cells Kit.Lines Kit.Strtol

structure Disk where
  book : Book
  file : Option Bytes

def obey (s : Disk) : Call → Except Overrun Disk
  | .saveToFile opened accept => do
    let content ← saveToFile opened accept s.book
    return { s with file := content <|> s.file }
  | call => do
    let book ← step s.book call
    return { s with book }

structure Session where
  people : Vector Person 30
  readable : Bool
  calls : List Call

def session (s : Disk) (program : Session) : Except Overrun Disk := do
  let book ← loadFromFile (.empty program.people) (if program.readable then s.file else none)
  run obey ⟨book, s.file⟩ program.calls

structure Store where
  entries : List Entry
  file : Option Bytes
  deriving DecidableEq, Repr

/-- The text of a line of input without its newline, and the input behind the line. -/
def answer (input : Bytes) : Bytes × Bytes := (message (readLine 29 input).1, (readLine 29 input).2)

def answers (id : Int) (input : Bytes) : Entry := ⟨id, (answer input).1, (answer (answer input).2).1⟩

/-- The line of an entry, as far as it fits into the `char[90]`. -/
def Entry.stored (entry : Entry) : Bytes := entry.line.take 89

def Entry.shown (entry : Entry) : Entry :=
  ⟨entry.id, entry.name.takeWhile (· ≠ 0), entry.surname.takeWhile (· ≠ 0)⟩

/-- The lines from number `i` on, up to the first write that fails. -/
def saved (accept : Nat → Bytes → Option Bytes) (i : Nat) : List Entry → Bytes
  | [] => []
  | entry :: rest => match accept i entry.stored with
    | none => []
    | some written => written ++ saved accept (i + 1) rest

/-- Persons are added at the end, up to thirty of them; the first one with an id is taken out or
gets new names. -/
def Store.obey (s : Store) : Call → Except Overrun Store
  | .addPerson _ input =>
    if s.entries.length < 30 then
      let (number, input) := readLine 29 (input.drop 1)
      .ok { s with entries := s.entries ++ [answers (atoi (number.takeWhile (· ≠ 0))) input] }
    else .error .array
  | .deletePerson id => .ok { s with entries := s.entries.eraseP (·.id = id) }
  | .editPerson id input => match s.entries.findIdx? (·.id = id) with
    | none => .ok s
    | some i => .ok { s with entries := s.entries.set i (answers id (input.drop 1)) }
  | .saveToFile opened accept =>
    .ok { s with file := if opened then some (saved accept 0 s.entries) else s.file }

/-- The first two records of the file. -/
def loaded : Option Bytes → List Entry
  | none => []
  | some content => (records 2 content).map Entry.shown

def Store.session (s : Store) (program : Session) : Except Overrun Store :=
  run Store.obey ⟨loaded (if program.readable then s.file else none), s.file⟩ program.calls

def Complete : Call → Prop
  | .addPerson _ input => input.drop 1 ≠ [] ∧ (readLine 29 (input.drop 1)).2 ≠ [] ∧
    (answer (readLine 29 (input.drop 1)).2).2 ≠ []
  | .editPerson _ input => input.drop 1 ≠ [] ∧ (answer (input.drop 1)).2 ≠ []
  | _ => True

def Texts (person : Person) : Prop := (∃ t, person.name.Holds t) ∧ ∃ t, person.surname.Holds t

/-- The array holds these persons at its front, and the file is the same. -/
structure Represents (s : Disk) (t : Store) : Prop where
  fits : Fits s.book
  texts : ∀ person ∈ s.book.used, Texts person
  entries : s.book.entries = t.entries
  file : s.file = t.file

section Lines

variable {person : Person} {field : Chars 30} {entry : Entry} {input line : Bytes}

/-- A line with a terminator behind it stops at its newline, at a NUL in it, or at the terminator. -/
theorem message_ends (line after : Bytes) :
    ∃ x behind, line ++ 0 :: after = message line ++ x :: behind ∧ (x = 0 ∨ x = 10) ∧
      0 ∉ message line ∧ 10 ∉ message line := by
  have outside (x : UInt8) (stops : x = 0 ∨ x = 10) : x ∉ message line := fun member => by
    have kept := List.mem_takeWhile_imp member
    rcases stops with rfl | rfl <;> simp at kept
  obtain ⟨x, behind, shape, stops⟩ :=
    Bytes.takeWhile_stops (fun x => x ≠ 0 && x ≠ 10) line (z := 0) (by simp) after
  refine ⟨x, behind, shape, ?_, outside 0 (.inl rfl), outside 10 (.inr rfl)⟩
  by_cases nul : x = 0
  · exact .inl nul
  · simpa [nul] using stops

theorem trim_text (whole : field.toList = t ++ x :: after) (clean : 0 ∉ t) (oneLine : 10 ∉ t)
    (stop : x = 0 ∨ x = 10) : ∃ field', field.trim = .ok field' ∧ field'.Holds t := by
  have lengths := congrArg List.length whole
  simp only [Vector.length_toList, List.length_append, List.length_cons] at lengths
  have inside : t.length < 30 := by omega
  refine ⟨field.set t.length 0, ?_, clean, after, ?_⟩
  · rw [Chars.trim, Chars.strcspn_line whole clean oneLine stop, ok_bind]
    exact dif_pos inside
  · rw [Vector.toList_set, whole]
    simp

/-- A member set from a line of input holds the answer. -/
theorem enter_answer (field : Chars 30) (more : input ≠ []) :
    ∃ field', enter field input = .ok (field', (answer input).2) ∧ field'.Holds (answer input).1 := by
  obtain ⟨received, done, ⟨after, whole⟩, _⟩ := Chars.receive_line field more
  obtain ⟨x, behind, shape, stop, clean, oneLine⟩ := message_ends (readLine 29 input).1 after
  obtain ⟨field', trimmed, holds⟩ := trim_text (whole.trans shape) clean oneLine stop
  refine ⟨field', ?_, holds⟩
  rw [enter, done, ok_bind]
  dsimp only
  rw [trimmed]
  rfl

theorem prompts_answers (person : Person) (more : input ≠ []) (more' : (answer input).2 ≠ []) :
    ∃ person', prompts person input = .ok person' ∧ Texts person' ∧
      person'.entry = answers person.id input := by
  obtain ⟨name, former, holdsName⟩ := enter_answer person.name more
  obtain ⟨surname, latter, holdsSurname⟩ := enter_answer person.surname more'
  refine ⟨{ person with name, surname }, ?_, ⟨⟨_, holdsName⟩, _, holdsSurname⟩, ?_⟩
  · rw [prompts, former, ok_bind]
    dsimp only
    rw [latter]
    rfl
  · rw [Person.entry, holdsName.shown, holdsSurname.shown, answers]

theorem stores_shown (stores : field.Stores line) : field.Holds (line.takeWhile (· ≠ 0)) := by
  obtain ⟨after, whole⟩ := stores
  have clean : 0 ∉ line.takeWhile (· ≠ 0) := fun member => by simpa using List.mem_takeWhile_imp member
  obtain ⟨x, behind, shape, stops⟩ :=
    Bytes.takeWhile_stops (fun x => decide (x ≠ 0)) line (z := 0) (by simp) after
  obtain rfl : x = 0 := by simpa using stops
  exact ⟨clean, behind, whole.trans shape⟩

theorem data_stored (texts : Texts person) : data person = .ok person.entry.stored := by
  obtain ⟨⟨name, holdsName⟩, surname, holdsSurname⟩ := texts
  rw [data, holdsName.text, ok_bind, holdsSurname.text, ok_bind, Entry.stored, Entry.line, Person.entry,
    holdsName.shown, holdsSurname.shown]
  rfl

end Lines

section Calls

variable {s : Disk} {t : Store} {used spare : List Person}

theorem saveRecords_saved (accept : Nat → Bytes → Option Bytes) (before used spare : List Person)
    (texts : ∀ person ∈ used, Texts person) :
    saveRecords accept (before ++ used ++ spare) before.length used.length =
      .ok (saved accept before.length (used.map Person.entry)) := by
  induction used generalizing before with
  | nil => rfl
  | cons person used ih =>
    have later := ih (before ++ [person]) fun other member => texts other (by simp [member])
    simp only [List.append_assoc, List.cons_append, List.nil_append, List.length_append,
      List.length_singleton] at later
    simp only [List.length_cons, List.append_assoc, List.cons_append, saveRecords, Cells.read_append,
      inArray_ok, ok_bind, data_stored (texts person (by simp)), List.map_cons, saved, later]
    cases accept before.length person.entry.stored <;> rfl

theorem represents_append (used spare : List Person) (declared : (used ++ spare).length = 30)
    (texts : ∀ person ∈ used, Texts person) (file : Option Bytes) :
    Represents ⟨⟨used ++ spare, used.length⟩, file⟩ ⟨used.map Person.entry, file⟩ := by
  refine ⟨⟨declared, ?_⟩, by rwa [used_append], by rw [Book.entries, used_append], rfl⟩
  rw [List.length_append] at declared
  dsimp only
  omega

theorem addPerson_agrees (declared : (used ++ spare).length = 30)
    (texts : ∀ person ∈ used, Texts person) (buffer : Chars 30) (input : Bytes)
    (complete : Complete (.addPerson buffer input)) (file : Option Bytes) :
    Agrees Represents (obey ⟨⟨used ++ spare, used.length⟩, file⟩ (.addPerson buffer input))
      (Store.obey ⟨used.map Person.entry, file⟩ (.addPerson buffer input)) := by
  obtain ⟨more, more', more''⟩ := complete
  cases spare with
  | nil =>
    have fits : Fits ⟨used ++ [], used.length⟩ := ⟨declared, by simp at declared; simp [declared]⟩
    have full : used.length = 30 := by simpa using declared
    have refused := addPerson_full fits full buffer input
    have taken : ¬ (used.map Person.entry).length < 30 := by simp [full]
    simp only [obey, step, refused, error_bind, Store.obey, if_neg taken]
    exact .error _
  | cons stale spare =>
    have room : used.length < 30 := by
      simp only [List.length_append, List.length_cons] at declared
      omega
    obtain ⟨number, received, stores, _⟩ := Chars.receive_line buffer more
    obtain ⟨person, entered, new, entry⟩ := prompts_answers
      { stale with id := atoi ((readLine 29 (input.drop 1)).1.takeWhile (· ≠ 0)) } more' more''
    have added : obey ⟨⟨used ++ stale :: spare, used.length⟩, file⟩ (.addPerson buffer input) =
        .ok ⟨⟨(used ++ [person]) ++ spare, (used ++ [person]).length⟩, file⟩ := by
      simp only [obey, step, addPerson, received, ok_bind, Cells.read_append, inArray_ok,
        (stores_shown stores).text, entered, Cells.write_append]
      simp [pure, Except.pure]
    have grown : (used ++ [person]).map Person.entry = used.map Person.entry ++
        [answers (atoi ((readLine 29 (input.drop 1)).1.takeWhile (· ≠ 0)))
          (readLine 29 (input.drop 1)).2] := by
      rw [List.map_append, List.map_singleton, entry]
    rw [added]
    simp only [Store.obey, List.length_map, room, if_true, ← grown]
    refine .ok (represents_append _ _ (by simpa using declared) (fun other member => ?_) file)
    rcases List.mem_append.mp member with earlier | last
    · exact texts other earlier
    · exact List.mem_singleton.mp last ▸ new

theorem editPerson_agrees (declared : (used ++ spare).length = 30)
    (texts : ∀ person ∈ used, Texts person) (id : Int) (input : Bytes)
    (complete : Complete (.editPerson id input)) (file : Option Bytes) :
    Agrees Represents (obey ⟨⟨used ++ spare, used.length⟩, file⟩ (.editPerson id input))
      (Store.obey ⟨used.map Person.entry, file⟩ (.editPerson id input)) := by
  obtain ⟨more, more'⟩ := complete
  have same : (used.map Person.entry).findIdx? (fun entry => decide (entry.id = id)) =
      used.findIdx? fun person => decide (person.id = id) := List.findIdx?_map
  simp only [obey, step, editPerson, index_spec, ok_bind, Store.obey, same]
  cases found : used.findIdx? fun person => decide (person.id = id) with
  | none => exact .ok (represents_append _ _ declared texts file)
  | some i =>
    have here : (used[i]?.map Person.id) = some id := by
      obtain ⟨inside, passed, _⟩ := List.findIdx?_eq_some_iff_getElem.mp found
      simpa [inside] using passed
    obtain ⟨before, person, after, rfl, rfl⟩ := found_split found
    obtain rfl : person.id = id := by simpa using here
    obtain ⟨person', entered, new, entry⟩ := prompts_answers person more more'
    have edited : ((before ++ person :: after).map Person.entry).set before.length
        (answers person.id (input.drop 1)) = (before ++ person' :: after).map Person.entry := by
      simp [entry]
    simp only [List.append_assoc, List.cons_append, Cells.read_append, inArray_ok, ok_bind, entered,
      Cells.write_append, edited]
    have kept := represents_append (before ++ person' :: after) spare
      (by simpa using declared) (fun other member => ?_) file
    · rw [List.append_assoc, List.cons_append, List.length_append, List.length_cons] at kept
      rw [List.length_append, List.length_cons]
      exact .ok kept
    · rcases List.mem_append.mp member with earlier | later
      · exact texts other (by simp [earlier])
      · rcases List.mem_cons.mp later with rfl | later
        · exact new
        · exact texts other (by simp [later])

/-- Each call does to the array and the file what it does to the list and the file. -/
theorem obey_agrees (represents : Represents s t) (call : Call) (complete : Complete call) :
    Agrees Represents (obey s call) (t.obey call) := by
  obtain ⟨book, file⟩ := s
  obtain ⟨entries, _⟩ := t
  obtain ⟨fits, texts, rfl, rfl⟩ := represents
  obtain ⟨used, spare, rfl, declared⟩ := fits.split
  rw [used_append] at texts
  rw [Book.entries, used_append]
  cases call with
  | addPerson buffer input => exact addPerson_agrees declared texts buffer input complete file
  | deletePerson id =>
    obtain ⟨rest, spare', deleted, rfl, same⟩ := deletePerson_spec used spare id
    have erased : (used.map Person.entry).eraseP (fun entry => decide (entry.id = id)) =
        (used.eraseP fun person => decide (person.id = id)).map Person.entry := List.eraseP_map ..
    simp only [obey, step, deleted, ok_bind, Store.obey, erased]
    exact .ok (represents_append _ _ (same.trans declared)
      (fun person member => texts person (List.mem_of_mem_eraseP member)) file)
  | editPerson id input => exact editPerson_agrees declared texts id input complete file
  | saveToFile opened accept =>
    have lines := saveRecords_saved accept [] used spare texts
    rw [List.nil_append, List.length_nil] at lines
    cases opened with
    | false => exact .ok (represents_append _ _ declared texts file)
    | true =>
      simp only [obey, saveToFile, if_true, lines, ok_bind, Store.obey]
      exact .ok (represents_append _ _ declared texts _)

/-- A table that was loaded has the first two records, whatever was in the array. -/
theorem load_represents (people : Vector Person 30) (content file : Option Bytes) :
    ∃ book, loadFromFile (.empty people) content = .ok book ∧
      Represents ⟨book, file⟩ ⟨loaded content, file⟩ := by
  cases content with
  | none =>
    have nothing := represents_append [] people.toList (by simp) (by simp) file
    exact ⟨_, rfl, nothing⟩
  | some content =>
    obtain ⟨used, spare, done, stored, declared⟩ := loadFromFile_spec people content
    have read : used.map Person.entry = (records 2 content).map Entry.shown ∧
        ∀ person ∈ used, Texts person := by
      clear done declared
      generalize records 2 content = entries at stored ⊢
      induction stored with
      | nil => simp
      | @cons person entry _ _ first _ ih =>
        obtain ⟨id, name, surname⟩ := first
        have holdsName := stores_shown name
        have holdsSurname := stores_shown surname
        refine ⟨?_, List.forall_mem_cons.mpr ⟨⟨⟨_, holdsName⟩, _, holdsSurname⟩, ih.2⟩⟩
        rw [List.map_cons, List.map_cons, ih.1, Person.entry, Entry.shown, id, holdsName.shown,
          holdsSurname.shown]
    refine ⟨_, done, ?_⟩
    rw [loaded, ← read.1]
    exact represents_append _ _ declared read.2 file

end Calls

section Sessions

variable {s : Disk} {t : Store}

theorem program_agrees (represents : Represents s t) (program : Session)
    (complete : ∀ call ∈ program.calls, Complete call) :
    Agrees Represents (session s program) (t.session program) := by
  obtain ⟨book, done, loaded⟩ := load_represents program.people
    (if program.readable then s.file else none) s.file
  rw [session, done, ok_bind, Store.session, ← represents.file]
  exact run_agrees_each Represents program.calls
    (fun call member s t here => obey_agrees here call (complete call member)) loaded

/-- However often the program is run, with any file at the start, any array that `main` declares and
any failures of `open` and `write`: the persons in the array and the file are those of a plain
list, and the only fault is the addition of a thirty-first person. -/
theorem sessions_agree (people : Vector Person 30) (file : Option Bytes) (sessions : List Session)
    (complete : ∀ program ∈ sessions, ∀ call ∈ program.calls, Complete call) :
    Agrees Represents (run session ⟨.empty people, file⟩ sessions)
      (run Store.session ⟨[], file⟩ sessions) := by
  have start := represents_append [] people.toList (by simp) (by simp) file
  exact run_agrees_each Represents sessions
    (fun program member s t here => program_agrees here program (complete program member)) start

def saveAll : Call := .saveToFile true fun _ text => some text

/-- Three persons are saved; the next run loads two of them, and its save loses the third for good. -/
theorem sessions_agree_third :
    ∃ s, run session ⟨.empty (Vector.replicate 30 blank), none⟩
        [⟨Vector.replicate 30 blank, true, [annLee, annLee, annLee, saveAll]⟩,
          ⟨Vector.replicate 30 blank, true, [saveAll]⟩] = .ok s ∧
      s.file = some (Bytes.ascii "1|Ann|Lee\n1|Ann|Lee\n") := by
  have entered : Complete annLee := ⟨by decide, by decide, by decide⟩
  have saves : Complete saveAll := trivial
  have agrees := sessions_agree (Vector.replicate 30 blank) none
    [⟨Vector.replicate 30 blank, true, [annLee, annLee, annLee, saveAll]⟩,
      ⟨Vector.replicate 30 blank, true, [saveAll]⟩]
    (by simp [entered, saves])
  have plain : run Store.session ⟨[], none⟩
      [⟨Vector.replicate 30 blank, true, [annLee, annLee, annLee, saveAll]⟩,
        ⟨Vector.replicate 30 blank, true, [saveAll]⟩] =
      .ok ⟨[⟨1, Bytes.ascii "Ann", Bytes.ascii "Lee"⟩, ⟨1, Bytes.ascii "Ann", Bytes.ascii "Lee"⟩],
        some (Bytes.ascii "1|Ann|Lee\n1|Ann|Lee\n")⟩ := rfl
  rw [plain] at agrees
  revert agrees
  generalize run session _ _ = result
  rintro (⟨represents⟩ | _)
  exact ⟨_, rfl, represents.file⟩

end Sessions
end Tasks.Phonebook
