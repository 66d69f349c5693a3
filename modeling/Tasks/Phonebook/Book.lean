import Tasks.Kit.Cells
import Tasks.Kit.Strtol
import Tasks.Kit.Lines
import Tasks.Contacts.ArrayBook

/-! Module 3, Task 3: the phonebook in an array of `MAX_LENGHT` persons, loaded from
`phonebook.txt` and saved to it. -/
namespace Tasks.Phonebook

open Kit Kit.Cells Kit.Lines Kit.Strtol

structure Person where
  id : Int
  name : Chars 30
  surname : Chars 30
  deriving DecidableEq, Repr

/-- `people` and `userCount`. -/
structure Book where
  user : List Person
  userCount : Nat
  deriving DecidableEq, Repr

/-- The array of `main` has any content. -/
def Book.empty (people : Vector Person 30) : Book := ⟨people.toList, 0⟩

/-- `|%29[^<stop>]` -/
def column (stop : UInt8) (input : Bytes) : Option (Bytes × Bytes) :=
  (Scan.literal 124 input).bind (Scan.set 29 (· ≠ stop))

/-- `fscanf(file, "%d|%29[^|]|%29[^\n]\n", ...)` with the number of conversions it stored. After a
partial match nothing more is read, so the input stays there. -/
def fscanf (user : Person) (input : Bytes) : Except Overrun (Person × Nat × Bytes) :=
  match Strtol.int input with
  | none => return (user, 0, input)
  | some (id, input) =>
    let user := { user with id }
    match column 124 input with
    | none => return (user, 1, input)
    | some (name, input) => do
      let user := { user with name := ← user.name.put name }
      match column 10 input with
      | none => return (user, 2, input)
      | some (surname, input) =>
        let user := { user with surname := ← user.surname.put surname }
        return (user, 3, Scan.skip input)

/-- The loop of `loadFromFile`, with the number of records up to `MAX_LENGHT_STRUCT`. -/
def loadRecords (user : List Person) (userCount : Nat) (input : Bytes) : Nat → Except Overrun Book
  | 0 => .ok ⟨user, userCount⟩
  | left + 1 => do
    let person ← inArray (read user userCount)
    let (person, stored, input) ← fscanf person input
    let user ← inArray (write user userCount person)
    if stored = 3 then loadRecords user (userCount + 1) input left
    else return ⟨user, userCount⟩

/-- `file` is `none` if `fopen` failed. -/
def loadFromFile (book : Book) (file : Option Bytes) : Except Overrun Book :=
  match file with
  | none => .ok book
  | some input => loadRecords book.user 0 input 2

/-- What `snprintf` leaves in the `char[90]`. -/
def data (person : Person) : Except Overrun Bytes := do
  let name ← person.name.text
  let surname ← person.surname.text
  return (Bytes.decimal person.id ++ 124 :: name ++ 124 :: surname ++ [10]).take 89

/-- The content written from index `i` on; `accept` is what `write` does with a record's text,
`none` where it fails. -/
def saveRecords (accept : Nat → Bytes → Option Bytes) (user : List Person) (i : Nat) :
    Nat → Except Overrun Bytes
  | 0 => .ok []
  | n + 1 => do
    let person ← inArray (read user i)
    match accept i (← data person) with
    | none => return []
    | some written => return written ++ (← saveRecords accept user (i + 1) n)

/-- The new content of the file, none if `open` failed. -/
def saveToFile (opened : Bool) (accept : Nat → Bytes → Option Bytes) (book : Book) :
    Except Overrun (Option Bytes) :=
  if opened then do return some (← saveRecords accept book.user 0 book.userCount)
  else return none

/-- A member set from a line of input, without the newline. -/
def enter (field : Chars 30) (input : Bytes) : Except Overrun (Chars 30 × Bytes) := do
  let (field, input) ← field.receive input (fgets 30 input)
  return (← field.trim, input)

def prompts (person : Person) (input : Bytes) : Except Overrun Person := do
  let (name, input) ← enter person.name input
  let (surname, _) ← enter person.surname input
  return { person with name, surname }

def addPerson (book : Book) (buffer : Chars 30) (input : Bytes) : Except Overrun Book := do
  let input := input.drop 1
  let (buffer, input) ← buffer.receive input (fgets 30 input)
  let person ← inArray (read book.user book.userCount)
  let id := atoi (← buffer.text)
  let person ← prompts { person with id } input
  let user ← inArray (write book.user book.userCount person)
  return ⟨user, book.userCount + 1⟩

/-- The search that `deletePerson` and `editPerson` start with. -/
def index (book : Book) (id : Int) : Except Overrun (Option Nat) :=
  inArray (search book.user (fun person => person.id = id) 0 book.userCount)

def deletePerson (book : Book) (id : Int) : Except Overrun Book := do
  match ← index book id with
  | none => return book
  | some i =>
    let user ← inArray (shift book.user i (book.userCount - 1 - i))
    return ⟨user, book.userCount - 1⟩

def editPerson (book : Book) (id : Int) (input : Bytes) : Except Overrun Book := do
  let input := input.drop 1
  match ← index book id with
  | none => return book
  | some i =>
    let person ← inArray (read book.user i)
    let person ← prompts person input
    let user ← inArray (write book.user i person)
    return { book with user }

/-- A choice of the menu with what its prompts read; a number that is not read is any number. -/
inductive Call where
  | addPerson (buffer : Chars 30) (input : Bytes)
  | deletePerson (id : Int)
  | editPerson (id : Int) (input : Bytes)
  | saveToFile (opened : Bool) (accept : Nat → Bytes → Option Bytes)

def step (book : Book) : Call → Except Overrun Book
  | .addPerson buffer input => addPerson book buffer input
  | .deletePerson id => deletePerson book id
  | .editPerson id input => editPerson book id input
  | .saveToFile opened accept => do
    let _ ← saveToFile opened accept book
    return book

/-- `main` from its array and the file it finds. -/
def main (people : Vector Person 30) (file : Option Bytes) (calls : List Call) :
    Except Overrun Book := do
  let book ← loadFromFile (.empty people) file
  run step book calls

def Book.used (book : Book) : List Person := book.user.take book.userCount

section Lines

theorem receive_ok (field : Chars 30) (input : Bytes) :
    ∃ result, field.receive input (fgets 30 input) = .ok result := by
  by_cases more : input = []
  · subst more
    exact ⟨_, rfl⟩
  · obtain ⟨field', received, _⟩ := Chars.receive_line field more
    exact ⟨_, received⟩

theorem enter_within (field : Chars 30) (input : Bytes) : Within (enter field input) :=
  .bind (Chars.receive_within ..) fun _ _ => .bind (Chars.trim_within _) fun _ _ => .ok _

theorem enter_holds (done : enter field input = .ok (field', rest)) :
    ∃ t, field'.Holds t ∧ 10 ∉ t := by
  obtain ⟨⟨_, _⟩, _, done⟩ := bind_eq_ok.mp done
  obtain ⟨_, trimmed, done⟩ := bind_eq_ok.mp done
  cases done
  exact Chars.trim_holds trimmed

structure Written (person : Person) : Prop where
  name : ∃ t, person.name.Holds t ∧ 10 ∉ t
  surname : ∃ t, person.surname.Holds t ∧ 10 ∉ t

theorem prompts_within (person : Person) (input : Bytes) : Within (prompts person input) :=
  .bind (enter_within ..) fun _ _ => .bind (enter_within ..) fun _ _ => .ok _

theorem prompts_written (done : prompts person input = .ok person') :
    Written person' ∧ person'.id = person.id := by
  obtain ⟨⟨name, _⟩, former, done⟩ := bind_eq_ok.mp done
  obtain ⟨⟨surname, _⟩, latter, done⟩ := bind_eq_ok.mp done
  cases done
  exact ⟨⟨enter_holds former, enter_holds latter⟩, rfl⟩

end Lines

section Loading

structure Entry where
  id : Int
  name : Bytes
  surname : Bytes
  deriving DecidableEq, Repr

def record (input : Bytes) : Option (Entry × Bytes) := do
  let (id, input) ← Strtol.int input
  let (name, input) ← column 124 input
  let (surname, input) ← column 10 input
  return (⟨id, name, surname⟩, Scan.skip input)

def records : Nat → Bytes → List Entry
  | 0, _ => []
  | n + 1, input => match record input with
    | none => []
    | some (entry, rest) => entry :: records n rest

def Stores (person : Person) (entry : Entry) : Prop :=
  person.id = entry.id ∧ person.name.Stores entry.name ∧ person.surname.Stores entry.surname

theorem column_found (found : column stop input = some (text, rest)) :
    input = 124 :: (text ++ rest) ∧ text ≠ [] ∧ text.length < 30 ∧ stop ∉ text := by
  obtain ⟨behind, bar, matched⟩ := Option.bind_eq_some_iff.mp found
  obtain ⟨rfl, nonempty, short, kept⟩ := Scan.set_found matched
  refine ⟨?_, nonempty, Nat.lt_succ_of_le short, fun member => by simpa using kept stop member⟩
  unfold Scan.literal at bar
  split at bar
  · contradiction
  · split at bar
    next same =>
      cases bar
      rw [same]
    next => contradiction

theorem record_found (found : record input = some (entry, rest)) :
    ∃ first second third, Strtol.int input = some (entry.id, first) ∧
      column 124 first = some (entry.name, second) ∧ column 10 second = some (entry.surname, third) ∧
      rest = Scan.skip third := by
  obtain ⟨⟨id, first⟩, number, found⟩ := Option.bind_eq_some_iff.mp found
  obtain ⟨⟨name, second⟩, former, found⟩ := Option.bind_eq_some_iff.mp found
  obtain ⟨⟨surname, third⟩, latter, found⟩ := Option.bind_eq_some_iff.mp found
  cases found
  exact ⟨first, second, third, number, former, latter, rfl⟩

theorem fscanf_found (person : Person) (found : record input = some (entry, rest)) :
    ∃ person', fscanf person input = .ok (person', 3, rest) ∧ Stores person' entry := by
  obtain ⟨first, second, third, number, former, latter, rfl⟩ := record_found found
  obtain ⟨name, putName, storesName⟩ := person.name.put_stores entry.name (column_found former).2.2.1
  obtain ⟨surname, putSurname, storesSurname⟩ :=
    person.surname.put_stores entry.surname (column_found latter).2.2.1
  refine ⟨⟨entry.id, name, surname⟩, ?_, rfl, storesName, storesSurname⟩
  simp only [fscanf, number, former, putName, latter, putSurname, ok_bind]
  rfl

theorem fscanf_stops (person : Person) (stops : record input = none) :
    ∃ person' stored rest, fscanf person input = .ok (person', stored, rest) ∧ stored ≠ 3 := by
  cases number : Strtol.int input with
  | none => exact ⟨person, 0, input, by simp only [fscanf, number]; rfl, by decide⟩
  | some number' =>
    obtain ⟨id, first⟩ := number'
    cases former : column 124 first with
    | none => exact ⟨{ person with id }, 1, first, by simp only [fscanf, number, former]; rfl, by decide⟩
    | some former' =>
      obtain ⟨name, second⟩ := former'
      obtain ⟨name', putName, _⟩ := person.name.put_stores name (column_found former).2.2.1
      cases latter : column 10 second with
      | none =>
        refine ⟨{ person with id, name := name' }, 2, second, ?_, by decide⟩
        simp only [fscanf, number, former, putName, latter, ok_bind]
        rfl
      | some latter' => simp [record, number, former, latter] at stops

theorem loadRecords_spec (before stale : List Person) (left : Nat) (input : Bytes)
    (room : left ≤ stale.length) :
    ∃ loaded stale', loadRecords (before ++ stale) before.length input left =
        .ok ⟨before ++ loaded ++ stale', (before ++ loaded).length⟩ ∧
      List.Forall₂ Stores loaded (records left input) ∧ (loaded ++ stale').length = stale.length := by
  induction left generalizing before stale input with
  | zero => exact ⟨[], stale, by simp [loadRecords], .nil, rfl⟩
  | succ left ih =>
    cases stale with
    | nil => simp at room
    | cons person stale =>
      cases found : record input with
      | none =>
        obtain ⟨person', stored, rest, scanned, partly⟩ := fscanf_stops person found
        refine ⟨[], person' :: stale, ?_, by rw [records, found]; exact .nil, rfl⟩
        simp only [loadRecords, read_append, inArray_ok, ok_bind, scanned, write_append, if_neg partly,
          List.append_nil]
        rfl
      | some found' =>
        obtain ⟨entry, rest⟩ := found'
        obtain ⟨person', scanned, stores⟩ := fscanf_found person found
        obtain ⟨loaded, stale', done, matched, same⟩ :=
          ih (before ++ [person']) stale rest (by simpa using room)
        refine ⟨person' :: loaded, stale', ?_, by rw [records, found]; exact .cons stores matched,
          by simpa using same⟩
        simp only [List.append_assoc, List.cons_append, List.nil_append, List.length_append,
          List.length_singleton] at done
        simp only [loadRecords, read_append, inArray_ok, ok_bind, scanned, write_append, if_true, done]
        simp

theorem records_length (n : Nat) (input : Bytes) : (records n input).length ≤ n := by
  induction n generalizing input with
  | zero => exact Nat.le_refl 0
  | succ n ih =>
    rw [records]
    split
    · simp
    · simpa using ih _

/-- The table after a load, whatever is in the file and was in the array. -/
theorem loadFromFile_spec (people : Vector Person 30) (content : Bytes) :
    ∃ used spare, loadFromFile (.empty people) (some content) = .ok ⟨used ++ spare, used.length⟩ ∧
      List.Forall₂ Stores used (records 2 content) ∧ (used ++ spare).length = 30 := by
  obtain ⟨used, spare, done, matched, same⟩ := loadRecords_spec [] people.toList 2 content (by simp)
  exact ⟨used, spare, by simpa [loadFromFile, Book.empty] using done, matched, by simpa using same⟩

end Loading

section Calls

variable {book next : Book} {used spare : List Person}

structure Fits (book : Book) : Prop where
  length : book.user.length = 30
  count : book.userCount ≤ 30

theorem Fits.split (fits : Fits book) :
    ∃ used spare, book = ⟨used ++ spare, used.length⟩ ∧ (used ++ spare).length = 30 := by
  obtain ⟨used, spare, cells, count⟩ :=
    split_count book.user book.userCount (fits.length ▸ fits.count)
  exact ⟨used, spare, by rw [← cells, ← count], by rw [← cells, fits.length]⟩

@[simp] theorem used_append (used spare : List Person) :
    Book.used ⟨used ++ spare, used.length⟩ = used := List.take_left' rfl

theorem addPerson_full (fits : Fits book) (full : book.userCount = 30) (buffer : Chars 30)
    (input : Bytes) : addPerson book buffer input = .error .array := by
  have outside : Cells.read book.user book.userCount = .error .outOfBounds := by
    rw [Cells.read, List.getElem?_eq_none (by rw [fits.length, full])]
  obtain ⟨result, received⟩ := receive_ok buffer (input.drop 1)
  rw [addPerson, received, ok_bind, outside]
  rfl

theorem addPerson_room (used : List Person) (stale : Person) (spare : List Person) (buffer : Chars 30)
    (input : Bytes) :
    Within (addPerson ⟨used ++ stale :: spare, used.length⟩ buffer input) ∧
      ∀ next, addPerson ⟨used ++ stale :: spare, used.length⟩ buffer input = .ok next →
        ∃ person, Written person ∧ IsInt person.id ∧
          next = ⟨used ++ person :: spare, used.length + 1⟩ := by
  constructor
  · refine .bind (Chars.receive_within ..) fun ⟨_, _⟩ _ => ?_
    dsimp only
    rw [read_append, inArray_ok, ok_bind]
    refine .bind (Chars.text_within _) fun _ _ => .bind (prompts_within ..) fun _ _ => ?_
    rw [write_append]
    exact .ok _
  · intro next done
    obtain ⟨⟨_, _⟩, _, done⟩ := bind_eq_ok.mp done
    dsimp only at done
    rw [read_append, inArray_ok, ok_bind] at done
    obtain ⟨id, _, done⟩ := bind_eq_ok.mp done
    obtain ⟨person, entered, done⟩ := bind_eq_ok.mp done
    rw [write_append] at done
    cases done
    obtain ⟨written, same⟩ := prompts_written entered
    exact ⟨person, written, same ▸ atoi_int id, rfl⟩

theorem index_spec (used spare : List Person) (id : Int) :
    index ⟨used ++ spare, used.length⟩ id = .ok (used.findIdx? fun person => person.id = id) := by
  rw [index, search_used, inArray_ok]

theorem deletePerson_spec (used spare : List Person) (id : Int) :
    ∃ rest spare', deletePerson ⟨used ++ spare, used.length⟩ id = .ok ⟨rest ++ spare', rest.length⟩ ∧
      rest = used.eraseP (fun person => person.id = id) ∧
      (rest ++ spare').length = (used ++ spare).length := by
  simp only [deletePerson, index_spec, ok_bind]
  cases found : used.findIdx? fun person => decide (person.id = id) with
  | none => exact ⟨used, spare, rfl, (eraseP_missing found).symm, rfl⟩
  | some i =>
    obtain ⟨y, shifted, shorter, same⟩ := shift_found spare found
    refine ⟨_, y :: spare, ?_, rfl, same⟩
    simp only [shifted, inArray_ok, ok_bind, shorter]
    rfl

def Edited (used used' : List Person) : Prop :=
  used' = used ∨ ∃ before person person' after, used = before ++ person :: after ∧
    used' = before ++ person' :: after ∧ person'.id = person.id ∧ Written person'

theorem editPerson_spec (used spare : List Person) (id : Int) (input : Bytes) :
    Within (editPerson ⟨used ++ spare, used.length⟩ id input) ∧
      ∀ next, editPerson ⟨used ++ spare, used.length⟩ id input = .ok next →
        ∃ used', next = ⟨used' ++ spare, used'.length⟩ ∧ used'.length = used.length ∧
          Edited used used' := by
  simp only [editPerson, index_spec, ok_bind]
  cases found : used.findIdx? fun person => decide (person.id = id) with
  | none =>
    refine ⟨.ok _, ?_⟩
    intro next done
    cases done
    exact ⟨used, rfl, rfl, .inl rfl⟩
  | some i =>
    obtain ⟨before, person, after, rfl, rfl⟩ := found_split found
    simp only [List.append_assoc, List.cons_append, read_append, inArray_ok, ok_bind]
    constructor
    · refine .bind (prompts_within ..) fun _ _ => ?_
      rw [write_append]
      exact .ok _
    · intro next done
      obtain ⟨person', entered, done⟩ := bind_eq_ok.mp done
      rw [write_append] at done
      cases done
      obtain ⟨written, id⟩ := prompts_written entered
      exact ⟨before ++ person' :: after, by simp, by simp,
        .inr ⟨before, person, person', after, rfl, rfl, id, written⟩⟩

theorem data_within (person : Person) : Within (data person) :=
  .bind (Chars.text_within _) fun _ _ => .bind (Chars.text_within _) fun _ _ => .ok _

theorem saveRecords_within (accept : Nat → Bytes → Option Bytes) (before used spare : List Person) :
    Within (saveRecords accept (before ++ used ++ spare) before.length used.length) := by
  induction used generalizing before with
  | nil => exact .ok _
  | cons person used ih =>
    have later := ih (before ++ [person])
    simp only [List.append_assoc, List.cons_append, List.nil_append, List.length_append,
      List.length_singleton] at later
    simp only [List.length_cons, List.append_assoc, List.cons_append, saveRecords, read_append,
      inArray_ok, ok_bind]
    refine .bind (data_within person) fun text _ => ?_
    split
    · exact .ok _
    · exact .bind later fun _ _ => .ok _

def Effect (used used' : List Person) : Call → Prop
  | .addPerson _ _ => ∃ person, Written person ∧ IsInt person.id ∧ used' = used ++ [person]
  | .deletePerson id => used' = used.eraseP fun person => person.id = id
  | .editPerson _ _ => Edited used used'
  | .saveToFile _ _ => used' = used

theorem step_effect (fits : Fits book) (call : Call) (done : step book call = .ok next) :
    Fits next ∧ Effect book.used next.used call := by
  obtain ⟨used, spare, rfl, declared⟩ := fits.split
  rw [used_append]
  have fitting (used' spare' : List Person) (same : (used' ++ spare').length = (used ++ spare).length) :
      Fits ⟨used' ++ spare', used'.length⟩ :=
    ⟨same.trans declared, by simp only [List.length_append] at same declared ⊢; omega⟩
  cases call with
  | addPerson buffer input =>
    cases spare with
    | nil =>
      rw [step, addPerson_full fits (by simpa using declared)] at done
      cases done
    | cons stale spare =>
      obtain ⟨person, written, isInt, rfl⟩ := (addPerson_room used stale spare buffer input).2 next done
      have split : (⟨used ++ person :: spare, used.length + 1⟩ : Book) =
          ⟨(used ++ [person]) ++ spare, (used ++ [person]).length⟩ := by simp
      rw [split]
      exact ⟨fitting _ _ (by simp), person, written, isInt, used_append ..⟩
  | deletePerson id =>
    obtain ⟨rest, spare', deleted, shape, same⟩ := deletePerson_spec used spare id
    rw [step, deleted] at done
    cases done
    exact ⟨fitting _ _ same, by rwa [used_append]⟩
  | editPerson id input =>
    obtain ⟨used', rfl, same, edited⟩ := (editPerson_spec used spare id input).2 next done
    exact ⟨fitting _ _ (by simp [same]), by rwa [used_append]⟩
  | saveToFile opened accept =>
    obtain ⟨_, _, done⟩ := bind_eq_ok.mp done
    cases done
    exact ⟨fits, used_append ..⟩

/-- Only an addition to a full book leaves the array. -/
theorem step_array_iff (fits : Fits book) (call : Call) :
    step book call = .error .array ↔
      book.userCount = 30 ∧ ∃ buffer input, call = .addPerson buffer input := by
  obtain ⟨used, spare, rfl, declared⟩ := fits.split
  cases call with
  | addPerson buffer input =>
    cases spare with
    | nil =>
      have full : used.length = 30 := by simpa using declared
      exact ⟨fun _ => ⟨full, buffer, input, rfl⟩, fun _ => addPerson_full fits full buffer input⟩
    | cons stale spare =>
      have room : ¬ used.length = 30 := by
        simp only [List.length_append, List.length_cons] at declared
        omega
      simp [step, (addPerson_room used stale spare buffer input).1.inside, room]
  | deletePerson id =>
    obtain ⟨rest, spare', deleted, _⟩ := deletePerson_spec used spare id
    simp [step, deleted]
  | editPerson id input => simp [step, (editPerson_spec used spare id input).1.inside]
  | saveToFile opened accept =>
    have saved : Within (saveToFile opened accept ⟨used ++ spare, used.length⟩) := by
      unfold saveToFile
      split
      · exact .bind (saveRecords_within accept [] used spare) fun _ _ => .ok _
      · exact .ok _
    have stepped : Within (step ⟨used ++ spare, used.length⟩ (.saveToFile opened accept)) :=
      .bind saved fun _ _ => .ok _
    simp [stepped.inside]

theorem empty_fits (people : Vector Person 30) : Fits (.empty people) :=
  ⟨by simp [Book.empty], Nat.zero_le 30⟩

theorem loadFromFile_fits (people : Vector Person 30) (file : Option Bytes) :
    ∃ book, loadFromFile (.empty people) file = .ok book ∧ Fits book := by
  cases file with
  | none => exact ⟨_, rfl, empty_fits people⟩
  | some content =>
    obtain ⟨used, spare, done, _, declared⟩ := loadFromFile_spec people content
    exact ⟨_, done, declared, by simp only [List.length_append] at declared; dsimp only; omega⟩

end Calls

section Bounds

/-- In both programs the array is left only by adding to a full one. -/
theorem stores_within_iff (con : Vector Contacts.Contact 20)
    (contactCalls : List Contacts.ArrayBook.Call) (people : Vector Person 30) (file : Option Bytes)
    (calls : List Call) :
    ((run Contacts.ArrayBook.step (.empty con) contactCalls ≠ .error .array ∧
          ∀ before, before <+: contactCalls → ∀ book,
            run Contacts.ArrayBook.step (.empty con) before = .ok book → book.contactCount ≤ 20) ↔
        ∀ before entry, before ++ [.addContact entry] <+: contactCalls → ∀ book,
          run Contacts.ArrayBook.step (.empty con) before = .ok book → book.contactCount ≠ 20) ∧
      ((main people file calls ≠ .error .array ∧
          ∀ before, before <+: calls → ∀ book, main people file before = .ok book →
            book.userCount ≤ 30) ↔
        ∀ before buffer input, before ++ [.addPerson buffer input] <+: calls → ∀ book,
          main people file before = .ok book → book.userCount ≠ 30) := by
  have contactsKept (book : Contacts.ArrayBook.Book) (call : Contacts.ArrayBook.Call)
      (next : Contacts.ArrayBook.Book) (fits : Contacts.ArrayBook.Fits book)
      (done : Contacts.ArrayBook.step book call = .ok next) : Contacts.ArrayBook.Fits next :=
    (Contacts.ArrayBook.step_effect fits call done).1
  have kept (book : Book) (call : Call) (next : Book) (fits : Fits book)
      (done : step book call = .ok next) : Fits next := (step_effect fits call done).1
  have contactsStart := Contacts.ArrayBook.empty_fits con
  obtain ⟨loaded, load, fits⟩ := loadFromFile_fits people file
  have started (calls : List Call) : main people file calls = run step loaded calls := by
    rw [main, load, ok_bind]
  simp only [started]
  constructor
  · rw [run_safe_iff contactsKept (fun _ call fits => Contacts.ArrayBook.step_array_iff fits call)
      contactsStart]
    constructor
    · intro safe before entry front book done full
      exact safe.1 before _ front book done ⟨full, entry, rfl⟩
    · intro room
      refine ⟨?_, fun before _ book done => (run_invariant _ contactsKept contactsStart before done).count⟩
      rintro before call front book done ⟨full, entry, rfl⟩
      exact room before entry front book done full
  · rw [run_safe_iff kept (fun _ call fits => step_array_iff fits call) fits]
    constructor
    · intro safe before buffer input front book done full
      exact safe.1 before _ front book done ⟨full, buffer, input, rfl⟩
    · intro room
      refine ⟨?_, fun before _ book done => (run_invariant _ kept fits before done).count⟩
      rintro before call front book done ⟨full, buffer, input, rfl⟩
      exact room before buffer input front book done full

def blank : Person := ⟨0, Vector.replicate 30 0, Vector.replicate 30 0⟩

/-- `addPerson` at a prompt where the lines `1`, `Ann` and `Lee` are entered. -/
def annLee : Call := .addPerson (Vector.replicate 30 0) (Bytes.ascii "\n1\nAnn\nLee\n")

/-- One addition too many in either program. -/
theorem stores_overrun :
    run Contacts.ArrayBook.step (.empty (Vector.replicate 20 Contacts.ArrayBook.blank))
        (List.replicate 21 (.addContact Contacts.ArrayBook.smith)) = .error .array ∧
      main (Vector.replicate 30 blank) none (List.replicate 31 annLee) = .error .array :=
  ⟨rfl, rfl⟩

end Bounds

end Tasks.Phonebook
