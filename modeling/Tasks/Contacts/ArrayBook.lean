import Tasks.Contacts.Record
import Tasks.Kit.Cells
import Tasks.Kit.Prompt
import Mathlib.Data.List.Forall2
import Mathlib.Data.List.Nodup

/-! Module 2, Task 2.1: the contact book in an array of `MAX` contacts, whose number is also the
next id. -/
namespace Tasks.Contacts.ArrayBook

open Kit Kit.Cells Kit.Lines

/-- `Con` and `contactCount`. -/
structure Book where
  con : List Contact
  contactCount : Nat
  deriving DecidableEq, Repr

/-- The array of `main` has any content. -/
def Book.empty (con : Vector Contact 20) : Book := ⟨con.toList, 0⟩

/-- What the prompts of `addContact` read, `none` at the end of the input. -/
structure Entry where
  lastname : Option Bytes
  firstname : Option Bytes
  middlename : Option Bytes
  input : UInt8
  link : Option Bytes
  number : Option Bytes
  deriving DecidableEq, Repr

/-- The members of `Con[contactCount]`; without `'Y'` the social ones become empty. -/
def addMembers (con : Contact) (contactCount : Nat) (entry : Entry) : Except Overrun Contact := do
  let lastname ← Chars.scan con.lastname entry.lastname
  let firstname ← Chars.scan con.firstname entry.firstname
  let middlename ← Chars.scan con.middlename entry.middlename
  if entry.input = 89 then
    let link ← Chars.scan con.soc.link entry.link
    let number ← Chars.scan con.soc.number entry.number
    return ⟨contactCount, lastname, firstname, middlename, ⟨number, link⟩⟩
  else
    return ⟨contactCount, lastname, firstname, middlename, ⟨con.soc.number.cut, con.soc.link.cut⟩⟩

def addContact (book : Book) (entry : Entry) : Except Overrun Book := do
  let con ← inArray (read book.con book.contactCount)
  let con ← addMembers con book.contactCount entry
  let cells ← inArray (write book.con book.contactCount con)
  return ⟨cells, book.contactCount + 1⟩

def row (con : Contact) : Except Overrun (Int × List Bytes) :=
  con.row [con.lastname, con.firstname, con.middlename, con.soc.link, con.soc.number]

def listContact (book : Book) : Except Overrun (List (Int × List Bytes)) := do
  let cons ← inArray (visit book.con 0 book.contactCount)
  cons.mapM row

/-- The loop stops at the first contact with the id. -/
def deleteContact (book : Book) (idDelete : Int) : Except Overrun Book := do
  match ← inArray (search book.con (fun con => idDelete = con.id) 0 book.contactCount) with
  | none => return book
  | some i =>
    let cells ← inArray (shift book.con i (book.contactCount - 1 - i))
    return ⟨cells, book.contactCount - 1⟩

/-- The first name is cut where the last name ends. -/
def editMembers (buffer : Field) (con : Contact) (input : Bytes) : Except Overrun (Contact × Bytes) := do
  let input := input.drop 1
  let (buffer, lastname, input) ← Chars.prompt buffer con.lastname id input
  let (buffer, firstname, input) ← Chars.prompt buffer con.firstname (fun _ => lastname) input
  let (buffer, middlename, input) ← Chars.prompt buffer con.middlename id input
  let (buffer, link, input) ← Chars.prompt buffer con.soc.link id input
  let (_, number, input) ← Chars.prompt buffer con.soc.number id input
  return ({ con with lastname, firstname, middlename, soc := ⟨number, link⟩ }, input)

/-- The loop goes on after a match; `buffers` is what `input` holds when it is declared. -/
def editFrom (buffers : Nat → Field) (idEdit : Int) (cells : List Contact) (i : Nat) (input : Bytes) :
    Nat → Except Overrun (List Contact × Bytes)
  | 0 => .ok (cells, input)
  | n + 1 => do
    let con ← inArray (read cells i)
    if idEdit = con.id then
      let (con, input) ← editMembers (buffers i) con input
      let cells ← inArray (write cells i con)
      editFrom buffers idEdit cells (i + 1) input n
    else editFrom buffers idEdit cells (i + 1) input n

def editContact (book : Book) (buffers : Nat → Field) (idEdit : Int) (input : Bytes) :
    Except Overrun Book := do
  let (cells, _) ← editFrom buffers idEdit book.con 0 input book.contactCount
  return { book with con := cells }

/-- A choice of the menu with what its prompts read; a number that is not read is any number. -/
inductive Call where
  | addContact (entry : Entry)
  | editContact (buffers : Nat → Field) (idEdit : Int) (input : Bytes)
  | deleteContact (idDelete : Int)
  | listContact

def step (book : Book) : Call → Except Overrun Book
  | .addContact entry => addContact book entry
  | .editContact buffers idEdit input => editContact book buffers idEdit input
  | .deleteContact idDelete => deleteContact book idDelete
  | .listContact => do
    let _ ← listContact book
    return book

def Book.used (book : Book) : List Contact := book.con.take book.contactCount

def Book.ids (book : Book) : List Int := book.used.map Contact.id

section Members

variable {con con' : Contact}

theorem addMembers_within (con : Contact) (contactCount : Nat) (entry : Entry) :
    Within (addMembers con contactCount entry) := by
  refine .bind (Chars.scan_within ..) fun _ _ => .bind (Chars.scan_within ..) fun _ _ =>
    .bind (Chars.scan_within ..) fun _ _ => ?_
  split
  · exact .bind (Chars.scan_within ..) fun _ _ => .bind (Chars.scan_within ..) fun _ _ => .ok _
  · exact .ok _

theorem addMembers_id (done : addMembers con contactCount entry = .ok con') :
    con'.id = contactCount := by
  simp only [addMembers, bind_eq_ok] at done
  obtain ⟨_, _, _, _, _, _, done⟩ := done
  split at done
  · simp only [bind_eq_ok] at done
    obtain ⟨_, _, _, _, done⟩ := done
    cases done
    rfl
  · cases done
    rfl

theorem editMembers_within (buffer : Field) (con : Contact) (input : Bytes) :
    Within (editMembers buffer con input) :=
  .bind (Chars.prompt_within ..) fun _ _ => .bind (Chars.prompt_within ..) fun _ _ =>
    .bind (Chars.prompt_within ..) fun _ _ => .bind (Chars.prompt_within ..) fun _ _ =>
    .bind (Chars.prompt_within ..) fun _ _ => .ok _

theorem editMembers_id (done : editMembers buffer con input = .ok (con', rest)) : con'.id = con.id := by
  simp only [editMembers, bind_eq_ok] at done
  obtain ⟨_, _, _, _, _, _, _, _, _, _, done⟩ := done
  cases done
  rfl

end Members

section Calls

variable {book next : Book} {used spare : List Contact}

structure Fits (book : Book) : Prop where
  length : book.con.length = 20
  count : book.contactCount ≤ 20

theorem Fits.split (fits : Fits book) :
    ∃ used spare, book = ⟨used ++ spare, used.length⟩ ∧ (used ++ spare).length = 20 := by
  obtain ⟨used, spare, cells, count⟩ :=
    split_count book.con book.contactCount (fits.length ▸ fits.count)
  exact ⟨used, spare, by rw [← cells, ← count], by rw [← cells, fits.length]⟩

theorem Fits.used_length (fits : Fits book) : book.used.length = book.contactCount :=
  List.length_take_of_le (fits.length ▸ fits.count)

@[simp] theorem used_append (used spare : List Contact) :
    Book.used ⟨used ++ spare, used.length⟩ = used := List.take_left' rfl

theorem addContact_full (fits : Fits book) (full : book.contactCount = 20) (entry : Entry) :
    addContact book entry = .error .array := by
  have outside : read book.con book.contactCount = .error .outOfBounds := by
    rw [Cells.read, List.getElem?_eq_none (by rw [fits.length, full])]
  rw [addContact, outside]
  rfl

theorem addContact_room (used : List Contact) (stale : Contact) (spare : List Contact) (entry : Entry) :
    addContact ⟨used ++ stale :: spare, used.length⟩ entry =
      addMembers stale used.length entry >>= fun con => .ok ⟨used ++ con :: spare, used.length + 1⟩ := by
  simp only [addContact, read_append, inArray_ok, ok_bind, write_append]
  rfl

theorem deleteContact_spec (used spare : List Contact) (idDelete : Int) :
    ∃ rest spare', deleteContact ⟨used ++ spare, used.length⟩ idDelete = .ok ⟨rest ++ spare', rest.length⟩ ∧
      rest = used.eraseP (fun con => idDelete = con.id) ∧
      (rest ++ spare').length = (used ++ spare).length := by
  simp only [deleteContact, search_used, inArray_ok, ok_bind]
  cases found : used.findIdx? fun con => decide (idDelete = con.id) with
  | none => exact ⟨used, spare, rfl, (eraseP_missing found).symm, rfl⟩
  | some i =>
    obtain ⟨y, shifted, shorter, same⟩ := shift_found spare found
    refine ⟨_, y :: spare, ?_, rfl, same⟩
    simp only [shifted, inArray_ok, ok_bind, shorter]
    rfl

def Edited (idEdit : Int) (con con' : Contact) : Prop :=
  con'.id = con.id ∧ (con.id ≠ idEdit → con' = con)

theorem editFrom_spec (buffers : Nat → Field) (idEdit : Int) (before used spare : List Contact)
    (input : Bytes) :
    Within (editFrom buffers idEdit (before ++ used ++ spare) before.length input used.length) ∧
      ∀ cells rest, editFrom buffers idEdit (before ++ used ++ spare) before.length input used.length =
          .ok (cells, rest) →
        ∃ used', cells = before ++ used' ++ spare ∧ List.Forall₂ (Edited idEdit) used used' := by
  induction used generalizing before input with
  | nil =>
    refine ⟨.ok _, ?_⟩
    intro cells rest done
    cases done
    exact ⟨[], by simp, .nil⟩
  | cons con used ih =>
    have later (con' : Contact) (input : Bytes) := ih (before ++ [con']) input
    simp only [List.append_assoc, List.cons_append, List.nil_append, List.length_append,
      List.length_singleton] at later
    simp only [List.length_cons, List.append_assoc, List.cons_append, editFrom, read_append, inArray_ok,
      ok_bind]
    by_cases same : idEdit = con.id
    · simp only [if_pos same]
      constructor
      · refine .bind (editMembers_within ..) fun ⟨con', input⟩ _ => ?_
        dsimp only
        rw [write_append, inArray_ok, ok_bind]
        exact (later con' input).1
      · intro cells rest done
        obtain ⟨⟨con', input⟩, edited, done⟩ := bind_eq_ok.mp done
        dsimp only at done
        rw [write_append, inArray_ok, ok_bind] at done
        obtain ⟨used', rfl, others⟩ := (later con' input).2 cells rest done
        exact ⟨con' :: used', rfl, .cons ⟨editMembers_id edited, fun other => absurd same.symm other⟩ others⟩
    · simp only [if_neg same]
      refine ⟨(later con input).1, ?_⟩
      intro cells rest done
      obtain ⟨used', rfl, others⟩ := (later con input).2 cells rest done
      exact ⟨con :: used', rfl, .cons ⟨rfl, fun _ => rfl⟩ others⟩

def Effect (used used' : List Contact) : Call → Prop
  | .addContact _ => ∃ con : Contact, con.id = used.length ∧ used' = used ++ [con]
  | .editContact _ idEdit _ => List.Forall₂ (Edited idEdit) used used'
  | .deleteContact idDelete => used' = used.eraseP fun con => idDelete = con.id
  | .listContact => used' = used

theorem step_effect (fits : Fits book) (call : Call) (done : step book call = .ok next) :
    Fits next ∧ Effect book.used next.used call := by
  obtain ⟨used, spare, rfl, declared⟩ := fits.split
  rw [used_append]
  have fitting (used' spare' : List Contact) (same : (used' ++ spare').length = (used ++ spare).length) :
      Fits ⟨used' ++ spare', used'.length⟩ :=
    ⟨same.trans declared, by simp only [List.length_append] at same declared ⊢; omega⟩
  cases call with
  | addContact entry =>
    cases spare with
    | nil =>
      rw [step, addContact_full fits (by simpa using declared)] at done
      cases done
    | cons stale spare =>
      rw [step, addContact_room, bind_eq_ok] at done
      obtain ⟨con, filled, done⟩ := done
      cases done
      have split : (⟨used ++ con :: spare, used.length + 1⟩ : Book) =
          ⟨(used ++ [con]) ++ spare, (used ++ [con]).length⟩ := by simp
      rw [split]
      exact ⟨fitting _ _ (by simp), con, addMembers_id filled, used_append ..⟩
  | editContact buffers idEdit input =>
    obtain ⟨⟨cells, rest⟩, edited, done⟩ := bind_eq_ok.mp done
    cases done
    obtain ⟨used', rfl, others⟩ := (editFrom_spec buffers idEdit [] used spare input).2 _ _ edited
    have split : (⟨[] ++ used' ++ spare, used.length⟩ : Book) = ⟨used' ++ spare, used'.length⟩ := by
      simp [others.length_eq]
    rw [split]
    exact ⟨fitting _ _ (by simp [others.length_eq]), by rwa [used_append]⟩
  | deleteContact idDelete =>
    obtain ⟨rest, spare', deleted, shape, same⟩ := deleteContact_spec used spare idDelete
    rw [step, deleted] at done
    cases done
    exact ⟨fitting _ _ same, by rwa [used_append]⟩
  | listContact =>
    obtain ⟨_, _, done⟩ := bind_eq_ok.mp done
    cases done
    exact ⟨fits, used_append ..⟩

theorem step_array_iff (fits : Fits book) (call : Call) :
    step book call = .error .array ↔ book.contactCount = 20 ∧ ∃ entry, call = .addContact entry := by
  obtain ⟨used, spare, rfl, declared⟩ := fits.split
  cases call with
  | addContact entry =>
    cases spare with
    | nil =>
      have full : used.length = 20 := by simpa using declared
      exact ⟨fun _ => ⟨full, entry, rfl⟩, fun _ => addContact_full fits full entry⟩
    | cons stale spare =>
      have room : ¬ used.length = 20 := by
        simp only [List.length_append, List.length_cons] at declared
        omega
      have within : Within (addContact ⟨used ++ stale :: spare, used.length⟩ entry) := by
        rw [addContact_room]
        exact .bind (addMembers_within ..) fun _ _ => .ok _
      simp [step, within.inside, room]
  | editContact buffers idEdit input =>
    have within : Within (editContact ⟨used ++ spare, used.length⟩ buffers idEdit input) :=
      .bind (editFrom_spec buffers idEdit [] used spare input).1 fun _ _ => .ok _
    simp [step, within.inside]
  | deleteContact idDelete =>
    obtain ⟨rest, spare', deleted, _⟩ := deleteContact_spec used spare idDelete
    simp [step, deleted]
  | listContact =>
    have within : Within (listContact ⟨used ++ spare, used.length⟩) := by
      rw [listContact, visit_used, inArray_ok, ok_bind]
      exact .mapM (fun con => con.row_within _) used
    have stepped : Within (step ⟨used ++ spare, used.length⟩ .listContact) :=
      .bind within fun _ _ => .ok _
    simp [stepped.inside]

end Calls

section Ids

variable {book next : Book} {entry : Entry}

structure Unique (book : Book) : Prop where
  distinct : book.ids.Nodup
  edit : ∀ buffers idEdit input next, editContact book buffers idEdit input = .ok next →
    ∀ before con after, book.used = before ++ con :: after → con.id = idEdit →
      ∃ con', con'.id = idEdit ∧ next.used = before ++ con' :: after
  delete : ∀ idDelete next, deleteContact book idDelete = .ok next →
    ∀ before con after, book.used = before ++ con :: after → con.id = idDelete →
      next.used = before ++ after

theorem edited_ids {used used' : List Contact} (edited : List.Forall₂ (Edited idEdit) used used') :
    used'.map Contact.id = used.map Contact.id := by
  induction edited with
  | nil => rfl
  | cons same _ ih => rw [List.map_cons, List.map_cons, same.1, ih]

theorem edited_others {used used' : List Contact} (edited : List.Forall₂ (Edited idEdit) used used')
    (absent : idEdit ∉ used.map Contact.id) : used' = used := by
  induction edited with
  | nil => rfl
  | cons same _ ih =>
    simp only [List.map_cons, List.mem_cons, not_or] at absent
    rw [same.2 (Ne.symm absent.1), ih absent.2]

theorem edited_one {before after used' : List Contact} {con : Contact}
    (edited : List.Forall₂ (Edited con.id) (before ++ con :: after) used')
    (front : con.id ∉ before.map Contact.id) (back : con.id ∉ after.map Contact.id) :
    ∃ con', con'.id = con.id ∧ used' = before ++ con' :: after := by
  induction before generalizing used' with
  | nil =>
    obtain ⟨con', rest, same, others, rfl⟩ := List.forall₂_cons_left_iff.mp edited
    exact ⟨con', same.1, by rw [edited_others others back]; rfl⟩
  | cons other before ih =>
    obtain ⟨other', rest, same, others, rfl⟩ := List.forall₂_cons_left_iff.mp edited
    simp only [List.map_cons, List.mem_cons, not_or] at front
    obtain ⟨con', id, rfl⟩ := ih others front.2
    exact ⟨con', id, by rw [same.2 (Ne.symm front.1)]; rfl⟩

theorem unique_iff (fits : Fits book) : Unique book ↔ book.ids.Nodup := by
  refine ⟨Unique.distinct, fun distinct => ⟨distinct, ?_, ?_⟩⟩
  · intro buffers idEdit input next done before con after shape same
    have edited : List.Forall₂ (Edited idEdit) book.used next.used :=
      (step_effect fits (.editContact buffers idEdit input) done).2
    rw [Book.ids, shape, List.map_append, List.map_cons, List.nodup_middle, List.nodup_cons,
      List.mem_append, not_or] at distinct
    subst same
    rw [shape] at edited
    exact edited_one edited distinct.1.1 distinct.1.2
  · intro idDelete next done before con after shape same
    have deleted : next.used = book.used.eraseP fun con => idDelete = con.id :=
      (step_effect fits (.deleteContact idDelete) done).2
    rw [Book.ids, shape, List.map_append, List.map_cons, List.nodup_middle, List.nodup_cons,
      List.mem_append, not_or, same] at distinct
    rw [deleted, shape, List.eraseP_append_right, List.eraseP_cons_of_pos (by simp [same])]
    intro other member
    have different : other.id ≠ idDelete := fun also =>
      distinct.1.1 (also ▸ List.mem_map_of_mem member)
    simpa using Ne.symm different

theorem addContact_ids (fits : Fits book) (done : addContact book entry = .ok next) :
    next.ids = book.ids ++ [(book.contactCount : Int)] := by
  obtain ⟨con, issued, grown⟩ := (step_effect fits (.addContact entry) done).2
  rw [Book.ids, grown, List.map_append, List.map_singleton, issued, fits.used_length]
  rfl

theorem step_distinct_iff (fits : Fits book) (distinct : book.ids.Nodup) (call : Call)
    (done : step book call = .ok next) :
    next.ids.Nodup ↔ ∀ entry, call = .addContact entry → (book.contactCount : Int) ∉ book.ids := by
  have effect := (step_effect fits call done).2
  cases call with
  | addContact entry =>
    rw [addContact_ids fits done, ← List.concat_eq_append, List.nodup_concat]
    simp [distinct]
  | editContact buffers idEdit input => simpa [Book.ids, edited_ids effect] using distinct
  | deleteContact idDelete =>
    have shorter : next.ids.Sublist book.ids := by
      rw [Book.ids, Book.ids, effect]
      exact List.eraseP_sublist.map Contact.id
    simpa using distinct.sublist shorter
  | listContact =>
    have same : next.ids = book.ids := congrArg (List.map Contact.id) effect
    simpa [same] using distinct

theorem empty_fits (con : Vector Contact 20) : Fits (.empty con) := ⟨by simp [Book.empty], Nat.zero_le 20⟩

/-- All along a run the ids are distinct if and only if no addition issues an id in use. -/
theorem unique_ids_iff (con : Vector Contact 20) (calls : List Call) :
    (∀ before, before <+: calls → ∀ book, run step (.empty con) before = .ok book → Unique book) ↔
      ∀ before entry, before ++ [.addContact entry] <+: calls → ∀ book next,
        run step (.empty con) before = .ok book → addContact book entry = .ok next →
        (book.contactCount : Int) ∉ book.ids := by
  have kept (book : Book) (call : Call) (next : Book) (fits : Fits book)
      (done : step book call = .ok next) : Fits next := (step_effect fits call done).1
  have along := run_property_iff (fun book => book.ids.Nodup) kept
    (fun _ call _ fits distinct done => step_distinct_iff fits distinct call done) (empty_fits con)
    (by simp [Book.empty, Book.ids, Book.used]) calls
  constructor
  · intro unique before entry front book next earlier done
    exact along.mp (fun before front book done => (unique before front book done).distinct) before
      (.addContact entry) front book next earlier done entry rfl
  · intro issued before front book done
    rw [unique_iff (run_invariant Fits kept (empty_fits con) before done)]
    refine along.mpr ?_ before front book done
    rintro before call front book next earlier done entry rfl
    exact issued before entry front book next earlier done

def smith : Entry :=
  ⟨some (Bytes.ascii "Smith"), some (Bytes.ascii "Ann"), some (Bytes.ascii "M"), 78, none, none⟩

def blank : Contact :=
  ⟨0, Vector.replicate 20 0, Vector.replicate 20 0, Vector.replicate 20 0,
    ⟨Vector.replicate 20 0, Vector.replicate 20 0⟩⟩

/-- Of three contacts the second and the third have id 1 after the first was deleted. -/
theorem unique_ids_collision :
    ¬ ∀ before, before <+: [.addContact smith, .addContact smith, .deleteContact 0, .addContact smith] →
      ∀ book, run step (.empty (Vector.replicate 20 blank)) before = .ok book → Unique book := by
  intro unique
  have ids : (run step (.empty (Vector.replicate 20 blank)) [.addContact smith, .addContact smith,
      .deleteContact 0, .addContact smith] >>= fun book => .ok book.ids) = .ok [1, 1] := rfl
  obtain ⟨book, done, same⟩ := bind_eq_ok.mp ids
  have distinct := (unique _ (List.prefix_refl _) book done).distinct
  rw [Except.ok.inj same] at distinct
  exact absurd distinct (by decide)

end Ids

end Tasks.Contacts.ArrayBook
