import Tasks.Contacts.TreeEdit

/-! What an edit makes of the five members, in the array of Task 2.1 and the tree of Task 4.3. Both
cut the first name where the last name ends. -/
namespace Tasks.Contacts

open Kit Kit.Lines

/-- The first name is as long as the last name is then, or it is not set. -/
def Matching (con : Contact) (answers : Answers) : Prop :=
  answers.firstname = [] ∨
    (if answers.lastname = [] then Chars.strcspn con.lastname else .ok answers.lastname.length) =
      .ok answers.firstname.length

/-- Each line leaves room for its newline and the terminator. -/
def Answers.Short (answers : Answers) : Prop := ∀ line ∈ answers.lines, line.length ≤ 18

instance (answers : Answers) : Decidable answers.Short :=
  inferInstanceAs (Decidable (∀ line ∈ answers.lines, line.length ≤ 18))

section Members

variable {con con' : Contact} {answers : Answers} {member member' : Field} {line rest : Bytes}

theorem takes_strcspn (takes : Takes member member' line) (clean : 0 ∉ line) (oneLine : 10 ∉ line) :
    Chars.strcspn member' = if line = [] then Chars.strcspn member else .ok line.length := by
  split
  next empty => rw [takes.1 empty]
  next some =>
    obtain ⟨_, after, whole⟩ := takes.2 some
    exact Chars.strcspn_line whole clean oneLine (.inl rfl)

/-- The prompt for the first name, with the last name that it is cut by. -/
theorem prompt_firstname (buffer member lastname : Field) (clean : 0 ∉ line) (oneLine : 10 ∉ line)
    (short : line.length < 19) (rest : Bytes) :
    (∃ buffer' member', Chars.prompt buffer member (fun _ => lastname) (line ++ 10 :: rest) =
        .ok (buffer', member', rest) ∧ Takes member member' line) ↔
      line = [] ∨ Chars.strcspn lastname = .ok line.length := by
  obtain ⟨buffer', prompted⟩ :=
    ArrayBook.prompt_line buffer member (fun _ => lastname) clean oneLine short rest
  rw [prompted]
  by_cases empty : line = []
  · rw [if_pos empty]
    exact iff_of_true ⟨buffer', member, rfl, fun _ => rfl, fun some => absurd empty some⟩ (.inl empty)
  · obtain ⟨after, whole⟩ := ArrayBook.padded_line short
    have cutting {i : Nat} {member' : Field}
        (cut : Chars.cut (Chars.padded (line ++ [10])) i = .ok member') :
        Takes member member' line ↔ i = line.length := by
      have holds := Chars.cut_holds_iff whole clean (by decide) cut
      exact ⟨fun takes => holds.mp (takes.2 empty),
        fun same => ⟨fun none => absurd none empty, fun _ => holds.mpr same⟩⟩
    rw [if_neg empty, or_iff_right empty]
    constructor
    · rintro ⟨_, member', done, takes⟩
      obtain ⟨i, found, done⟩ := bind_eq_ok.mp done
      obtain ⟨_, cut, done⟩ := bind_eq_ok.mp done
      cases done
      rw [found, (cutting cut).mp takes]
    · intro found
      obtain ⟨member', cut, _⟩ := Chars.cut_ends (Chars.padded (line ++ [10]) : Field) (i := line.length)
        (by omega)
      refine ⟨buffer', member', ?_, (cutting cut).mpr rfl⟩
      rw [found, ok_bind, cut]
      rfl

theorem editMembers_left (done : ArrayBook.editMembers buffer con (c :: input) = .ok (con', rest)) :
    rest = left 19 5 input := by
  simp only [ArrayBook.editMembers, bind_eq_ok] at done
  obtain ⟨⟨_, _, _⟩, one, ⟨_, _, _⟩, two, ⟨_, _, _⟩, three, ⟨_, _, _⟩, four, ⟨_, _, _⟩, five, done⟩ := done
  cases done
  exact ArrayBook.prompts_left one two three four five

theorem editMembers_rest (short : answers.Short)
    (done : ArrayBook.editMembers buffer con (c :: (typed answers.lines ++ rest)) = .ok (con', rest')) :
    rest' = rest := by
  have oneLine : ∀ line ∈ answers.lines, 10 ∉ line := fun line member => (answers.text line member).2
  have fits : ∀ line ∈ answers.lines, line.length < 19 := fun line member =>
    Nat.lt_succ_of_le (short line member)
  exact (editMembers_left done).trans ((left_lines_iff 19 oneLine rest).mpr fits)

/-- All five members are right if and only if the first name is. -/
theorem editMembers_written_iff (buffer : Field) (con : Contact) (c : UInt8) (short : answers.Short)
    (rest : Bytes) :
    (∃ con', ArrayBook.editMembers buffer con (c :: (typed answers.lines ++ rest)) = .ok (con', rest) ∧
        Written id answers con con') ↔ Matching con answers := by
  obtain ⟨last, first, middle, link, number, text⟩ := answers
  obtain ⟨clean, oneLine⟩ := text last (by simp)
  obtain ⟨cleanFirst, oneFirst⟩ := text first (by simp)
  have fits : first.length < 19 := Nat.lt_succ_of_le (short first (by simp [Answers.lines]))
  obtain ⟨buffer₁, lastname, prompted, takes⟩ := ArrayBook.prompt_typed buffer con.lastname ⟨clean, oneLine⟩
    (short last (by simp [Answers.lines])) [first, middle, link, number] rest
  have second := prompt_firstname buffer₁ con.firstname lastname cleanFirst oneFirst fits
    (typed [middle, link, number] ++ rest)
  rw [takes_strcspn takes clean oneLine] at second
  rw [Matching, ← second]
  simp only [ArrayBook.editMembers, Answers.lines, List.drop_one, List.tail_cons, prompted, ok_bind]
  rw [typed_cons]
  constructor
  · rintro ⟨con', done, written⟩
    obtain ⟨⟨buffer₂, firstname, input⟩, here, done⟩ := bind_eq_ok.mp done
    have left := ArrayBook.prompt_left here
    rw [readLine_text _ _ oneFirst fits] at left
    subst left
    simp only [bind_eq_ok] at done
    obtain ⟨_, _, _, _, _, _, done⟩ := done
    cases done
    exact ⟨buffer₂, firstname, here, written.firstname⟩
  · rintro ⟨buffer₂, firstname, here, takesFirst⟩
    obtain ⟨_, middlename, _, link', _, number', three, four, five, takesMiddle, takesLink, takesNumber⟩ :=
      ArrayBook.prompts_typed buffer₂ con (fun line member => text line (.tail _ (.tail _ member)))
        (fun line member => short line (.tail _ (.tail _ member))) rest
    refine ⟨⟨con.id, lastname, firstname, middlename, ⟨number', link'⟩⟩, ?_,
      rfl, takes, takesFirst, takesMiddle, takesLink, takesNumber⟩
    simp only [here, three, four, five, ok_bind]
    rfl

end Members

section Programs

variable {con con' : Contact} {root : SearchTree.TreeNode} {idEdit : Int}

theorem editFrom_others (buffers : Nat → Field) (idEdit : Int) (front used spare : List Contact)
    (others : ∀ other ∈ used, other.id ≠ idEdit) (input : Bytes) (n : Nat) :
    ArrayBook.editFrom buffers idEdit (front ++ used ++ spare) front.length input (used.length + n) =
      ArrayBook.editFrom buffers idEdit (front ++ used ++ spare) (front ++ used).length input n := by
  induction used generalizing front with
  | nil => simp
  | cons other used ih =>
    have later := ih (front ++ [other]) fun x member => others x (List.mem_cons_of_mem other member)
    have different : idEdit ≠ other.id := (others other List.mem_cons_self).symm
    have turns : (other :: used).length + n = used.length + n + 1 := by
      rw [List.length_cons, Nat.add_right_comm]
    simp only [List.append_assoc, List.cons_append, List.nil_append, List.length_append, List.length_cons,
      List.length_nil] at later
    rw [turns]
    simp only [List.append_assoc, List.cons_append, List.length_append, List.length_cons]
    rw [ArrayBook.editFrom, Cells.read_append, inArray_ok, ok_bind, if_neg different, later]

/-- The turns of the loop from the first contact with the id on. -/
theorem editFrom_first (buffers : Nat → Field) (before after : List Contact) (con : Contact)
    (others : ∀ other ∈ before, other.id ≠ con.id) (input : Bytes) (n : Nat) :
    ArrayBook.editFrom buffers con.id (before ++ con :: after) 0 input (before.length + (n + 1)) =
      ArrayBook.editMembers (buffers before.length) con input >>= fun result =>
        ArrayBook.editFrom buffers con.id (before ++ result.1 :: after) (before.length + 1) result.2 n := by
  have skipped := editFrom_others buffers con.id [] before (con :: after) others input (n + 1)
  simp only [List.nil_append, List.length_nil] at skipped
  rw [skipped, ArrayBook.editFrom, Cells.read_append, inArray_ok, ok_bind, if_pos rfl]
  apply congrArg
  funext result
  obtain ⟨con', rest⟩ := result
  dsimp only
  rw [Cells.write_append, inArray_ok, ok_bind]

theorem search_store (found : (SearchTree.search root idEdit).root? = some con) (same : con'.id = idEdit) :
    (SearchTree.search (SearchTree.store root idEdit con') idEdit).root? = some con' := by
  induction root with
  | nil => contradiction
  | node there left right ihl ihr =>
    rw [SearchTree.search] at found
    rw [SearchTree.store]
    split at found
    next here =>
      rw [if_pos here, SearchTree.search, if_pos same]
      rfl
    next other =>
      rw [if_neg other]
      split at found
      next less =>
        rw [if_pos less, SearchTree.search, if_neg other, if_pos less]
        exact ihl found
      next more =>
        rw [if_neg more, SearchTree.search, if_neg other, if_neg more]
        exact ihr found

theorem turn_written_iff (con : Contact) (answers : Answers) (short : answers.Short) (c : UInt8)
    (rest : Bytes) (buffers : Nat → Field) (before after : List Contact)
    (others : ∀ other ∈ before, other.id ≠ con.id) :
    (∃ con', ArrayBook.editFrom buffers con.id (before ++ con :: after) 0
          (c :: (typed answers.lines ++ rest)) (before.length + 1) = .ok (before ++ con' :: after, rest) ∧
        Written id answers con con') ↔ Matching con answers := by
  rw [← editMembers_written_iff (buffers before.length) con c short rest,
    editFrom_first buffers before after con others]
  apply exists_congr
  intro con'
  cases ArrayBook.editMembers (buffers before.length) con (c :: (typed answers.lines ++ rest)) with
  | error overrun => simp
  | ok result => simp [ArrayBook.editFrom, Prod.ext_iff]

theorem book_written_iff (con : Contact) (answers : Answers) (short : answers.Short) (c : UInt8)
    (rest : Bytes) (buffers : Nat → Field) (before after spare : List Contact)
    (others : ∀ other ∈ before, other.id ≠ con.id)
    (others' : ∀ other ∈ after, other.id ≠ con.id) :
    (∃ con', ArrayBook.editContact ⟨before ++ con :: (after ++ spare), before.length + (after.length + 1)⟩
          buffers con.id (c :: (typed answers.lines ++ rest)) =
          .ok ⟨before ++ con' :: (after ++ spare), before.length + (after.length + 1)⟩ ∧
        Written id answers con con') ↔ Matching con answers := by
  rw [← editMembers_written_iff (buffers before.length) con c short rest, ArrayBook.editContact,
    editFrom_first buffers before (after ++ spare) con others]
  apply exists_congr
  intro con'
  cases edited : ArrayBook.editMembers (buffers before.length) con (c :: (typed answers.lines ++ rest)) with
  | error overrun => simp
  | ok result =>
    obtain ⟨con'', rest'⟩ := result
    have read := editMembers_rest short edited
    have skipped := editFrom_others buffers con.id (before ++ [con'']) after spare others' rest' 0
    simp only [List.append_assoc, List.cons_append, List.nil_append, List.length_append,
      List.length_singleton, Nat.add_zero] at skipped
    rw [ok_bind]
    dsimp only
    rw [skipped, ArrayBook.editFrom]
    simp [pure, Except.pure, read]

/-- What is found in the tree under the id. -/
theorem tree_written_iff (con : Contact) (answers : Answers) (short : answers.Short) (c : UInt8)
    (rest : Bytes) (buffer : Field) (root : SearchTree.TreeNode)
    (found : (SearchTree.search root con.id).root? = some con) :
    (∃ next con', SearchTree.editContact root buffer con.id (c :: (typed answers.lines ++ rest)) =
          .ok next ∧
        (SearchTree.search next con.id).root? = some con' ∧ Written id answers con con') ↔
      Matching con answers := by
  rw [← editMembers_written_iff buffer con c short rest, SearchTree.editContact, found]
  dsimp only
  cases edited : ArrayBook.editMembers buffer con (c :: (typed answers.lines ++ rest)) with
  | error overrun => simp [memory, Except.mapError]
  | ok result =>
    obtain ⟨con'', rest'⟩ := result
    have stored := search_store found (ArrayBook.editMembers_id edited)
    have read := editMembers_rest short edited
    subst read
    rw [memory_eq_ok.mpr rfl, ok_bind]
    constructor
    · rintro ⟨next, con', done, held, written⟩
      cases done
      cases stored.symm.trans held
      exact ⟨con'', rfl, written⟩
    · rintro ⟨con', same, written⟩
      cases same
      exact ⟨_, con'', rfl, stored, written⟩

/-- An edit is right if and only if the first name is not answered or is as long as the last name is
then. -/
theorem edit_written_iff (con : Contact) (answers : Answers) (short : answers.Short) (c : UInt8)
    (rest : Bytes) :
    (∀ (buffers : Nat → Field) (before after : List Contact), (∀ other ∈ before, other.id ≠ con.id) →
      ((∃ con', ArrayBook.editFrom buffers con.id (before ++ con :: after) 0
            (c :: (typed answers.lines ++ rest)) (before.length + 1) = .ok (before ++ con' :: after, rest) ∧
          Written id answers con con') ↔ Matching con answers)) ∧
      (∀ (buffers : Nat → Field) (before after spare : List Contact),
        (∀ other ∈ before, other.id ≠ con.id) → (∀ other ∈ after, other.id ≠ con.id) →
        ((∃ con', ArrayBook.editContact
              ⟨before ++ con :: (after ++ spare), before.length + (after.length + 1)⟩ buffers con.id
                (c :: (typed answers.lines ++ rest)) =
              .ok ⟨before ++ con' :: (after ++ spare), before.length + (after.length + 1)⟩ ∧
            Written id answers con con') ↔ Matching con answers)) ∧
      ∀ (buffer : Field) (root : SearchTree.TreeNode), (SearchTree.search root con.id).root? = some con →
        ((∃ next con', SearchTree.editContact root buffer con.id (c :: (typed answers.lines ++ rest)) =
              .ok next ∧ (SearchTree.search next con.id).root? = some con' ∧
            Written id answers con con') ↔ Matching con answers) :=
  ⟨turn_written_iff con answers short c rest, book_written_iff con answers short c rest,
    tree_written_iff con answers short c rest⟩

def leeAnn : Answers := ⟨Bytes.ascii "Lee", Bytes.ascii "Ann", [], [], [], by decide⟩

theorem edit_written_iff_leeAnn :
    ∃ con', ArrayBook.editContact ⟨[ArrayBook.blank], 1⟩ (fun _ => ArrayBook.blank.lastname) 0
        (10 :: (typed leeAnn.lines ++ [])) = .ok ⟨[con'], 1⟩ ∧
      Written id leeAnn ArrayBook.blank con' := by
  have short : leeAnn.Short := by decide
  have same : Matching ArrayBook.blank leeAnn := .inr rfl
  exact ((edit_written_iff ArrayBook.blank leeAnn short 10 []).2.1 (fun _ => ArrayBook.blank.lastname)
    [] [] [] (by simp) (by simp)).mpr same

/-- Behind the last name `Li` the first name `Ann` becomes `An`. -/
def liAnn : Answers := ⟨Bytes.ascii "Li", Bytes.ascii "Ann", [], [], [], by decide⟩

/-- Neither program keeps the third letter. -/
theorem firstname_cut :
    (¬ ∃ con', ArrayBook.editContact ⟨[ArrayBook.blank], 1⟩ (fun _ => ArrayBook.blank.lastname) 0
        (10 :: (typed liAnn.lines ++ [])) = .ok ⟨[con'], 1⟩ ∧ Written id liAnn ArrayBook.blank con') ∧
      ¬ ∃ next con', SearchTree.editContact (.node ArrayBook.blank .nil .nil) ArrayBook.blank.lastname 0
        (10 :: (typed liAnn.lines ++ [])) = .ok next ∧
        (SearchTree.search next 0).root? = some con' ∧ Written id liAnn ArrayBook.blank con' := by
  have short : liAnn.Short := by decide
  have other : ¬ Matching ArrayBook.blank liAnn := by
    rintro (empty | same)
    · exact absurd empty (by decide)
    · cases same
  constructor
  · intro right
    exact other ((book_written_iff ArrayBook.blank liAnn short 10 [] (fun _ => ArrayBook.blank.lastname)
      [] [] [] (by simp) (by simp)).mp right)
  · intro right
    exact other ((tree_written_iff ArrayBook.blank liAnn short 10 [] ArrayBook.blank.lastname
      (.node ArrayBook.blank .nil .nil) rfl).mp right)

end Programs
end Tasks.Contacts
