import Tasks.Contacts.Fields
import Tasks.Contacts.LinkedListRuns

/-! `editContact` of Task 4.1, with the same code in Tasks 6.1 and 6.2, and which answers it pairs with
the members. -/
namespace Tasks.Contacts.LinkedList

open Kit Kit.Lines

/-- Every member is cut at its own end. -/
def editMembers (buffer : Field) (con : Contact) (input : Bytes) : Except Overrun (Contact × Bytes) := do
  let input := input.drop 1
  let (buffer, lastname, input) ← Chars.prompt buffer con.lastname id input
  let (buffer, firstname, input) ← Chars.prompt buffer con.firstname id input
  let (buffer, middlename, input) ← Chars.prompt buffer con.middlename id input
  let (buffer, link, input) ← Chars.prompt buffer con.soc.link id input
  let (_, number, input) ← Chars.prompt buffer con.soc.number id input
  return ({ con with lastname, firstname, middlename, soc := ⟨number, link⟩ }, input)

/-- `buffer` is what `input` holds when it is declared; the last results are what is left on `stdin`
and the report printed. -/
def editContact (fuel : Nat) (heap : Heap Contact) (head : Ptr) (buffer : Field) (idEdit : Int)
    (input : Bytes) : Except Fault (Heap Contact × Bytes × String) := do
  let current ← heap.walk (fun c => c.id = idEdit) fuel head
  if current = none then return (heap, input, "Contact not found!\n")
  let con := (← heap.load current).value
  let (con, input) ← memory (editMembers buffer con input)
  let heap ← heap.setValue current con
  return (heap, input, "Contact updated. \n")

/-- The edit of the node at `a` comes back with the front of its own line in every member, nothing of
the lines left in front of `rest`, and the list as it was but for this contact. -/
def Paired (heap : Heap Contact) (head : Ptr) (ys : List (Addr × Contact)) (a : Addr) (con : Contact)
    (zs : List (Addr × Contact)) (buffer : Field) (c : UInt8) (answers : Answers) (rest : Bytes) : Prop :=
  ∃ con' next prev, heap a = some ⟨con, next, prev⟩ ∧
    Returns (fun fuel => editContact fuel heap head buffer con.id (c :: (typed answers.lines ++ rest)))
      (heap.store a ⟨con', next, prev⟩, rest, "Contact updated. \n") ∧
    Heap.Linked (heap.store a ⟨con', next, prev⟩) head (ys ++ (a, con') :: zs) ∧
    Written (List.take 19) answers con con'

section Editing

variable {heap : Heap Contact} {head : Ptr} {a : Addr} {con con' : Contact} {ys zs : List (Addr × Contact)}
  {input rest : Bytes}

theorem editMembers_left (done : editMembers buffer con (c :: input) = .ok (con', rest)) :
    rest = left 19 5 input := by
  simp only [editMembers, bind_eq_ok] at done
  obtain ⟨⟨_, _, _⟩, one, ⟨_, _, _⟩, two, ⟨_, _, _⟩, three, ⟨_, _, _⟩, four, ⟨_, _, _⟩, five, done⟩ := done
  cases done
  exact ArrayBook.prompts_left one two three four five

theorem editMembers_id (done : editMembers buffer con input = .ok (con', rest)) : con'.id = con.id := by
  simp only [editMembers, bind_eq_ok] at done
  obtain ⟨_, _, _, _, _, _, _, _, _, _, done⟩ := done
  cases done
  rfl

/-- The prompts and the lines stay in step if and only if no line is longer than 18 characters. -/
theorem editMembers_paired_iff (buffer : Field) (con : Contact) (c : UInt8) (answers : Answers)
    (rest : Bytes) :
    (∃ con', editMembers buffer con (c :: (typed answers.lines ++ rest)) = .ok (con', rest) ∧
        Written (List.take 19) answers con con') ↔ answers.Short := by
  have oneLine (line : Bytes) (member : line ∈ answers.lines) : 10 ∉ line := (answers.text line member).2
  constructor
  · rintro ⟨con', done, _⟩
    have fits := (left_lines_iff 19 oneLine rest).mp (editMembers_left done).symm
    exact fun line member => Nat.le_of_lt_succ (fits line member)
  · intro short
    have whole (line : Bytes) (member : line ∈ answers.lines) : line = line.take 19 :=
      (List.take_of_length_le (Nat.le_succ_of_le (short line member))).symm
    suffices ∃ con', editMembers buffer con (c :: (typed answers.lines ++ rest)) = .ok (con', rest) ∧
        Written id answers con con' by
      obtain ⟨con', done, written⟩ := this
      exact ⟨con', done, written.congr whole⟩
    obtain ⟨last, first, middle, link, number, text⟩ := answers
    obtain ⟨buffer₁, lastname, one, takesLast⟩ := ArrayBook.prompt_typed buffer con.lastname
      (text last (by simp)) (short last (by simp [Answers.lines])) [first, middle, link, number] rest
    obtain ⟨buffer₂, firstname, two, takesFirst⟩ := ArrayBook.prompt_typed buffer₁ con.firstname
      (text first (by simp)) (short first (by simp [Answers.lines])) [middle, link, number] rest
    obtain ⟨_, middlename, _, link', _, number', three, four, five, takesMiddle, takesLink, takesNumber⟩ :=
      ArrayBook.prompts_typed buffer₂ con (fun line member => text line (.tail _ (.tail _ member)))
        (fun line member => short line (.tail _ (.tail _ member))) rest
    refine ⟨⟨con.id, lastname, firstname, middlename, ⟨number', link'⟩⟩, ?_,
      rfl, takesLast, takesFirst, takesMiddle, takesLink, takesNumber⟩
    simp only [editMembers, Answers.lines, List.drop_one, List.tail_cons, one, two, three, four, five,
      ok_bind]
    rfl

/-- The node that is edited is the first with the id. -/
theorem editContact_found (linked : Heap.Linked heap head (ys ++ (a, con) :: zs))
    (others : ∀ y ∈ ys, y.2.id ≠ con.id) (buffer : Field) (input : Bytes) (enough : ys.length < fuel) :
    editContact fuel heap head buffer con.id input =
      memory (editMembers buffer con input) >>= fun result =>
        heap.setValue (some a) result.1 >>= fun heap => .ok (heap, result.2, "Contact updated. \n") := by
  obtain ⟨last, seg⟩ := linked.segment
  have passed : ∀ y ∈ ys, decide (y.2.id = con.id) = false := fun y member =>
    decide_eq_false (others y member)
  have walked : heap.walk (fun c => c.id = con.id) fuel head = .ok (some a) :=
    seg.walk_to passed (decide_eq_true rfl) enough
  have loaded := Heap.load_ok (linked.cell rfl)
  rw [editContact, walked, ok_bind, if_neg nofun, loaded]
  rfl

theorem paired_members_iff (linked : Heap.Linked heap head (ys ++ (a, con) :: zs))
    (others : ∀ y ∈ ys, y.2.id ≠ con.id) (buffer : Field) (c : UInt8) (answers : Answers) (rest : Bytes) :
    Paired heap head ys a con zs buffer c answers rest ↔
      ∃ con', editMembers buffer con (c :: (typed answers.lines ++ rest)) = .ok (con', rest) ∧
        Written (List.take 19) answers con con' := by
  have edit (fuel : Nat) (enough : ys.length < fuel) :=
    editContact_found linked others buffer (c :: (typed answers.lines ++ rest)) enough
  constructor
  · rintro ⟨con', next, prev, cell, ⟨bound, done⟩, _, written⟩
    have enough : ys.length < max bound (ys.length + 1) :=
      Nat.lt_of_lt_of_le (Nat.lt_succ_self _) (Nat.le_max_right _ _)
    have turn := (edit _ enough).symm.trans (done _ (Nat.le_max_left _ _))
    obtain ⟨⟨con'', rest'⟩, edited, turn⟩ := bind_eq_ok.mp turn
    rw [Heap.setValue_ok cell, ok_bind] at turn
    simp only [Except.ok.injEq, Prod.mk.injEq] at turn
    obtain ⟨stored, rfl, _⟩ := turn
    have node := congrFun stored a
    rw [Heap.store_same, Heap.store_same] at node
    cases node
    exact ⟨_, memory_eq_ok.mp edited, written⟩
  · rintro ⟨con', edited, written⟩
    obtain ⟨next, prev, cell, set, linked'⟩ := linked.setValue con'
    refine ⟨con', next, prev, cell, ⟨ys.length + 1, fun fuel enough => ?_⟩, linked', written⟩
    dsimp only
    rw [edit fuel enough, memory_eq_ok.mpr edited, ok_bind, set, ok_bind]

/-- Each member gets its own line, whatever the list, if and only if no line is longer than 18
characters. -/
theorem paired_iff (linked : Heap.Linked heap head (ys ++ (a, con) :: zs))
    (others : ∀ y ∈ ys, y.2.id ≠ con.id) (buffer : Field) (c : UInt8) (answers : Answers) (rest : Bytes) :
    Paired heap head ys a con zs buffer c answers rest ↔ ∀ line ∈ answers.lines, line.length ≤ 18 :=
  (paired_members_iff linked others buffer c answers rest).trans
    (editMembers_paired_iff buffer con c answers rest)

/-- A list of one contact. -/
theorem one_linked : Heap.Linked (createNode initial.heap 7 (blank 5)) (some 7) [(7, blank 5)] :=
  .of_segment ⟨rfl, none, Heap.store_same .., rfl, rfl⟩ (by simp) fun b absent =>
    Heap.store_other _ (by simpa using absent)

theorem paired_iff_leeAnn :
    Paired (createNode initial.heap 7 (blank 5)) (some 7) [] 7 (blank 5) [] (blank 5).lastname 10
      leeAnn [] :=
  (paired_iff one_linked (by simp) (blank 5).lastname 10 leeAnn []).mpr (by decide)

def longLastname : Answers := ⟨List.replicate 19 65, Bytes.ascii "Ann", [], [], [], by decide⟩

/-- The newline of the last name answers the next prompt: the first name stays, the middle name gets its
answer, and a line stays unread. -/
theorem first_answer_shifted :
    (¬ ∀ (heap : Heap Contact) (head : Ptr) (ys zs : List (Addr × Contact)) (a : Addr) (con : Contact)
      (buffer : Field) (c : UInt8) (answers : Answers) (rest : Bytes),
      Heap.Linked heap head (ys ++ (a, con) :: zs) → (∀ y ∈ ys, y.2.id ≠ con.id) →
        Paired heap head ys a con zs buffer c answers rest) ∧
    ∃ con', editMembers (blank 5).lastname (blank 5) (10 :: (typed longLastname.lines ++ [])) =
        .ok (con', [10]) ∧
      con'.firstname = (blank 5).firstname ∧ con'.middlename.toList.take 4 = Bytes.ascii "Ann" ++ [0] := by
  constructor
  · intro law
    have paired := law _ _ [] [] 7 (blank 5) (blank 5).lastname 10 longLastname [] one_linked (by simp)
    obtain members := (paired_members_iff one_linked (by simp) _ 10 longLastname []).mp paired
    have short := (editMembers_paired_iff (blank 5).lastname (blank 5) 10 longLastname []).mp members
    exact absurd short (by decide)
  · exact ⟨_, rfl, rfl, rfl⟩

end Editing
end Tasks.Contacts.LinkedList
