import Tasks.Contacts.ListEdit
import Mathlib.Data.Fintype.EquivFin

/-! Tasks 4.1, 6.1 and 6.2: sessions of the menu on the linked list, against a plain list of contacts. -/
namespace Tasks.Contacts.LinkedList

open Kit

/-- The members of the local record; `'y'` does as well as `'Y'`. -/
def addMembers (newCon : Contact) (contactCount : Nat) (entry : ArrayBook.Entry) : Except Overrun Contact :=
  ArrayBook.addMembers newCon contactCount
    { entry with input := if entry.input = 121 then 89 else entry.input }

def row (con : Contact) : Except Overrun (Int × List Bytes) :=
  con.row [con.firstname, con.lastname, con.middlename, con.soc.number, con.soc.link]

def printNode (heap : Heap Contact) : Nat → Ptr → Except Fault (List (Int × List Bytes))
  | 0, _ => .error .outOfFuel
  | _, none => .ok []
  | fuel + 1, some a => do
    let current ← heap.load (some a)
    let row ← memory (row current.value)
    let rows ← printNode heap fuel current.next
    return row :: rows

inductive Printed where
  | yourId (id : Nat)
  | report (text : String)
  | nodes (rows : List (Int × List Bytes))
  deriving DecidableEq, Repr

/-- A choice of the menu with what its prompts read, and what the local arrays hold when they are declared. -/
inductive Choice where
  | addContact (newCon : Contact) (entry : ArrayBook.Entry)
  | editContact (buffer : Field) (idEdit : Int) (input : Bytes)
  | removeNode (id : Int)
  | printNode

structure Menu where
  heap : Heap Contact
  head : Ptr
  contactCount : Nat
  printed : List Printed

def Menu.start : Menu := ⟨fun _ => none, none, 0, []⟩

/-- `contactCount++` -/
def increment (contactCount : Nat) : Except Fault Nat :=
  if contactCount + 1 < 2 ^ 31 then .ok (contactCount + 1) else .error .overflow

/-- `malloc` has the number of the call and the heap to choose by. -/
def menu (malloc : Nat → Heap Contact → Addr) (fuel : Nat) (s : Menu) : Choice → Except Fault Menu
  | .addContact newCon entry => do
    let newCon ← memory (addMembers newCon s.contactCount entry)
    let contactCount ← increment s.contactCount
    let (heap, head) ← insert fuel s.heap s.head (malloc s.contactCount s.heap) newCon
    return ⟨heap, head, contactCount, s.printed ++ [.yourId s.contactCount]⟩
  | .editContact buffer idEdit input => do
    let (heap, _, report) ← editContact fuel s.heap s.head buffer idEdit input
    return { s with heap, printed := s.printed ++ [.report report] }
  | .removeNode id => do
    let (heap, head, report) ← removeNode fuel s.heap s.head id
    return { s with heap, head, printed := s.printed ++ [.report report] }
  | .printNode => do
    let rows ← printNode s.heap fuel s.head
    return { s with printed := s.printed ++ [.nodes rows] }

def Fresh (malloc : Nat → Heap Contact → Addr) : Prop :=
  ∀ (n : Nat) (heap : Heap Contact), (∃ a, heap a = none) → heap (malloc n heap) = none

structure Book where
  cons : List Contact
  contactCount : Nat
  printed : List Printed

def Book.start : Book := ⟨[], 0, []⟩

/-- Contacts are added at the end, with the next number as their id. -/
def Book.choose (b : Book) : Choice → Except Fault Book
  | .addContact newCon entry => do
    let con ← memory (addMembers newCon b.contactCount entry)
    let contactCount ← increment b.contactCount
    return ⟨b.cons ++ [con], contactCount, b.printed ++ [.yourId b.contactCount]⟩
  | .editContact buffer idEdit input =>
    match b.cons.find? (·.id = idEdit) with
    | none => .ok { b with printed := b.printed ++ [.report "Contact not found!\n"] }
    | some con => do
      let (con', _) ← memory (editMembers buffer con input)
      return { b with
        cons := b.cons.map fun con => if con.id = idEdit then con' else con
        printed := b.printed ++ [.report "Contact updated. \n"] }
  | .removeNode id =>
    if id ∈ b.cons.map Contact.id then
      .ok { b with
        cons := b.cons.filter (·.id ≠ id)
        printed := b.printed ++ [.report "Contact deleted.\n"] }
    else .ok { b with printed := b.printed ++ [.report "Contact not found!\n"] }
  | .printNode => do
    let rows ← memory (b.cons.mapM row)
    return { b with printed := b.printed ++ [.nodes rows] }

structure Book.Numbered (b : Book) : Prop where
  ordered : (b.cons.map Contact.id).Pairwise (· < ·)
  below : ∀ con ∈ b.cons, con.id < b.contactCount
  few : b.cons.length ≤ b.contactCount

/-- The heap is one list of these contacts, linked both ways, and nothing else. -/
structure Represents (s : Menu) (b : Book) : Prop where
  linked : ∃ chain, Heap.Linked s.heap s.head chain ∧ chain.map Prod.snd = b.cons
  contactCount : s.contactCount = b.contactCount
  printed : s.printed = b.printed

section Numbers

variable {b next : Book} {con con' : Contact}

theorem increment_ok (done : increment contactCount = .ok n) : n = contactCount + 1 := by
  unfold increment at done
  split at done
  · exact (Except.ok.inj done).symm
  · contradiction

theorem addMembers_id (done : addMembers newCon contactCount entry = .ok con) : con.id = contactCount :=
  ArrayBook.addMembers_id done

theorem choose_numbered (numbered : b.Numbered) (done : b.choose choice = .ok next) : next.Numbered := by
  obtain ⟨ordered, below, few⟩ := numbered
  cases choice with
  | addContact newCon entry =>
    obtain ⟨con, added, done⟩ := bind_eq_ok.mp done
    obtain ⟨count, counted, done⟩ := bind_eq_ok.mp done
    cases done
    obtain rfl := increment_ok counted
    have id : con.id = b.contactCount := addMembers_id (memory_eq_ok.mp added)
    refine ⟨?_, fun other member => ?_, ?_⟩
    · rw [List.map_append, List.pairwise_append]
      refine ⟨ordered, List.pairwise_singleton _ _, fun i member j last => ?_⟩
      obtain ⟨other, inside, rfl⟩ := List.mem_map.mp member
      rw [List.map_singleton, List.mem_singleton] at last
      rw [last, id]
      exact below other inside
    · rcases List.mem_append.mp member with earlier | last
      · exact Int.lt_trans (below other earlier) (Int.lt_succ _)
      · rw [List.mem_singleton.mp last, id]
        exact Int.lt_succ _
    · rw [List.length_append]
      exact Nat.succ_le_succ few
  | editContact buffer idEdit input =>
    simp only [Book.choose] at done
    split at done
    next => 
      cases done
      exact ⟨ordered, below, few⟩
    next con found =>
      obtain ⟨⟨con', rest⟩, edited, done⟩ := bind_eq_ok.mp done
      cases done
      have here : con.id = idEdit := by simpa using List.find?_some found
      have id : con'.id = idEdit := (editMembers_id (memory_eq_ok.mp edited)).trans here
      have ids (other : Contact) : (if other.id = idEdit then con' else other).id = other.id := by
        split
        next same => exact id.trans same.symm
        next => rfl
      refine ⟨?_, fun other member => ?_, ?_⟩
      · rw [List.map_map, show Contact.id ∘ _ = Contact.id from funext ids]
        exact ordered
      · obtain ⟨before, inside, rfl⟩ := List.mem_map.mp member
        rw [ids]
        exact below before inside
      · rw [List.length_map]
        exact few
  | removeNode id =>
    simp only [Book.choose] at done
    split at done
    next =>
      cases done
      have kept := List.filter_sublist (p := fun con : Contact => decide (con.id ≠ id)) (l := b.cons)
      exact ⟨ordered.sublist (kept.map _), fun con member => below con (List.mem_of_mem_filter member),
        (List.length_filter_le _ _).trans few⟩
    next =>
      cases done
      exact ⟨ordered, below, few⟩
  | printNode =>
    obtain ⟨rows, _, done⟩ := bind_eq_ok.mp done
    cases done
    exact ⟨ordered, below, few⟩

end Numbers

section Agreement

variable {s : Menu} {b : Book} {malloc : Nat → Heap Contact → Addr} {chain : List (Addr × Contact)}

/-- A list never takes all addresses. -/
theorem exists_free (linked : Heap.Linked heap head chain) : ∃ a, heap a = none := by
  obtain ⟨a, absent⟩ := Infinite.exists_notMem_finset (chain.map Prod.fst).toFinset
  exact ⟨a, linked.dead (by simpa using absent)⟩

theorem printNode_rows {xs : List (Addr × Contact)} (seg : Heap.Segment heap before first xs last none)
    (enough : xs.length < fuel) :
    printNode heap fuel first = memory ((xs.map Prod.snd).mapM row) := by
  induction xs generalizing before first fuel with
  | nil =>
    obtain ⟨rfl, _⟩ := seg
    obtain ⟨fuel, rfl⟩ := Nat.exists_eq_succ_of_ne_zero (Nat.ne_of_gt enough)
    rfl
  | cons x xs ih =>
    obtain ⟨rfl, next, cell, rest⟩ := seg
    obtain ⟨fuel, rfl⟩ := Nat.exists_eq_succ_of_ne_zero (Nat.ne_of_gt (Nat.zero_lt_of_lt enough))
    rw [printNode, Heap.load_ok cell, ok_bind, List.map_cons, List.mapM_cons,
      ih rest (Nat.lt_of_succ_lt_succ enough)]
    cases row x.2 with
    | error e => rfl
    | ok texts =>
      cases (xs.map Prod.snd).mapM row with
      | error e => rfl
      | ok rows => rfl

/-- A contact whose id is above all others goes to the end. -/
theorem insert_last (linked : Heap.Linked heap head chain) (fresh : heap newNode = none)
    (above : ∀ x ∈ chain, x.2.id < con.id) (enough : chain.length < fuel) :
    ∃ heap' head', insert fuel heap head newNode con = .ok (heap', head') ∧
      Heap.Linked heap' head' (chain ++ [(newNode, con)]) := by
  obtain ⟨heap', head', ys, zs, done, rfl, _, larger, linked'⟩ := insert_spec linked fresh con
  cases zs with
  | nil =>
    rw [List.append_nil] at *
    exact ⟨heap', head', done fuel enough, linked'⟩
  | cons z zs =>
    have low := above z (List.mem_append_right ys List.mem_cons_self)
    exact absurd (larger z rfl) (Int.not_le_of_gt low)

theorem removeNode_filter (linked : Heap.Linked heap head chain)
    (apart : (chain.map fun x => x.2.id).Nodup) (id : Int) (enough : chain.length < fuel) :
    (id ∉ chain.map (fun x => x.2.id) ∧
      removeNode fuel heap head id = .ok (heap, head, "Contact not found!\n")) ∨
    id ∈ chain.map (fun x => x.2.id) ∧
      ∃ heap' head', removeNode fuel heap head id = .ok (heap', head', "Contact deleted.\n") ∧
        Heap.Linked heap' head' (chain.filter fun x => x.2.id ≠ id) := by
  rcases removeNode_spec linked id with
    ⟨absent, done⟩ | ⟨heap', head', ys, node, zs, done, rfl, rfl, others, linked'⟩
  · refine .inl ⟨?_, done fuel enough⟩
    simpa using absent
  · refine .inr ⟨by simp, heap', head', done fuel enough, ?_⟩
    rw [List.map_append, List.map_cons, List.nodup_middle, List.nodup_cons, List.mem_append, not_or] at apart
    have front : ys.filter (fun x => decide (x.2.id ≠ node.2.id)) = ys :=
      List.filter_eq_self.mpr fun y member => by simpa using others y member
    have back : zs.filter (fun x => decide (x.2.id ≠ node.2.id)) = zs :=
      List.filter_eq_self.mpr fun z member => by
        simpa using fun same : z.2.id = node.2.id => apart.1.2 (List.mem_map.mpr ⟨z, member, same⟩)
    rw [List.filter_append, List.filter_cons_of_neg (by simp), front, back]
    exact linked'

theorem editContact_map (linked : Heap.Linked heap head chain) (apart : (chain.map fun x => x.2.id).Nodup)
    (buffer : Field) (idEdit : Int) (input : Bytes) (enough : chain.length < fuel) :
    ((chain.map Prod.snd).find? (·.id = idEdit) = none ∧
      editContact fuel heap head buffer idEdit input = .ok (heap, input, "Contact not found!\n")) ∨
    ∃ con, (chain.map Prod.snd).find? (·.id = idEdit) = some con ∧
      Agrees (fun result edited => result.2.2 = "Contact updated. \n" ∧ Heap.Linked result.1 head
          (chain.map fun x => if x.2.id = idEdit then (x.1, edited.1) else x))
        (editContact fuel heap head buffer idEdit input)
        (memory (editMembers buffer con input)) := by
  obtain ⟨last, seg⟩ := linked.segment
  obtain ⟨ys, zs, middle, seam, rfl, walked, left, right, passed, stopped⟩ := seg.walk (fun c => c.id = idEdit)
  have front : (ys.map Prod.snd).find? (fun con => decide (con.id = idEdit)) = none := by
    rw [List.find?_eq_none]
    intro con member
    obtain ⟨y, inside, rfl⟩ := List.mem_map.mp member
    simpa using passed y inside
  cases zs with
  | nil =>
    refine .inl ⟨by rwa [List.append_nil], ?_⟩
    rw [editContact, walked fuel enough, ok_bind, if_pos right.1]
    rfl
  | cons z zs =>
    obtain ⟨a, con⟩ := z
    obtain rfl : con.id = idEdit := of_decide_eq_true (stopped (a, con) rfl)
    have others : ∀ y ∈ ys, y.2.id ≠ con.id := fun y member => of_decide_eq_false (passed y member)
    rw [List.map_append, List.map_cons, List.nodup_middle, List.nodup_cons, List.mem_append, not_or] at apart
    have later : ∀ z ∈ zs, z.2.id ≠ con.id := fun z member same =>
      apart.1.2 (List.mem_map.mpr ⟨z, member, same⟩)
    have short : ys.length < fuel := by
      rw [List.length_append] at enough
      omega
    refine .inr ⟨con, ?_, ?_⟩
    · rw [List.map_append, List.find?_append, front, List.map_cons, List.find?_cons_of_pos (by simp)]
      rfl
    rw [editContact_found linked others buffer input short]
    cases memory (editMembers buffer con input) with
    | error e => exact .error e
    | ok result =>
      obtain ⟨next, prev, cell, set, linked'⟩ := linked.setValue result.1
      rw [ok_bind, set, ok_bind]
      refine .ok ⟨rfl, ?_⟩
      have same (xs : List (Addr × Contact)) (other : ∀ x ∈ xs, x.2.id ≠ con.id) :
          xs.map (fun x => if x.2.id = con.id then (x.1, result.1) else x) = xs :=
        (List.map_congr_left fun x member => if_neg (other x member)).trans (List.map_id xs)
      rw [List.map_append, List.map_cons, same ys others, same zs later, if_pos rfl]
      exact linked'

/-- Every choice does to the heap what it does to the plain list, error for error. -/
theorem menu_agrees (fresh : Fresh malloc) (represents : Represents s b) (numbered : b.Numbered)
    (choice : Choice) (enough : b.contactCount < fuel) :
    Agrees Represents (menu malloc fuel s choice) (b.choose choice) := by
  obtain ⟨heap, head, contactCount, printed⟩ := s
  obtain ⟨cons, count, out⟩ := b
  obtain ⟨⟨chain, linked, rfl⟩, rfl, rfl⟩ := represents
  obtain ⟨ordered, below, few⟩ := numbered
  rw [List.length_map] at few
  have short : chain.length < fuel := Nat.lt_of_le_of_lt few enough
  have ids : (chain.map Prod.snd).map Contact.id = chain.map fun x => x.2.id := List.map_map
  have apart : (chain.map fun x => x.2.id).Nodup := ids ▸ ordered.imp Int.ne_of_lt
  cases choice with
  | addContact newCon entry =>
    cases added : memory (addMembers newCon contactCount entry) with
    | error e =>
      simp only [menu, Book.choose, added, error_bind]
      exact .error e
    | ok con =>
      have above : ∀ x ∈ chain, x.2.id < con.id := fun x member => by
        rw [addMembers_id (memory_eq_ok.mp added)]
        exact below x.2 (List.mem_map_of_mem member)
      obtain ⟨heap', head', done, linked'⟩ :=
        insert_last linked (fresh contactCount heap (exists_free linked)) above short
      simp only [menu, Book.choose, added, ok_bind, done]
      cases increment contactCount with
      | error e => exact .error e
      | ok count => exact .ok ⟨⟨_, linked', by simp⟩, rfl, rfl⟩
  | editContact buffer idEdit input =>
    rcases editContact_map linked apart buffer idEdit input short with ⟨none, done⟩ | ⟨con, found, edited⟩
    · simp only [menu, Book.choose, none, done, ok_bind]
      exact .ok ⟨⟨chain, linked, rfl⟩, rfl, rfl⟩
    · simp only [menu, Book.choose, found]
      refine edited.bind fun result con' ⟨report, linked'⟩ => ?_
      rw [report]
      refine .ok ⟨⟨_, linked', ?_⟩, rfl, rfl⟩
      rw [List.map_map, List.map_map]
      refine List.map_congr_left fun x member => ?_
      simp only [Function.comp]
      split <;> rfl
  | removeNode id =>
    rcases removeNode_filter linked apart id short with ⟨absent, done⟩ | ⟨present, heap', head', done, linked'⟩
    · rw [← ids] at absent
      simp only [menu, Book.choose, if_neg absent, done, ok_bind]
      exact .ok ⟨⟨chain, linked, rfl⟩, rfl, rfl⟩
    · rw [← ids] at present
      simp only [menu, Book.choose, if_pos present, done, ok_bind]
      refine .ok ⟨⟨_, linked', ?_⟩, rfl, rfl⟩
      rw [List.filter_map]
      rfl
  | printNode =>
    obtain ⟨last, seg⟩ := linked.segment
    simp only [menu, Book.choose, printNode_rows seg short]
    refine (Agrees.refl _).bind fun rows rows' same => ?_
    rw [same]
    exact .ok ⟨⟨chain, linked, rfl⟩, rfl, rfl⟩

theorem start_represents : Represents .start .start :=
  ⟨⟨[], initial_sorted.linked, rfl⟩, rfl, rfl⟩

theorem choose_count (done : b.choose choice = .ok next) : next.contactCount ≤ b.contactCount + 1 := by
  cases choice with
  | addContact newCon entry =>
    obtain ⟨con, _, done⟩ := bind_eq_ok.mp done
    obtain ⟨count, counted, done⟩ := bind_eq_ok.mp done
    cases done
    exact Nat.le_of_eq (increment_ok counted)
  | editContact buffer idEdit input =>
    simp only [Book.choose] at done
    split at done
    next =>
      cases done
      exact Nat.le_succ _
    next =>
      obtain ⟨_, _, done⟩ := bind_eq_ok.mp done
      cases done
      exact Nat.le_succ _
  | removeNode id =>
    simp only [Book.choose] at done
    split at done
    all_goals
      cases done
      exact Nat.le_succ _
  | printNode =>
    obtain ⟨_, _, done⟩ := bind_eq_ok.mp done
    cases done
    exact Nat.le_succ _

/-- Whole sessions, whatever addresses `malloc` gives: what is printed, the list that the heap holds, and
whether a text is too long for its member or the ids for an `int` are those of a plain list of contacts, in
which the ids of the additions count up from 0 and no two contacts have one id. -/
theorem session_agrees (fresh : Fresh malloc) (choices : List Choice) (enough : choices.length < fuel) :
    Agrees (fun s b => Represents s b ∧ b.Numbered) (run (menu malloc fuel) .start choices)
      (run Book.choose .start choices) := by
  let related (n : Nat) (s : Menu) (b : Book) : Prop :=
    (Represents s b ∧ b.Numbered) ∧ b.contactCount + n < fuel
  have simulate (n : Nat) (s : Menu) (b : Book) (choice : Choice) (here : related (n + 1) s b) :
      Agrees (related n) (menu malloc fuel s choice) (b.choose choice) := by
    obtain ⟨⟨represents, numbered⟩, budget⟩ := here
    refine (menu_agrees fresh represents numbered choice (by omega)).imp fun s' b' done represents' => ?_
    have count := choose_count done
    exact ⟨⟨represents', choose_numbered numbered done⟩, by omega⟩
  have start : related choices.length .start .start :=
    ⟨⟨start_represents, List.Pairwise.nil, by simp [Book.start], Nat.le_refl 0⟩, by simpa [Book.start]⟩
  exact (run_agrees related simulate choices .start .start start).imp fun s b _ here => here.1

end Agreement

/-- The id of a contact that was removed is not given again. -/
theorem session_agrees_removed :
    ∃ s, run (menu (fun _ heap => Classical.epsilon fun a => heap a = none) 6) .start
        [.addContact (blank 0) ⟨none, none, none, 78, none, none⟩, .removeNode 0,
          .addContact (blank 0) ⟨none, none, none, 121, none, none⟩, .removeNode 0] = .ok s ∧
      s.printed = [.yourId 0, .report "Contact deleted.\n", .yourId 1, .report "Contact not found!\n"] := by
  have fresh : Fresh fun _ heap => Classical.epsilon fun a => heap a = none := fun _ _ free =>
    Classical.epsilon_spec free
  have agrees := session_agrees fresh
    [.addContact (blank 0) ⟨none, none, none, 78, none, none⟩, .removeNode 0,
      .addContact (blank 0) ⟨none, none, none, 121, none, none⟩, .removeNode 0] (show 4 < 6 by decide)
  revert agrees
  generalize run _ Menu.start _ = result
  rintro (⟨represents, _⟩ | _)
  exact ⟨_, rfl, represents.printed⟩

end Tasks.Contacts.LinkedList
