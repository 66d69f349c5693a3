import Tasks.Contacts.ArrayBook
import Tasks.Contacts.TreeRuns

/-! Module 2, Task 4.3: the whole menu, with the prompts of an addition and of an edit. The prompts of
an edit are those of the array book. -/
namespace Tasks.Contacts.SearchTree

open Kit

/-- What is typed in; link and number are asked for after `Y`. -/
structure Entry where
  id : Int
  lastname : Bytes
  firstname : Bytes
  middlename : Bytes
  input : Char
  link : Bytes
  number : Bytes
  deriving DecidableEq, Repr

/-- The prompts of `addContact`, which store words of any length in the local record. -/
def prompts (newCon : Contact) (entry : Entry) : Except Overrun Contact := do
  let lastname ← Chars.put newCon.lastname entry.lastname
  let firstname ← Chars.put newCon.firstname entry.firstname
  let middlename ← Chars.put newCon.middlename entry.middlename
  if entry.input = 'Y' then
    let link ← Chars.put newCon.soc.link entry.link
    let number ← Chars.put newCon.soc.number entry.number
    return ⟨entry.id, lastname, firstname, middlename, ⟨number, link⟩⟩
  else return ⟨entry.id, lastname, firstname, middlename, newCon.soc⟩

/-- `addContact` with its prompts; `newCon` is what the local record holds when it is declared. -/
def addEntry (root : TreeNode) (newCon : Contact) (entry : Entry) : Except Fault (TreeNode × String) := do
  let newCon ← memory (prompts newCon entry)
  return addContact root newCon entry.input

/-- A store to the node that `search` returns. -/
def store : TreeNode → Int → Contact → TreeNode
  | .nil, _, _ => .nil
  | .node con left right, id, con' =>
    if con.id = id then .node con' left right
    else if id < con.id then .node con (store left id con') right
    else .node con left (store right id con')

/-- The prompts where `search` returned `NULL`: an answer that is not empty is stored through it. -/
def editNull (buffer : Field) (input : Bytes) : Nat → Except Fault Unit
  | 0 => .ok ()
  | n + 1 => do
    let (buffer, input) ← memory (Chars.receive buffer input (Kit.Lines.fgets 20 input))
    if buffer.toList.head? = some 10 then editNull buffer input n
    else .error .nullDereference

def editContact (root : TreeNode) (buffer : Field) (idEdit : Int) (input : Bytes) : Except Fault TreeNode :=
  match (search root idEdit).root? with
  | some con => do
    let (con, _) ← memory (ArrayBook.editMembers buffer con input)
    return store root idEdit con
  | none => do
    editNull buffer (input.drop 1) 5
    return root

def row (con : Contact) : Except Overrun (Int × List Bytes) :=
  con.row [con.lastname, con.firstname, con.middlename, con.soc.link, con.soc.number]

def postOrderTravel : TreeNode → Except Overrun (List (Int × List Bytes))
  | .nil => .ok []
  | .node con left right => do
    let first ← postOrderTravel left
    let second ← postOrderTravel right
    let row ← row con
    return first ++ second ++ [row]

/-- A choice of the menu with what its prompts read. What the prompts of an addition leave in the local
record may be anything, as at the end of the input they read nothing. -/
inductive Choice where
  | addContact (newCon : Contact) (input : Char)
  | editContact (buffer : Field) (idEdit : Int) (input : Bytes)
  | deleteContact (idDelete : Int)
  | listContact

def menu (root : TreeNode) : Choice → Except Fault TreeNode
  | .addContact newCon input => step root (.addContact newCon input)
  | .editContact buffer idEdit input => editContact root buffer idEdit input
  | .deleteContact idDelete => step root (.deleteContact idDelete)
  | .listContact => do
    let _ ← memory (postOrderTravel root)
    return root

section Reached

variable {root next : TreeNode} {con con' : Contact} {id : Int}

theorem search_id (found : (search root id).root? = some con) : con.id = id := by
  induction root with
  | nil => contradiction
  | node c left right ihl ihr =>
    simp only [search] at found
    split at found
    next same =>
      cases found
      exact same
    next =>
      split at found
      · exact ihl found
      · exact ihr found

def Stored (id : Int) (con' con stored : Contact) : Prop := stored = con ∨ con.id = id ∧ stored = con'

theorem store_rel (root : TreeNode) (id : Int) (con' : Contact) :
    BinTree.Rel (Stored id con') root (store root id con') := by
  have refl (root : TreeNode) : BinTree.Rel (Stored id con') root root := .refl (fun _ => .inl rfl) root
  induction root with
  | nil => exact .nil
  | node con left right ihl ihr =>
    rw [store]
    split
    next here => exact .node (.inr ⟨here, rfl⟩) (refl left) (refl right)
    next =>
      split
      · exact .node (.inl rfl) ihl (refl right)
      · exact .node (.inl rfl) (refl left) ihr

theorem store_ids (root : TreeNode) (same : con'.id = id) :
    (store root id con').values.map Contact.id = root.values.map Contact.id := by
  apply (store_rel root id con').map_values
  rintro con stored (rfl | ⟨here, rfl⟩)
  · rfl
  · exact same.trans here.symm

theorem step_ordered (ordered : Ordered root) (s : Step) (done : step root s = .ok next) : Ordered next := by
  obtain ⟨_, again, rep⟩ := step_represents root (held root) s ⟨ordered, fun _ => rfl⟩
  rw [Except.ok.inj (done.symm.trans again)]
  exact rep.ordered

theorem editContact_ordered (ordered : Ordered root) (done : editContact root buffer id input = .ok next) :
    Ordered next := by
  unfold editContact at done
  split at done
  next con found =>
    obtain ⟨⟨con', rest⟩, edited, done⟩ := bind_eq_ok.mp done
    cases done
    have same : con'.id = id := by
      rw [ArrayBook.editMembers_id (memory_eq_ok.mp edited), search_id found]
    apply BinTree.ordered_iff_sorted.mpr
    rw [store_ids root same]
    exact BinTree.ordered_iff_sorted.mp ordered
  next =>
    obtain ⟨_, _, done⟩ := bind_eq_ok.mp done
    cases done
    exact ordered

theorem menu_ordered (root : TreeNode) (choice : Choice) (next : TreeNode) (ordered : Ordered root)
    (done : menu root choice = .ok next) : Ordered next := by
  cases choice with
  | addContact newCon input => exact step_ordered ordered (.addContact newCon input) done
  | editContact buffer idEdit input => exact editContact_ordered ordered done
  | deleteContact idDelete => exact step_ordered ordered (.deleteContact idDelete) done
  | listContact =>
    obtain ⟨_, _, done⟩ := bind_eq_ok.mp done
    cases done
    exact ordered

theorem reached_ordered (choices : List Choice) (reached : run menu .nil choices = .ok root) : Ordered root := by
  have empty : Ordered .nil := trivial
  exact run_invariant Ordered menu_ordered empty choices reached

end Reached

section Visible

variable {root next : TreeNode} {newCon con : Contact} {entry : Entry}

def Entry.linkText (entry : Entry) : Bytes := if entry.input = 'Y' then entry.link else []

def Entry.numberText (entry : Entry) : Bytes := if entry.input = 'Y' then entry.number else []

structure Entry.Fits (entry : Entry) : Prop where
  lastname : entry.lastname.length < 20
  firstname : entry.firstname.length < 20
  middlename : entry.middlename.length < 20
  link : entry.linkText.length < 20
  number : entry.numberText.length < 20

structure Shows (con : Contact) (entry : Entry) : Prop where
  id : con.id = entry.id
  lastname : Chars.Stores con.lastname entry.lastname
  firstname : Chars.Stores con.firstname entry.firstname
  middlename : Chars.Stores con.middlename entry.middlename
  link : Chars.Stores con.soc.link entry.linkText
  number : Chars.Stores con.soc.number entry.numberText

def Reported (report : String) : Prop := ∃ before after, report = before ++ "User added" ++ after

/-- An addition comes back, and what it reports is so. -/
def Visible (root : TreeNode) (newCon : Contact) (entry : Entry) : Prop :=
  ∃ next report, addEntry root newCon entry = .ok (next, report) ∧
    (Reported report →
      (∃ con left right, search next entry.id = .node con left right ∧ Shows con entry) ∧
      ∀ id, id ≠ entry.id → (search next id).root? = (search root id).root?)

theorem addContact_reported (root : TreeNode) (newCon : Contact) (input : Char) :
    Reported (addContact root newCon input).2 := by
  have tail : "\n\nUser added\n" = "\n\n" ++ ("User added" ++ "\n") := by decide
  refine ⟨s!"Your id: {newCon.id}\n\n", "\n", ?_⟩
  simp only [addContact, String.append_assoc]
  exact congrArg ("Your id: " ++ ·) (congrArg (_ ++ ·) tail)

theorem cut_stores (field : Field) : Chars.Stores field.cut [] := by
  refine ⟨field.toList.drop 1, ?_⟩
  rw [Field.cut, Vector.toList_set, List.set_eq_take_append_cons_drop, if_pos (by simp)]
  rfl

/-- The record that goes into the tree holds what was entered. -/
theorem prompts_shows (done : prompts newCon entry = .ok con) : Shows (entered con entry.input) entry := by
  simp only [prompts, bind_eq_ok] at done
  obtain ⟨_, lastname, _, firstname, _, middlename, done⟩ := done
  split at done
  next yes =>
    simp only [bind_eq_ok] at done
    obtain ⟨_, link, _, number, done⟩ := done
    cases done
    simp only [entered, yes, if_true]
    refine ⟨rfl, Chars.stores_of_put lastname, Chars.stores_of_put firstname,
      Chars.stores_of_put middlename, ?_, ?_⟩
    · simpa only [Entry.linkText, yes, if_true] using Chars.stores_of_put link
    · simpa only [Entry.numberText, yes, if_true] using Chars.stores_of_put number
  next no =>
    cases done
    simp only [entered, no, if_false]
    refine ⟨rfl, Chars.stores_of_put lastname, Chars.stores_of_put firstname,
      Chars.stores_of_put middlename, ?_, ?_⟩
    · simpa only [Entry.linkText, no, if_false] using cut_stores newCon.soc.link
    · simpa only [Entry.numberText, no, if_false] using cut_stores newCon.soc.number

theorem Shows.fits (shows : Shows con entry) : entry.Fits :=
  ⟨shows.lastname.length, shows.firstname.length, shows.middlename.length, shows.link.length,
    shows.number.length⟩

theorem prompts_fits (newCon : Contact) (fits : entry.Fits) : ∃ con, prompts newCon entry = .ok con := by
  obtain ⟨_, lastname, _⟩ := Chars.put_stores newCon.lastname entry.lastname fits.lastname
  obtain ⟨_, firstname, _⟩ := Chars.put_stores newCon.firstname entry.firstname fits.firstname
  obtain ⟨_, middlename, _⟩ := Chars.put_stores newCon.middlename entry.middlename fits.middlename
  simp only [prompts, lastname, firstname, middlename, ok_bind]
  split
  next yes =>
    have linkShort := fits.link
    have numberShort := fits.number
    simp only [Entry.linkText, Entry.numberText, yes, if_true] at linkShort numberShort
    obtain ⟨_, link, _⟩ := Chars.put_stores newCon.soc.link entry.link linkShort
    obtain ⟨_, number, _⟩ := Chars.put_stores newCon.soc.number entry.number numberShort
    simp only [link, number, ok_bind]
    exact ⟨_, rfl⟩
  next => exact ⟨_, rfl⟩

/-- What an addition makes of what is found under each id. -/
theorem search_inserted (ordered : Ordered root) (newCon : Contact) (id : Int) :
    (search (insertNode root newCon) id).root? =
      if id = newCon.id then (search root id).root?.or (some newCon) else (search root id).root? := by
  rw [search_held (insertNode_ordered ordered newCon), insertNode_held ordered, search_held ordered]

theorem root?_eq_some {tree : BinTree α} {a : α} :
    tree.root? = some a ↔ ∃ left right, tree = .node a left right := by
  cases tree with
  | nil => exact ⟨nofun, fun ⟨_, _, same⟩ => nomatch same⟩
  | node value left right =>
    constructor
    · intro same
      cases same
      exact ⟨left, right, rfl⟩
    · rintro ⟨_, _, same⟩
      cases same
      rfl

theorem visible_prompted (ordered : Ordered root) (done : prompts newCon entry = .ok con) :
    Visible root newCon entry ↔ ∀ there, (search root entry.id).root? = some there → Shows there entry := by
  have shows := prompts_shows done
  have added : addEntry root newCon entry = .ok (addContact root con entry.input) := by
    rw [addEntry, memory_eq_ok.mpr done]
    rfl
  have found := search_inserted ordered (entered con entry.input)
  rw [shows.id, ← addContact_eq] at found
  constructor
  · rintro ⟨next, report, same, reports⟩ there before
    have pair : addContact root con entry.input = (next, report) := Except.ok.inj (added.symm.trans same)
    have reported := addContact_reported root con entry.input
    rw [pair] at reported
    obtain ⟨⟨here, left, right, node, holds⟩, _⟩ := reports reported
    have kept := found entry.id
    rw [if_pos rfl, before, Option.some_or, pair, node] at kept
    cases kept
    exact holds
  · intro already
    refine ⟨(addContact root con entry.input).1, (addContact root con entry.input).2, added, fun _ =>
      ⟨?_, fun id other => (found id).trans (if_neg other)⟩⟩
    have kept := found entry.id
    rw [if_pos rfl] at kept
    cases before : (search root entry.id).root? with
    | none =>
      rw [before, Option.none_or] at kept
      obtain ⟨left, right, node⟩ := root?_eq_some.mp kept
      exact ⟨_, left, right, node, shows⟩
    | some there =>
      rw [before, Option.some_or] at kept
      obtain ⟨left, right, node⟩ := root?_eq_some.mp kept
      exact ⟨there, left, right, node, already there before⟩

/-- In any tree that the menu leaves, an addition that is reported is found, with the contacts of the other
ids left, if and only if the texts fit and the id is new or belongs to a contact with the same texts: an id
that is taken is dropped, and the report is the same. -/
theorem added_visible_iff (choices : List Choice) (root : TreeNode) (newCon : Contact) (entry : Entry)
    (reached : run menu .nil choices = .ok root) :
    Visible root newCon entry ↔
      entry.Fits ∧ ∀ there, (search root entry.id).root? = some there → Shows there entry := by
  have ordered := reached_ordered choices reached
  constructor
  · intro visible
    obtain ⟨_, _, done, _⟩ := id visible
    obtain ⟨con, filled, _⟩ := bind_eq_ok.mp done
    have prompted := memory_eq_ok.mp filled
    exact ⟨(prompts_shows prompted).fits, (visible_prompted ordered prompted).mp visible⟩
  · rintro ⟨fits, already⟩
    obtain ⟨con, prompted⟩ := prompts_fits newCon fits
    exact (visible_prompted ordered prompted).mpr already

def named (id : Int) (lastname : String) : Entry :=
  ⟨id, Bytes.ascii lastname, Bytes.ascii "Ann", Bytes.ascii "M", 'N', [], []⟩

/-- Four contacts added, and the one above the others taken out. -/
def several : List Choice :=
  [2, 1, 4, 3].map (fun id => .addContact { ArrayBook.blank with id } 'N') ++ [.deleteContact 2]

theorem added_visible_several :
    ∃ root, run menu .nil several = .ok root ∧
      (Visible root ArrayBook.blank (named 2 "Smith") ↔ (named 2 "Smith").Fits ∧
        ∀ there, (search root 2).root? = some there → Shows there (named 2 "Smith")) :=
  have reached : run menu .nil several = .ok _ := rfl
  ⟨_, reached, added_visible_iff several _ ArrayBook.blank (named 2 "Smith") reached⟩

theorem named_fits (id : Int) (lastname : String) (short : (Bytes.ascii lastname).length < 20) :
    (named id lastname).Fits := by
  have firstname : (Bytes.ascii "Ann").length < 20 := by decide
  have middlename : (Bytes.ascii "M").length < 20 := by decide
  exact ⟨short, firstname, middlename, Nat.zero_lt_succ 19, Nat.zero_lt_succ 19⟩

/-- The second of two contacts with the id 1 is reported, and the tree has the first. -/
theorem taken_id_reported : ¬ ∀ (choices : List Choice) (root : TreeNode) (newCon : Contact) (entry : Entry),
    run menu .nil choices = .ok root → Visible root newCon entry := by
  intro visible
  obtain ⟨con, prompted⟩ := prompts_fits ArrayBook.blank (named_fits 1 "Smith" (by decide))
  obtain ⟨_, prompted'⟩ := prompts_fits ArrayBook.blank (named_fits 1 "Jones" (by decide))
  have smith := prompts_shows prompted
  have ordered : Ordered (.node (entered con 'N') .nil .nil) := by simp [Ordered, BinTree.Ordered]
  have there : (search (.node (entered con 'N') .nil .nil) 1).root? = some (entered con 'N') := by
    have same : (entered con 'N').id = 1 := smith.id
    rw [search, if_pos same]
    rfl
  have second := visible [.addContact con 'N'] (.node (entered con 'N') .nil .nil) ArrayBook.blank
    (named 1 "Jones") rfl
  have jones := (visible_prompted ordered prompted').mp second _ there
  obtain ⟨_, one⟩ := smith.lastname
  obtain ⟨_, two⟩ := jones.lastname
  have heads : some (83 : UInt8) = some 74 := congrArg List.head? (one.symm.trans two)
  exact absurd heads (by decide)

end Visible
end Tasks.Contacts.SearchTree
