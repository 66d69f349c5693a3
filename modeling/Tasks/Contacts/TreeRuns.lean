import Tasks.Contacts.Tree
import Mathlib.Data.List.Induction

/-! Every history of the tree contact book, against a partial map from ids to contacts. -/
namespace Tasks.Contacts.SearchTree

open Kit

inductive Step where
  | addContact (newCon : Contact) (input : Char)
  | deleteContact (idDelete : Int)

def Step.id : Step → Int
  | .addContact newCon _ => newCon.id
  | .deleteContact idDelete => idDelete

def step (root : TreeNode) : Step → Except Fault TreeNode
  | .addContact newCon input => .ok (addContact root newCon input).1
  | .deleteContact idDelete => do
    return (← deleteContact root idDelete).1

/-- What the tree is for: a partial map from ids to contacts. -/
abbrev Book := Int → Option Contact

def entered (newCon : Contact) (input : Char) : Contact :=
  if input = 'Y' then newCon
  else { newCon with soc := ⟨Field.cut newCon.soc.number, Field.cut newCon.soc.link⟩ }

/-- An id that is taken keeps its contact. -/
def Book.apply (book : Book) : Step → Book
  | .addContact newCon input =>
    Function.update book newCon.id ((book newCon.id).or (some (entered newCon input)))
  | .deleteContact idDelete => Function.update book idDelete none

/-- The id was added and not deleted since. -/
def Added (steps : List Step) (id : Int) : Prop :=
  ∃ before newCon input after, steps = before ++ .addContact newCon input :: after ∧
    newCon.id = id ∧ .deleteContact id ∉ after

structure Represents (root : TreeNode) (book : Book) : Prop where
  ordered : Ordered root
  contents : ∀ id, held root id = book id

theorem addContact_eq (root : TreeNode) (newCon : Contact) (input : Char) :
    (addContact root newCon input).1 = insertNode root (entered newCon input) := by
  by_cases yes : input = 'Y' <;> simp [addContact, entered, yes]

@[simp] theorem entered_id (newCon : Contact) (input : Char) :
    (entered newCon input).id = newCon.id := by
  unfold entered
  split <;> rfl

/-- The search guard turns `delete` into the deletion of exactly one id. -/
theorem deleteContact_spec (ordered : Ordered root) (idDelete : Int) :
    ∃ rest report, deleteContact root idDelete = .ok (rest, report) ∧
      rest.values = root.values.filter (fun c => c.id ≠ idDelete) := by
  by_cases guard : search root idDelete = .nil
  · refine ⟨root, _, by rw [deleteContact, if_neg (not_not.mpr guard)]; rfl, ?_⟩
    exact (BinTree.filter_absent (BinTree.lookup_eq_none.mp ((search_eq_nil ordered).mp guard))).symm
  · have present : ∃ con ∈ root.values, con.id = idDelete := by
      rw [search_eq_nil ordered, held, BinTree.lookup_eq_none] at guard
      simpa using guard
    obtain ⟨rest, deleted, values⟩ := delete_spec ordered present
    exact ⟨rest, _, by rw [deleteContact, if_pos guard, deleted]; rfl, values⟩

theorem held_filter {root rest : TreeNode}
    (values : rest.values = root.values.filter (fun c => c.id ≠ idDelete)) (id : Int) :
    held rest id = if id = idDelete then none else held root id := by
  rw [held, BinTree.lookup, values, List.find?_filter]
  split_ifs with same
  · simp [same]
  · congr 1
    funext c
    by_cases h : c.id = id <;> simp [h, same]

theorem step_represents (root : TreeNode) (book : Book) (s : Step) (rep : Represents root book) :
    ∃ next, step root s = .ok next ∧ Represents next (book.apply s) := by
  cases s with
  | addContact newCon input =>
    refine ⟨_, rfl, ?_⟩
    rw [addContact_eq]
    refine ⟨insertNode_ordered rep.ordered _, fun id => ?_⟩
    rw [insertNode_held rep.ordered, entered_id]
    simp only [rep.contents, Book.apply, Function.update_apply]
    split_ifs with same
    · rw [same]
    · rfl
  | deleteContact idDelete =>
    obtain ⟨rest, report, deleted, values⟩ := deleteContact_spec rep.ordered idDelete
    refine ⟨rest, by rw [step, deleted]; rfl, BinTree.ordered_of_filter rep.ordered values, ?_⟩
    intro id
    rw [held_filter values, rep.contents, Book.apply, Function.update_apply]

theorem added_append (steps : List Step) (s : Step) (id : Int) :
    Added (steps ++ [s]) id ↔
      (∃ newCon input, s = .addContact newCon input ∧ newCon.id = id) ∨
      (Added steps id ∧ s ≠ .deleteContact id) := by
  constructor
  · rintro ⟨before, newCon, input, after, shape, same, kept⟩
    rcases List.eq_nil_or_concat after with rfl | ⟨init, last, rfl⟩
    · obtain ⟨_, lastEq⟩ := List.append_inj' shape rfl
      exact .inl ⟨newCon, input, by simpa using lastEq, same⟩
    · have shape : steps ++ [s] = (before ++ .addContact newCon input :: init) ++ [last] := by
        simpa using shape
      obtain ⟨rfl, lastEq⟩ := List.append_inj' shape rfl
      obtain rfl : s = last := by simpa using lastEq
      simp only [List.concat_eq_append, List.mem_append, List.mem_singleton, not_or] at kept
      exact .inr ⟨⟨before, newCon, input, init, rfl, same, kept.1⟩, Ne.symm kept.2⟩
  · rintro (⟨newCon, input, rfl, same⟩ | ⟨⟨before, newCon, input, after, rfl, same, kept⟩, other⟩)
    · exact ⟨steps, newCon, input, [], rfl, same, by simp⟩
    · refine ⟨before, newCon, input, after ++ [s], by simp, same, ?_⟩
      simp [kept, Ne.symm other]

/-- The map is defined on an id exactly when it was added and not deleted since. -/
theorem book_defined (steps : List Step) (id : Int) :
    (steps.foldl Book.apply (fun _ => none) id).isSome ↔ Added steps id := by
  induction steps using List.reverseRecOn with
  | nil => simp [Added]
  | append_singleton steps s ih =>
    rw [List.foldl_append, added_append]
    cases s with
    | addContact newCon input =>
      by_cases same : id = newCon.id
      · simp [Book.apply, same]
      · simp [Book.apply, same, Ne.symm same, ih]
    | deleteContact idDelete =>
      by_cases same : id = idDelete
      · simp [Book.apply, same]
      · simp [Book.apply, same, Ne.symm same, ih]

/-- No history fails, and the tree it leaves represents the map of the history. -/
theorem run_represents (steps : List Step) :
    ∃ root, run step .nil steps = .ok root ∧
      Represents root (steps.foldl Book.apply fun _ => none) :=
  run_simulates Represents step_represents steps .nil (fun _ => none) ⟨trivial, fun _ => rfl⟩

theorem represents_search (rep : Represents root book) (id : Int) :
    (search root id).root? = book id := by
  rw [search_held rep.ordered, rep.contents]

/-- Histories of the tree contact book. In the tree of any history ids are strictly
ordered; `search` finds an id exactly when it was added and not deleted since, and then on
a node with that id; every further action succeeds and leaves what `search` finds for
other ids alone; and `deleteContact` removes the contact with the given id and no other. -/
theorem contact_tree_histories (steps : List Step) :
    ∃ root, run step .nil steps = .ok root ∧
      (root.values.map Contact.id).Pairwise (· < ·) ∧ Ordered root ∧
      (∀ id, (search root id ≠ .nil ↔ Added steps id) ∧
        ∀ con, (search root id).root? = some con → con.id = id) ∧
      (∀ s, ∃ next, step root s = .ok next ∧
        ∀ id, id ≠ s.id → (search next id).root? = (search root id).root?) ∧
      (∀ id, ∃ rest report, deleteContact root id = .ok (rest, report) ∧
        rest.values = root.values.filter (fun c => c.id ≠ id)) := by
  obtain ⟨root, ran, rep⟩ := run_represents steps
  refine ⟨root, ran, BinTree.ordered_iff_sorted.mp rep.ordered, rep.ordered, fun id => ⟨?_, ?_⟩, ?_,
    deleteContact_spec rep.ordered⟩
  · rw [← book_defined, ← rep.contents, ne_eq, search_eq_nil rep.ordered]
    exact Option.isSome_iff_ne_none.symm
  · intro con found
    rw [search_held rep.ordered] at found
    exact (BinTree.lookup_mem found).2
  · intro s
    obtain ⟨next, stepped, rep'⟩ := step_represents root _ s rep
    refine ⟨next, stepped, fun id other => ?_⟩
    rw [represents_search rep', represents_search rep]
    cases s <;> exact Function.update_of_ne other _ _

end Tasks.Contacts.SearchTree
