import Tasks.Contacts.Answers
import Tasks.Contacts.TreeMenu

/-! What an edit does to the tree of Task 4.3, with an id that is there and with one that is not. -/
namespace Tasks.Contacts.SearchTree

open Kit Kit.Lines

def Choice.Entered : Choice → Prop
  | .addContact newCon input => ∃ start entry, prompts start entry = .ok newCon ∧ entry.input = input
  | _ => True

/-- A tree that the menu leaves. -/
def Reached (root : TreeNode) : Prop :=
  ∃ choices : List Choice, (∀ choice ∈ choices, choice.Entered) ∧ run menu .nil choices = .ok root

/-- The edit comes back, with every node in its place and every contact but that of the id as it was, and
the whole tree as it was if there is no such id. -/
def Local (root : TreeNode) (buffer : Field) (idEdit : Int) (input : Bytes) : Prop :=
  ∃ next, editContact root buffer idEdit input = .ok next ∧
    BinTree.Rel (ArrayBook.Edited idEdit) root next ∧ (search root idEdit = .nil → next = root)

section Reaching

variable {root next : TreeNode} {con con' : Contact} {id : Int}

structure Good (root : TreeNode) : Prop where
  ordered : Ordered root
  ends : ∀ con ∈ root.values, Chars.Ends con.lastname

theorem store_values (member : con ∈ (store root id con').values) : con = con' ∨ con ∈ root.values := by
  obtain ⟨there, inside, rfl | ⟨_, rfl⟩⟩ := (store_rel root id con').source member
  · exact .inr inside
  · exact .inl rfl

theorem search_mem (found : (search root id).root? = some con) : con ∈ root.values := by
  induction root with
  | nil => contradiction
  | node c left right ihl ihr =>
    rw [BinTree.mem_values_node]
    simp only [search] at found
    split at found
    next =>
      cases found
      exact .inr (.inl rfl)
    next =>
      split at found
      · exact .inl (ihl found)
      · exact .inr (.inr (ihr found))

theorem editMembers_ends (done : ArrayBook.editMembers buffer con input = .ok (con', rest))
    (ends : Chars.Ends con.lastname) : Chars.Ends con'.lastname := by
  obtain ⟨⟨_, lastname, _⟩, first, done⟩ := bind_eq_ok.mp done
  simp only [bind_eq_ok] at done
  obtain ⟨_, _, _, _, _, _, _, _, done⟩ := done
  cases done
  exact ArrayBook.prompt_done first ends

theorem menu_good (root : TreeNode) (choice : Choice) (next : TreeNode) (good : Good root)
    (typed : choice.Entered) (done : menu root choice = .ok next) : Good next := by
  refine ⟨menu_ordered root choice next good.ordered done, ?_⟩
  intro con member
  cases choice with
  | addContact newCon input =>
    obtain ⟨start, entry, filled, rfl⟩ := typed
    cases done
    rw [addContact_eq] at member
    rcases insertNode_values member with rfl | before
    · exact (prompts_shows filled).lastname.ends
    · exact good.ends con before
  | editContact buffer idEdit input =>
    unfold menu editContact at done
    dsimp only at done
    split at done
    next there found =>
      obtain ⟨⟨con', rest⟩, edited, done⟩ := bind_eq_ok.mp done
      cases done
      rcases store_values member with rfl | before
      · exact editMembers_ends (memory_eq_ok.mp edited) (good.ends there (search_mem found))
      · exact good.ends con before
    next =>
      obtain ⟨_, _, done⟩ := bind_eq_ok.mp done
      cases done
      exact good.ends con member
  | deleteContact idDelete =>
    obtain ⟨rest, report, deleted, values⟩ := deleteContact_spec good.ordered idDelete
    rw [menu, step, deleted] at done
    cases done
    rw [values] at member
    exact good.ends con (List.mem_of_mem_filter member)
  | listContact =>
    obtain ⟨_, _, done⟩ := bind_eq_ok.mp done
    cases done
    exact good.ends con member

theorem reached_good (reached : Reached root) : Good root := by
  obtain ⟨choices, entered, done⟩ := reached
  have empty : Good .nil := ⟨by trivial, by simp⟩
  exact run_allowed Good menu_good empty choices entered done

end Reaching

section Editing

variable {root : TreeNode} {con con' : Contact} {id : Int} {input rest : Bytes} {lines : List Bytes}

/-- Each prompt leaves the lines of the ones behind it. -/
theorem prompt_next (buffer member : Field) (bounds : Field → Field) (lines : k + 1 ≤ input.count 10)
    (ends : ∀ source, Chars.Ends source → Chars.Ends (bounds source)) :
    ∃ buffer' member' rest, Chars.prompt buffer member bounds input = .ok (buffer', member', rest) ∧
      k ≤ rest.count 10 ∧ (Chars.Ends member → Chars.Ends member') := by
  have more : input ≠ [] := by
    rintro rfl
    simp at lines
  obtain ⟨buffer', member', prompted, ended⟩ := ArrayBook.prompt_ends buffer member bounds more ends
  have kept := readLine_newlines 19 input
  exact ⟨buffer', member', _, prompted, by omega, ended⟩

/-- Five lines are enough for the prompts, however long they are. -/
theorem editMembers_ok (buffer : Field) (ends : Chars.Ends con.lastname)
    (lines : 5 ≤ (input.drop 1).count 10) :
    ∃ con' rest, ArrayBook.editMembers buffer con input = .ok (con', rest) := by
  obtain ⟨buffer, lastname, input, one, lines, lasts⟩ :=
    prompt_next buffer con.lastname id lines fun _ => id
  obtain ⟨buffer, firstname, input, two, lines, _⟩ :=
    prompt_next buffer con.firstname (fun _ => lastname) lines fun _ _ => lasts ends
  obtain ⟨buffer, middlename, input, three, lines, _⟩ :=
    prompt_next buffer con.middlename id lines fun _ => id
  obtain ⟨buffer, link, input, four, lines, _⟩ := prompt_next buffer con.soc.link id lines fun _ => id
  obtain ⟨buffer, number, input, five, _, _⟩ := prompt_next buffer con.soc.number id lines fun _ => id
  exact ⟨_, input, by simp only [ArrayBook.editMembers, one, two, three, four, five, ok_bind]; rfl⟩

theorem store_edited (root : TreeNode) (same : con'.id = id) :
    BinTree.Rel (ArrayBook.Edited id) root (store root id con') := by
  apply (store_rel root id con').mono
  rintro con stored (rfl | ⟨here, rfl⟩)
  · exact ⟨rfl, fun _ => rfl⟩
  · exact ⟨same.trans here.symm, fun other => absurd here other⟩

/-- Without a node only empty answers come to nothing. -/
theorem editNull_lines (oneLine : ∀ line ∈ lines, 10 ∉ line) (buffer : Field) (rest : Bytes) :
    editNull buffer (typed lines ++ rest) lines.length = .ok () ↔ ∀ line ∈ lines, line = [] := by
  induction lines generalizing buffer with
  | nil => simp [editNull]
  | cons line lines ih =>
    rw [typed_cons, List.length_cons, editNull, List.forall_mem_cons]
    have more : line ++ 10 :: (typed lines ++ rest) ≠ [] := by simp
    obtain ⟨buffer', received, _, head⟩ := Chars.receive_line buffer more
    rw [received, memory_eq_ok.mpr rfl, ok_bind]
    dsimp only
    have first : buffer'.toList.head? = some 10 ↔ line = [] := by
      rw [head]
      cases line with
      | nil => simp
      | cons x line =>
        have other : x ≠ 10 := fun same => oneLine (x :: line) List.mem_cons_self (by simp [same])
        simp [other]
    by_cases empty : line = []
    · subst empty
      rw [if_pos (first.mpr rfl)]
      exact (ih (fun other member => oneLine other (List.mem_cons_of_mem [] member)) buffer').trans
        (and_iff_right rfl).symm
    · rw [if_neg fun same => empty (first.mp same)]
      exact iff_of_false nofun fun all => empty all.1

/-- In a tree that the menu leaves, an edit is safe and local if the id is there or nothing is answered: a
missing id is not looked for before its node is written to. -/
theorem local_iff (root : TreeNode) (reached : Reached root) (buffer : Field) (idEdit : Int) (c : UInt8)
    (answers : Answers) (rest : Bytes) :
    Local root buffer idEdit (c :: (typed answers.lines ++ rest)) ↔
      search root idEdit ≠ .nil ∨ ∀ line ∈ answers.lines, line = [] := by
  have good := reached_good reached
  cases there : search root idEdit with
  | nil =>
    have oneLine : ∀ line ∈ answers.lines, 10 ∉ line := fun line member => (answers.text line member).2
    have empties := editNull_lines oneLine buffer rest
    have edit : editContact root buffer idEdit (c :: (typed answers.lines ++ rest)) =
        editNull buffer (typed answers.lines ++ rest) 5 >>= fun _ => .ok root := by
      rw [editContact, there]
      rfl
    rw [or_iff_right (not_not.mpr rfl), ← empties, Local, edit]
    constructor
    · rintro ⟨next, done, _⟩
      obtain ⟨_, prompted, _⟩ := bind_eq_ok.mp done
      exact prompted
    · intro prompted
      have prompted : editNull buffer (typed answers.lines ++ rest) 5 = .ok () := prompted
      rw [prompted, ok_bind]
      exact ⟨root, rfl, .refl (fun _ => ⟨rfl, fun _ => rfl⟩) root, fun _ => rfl⟩
  | node con left right =>
    have found : (search root idEdit).root? = some con := by rw [there]; rfl
    have ends := good.ends con (search_mem found)
    have newlines := typed_newlines answers.lines
    have five : 5 ≤ ((c :: (typed answers.lines ++ rest)).drop 1).count 10 := by
      rw [List.drop_one, List.tail_cons, List.count_append]
      exact Nat.le_add_right_of_le newlines
    obtain ⟨con', rest', edited⟩ := editMembers_ok buffer ends five
    have same : con'.id = idEdit := (ArrayBook.editMembers_id edited).trans (search_id found)
    have done : editContact root buffer idEdit (c :: (typed answers.lines ++ rest)) =
        .ok (store root idEdit con') := by
      rw [editContact, found]
      simp only [edited, memory_eq_ok.mpr rfl, ok_bind]
      rfl
    refine iff_of_true ⟨_, done, store_edited root same, fun missing => ?_⟩ (.inl nofun)
    exact absurd (there.symm.trans missing) nofun

/-- One answer and four empty lines. -/
def onlyLastname : Answers := ⟨Bytes.ascii "Smith", [], [], [], [], by decide⟩

theorem nil_reached : Reached .nil := ⟨[], by simp, rfl⟩

theorem several_entered : ∀ choice ∈ several, choice.Entered := by
  intro choice member
  rcases List.mem_append.mp member with added | deleted
  · obtain ⟨id, _, rfl⟩ := List.mem_map.mp added
    exact ⟨ArrayBook.blank, ⟨id, [], [], [], 'N', [], []⟩, rfl, rfl⟩
  · rw [List.mem_singleton.mp deleted]
    trivial

/-- The id 3 is in the tree, and 2 no more. -/
theorem local_iff_several :
    ∃ root, run menu .nil several = .ok root ∧
      (Local root ArrayBook.blank.lastname 3 (10 :: (typed onlyLastname.lines ++ [])) ↔
        search root 3 ≠ .nil ∨ ∀ line ∈ onlyLastname.lines, line = []) ∧
      (Local root ArrayBook.blank.lastname 2 (10 :: (typed onlyLastname.lines ++ [])) ↔
        search root 2 ≠ .nil ∨ ∀ line ∈ onlyLastname.lines, line = []) := by
  have done : run menu .nil several = .ok _ := rfl
  have reached : Reached _ := ⟨several, several_entered, done⟩
  exact ⟨_, done, local_iff _ reached ArrayBook.blank.lastname 3 10 onlyLastname [],
    local_iff _ reached ArrayBook.blank.lastname 2 10 onlyLastname []⟩

/-- An answer for an id that is not in the tree is written through `NULL`. -/
theorem missing_id_written : ¬ ∀ (root : TreeNode) (buffer : Field) (idEdit : Int) (c : UInt8)
    (answers : Answers) (rest : Bytes), Reached root →
      Local root buffer idEdit (c :: (typed answers.lines ++ rest)) := by
  intro law
  obtain ⟨next, done, _⟩ := law .nil ArrayBook.blank.lastname 1 10 onlyLastname [] nil_reached
  have null : editContact .nil ArrayBook.blank.lastname 1 (10 :: (typed onlyLastname.lines ++ [])) =
      .error .nullDereference := rfl
  cases null.symm.trans done

end Editing
end Tasks.Contacts.SearchTree
