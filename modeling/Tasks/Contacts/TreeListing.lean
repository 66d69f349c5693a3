import Tasks.Contacts.TreeMenu

/-! Module 2, Task 4.3: what a listing says about the tree it is printed from. -/
namespace Tasks.Contacts.SearchTree

open Kit

variable {root : TreeNode}

theorem insertNode_insert (root : TreeNode) (newCon : Contact) :
    insertNode root newCon = root.insert Contact.id newCon := by
  induction root with
  | nil => rfl
  | node con left right ihl ihr => rw [insertNode, BinTree.insert, ihl, ihr]

/-- The lines come from the contacts in the order of the walk. -/
theorem postOrderTravel_rows (root : TreeNode) : postOrderTravel root = root.postorder.mapM row := by
  induction root with
  | nil => rfl
  | node con left right ihl ihr =>
    rw [postOrderTravel, BinTree.postorder, ihl, ihr]
    simp

/-- Additions alone, with all that was entered. -/
theorem run_additions (root : TreeNode) (cons : List Contact) :
    run menu root (cons.map fun con => .addContact con 'Y') =
      .ok (cons.foldl (BinTree.insert Contact.id) root) := by
  induction cons generalizing root with
  | nil => rfl
  | cons con cons ih =>
    have added : menu root (.addContact con 'Y') = .ok (root.insert Contact.id con) := by
      rw [← insertNode_insert]
      rfl
    rw [List.map_cons, run_cons added, ih, List.foldl_cons]

/-- What the menu lists in any tree it has made: each contact that `search` finds, and in such an order that
the contacts of the listing, added again from the last to the first, make the same tree. -/
theorem listing_rebuilds (choices : List Choice) (root : TreeNode)
    (reached : run menu .nil choices = .ok root) :
    ∃ cons : List Contact, postOrderTravel root = cons.mapM row ∧
      (cons.map Contact.id).Nodup ∧ (∀ con, con ∈ cons ↔ (search root con.id).root? = some con) ∧
      run menu .nil (cons.reverse.map fun con => .addContact con 'Y') = .ok root := by
  have ordered := reached_ordered choices reached
  refine ⟨root.postorder, postOrderTravel_rows root, ?_, fun con => ?_, ?_⟩
  · exact ((BinTree.postorder_perm root).map Contact.id).nodup_iff.mpr (BinTree.keys_nodup ordered)
  · rw [search_held ordered, BinTree.mem_postorder, held, BinTree.lookup_key_iff ordered]
  · rw [run_additions, BinTree.foldl_insert_postorder ordered]

theorem listing_rebuilds_several :
    ∃ root, run menu .nil several = .ok root ∧
      ∃ cons : List Contact, postOrderTravel root = cons.mapM row ∧
        (cons.map Contact.id).Nodup ∧ (∀ con, con ∈ cons ↔ (search root con.id).root? = some con) ∧
        run menu .nil (cons.reverse.map fun con => .addContact con 'Y') = .ok root :=
  have reached : run menu .nil several = .ok _ := rfl
  ⟨_, reached, listing_rebuilds several _ reached⟩

end Tasks.Contacts.SearchTree
