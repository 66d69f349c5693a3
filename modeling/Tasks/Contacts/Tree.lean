import Tasks.Contacts.Record
import Tasks.Kit.Run
import Tasks.Kit.SearchTree
import Mathlib.Data.Int.Order.Basic

/-! Module 2, Task 4.3: the contact book kept in a binary search tree on `con.id`.
Trees stand for the nodes reachable from `root`; `NULL` is the empty tree. -/
namespace Tasks.Contacts.SearchTree

open Kit

abbrev TreeNode := BinTree Contact

def createNode (newCon : Contact) : TreeNode := .node newCon .nil .nil

/-- An id that is already in the tree is dropped without a word. -/
def insertNode : TreeNode → Contact → TreeNode
  | .nil, newCon => createNode newCon
  | .node con left right, newCon =>
    if newCon.id < con.id then .node con (insertNode left newCon) right
    else if newCon.id > con.id then .node con left (insertNode right newCon)
    else .node con left right

def search : TreeNode → Int → TreeNode
  | .nil, _ => .nil
  | .node con left right, id =>
    if con.id = id then .node con left right
    else if id < con.id then search left id
    else search right id

/-- The loop condition reads `node->left`, so the argument must not be `NULL`. -/
def findMin : TreeNode → Except Fault TreeNode
  | .nil => .error .nullDereference
  | .node con .nil right => .ok (.node con .nil right)
  | .node _ (.node con left right) _ => findMin (.node con left right)

/-- The member access `node->con`. -/
def contactOf : TreeNode → Except Fault Contact
  | .nil => .error .nullDereference
  | .node con _ _ => .ok con

def delete : TreeNode → Int → Except Fault TreeNode
  -- `return;` in a function whose result every caller assigns
  | .nil, _ => .error .missingReturn
  | .node con left right, id =>
    if id < con.id then do
      return .node con (← delete left id) right
    else if id > con.id then do
      return .node con left (← delete right id)
    else if left = .nil then
      return right
    else if right = .nil then
      return left
    else do
      let temp ← contactOf (← findMin right)
      return .node temp left (← delete right temp.id)

/-- `newCon` is the local record after the prompts; unless the answer was `Y` the two
social fields are cut at their first byte. The second result is the report printed. -/
def addContact (root : TreeNode) (newCon : Contact) (input : Char) : TreeNode × String :=
  let soc := if input = 'Y' then newCon.soc
    else ⟨Field.cut newCon.soc.number, Field.cut newCon.soc.link⟩
  let newCon := { newCon with soc }
  (insertNode root newCon, s!"Your id: {newCon.id}\n\nUser added\n")

def deleteContact (root : TreeNode) (idDelete : Int) : Except Fault (TreeNode × String) :=
  if search root idDelete ≠ .nil then do
    return (← delete root idDelete, s!"Contact with id {idDelete} deleted.\n")
  else
    return (root, "Contact not found.\n")

section Specifications

variable {root : TreeNode} {newCon : Contact} {id : Int}

abbrev Ordered (root : TreeNode) : Prop := BinTree.Ordered Contact.id root

abbrev held (root : TreeNode) (id : Int) : Option Contact := BinTree.lookup Contact.id root id

theorem held_node {con : Contact} {left right : TreeNode} (ordered : Ordered (.node con left right))
    (id : Int) : held (.node con left right) id =
      if id < con.id then held left id else if con.id < id then held right id else some con :=
  BinTree.lookup_node ordered id

theorem search_held (ordered : Ordered root) (id : Int) :
    (search root id).root? = held root id := by
  induction root with
  | nil => rfl
  | node con left right ihl ihr =>
    rw [held_node ordered, search]
    rcases lt_trichotomy id con.id with h | rfl | h
    · rw [if_neg h.ne', if_pos h, if_pos h]
      exact ihl ordered.1
    · simp [BinTree.root?]
    · rw [if_neg h.ne, if_neg h.not_gt, if_neg h.not_gt, if_pos h]
      exact ihr ordered.2.1

theorem search_eq_nil (ordered : Ordered root) : search root id = .nil ↔ held root id = none := by
  rw [← search_held ordered]
  cases search root id <;> simp [BinTree.root?]

theorem insertNode_values {con : Contact} (member : con ∈ (insertNode root newCon).values) :
    con = newCon ∨ con ∈ root.values := by
  induction root with
  | nil => simpa [insertNode, createNode] using member
  | node c left right ihl ihr =>
    simp only [insertNode] at member
    split at member
    · rw [BinTree.mem_values_node] at member ⊢
      exact member.elim (fun h => (ihl h).imp_right .inl) (fun h => .inr (.inr h))
    · split at member
      · rw [BinTree.mem_values_node] at member ⊢
        rcases member with h | h | h
        · exact .inr (.inl h)
        · exact .inr (.inr (.inl h))
        · exact (ihr h).imp_right (fun h => .inr (.inr h))
      · exact .inr member

theorem insertNode_ordered (ordered : Ordered root) (newCon : Contact) :
    Ordered (insertNode root newCon) := by
  induction root with
  | nil => simp [insertNode, createNode, Ordered, BinTree.Ordered]
  | node con left right ihl ihr =>
    obtain ⟨hl, hr, below, above⟩ := ordered
    simp only [insertNode]
    split_ifs with smaller larger
    · refine ⟨ihl hl, hr, ?_, above⟩
      intro x member
      exact (insertNode_values member).elim (fun h => h ▸ smaller) (below x)
    · refine ⟨hl, ihr hr, below, ?_⟩
      intro x member
      exact (insertNode_values member).elim (fun h => h ▸ larger) (above x)
    · exact ⟨hl, hr, below, above⟩

/-- Only the new id is affected, and only when it was not in the tree. -/
theorem insertNode_held (ordered : Ordered root) (newCon : Contact) (id : Int) :
    held (insertNode root newCon) id =
      if id = newCon.id then (held root id).or (some newCon) else held root id := by
  induction root with
  | nil =>
    by_cases h : id = newCon.id
    · simp [insertNode, createNode, BinTree.lookup, BinTree.values, h]
    · simp [insertNode, createNode, BinTree.lookup, BinTree.values, h, Ne.symm h]
  | node con left right ihl ihr =>
    have after := insertNode_ordered ordered newCon
    have wentLeft := ihl ordered.1
    have wentRight := ihr ordered.2.1
    rw [held_node ordered]
    simp only [insertNode] at after ⊢
    split at after
    next smaller =>
      rw [if_pos smaller, held_node after, wentLeft]
      split_ifs <;> first | rfl | omega
    next smaller =>
      rw [if_neg smaller]
      split at after
      next larger =>
        rw [if_pos larger, held_node after, wentRight]
        split_ifs <;> first | rfl | omega
      next larger =>
        rw [if_neg larger, held_node ordered]
        split_ifs <;> first | rfl | omega

theorem findMin_spec (nonempty : root ≠ .nil) :
    ∃ temp con, findMin root = .ok temp ∧ contactOf temp = .ok con ∧
      BinTree.leftmost root = some con := by
  induction root with
  | nil => exact absurd rfl nonempty
  | node con left right ihl _ =>
    cases left with
    | nil => exact ⟨_, con, rfl, rfl, rfl⟩
    | node c l r => exact ihl nofun

/-- Under the guard, `delete` returns a tree from which exactly the contact of that id is
gone, in particular after copying the in-order successor over a node with two children. -/
theorem delete_spec (ordered : Ordered root) (present : ∃ con ∈ root.values, con.id = id) :
    ∃ rest, delete root id = .ok rest ∧ rest.values = root.values.filter (fun c => c.id ≠ id) := by
  induction root generalizing id with
  | nil => simp at present
  | node con left right ihl ihr =>
    obtain ⟨hl, hr, below, above⟩ := ordered
    obtain ⟨found, member, rfl⟩ := present
    have keepsLeft (h : ¬ found.id < con.id) :
        left.values.filter (fun c => c.id ≠ found.id) = left.values :=
      BinTree.filter_absent fun c hc same => h (same ▸ below c hc)
    have keepsRight (h : ¬ con.id < found.id) :
        right.values.filter (fun c => c.id ≠ found.id) = right.values :=
      BinTree.filter_absent fun c hc same => h (same ▸ above c hc)
    rw [BinTree.mem_values_node] at member
    rw [delete, BinTree.values, List.filter_append, List.filter_cons]
    rcases lt_trichotomy found.id con.id with smaller | same | larger
    · have inLeft : found ∈ left.values := by
        rcases member with h | rfl | h
        · exact h
        · omega
        · have := above found h; omega
      obtain ⟨rest, deleted, values⟩ := ihl hl ⟨found, inLeft, rfl⟩
      refine ⟨.node con rest right, by rw [if_pos smaller, deleted]; rfl, ?_⟩
      rw [keepsRight smaller.not_gt, BinTree.values, values, if_pos (by simpa using smaller.ne')]
    · rw [if_neg same.not_lt, if_neg same.not_gt, keepsLeft same.not_lt, keepsRight same.not_gt]
      by_cases noLeft : left = .nil
      · exact ⟨right, by rw [if_pos noLeft]; rfl, by simp [noLeft, same]⟩
      by_cases noRight : right = .nil
      · exact ⟨left, by rw [if_neg noLeft, if_pos noRight]; rfl, by simp [noRight, same]⟩
      -- two children: the successor's id is found again on its comparison path
      obtain ⟨node, temp, minimum, contact, leftmost⟩ := findMin_spec noRight
      have shape := BinTree.values_leftmost hr leftmost
      obtain ⟨rest, deleted, values⟩ := ihr hr ⟨temp, by rw [shape]; simp, rfl⟩
      refine ⟨.node temp left rest, ?_, ?_⟩
      · simp only [if_neg noLeft, if_neg noRight, minimum, ok_bind, contact, deleted]
        rfl
      · rw [BinTree.values, values, ← shape]
        simp [same]
    · have inRight : found ∈ right.values := by
        rcases member with h | rfl | h
        · have := below found h; omega
        · omega
        · exact h
      obtain ⟨rest, deleted, values⟩ := ihr hr ⟨found, inRight, rfl⟩
      refine ⟨.node con left rest, by rw [if_neg larger.not_gt, if_pos larger, deleted]; rfl, ?_⟩
      rw [keepsLeft larger.not_gt, BinTree.values, values, if_pos (by simpa using larger.ne)]

end Specifications
end Tasks.Contacts.SearchTree
