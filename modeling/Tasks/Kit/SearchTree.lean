import Mathlib.Data.List.Nodup
import Mathlib.Order.Lattice
import Mathlib.Data.List.Basic

/-! Binary trees searched by a key of their values. `Ordered` is the strict search-tree
order; `lookup` reads a tree as a partial map from keys, without using the order. -/
namespace Tasks.Kit

inductive BinTree (α : Type u) where
  | nil
  | node (value : α) (left right : BinTree α)
  deriving DecidableEq, Repr

namespace BinTree

variable {α : Type u} {κ : Type v}

def values : BinTree α → List α
  | nil => []
  | node value left right => left.values ++ value :: right.values

@[simp] theorem values_nil : (nil : BinTree α).values = [] := rfl

@[simp] theorem mem_values_node (x value : α) (left right : BinTree α) :
    x ∈ (node value left right).values ↔ x ∈ left.values ∨ x = value ∨ x ∈ right.values := by
  simp [values]

def Ordered [LinearOrder κ] (key : α → κ) : BinTree α → Prop
  | nil => True
  | node value left right =>
    left.Ordered key ∧ right.Ordered key ∧
      (∀ x ∈ left.values, key x < key value) ∧ (∀ x ∈ right.values, key value < key x)

/-- The value stored under a key: the first one in tree order. -/
def lookup [DecidableEq κ] (key : α → κ) (t : BinTree α) (k : κ) : Option α :=
  t.values.find? (fun x => key x = k)

@[simp] theorem lookup_nil [DecidableEq κ] (key : α → κ) (k : κ) :
    (nil : BinTree α).lookup key k = none := rfl

theorem lookup_eq_none [DecidableEq κ] {key : α → κ} {t : BinTree α} {k : κ} :
    t.lookup key k = none ↔ ∀ x ∈ t.values, key x ≠ k := by
  simp [lookup]

theorem lookup_mem [DecidableEq κ] {key : α → κ} {t : BinTree α} {k : κ} {x : α}
    (found : t.lookup key k = some x) : x ∈ t.values ∧ key x = k :=
  ⟨List.mem_of_find?_eq_some found, by simpa using List.find?_some found⟩

variable [LinearOrder κ] {key : α → κ} {value : α} {left right t : BinTree α} {k : κ}

/-- The order is the usual one on the in-order sequence of keys. -/
theorem ordered_iff_sorted : t.Ordered key ↔ (t.values.map key).Pairwise (· < ·) := by
  induction t with
  | nil => simp [Ordered]
  | node value left right ihl ihr =>
    simp only [Ordered, values, List.map_append, List.map_cons, List.pairwise_append,
      List.pairwise_cons, ihl, ihr, List.mem_map, List.mem_cons]
    constructor
    · rintro ⟨hl, hr, below, above⟩
      refine ⟨hl, ⟨by simpa using above, hr⟩, ?_⟩
      rintro _ ⟨x, hx, rfl⟩ _ (rfl | ⟨y, hy, rfl⟩)
      · exact below x hx
      · exact (below x hx).trans (above y hy)
    · rintro ⟨hl, ⟨above, hr⟩, cross⟩
      exact ⟨hl, hr, fun x hx => cross _ ⟨x, hx, rfl⟩ _ (.inl rfl),
        fun x hx => above _ ⟨x, hx, rfl⟩⟩

theorem lookup_below (below : ∀ x ∈ t.values, key x < key value) (h : ¬ k < key value) :
    t.lookup key k = none :=
  lookup_eq_none.mpr fun x hx same => h (same ▸ below x hx)

theorem lookup_above (above : ∀ x ∈ t.values, key value < key x) (h : ¬ key value < k) :
    t.lookup key k = none :=
  lookup_eq_none.mpr fun x hx same => h (same ▸ above x hx)

theorem lookup_node (ordered : (node value left right).Ordered key) (k : κ) :
    (node value left right).lookup key k =
      if k < key value then left.lookup key k
      else if key value < k then right.lookup key k else some value := by
  obtain ⟨_, _, below, above⟩ := ordered
  have inOrder : (node value left right).lookup key k =
      (left.lookup key k).or (if key value = k then some value else right.lookup key k) := by
    simp only [lookup, values, List.find?_append, List.find?_cons]
    by_cases h : key value = k <;> simp [h]
  rw [inOrder]
  rcases lt_trichotomy k (key value) with h | rfl | h
  · have absent := lookup_above above h.not_gt
    simp [h, h.ne', absent]
  · have absent := lookup_below below (lt_irrefl (key value))
    simp [absent]
  · have absent := lookup_below below h.not_gt
    simp [h, h.not_gt, h.ne, absent]

def leftmost : BinTree α → Option α
  | nil => none
  | node value nil _ => some value
  | node _ (node v l r) _ => leftmost (node v l r)

theorem leftmost_eq_head? (t : BinTree α) : t.leftmost = t.values.head? := by
  induction t with
  | nil => rfl
  | node value left right ihl _ =>
    cases left with
    | nil => rfl
    | node v l r =>
      rw [leftmost, ihl]
      simp [values]

theorem filter_absent {values : List α} (absent : ∀ x ∈ values, key x ≠ k) :
    values.filter (fun x => key x ≠ k) = values :=
  List.filter_eq_self.mpr fun x member => by simpa using absent x member

/-- In an ordered tree the leftmost value comes first and its key occurs once. -/
theorem values_leftmost {x : α} (ordered : t.Ordered key) (found : t.leftmost = some x) :
    t.values = x :: t.values.filter (fun y => key y ≠ key x) := by
  rw [leftmost_eq_head?] at found
  obtain ⟨rest, shape⟩ := List.head?_eq_some_iff.mp found
  have sorted := ordered_iff_sorted.mp ordered
  rw [shape, List.map_cons, List.pairwise_cons] at sorted
  have others : ∀ y ∈ rest, key y ≠ key x := fun y member =>
    (sorted.1 (key y) (List.mem_map_of_mem member)).ne'
  rw [shape, List.filter_cons_of_neg (by simp), filter_absent others]

/-- Filtering the sequence of an ordered tree cannot disorder it. -/
theorem ordered_of_filter {s : BinTree α} {keep : α → Bool} (ordered : t.Ordered key)
    (filtered : s.values = t.values.filter keep) : s.Ordered key := by
  rw [ordered_iff_sorted, filtered]
  exact (ordered_iff_sorted.mp ordered).sublist (List.filter_sublist.map key)

/-- Trees of one shape with related values in the same places. -/
inductive Rel {β : Type w} (r : α → β → Prop) : BinTree α → BinTree β → Prop where
  | nil : Rel r nil nil
  | node {left right : BinTree α} {left' right' : BinTree β} (here : r x y) (before : Rel r left left')
      (behind : Rel r right right') : Rel r (node x left right) (node y left' right')

theorem Rel.refl {r : α → α → Prop} (same : ∀ x, r x x) (t : BinTree α) : Rel r t t := by
  induction t with
  | nil => exact .nil
  | node value left right ihl ihr => exact .node (same value) ihl ihr

theorem Rel.mono {r s : α → β → Prop} (weaker : ∀ x y, r x y → s x y) {t : BinTree α} {u : BinTree β}
    (rel : Rel r t u) : Rel s t u := by
  induction rel with
  | nil => exact .nil
  | node here _ _ ihl ihr => exact .node (weaker _ _ here) ihl ihr

theorem Rel.map_values {r : α → β → Prop} {f : α → γ} {g : β → γ} {t : BinTree α} {u : BinTree β}
    (rel : Rel r t u) (same : ∀ x y, r x y → g y = f x) : u.values.map g = t.values.map f := by
  induction rel with
  | nil => rfl
  | node here _ _ ihl ihr => simp only [values, List.map_append, List.map_cons, same _ _ here, ihl, ihr]

theorem Rel.source {r : α → β → Prop} {t : BinTree α} {u : BinTree β} (rel : Rel r t u)
    (member : y ∈ u.values) : ∃ x ∈ t.values, r x y := by
  induction rel with
  | nil => simp at member
  | node here _ _ ihl ihr =>
    rcases (mem_values_node ..).mp member with before | rfl | behind
    · obtain ⟨x, inside, related⟩ := ihl before
      exact ⟨x, (mem_values_node ..).mpr (.inl inside), related⟩
    · exact ⟨_, (mem_values_node ..).mpr (.inr (.inl rfl)), here⟩
    · obtain ⟨x, inside, related⟩ := ihr behind
      exact ⟨x, (mem_values_node ..).mpr (.inr (.inr inside)), related⟩

def root? : BinTree α → Option α
  | nil => none
  | node value _ _ => some value

/-- Subtrees before their root. -/
def postorder : BinTree α → List α
  | nil => []
  | node value left right => left.postorder ++ right.postorder ++ [value]

theorem postorder_perm (t : BinTree α) : t.postorder.Perm t.values := by
  induction t with
  | nil => exact .nil
  | node value left right ihl ihr =>
    rw [postorder, values, List.append_assoc]
    refine ihl.append ?_
    exact (ihr.append_right [value]).trans (List.perm_append_singleton value right.values)

theorem mem_postorder {x : α} : x ∈ t.postorder ↔ x ∈ t.values := (postorder_perm t).mem_iff

theorem keys_nodup (ordered : t.Ordered key) : (t.values.map key).Nodup :=
  (ordered_iff_sorted.mp ordered).imp fun less => less.ne

theorem lookup_key_iff {x : α} (ordered : t.Ordered key) : t.lookup key (key x) = some x ↔ x ∈ t.values := by
  constructor
  · exact fun found => (lookup_mem found).1
  · intro member
    cases found : t.lookup key (key x) with
    | none => exact absurd rfl (lookup_eq_none.mp found x member)
    | some y =>
      obtain ⟨inside, same⟩ := lookup_mem found
      rw [List.inj_on_of_nodup_map (keys_nodup ordered) inside member same]

/-- A value whose key is there is dropped. -/
def insert (key : α → κ) : BinTree α → α → BinTree α
  | nil, x => node x nil nil
  | node value left right, x =>
    if key x < key value then node value (left.insert key x) right
    else if key value < key x then node value left (right.insert key x)
    else node value left right

theorem foldl_insert_below {xs : List α} (below : ∀ x ∈ xs, key x < key value) :
    xs.foldl (insert key) (node value left right) = node value (xs.foldl (insert key) left) right := by
  induction xs generalizing left with
  | nil => rfl
  | cons x xs ih =>
    obtain ⟨first, rest⟩ := List.forall_mem_cons.mp below
    rw [List.foldl_cons, List.foldl_cons, insert, if_pos first, ih rest]

theorem foldl_insert_above {xs : List α} (above : ∀ x ∈ xs, key value < key x) :
    xs.foldl (insert key) (node value left right) = node value left (xs.foldl (insert key) right) := by
  induction xs generalizing right with
  | nil => rfl
  | cons x xs ih =>
    obtain ⟨first, rest⟩ := List.forall_mem_cons.mp above
    rw [List.foldl_cons, List.foldl_cons, insert, if_neg first.not_gt, if_pos first, ih rest]

/-- Read from its end, the postorder of a tree has each root before its subtrees. -/
theorem foldl_insert_postorder (ordered : t.Ordered key) :
    t.postorder.reverse.foldl (insert key) nil = t := by
  induction t with
  | nil => rfl
  | node value left right ihl ihr =>
    obtain ⟨first, second, below, above⟩ := ordered
    have lower : ∀ x ∈ left.postorder.reverse, key x < key value := fun x member =>
      below x (mem_postorder.mp (List.mem_reverse.mp member))
    have upper : ∀ x ∈ right.postorder.reverse, key value < key x := fun x member =>
      above x (mem_postorder.mp (List.mem_reverse.mp member))
    rw [postorder, List.reverse_append, List.reverse_singleton, List.reverse_append, List.singleton_append,
      List.foldl_cons, insert, List.foldl_append, foldl_insert_above upper, ihr second,
      foldl_insert_below lower, ihl first]

end BinTree
end Tasks.Kit
