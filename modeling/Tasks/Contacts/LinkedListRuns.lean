import Tasks.Contacts.LinkedList

/-! Every history of the linked contact book, whatever addresses `malloc` hands out. -/
namespace Tasks.Contacts.LinkedList

open Kit

structure State where
  heap : Heap Contact
  head : Ptr

def initial : State := ⟨fun _ => none, none⟩

/-- A call that came back. `malloc` may return any address that is not in use. -/
inductive Step (s : State) : State → Prop where
  | insert (newNode : Addr) (con : Contact) (fresh : s.heap newNode = none)
      (done : Returns (fun fuel => insert fuel s.heap s.head newNode con) (heap, head)) :
      Step s ⟨heap, head⟩
  | removeNode (id : Int)
      (done : Returns (fun fuel => removeNode fuel s.heap s.head id) (heap, head, report)) :
      Step s ⟨heap, head⟩

/-- The heap is one list, linked both ways, in non-decreasing id order. -/
structure Sorted (s : State) (chain : List (Addr × Contact)) : Prop where
  linked : Heap.Linked s.heap s.head chain
  ordered : chain.Pairwise (fun x y => x.2.id ≤ y.2.id)

theorem insert_sorted {ys zs : List (Addr × Contact)} (node : Addr × Contact)
    (ordered : (ys ++ zs).Pairwise (fun x y => x.2.id ≤ y.2.id))
    (smaller : ∀ y ∈ ys, y.2.id < node.2.id) (larger : ∀ z ∈ zs.head?, node.2.id ≤ z.2.id) :
    (ys ++ node :: zs).Pairwise (fun x y => x.2.id ≤ y.2.id) := by
  rw [List.pairwise_append] at ordered ⊢
  obtain ⟨front, back, cross⟩ := ordered
  have above : ∀ z ∈ zs, node.2.id ≤ z.2.id := by
    cases zs with
    | nil => simp
    | cons z zs =>
      have first : node.2.id ≤ z.2.id := larger z (by simp)
      intro x member
      rcases List.mem_cons.mp member with rfl | member
      · exact first
      · exact Int.le_trans first ((List.pairwise_cons.mp back).1 x member)
  refine ⟨front, List.pairwise_cons.mpr ⟨above, back⟩, ?_⟩
  intro y hy x hx
  rcases List.mem_cons.mp hx with rfl | hx
  · exact Int.le_of_lt (smaller y hy)
  · exact cross y hy x hx

def Inserts (s : State) (chain : List (Addr × Contact)) (newNode : Addr) (con : Contact) : Prop :=
  ∃ heap' head' ys zs, Returns (fun fuel => insert fuel s.heap s.head newNode con) (heap', head') ∧
    chain = ys ++ zs ∧ Sorted ⟨heap', head'⟩ (ys ++ (newNode, con) :: zs)

/-- What one `removeNode` does: nothing, or the loss of the first node with the id. -/
def Removes (s : State) (chain : List (Addr × Contact)) (id : Int) : Prop :=
  ((∀ x ∈ chain, x.2.id ≠ id) ∧ Returns (fun fuel => removeNode fuel s.heap s.head id)
    (s.heap, s.head, "Contact not found!\n")) ∨
  ∃ heap' head' ys node zs, Returns (fun fuel => removeNode fuel s.heap s.head id)
      (heap', head', "Contact deleted.\n") ∧
    chain = ys ++ node :: zs ∧ node.2.id = id ∧ (∀ y ∈ ys, y.2.id ≠ id) ∧
    heap' node.1 = none ∧ Sorted ⟨heap', head'⟩ (ys ++ zs)

theorem insert_inserts (sorted : Sorted s chain) (fresh : s.heap newNode = none) (con : Contact) :
    Inserts s chain newNode con := by
  obtain ⟨heap', head', ys, zs, done, rfl, smaller, larger, linked⟩ :=
    insert_spec sorted.linked fresh con
  exact ⟨heap', head', ys, zs, ⟨_, done⟩, rfl, linked,
    insert_sorted (newNode, con) sorted.ordered smaller larger⟩

theorem removeNode_removes (sorted : Sorted s chain) (id : Int) : Removes s chain id := by
  rcases removeNode_spec sorted.linked id with
    ⟨absent, done⟩ | ⟨heap', head', ys, node, zs, done, rfl, same, other, linked⟩
  · exact .inl ⟨absent, _, done⟩
  · have nodup := sorted.linked.nodup
    rw [List.map_append, List.map_cons, List.nodup_middle, ← List.map_append,
      List.nodup_cons] at nodup
    have shorter : (ys ++ zs).Sublist (ys ++ node :: zs) :=
      (List.Sublist.refl ys).append (List.sublist_cons_self node zs)
    exact .inr ⟨heap', head', ys, node, zs, ⟨_, done⟩, rfl, same, other, linked.dead nodup.1,
      linked, sorted.ordered.sublist shorter⟩

theorem initial_sorted : Sorted initial [] :=
  ⟨⟨⟨none, rfl, rfl⟩, List.nodup_nil, by simp [initial]⟩, List.Pairwise.nil⟩

theorem step_sorted (s t : State) (inv : ∃ chain, Sorted s chain) (step : Step s t) :
    ∃ chain, Sorted t chain := by
  obtain ⟨chain, sorted⟩ := inv
  cases step with
  | insert newNode con fresh done =>
    obtain ⟨heap', head', ys, zs, done', _, sorted'⟩ := insert_inserts sorted fresh con
    cases done.unique done'
    exact ⟨_, sorted'⟩
  | removeNode id done =>
    rcases removeNode_removes sorted id with
      ⟨_, done'⟩ | ⟨heap', head', ys, node, zs, done', _, _, _, _, sorted'⟩
    · cases done.unique done'
      exact ⟨chain, sorted⟩
    · cases done.unique done'
      exact ⟨_, sorted'⟩

/-- The list as a reader of the heap sees it, and what the next call does to it. -/
structure Contract (s : State) (chain : List (Addr × Contact)) : Prop where
  head : s.head = chain.head?.map Prod.fst
  /-- Each node points to its two neighbours; the ends point to `NULL`. -/
  links : ∀ xs x ys, chain = xs ++ x :: ys →
    s.heap x.1 = some ⟨x.2, ys.head?.map Prod.fst, xs.getLast?.map Prod.fst⟩
  acyclic : (chain.map Prod.fst).Nodup
  live : ∀ a, (s.heap a).isSome ↔ a ∈ chain.map Prod.fst
  ordered : chain.Pairwise (fun x y => x.2.id ≤ y.2.id)
  insert : ∀ newNode con, s.heap newNode = none → Inserts s chain newNode con
  removeNode : ∀ id, Removes s chain id

/-- Histories of the linked contact book: every reachable heap is one list in id order,
and from there both calls come back without a fault, having added or taken out exactly
the one node they are about. -/
theorem contact_list_histories (path : Relation.ReflTransGen Step initial s) :
    ∃ chain, Contract s chain := by
  obtain ⟨chain, sorted⟩ :=
    reachable_invariant (fun s => ∃ chain, Sorted s chain) step_sorted path ⟨[], initial_sorted⟩
  exact ⟨chain, sorted.linked.head_eq, fun _ _ _ cut => sorted.linked.cell cut,
    sorted.linked.nodup, sorted.linked.live, sorted.ordered,
    fun _ con fresh => insert_inserts sorted fresh con, removeNode_removes sorted⟩

def blank (id : Int) : Contact :=
  ⟨id, Vector.replicate 20 0, Vector.replicate 20 0, Vector.replicate 20 0,
    ⟨Vector.replicate 20 0, Vector.replicate 20 0⟩⟩

/-- Three contacts added, and the one in the middle taken out. -/
theorem contact_list_histories_three :
    ∃ s, Relation.ReflTransGen Step initial s ∧ s.head = some 2 ∧ s.heap 1 = none ∧
      (s.heap 3).map Cell.prev = some (some 2) ∧ ∃ chain, Contract s chain := by
  have path : Relation.ReflTransGen Step initial ⟨_, _⟩ := (((Relation.ReflTransGen.single
    (.insert 1 (blank 5) rfl (.of_add 0 fun _ => rfl))).tail
    (.insert 2 (blank 3) rfl (.of_add 2 fun _ => rfl))).tail
    (.insert 3 (blank 8) rfl (.of_add 3 fun _ => rfl))).tail
    (.removeNode 5 (.of_add 3 fun _ => rfl))
  exact ⟨_, path, rfl, rfl, rfl, contact_list_histories path⟩

end Tasks.Contacts.LinkedList
