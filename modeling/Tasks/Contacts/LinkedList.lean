import Tasks.Contacts.Record
import Tasks.Kit.Heap

/-! Module 2, Task 4.1, with the same code in Tasks 6.1 and 6.2: the contact book kept in a
doubly linked list in id order. Loops take fuel; the specifications give a sufficient
amount. -/
namespace Tasks.Contacts.LinkedList

open Kit

abbrev Node := Cell Contact

/-- `malloc` returned the address `newNode`. -/
def createNode (heap : Heap Contact) (newNode : Addr) (con : Contact) : Heap Contact :=
  heap.store newNode ⟨con, none, none⟩

/-- The branch `current == *head`. -/
def linkFront (heap : Heap Contact) (head : Ptr) (newNode : Addr) :
    Except Fault (Heap Contact × Ptr) := do
  let heap ← heap.setNext (some newNode) head
  let heap ← heap.setPrev head (some newNode)
  return (heap, some newNode)

/-- The branch `current == NULL`, which looks for the last node again. -/
def linkLast (fuel : Nat) (heap : Heap Contact) (head : Ptr) (newNode : Addr) :
    Except Fault (Heap Contact × Ptr) := do
  let last ← heap.walkToLast fuel head
  let heap ← heap.setNext last (some newNode)
  let heap ← heap.setPrev (some newNode) last
  return (heap, head)

/-- The remaining branch: `current` has a predecessor. -/
def linkBefore (heap : Heap Contact) (head current : Ptr) (newNode : Addr) :
    Except Fault (Heap Contact × Ptr) := do
  let heap ← heap.setNext (some newNode) current
  let heap ← heap.setPrev (some newNode) (← heap.load current).prev
  let heap ← heap.setNext (← heap.load current).prev (some newNode)
  let heap ← heap.setPrev current (some newNode)
  return (heap, head)

def insert (fuel : Nat) (heap : Heap Contact) (head : Ptr) (newNode : Addr) (con : Contact) :
    Except Fault (Heap Contact × Ptr) := do
  let heap := createNode heap newNode con
  if head = none then return (heap, some newNode)
  let current ← heap.walk (fun c => !(c.id < con.id)) fuel head
  if current = head then linkFront heap head newNode
  else if current = none then linkLast fuel heap head newNode
  else linkBefore heap head current newNode

/-- Taking `current` out of the list, before it is freed. -/
def unlink (heap : Heap Contact) (head current : Ptr) : Except Fault (Heap Contact × Ptr) := do
  if current = head then
    let head := (← heap.load current).next
    return (← heap.setPrevGuarded head none, head)
  else
    let heap ← heap.setPrevGuarded (← heap.load current).next (← heap.load current).prev
    let heap ← heap.setNextGuarded (← heap.load current).prev (← heap.load current).next
    return (heap, head)

/-- `id` is the number read at the prompt; the last result is the report printed. -/
def removeNode (fuel : Nat) (heap : Heap Contact) (head : Ptr) (id : Int) :
    Except Fault (Heap Contact × Ptr × String) := do
  let current ← heap.walk (fun c => c.id = id) fuel head
  if current = none then return (heap, head, "Contact not found!\n")
  let (heap, head) ← unlink heap head current
  let heap ← heap.free current
  return (heap, head, "Contact deleted.\n")

section Linking

variable {heap : Heap Contact} {head current : Ptr} {newNode : Addr} {con : Contact}
  {ys zs : List (Addr × Contact)}

theorem linkFront_spec (seg : Heap.Segment heap none head (z :: zs) last none)
    (cell : heap newNode = some ⟨con, none, none⟩) (apart : newNode ∉ (z :: zs).map Prod.fst)
    (nodup : ((z :: zs).map Prod.fst).Nodup) :
    ∃ heap', linkFront heap head newNode = .ok (heap', some newNode) ∧
      Heap.Segment heap' none (some newNode) ((newNode, con) :: z :: zs) last none ∧
      ∀ b ∉ ((newNode, con) :: z :: zs).map Prod.fst, heap' b = heap b := by
  have framed := seg.frame_store ⟨con, head, none⟩ apart
  obtain ⟨first, heap', set, other, linked⟩ :=
    framed.setPrev (List.nodup_cons.mp nodup).1 (some newNode)
  subst first
  have new : newNode ≠ z.1 := fun same => apart (by simp [same])
  refine ⟨heap', ?_, ?_, ?_⟩
  · simp only [linkFront, Heap.setNext_ok cell, ok_bind, set]
    rfl
  · exact ⟨rfl, some z.1, by rw [other newNode new]; simp, linked⟩
  · intro b absent
    simp only [List.map_cons, List.mem_cons, not_or] at absent
    rw [other b absent.2.1, Heap.store_other _ absent.1]

theorem linkLast_spec (seg : Heap.Segment heap none head (ys ++ [y]) last none)
    (cell : heap newNode = some ⟨con, none, none⟩) (apart : newNode ∉ (ys ++ [y]).map Prod.fst)
    (nodup : ((ys ++ [y]).map Prod.fst).Nodup) :
    ∃ heap', (∀ fuel, (ys ++ [y]).length < fuel →
        linkLast fuel heap head newNode = .ok (heap', head)) ∧
      Heap.Segment heap' none head ((ys ++ [y]) ++ [(newNode, con)]) (some newNode) none ∧
      ∀ b ∉ ((ys ++ [y]) ++ [(newNode, con)]).map Prod.fst, heap' b = heap b := by
  have found (fuel : Nat) (enough : (ys ++ [y]).length < fuel) := seg.walkToLast (by simp) enough
  have alone : y.1 ∉ ys.map Prod.fst := by
    rw [List.map_append, List.nodup_append] at nodup
    exact fun member => nodup.2.2 _ member y.1 (by simp) rfl
  obtain ⟨rfl, heap', set, other, linked⟩ := seg.setNext alone (some newNode)
  have new : newNode ≠ y.1 := fun same => apart (by simp [same])
  have cell' : heap' newNode = some ⟨con, none, none⟩ := (other newNode new).trans cell
  refine ⟨heap'.store newNode ⟨con, none, some y.1⟩, ?_, ?_, ?_⟩
  · intro fuel enough
    simp only [linkLast, found fuel enough, ok_bind, set, Heap.setPrev_ok cell']
    rfl
  · exact (linked.frame_store _ apart).splice (by simp) ⟨rfl, rfl⟩
  · intro b absent
    simp only [List.map_append, List.map_cons, List.map_nil, List.mem_append, List.mem_singleton,
      not_or] at absent
    rw [Heap.store_other _ absent.2, other b absent.1.2]

theorem linkBefore_spec (left : Heap.Segment heap none head (ys ++ [y]) middle (some z.1))
    (right : Heap.Segment heap middle (some z.1) (z :: zs) last none)
    (cell : heap newNode = some ⟨con, none, none⟩)
    (apart : newNode ∉ ((ys ++ [y]) ++ z :: zs).map Prod.fst)
    (nodup : (((ys ++ [y]) ++ z :: zs).map Prod.fst).Nodup) :
    ∃ heap', linkBefore heap head (some z.1) newNode = .ok (heap', head) ∧
      Heap.Segment heap' none head ((ys ++ [y]) ++ (newNode, con) :: z :: zs) last none ∧
      ∀ b ∉ ((ys ++ [y]) ++ (newNode, con) :: z :: zs).map Prod.fst, heap' b = heap b := by
  simp only [List.map_append, List.map_cons, List.map_nil, List.mem_append, List.mem_cons,
    List.not_mem_nil, or_false, not_or] at apart
  obtain ⟨⟨apartYs, apartY⟩, apartZ, apartZs⟩ := apart
  have parts := nodup
  simp only [List.map_append, List.map_cons, List.map_nil, List.nodup_append, List.nodup_cons,
    List.mem_append, List.mem_cons, List.not_mem_nil, or_false] at parts
  obtain ⟨⟨_, _, aloneY⟩, ⟨aloneZ, _⟩, cross⟩ := parts
  have leftNew : (heap.store newNode ⟨con, some z.1, middle⟩).Segment none head (ys ++ [y])
      middle (some z.1) := left.frame_store _ (by simp [apartYs, apartY])
  have rightNew : (heap.store newNode ⟨con, some z.1, middle⟩).Segment middle (some z.1) (z :: zs)
      last none := right.frame_store _ (by simp [apartZ, apartZs])
  obtain ⟨_, nextZ, cellZ, _⟩ := right
  have readZ (new : Node) : (heap.store newNode new).load (some z.1) = .ok ⟨z.2, nextZ, middle⟩ :=
    Heap.load_ok ((Heap.store_other _ (Ne.symm apartZ)).trans cellZ)
  obtain ⟨rfl, heapL, setL, otherL, linkedL⟩ :=
    leftNew.setNext (fun member => aloneY _ member y.1 rfl rfl) (some newNode)
  have rightL : Heap.Segment heapL (some y.1) (some z.1) (z :: zs) last none := by
    apply rightNew.frame
    intro a member
    apply otherL
    exact fun same => cross y.1 (.inr rfl) a (by simpa using member) same.symm
  obtain ⟨_, heapR, setR, otherR, linkedR⟩ := rightL.setPrev aloneZ (some newNode)
  have leftR : Heap.Segment heapR none head (ys ++ [y]) (some y.1) (some newNode) := by
    apply linkedL.frame
    intro a member
    apply otherR
    exact fun same => cross a (by simpa using member) z.1 (.inl rfl) same
  have newR : heapR newNode = some ⟨con, some z.1, some y.1⟩ := by
    rw [otherR _ apartZ, otherL _ apartY]
    exact Heap.store_same ..
  refine ⟨heapR, ?_, leftR.splice newR linkedR, ?_⟩
  · simp only [linkBefore, Heap.setNext_ok cell, ok_bind, readZ,
      Heap.setPrev_ok (Heap.store_same ..), Heap.store_store, setL, setR]
    rfl
  · intro b absent
    simp only [List.map_append, List.map_cons, List.map_nil, List.mem_append, List.mem_cons,
      List.not_mem_nil, or_false, not_or] at absent
    rw [otherR b absent.2.2.1, otherL b absent.1.2]
    exact Heap.store_other _ absent.2.1

theorem linked_insert {chain : List (Addr × Contact)} (linked : Heap.Linked heap head chain)
    (apart : newNode ∉ chain.map Prod.fst) (cut : chain = ys ++ zs)
    (seg : Heap.Segment heap' none head' (ys ++ (newNode, con) :: zs) last none)
    (other : ∀ b ∉ (ys ++ (newNode, con) :: zs).map Prod.fst,
      heap' b = createNode heap newNode con b) :
    Heap.Linked heap' head' (ys ++ (newNode, con) :: zs) := by
  subst cut
  have nodup : ((ys ++ (newNode, con) :: zs).map Prod.fst).Nodup := by
    rw [List.map_append, List.map_cons, List.nodup_middle, ← List.map_append]
    exact List.nodup_cons.mpr ⟨apart, linked.nodup⟩
  apply Heap.Linked.of_segment seg nodup
  intro b absent
  rw [other b absent]
  simp only [List.map_append, List.map_cons, List.mem_append, List.mem_cons, not_or] at absent
  rw [createNode, Heap.store_other _ absent.2.1]
  exact linked.dead (by simp [absent.1, absent.2.2])

/-- What `insert` does to the list: the new node goes in front of the first node whose id is
not smaller, and with enough fuel nothing faults. -/
theorem insert_spec {chain : List (Addr × Contact)} (linked : Heap.Linked heap head chain)
    (fresh : heap newNode = none) (con : Contact) :
    ∃ heap' head' ys zs, (∀ fuel, chain.length < fuel →
        insert fuel heap head newNode con = .ok (heap', head')) ∧
      chain = ys ++ zs ∧ (∀ y ∈ ys, y.2.id < con.id) ∧ (∀ z ∈ zs.head?, con.id ≤ z.2.id) ∧
      Heap.Linked heap' head' (ys ++ (newNode, con) :: zs) := by
  have apart := linked.fresh fresh
  obtain ⟨last, seg⟩ := linked.segment
  have grown : (createNode heap newNode con).Segment none head chain last none :=
    seg.frame_store _ apart
  have cell : createNode heap newNode con newNode = some ⟨con, none, none⟩ := Heap.store_same ..
  by_cases empty : head = none
  · obtain rfl := seg.nil_iff.mpr empty
    refine ⟨createNode heap newNode con, some newNode, [], [], ?_, rfl, by simp, by simp,
      linked_insert linked apart rfl ⟨rfl, none, cell, rfl, rfl⟩ fun _ _ => rfl⟩
    intro fuel _
    simp only [insert, if_pos empty]
    rfl
  obtain ⟨ys, zs, middle, seam, cut, walked, left, right, passed, stopped⟩ :=
    grown.walk (fun c => !(c.id < con.id))
  have smaller : ∀ y ∈ ys, y.2.id < con.id := by simpa using passed
  have larger : ∀ z ∈ zs.head?, con.id ≤ z.2.id := by simpa using stopped
  have nodup : ((ys ++ zs).map Prod.fst).Nodup := cut ▸ linked.nodup
  have unfolded (fuel : Nat) (enough : chain.length < fuel) :
      insert fuel heap head newNode con =
        if ys = [] then linkFront (createNode heap newNode con) head newNode
        else if seam = none then linkLast fuel (createNode heap newNode con) head newNode
        else linkBefore (createNode heap newNode con) head seam newNode := by
    simp only [insert, if_neg empty, walked fuel enough, ok_bind, left.start_iff right nodup empty]
  rcases List.eq_nil_or_concat ys with rfl | ⟨ys, y, rfl⟩
  · cases zs with
    | nil => exact absurd (seg.nil_iff.mp (by simpa using cut)) empty
    | cons z zs =>
      obtain rfl : chain = z :: zs := cut
      obtain ⟨heap', done, seg', other⟩ := linkFront_spec grown cell apart linked.nodup
      refine ⟨heap', some newNode, [], z :: zs, fun fuel enough => ?_, rfl, smaller, larger,
        linked_insert linked apart rfl seg' other⟩
      rw [unfolded fuel enough, if_pos rfl, done]
  · rw [List.concat_eq_append] at *
    cases zs with
    | nil =>
      obtain rfl : chain = ys ++ [y] := by simpa using cut
      obtain ⟨heap', done, seg', other⟩ := linkLast_spec grown cell apart linked.nodup
      refine ⟨heap', head, ys ++ [y], [], fun fuel enough => ?_, by simp, smaller, larger,
        linked_insert linked apart (by simp) seg' other⟩
      rw [unfolded fuel enough, if_neg (by simp), if_pos right.1, done fuel enough]
    | cons z zs =>
      obtain rfl : seam = some z.1 := right.1
      obtain ⟨heap', done, seg', other⟩ := linkBefore_spec left right cell (cut ▸ apart) nodup
      refine ⟨heap', head, ys ++ [y], z :: zs, fun fuel enough => ?_, cut, smaller, larger,
        linked_insert linked apart cut seg' other⟩
      rw [unfolded fuel enough, if_neg (by simp), if_neg nofun, done]

/-- Unlinking a node in any position leaves its two sides joined. -/
theorem unlink_spec {a : Addr} (left : Heap.Segment heap none head ys middle (some a))
    (cell : heap a = some ⟨con, seam, middle⟩) (right : Heap.Segment heap (some a) seam zs last none)
    (nodup : ((ys ++ (a, con) :: zs).map Prod.fst).Nodup) :
    ∃ heap' head' last', unlink heap head (some a) = .ok (heap', head') ∧ heap' a = heap a ∧
      Heap.Segment heap' none head' (ys ++ zs) last' none ∧
      ∀ b ∉ (ys ++ zs).map Prod.fst, heap' b = heap b := by
  have parts := nodup
  rw [List.map_append, List.map_cons, List.nodup_middle, List.nodup_cons, List.mem_append,
    not_or, List.nodup_append] at parts
  obtain ⟨⟨apartYs, apartZs⟩, nodupYs, nodupZs, cross⟩ := parts
  have read := Heap.load_ok cell
  rcases List.eq_nil_or_concat ys with rfl | ⟨ys, y, rfl⟩
  · obtain ⟨rfl, rfl⟩ := left
    obtain ⟨heap', last', set, other, linked⟩ := right.setPrevGuarded nodupZs none
    refine ⟨heap', seam, last', ?_, other a apartZs, linked, other⟩
    simp only [unlink, if_pos, read, ok_bind, set]
    rfl
  · rw [List.concat_eq_append] at *
    have inner : ¬ some a = head := by
      have rest : Heap.Segment heap middle (some a) ((a, con) :: zs) last none :=
        ⟨rfl, seam, cell, right⟩
      rw [left.start_iff rest nodup (left.first_ne_null (by simp))]
      simp
    obtain ⟨heapR, last', setR, otherR, linkedR⟩ := right.setPrevGuarded nodupZs middle
    have readR : heapR.load (some a) = .ok ⟨con, seam, middle⟩ :=
      Heap.load_ok ((otherR a apartZs).trans cell)
    have leftR : Heap.Segment heapR none head (ys ++ [y]) middle (some a) :=
      left.frame fun b member => otherR b fun also => cross b member b also rfl
    have aloneY : y.1 ∉ ys.map Prod.fst := by
      rw [List.map_append, List.nodup_append] at nodupYs
      exact fun member => nodupYs.2.2 _ member y.1 (by simp) rfl
    obtain ⟨rfl, heapL, setL, otherL, linkedL⟩ := leftR.setNext aloneY seam
    have rightL : Heap.Segment heapL (some y.1) seam zs last' none :=
      linkedR.frame fun b member => otherL b fun same => cross y.1 (by simp) b member same.symm
    refine ⟨heapL, head, last', ?_, ?_, Heap.segment_append.mpr ⟨_, _, linkedL, rightL⟩, ?_⟩
    · have setL' : heapR.setNextGuarded (some y.1) seam = .ok heapL := setL
      simp only [unlink, if_neg inner, read, ok_bind, setR, readR, setL']
      rfl
    · rw [otherL a fun same => apartYs (by simp [same]), otherR a apartZs]
    · intro b absent
      simp only [List.map_append, List.mem_append, List.map_cons, List.map_nil, List.mem_singleton,
        not_or] at absent
      rw [otherL b absent.1.2, otherR b absent.2]

/-- `removeNode` takes out the first node with the id and frees it, or reports that there
is none; with enough fuel nothing faults. -/
theorem removeNode_spec {chain : List (Addr × Contact)} (linked : Heap.Linked heap head chain)
    (id : Int) :
    ((∀ x ∈ chain, x.2.id ≠ id) ∧ ∀ fuel, chain.length < fuel →
      removeNode fuel heap head id = .ok (heap, head, "Contact not found!\n")) ∨
    ∃ heap' head' ys node zs, (∀ fuel, chain.length < fuel →
        removeNode fuel heap head id = .ok (heap', head', "Contact deleted.\n")) ∧
      chain = ys ++ node :: zs ∧ node.2.id = id ∧ (∀ y ∈ ys, y.2.id ≠ id) ∧
      Heap.Linked heap' head' (ys ++ zs) := by
  obtain ⟨last, seg⟩ := linked.segment
  obtain ⟨ys, zs, middle, seam, rfl, walked, left, right, passed, stopped⟩ :=
    seg.walk (fun c => c.id = id)
  have other : ∀ y ∈ ys, y.2.id ≠ id := by simpa using passed
  cases zs with
  | nil =>
    left
    refine ⟨by simpa using passed, fun fuel enough => ?_⟩
    simp only [removeNode, walked fuel enough, ok_bind, if_pos right.1]
    rfl
  | cons node zs =>
    right
    obtain ⟨rfl, next, cell, rest⟩ := right
    obtain ⟨unlinked, head', last', done, kept, joined, frame⟩ :=
      unlink_spec left cell rest linked.nodup
    have nodup := linked.nodup
    rw [List.map_append, List.map_cons, List.nodup_middle, ← List.map_append,
      List.nodup_cons] at nodup
    refine ⟨Function.update unlinked node.1 none, head', ys, node, zs, ?_, rfl,
      by simpa using stopped, other, ?_⟩
    · intro fuel enough
      simp only [removeNode, walked fuel enough, ok_bind, reduceCtorEq, if_false, done,
        Heap.free_ok (kept.trans cell)]
      rfl
    · apply Heap.Linked.of_segment
      · exact joined.frame fun b member =>
          Function.update_of_ne (ne_of_mem_of_not_mem member nodup.1) _ _
      · exact nodup.2
      · intro b absent
        by_cases same : b = node.1
        · simp [same]
        · rw [Function.update_of_ne same, frame b absent]
          apply linked.dead
          simp only [List.map_append, List.mem_append, not_or] at absent
          simp [absent.1, absent.2, same]

end Linking

end Tasks.Contacts.LinkedList
