import Tasks.Kit.Run
import Mathlib.Logic.Function.Basic
import Mathlib.Data.List.Nodup

/-! A heap of doubly linked cells with faulting access, and the lists threaded through it.
Addresses are reused freely: a dead address is just one without a cell. -/
namespace Tasks.Kit

abbrev Addr := Nat

/-- `NULL` is `none`. -/
abbrev Ptr := Option Addr

structure Cell (β : Type) where
  value : β
  next : Ptr
  prev : Ptr
  deriving DecidableEq, Repr

abbrev Heap (β : Type) := Addr → Option (Cell β)

namespace Heap

variable {β : Type} {heap heap' : Heap β}

def store (heap : Heap β) (a : Addr) (cell : Cell β) : Heap β := Function.update heap a (some cell)

@[simp] theorem store_same (heap : Heap β) (a : Addr) (cell : Cell β) :
    heap.store a cell a = some cell := by simp [store]

@[simp] theorem store_other (cell : Cell β) (h : b ≠ a) : heap.store a cell b = heap b := by
  simp [store, h]

@[simp] theorem store_store (heap : Heap β) (a : Addr) (cell cell' : Cell β) :
    (heap.store a cell).store a cell' = heap.store a cell' := by simp [store]

/-- Reading through a pointer: `NULL` and freed addresses fault. -/
def load (heap : Heap β) : Ptr → Except Fault (Cell β)
  | none => .error .nullDereference
  | some a => match heap a with
    | none => .error .danglingPointer
    | some cell => .ok cell

def modify (heap : Heap β) (p : Ptr) (change : Cell β → Cell β) : Except Fault (Heap β) :=
  match p with
  | none => .error .nullDereference
  | some a => do return heap.store a (change (← heap.load (some a)))

def setNext (heap : Heap β) (p next : Ptr) : Except Fault (Heap β) :=
  heap.modify p fun cell => { cell with next }

def setPrev (heap : Heap β) (p prev : Ptr) : Except Fault (Heap β) :=
  heap.modify p fun cell => { cell with prev }

def setValue (heap : Heap β) (p : Ptr) (value : β) : Except Fault (Heap β) :=
  heap.modify p fun cell => { cell with value }

/-- `if (p != NULL) p->next = next` -/
def setNextGuarded (heap : Heap β) (p next : Ptr) : Except Fault (Heap β) :=
  if p ≠ none then heap.setNext p next else .ok heap

/-- `if (p != NULL) p->prev = prev` -/
def setPrevGuarded (heap : Heap β) (p prev : Ptr) : Except Fault (Heap β) :=
  if p ≠ none then heap.setPrev p prev else .ok heap

/-- `free`: a second free of the same cell faults. -/
def free (heap : Heap β) : Ptr → Except Fault (Heap β)
  | none => .ok heap
  | some a => match heap a with
    | none => .error .danglingPointer
    | some _ => .ok (Function.update heap a none)

theorem load_ok (h : heap a = some cell) : heap.load (some a) = .ok cell := by simp [load, h]

theorem setNext_ok (h : heap a = some cell) (next : Ptr) :
    heap.setNext (some a) next = .ok (heap.store a { cell with next }) := by
  simp only [setNext, modify, load_ok h]
  rfl

theorem setPrev_ok (h : heap a = some cell) (prev : Ptr) :
    heap.setPrev (some a) prev = .ok (heap.store a { cell with prev }) := by
  simp only [setPrev, modify, load_ok h]
  rfl

theorem setValue_ok (h : heap a = some cell) (value : β) :
    heap.setValue (some a) value = .ok (heap.store a { cell with value }) := by
  simp only [setValue, modify, load_ok h]
  rfl

theorem free_ok (h : heap a = some cell) :
    heap.free (some a) = .ok (Function.update heap a none) := by simp [free, h]

/-- The cells `xs`, met from `first` in `next` order and linked back by `prev`. The cell in
front of them is `before`, the pointer out of them `after`, the cell in front of that `last`. -/
def Segment (heap : Heap β) : Ptr → Ptr → List (Addr × β) → Ptr → Ptr → Prop
  | before, first, [], last, after => first = after ∧ last = before
  | before, first, (a, value) :: xs, last, after =>
    first = some a ∧ ∃ next, heap a = some ⟨value, next, before⟩ ∧
      Segment heap (some a) next xs last after

theorem segment_append {xs ys : List (Addr × β)} :
    Segment heap before first (xs ++ ys) last after ↔
      ∃ middle seam, Segment heap before first xs middle seam ∧
        Segment heap middle seam ys last after := by
  induction xs generalizing before first with
  | nil => simp [Segment]
  | cons x xs ih =>
    simp only [List.cons_append, Segment, ih]
    constructor
    · rintro ⟨rfl, next, cell, middle, seam, left, right⟩
      exact ⟨middle, seam, ⟨rfl, next, cell, left⟩, right⟩
    · rintro ⟨middle, seam, ⟨rfl, next, cell, left⟩, right⟩
      exact ⟨rfl, next, cell, middle, seam, left, right⟩

theorem Segment.frame {xs : List (Addr × β)} (seg : Segment heap before first xs last after)
    (same : ∀ a ∈ xs.map Prod.fst, heap' a = heap a) : Segment heap' before first xs last after := by
  induction xs generalizing before first with
  | nil => exact seg
  | cons x xs ih =>
    obtain ⟨rfl, next, cell, rest⟩ := seg
    exact ⟨rfl, next, (same x.1 (by simp)).trans cell,
      ih rest fun a member => same a (by simp [member])⟩

theorem Segment.frame_store {xs : List (Addr × β)}
    (seg : Segment heap before first xs last after) (cell : Cell β) (apart : a ∉ xs.map Prod.fst) :
    Segment (heap.store a cell) before first xs last after :=
  seg.frame fun _ member => store_other cell (ne_of_mem_of_not_mem member apart)

theorem Segment.live {xs : List (Addr × β)} (seg : Segment heap before first xs last after)
    (member : a ∈ xs.map Prod.fst) : (heap a).isSome := by
  induction xs generalizing before first with
  | nil => simp at member
  | cons x xs ih =>
    obtain ⟨rfl, next, cell, rest⟩ := seg
    rcases List.mem_cons.mp member with rfl | member
    · simp [cell]
    · exact ih rest member

/-- Turning the pointer out of a nonempty segment. -/
theorem Segment.setNext {xs : List (Addr × β)}
    (seg : Segment heap before first (xs ++ [(a, value)]) last after)
    (apart : a ∉ xs.map Prod.fst) (target : Ptr) :
    last = some a ∧ ∃ heap', heap.setNext (some a) target = .ok heap' ∧
      (∀ b, b ≠ a → heap' b = heap b) ∧
      Segment heap' before first (xs ++ [(a, value)]) last target := by
  obtain ⟨middle, seam, left, rfl, next, cell, rfl, rfl⟩ := segment_append.mp seg
  refine ⟨rfl, _, setNext_ok cell target, fun b other => store_other _ other, ?_⟩
  exact segment_append.mpr ⟨middle, some a, left.frame_store _ apart, rfl, target, by simp, rfl, rfl⟩

/-- Changing which cell a nonempty segment is linked back to. -/
theorem Segment.setPrev {xs : List (Addr × β)}
    (seg : Segment heap before first ((a, value) :: xs) last after)
    (apart : a ∉ xs.map Prod.fst) (target : Ptr) :
    first = some a ∧ ∃ heap', heap.setPrev (some a) target = .ok heap' ∧
      (∀ b, b ≠ a → heap' b = heap b) ∧
      Segment heap' target first ((a, value) :: xs) last after := by
  obtain ⟨rfl, next, cell, rest⟩ := seg
  refine ⟨rfl, _, setPrev_ok cell target, fun b other => store_other _ other, ?_⟩
  exact ⟨rfl, next, by simp, rest.frame_store _ apart⟩

/-- Linking what may be an empty rest of a list back to another cell. -/
theorem Segment.setPrevGuarded {xs : List (Addr × β)}
    (seg : Segment heap before first xs last none) (nodup : (xs.map Prod.fst).Nodup) (target : Ptr) :
    ∃ heap' last', heap.setPrevGuarded first target = .ok heap' ∧
      (∀ b ∉ xs.map Prod.fst, heap' b = heap b) ∧ Segment heap' target first xs last' none := by
  cases xs with
  | nil => exact ⟨heap, target, by simp [Heap.setPrevGuarded, seg.1], fun _ _ => rfl, seg.1, rfl⟩
  | cons x xs =>
    obtain ⟨rfl, heap', set, other, linked⟩ := seg.setPrev (List.nodup_cons.mp nodup).1 target
    refine ⟨heap', last, set, fun b absent => other b fun same => ?_, linked⟩
    exact absent (by simp [same])

/-- The loop `while (p != NULL && !stop(p)) p = p->next`. -/
def walk (heap : Heap β) (stop : β → Bool) : Nat → Ptr → Except Fault Ptr
  | 0, _ => .error .outOfFuel
  | _, none => .ok none
  | fuel + 1, some a => do
    let cell ← heap.load (some a)
    if stop cell.value then return some a else heap.walk stop fuel cell.next

/-- The loop `while (p->next != NULL) p = p->next`. -/
def walkToLast (heap : Heap β) : Nat → Ptr → Except Fault Ptr
  | 0, _ => .error .outOfFuel
  | fuel + 1, p => do
    let cell ← heap.load p
    if cell.next = none then return p else heap.walkToLast fuel cell.next

/-- A walk cuts the list in front of the first cell it may stop at. -/
theorem Segment.walk {xs : List (Addr × β)} (seg : Segment heap before first xs last none)
    (stop : β → Bool) :
    ∃ ys zs middle seam, xs = ys ++ zs ∧
      (∀ fuel, xs.length < fuel → heap.walk stop fuel first = .ok seam) ∧
      Segment heap before first ys middle seam ∧ Segment heap middle seam zs last none ∧
      (∀ y ∈ ys, stop y.2 = false) ∧ ∀ z ∈ zs.head?, stop z.2 = true := by
  induction xs generalizing before first with
  | nil =>
    obtain ⟨rfl, rfl⟩ := seg
    refine ⟨[], [], last, none, rfl, ?_, ⟨rfl, rfl⟩, ⟨rfl, rfl⟩, by simp, by simp⟩
    intro fuel enough
    cases fuel with
    | zero => simp at enough
    | succ fuel => rfl
  | cons x xs ih =>
    obtain ⟨rfl, next, cell, rest⟩ := seg
    by_cases halt : stop x.2 = true
    · refine ⟨[], x :: xs, before, some x.1, rfl, ?_, ⟨rfl, rfl⟩, ⟨rfl, next, cell, rest⟩,
        by simp, by simpa using halt⟩
      intro fuel enough
      cases fuel with
      | zero => simp at enough
      | succ fuel =>
        simp only [Heap.walk, load_ok cell, ok_bind, if_pos halt]
        rfl
    · obtain ⟨ys, zs, middle, seam, rfl, walked, left, right, passed, stopped⟩ := ih rest
      refine ⟨x :: ys, zs, middle, seam, rfl, ?_, ⟨rfl, next, cell, left⟩, right, ?_, stopped⟩
      · intro fuel enough
        cases fuel with
        | zero => simp at enough
        | succ fuel =>
          have covered : (ys ++ zs).length < fuel := by simpa using enough
          simpa only [Heap.walk, load_ok cell, ok_bind, if_neg halt] using walked fuel covered
      · simpa using ⟨Bool.eq_false_iff.mpr halt, fun a b member => passed (a, b) member⟩

/-- A walk ends at a cell that it may stop at if it passes all before it. -/
theorem Segment.walk_to {xs ys : List (Addr × β)}
    (seg : Segment heap before first (xs ++ (a, value) :: ys) last after)
    (passed : ∀ x ∈ xs, stop x.2 = false) (stopped : stop value = true) (enough : xs.length < fuel) :
    heap.walk stop fuel first = .ok (some a) := by
  induction xs generalizing before first fuel with
  | nil =>
    obtain ⟨rfl, next, cell, rest⟩ := seg
    obtain ⟨fuel, rfl⟩ := Nat.exists_eq_succ_of_ne_zero (Nat.ne_of_gt enough)
    simp only [Heap.walk, load_ok cell, ok_bind, if_pos stopped]
    rfl
  | cons x xs ih =>
    obtain ⟨rfl, next, cell, rest⟩ := seg
    obtain ⟨fuel, rfl⟩ := Nat.exists_eq_succ_of_ne_zero (Nat.ne_of_gt (Nat.zero_lt_of_lt enough))
    have on : ¬ stop x.2 = true := Bool.eq_false_iff.mp (passed x List.mem_cons_self)
    simp only [Heap.walk, load_ok cell, ok_bind, if_neg on]
    exact ih rest (fun y member => passed y (List.mem_cons_of_mem x member)) (Nat.lt_of_succ_lt_succ enough)

theorem Segment.walkToLast {xs : List (Addr × β)} (seg : Segment heap before first xs last none)
    (nonempty : xs ≠ []) (enough : xs.length < fuel) : heap.walkToLast fuel first = .ok last := by
  induction xs generalizing before first fuel with
  | nil => exact absurd rfl nonempty
  | cons x xs ih =>
    obtain ⟨rfl, next, cell, rest⟩ := seg
    obtain ⟨fuel, rfl⟩ := Nat.exists_eq_succ_of_ne_zero (Nat.ne_of_gt (Nat.zero_lt_of_lt enough))
    simp only [Heap.walkToLast, load_ok cell, ok_bind]
    cases xs with
    | nil =>
      obtain ⟨rfl, rfl⟩ := rest
      rfl
    | cons y ys =>
      obtain ⟨rfl, _⟩ := id rest
      simpa using ih rest (by simp) (by simpa using enough)

/-- A cell between two segments joins them. -/
theorem Segment.splice {xs ys : List (Addr × β)}
    (left : Segment heap before first xs middle (some a))
    (cell : heap a = some ⟨value, seam, middle⟩)
    (right : Segment heap (some a) seam ys last after) :
    Segment heap before first (xs ++ (a, value) :: ys) last after :=
  segment_append.mpr ⟨middle, some a, left, rfl, seam, cell, right⟩

theorem Segment.first_ne_null {xs : List (Addr × β)}
    (seg : Segment heap before first xs last after) (nonempty : xs ≠ []) : first ≠ none := by
  cases xs with
  | nil => exact absurd rfl nonempty
  | cons x xs => simp [seg.1]

theorem Segment.nil_iff {xs : List (Addr × β)} (seg : Segment heap before first xs last none) :
    xs = [] ↔ first = none := by
  cases xs with
  | nil => simp [seg.1]
  | cons x xs => simp [seg.1]

theorem Segment.start_iff {xs ys : List (Addr × β)}
    (left : Segment heap before first xs middle seam) (right : Segment heap middle seam ys last none)
    (nodup : ((xs ++ ys).map Prod.fst).Nodup) (nonempty : first ≠ none) :
    seam = first ↔ xs = [] := by
  constructor
  · intro same
    cases xs with
    | nil => rfl
    | cons x xs =>
      cases ys with
      | nil => exact absurd (same ▸ right.1) nonempty
      | cons y ys =>
        have repeated : x.1 = y.1 := Option.some.inj (left.1.symm.trans (same.symm.trans right.1))
        simp [repeated] at nodup
  · rintro rfl
    exact left.1.symm

/-- The heap is exactly one list of the given cells, starting at `head`. -/
structure Linked (heap : Heap β) (head : Ptr) (chain : List (Addr × β)) : Prop where
  segment : ∃ last, Segment heap none head chain last none
  nodup : (chain.map Prod.fst).Nodup
  live : ∀ a, (heap a).isSome ↔ a ∈ chain.map Prod.fst

theorem Linked.of_segment {chain : List (Addr × β)} (seg : Segment heap none head chain last none)
    (nodup : (chain.map Prod.fst).Nodup) (dead : ∀ a ∉ chain.map Prod.fst, heap a = none) :
    Linked heap head chain := by
  refine ⟨⟨last, seg⟩, nodup, fun a => ⟨fun alive => ?_, seg.live⟩⟩
  by_contra absent
  simp [dead a absent] at alive

theorem Linked.dead {chain : List (Addr × β)} (linked : Linked heap head chain)
    (absent : a ∉ chain.map Prod.fst) : heap a = none := by
  have h := (linked.live a).not.mpr absent
  simpa using h

theorem Linked.fresh {chain : List (Addr × β)} (linked : Linked heap head chain)
    (free : heap a = none) : a ∉ chain.map Prod.fst := by
  rw [← linked.live, free]
  simp

theorem Segment.first_eq {xs : List (Addr × β)} (seg : Segment heap before first xs last none) :
    first = xs.head?.map Prod.fst := by
  cases xs with
  | nil => exact seg.1
  | cons x xs => exact seg.1

theorem Segment.last_eq {xs : List (Addr × β)} (seg : Segment heap none first xs last after) :
    last = xs.getLast?.map Prod.fst := by
  rcases List.eq_nil_or_concat xs with rfl | ⟨xs, x, rfl⟩
  · exact seg.2
  · rw [List.concat_eq_append] at *
    obtain ⟨_, _, _, _, _, _, _, same⟩ := segment_append.mp seg
    simpa using same

theorem Linked.head_eq {chain : List (Addr × β)} (linked : Linked heap head chain) :
    head = chain.head?.map Prod.fst :=
  linked.segment.elim fun _ seg => seg.first_eq

theorem Linked.cell {chain : List (Addr × β)} (linked : Linked heap head chain)
    (cut : chain = xs ++ x :: ys) :
    heap x.1 = some ⟨x.2, ys.head?.map Prod.fst, xs.getLast?.map Prod.fst⟩ := by
  obtain ⟨last, seg⟩ := linked.segment
  subst cut
  obtain ⟨middle, seam, left, _, next, cell, right⟩ := segment_append.mp seg
  rw [cell, left.last_eq, right.first_eq]

/-- A new value in one cell leaves the list and every other cell as they are. -/
theorem Linked.setValue {xs ys : List (Addr × β)} (linked : Linked heap head (xs ++ (a, value) :: ys))
    (value' : β) :
    ∃ next prev, heap a = some ⟨value, next, prev⟩ ∧
      heap.setValue (some a) value' = .ok (heap.store a ⟨value', next, prev⟩) ∧
      Linked (heap.store a ⟨value', next, prev⟩) head (xs ++ (a, value') :: ys) := by
  obtain ⟨last, seg⟩ := linked.segment
  obtain ⟨middle, seam, left, rfl, next, cell, right⟩ := segment_append.mp seg
  have nodup := linked.nodup
  rw [List.map_append, List.map_cons, List.nodup_middle, List.nodup_cons, List.mem_append, not_or] at nodup
  obtain ⟨⟨apartXs, apartYs⟩, _⟩ := nodup
  have new : heap.store a ⟨value', next, middle⟩ a = some ⟨value', next, middle⟩ := store_same ..
  have joined := (left.frame_store _ apartXs).splice new (right.frame_store _ apartYs)
  refine ⟨next, middle, cell, setValue_ok cell value', .of_segment joined ?_ fun b absent => ?_⟩
  · simpa using linked.nodup
  · have apart : b ∉ (xs ++ (a, value) :: ys).map Prod.fst := by simpa using absent
    have other : b ≠ a := by
      rintro rfl
      simp at apart
    rw [store_other _ other, linked.dead apart]

end Heap
end Tasks.Kit
