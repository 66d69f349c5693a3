import Tasks.Kit.Cells
import Mathlib.Data.List.Perm.Basic

/-! Module 2, Task 4.2: a priority queue in an array kept in order of falling priority. -/
namespace Tasks
open Kit Kit.Cells

structure PQElement where
  value : Int
  priority : Int
  deriving DecidableEq, Repr

/-- `elements` is `none` as long as the pointer has not been set to an array. -/
structure PriorityQueue where
  elements : Option (List PQElement)
  size : Int
  capacity : Int
  deriving DecidableEq, Repr

namespace PriorityQueue

def declared (size capacity : Int) : PriorityQueue := ⟨none, size, capacity⟩

/-- The address that `malloc` returns goes into `capacity`, which is set again. -/
def initQueue (pq : PriorityQueue) (capacity address : Int) : PriorityQueue :=
  let pq := { pq with capacity := address }
  let pq := { pq with size := 0 }
  { pq with capacity := capacity }

def array (pq : PriorityQueue) : Except Fault (List PQElement) :=
  match pq.elements with
  | some elements => .ok elements
  | none => .error .danglingPointer

def index (i : Int) : Except Fault Nat := if 0 ≤ i then .ok i.toNat else .error .outOfBounds

/-- The loop of `insert` from index `i` down: an element moves before those of lower priority. -/
def bubble (elements : List PQElement) : Nat → Except Fault (List PQElement)
  | 0 => .ok elements
  | i + 1 => do
    let x ← read elements (i + 1)
    let y ← read elements i
    if x.priority > y.priority then
      let elements ← write elements (i + 1) y
      let elements ← write elements i x
      bubble elements i
    else return elements

def insert (pq : PriorityQueue) (value priority : Int) : Except Fault PriorityQueue :=
  if pq.size ≥ pq.capacity then return pq
  else do
    let last ← index pq.size
    let elements ← write (← pq.array) last ⟨value, priority⟩
    let elements ← bubble elements last
    return { pq with elements := some elements, size := pq.size + 1 }

/-- The test for an empty queue is an assignment, whose value is zero. -/
def takeMax (pq : PriorityQueue) : Except Fault (PriorityQueue × PQElement) := do
  let pq := { pq with size := 0 }
  if pq.size ≠ 0 then return (pq, ⟨0, 0⟩)
  else
    let elements ← pq.array
    let max ← read elements 0
    let elements ← shift elements 0 (pq.size - 1).toNat
    return ({ pq with elements := some elements, size := pq.size - 1 }, max)

def placed (used : List PQElement) (x : PQElement) : List PQElement :=
  used.rdropWhile (fun y => x.priority > y.priority) ++
    x :: used.rtakeWhile fun y => x.priority > y.priority

section Insert

variable {pq : PriorityQueue} {used spare : List PQElement} {x : PQElement}

theorem placed_perm (used : List PQElement) (x : PQElement) : (placed used x).Perm (used ++ [x]) := by
  have whole := List.rdropWhile_append_rtakeWhile (p := fun y => x.priority > y.priority) (l := used)
  have moved : (placed used x).Perm (x :: (used.rdropWhile (fun y => x.priority > y.priority) ++
      used.rtakeWhile fun y => x.priority > y.priority)) := List.perm_middle
  rw [whole] at moved
  exact moved.trans (List.perm_append_singleton x used).symm

theorem bubble_placed (used : List PQElement) (x : PQElement) (spare : List PQElement) :
    bubble (used ++ x :: spare) used.length = .ok (placed used x ++ spare) := by
  induction used using List.reverseRecOn generalizing spare with
  | nil => rfl
  | append_singleton used y ih =>
    have first : read (used ++ y :: x :: spare) (used.length + 1) = .ok x := by
      simpa using read_append (used ++ [y]) x spare
    have moved : write (used ++ y :: x :: spare) (used.length + 1) y = .ok (used ++ y :: y :: spare) := by
      simpa using write_append (used ++ [y]) x y spare
    rw [List.append_assoc, List.singleton_append, List.length_append, List.length_singleton, bubble,
      first, ok_bind, read_append, ok_bind]
    by_cases higher : x.priority > y.priority
    · rw [if_pos higher, moved, ok_bind, write_append, ok_bind, ih]
      simp [placed, higher]
    · rw [if_neg higher]
      simp [placed, higher, pure, Except.pure]

theorem placed_length (used : List PQElement) (x : PQElement) :
    (placed used x).length = used.length + 1 := by
  simpa using (placed_perm used x).length_eq

/-- `insert` with capacity left and a cell behind the elements in use. -/
theorem insert_behind (used : List PQElement) (stale : PQElement) (spare : List PQElement)
    {capacity : Int} (room : used.length < capacity) (value priority : Int) :
    insert ⟨some (used ++ stale :: spare), used.length, capacity⟩ value priority =
      .ok ⟨some (placed used ⟨value, priority⟩ ++ spare), used.length + 1, capacity⟩ := by
  simp only [insert, if_neg (Int.not_le.mpr room), index, Int.natCast_nonneg, if_true, Int.toNat_natCast,
    ok_bind, array, write_append, bubble_placed]
  rfl

theorem insert_room (used : List PQElement) (stale : PQElement) (spare : List PQElement)
    (value priority : Int) :
    insert ⟨some (used ++ stale :: spare), used.length, (used ++ stale :: spare).length⟩ value
        priority =
      .ok ⟨some (placed used ⟨value, priority⟩ ++ spare), used.length + 1,
        (used ++ stale :: spare).length⟩ := by
  apply insert_behind
  simp only [List.length_append, List.length_cons]
  omega

theorem insert_full (full : pq.capacity ≤ pq.size) (value priority : Int) :
    pq.insert value priority = .ok pq := if_pos full

/-- What `takeMax` does to any queue with a non-empty array. -/
theorem takeMax_eq (first : PQElement) (rest : List PQElement) (size capacity : Int) :
    takeMax ⟨some (first :: rest), size, capacity⟩ =
      .ok (⟨some (first :: rest), -1, capacity⟩, first) := rfl

end Insert

section Runs

inductive Call where
  | insert (value priority : Int)
  | takeMax
  deriving DecidableEq, Repr

def step (pq : PriorityQueue) : Call → Except Fault (PriorityQueue × Option PQElement)
  | .insert value priority => do return (← pq.insert value priority, none)
  | .takeMax => do
    let (pq, max) ← pq.takeMax
    return (pq, some max)

def best (present : List PQElement) : Option PQElement :=
  present.find? fun e => present.all fun other => other.priority ≤ e.priority

/-- The queue as it is meant: the elements present in the order of their insertion. -/
def serve (capacity : Nat) (present : List PQElement) : Call → List PQElement × Option PQElement
  | .insert value priority =>
    if present.length < capacity then (present ++ [⟨value, priority⟩], none) else (present, none)
  | .takeMax => match best present with
    | some e => (present.erase e, some e)
    | none => (present, none)

def contents (pq : PriorityQueue) : List PQElement := (pq.elements.getD []).take pq.size.toNat

variable {capacity : Nat} {pq : PriorityQueue} {present : List PQElement} {calls : List Call}

structure Agrees (capacity : Nat) (pq : PriorityQueue) (present : List PQElement) : Prop where
  lower : 0 ≤ pq.size
  upper : pq.size ≤ capacity
  contents : pq.contents.Perm present

def Lawful (capacity : Nat) : PriorityQueue → List PQElement → List Call → Prop
  | pq, present, [] => Agrees capacity pq present
  | pq, present, call :: rest => Agrees capacity pq present ∧ ∃ next out,
      step pq call = .ok (next, out) ∧
      (∀ e, (serve capacity present call).2 = some e → out = some e) ∧
      (call = .takeMax → present = [] → next = pq) ∧
      Lawful capacity next (serve capacity present call).1 rest

theorem Lawful.agrees (lawful : Lawful capacity pq present calls) : Agrees capacity pq present := by
  cases calls with
  | nil => exact lawful
  | cons call rest => exact lawful.1

/-- No call can use the pointer that was never set. -/
theorem unset_lawful_iff (positive : 0 < capacity) (calls : List Call) :
    Lawful capacity ⟨none, 0, capacity⟩ [] calls ↔ calls = [] := by
  cases calls with
  | nil => exact ⟨fun _ => rfl, fun _ => ⟨Int.le_refl 0, Int.natCast_nonneg _, .refl _⟩⟩
  | cons call rest =>
    simp only [reduceCtorEq, iff_false]
    rintro ⟨_, next, out, done, _⟩
    cases call with
    | insert value priority =>
      have room : ¬ (0 : Int) ≥ capacity := by omega
      have refused : insert ⟨none, 0, capacity⟩ value priority = .error .danglingPointer := by
        rw [insert, if_neg room]
        rfl
      simp [step, refused] at done
    | takeMax => simp [step, takeMax, array] at done

/-- An insertion returns nothing, so only the queue after it matters. -/
theorem lawful_insert (agrees : Agrees capacity pq present)
    (done : pq.insert value priority = .ok next) (rest : List Call) :
    Lawful capacity pq present (.insert value priority :: rest) ↔
      Lawful capacity next (serve capacity present (.insert value priority)).1 rest := by
  have step : step pq (.insert value priority) = .ok (next, none) := by
    rw [PriorityQueue.step, done]
    rfl
  have silent : (serve capacity present (.insert value priority)).2 = none := by
    rw [serve]
    split <;> rfl
  constructor
  · rintro ⟨_, next', out, done', _, _, later⟩
    rw [step] at done'
    cases done'
    exact later
  · intro later
    exact ⟨agrees, next, none, step, by simp [silent], nofun, later⟩

theorem stored_agrees (used spare present : List PQElement) (same : used.Perm present) :
    Agrees (used ++ spare).length ⟨some (used ++ spare), used.length, (used ++ spare).length⟩
      present := by
  refine ⟨Int.natCast_nonneg _, ?_, by simpa [contents] using same⟩
  simp only [List.length_append]
  omega

/-- With an array behind the pointer the inserts are right, and no `takeMax` is. -/
theorem stored_lawful_iff (used spare present : List PQElement) (calls : List Call)
    (nonempty : used ++ spare ≠ []) (same : used.Perm present) :
    Lawful (used ++ spare).length ⟨some (used ++ spare), used.length, (used ++ spare).length⟩ present
      calls ↔ .takeMax ∉ calls := by
  induction calls generalizing used spare present with
  | nil => simpa [Lawful] using stored_agrees used spare present same
  | cons call rest ih =>
    have agrees := stored_agrees used spare present same
    cases call with
    | takeMax =>
      simp only [List.mem_cons, true_or, not_true, iff_false]
      rintro ⟨_, next, out, done, _, _, later⟩
      obtain ⟨first, others, shape⟩ := List.exists_cons_of_ne_nil nonempty
      have taken : next.size = -1 := by
        rw [shape, step, takeMax_eq] at done
        cases done
        rfl
      have lower := later.agrees.lower
      omega
    | insert value priority =>
      have other : Call.takeMax ∉ Call.insert value priority :: rest ↔ Call.takeMax ∉ rest := by simp
      rw [other]
      cases spare with
      | nil =>
        have full : (serve (used ++ []).length present (.insert value priority)).1 = present := by
          simp [serve, same.length_eq]
        rw [lawful_insert agrees (insert_full (by simp) value priority), full]
        exact ih used [] present nonempty same
      | cons stale spare =>
        have grown : (serve (used ++ stale :: spare).length present (.insert value priority)).1 =
            present ++ [⟨value, priority⟩] := by
          simp [serve, same.length_eq]
        have used_length : (used.length : Int) + 1 = (placed used ⟨value, priority⟩).length := by
          simp [placed_length]
        have whole : (used ++ stale :: spare).length =
            (placed used ⟨value, priority⟩ ++ spare).length := by
          simp [placed_length]
          omega
        rw [lawful_insert agrees (insert_room used stale spare value priority), grown, used_length,
          whole]
        exact ih _ spare _ (by simp [placed])
          ((placed_perm used _).trans (same.append_right [⟨value, priority⟩]))

/-- The pointer stays unset, so only the run without calls is right; were the address stored, the
runs without `takeMax` would be. -/
theorem lawful_initQueue_iff (size before address : Int) (cells : List PQElement) (calls : List Call)
    (positive : 0 < cells.length) :
    (Lawful cells.length (initQueue (declared size before) cells.length address) [] calls ↔
        calls = []) ∧
    (Lawful cells.length
        { initQueue (declared size before) cells.length address with elements := some cells } [] calls ↔
        .takeMax ∉ calls) :=
  ⟨unset_lawful_iff positive calls,
    stored_lawful_iff [] cells [] calls (List.ne_nil_of_length_pos positive) (.refl _)⟩

theorem lawful_initQueue_two :
    ¬ Lawful 2 (initQueue (declared 0 0) 2 4096) [] [.insert 20 16, .insert 72 20] ∧
      Lawful 2 { initQueue (declared 0 0) 2 4096 with elements := some [⟨0, 0⟩, ⟨0, 0⟩] } []
        [.insert 20 16, .insert 72 20] := by
  have both := lawful_initQueue_iff 0 0 4096 [⟨0, 0⟩, ⟨0, 0⟩] [.insert 20 16, .insert 72 20] (by decide)
  exact ⟨fun lawful => absurd (both.1.1 lawful) (by decide), both.2.2 (by decide)⟩

/-- The first `insert` uses the unset pointer. -/
theorem initQueue_leaves_pointer :
    step (initQueue (declared 0 0) 10 4096) (.insert 20 16) = .error .danglingPointer ∧
      ¬ Lawful 10 (initQueue (declared 0 0) 10 4096) [] [.insert 20 16] := by
  refine ⟨rfl, ?_⟩
  rintro ⟨_, next, out, done, _⟩
  cases done

end Runs

section Order

variable {pq : PriorityQueue} {used spare : List PQElement} {x : PQElement}

def Falling (elements : List PQElement) : Prop := elements.Pairwise fun y z => z.priority ≤ y.priority

/-- An array with cells for the capacity, and the elements in use in order of falling priority. -/
structure Sorted (pq : PriorityQueue) : Prop where
  room : ∃ cells, pq.elements = some cells ∧ pq.capacity ≤ cells.length
  lower : 0 ≤ pq.size
  falling : Falling pq.contents

structure Inserted (pq next : PriorityQueue) (x : PQElement) (before after : List PQElement) : Prop where
  size : next.size = pq.size + 1
  capacity : next.capacity = pq.capacity
  entries : next.contents.length = next.size
  old : pq.contents = before ++ after
  contents : next.contents = before ++ x :: after
  above : ∀ y ∈ before, x.priority ≤ y.priority
  below : ∀ y ∈ after, y.priority < x.priority

/-- The search from the end stops at an element of at least the priority, so all before it have that. -/
theorem before_high (falling : Falling used) (x : PQElement) :
    ∀ y ∈ used.rdropWhile (fun y => x.priority > y.priority), x.priority ≤ y.priority := by
  induction used using List.reverseRecOn with
  | nil => nofun
  | append_singleton used z ih =>
    obtain ⟨front, _, last⟩ := List.pairwise_append.mp falling
    by_cases higher : x.priority > z.priority
    · simpa [higher] using ih front
    · have least : x.priority ≤ z.priority := Int.not_lt.mp higher
      have stops : (used ++ [z]).rdropWhile (fun y => x.priority > y.priority) = used ++ [z] := by
        simp [higher]
      rw [stops]
      intro y member
      rcases List.mem_append.mp member with inside | same
      · exact Int.le_trans least (last y inside z List.mem_cons_self)
      · rw [List.mem_singleton.mp same]
        exact least

theorem after_low (used : List PQElement) (x : PQElement) :
    ∀ y ∈ used.rtakeWhile (fun y => x.priority > y.priority), y.priority < x.priority := by
  intro y member
  exact of_decide_eq_true (List.mem_rtakeWhile_imp (p := fun y : PQElement => x.priority > y.priority) member)

theorem placed_falling (falling : Falling used) (x : PQElement) : Falling (placed used x) := by
  have whole := List.rdropWhile_append_rtakeWhile (p := fun y => x.priority > y.priority) (l := used)
  rw [Falling, ← whole] at falling
  obtain ⟨front, back, across⟩ := List.pairwise_append.mp falling
  have high := before_high (whole ▸ falling) x
  have low := after_low used x
  apply List.pairwise_append.mpr
  refine ⟨front, List.pairwise_cons.mpr ⟨fun y member => Int.le_of_lt (low y member), back⟩, ?_⟩
  intro y before z member
  rcases List.mem_cons.mp member with rfl | after
  · exact high y before
  · exact across y before z after

theorem contents_used (used spare : List PQElement) (capacity : Int) :
    contents ⟨some (used ++ spare), used.length, capacity⟩ = used := by
  simp [contents]

theorem Sorted.behind (sorted : Sorted pq) (room : pq.size < pq.capacity) :
    ∃ used stale spare, pq = ⟨some (used ++ stale :: spare), used.length, pq.capacity⟩ := by
  obtain ⟨elements, size, capacity⟩ := pq
  obtain ⟨⟨cells, rfl, cellsRoom⟩, lower, _⟩ := sorted
  simp only at room cellsRoom lower
  obtain ⟨n, rfl⟩ := Int.eq_ofNat_of_zero_le lower
  have inside : n < cells.length := by omega
  have cut : cells.take n ++ cells[n] :: cells.drop (n + 1) = cells := by
    rw [← List.drop_eq_getElem_cons inside, List.take_append_drop]
  have count : (cells.take n).length = n := List.length_take_of_le (Nat.le_of_lt inside)
  refine ⟨cells.take n, cells[n], cells.drop (n + 1), ?_⟩
  rw [cut, count]

theorem insert_inserted (used : List PQElement) (stale : PQElement) (spare : List PQElement) {capacity : Int}
    (x : PQElement) (room : used.length < capacity)
    (sorted : Sorted ⟨some (used ++ stale :: spare), used.length, capacity⟩) :
    ∃ next before after, insert ⟨some (used ++ stale :: spare), used.length, capacity⟩ x.value x.priority = .ok next ∧
      Sorted next ∧ Inserted ⟨some (used ++ stale :: spare), used.length, capacity⟩ next x before after := by
  have length := placed_length used x
  have grown : (used.length : Int) + 1 = (placed used x).length := by omega
  have falling := sorted.falling
  have done := insert_behind used stale spare room x.value x.priority
  rw [contents_used] at falling
  rw [grown] at done
  refine ⟨_, used.rdropWhile fun y => x.priority > y.priority, used.rtakeWhile fun y => x.priority > y.priority,
    done, ?_, ?_⟩
  · refine ⟨⟨_, rfl, ?_⟩, Int.natCast_nonneg _, ?_⟩
    · obtain ⟨_, same, cellsRoom⟩ := sorted.room
      rw [← Option.some.inj same] at cellsRoom
      simp only [List.length_append, List.length_cons, length] at cellsRoom ⊢
      omega
    · rw [contents_used]
      exact placed_falling falling x
  · constructor
    · exact grown.symm
    · rfl
    · rw [contents_used]
    · rw [contents_used, List.rdropWhile_append_rtakeWhile]
    · rw [contents_used, placed]
    · exact before_high falling x
    · exact after_low used x

/-- `insert` puts an element after all of at least its priority and before the others, and refuses it
when the queue is full. -/
theorem insert_in_order (pq : PriorityQueue) (value priority : Int) (sorted : Sorted pq) :
    (pq.size < pq.capacity → ∃ next before after, pq.insert value priority = .ok next ∧ Sorted next ∧
      Inserted pq next ⟨value, priority⟩ before after) ∧
    (pq.capacity ≤ pq.size → pq.insert value priority = .ok pq) := by
  refine ⟨fun room => ?_, fun full => insert_full full value priority⟩
  obtain ⟨used, stale, spare, shape⟩ := sorted.behind room
  generalize pq.capacity = capacity at shape room
  subst shape
  exact insert_inserted used stale spare ⟨value, priority⟩ room sorted

/-- Among equal priorities the new element comes last. -/
theorem insert_in_order_equal :
    ∃ next before after, insert ⟨some [⟨1, 5⟩, ⟨2, 3⟩, ⟨3, 1⟩, ⟨0, 0⟩], 3, 4⟩ 4 3 = .ok next ∧ Sorted next ∧
      Inserted ⟨some [⟨1, 5⟩, ⟨2, 3⟩, ⟨3, 1⟩, ⟨0, 0⟩], 3, 4⟩ next ⟨4, 3⟩ before after := by
  have sorted : Sorted ⟨some [⟨1, 5⟩, ⟨2, 3⟩, ⟨3, 1⟩, ⟨0, 0⟩], 3, 4⟩ :=
    ⟨⟨_, rfl, by decide⟩, by decide, by simp [Falling, contents]⟩
  exact (insert_in_order _ 4 3 sorted).1 (by decide)

end Order
end PriorityQueue
end Tasks
