import Tasks.Kit.Cells
import Mathlib.Algebra.Group.Int.Defs
import Mathlib.Data.List.Range

/-! Module 3, Tasks 12 and 13: random numbers in a shared segment, with their minimum and maximum
behind them. The functions of the two programs are the same. -/
namespace Tasks.Numbers.MinMax

open Kit Kit.Cells

/-- `shm_ptr[i]` -/
def get (shm : List Int) (i : Int) : Except Fault Int :=
  if 0 ≤ i then read shm i.toNat else .error .outOfBounds

def set (shm : List Int) (i : Int) (number : Int) : Except Fault (List Int) :=
  if 0 ≤ i then write shm i.toNat number else .error .outOfBounds

/-- `n` turns of the loop of `generateNumbers` from `i` on; `calls` is how often `rand` was called. -/
def fill (rand : Nat → Nat) (shm : List Int) (calls : Nat) (i : Int) :
    Nat → Except Fault (List Int × Nat)
  | 0 => .ok (shm, calls)
  | n + 1 => do
    let shm ← set shm i (rand calls % 20 : Nat)
    fill rand shm (calls + 1) (i + 1) n

/-- The loop ends in front of `count`. -/
def generateNumbers (rand : Nat → Nat) (shm : List Int) (calls : Nat) (count : Int) :
    Except Fault (List Int × Nat) := do
  let shm ← set shm 0 count
  fill rand shm calls 1 (count - 1).toNat

/-- `n` turns of the loop of `findMinMax` from `i` on. -/
def scan (shm : List Int) (min max : Int) (i : Int) : Nat → Except Fault (Int × Int)
  | 0 => .ok (min, max)
  | n + 1 => do
    let x ← get shm i
    scan shm (if x < min then x else min) (if x > max then x else max) (i + 1) n

/-- The loop ends behind `count`. -/
def findMinMax (shm : List Int) : Except Fault (List Int) := do
  let count ← get shm 0
  let first ← get shm 1
  let (min, max) ← scan shm first first 2 (count - 1).toNat
  set (← set shm (count + 1) min) (count + 2) max

def results (rand : Nat → Nat) (shm : List Int) (calls : Nat) (count : Int) :
    Except Fault (Nat × Int × Int) := do
  let (shm, calls') ← generateNumbers rand shm calls count
  let shm ← findMinMax shm
  return (calls' - calls, ← get shm (count + 1), ← get shm (count + 2))

def fresh (rand : Nat → Nat) (calls n : Nat) : List Int :=
  (List.range' calls n).map fun call => (rand call % 20 : Nat)

def OfFresh (rand : Nat → Nat) (shm : List Int) (calls : Nat) (count : Int) (n : Nat) : Prop :=
  ∃ min max, results rand shm calls count = .ok (n, min, max) ∧
    (fresh rand calls n).min? = some min ∧ (fresh rand calls n).max? = some max

def Between (numbers : List Int) (x : Int) : Prop := (∃ y ∈ numbers, y ≤ x) ∧ ∃ y ∈ numbers, x ≤ y

/-- `min` and `max` are the extremes of cells 1 to `count`; they are in the two cells behind those, and
every other cell is as before. -/
structure Extremes (shm shm' : List Int) (count min max : Int) : Prop where
  least : ∃ i, 1 ≤ i ∧ i ≤ count ∧ get shm i = .ok min
  greatest : ∃ i, 1 ≤ i ∧ i ≤ count ∧ get shm i = .ok max
  bounds : ∀ i x, 1 ≤ i → i ≤ count → get shm i = .ok x → min ≤ x ∧ x ≤ max
  storedMin : get shm' (count + 1) = .ok min
  storedMax : get shm' (count + 2) = .ok max
  others : ∀ i, i ≠ count + 1 → i ≠ count + 2 → get shm' i = get shm i

section Loops

variable {rand : Nat → Nat} {shm before used spare : List Int} {calls : Nat} {count : Int}

theorem get_append (before : List Int) (x : Int) (after : List Int) :
    get (before ++ x :: after) before.length = .ok x := by
  simp [get]

theorem set_append (before : List Int) (x : Int) (after : List Int) (y : Int) :
    set (before ++ x :: after) before.length y = .ok (before ++ y :: after) := by
  simp [set]

theorem get_second (before : List Int) (x y : Int) (after : List Int) :
    get (before ++ x :: y :: after) (before.length + 1) = .ok y := by
  simpa using get_append (before ++ [x]) y after

theorem set_second (before : List Int) (x y : Int) (after : List Int) (z : Int) :
    set (before ++ x :: y :: after) (before.length + 1) z = .ok (before ++ x :: z :: after) := by
  simpa using set_append (before ++ [x]) y after z

theorem get_others (before : List Int) (x y z w : Int) (after : List Int) {i : Int} (first : i ≠ before.length)
    (second : i ≠ before.length + 1) : get (before ++ x :: y :: after) i = get (before ++ z :: w :: after) i := by
  unfold get
  split
  next nonneg =>
    suffices (before ++ x :: y :: after)[i.toNat]? = (before ++ z :: w :: after)[i.toNat]? by
      rw [Cells.read, Cells.read, this]
    rw [List.getElem?_append, List.getElem?_append]
    split
    · rfl
    · obtain ⟨n, behind⟩ : ∃ n, i.toNat - before.length = n + 2 := ⟨i.toNat - before.length - 2, by omega⟩
      rw [behind]
      rfl
  next => rfl

theorem fill_append (rand : Nat → Nat) (before old after : List Int) (calls : Nat) :
    fill rand (before ++ old ++ after) calls before.length old.length =
      .ok (before ++ fresh rand calls old.length ++ after, calls + old.length) := by
  induction old generalizing before calls with
  | nil => simp [fill, fresh]
  | cons x old ih =>
    have later := ih (before ++ [((rand calls % 20 : Nat) : Int)]) (calls + 1)
    simp only [List.append_assoc, List.cons_append, List.nil_append, List.length_append,
      List.length_singleton, Int.natCast_add, Int.natCast_one] at later
    simp only [List.length_cons, List.append_assoc, List.cons_append, fill, set_append, ok_bind,
      later, fresh, List.range'_succ, List.map_cons, Nat.add_assoc, Nat.add_comm 1]

/-- The two tests of the loop are a minimum and a maximum. -/
theorem scan_append (before used after : List Int) (low high : Int) :
    scan (before ++ used ++ after) low high before.length used.length =
      .ok (used.foldl min low, used.foldl max high) := by
  induction used generalizing before low high with
  | nil => rfl
  | cons x used ih =>
    have smaller : (if x < low then x else low) = min low x := by omega
    have greater : (if x > high then x else high) = max high x := by omega
    have later := ih (before ++ [x]) (min low x) (max high x)
    simp only [List.append_assoc, List.cons_append, List.nil_append, List.length_append,
      List.length_singleton, Int.natCast_add, Int.natCast_one] at later
    simp only [List.length_cons, List.append_assoc, List.cons_append, scan, get_append, ok_bind,
      smaller, greater, later, List.foldl_cons]

/-- The cells of a segment with room for a count, its numbers and the results. -/
theorem split_numbers (positive : 1 ≤ count) (room : count + 3 ≤ shm.length) :
    ∃ head x more a b rest, shm = head :: x :: more ++ a :: b :: rest ∧ (more.length : Int) + 1 = count := by
  obtain ⟨n, rfl⟩ : ∃ n : Nat, count = n + 1 := ⟨(count - 1).toNat, by omega⟩
  cases shm with
  | nil =>
    simp only [List.length_nil] at room
    omega
  | cons head cells =>
    simp only [List.length_cons] at room
    have front : (cells.take (n + 1)).length = n + 1 := List.length_take_of_le (by omega)
    have back : 2 ≤ (cells.drop (n + 1)).length := by
      rw [List.length_drop]
      omega
    have whole := List.take_append_drop (n + 1) cells
    match cells.take (n + 1), front, cells.drop (n + 1), back, whole with
    | x :: more, front, a :: b :: rest, _, whole =>
      have counted : more.length = n := Nat.succ_inj.mp front
      exact ⟨head, x, more, a, b, rest, congrArg _ whole.symm, by rw [counted]⟩

/-- The last of the cells that count as numbers is one behind those that are generated. -/
theorem split_segment (two : 2 ≤ count) (room : count + 3 ≤ shm.length) :
    ∃ head old stale a b rest, shm = head :: (old ++ stale :: a :: b :: rest) ∧ old ≠ [] ∧
      (old.length : Int) + 1 = count ∧ get shm count = .ok stale := by
  obtain ⟨head, x, more, a, b, rest, rfl, counted⟩ := split_numbers (Int.le_trans (by decide) two) room
  rcases List.eq_nil_or_concat more with rfl | ⟨old, stale, rfl⟩
  · simp only [List.length_nil] at counted
    omega
  · rw [List.concat_eq_append] at *
    rw [List.length_append, List.length_singleton] at counted
    have counted : ((x :: old).length : Int) + 1 = count := by simpa using counted
    have found := get_append (head :: x :: old) stale (a :: b :: rest)
    rw [List.length_cons, Int.natCast_succ, counted] at found
    exact ⟨head, x :: old, stale, a, b, rest, by simp, List.cons_ne_nil x old, counted, by simpa using found⟩

theorem generateNumbers_eq (rand : Nat → Nat) (calls : Nat) (head : Int) (old after : List Int) :
    generateNumbers rand (head :: (old ++ after)) calls (old.length + 1) =
      .ok (((old.length : Int) + 1) :: (fresh rand calls old.length ++ after), calls + old.length) := by
  have counted := set_append [] head (old ++ after) (old.length + 1)
  have filled := fill_append rand [(old.length : Int) + 1] old after calls
  have turns : ((old.length : Int) + 1 - 1).toNat = old.length := by omega
  rw [generateNumbers, turns]
  simp only [List.nil_append, List.length_nil, Int.natCast_zero] at counted
  simp only [List.cons_append, List.nil_append, List.length_singleton, Int.natCast_one] at filled
  rw [counted, ok_bind, filled]

theorem before_length (x : Int) {more : List Int} (counted : (more.length : Int) + 1 = count) :
    ((count :: x :: more).length : Int) = count + 1 := by
  simp only [List.length_cons]
  omega

theorem findMinMax_eq (x a b : Int) (more rest : List Int) (counted : (more.length : Int) + 1 = count) :
    findMinMax (count :: x :: more ++ a :: b :: rest) =
      .ok (count :: x :: more ++ more.foldl min x :: more.foldl max x :: rest) := by
  have first : get (count :: x :: more ++ a :: b :: rest) 0 = .ok count := get_append [] count _
  have second : get (count :: x :: more ++ a :: b :: rest) 1 = .ok x := get_append [count] x _
  have turns : (count - 1).toNat = more.length := by omega
  have scanned : scan (count :: x :: more ++ a :: b :: rest) x x 2 more.length =
      .ok (more.foldl min x, more.foldl max x) := scan_append [count, x] more (a :: b :: rest) x x
  have behind := before_length x counted
  have lower := set_append (count :: x :: more) a (b :: rest) (more.foldl min x)
  have upper := set_second (count :: x :: more) (more.foldl min x) b rest (more.foldl max x)
  rw [behind] at lower
  rw [behind, Int.add_assoc] at upper
  simp only [findMinMax, first, second, ok_bind, turns, scanned, lower]
  exact upper

theorem get_ok_iff (i x : Int) : get shm i = .ok x ↔ 0 ≤ i ∧ shm[i.toNat]? = some x := by
  unfold get Cells.read
  split
  next inside =>
    rw [and_iff_right inside]
    split
    next y found => rw [found, Except.ok.injEq, Option.some.injEq]
    next missing => exact iff_of_false nofun fun found => nomatch missing.symm.trans found
  next outside => exact iff_of_false nofun fun found => outside found.1

/-- The cells behind the count, by their indices. -/
theorem mem_numbers_iff (head : Int) (numbers after : List Int) (x : Int) :
    x ∈ numbers ↔ ∃ i, 1 ≤ i ∧ i ≤ (numbers.length : Int) ∧ get (head :: numbers ++ after) i = .ok x := by
  have cell (n : Nat) (inside : n < numbers.length) : (head :: numbers ++ after)[n + 1]? = some numbers[n] := by
    rw [List.cons_append, List.getElem?_cons_succ, List.getElem?_append_left inside,
      List.getElem?_eq_getElem inside]
  constructor
  · intro member
    obtain ⟨n, inside, rfl⟩ := List.mem_iff_getElem.mp member
    refine ⟨n + 1, by omega, by omega, (get_ok_iff _ _).mpr ⟨by omega, ?_⟩⟩
    exact cell n inside
  · rintro ⟨i, low, high, found⟩
    obtain ⟨n, rfl⟩ : ∃ n : Nat, i = n + 1 := ⟨(i - 1).toNat, by omega⟩
    have inside : n < numbers.length := by omega
    have here := ((get_ok_iff _ _).mp found).2
    rw [Int.toNat_natCast_add_one, cell n inside] at here
    cases here
    exact List.getElem_mem inside

/-- Whatever the segment holds, the results are the extremes of the cells that the count names. -/
theorem findMinMax_extremes (shm : List Int) (count : Int) (positive : 1 ≤ count)
    (room : count + 3 ≤ shm.length) (counted : get shm 0 = .ok count) :
    ∃ shm' min max, findMinMax shm = .ok shm' ∧ Extremes shm shm' count min max := by
  obtain ⟨head, x, more, a, b, rest, rfl, length⟩ := split_numbers positive room
  cases (get_append [] head (x :: more ++ a :: b :: rest)).symm.trans counted
  have least : (x :: more).min? = some (more.foldl min x) := rfl
  have greatest : (x :: more).max? = some (more.foldl max x) := rfl
  obtain ⟨lowest, below⟩ := List.min?_eq_some_iff.mp least
  obtain ⟨highest, above⟩ := List.max?_eq_some_iff.mp greatest
  have numbers := mem_numbers_iff count (x :: more) (a :: b :: rest)
  have counts : ((x :: more).length : Int) = count := length
  simp only [counts] at numbers
  refine ⟨_, more.foldl min x, more.foldl max x, findMinMax_eq x a b more rest length, ?_⟩
  have behind := before_length x length
  have lower := get_append (count :: x :: more) (more.foldl min x) (more.foldl max x :: rest)
  have upper := get_second (count :: x :: more) (more.foldl min x) (more.foldl max x) rest
  rw [behind] at lower
  rw [behind, Int.add_assoc] at upper
  refine ⟨(numbers _).mp lowest, (numbers _).mp highest, ?_, lower, upper, ?_⟩
  · intro i y low high found
    have inside := (numbers y).mpr ⟨i, low, high, found⟩
    exact ⟨below y inside, above y inside⟩
  · intro i first second
    rw [← behind] at first
    have second : i ≠ (count :: x :: more).length + 1 := by
      rw [behind]
      omega
    exact get_others (count :: x :: more) _ _ a b rest first second

theorem findMinMax_extremes_three :
    ∃ shm' min max, findMinMax [3, 4, 9, 2, 0, 0] = .ok shm' ∧ Extremes [3, 4, 9, 2, 0, 0] shm' 3 min max :=
  findMinMax_extremes [3, 4, 9, 2, 0, 0] 3 (by decide) (by decide) rfl

/-- A round has the stale cell behind its numbers among the numbers. -/
theorem results_eq (rand : Nat → Nat) (calls : Nat) (head stale a b : Int) (old rest : List Int)
    (nonempty : old ≠ []) :
    ∃ low high, (fresh rand calls old.length).min? = some low ∧
      (fresh rand calls old.length).max? = some high ∧
      results rand (head :: (old ++ stale :: a :: b :: rest)) calls (old.length + 1) =
        .ok (old.length, min low stale, max high stale) := by
  have length : (fresh rand calls old.length).length = old.length := by simp [fresh]
  have generated := generateNumbers_eq rand calls head old (stale :: a :: b :: rest)
  cases shape : fresh rand calls old.length with
  | nil =>
    rw [shape] at length
    exact absurd (List.length_eq_zero_iff.mp length.symm) nonempty
  | cons x tail =>
    rw [shape] at length generated
    have counted : ((tail ++ [stale]).length : Int) + 1 = old.length + 1 := by
      simp only [List.length_cons] at length
      rw [List.length_append, List.length_singleton, length]
    have found := findMinMax_eq x a b (tail ++ [stale]) rest counted
    rw [List.foldl_append, List.foldl_append, List.foldl_cons, List.foldl_cons, List.foldl_nil,
      List.foldl_nil] at found
    have behind := before_length x counted
    have lower :=
      get_append (((old.length : Int) + 1) :: x :: (tail ++ [stale])) (min (tail.foldl min x) stale)
      (max (tail.foldl max x) stale :: rest)
    have upper :=
      get_second (((old.length : Int) + 1) :: x :: (tail ++ [stale])) (min (tail.foldl min x) stale)
      (max (tail.foldl max x) stale) rest
    rw [behind] at lower
    rw [behind, Int.add_assoc] at upper
    simp only [List.cons_append, List.append_assoc, List.nil_append] at generated found lower upper
    refine ⟨tail.foldl min x, tail.foldl max x, rfl, rfl, ?_⟩
    have sum : (old.length : Int) + 1 + 2 = old.length + 1 + (1 + 1) := rfl
    simp only [results, generated, ok_bind, found, lower, sum, upper, Nat.add_sub_cancel_left]
    rfl

theorem between_iff {numbers : List Int} (least : numbers.min? = some low)
    (greatest : numbers.max? = some high) (x : Int) : Between numbers x ↔ low ≤ x ∧ x ≤ high := by
  obtain ⟨lowest, below⟩ := List.min?_eq_some_iff.mp least
  obtain ⟨highest, above⟩ := List.max?_eq_some_iff.mp greatest
  constructor
  · rintro ⟨⟨y, inside, smaller⟩, z, inside', greater⟩
    exact ⟨Int.le_trans (below y inside) smaller, Int.le_trans greater (above z inside')⟩
  · rintro ⟨smaller, greater⟩
    exact ⟨⟨low, lowest, smaller⟩, high, highest, greater⟩

/-- A round has one number less than its count, and what was in the cell behind them counts as
another. -/
theorem fresh_only_iff (rand : Nat → Nat) (calls : Nat) (shm shm' : List Int) (count : Int)
    (two : 2 ≤ count) (room : count + 3 ≤ shm.length) (room' : count + 3 ≤ shm'.length) :
    ¬ OfFresh rand shm calls count count.toNat ∧
      ∃ stale stale', get shm count = .ok stale ∧ get shm' count = .ok stale' ∧
        (OfFresh rand shm calls count (count.toNat - 1) ↔
          Between (fresh rand calls (count.toNat - 1)) stale) ∧
        (results rand shm calls count = results rand shm' calls count ↔
          stale = stale' ∨ Between (fresh rand calls (count.toNat - 1)) stale ∧
            Between (fresh rand calls (count.toNat - 1)) stale') := by
  obtain ⟨head, old, stale, a, b, rest, rfl, nonempty, counted, here⟩ := split_segment two room
  obtain ⟨head', old', stale', a', b', rest', rfl, nonempty', counted', here'⟩ := split_segment two room'
  have same : old'.length = old.length := by omega
  have generated : count.toNat - 1 = old.length := by omega
  obtain ⟨low, high, least, greatest, found⟩ := results_eq rand calls head stale a b old rest nonempty
  obtain ⟨low', high', least', greatest', found'⟩ :=
    results_eq rand calls head' stale' a' b' old' rest' nonempty'
  rw [same] at least' greatest' found'
  cases least.symm.trans least'
  cases greatest.symm.trans greatest'
  rw [counted] at found found'
  simp only [generated, found, found', between_iff least greatest]
  refine ⟨?_, stale, stale', here, here', ?_, ?_⟩
  · rintro ⟨_, _, all, _⟩
    rw [found] at all
    simp only [Except.ok.injEq, Prod.mk.injEq] at all
    omega
  · constructor
    · rintro ⟨_, _, all, smallest, largest⟩
      cases least.symm.trans smallest
      cases greatest.symm.trans largest
      rw [found] at all
      simp only [Except.ok.injEq, Prod.mk.injEq] at all
      omega
    · rintro ⟨above, below⟩
      rw [Int.min_eq_left above, Int.max_eq_left below] at found
      exact ⟨low, high, found, least, greatest⟩
  · simp only [Except.ok.injEq, Prod.mk.injEq, true_and]
    constructor
    · rintro ⟨lower, upper⟩
      omega
    · rintro (rfl | ⟨⟨above, below⟩, above', below'⟩)
      · exact ⟨rfl, rfl⟩
      · omega

theorem fresh_only_iff_pair :
    ¬ OfFresh (fun _ => 5) [0, 0, 0, 0, 0] 0 2 2 ∧
      ∃ stale stale', get [0, 0, 0, 0, 0] 2 = .ok stale ∧ get [0, 0, 9, 0, 0] 2 = .ok stale' ∧
        (OfFresh (fun _ => 5) [0, 0, 0, 0, 0] 0 2 1 ↔ Between (fresh (fun _ => 5) 0 1) stale) ∧
        (results (fun _ => 5) [0, 0, 0, 0, 0] 0 2 = results (fun _ => 5) [0, 0, 9, 0, 0] 0 2 ↔
          stale = stale' ∨ Between (fresh (fun _ => 5) 0 1) stale ∧
            Between (fresh (fun _ => 5) 0 1) stale') :=
  fresh_only_iff (fun _ => 5) 0 [0, 0, 0, 0, 0] [0, 0, 9, 0, 0] 2 (by decide) (by decide) (by decide)

/-- The only number is 5, and the cell behind it is 0 or 9. -/
theorem stale_number : ¬ ∀ (rand : Nat → Nat) (calls : Nat) (shm shm' : List Int) (count : Int),
    2 ≤ count → count + 3 ≤ shm.length → count + 3 ≤ shm'.length →
      OfFresh rand shm calls count count.toNat ∧
        results rand shm calls count = results rand shm' calls count := by
  intro law
  obtain ⟨_, same⟩ := law (fun _ => 5) 0 [0, 0, 0, 0, 0] [0, 0, 9, 0, 0] 2
    (by decide) (by decide) (by decide)
  have zero : results (fun _ => 5) [0, 0, 0, 0, 0] 0 2 = .ok (1, 0, 5) := rfl
  have nine : results (fun _ => 5) [0, 0, 9, 0, 0] 0 2 = .ok (1, 5, 9) := rfl
  rw [zero, nine] at same
  exact absurd same (by decide)

end Loops
end Tasks.Numbers.MinMax
