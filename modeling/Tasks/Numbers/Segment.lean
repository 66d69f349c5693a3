import Tasks.Kit.Parallel
import Tasks.Numbers.MinMax

/-! Module 3, Tasks 12 and 13: parents and children on one segment, access by access. Nothing keeps them
apart; a segment that is left over from a run is the next one's, so any number of runs may be on it. -/
namespace Tasks.Numbers.MinMax

open Kit

/-- Where a process is, with the local variables that are still needed. The tests of a loop come with the
access in front of which they are made. -/
inductive Point where
  /-- The parent in front of the test of `stopFlag`. -/
  | generating
  /-- In front of `shm_ptr[0] = count` in `generateNumbers`. -/
  | counting (count : Int)
  | filling (count i : Int)
  | printing (count i : Int)
  /-- Behind the `sleep`, in front of the two results. -/
  | sleeping (count : Int)
  | printingMax (count min : Int)
  /-- The child in front of the test of `stopFlag`. -/
  | scanning
  | first (count : Int)
  | second (count min : Int)
  | comparingMin (count min max i : Int)
  | lowering (count min max i : Int)
  | comparingMax (count min max i : Int)
  | raising (count min max i : Int)
  | storing (count min max : Int)
  | storingMax (count max : Int)
  | done
  deriving DecidableEq, Repr

structure Process where
  point : Point
  stopFlag : Bool
  /-- What was read from the segment and printed. -/
  printed : List Int
  processedCount : Int
  deriving DecidableEq, Repr

inductive Action where
  | sigint
  /-- The next access; `rand` is what the function returns if it is called. -/
  | move (rand : Nat)
  deriving DecidableEq, Repr

def Action.moves : Action → Bool
  | .sigint => false
  | .move _ => true

def Process.to (p : Process) (point : Point) : Process := { p with point }

def Process.move (p : Process) (rand : Nat) (shm : List Int) : Except Fault (Process × List Int) :=
  match p.point with
  | .generating => .ok (p.to (if p.stopFlag then .done else .counting (2 + rand % 5 : Nat)), shm)
  | .counting count => do
    let shm ← set shm 0 count
    return (p.to (.filling count 1), shm)
  | .filling count i =>
    if i < count then do
      let shm ← set shm i (rand % 20 : Nat)
      return (p.to (.filling count (i + 1)), shm)
    else .ok (p.to (.printing count 1), shm)
  | .printing count i =>
    if i ≤ count then do
      let x ← get shm i
      return ({ p with point := .printing count (i + 1), printed := p.printed ++ [x] }, shm)
    else .ok (p.to (.sleeping count), shm)
  | .sleeping count => do
    let min ← get shm (count + 1)
    return (p.to (.printingMax count min), shm)
  | .printingMax count min => do
    let max ← get shm (count + 2)
    return ({ p with
      point := .generating
      printed := p.printed ++ [min, max]
      processedCount := p.processedCount + 1 }, shm)
  | .scanning =>
    if p.stopFlag then .ok (p.to .done, shm)
    else do
      let count ← get shm 0
      return (p.to (.first count), shm)
  | .first count => do
    let min ← get shm 1
    return (p.to (.second count min), shm)
  | .second count min => do
    let max ← get shm 1
    return (p.to (.comparingMin count min max 2), shm)
  | .comparingMin count min max i =>
    if i ≤ count then do
      let x ← get shm i
      return (p.to (if x < min then .lowering count min max i else .comparingMax count min max i), shm)
    else .ok (p.to (.storing count min max), shm)
  | .lowering count _ max i => do
    let min ← get shm i
    return (p.to (.comparingMax count min max i), shm)
  | .comparingMax count min max i => do
    let x ← get shm i
    return (p.to (if x > max then .raising count min max i else .comparingMin count min max (i + 1)), shm)
  | .raising count min _ i => do
    let max ← get shm i
    return (p.to (.comparingMin count min max (i + 1)), shm)
  | .storing count min max => do
    let shm ← set shm (count + 1) min
    return (p.to (.storingMax count max), shm)
  | .storingMax count max => do
    let shm ← set shm (count + 2) max
    return (p.to .scanning, shm)
  | .done => .ok (p, shm)

/-- `sigintHandler` may run between any two accesses. -/
def Process.turn (p : Process) (action : Action) (shm : List Int) : Except Fault (Process × List Int) :=
  match action with
  | .sigint => .ok ({ p with stopFlag := true }, shm)
  | .move rand => p.move rand shm

/-- Parents and children on a new segment of `n` cells. -/
def start (n : Nat) (parent : ι → Bool) : Parallel ι (List Int) Process :=
  ⟨List.replicate n 0, fun i => ⟨if parent i then .generating else .scanning, false, [], 0⟩⟩

def Count (x : Int) : Prop := x = 0 ∨ 2 ≤ x ∧ x ≤ 6

def Small (x : Int) : Prop := 0 ≤ x ∧ x < 20

structure Cells (n : Nat) (shm : List Int) : Prop where
  length : shm.length = n
  count : ∀ x, shm[0]? = some x → Count x
  small : ∀ i x, 1 ≤ i → shm[i]? = some x → Small x
  unused : ∀ i x, 9 ≤ i → shm[i]? = some x → x = 0

def Point.Fine : Point → Prop
  | .generating | .scanning | .done => True
  | .counting count | .sleeping count => 2 ≤ count ∧ count ≤ 6
  | .filling count i | .printing count i => 2 ≤ count ∧ count ≤ 6 ∧ 1 ≤ i
  | .printingMax count min => 2 ≤ count ∧ count ≤ 6 ∧ Small min
  | .first count => Count count
  | .second count min => Count count ∧ Small min
  | .comparingMin count min max i => Count count ∧ Small min ∧ Small max ∧ 2 ≤ i
  | .lowering count min max i | .comparingMax count min max i | .raising count min max i =>
    Count count ∧ Small min ∧ Small max ∧ 2 ≤ i ∧ i ≤ count
  | .storing count min max => Count count ∧ Small min ∧ Small max
  | .storingMax count max => Count count ∧ Small max

structure Process.Fine (p : Process) : Prop where
  point : p.point.Fine
  printed : ∀ x ∈ p.printed, Small x

def Point.left : Point → Nat
  | .done => 0
  | .generating | .scanning => 1
  | .printingMax .. | .storingMax .. => 2
  | .sleeping _ | .storing .. => 3
  | .printing count i => 4 + (count + 1 - i).toNat
  | .filling count i => 11 + (count - i).toNat
  | .counting _ => 17
  | .comparingMin count _ _ i => 4 + 4 * (count + 1 - i).toNat
  | .lowering count _ _ i => 3 + 4 * (count + 1 - i).toNat
  | .comparingMax count _ _ i => 2 + 4 * (count + 1 - i).toNat
  | .raising count _ _ i => 1 + 4 * (count + 1 - i).toNat
  | .second .. => 25
  | .first _ => 26

section Accesses

variable {n : Nat} {shm : List Int} {i x : Int}

theorem cells_get (nine : 9 ≤ n) (cells : Cells n shm) (low : 0 ≤ i) (high : i ≤ 8) :
    ∃ x, get shm i = .ok x ∧ (i = 0 → Count x) ∧ (1 ≤ i → Small x) := by
  have inside : i.toNat < shm.length := by
    rw [cells.length]
    omega
  have found := List.getElem?_eq_getElem inside
  refine ⟨_, (get_ok_iff i _).mpr ⟨low, found⟩, ?_, fun behind => cells.small i.toNat _ (by omega) found⟩
  rintro rfl
  exact cells.count _ found

theorem cells_number (nine : 9 ≤ n) (cells : Cells n shm) (low : 1 ≤ i) (high : i ≤ 8) :
    ∃ x, get shm i = .ok x ∧ Small x := by
  obtain ⟨x, found, _, small⟩ := cells_get nine cells (Int.le_trans (by decide) low) high
  exact ⟨x, found, small low⟩

theorem cells_set (nine : 9 ≤ n) (cells : Cells n shm) (low : 0 ≤ i) (high : i ≤ 8)
    (count : i = 0 → Count x) (small : 1 ≤ i → Small x) :
    ∃ shm', set shm i x = .ok shm' ∧ Cells n shm' := by
  have inside : i.toNat < shm.length := by
    rw [cells.length]
    omega
  refine ⟨shm.set i.toNat x, ?_, ?_⟩
  · simp only [set, low, if_true, Kit.Cells.write, inside]
  · refine ⟨by rw [List.length_set, cells.length], fun y found => ?_, fun j y behind found => ?_,
      fun j y beyond found => ?_⟩
    · rw [List.getElem?_set] at found
      split at found
      next here =>
        cases found
        exact count (by omega)
      next => exact cells.count y found
    · rw [List.getElem?_set] at found
      split at found
      next here =>
        cases found
        exact small (by omega)
      next => exact cells.small j y behind found
    · rw [List.getElem?_set_ne (by omega)] at found
      exact cells.unused j y beyond found

theorem cells_store (nine : 9 ≤ n) (cells : Cells n shm) (low : 1 ≤ i) (high : i ≤ 8) (small : Small x) :
    ∃ shm', set shm i x = .ok shm' ∧ Cells n shm' :=
  cells_set nine cells (Int.le_trans (by decide) low) high (by omega) fun _ => small

theorem count_le (count : Count x) : x ≤ 6 := by
  rcases count with rfl | ⟨_, high⟩
  · decide
  · exact high

theorem small_random (rand : Nat) : Small (rand % 20 : Nat) := by
  unfold Small
  omega

end Accesses

section Turns

variable {n : Nat} {shm shm' : List Int} {p p' : Process} {rand : Nat} {action : Action}

/-- What a move of a process does: it goes through, leaves the segment and the process in order, and brings
a process that has been interrupted nearer to its end. -/
structure Moved (n : Nat) (p p' : Process) (shm' : List Int) : Prop where
  fine : p'.Fine
  cells : Cells n shm'
  stopFlag : p'.stopFlag = p.stopFlag
  nearer : p.stopFlag = true → p'.point = .done ∨ p'.point.left < p.point.left
  stays : p.point = .done → p'.point = .done

theorem moved_to (fine : p.Fine) (cells : Cells n shm') {point : Point} (next : point.Fine)
    (nearer : p.stopFlag = true → point = .done ∨ point.left < p.point.left)
    (stays : p.point = .done → point = .done) : Moved n p (p.to point) shm' :=
  ⟨⟨next, fine.printed⟩, cells, rfl, nearer, stays⟩

theorem fine_snoc {printed : List Int} (fine : ∀ x ∈ printed, Small x) (small : Small x) :
    ∀ y ∈ printed ++ [x], Small y := by
  intro y member
  rcases List.mem_append.mp member with before | last
  · exact fine y before
  · rwa [List.mem_singleton.mp last]

def Moves (n : Nat) (p : Process) (next : Except Fault (Process × List Int)) : Prop :=
  ∃ p' shm', next = .ok (p', shm') ∧ Moved n p p' shm'

theorem moves_without (moved : Moved n p p' shm) : Moves n p (.ok (p', shm)) := ⟨p', shm, rfl, moved⟩

theorem moves_reading (nine : 9 ≤ n) (cells : Cells n shm) {i : Int} (low : 1 ≤ i) (high : i ≤ 8)
    {next : Int → Process} (moved : ∀ x, Small x → Moved n p (next x) shm) :
    Moves n p (do let x ← get shm i; return (next x, shm)) := by
  obtain ⟨x, found, small⟩ := cells_number nine cells low high
  exact ⟨next x, shm, by rw [found]; rfl, moved x small⟩

theorem moves_storing (nine : 9 ≤ n) (cells : Cells n shm) {i x : Int} (low : 1 ≤ i) (high : i ≤ 8)
    (small : Small x) (moved : ∀ shm', Cells n shm' → Moved n p p' shm') :
    Moves n p (do let shm ← set shm i x; return (p', shm)) := by
  obtain ⟨shm', stored, after⟩ := cells_store nine cells low high small
  exact ⟨p', shm', by rw [stored]; rfl, moved shm' after⟩

theorem generateNumbers_moves (nine : 9 ≤ n) (fine : p.Fine) (cells : Cells n shm) (rand : Nat) {count : Int}
    (here : p.point = .counting count ∨ ∃ i, p.point = .filling count i) : Moves n p (p.move rand shm) := by
  obtain ⟨point, stopFlag, printed, processedCount⟩ := p
  rcases here with rfl | ⟨i, rfl⟩
  · obtain ⟨low, high⟩ := fine.point
    obtain ⟨shm', stored, after⟩ := cells_set nine cells (Int.le_refl 0) (by decide) (x := count)
      (fun _ => .inr ⟨low, high⟩) (fun impossible => absurd impossible (by decide))
    refine ⟨_, shm', by simp only [Process.move, stored, ok_bind]; rfl, ?_⟩
    refine moved_to fine after ⟨low, high, Int.le_refl 1⟩ (fun _ => .inr ?_) nofun
    simp only [Point.left]
    omega
  · obtain ⟨low, high, from1⟩ := fine.point
    by_cases more : i < count
    · simp only [Process.move, more, if_true]
      refine moves_storing nine cells from1 (by omega) (small_random rand) fun shm' after => ?_
      refine moved_to fine after ⟨low, high, by omega⟩ (fun _ => .inr ?_) nofun
      simp only [Point.left]
      omega
    · simp only [Process.move, more, if_false]
      refine moves_without (moved_to fine cells ⟨low, high, Int.le_refl 1⟩ (fun _ => .inr ?_) nofun)
      simp only [Point.left]
      omega

/-- The parent behind `generateNumbers`. -/
theorem printing_moves (nine : 9 ≤ n) (fine : p.Fine) (cells : Cells n shm) (rand : Nat) {count : Int}
    (here : (∃ i, p.point = .printing count i) ∨ p.point = .sleeping count ∨
      ∃ min, p.point = .printingMax count min) : Moves n p (p.move rand shm) := by
  obtain ⟨point, stopFlag, printed, processedCount⟩ := p
  rcases here with ⟨i, rfl⟩ | rfl | ⟨min, rfl⟩
  · obtain ⟨low, high, from1⟩ := fine.point
    by_cases more : i ≤ count
    · simp only [Process.move, more, if_true]
      refine moves_reading nine cells from1 (by omega) fun x small => ?_
      refine ⟨⟨⟨low, high, by omega⟩, fine_snoc fine.printed small⟩, cells, rfl, fun _ => .inr ?_, nofun⟩
      simp only [Point.left]
      omega
    · simp only [Process.move, more, if_false]
      refine moves_without (moved_to fine cells ⟨low, high⟩ (fun _ => .inr ?_) nofun)
      simp only [Point.left]
      omega
  · obtain ⟨low, high⟩ := fine.point
    refine moves_reading nine cells (by omega) (by omega) fun x small => ?_
    exact moved_to fine cells ⟨low, high, small⟩ (fun _ => .inr (by simp [Point.left])) nofun
  · obtain ⟨low, high, least⟩ := fine.point
    refine moves_reading nine cells (by omega) (by omega) fun x small => ?_
    refine ⟨⟨trivial, ?_⟩, cells, rfl, fun _ => .inr (by simp [Point.left]), nofun⟩
    have both := fine_snoc (fine_snoc fine.printed least) small
    simpa using both

/-- The loop of `findMinMax`, in which every number is read again before it is kept. -/
theorem comparing_moves (nine : 9 ≤ n) (fine : p.Fine) (cells : Cells n shm) (rand : Nat)
    {count min max i : Int} (here : p.point = .comparingMin count min max i ∨
      p.point = .lowering count min max i ∨ p.point = .comparingMax count min max i ∨
      p.point = .raising count min max i) : Moves n p (p.move rand shm) := by
  obtain ⟨point, stopFlag, printed, processedCount⟩ := p
  rcases here with rfl | rfl | rfl | rfl
  · obtain ⟨counted, least, greatest, from2⟩ := fine.point
    have := count_le counted
    by_cases more : i ≤ count
    · simp only [Process.move, more, if_true]
      refine moves_reading nine cells (by omega) (by omega) fun x small => ?_
      refine moved_to fine cells ?_ (fun _ => .inr ?_) (by split <;> nofun)
      · split <;> exact ⟨counted, least, greatest, from2, more⟩
      · split <;> simp only [Point.left] <;> omega
    · simp only [Process.move, more, if_false]
      refine moves_without (moved_to fine cells ⟨counted, least, greatest⟩ (fun _ => .inr ?_) nofun)
      simp only [Point.left]
      omega
  all_goals
    obtain ⟨counted, least, greatest, from2, more⟩ := fine.point
    have := count_le counted
    refine moves_reading nine cells (by omega) (by omega) fun x small => ?_
  · refine moved_to fine cells ⟨counted, small, greatest, from2, more⟩ (fun _ => .inr ?_) nofun
    simp only [Point.left]
    omega
  · refine moved_to fine cells ?_ (fun _ => .inr ?_) (by split <;> nofun)
    · split
      · exact ⟨counted, least, greatest, from2, more⟩
      · exact ⟨counted, least, greatest, by omega⟩
    · split <;> simp only [Point.left] <;> omega
  · refine moved_to fine cells ⟨counted, least, small, by omega⟩ (fun _ => .inr ?_) nofun
    simp only [Point.left]
    omega

/-- `findMinMax` in front of its loop. -/
theorem first_moves (nine : 9 ≤ n) (fine : p.Fine) (cells : Cells n shm) (rand : Nat) {count : Int}
    (here : p.point = .first count ∨ ∃ min, p.point = .second count min) : Moves n p (p.move rand shm) := by
  obtain ⟨point, stopFlag, printed, processedCount⟩ := p
  rcases here with rfl | ⟨min, rfl⟩
  · refine moves_reading nine cells (Int.le_refl 1) (by decide) fun x small => ?_
    exact moved_to fine cells ⟨fine.point, small⟩ (fun _ => .inr (by simp [Point.left])) nofun
  · obtain ⟨counted, least⟩ := fine.point
    refine moves_reading nine cells (Int.le_refl 1) (by decide) fun x small => ?_
    refine moved_to fine cells ⟨counted, least, small, Int.le_refl 2⟩ (fun _ => .inr ?_) nofun
    have := count_le counted
    simp only [Point.left]
    omega

/-- `findMinMax` behind its loop. -/
theorem storing_moves (nine : 9 ≤ n) (fine : p.Fine) (cells : Cells n shm) (rand : Nat) {count max : Int}
    (here : (∃ min, p.point = .storing count min max) ∨ p.point = .storingMax count max) :
    Moves n p (p.move rand shm) := by
  obtain ⟨point, stopFlag, printed, processedCount⟩ := p
  have nonneg (counted : Count count) : 0 ≤ count := by rcases counted with rfl | ⟨low, _⟩ <;> omega
  rcases here with ⟨min, rfl⟩ | rfl
  · obtain ⟨counted, least, greatest⟩ := fine.point
    have := count_le counted
    have := nonneg counted
    refine moves_storing nine cells (by omega) (by omega) least fun shm' after => ?_
    exact moved_to fine after ⟨counted, greatest⟩ (fun _ => .inr (by simp [Point.left])) nofun
  · obtain ⟨counted, greatest⟩ := fine.point
    have := count_le counted
    have := nonneg counted
    refine moves_storing nine cells (by omega) (by omega) greatest fun shm' after => ?_
    exact moved_to fine after trivial (fun _ => .inr (by simp [Point.left])) nofun

theorem testing_moves (nine : 9 ≤ n) (fine : p.Fine) (cells : Cells n shm) (rand : Nat)
    (here : p.point = .generating ∨ p.point = .scanning) : Moves n p (p.move rand shm) := by
  obtain ⟨point, stopFlag, printed, processedCount⟩ := p
  rcases here with rfl | rfl
  · cases stopFlag with
    | true => exact moves_without (moved_to fine cells trivial (fun _ => .inl rfl) nofun)
    | false =>
      refine moves_without (moved_to fine cells ?_ nofun nofun)
      simp only [Bool.false_eq_true, if_false, Point.Fine]
      omega
  · cases stopFlag with
    | true => exact moves_without (moved_to fine cells trivial (fun _ => .inl rfl) nofun)
    | false =>
      obtain ⟨x, found, count, _⟩ := cells_get nine cells (Int.le_refl 0) (by decide)
      refine ⟨_, shm, by simp only [Process.move, found, ok_bind]; rfl, ?_⟩
      exact moved_to fine cells (count rfl) nofun nofun

theorem move_moved (nine : 9 ≤ n) (fine : p.Fine) (cells : Cells n shm) (rand : Nat) :
    Moves n p (p.move rand shm) := by
  cases here : p.point with
  | generating => exact testing_moves nine fine cells rand (.inl here)
  | counting => exact generateNumbers_moves nine fine cells rand (.inl here)
  | filling => exact generateNumbers_moves nine fine cells rand (.inr ⟨_, here⟩)
  | printing => exact printing_moves nine fine cells rand (.inl ⟨_, here⟩)
  | sleeping => exact printing_moves nine fine cells rand (.inr (.inl here))
  | printingMax => exact printing_moves nine fine cells rand (.inr (.inr ⟨_, here⟩))
  | scanning => exact testing_moves nine fine cells rand (.inr here)
  | first => exact first_moves nine fine cells rand (.inl here)
  | second => exact first_moves nine fine cells rand (.inr ⟨_, here⟩)
  | comparingMin => exact comparing_moves nine fine cells rand (.inl here)
  | lowering => exact comparing_moves nine fine cells rand (.inr (.inl here))
  | comparingMax => exact comparing_moves nine fine cells rand (.inr (.inr (.inl here)))
  | raising => exact comparing_moves nine fine cells rand (.inr (.inr (.inr here)))
  | storing => exact storing_moves nine fine cells rand (.inl ⟨_, here⟩)
  | storingMax => exact storing_moves nine fine cells rand (.inr here)
  | done =>
    have stays : p.move rand shm = .ok (p, shm) := by simp only [Process.move, here]
    exact ⟨p, shm, stays, fine, cells, rfl, fun _ => .inl here, fun _ => here⟩

theorem turn_fine (nine : 9 ≤ n) (fine : p.Fine) (cells : Cells n shm) (action : Action) :
    ∃ p' shm', p.turn action shm = .ok (p', shm') ∧ p'.Fine ∧ Cells n shm' ∧
      (p.stopFlag = true → p'.stopFlag = true) := by
  cases action with
  | sigint => exact ⟨_, _, rfl, ⟨fine.point, fine.printed⟩, cells, fun _ => rfl⟩
  | move rand =>
    obtain ⟨p', shm', done, moved⟩ := move_moved nine fine cells rand
    exact ⟨p', shm', done, moved.fine, moved.cells, moved.stopFlag.trans⟩

theorem turn_done (done : p.turn action shm = .ok (p', shm')) (ended : p.point = .done) :
    p'.point = .done := by
  cases action with
  | sigint =>
    cases done
    exact ended
  | move rand =>
    simp only [Process.turn, Process.move, ended] at done
    cases done
    exact ended

theorem turn_left (nine : 9 ≤ n) (fine : p.Fine) (cells : Cells n shm) (stopped : p.stopFlag = true)
    (done : p.turn action shm = .ok (p', shm')) :
    p'.point = .done ∨ p'.point.left + (if action.moves then 1 else 0) ≤ p.point.left := by
  cases action with
  | sigint =>
    cases done
    exact .inr (Nat.le_refl _)
  | move rand =>
    obtain ⟨_, _, moves, moved⟩ := move_moved nine fine cells rand
    cases moves.symm.trans done
    exact moved.nearer stopped

theorem left_le {point : Point} (fine : point.Fine) : point.left ≤ 26 := by
  cases point with
  | comparingMin => have := count_le fine.1; have := fine.2.2.2; simp only [Point.left]; omega
  | lowering | comparingMax | raising =>
    have := count_le fine.1; have := fine.2.2.2.1; simp only [Point.left]; omega
  | printing | filling => obtain ⟨_, _, _⟩ := fine; simp only [Point.left]; omega
  | _ => simp [Point.left]

end Turns

section Runs

variable {ι : Type} {n : Nat}

theorem cells_new (n : Nat) : Cells n (List.replicate n 0) := by
  have zero {i : Nat} {x : Int} (found : (List.replicate n 0)[i]? = some x) : x = 0 :=
    (List.mem_replicate.mp (List.mem_of_getElem? found)).2
  refine ⟨List.length_replicate, fun x found => .inl (zero found), fun i x _ found => ?_,
    fun i x _ found => zero found⟩
  rw [zero found]
  exact ⟨Int.le_refl 0, by decide⟩

theorem start_kept (parent : ι → Bool) :
    Parallel.Kept (Cells n) (fun _ => Process.Fine) (start n parent) := by
  refine ⟨cells_new n, fun i => ⟨?_, nofun⟩⟩
  dsimp only [start]
  split <;> trivial

theorem turn_keeps (nine : 9 ≤ n) :
    Parallel.Keeps Process.turn (Cells n) (fun _ : ι => Process.Fine) := by
  intro i p action shm fine cells
  obtain ⟨p', shm', done, fineNext, cellsNext, _⟩ := turn_fine nine fine cells action
  exact ⟨p', shm', done, fineNext, cellsNext⟩

def Interrupted (i j : ι) (p : Process) : Prop := p.Fine ∧ (j = i → p.stopFlag = true)

theorem interrupted_keeps (nine : 9 ≤ n) (i : ι) :
    Parallel.Keeps Process.turn (Cells n) (Interrupted i) := by
  rintro j p action shm ⟨fine, stopped⟩ cells
  obtain ⟨p', shm', done, fineNext, cellsNext, still⟩ := turn_fine nine fine cells action
  exact ⟨p', shm', done, ⟨fineNext, still ∘ stopped⟩, cellsNext⟩

theorem interrupted_nears (nine : 9 ≤ n) (i : ι) :
    Parallel.Nears Process.turn (Cells n) (Interrupted i i) (fun p => p.point = .done)
      (fun p => p.point.left) Action.moves where
  stays _ _ _ _ _ _ _ done := turn_done done
  nearer _ _ _ _ _ here cells done := turn_left nine here.1 cells (here.2 rfl) done

variable [DecidableEq ι]

/-- Nine cells are enough: no access of any run of any number of parents and children is outside of the
segment, what is behind the ninth cell is never written, and every number printed is one that
`generateNumbers` can have stored, or the 0 of a new segment. -/
theorem segment_safe (nine : 9 ≤ n) (parent : ι → Bool) (actions : List (ι × Action)) :
    ∃ t, run (Parallel.step Process.turn) (start n parent) actions = .ok t ∧ Cells n t.memory ∧
      ∀ i, ∀ x ∈ (t.proc i).printed, 0 ≤ x ∧ x < 20 := by
  obtain ⟨t, done, kept⟩ := Parallel.run_kept (turn_keeps nine) (start_kept parent) actions
  exact ⟨t, done, kept.shared, fun i => (kept.own i).printed⟩

/-- The segment of the source has `SHM_SIZE` bytes. -/
theorem segment_safe_source :
    ∃ t, run (Parallel.step Process.turn) (start (1024 / 4) id)
        [(true, .move 0), (true, .move 4), (false, .move 0), (true, .move 7), (false, .sigint)] = .ok t ∧
      Cells (1024 / 4) t.memory ∧ ∀ i, ∀ x ∈ (t.proc i).printed, 0 ≤ x ∧ x < 20 :=
  segment_safe (by decide) id _

/-- Whatever the others do to the segment meanwhile, a process that has been interrupted ends within 27
accesses of its own. -/
theorem interrupted_ends (nine : 9 ≤ n) (parent : ι → Bool) (i : ι) (before after : List (ι × Action))
    (enough : 27 ≤ Parallel.moves Action.moves i after) :
    ∃ t, run (Parallel.step Process.turn) (start n parent) (before ++ (i, .sigint) :: after) = .ok t ∧
      (t.proc i).point = .done := by
  obtain ⟨s, first, kept⟩ := Parallel.run_kept (turn_keeps nine) (start_kept parent) before
  obtain ⟨u, p', signal, keptNext, here, taken, _⟩ :=
    Parallel.step_kept (turn_keeps nine) kept i Action.sigint
  have stopped : (u.proc i).stopFlag = true := by
    obtain ⟨interruptedOne, _⟩ := Prod.mk.inj (Except.ok.inj taken)
    rw [here, ← interruptedOne]
  have interrupted : Parallel.Kept (Cells n) (Interrupted i) u :=
    ⟨keptNext.shared, fun j => ⟨keptNext.own j, fun same => same ▸ stopped⟩⟩
  obtain ⟨t, later, done⟩ := Parallel.run_ends (interrupted_keeps nine i) interrupted after i
    (interrupted_nears nine i) (Nat.lt_of_le_of_lt (left_le (keptNext.own i).point) enough)
  refine ⟨t, ?_, done⟩
  rw [run_append, first, ok_bind, run_cons signal, later]

theorem interrupted_ends_source :
    ∃ t, run (Parallel.step Process.turn) (start (1024 / 4) id)
        ([(true, .move 4), (false, .move 0), (true, .move 0)] ++
          (true, .sigint) :: (false, .move 0) :: List.replicate 27 (true, .move 7)) = .ok t ∧
      (t.proc true).point = .done :=
  interrupted_ends (by decide) id true _ _ (by decide)

end Runs
end Tasks.Numbers.MinMax
