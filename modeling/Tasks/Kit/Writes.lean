import Mathlib.Data.List.Basic

/-! A series of writes to an empty file. Each takes a front part of its piece or fails, and the
first failure ends the series. -/
namespace Tasks.Kit.Writes

variable {α : Type} {accept : Nat → Option Nat} {pieces : List (List α)} {i n : Nat}

/-- What gets into the file, and whether no write failed; `accept i` is how much of the piece with
number `i` is taken, none if that write fails. -/
def series (accept : Nat → Option Nat) : List (List α) → List α × Bool
  | [] => ([], true)
  | piece :: pieces =>
    match accept 0 with
    | none => ([], false)
    | some count =>
      let (written, all) := series (fun i => accept (i + 1)) pieces
      (piece.take count ++ written, all)

/-- Every write takes its piece as a whole. -/
def Taken (accept : Nat → Option Nat) (pieces : List (List α)) : Prop :=
  ∀ i piece, pieces[i]? = some piece → ∃ count, accept i = some count ∧ piece.length ≤ count

/-- Of `n` writes the one with number `i` is the first that fails. -/
structure FirstFailure (accept : Nat → Option Nat) (n i : Nat) : Prop where
  inside : i < n
  fails : accept i = none
  earlier : ∀ j < i, accept j ≠ none

def takenBefore (accept : Nat → Option Nat) (pieces : List (List α)) (i : Nat) : List α :=
  ((pieces.take i).mapIdx fun j piece => piece.take ((accept j).getD 0)).flatten

theorem taken_cons (piece : List α) (first : accept 0 = some count) :
    Taken accept (piece :: pieces) ↔ piece.length ≤ count ∧ Taken (fun i => accept (i + 1)) pieces := by
  constructor
  · intro taken
    obtain ⟨count', same, whole⟩ := taken 0 piece rfl
    cases first.symm.trans same
    exact ⟨whole, fun i other found => taken (i + 1) other found⟩
  · rintro ⟨whole, later⟩ i other found
    cases i with
    | zero =>
      cases found
      exact ⟨count, first, whole⟩
    | succ i => exact later i other found

theorem takenBefore_cons (piece : List α) (i : Nat) (first : accept 0 = some count) :
    takenBefore accept (piece :: pieces) (i + 1) =
      piece.take count ++ takenBefore (fun i => accept (i + 1)) pieces i := by
  simp only [takenBefore, List.take_succ_cons, List.mapIdx_cons, first, Option.getD_some, List.flatten_cons]

theorem series_taken (taken : Taken accept pieces) : series accept pieces = (pieces.flatten, true) := by
  induction pieces generalizing accept with
  | nil => rfl
  | cons piece pieces ih =>
    obtain ⟨count, first, whole⟩ := taken 0 piece rfl
    have later := ih ((taken_cons piece first).mp taken).2
    simp only [series, first, later, List.take_of_length_le whole, List.flatten_cons]

theorem series_fails (failure : FirstFailure accept pieces.length i) :
    series accept pieces = (takenBefore accept pieces i, false) := by
  induction pieces generalizing accept i with
  | nil => exact absurd failure.inside (Nat.not_lt_zero i)
  | cons piece pieces ih =>
    cases i with
    | zero => simp [series, failure.fails, takenBefore]
    | succ i =>
      obtain ⟨count, first⟩ := Option.ne_none_iff_exists'.mp (failure.earlier 0 i.succ_pos)
      have next : FirstFailure (fun i => accept (i + 1)) pieces.length i :=
        ⟨Nat.lt_of_succ_lt_succ failure.inside, failure.fails,
          fun j before => failure.earlier (j + 1) (Nat.succ_lt_succ before)⟩
      simp only [series, first, ih next, takenBefore_cons piece i first]

theorem failure_of_series (broken : (series accept pieces).2 = false) :
    ∃ i, FirstFailure accept pieces.length i := by
  induction pieces generalizing accept with
  | nil => cases broken
  | cons piece pieces ih =>
    cases first : accept 0 with
    | none => exact ⟨0, Nat.succ_pos _, first, nofun⟩
    | some count =>
      simp only [series, first] at broken
      obtain ⟨i, inside, fails, earlier⟩ := ih broken
      refine ⟨i + 1, Nat.succ_lt_succ inside, fails, fun j before => ?_⟩
      cases j with
      | zero => simp [first]
      | succ j => exact earlier j (Nat.lt_of_succ_lt_succ before)

theorem series_length (accept : Nat → Option Nat) (pieces : List (List α)) :
    (series accept pieces).1.length ≤ pieces.flatten.length := by
  induction pieces generalizing accept with
  | nil => exact Nat.le_refl 0
  | cons piece pieces ih =>
    cases first : accept 0 with
    | none => simp [series, first]
    | some count =>
      have later := ih fun i => accept (i + 1)
      simp only [series, first, List.length_append, List.flatten_cons, List.length_take]
      omega

/-- Only writes that take everything leave all the bytes. -/
theorem taken_of_series (solid : ∀ piece ∈ pieces, piece ≠ [])
    (whole : (series accept pieces).1 = pieces.flatten) : Taken accept pieces := by
  induction pieces generalizing accept with
  | nil => exact nofun
  | cons piece pieces ih =>
    have some : 0 < piece.length := List.length_pos_iff.mpr (solid piece List.mem_cons_self)
    have lengths := congrArg List.length whole
    cases first : accept 0 with
    | none =>
      simp only [series, first, List.length_nil, List.flatten_cons, List.length_append] at lengths
      omega
    | some count =>
      have later := series_length (fun i => accept (i + 1)) pieces
      simp only [series, first, List.length_append, List.flatten_cons, List.length_take] at lengths
      have covers : piece.length ≤ count := by omega
      simp only [series, first, List.take_of_length_le covers, List.flatten_cons,
        List.append_cancel_left_eq] at whole
      have rest := ih (fun other member => solid other (List.mem_cons_of_mem piece member)) whole
      exact (taken_cons piece first).mpr ⟨covers, rest⟩

/-- After the series the file is as it was before, or it has everything, and only then did no write
fail. -/
theorem series_atomic_iff (accept : Nat → Option Nat) (previous : Option (List α))
    (solid : ∀ piece ∈ pieces, piece ≠ []) :
    ((some (series accept pieces).1 = previous ∨ (series accept pieces).1 = pieces.flatten) ∧
        ((series accept pieces).2 = true → (series accept pieces).1 = pieces.flatten)) ↔
      Taken accept pieces ∨
        ∃ i, FirstFailure accept pieces.length i ∧ previous = some (takenBefore accept pieces i) := by
  constructor
  · rintro ⟨either, unbroken⟩
    cases ended : (series accept pieces).2 with
    | true => exact .inl (taken_of_series solid (unbroken ended))
    | false =>
      obtain ⟨i, failure⟩ := failure_of_series ended
      rcases either with same | whole
      · rw [series_fails failure] at same
        exact .inr ⟨i, failure, same.symm⟩
      · exact .inl (taken_of_series solid whole)
  · rintro (taken | ⟨i, failure, rfl⟩)
    · rw [series_taken taken]
      exact ⟨.inr rfl, fun _ => rfl⟩
    · rw [series_fails failure]
      exact ⟨.inl rfl, nofun⟩

end Tasks.Kit.Writes
