import Tasks.Kit.Bytes
import Tasks.Kit.Cells
import Tasks.Variadic

/-! The menu of Tasks 2.3 and 6.3: which function is called, and with which of the numbers that were
entered. -/
namespace Tasks.Variadic

open Kit Kit.Bytes

inductive Task where
  | task23
  | task63
  deriving DecidableEq, Repr

inductive Hazard where
  /-- Looking outside of `Oper`. -/
  | oper
  /-- Calling a function that was not set. -/
  | function
  /-- Reading behind `numbers`. -/
  | numbers
  /-- Taking an argument that was not passed. -/
  | arguments
  deriving DecidableEq, Repr

structure Address where
  value : Nat
  user : 0 < value ∧ value < 2 ^ 47

structure OperationsFunc where
  address : Address
  call : Int → List ℚ → Option ℚ

/-- The function pointers of `Oper`, `NULL` is `none`. -/
abbrev Funcs := Oper → Option OperationsFunc

/-- The functions of Task 2.3 are anywhere. -/
def Task.declared (task : Task) (address : Oper → Address) : Funcs :=
  match task with
  | .task23 => fun op => some ⟨address op, op.function⟩
  | .task63 => fun _ => none

def operAt (i : Int) : Except Hazard Oper :=
  if i = 0 then .ok .addition
  else if i = 1 then .ok .substraction
  else if i = 2 then .ok .multiplicate
  else if i = 3 then .ok .division
  else .error .oper

/-- How many elements of `numbers` the call passes. -/
def Task.passed : Task → Nat
  | .task23 => 10
  | .task63 => 7

def Oper.takes : Oper → Int → Nat
  | .addition, n => n.toNat
  | _, n => (n - 1).toNat + 1

def Oper.file : Oper → Bytes
  | .addition => ascii "./libaddition.so"
  | .substraction => ascii "./libsubstraction.so"
  | .multiplicate => ascii "./libmultiplicate.so"
  | .division => ascii "./libdivision.so"

/-- The array `path[20]`, in which two of the names leave no room for a NUL. -/
def Oper.path (op : Oper) : Bytes := (op.file ++ zeros 20).take 20

def pointerBytes : Option OperationsFunc → Bytes
  | none => zeros 8
  | some func => (List.range 8).map fun i => UInt8.ofNat (func.address.value / 256 ^ i)

/-- `path` as a string: `func` is directly behind it, and ends in a zero byte. -/
def Oper.pathText (op : Oper) (func : Option OperationsFunc) : Bytes :=
  (op.path ++ pointerBytes func).takeWhile (· ≠ 0)

/-- `dlopen` and `dlsym`: where `calc` is, if the file is one of the libraries that are there. -/
def dlopen (library : Oper → Option Address) (name : Bytes) : Option OperationsFunc := do
  let op ← [Oper.addition, .substraction, .multiplicate, .division].find? fun op => op.file = name
  let address ← library op
  return ⟨address, op.calc⟩

/-- In Task 6.3 a choice from 1 to 4 opens the library at its path; without it `main` returns. -/
def Task.load (task : Task) (library : Oper → Option Address) (funcs : Funcs) (choice : Int) :
    Except Hazard (Option Funcs) :=
  match task with
  | .task23 => .ok (some funcs)
  | .task63 =>
    if 1 ≤ choice ∧ choice ≤ 4 then do
      let op ← operAt (choice - 1)
      return (dlopen library (op.pathText (funcs op))).map fun func => Function.update funcs op (some func)
    else .ok (some funcs)

/-- The call through `Oper`, in Task 2.3 in `operations`. -/
def Task.operations (task : Task) (funcs : Funcs) (choice : Int) (numbers : List ℚ) :
    Except Hazard (Option ℚ) := do
  let op ← operAt (choice - 1)
  match funcs op with
  | none => .error .function
  | some func => do
    let args ← (Cells.visit numbers 0 task.passed).mapError fun _ => .numbers
    if op.takes numbers.length ≤ args.length then return func.call numbers.length args
    else .error .arguments

/-- A turn of the menu: the pointers behind it and the result, none if `main` returns. As many numbers
are entered as were asked for. -/
def Task.turn (task : Task) (library : Oper → Option Address) (funcs : Funcs) (choice : Int)
    (numbers : List ℚ) : Except Hazard (Option (Funcs × Option ℚ)) :=
  if choice = 5 then .ok none
  else do
    match ← task.load library funcs choice with
    | none => return none
    | some funcs => do
      let result ← task.operations funcs choice numbers
      return some (funcs, result)

/-- The pointers that earlier turns leave, whichever libraries were there. -/
inductive Task.Reached (task : Task) : Funcs → Prop where
  | declared (address : Oper → Address) : Reached task (task.declared address)
  | turn (before : Reached task funcs)
      (done : task.turn library funcs choice numbers = .ok (some (next, result))) : Reached task next

/-- The turn runs into nothing, and a result is the fold over all numbers. -/
def Task.Consumes (task : Task) (library : Oper → Option Address) (funcs : Funcs) (choice : Int)
    (numbers : List ℚ) : Prop :=
  ∃ out, task.turn library funcs choice numbers = .ok out ∧ ∀ next result, out = some (next, result) →
    ∃ op, operAt (choice - 1) = .ok op ∧ result = op.fold numbers

/-- A name without a NUL goes on in the pointer that an earlier turn has set. -/
def Oper.Overrun (op : Oper) (func : Option OperationsFunc) : Prop :=
  op.file.length = 20 ∧ ∃ set, func = some set ∧ set.address.value % 256 ≠ 0

/-- Task 6.3 does not get the library. -/
def Task.Unopened (task : Task) (library : Oper → Option Address) (funcs : Funcs) (op : Oper) : Prop :=
  task = .task63 ∧ (library op = none ∨ op.Overrun (funcs op))

section Turns

variable {task : Task} {library : Oper → Option Address} {funcs next : Funcs} {choice : Int}
variable {numbers : List ℚ} {op : Oper} {func : Option OperationsFunc}

theorem file_clean (op : Oper) : 0 ∉ op.file := by cases op <;> decide

theorem file_length (op : Oper) : op.file.length ≤ 20 := by cases op <;> decide

/-- The string in `path`: the file's name, and if that fills the array the pointer behind it. -/
theorem pathText_file (op : Oper) (func : Option OperationsFunc) : op.pathText func =
    op.file ++ if op.file.length = 20 then (pointerBytes func).takeWhile (· ≠ 0) else [] := by
  have cut : op.path = op.file ++ zeros (20 - op.file.length) := by cases op <;> decide
  rw [Oper.pathText, cut, List.append_assoc, text_append (file_clean op)]
  congr 1
  split
  next full => simp [full, zeros]
  next short =>
    obtain ⟨room, spare⟩ : ∃ room, 20 - op.file.length = room + 1 :=
      Nat.exists_eq_succ_of_ne_zero (by have := file_length op; omega)
    simp [spare, zeros, List.replicate_succ]

theorem pointerBytes_first (func : OperationsFunc) : ∃ rest,
    pointerBytes (some func) = UInt8.ofNat func.address.value :: rest :=
  ⟨((List.range 7).map (· + 1)).map fun i => UInt8.ofNat (func.address.value / 256 ^ i), by
    rw [pointerBytes, List.range_succ_eq_map, List.map_cons, pow_zero, Nat.div_one]⟩

theorem low_zero_iff (n : Nat) : UInt8.ofNat n = 0 ↔ n % 256 = 0 := by
  rw [← UInt8.toNat_inj, UInt8.toNat_ofNat']
  rfl

theorem pathText_iff (op : Oper) (func : Option OperationsFunc) :
    op.pathText func = op.file ↔ ¬ op.Overrun func := by
  rw [pathText_file, List.append_right_eq_self, Oper.Overrun]
  split
  next full =>
    cases func with
    | none => simp [pointerBytes, zeros]
    | some func =>
      obtain ⟨rest, bytes⟩ := pointerBytes_first func
      by_cases zero : func.address.value % 256 = 0
      · simp [bytes, (low_zero_iff _).mpr zero, zero]
      · simp [bytes, mt (low_zero_iff _).mp zero, zero, full]
  next short => simp [short]

/-- A longer name is no library's. -/
theorem pathText_other (overrun : op.Overrun func) (other : Oper) : other.file ≠ op.pathText func := by
  intro same
  have more : op.pathText func ≠ op.file := mt (pathText_iff op func).mp (not_not.mpr overrun)
  rw [pathText_file, if_pos overrun.1] at same more
  have longer := congrArg List.length same
  rw [List.length_append, overrun.1] at longer
  have least := file_length other
  have empty : (pointerBytes func).takeWhile (· ≠ 0) = [] := List.eq_nil_of_length_eq_zero (by omega)
  rw [empty, List.append_nil] at more
  exact more rfl

theorem dlopen_overrun (library : Oper → Option Address) (overrun : op.Overrun func) :
    dlopen library (op.pathText func) = none := by
  have none : [Oper.addition, .substraction, .multiplicate, .division].find?
      (fun other => other.file = op.pathText func) = none := by
    simpa using ⟨pathText_other overrun .addition, pathText_other overrun .substraction,
      pathText_other overrun .multiplicate, pathText_other overrun .division⟩
  simp [dlopen, none]

theorem dlopen_file (library : Oper → Option Address) (op : Oper) :
    dlopen library op.file = (library op).map (⟨·, op.calc⟩) := by
  have found : [Oper.addition, .substraction, .multiplicate, .division].find?
      (fun other => other.file = op.file) = some op := by cases op <;> decide
  cases there : library op <;> simp [dlopen, found, there]

/-- A choice names an operation if and only if it is one of the first four. -/
theorem operAt_range (found : operAt (choice - 1) = .ok op) : 1 ≤ choice ∧ choice ≤ 4 := by
  unfold operAt at found
  split at found
  · omega
  · split at found
    · omega
    · split at found
      · omega
      · split at found
        · omega
        · cases found

/-- What the pointers can be set to. -/
def Task.target : Task → Oper → Int → List ℚ → Option ℚ
  | .task23 => Oper.function
  | .task63 => Oper.calc

/-- A pointer that is set is set to its own function, and in Task 2.3 all are. -/
structure Task.Sound (task : Task) (funcs : Funcs) : Prop where
  own : ∀ op func, funcs op = some func → func.call = task.target op
  set : task = .task23 → ∀ op, ∃ func, funcs op = some func

/-- Only a choice with a name can miss its library. -/
theorem load_named (done : task.load library funcs choice = .ok none) :
    ∃ op, operAt (choice - 1) = .ok op := by
  cases task with
  | task23 => cases done
  | task63 =>
    unfold Task.load at done
    dsimp only at done
    split at done
    · obtain ⟨op, named, _⟩ := bind_eq_ok.mp done
      exact ⟨op, named⟩
    · cases done

theorem load_63 (found : operAt (choice - 1) = .ok op) :
    Task.load .task63 library funcs choice = .ok ((dlopen library (op.pathText (funcs op))).map
      fun func => Function.update funcs op (some func)) := by
  simp only [Task.load, if_pos (operAt_range found), found, ok_bind]
  rfl

/-- What is opened is the library of the choice. -/
theorem dlopen_own (opened : dlopen library (op.pathText func) = some found) : found.call = op.calc := by
  have named : op.pathText func = op.file := by
    rw [pathText_iff]
    exact fun overrun => by simp [dlopen_overrun library overrun] at opened
  rw [named, dlopen_file] at opened
  obtain ⟨address, _, rfl⟩ := Option.map_eq_some_iff.mp opened
  rfl

theorem load_sound (sound : task.Sound funcs) (done : task.load library funcs choice = .ok (some next)) :
    task.Sound next := by
  cases task with
  | task23 =>
    cases done
    exact sound
  | task63 =>
    cases found : operAt (choice - 1) with
    | error hazard =>
      unfold Task.load at done
      dsimp only at done
      split at done
      · rw [found] at done
        cases done
      · cases done
        exact sound
    | ok op =>
      rw [load_63 found, Except.ok.injEq] at done
      obtain ⟨set, opened, rfl⟩ := Option.map_eq_some_iff.mp done
      refine ⟨fun other func there => ?_, nofun⟩
      by_cases same : other = op
      · subst same
        rw [Function.update_self] at there
        cases there
        exact dlopen_own opened
      · rw [Function.update_of_ne same] at there
        exact sound.own other func there

theorem reached_sound (reached : task.Reached funcs) : task.Sound funcs := by
  induction reached with
  | declared =>
    cases task with
    | task23 =>
      refine ⟨fun op func set => ?_, fun _ op => ⟨_, rfl⟩⟩
      cases set
      rfl
    | task63 => exact ⟨nofun, nofun⟩
  | turn before done ih =>
    unfold Task.turn at done
    split at done
    · cases done
    · obtain ⟨loaded, load, done⟩ := bind_eq_ok.mp done
      cases loaded with
      | none => cases done
      | some funcs =>
        obtain ⟨result, _, done⟩ := bind_eq_ok.mp done
        cases done
        exact load_sound ih load

theorem takes_count (op : Oper) (positive : 1 ≤ numbers.length) :
    op.takes numbers.length = numbers.length := by
  cases op with
  | addition => exact Int.toNat_natCast _
  | _ =>
    simp only [Oper.takes]
    omega

/-- A call comes back if and only if there are as many numbers as it passes. -/
theorem operations_iff (found : operAt (choice - 1) = .ok op) (set : funcs op = some called)
    (positive : 1 ≤ numbers.length) : task.operations funcs choice numbers = .ok result ↔
      numbers.length = task.passed ∧ result = called.call numbers.length numbers := by
  simp only [Task.operations, found, ok_bind, set, takes_count op positive]
  constructor
  · intro done
    obtain ⟨args, read, done⟩ := bind_eq_ok.mp done
    have read := mapError_eq_ok.mp read
    have passes : task.passed ≤ numbers.length := by
      simpa using Cells.visit_inside (Nat.zero_le _) read
    obtain ⟨used, spare, rfl, counted⟩ := Cells.split_count numbers task.passed passes
    rw [counted] at read
    cases (Cells.visit_used used spare).symm.trans read
    split at done
    next enough =>
      have none : spare = [] := by
        rw [List.length_append] at enough
        exact List.eq_nil_of_length_eq_zero (by omega)
      subst none
      cases done
      rw [List.append_nil]
      exact ⟨counted.symm, rfl⟩
    next => cases done
  · rintro ⟨counted, rfl⟩
    have read := Cells.visit_used numbers []
    rw [List.append_nil, counted] at read
    simp only [read, Except.mapError, ok_bind, counted, Nat.le_refl, if_true]
    rfl

theorem turn_next (other : choice ≠ 5) (found : operAt (choice - 1) = .ok op)
    (load : task.load library funcs choice = .ok (some next)) (set : next op = some called)
    (positive : 1 ≤ numbers.length) (counted : numbers.length = task.passed) :
    task.turn library funcs choice numbers =
      .ok (some (next, called.call numbers.length numbers)) := by
  have call := (operations_iff found set positive).mpr ⟨counted, rfl⟩
  simp only [Task.turn, if_neg other, load, ok_bind, call]
  rfl

/-- What is called gives the fold, but for the sum of a library. -/
theorem target_fold_iff (task : Task) (op : Oper) (positive : 1 ≤ numbers.length) :
    task.target op numbers.length numbers = op.fold numbers ↔
      (task = .task63 → op = .addition → numbers.sum = 0) := by
  have least : (1 : Int) ≤ numbers.length := by omega
  have all : numbers.take (numbers.length : Int).toNat = numbers := by rw [Int.toNat_natCast, List.take_length]
  have inside : (numbers.length : Int).toNat ≤ numbers.length := Nat.le_of_eq (Int.toNat_natCast _)
  have folded (op : Oper) : fromFirst op.apply numbers.length numbers = op.fold numbers := by
    rw [fromFirst_fold least (Int.le_refl _), all]
  have sum := fold_addition (List.ne_nil_of_length_pos positive)
  have plain := main_addition inside
  have doubled := library_addition inside
  rw [all] at plain doubled
  cases task with
  | task23 =>
    refine iff_of_true ?_ (by simp)
    cases op with
    | addition => exact plain.trans sum.symm
    | substraction => exact folded .substraction
    | multiplicate => exact folded .multiplicate
    | division => exact folded .division
  | task63 =>
    cases op with
    | addition =>
      simp only [Task.target, Oper.calc, doubled, sum, Option.some.injEq, true_implies]
      constructor
      · intro same
        linarith
      · intro zero
        rw [zero, mul_zero]
    | substraction => exact iff_of_true (folded .substraction) (by simp)
    | multiplicate => exact iff_of_true (folded .multiplicate) (by simp)
    | division => exact iff_of_true (folded .division) (by simp)

/-- With a choice from 1 to 4 its function is set, or its library is not opened. -/
theorem load_cases (library : Oper → Option Address) (sound : task.Sound funcs)
    (found : operAt (choice - 1) = .ok op) :
    task.Unopened library funcs op ∧ task.load library funcs choice = .ok none ∨
      ¬ task.Unopened library funcs op ∧ ∃ next func, task.load library funcs choice = .ok (some next) ∧
        next op = some func ∧ func.call = task.target op := by
  cases task with
  | task23 =>
    obtain ⟨func, set⟩ := sound.set rfl op
    exact .inr ⟨(nomatch ·.1), funcs, func, rfl, set, sound.own op func set⟩
  | task63 =>
    rw [load_63 found]
    by_cases overrun : op.Overrun (funcs op)
    · rw [dlopen_overrun library overrun]
      exact .inl ⟨⟨rfl, .inr overrun⟩, rfl⟩
    · rw [(pathText_iff op _).mpr overrun, dlopen_file]
      cases there : library op with
      | none => exact .inl ⟨⟨rfl, .inl there⟩, rfl⟩
      | some address =>
        refine .inr ⟨?_, _, _, rfl, Function.update_self .., rfl⟩
        rintro ⟨_, missing | overruns⟩
        · cases there.symm.trans missing
        · exact overrun overruns

/-- A turn is right if and only if the choice is one of the four, and its library is not opened or the
program passes as many numbers as were entered and, from the library, they add up to zero. -/
theorem consumes_iff (task : Task) (library : Oper → Option Address) (funcs : Funcs)
    (reached : task.Reached funcs) (choice : Int) (other : choice ≠ 5) (numbers : List ℚ)
    (positive : 1 ≤ numbers.length) :
    task.Consumes library funcs choice numbers ↔
      ∃ op, operAt (choice - 1) = .ok op ∧ (task.Unopened library funcs op ∨
        numbers.length = task.passed ∧ (task = .task63 → op = .addition → numbers.sum = 0)) := by
  have sound := reached_sound reached
  rw [Task.Consumes, Task.turn, if_neg other]
  cases found : operAt (choice - 1) with
  | error hazard =>
    refine iff_of_false ?_ fun ⟨_, named, _⟩ => nomatch named
    rintro ⟨out, done, _⟩
    obtain ⟨loaded, load, done⟩ := bind_eq_ok.mp done
    cases loaded with
    | none =>
      obtain ⟨op, named⟩ := load_named load
      cases found.symm.trans named
    | some next =>
      obtain ⟨result, called, _⟩ := bind_eq_ok.mp done
      obtain ⟨op, named, _⟩ := bind_eq_ok.mp called
      cases found.symm.trans named
  | ok op =>
    have chosen {p : Oper → Prop} : (∃ op', (.ok op : Except Hazard Oper) = .ok op' ∧ p op') ↔ p op := by simp
    rw [chosen]
    rcases load_cases library sound found with ⟨unopened, load⟩ | ⟨opened, next, func, load, set, own⟩
    · rw [load, ok_bind]
      exact iff_of_true ⟨none, rfl, nofun⟩ (.inl unopened)
    · rw [load, ok_bind, or_iff_right opened, ← target_fold_iff task op positive]
      have called (result : Option ℚ) : task.operations next choice numbers = .ok result ↔
          numbers.length = task.passed ∧ result = task.target op numbers.length numbers :=
        own ▸ operations_iff found set positive
      constructor
      · rintro ⟨out, done, fold⟩
        obtain ⟨result, call, done⟩ := bind_eq_ok.mp done
        cases done
        obtain ⟨counted, rfl⟩ := (called result).mp call
        obtain ⟨_, named, same⟩ := fold next _ rfl
        cases named
        exact ⟨counted, same⟩
      · rintro ⟨counted, same⟩
        dsimp only
        rw [(called _).mpr ⟨counted, rfl⟩, ok_bind]
        refine ⟨_, rfl, fun _ _ out => ?_⟩
        cases out
        exact ⟨op, rfl, same⟩

end Turns

def somewhere : Address := ⟨4377, by decide⟩

/-- A second product in Task 6.3 does not get its library. -/
theorem consumes_iff_again : ∃ funcs, Task.Reached .task63 funcs ∧
    Task.Consumes .task63 (fun _ => some somewhere) funcs 3 [2] := by
  have load : Task.load .task63 (fun _ => some somewhere) (Task.task63.declared fun _ => somewhere) 3 =
      .ok ((dlopen (fun _ => some somewhere) (Oper.multiplicate.pathText none)).map fun func =>
        Function.update (Task.task63.declared fun _ => somewhere) .multiplicate (some func)) := load_63 rfl
  rw [(pathText_iff .multiplicate none).mpr (by simp [Oper.Overrun]), dlopen_file] at load
  have positive : 1 ≤ (List.replicate 7 (1 : ℚ)).length := by decide
  have first := turn_next (by decide) rfl load (Function.update_self ..) positive rfl
  have reached := Task.Reached.turn (.declared _) first
  exact ⟨_, reached, (consumes_iff .task63 _ _ reached 3 (by decide) [2] (by decide)).mpr
    ⟨.multiplicate, rfl, .inl ⟨rfl, .inr ⟨rfl, _, Function.update_self .., by decide⟩⟩⟩⟩

/-- Ten elements of an array of two are passed. -/
theorem two_numbers_overrun : ¬ ∀ (task : Task) (library : Oper → Option Address) (funcs : Funcs),
    task.Reached funcs → ∀ (choice : Int) (numbers : List ℚ), choice ≠ 5 → 1 ≤ numbers.length →
      task.Consumes library funcs choice numbers := by
  intro law
  obtain ⟨out, done, _⟩ := law .task23 (fun _ => none) (Task.task23.declared fun _ => somewhere)
    (.declared _) 1 [1, 2] (by decide) (by decide)
  have overrun : Task.turn .task23 (fun _ => none) (Task.task23.declared fun _ => somewhere) 1 [1, 2] =
      .error .numbers := rfl
  cases overrun.symm.trans done

end Tasks.Variadic
