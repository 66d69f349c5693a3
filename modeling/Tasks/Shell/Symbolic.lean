import Tasks.Shell.Mode

/-! Module 2, Task 3.1: symbolic access strings. Letters for whom, an operator and letters for
what become two masks; anything else behind the operator is skipped. -/
namespace Tasks.Shell

open Kit Kit.Bits Kit.Bytes

/-- The cases of the first `switch`. -/
def classBits (c : UInt8) : Mode :=
  if c = chr 'u' then 0o700
  else if c = chr 'g' then 0o070
  else if c = chr 'o' then 0o007
  else if c = chr 'a' then 0o777
  else 0

def scanWho (who : Mode) : Bytes → Mode × Bytes
  | [] => (who, [])
  | c :: ptr =>
    if c = chr 'u' ∨ c = chr 'g' ∨ c = chr 'o' ∨ c = chr 'a' then scanWho (who ||| classBits c) ptr
    else (who, c :: ptr)

/-- The cases of the second `switch`, with its `default`. -/
def permBits (c : UInt8) : Mode :=
  if c = chr 'r' then 0o444
  else if c = chr 'w' then 0o222
  else if c = chr 'x' then 0o111
  else 0

def scanPerm (perm : Mode) : Bytes → Mode
  | [] => perm
  | c :: ptr => scanPerm (perm ||| permBits c) ptr

/-- The mode it leaves, and what it prints. At the end of the text `op` is the NUL. -/
def symbolicAccess (mode : Mode) (symbolic : Bytes) : Mode × Bytes :=
  let (who, ptr) := scanWho 0 symbolic
  let who := if who = 0 then 0o777 else who
  let op := ptr.headD 0
  let ptr := ptr.tail
  if op ≠ chr '+' ∧ op ≠ chr '-' ∧ op ≠ chr '=' then
    (mode, ascii "Invalid operation: " ++ [op] ++ ascii "\n")
  else
    let perm := scanPerm 0 ptr
    if op = chr '=' then
      let mode := mode &&& ~~~who
      (mode ||| (perm &&& who), [])
    else if op = chr '+' then (mode ||| (perm &&& who), [])
    else (mode &&& ~~~(perm &&& who), [])

inductive Class where
  | u
  | g
  | o
  | a
  deriving DecidableEq, Repr

def Class.char : Class → UInt8
  | .u => chr 'u'
  | .g => chr 'g'
  | .o => chr 'o'
  | .a => chr 'a'

def Class.names : Class → Who → Prop
  | .u, who => who = .user
  | .g, who => who = .group
  | .o, who => who = .other
  | .a, _ => True

inductive Op where
  | plus
  | minus
  | equals
  deriving DecidableEq, Repr

def Op.char : Op → UInt8
  | .plus => chr '+'
  | .minus => chr '-'
  | .equals => chr '='

/-- What an operator makes of a permission of the classes it is for, by whether it is named. -/
def Op.apply : Op → Bool → Bool → Bool
  | .plus, named, old => old || named
  | .minus, named, old => old && !named
  | .equals, named, _ => named

def Perm.char : Perm → UInt8
  | .read => chr 'r'
  | .write => chr 'w'
  | .exec => chr 'x'

def Chosen (classes : List Class) (who : Who) : Prop := classes = [] ∨ ∃ c ∈ classes, c.names who

structure Applied (classes : List Class) (op : Op) (named : Perm → Bool) (mode result : Mode) : Prop where
  chosen : ∀ who perm, Chosen classes who →
    bit result (place who perm) = op.apply (named perm) (bit mode (place who perm))
  others : ∀ who perm, ¬ Chosen classes who → bit result (place who perm) = bit mode (place who perm)
  /-- The type of the file and its set-id and sticky bits. -/
  frame : ∀ i, 9 ≤ i → bit result i = bit mode i

section Masks

variable {mode : Mode} {classes : List Class} {op : Op} {rest : Bytes} {i : Nat}

theorem place_surjective (inside : i < 9) : ∃ who perm, i = place who perm := by
  match i with
  | 8 => exact ⟨.user, .read, rfl⟩
  | 7 => exact ⟨.user, .write, rfl⟩
  | 6 => exact ⟨.user, .exec, rfl⟩
  | 5 => exact ⟨.group, .read, rfl⟩
  | 4 => exact ⟨.group, .write, rfl⟩
  | 3 => exact ⟨.group, .exec, rfl⟩
  | 2 => exact ⟨.other, .read, rfl⟩
  | 1 => exact ⟨.other, .write, rfl⟩
  | 0 => exact ⟨.other, .exec, rfl⟩
  | i + 9 => omega

theorem bit_beyond {mask : Mode} (small : mask.toNat < 2 ^ 9) (beyond : 9 ≤ i) : bit mask i = false :=
  Nat.testBit_lt_two_pow (Nat.lt_of_lt_of_le small (Nat.pow_le_pow_right (by decide) beyond))

theorem classBits_place (c : Class) (who : Who) (perm : Perm) :
    bit (classBits c.char) (place who perm) ↔ c.names who := by
  cases c <;> cases who <;> cases perm <;> simp only [Class.names, reduceCtorEq] <;> decide

theorem classBits_small (c : Class) : (classBits c.char).toNat < 2 ^ 9 := by
  cases c <;> decide

theorem permBits_place (c : UInt8) (who : Who) (perm : Perm) :
    bit (permBits c) (place who perm) ↔ c = perm.char := by
  unfold permBits
  split
  next same =>
    subst same
    cases who <;> cases perm <;> decide
  next notRead =>
    split
    next same =>
      subst same
      cases who <;> cases perm <;> decide
    next notWrite =>
      split
      next same =>
        subst same
        cases who <;> cases perm <;> decide
      next notExec => cases perm <;> simp [Perm.char, notRead, notWrite, notExec]

/-- The letters in front, up to one that is none of them. -/
theorem scanWho_classes (who : Mode) (classes : List Class) (tail : Bytes)
    (ends : ∀ c : Class, tail.head? ≠ some c.char) :
    scanWho who (classes.map Class.char ++ tail) =
      (classes.foldl (fun who c => who ||| classBits c.char) who, tail) := by
  induction classes generalizing who with
  | nil =>
    cases tail with
    | nil => rfl
    | cons c ptr =>
      have none : ¬ (c = chr 'u' ∨ c = chr 'g' ∨ c = chr 'o' ∨ c = chr 'a') := by
        rintro (same | same | same | same)
        · exact ends .u (congrArg some same)
        · exact ends .g (congrArg some same)
        · exact ends .o (congrArg some same)
        · exact ends .a (congrArg some same)
      simp only [List.map_nil, List.nil_append, scanWho, if_neg none, List.foldl_nil]
  | cons c classes ih =>
    have letter : c.char = chr 'u' ∨ c.char = chr 'g' ∨ c.char = chr 'o' ∨ c.char = chr 'a' := by
      cases c <;> simp [Class.char]
    simp only [List.map_cons, List.cons_append, scanWho, if_pos letter, ih, List.foldl_cons]

theorem bit_foldl (f : α → Mode) (as : List α) (mask : Mode) (i : Nat) :
    bit (as.foldl (fun mask a => mask ||| f a) mask) i = true ↔
      bit mask i = true ∨ ∃ a ∈ as, bit (f a) i = true := by
  induction as generalizing mask with
  | nil => simp
  | cons a as ih => simp [ih, or_assoc]

theorem scanPerm_foldl (perm : Mode) (ptr : Bytes) :
    scanPerm perm ptr = ptr.foldl (fun perm c => perm ||| permBits c) perm := by
  induction ptr generalizing perm with
  | nil => rfl
  | cons c ptr ih => exact ih _

theorem scanPerm_place (rest : Bytes) (who : Who) (perm : Perm) :
    bit (scanPerm 0 rest) (place who perm) = decide (perm.char ∈ rest) := by
  rw [Bool.eq_iff_iff, scanPerm_foldl, bit_foldl, decide_eq_true_eq]
  simp only [bit_zero, Bool.false_eq_true, false_or, permBits_place, exists_eq_right]

def whoMask (classes : List Class) : Mode :=
  let who := classes.foldl (fun who c => who ||| classBits c.char) 0
  if who = 0 then 0o777 else who

theorem mask_eq_zero (classes : List Class) :
    classes.foldl (fun who c => who ||| classBits c.char) 0 = (0 : Mode) ↔ classes = [] := by
  constructor
  · intro zero
    by_contra some
    obtain ⟨c, more, rfl⟩ := List.exists_cons_of_ne_nil some
    have named : ∃ who, c.names who := by
      cases c with
      | u => exact ⟨.user, rfl⟩
      | g => exact ⟨.group, rfl⟩
      | o => exact ⟨.other, rfl⟩
      | a => exact ⟨.user, trivial⟩
    obtain ⟨who, names⟩ := named
    have up := (bit_foldl (fun c : Class => classBits c.char) (c :: more) 0 (place who .read)).mpr
      (.inr ⟨c, List.mem_cons_self, (classBits_place c who .read).mpr names⟩)
    rw [zero, bit_zero] at up
    contradiction
  · rintro rfl
    rfl

theorem whoMask_place (classes : List Class) (who : Who) (perm : Perm) :
    bit (whoMask classes) (place who perm) ↔ Chosen classes who := by
  simp only [whoMask, mask_eq_zero, Chosen]
  by_cases none : classes = []
  · simp only [none, if_true, true_or, iff_true]
    cases who <;> cases perm <;> decide
  · simp only [none, if_false, bit_foldl, false_or, bit_zero, Bool.false_eq_true, classBits_place]

theorem whoMask_beyond (classes : List Class) (beyond : 9 ≤ i) : bit (whoMask classes) i = false := by
  rw [whoMask, Bool.eq_false_iff]
  split
  · rw [bit_beyond (by decide) beyond]
    nofun
  · rw [Ne, bit_foldl]
    rintro (up | ⟨c, _, up⟩)
    · rw [bit_zero] at up
      contradiction
    · rw [bit_beyond (classBits_small c) beyond] at up
      contradiction

theorem op_apart (op : Op) (c : Class) : op.char ≠ c.char := by
  cases op <;> cases c <;> decide

/-- The mode that comes of letters, an operator and a text behind it. -/
theorem symbolicAccess_text (mode : Mode) (classes : List Class) (op : Op) (rest : Bytes) :
    symbolicAccess mode (classes.map Class.char ++ op.char :: rest) =
      match op with
      | .equals => ((mode &&& ~~~whoMask classes) ||| (scanPerm 0 rest &&& whoMask classes), [])
      | .plus => (mode ||| (scanPerm 0 rest &&& whoMask classes), [])
      | .minus => (mode &&& ~~~(scanPerm 0 rest &&& whoMask classes), []) := by
  have scanned := scanWho_classes 0 classes (op.char :: rest) fun c same =>
    op_apart op c (Option.some.inj same)
  simp only [symbolicAccess, scanned, List.headD_cons, List.tail_cons]
  cases op with
  | plus => rfl
  | minus => rfl
  | equals => rfl

/-- Each permission of the mode by what the string says of it. -/
theorem symbolicAccess_applied (mode : Mode) (classes : List Class) (op : Op) (rest : Bytes) :
    Applied classes op (fun perm => perm.char ∈ rest) mode
      (symbolicAccess mode (classes.map Class.char ++ op.char :: rest)).1 := by
  rw [symbolicAccess_text]
  constructor
  · intro who perm chosen
    have covered := (whoMask_place classes who perm).mpr chosen
    cases op <;> simp [covered, scanPerm_place, Op.apply]
  · intro who perm other
    have left := Bool.eq_false_iff.mpr fun up => other ((whoMask_place classes who perm).mp up)
    cases op <;> simp [left]
  · intro i beyond
    have left := whoMask_beyond classes beyond
    cases op <;> simp [left]

theorem Applied.unique {named : Perm → Bool} {first second : Mode}
    (one : Applied classes op named mode first) (two : Applied classes op named mode second) :
    first = second := by
  apply ext
  intro i _
  by_cases inside : i < 9
  · obtain ⟨who, perm, rfl⟩ := place_surjective inside
    by_cases chosen : Chosen classes who
    · rw [one.chosen who perm chosen, two.chosen who perm chosen]
    · rw [one.others who perm chosen, two.others who perm chosen]
  · rw [one.frame i (Nat.not_lt.mp inside), two.frame i (Nat.not_lt.mp inside)]

end Masks

section Strings

/-- A string of the form `[ugoa]*[+-=][rwx]*`. -/
structure Symbolic where
  classes : List Class
  op : Op
  perms : List Perm
  deriving DecidableEq, Repr

def Symbolic.text (s : Symbolic) : Bytes := s.classes.map Class.char ++ s.op.char :: s.perms.map Perm.char

theorem perm_named (perm : Perm) (perms : List Perm) : perm.char ∈ perms.map Perm.char ↔ perm ∈ perms := by
  have apart : Function.Injective Perm.char := by
    intro a b
    cases a <;> cases b <;> decide
  exact List.mem_map_of_injective apart

theorem symbolicAccess_symbolic (mode : Mode) (s : Symbolic) :
    Applied s.classes s.op (fun perm => perm ∈ s.perms) mode (symbolicAccess mode s.text).1 := by
  have applied := symbolicAccess_applied mode s.classes s.op (s.perms.map Perm.char)
  simpa only [perm_named, Symbolic.text] using applied

theorem symbolicAccess_silent (mode : Mode) (s : Symbolic) : (symbolicAccess mode s.text).2 = [] := by
  rw [Symbolic.text, symbolicAccess_text]
  cases s.op <;> rfl

theorem chosen_congr {classes others : List Class} (same : ∀ c, c ∈ others ↔ c ∈ classes) (who : Who) :
    Chosen others who ↔ Chosen classes who := by
  simp only [Chosen, List.eq_nil_iff_forall_not_mem, same]

theorem applied_congr {classes others : List Class} {op : Op} {named named' : Perm → Bool} {mode result : Mode}
    (applied : Applied others op named' mode result) (same : ∀ c, c ∈ others ↔ c ∈ classes)
    (letters : named' = named) : Applied classes op named mode result := by
  subst letters
  constructor
  · intro who perm chosen
    exact applied.chosen who perm ((chosen_congr same who).mpr chosen)
  · intro who perm other
    exact applied.others who perm fun chosen => other ((chosen_congr same who).mp chosen)
  · exact applied.frame

/-- A symbolic string sets, clears or replaces the permissions it names, for the classes it names, and
nothing else, whatever the order of its letters. -/
theorem symbolicAccess_correct (mode : Mode) (s : Symbolic) :
    Applied s.classes s.op (fun perm => perm ∈ s.perms) mode (symbolicAccess mode s.text).1 ∧
      ∀ other : Symbolic, other.op = s.op → (∀ c, c ∈ other.classes ↔ c ∈ s.classes) →
        (∀ perm, perm ∈ other.perms ↔ perm ∈ s.perms) →
        symbolicAccess mode other.text = symbolicAccess mode s.text := by
  have applied := symbolicAccess_symbolic mode s
  refine ⟨applied, ?_⟩
  rintro ⟨classes, op, perms⟩ rfl sameClasses samePerms
  have again := symbolicAccess_symbolic mode ⟨classes, s.op, perms⟩
  have named : (fun perm => decide (perm ∈ perms)) = fun perm => decide (perm ∈ s.perms) := by
    funext perm
    simp only [samePerms]
  apply Prod.ext
  · exact (applied_congr again sameClasses named).unique applied
  · rw [symbolicAccess_silent, symbolicAccess_silent]

end Strings
end Tasks.Shell
