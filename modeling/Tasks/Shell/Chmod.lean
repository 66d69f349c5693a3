import Tasks.Kit.Strtol
import Tasks.Shell.Symbolic
import Mathlib.Logic.Function.Basic

/-! Module 2, Task 3.1: the command `chmod` on a file of the directory. -/
namespace Tasks.Shell

open Kit Kit.Bits Kit.Bytes Kit.Strtol

/-- The system call sets the permission bits and keeps the type. -/
def sysChmod (file mode : Mode) : Mode := (file &&& ~~~0o7777) ||| (mode &&& 0o7777)

inductive Report where
  | usage
  | statFails
  | chmodFails
  | changed (mode : Mode) (str : Bytes)
  deriving DecidableEq, Repr

def Report.text (filename : Bytes) : Report → Bytes
  | .usage => ascii "Incorrect usage: chmod <access> <filename>\n"
  | .statFails => []
  | .chmodFails => []
  | .changed mode str =>
    ascii "Permissions of '" ++ filename ++ ascii "' changed to:\nOctal: " ++
      (Nat.toDigits 8 mode.toNat).map chr ++ ascii "\nSymbolic: " ++ str ++ ascii "\nBitwise: " ++
      printBit mode ++ ascii "\n"

/-- `isdigit(access[0])` -/
def digitFirst (access : Bytes) : Bool := Scan.digit (access.headD 0)

/-- The mode for the system call, and what is printed on the way. -/
def newMode (st_mode : Mode) (access : Bytes) : Mode × Bytes :=
  if digitFirst access then (.ofInt (strtol 8 access), []) else symbolicAccess st_mode access

structure Done where
  files : Files
  printed : Bytes
  report : Report

/-- `succeeds` tells whether the system call does. -/
def chmod (files : Files) (succeeds : Bool) (access filename : Option Bytes) : Done :=
  match access, filename with
  | some access, some filename =>
    match files filename with
    | none => ⟨files, [], .statFails⟩
    | some st_mode =>
      let (mode, printed) := newMode st_mode access
      if succeeds then
        ⟨Function.update files filename (some (sysChmod st_mode mode)), printed,
          .changed mode (toString mode)⟩
      else ⟨files, printed, .chmodFails⟩
  | _, _ => ⟨files, [], .usage⟩

section Modes

variable {file mode other : Mode} {i : Nat}

theorem bit_permissions (i : Nat) : bit 0o7777 i = decide (i < 12) :=
  Nat.testBit_two_pow_sub_one 12 i

theorem sysChmod_bit (file mode : Mode) (i : Nat) :
    bit (sysChmod file mode) i = if i < 12 then bit mode i else bit file i := by
  rw [sysChmod, bit_or, bit_and_not, bit_and, bit_permissions]
  split
  next inside => simp [inside]
  next beyond => simp [beyond]

theorem sysChmod_low (file mode : Mode) (inside : i < 12) : bit (sysChmod file mode) i = bit mode i := by
  rw [sysChmod_bit, if_pos inside]

theorem sysChmod_high (file mode : Mode) (beyond : 12 ≤ i) : bit (sysChmod file mode) i = bit file i := by
  rw [sysChmod_bit, if_neg (Nat.not_lt.mpr beyond)]

theorem sysChmod_same (file mode : Mode) :
    sysChmod file mode = file ↔ ∀ i, i < 12 → bit mode i = bit file i := by
  constructor
  · intro same i inside
    rw [← sysChmod_low file mode inside, same]
  · intro agree
    apply ext
    intro i _
    by_cases inside : i < 12
    · rw [sysChmod_low file mode inside, agree i inside]
    · exact sysChmod_high file mode (Nat.not_lt.mp inside)

theorem bit_typeMask (i : Nat) : bit typeMask i = (decide (12 ≤ i) && decide (i - 12 < 4)) := by
  have mask : typeMask.toNat = (2 ^ 4 - 1) * 2 ^ 12 := rfl
  rw [bit_testBit, mask, Nat.testBit_mul_two_pow, Nat.testBit_two_pow_sub_one]

theorem and_typeMask (mode : Mode) : (mode &&& typeMask).toNat = mode.toNat / 2 ^ 12 % 2 ^ 4 * 2 ^ 12 := by
  apply Nat.eq_of_testBit_eq
  intro i
  rw [← bit_testBit, bit_and, bit_typeMask, bit_testBit, Nat.testBit_mul_two_pow, Nat.testBit_mod_two_pow,
    Nat.testBit_div_two_pow]
  by_cases inside : 12 ≤ i
  · have back : i - 12 + 12 = i := Nat.sub_add_cancel inside
    simp only [inside, decide_true, Bool.true_and, back, Bool.and_comm]
  · simp only [inside, decide_false, Bool.false_and, Bool.and_false]

theorem isDir_iff (mode : Mode) : isDir mode ↔ mode.toNat / 2 ^ 12 % 2 ^ 4 = 4 := by
  have directory : (0o040000 : UInt32).toNat = 4 * 2 ^ 12 := rfl
  rw [isDir, ← UInt32.toNat_inj, and_typeMask, directory]
  omega

theorem isDir_congr (same : ∀ i, 12 ≤ i → bit mode i = bit other i) : isDir mode ↔ isDir other := by
  have masked : mode &&& typeMask = other &&& typeMask := by
    apply ext
    intro i _
    rw [bit_and, bit_and, bit_typeMask]
    by_cases beyond : 12 ≤ i
    · rw [same i beyond]
    · simp only [beyond, decide_false, Bool.false_and, Bool.and_false]
  rw [isDir, isDir, masked]

end Modes

section Texts

variable {file : Mode} {access rest tail : Bytes} {classes : List Class} {op : Op}

/-- A non-empty string of octal digits with a value up to `07777`. -/
def IsOctal (access : Bytes) : Prop :=
  access ≠ [] ∧ (∀ x ∈ access, digit 8 x) ∧ value 8 access ≤ 0o7777

def Accepted (access : Bytes) : Prop := IsOctal access ∨ ∃ s : Symbolic, s.text = access

/-- What `strtol` makes of a string with a digit in front: the octal digits up to the first
character that is none, whatever comes behind them. -/
def octalArgument (access : Bytes) : Nat := min (leading 8 access) (2 ^ 63 - 1)

theorem strtol_octal (first : digitFirst access) : strtol 8 access = octalArgument access := by
  cases access with
  | nil => contradiction
  | cons x text =>
    have low : longMin ≤ 0 := by decide
    have high : longMax = (2 ^ 63 - 1 : Nat) := rfl
    have read : signed 8 (x :: text) = leading 8 (x :: text) := signed_digit text first
    rw [strtol, read, high, octalArgument]
    omega

theorem newMode_octal (file : Mode) (first : digitFirst access) :
    (newMode file access).1.toNat = octalArgument access % 2 ^ 32 := by
  rw [newMode, if_pos first, strtol_octal first]
  exact toNat_ofInt (octalArgument access)

theorem newMode_symbolic (file : Mode) (letter : digitFirst access = false) :
    newMode file access = symbolicAccess file access := by
  simp only [newMode, letter, Bool.false_eq_true, if_false]

/-- Letters and an operator are no digits. -/
theorem digitFirst_text (classes : List Class) (op : Op) (rest : Bytes) :
    digitFirst (classes.map Class.char ++ op.char :: rest) = false := by
  cases classes with
  | nil => cases op <;> rfl
  | cons c classes => cases c <;> rfl

/-- Every text is letters for whom and what stands behind them. -/
theorem text_letters (access : Bytes) : ∃ (classes : List Class) (tail : Bytes),
    access = classes.map Class.char ++ tail ∧ ∀ c : Class, tail.head? ≠ some c.char := by
  induction access with
  | nil => exact ⟨[], [], rfl, nofun⟩
  | cons x access ih =>
    by_cases letter : ∃ c : Class, c.char = x
    · obtain ⟨c, rfl⟩ := letter
      obtain ⟨classes, tail, rfl, ends⟩ := ih
      exact ⟨c :: classes, tail, rfl, ends⟩
    · refine ⟨[], x :: access, rfl, fun c same => letter ⟨c, ?_⟩⟩
      exact (Option.some.inj same).symm

/-- Without an operator behind the letters the mode is left. -/
theorem symbolicAccess_other (file : Mode) (ends : ∀ c : Class, tail.head? ≠ some c.char)
    (noOp : ∀ op : Op, tail.head? ≠ some op.char) :
    (symbolicAccess file (classes.map Class.char ++ tail)).1 = file := by
  have invalid : tail.headD 0 ≠ chr '+' ∧ tail.headD 0 ≠ chr '-' ∧ tail.headD 0 ≠ chr '=' := by
    cases tail with
    | nil => decide
    | cons x tail =>
      exact ⟨fun same => noOp .plus (congrArg some same), fun same => noOp .minus (congrArg some same),
        fun same => noOp .equals (congrArg some same)⟩
  simp only [symbolicAccess, scanWho_classes 0 classes tail ends, if_pos invalid]

/-- The permissions that a string asks for are those that the file has. -/
structure Harmless (file : Mode) (access : Bytes) : Prop where
  digits : digitFirst access → octalArgument access % 2 ^ 12 = file.toNat % 2 ^ 12
  letters : ∀ (classes : List Class) (op : Op) (rest : Bytes), access = classes.map Class.char ++ op.char :: rest →
    ∀ who perm, Chosen classes who →
      op.apply (perm.char ∈ rest) (bit file (place who perm)) = bit file (place who perm)

theorem same_octal (file : Mode) (first : digitFirst access) :
    sysChmod file (newMode file access).1 = file ↔ Harmless file access := by
  have short : octalArgument access % 2 ^ 32 % 2 ^ 12 = octalArgument access % 2 ^ 12 :=
    Nat.mod_mod_of_dvd _ (by decide)
  rw [sysChmod_same, ← low_eq_iff, newMode_octal file first, short]
  constructor
  · intro same
    refine ⟨fun _ => same, ?_⟩
    rintro classes op rest rfl
    rw [digitFirst_text] at first
    contradiction
  · intro harmless
    exact harmless.digits first

theorem same_symbolic (file : Mode) (classes : List Class) (op : Op) (rest : Bytes) :
    sysChmod file (symbolicAccess file (classes.map Class.char ++ op.char :: rest)).1 = file ↔
      ∀ who perm, Chosen classes who →
        op.apply (perm.char ∈ rest) (bit file (place who perm)) = bit file (place who perm) := by
  have applied := symbolicAccess_applied file classes op rest
  rw [sysChmod_same]
  constructor
  · intro same who perm chosen
    have inside := place_inside who perm
    rw [← applied.chosen who perm chosen]
    apply same
    omega
  · intro same i _
    by_cases inside : i < 9
    · obtain ⟨who, perm, rfl⟩ := place_surjective inside
      by_cases chosen : Chosen classes who
      · rw [applied.chosen who perm chosen, same who perm chosen]
      · exact applied.others who perm chosen
    · exact applied.frame i (Nat.not_lt.mp inside)

/-- The letters in front are determined, as the scan finds what stands behind them. -/
theorem letters_unique {others : List Class} {tail' : Bytes} (ends : ∀ c : Class, tail.head? ≠ some c.char)
    (ends' : ∀ c : Class, tail'.head? ≠ some c.char)
    (same : classes.map Class.char ++ tail = others.map Class.char ++ tail') :
    classes = others ∧ tail = tail' := by
  have apart : Function.Injective Class.char := by
    intro c c'
    cases c <;> cases c' <;> decide
  have scans := congrArg (fun text => (scanWho 0 text).2) same
  simp only [scanWho_classes 0 _ _ ends, scanWho_classes 0 _ _ ends'] at scans
  subst scans
  exact ⟨List.map_injective_iff.mpr apart (List.append_cancel_right same), rfl⟩

theorem op_injective : Function.Injective Op.char := by
  intro op op'
  cases op <;> cases op' <;> decide

theorem op_ends (op : Op) (rest : Bytes) (c : Class) : (op.char :: rest).head? ≠ some c.char := by
  intro same
  exact op_apart op c (Option.some.inj same)

/-- The call leaves the mode where the string asks for what is there, and for no other string. -/
theorem harmless_iff (file : Mode) (access : Bytes) :
    sysChmod file (newMode file access).1 = file ↔ Harmless file access := by
  by_cases first : digitFirst access
  · exact same_octal file first
  · have letter := Bool.eq_false_iff.mpr first
    rw [newMode_symbolic file letter]
    obtain ⟨classes, tail, rfl, ends⟩ := text_letters access
    by_cases operator : ∃ op : Op, tail.head? = some op.char
    · obtain ⟨op, head⟩ := operator
      obtain ⟨rest, rfl⟩ := List.head?_eq_some_iff.mp head
      rw [same_symbolic]
      constructor
      · intro same
        refine ⟨fun digit => absurd digit first, ?_⟩
        intro others op' rest' text
        obtain ⟨rfl, behind⟩ := letters_unique ends (op_ends op' rest') text
        obtain ⟨ops, rfl⟩ := List.cons.inj behind
        rw [op_injective ops] at same
        exact same
      · intro harmless
        exact harmless.letters classes op rest rfl
    · have noOp (op : Op) : tail.head? ≠ some op.char := fun head => operator ⟨op, head⟩
      rw [symbolicAccess_other file ends noOp]
      refine iff_of_true ((sysChmod_same file file).mpr fun _ _ => rfl) ⟨fun digit => absurd digit first, ?_⟩
      intro others op rest text
      obtain ⟨_, rfl⟩ := letters_unique ends (op_ends op rest) text
      exact absurd rfl (noOp op)

end Texts

section Runs

variable {files : Files} {file mode : Mode} {access filename str : Bytes} {succeeds : Bool}

/-- The directory after the command. -/
theorem chmod_files (files : Files) (succeeds : Bool) (access filename : Bytes) :
    (chmod files succeeds (some access) (some filename)).files =
      match files filename with
      | some file =>
        if succeeds then Function.update files filename (some (sysChmod file (newMode file access).1)) else files
      | none => files := by
  simp only [chmod]
  cases found : files filename with
  | none => rfl
  | some file => cases succeeds <;> rfl

theorem chmod_report (access : Bytes) (found : files filename = some file) :
    (chmod files true (some access) (some filename)).report =
      .changed (newMode file access).1 (toString (newMode file access).1) := by
  simp only [chmod, found, if_true]

/-- A string that is none of the accepted ones leaves the modes of all files only where the system call
fails, there is no such file, or the permissions that the string asks for are those of the file: the value
of `strtol` and the masks are used whatever they left unread. -/
theorem rejects_iff (files : Files) (succeeds : Bool) (access filename : Bytes) :
    (¬ Accepted access → (chmod files succeeds (some access) (some filename)).files = files) ↔
      Accepted access ∨ succeeds = false ∨ ∀ file, files filename = some file → Harmless file access := by
  rw [← or_iff_not_imp_left, chmod_files]
  apply or_congr_right
  cases succeeds with
  | false => cases files filename <;> simp
  | true =>
    cases found : files filename with
    | none => simp
    | some file =>
      simp only [if_true, Function.update_eq_self_iff, found, Option.some.injEq, harmless_iff,
        Bool.true_eq_false, false_or, forall_eq']

/-- The digit `9` is no octal one, and takes all permissions away. -/
theorem nine_accepted : ¬ ∀ (files : Files) (succeeds : Bool) (access filename : Bytes),
    ¬ Accepted access → (chmod files succeeds (some access) (some filename)).files = files := by
  intro rejected
  have unread : ¬ Accepted [57] := by
    rintro (⟨_, digits, _⟩ | ⟨s, text⟩)
    · exact absurd (digits 57 List.mem_cons_self) (by decide)
    · have letter := digitFirst_text s.classes s.op (s.perms.map Perm.char)
      rw [← Symbolic.text, text] at letter
      contradiction
  have left := congrFun (rejected (fun _ => some 0o100644) true [57] [97] unread) [97]
  revert left
  decide

/-- What the command prints of the mode is what `coolCheck` prints of the file after it. -/
def Agrees (done : Done) (filename : Bytes) : Prop :=
  ∀ mode str, done.report = .changed mode str → ∀ entries, filename ∈ entries →
    (str, filename) ∈ coolCheck done.files entries ∧
      ∀ line ∈ coolCheck done.files entries, line.2 = filename → line.1 = str

theorem coolCheck_line (files : Files) (entries : List Bytes) (line : Bytes × Bytes) :
    line ∈ coolCheck files entries ↔ line.2 ∈ entries ∧ (files line.2).map coolMode = some line.1 := by
  obtain ⟨mode, name⟩ := line
  simp only [coolCheck, List.mem_filterMap, Option.map_eq_some_iff, Prod.mk.injEq]
  constructor
  · rintro ⟨_, member, file, found, rfl, rfl⟩
    exact ⟨member, file, found, rfl⟩
  · rintro ⟨member, file, found, rfl⟩
    exact ⟨name, member, file, found, rfl, rfl⟩

theorem agrees_iff (found : files filename = some file) :
    Agrees (chmod files true (some access) (some filename)) filename ↔
      coolMode (sysChmod file (newMode file access).1) = coolMode (newMode file access).1 := by
  have report := chmod_report access found
  have after : (chmod files true (some access) (some filename)).files filename =
      some (sysChmod file (newMode file access).1) := by
    simp only [chmod_files, found, if_true, Function.update_self]
  simp only [Agrees, report, Report.changed.injEq, coolCheck_line]
  constructor
  · intro agrees
    have shown := (agrees _ _ ⟨rfl, rfl⟩ [filename] List.mem_cons_self).1.2
    rw [after, toString_coolMode] at shown
    exact Option.some.inj shown
  · rintro same _ _ ⟨rfl, rfl⟩ entries member
    have shown : ((chmod files true (some access) (some filename)).files filename).map coolMode =
        some (toString (newMode file access).1) := by
      rw [after, Option.map_some, same, toString_coolMode]
    refine ⟨⟨member, shown⟩, ?_⟩
    rintro ⟨line, name⟩ ⟨_, found⟩ rfl
    exact Option.some.inj (found.symm.trans shown)

theorem coolMode_type {other : Mode} (same : coolMode mode = coolMode other) : isDir mode ↔ isDir other := by
  have first := (List.cons.inj same).1
  have apart : chr 'd' ≠ chr '-' := by decide
  by_cases one : isDir mode <;> by_cases two : isDir other <;> simp_all

theorem coolMode_after (file mode : Mode) :
    coolMode (sysChmod file mode) = coolMode mode ↔ (isDir file ↔ isDir mode) := by
  have kept : isDir (sysChmod file mode) ↔ isDir file := isDir_congr fun i beyond => sysChmod_high file mode beyond
  rw [← kept]
  constructor
  · exact coolMode_type
  · intro type
    apply coolMode_congr type
    intro i inside
    exact sysChmod_low file mode (Nat.lt_of_lt_of_le inside (by decide))

theorem isDir_symbolic (file : Mode) (access : Bytes) : isDir (symbolicAccess file access).1 ↔ isDir file := by
  obtain ⟨classes, tail, rfl, ends⟩ := text_letters access
  by_cases operator : ∃ op : Op, tail.head? = some op.char
  · obtain ⟨op, head⟩ := operator
    obtain ⟨rest, rfl⟩ := List.head?_eq_some_iff.mp head
    have applied := symbolicAccess_applied file classes op rest
    exact isDir_congr fun i beyond => applied.frame i (Nat.le_trans (by decide) beyond)
  · rw [symbolicAccess_other file ends fun op head => operator ⟨op, head⟩]

theorem isDir_octal (file : Mode) (first : digitFirst access) :
    isDir (newMode file access).1 ↔ octalArgument access / 2 ^ 12 % 2 ^ 4 = 4 := by
  rw [isDir_iff, newMode_octal file first]
  omega

/-- What is printed agrees with `ls -l` but where an octal argument, which becomes the whole mode, says
of the type what the file is not. -/
theorem report_agrees_iff (files : Files) (access filename : Bytes) :
    Agrees (chmod files true (some access) (some filename)) filename ↔
      ∀ file, files filename = some file → digitFirst access →
        (isDir file ↔ octalArgument access / 2 ^ 12 % 2 ^ 4 = 4) := by
  cases found : files filename with
  | none => simp [Agrees, chmod, found]
  | some file =>
    rw [agrees_iff found, coolMode_after]
    simp only [Option.some.injEq, forall_eq']
    by_cases first : digitFirst access
    · rw [isDir_octal file first]
      simp only [first, forall_const]
    · have letter := Bool.eq_false_iff.mpr first
      rw [newMode_symbolic file letter, isDir_symbolic]
      exact iff_of_true Iff.rfl fun digit => absurd digit first

/-- A directory becomes `-rwxr-xr-x` in the report of `chmod 755`. -/
theorem directory_misreported : ¬ ∀ (files : Files) (access filename : Bytes),
    Agrees (chmod files true (some access) (some filename)) filename := by
  intro agrees
  have shown := (agrees (fun _ => some 0o040755) (ascii "755") [100] _ _ rfl [[100]] List.mem_cons_self).1
  revert shown
  decide

end Runs
end Tasks.Shell
