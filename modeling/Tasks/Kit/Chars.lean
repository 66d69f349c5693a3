import Tasks.Kit.Bytes

/-! Members of type `char[n]`, with what stands behind their terminator, and arrays of records
that have such members. -/
namespace Tasks.Kit

/-- Which array an access left: the one of records, or a member of one record. -/
inductive Overrun where
  | array
  | member
  deriving DecidableEq, Repr

def inArray (access : Except Fault α) : Except Overrun α := access.mapError fun _ => .array

def inMember (access : Except Fault α) : Except Overrun α := access.mapError fun _ => .member

/-- An overrun in a program that faults otherwise too. -/
def memory (access : Except Overrun α) : Except Fault α := access.mapError fun _ => .outOfBounds

@[simp] theorem inArray_ok (a : α) : inArray (.ok a) = .ok a := rfl

@[simp] theorem inArray_error (fault : Fault) :
    (inArray (.error fault) : Except Overrun α) = .error .array := rfl

@[simp] theorem inMember_ok (a : α) : inMember (.ok a) = .ok a := rfl

theorem memory_eq_ok {access : Except Overrun α} : memory access = .ok a ↔ access = .ok a := mapError_eq_ok

/-- Whatever comes of the access, it does not leave the array of records. -/
structure Within (access : Except Overrun α) : Prop where
  inside : access ≠ .error .array

theorem Within.ok (a : α) : Within (.ok a) := ⟨nofun⟩

theorem Within.member : Within (.error .member : Except Overrun α) := ⟨nofun⟩

theorem Within.bind {access : Except Overrun α} {next : α → Except Overrun β} (first : Within access)
    (rest : ∀ a, access = .ok a → Within (next a)) : Within (access >>= next) := by
  cases access with
  | error overrun =>
    cases overrun with
    | array => exact absurd rfl first.inside
    | member => exact .member
  | ok a => exact rest a rfl

theorem Within.mapM {f : α → Except Overrun β} (each : ∀ a, Within (f a)) (as : List α) :
    Within (as.mapM f) := by
  induction as with
  | nil => exact .ok _
  | cons a as ih =>
    rw [List.mapM_cons]
    exact .bind (each a) fun _ _ => .bind ih fun _ _ => .ok _

theorem inMember_within (access : Except Fault α) : Within (inMember access) := by
  cases access with
  | error fault => exact .member
  | ok a => exact .ok a

abbrev Chars (size : Nat) := Vector UInt8 size

namespace Chars

def put (field : Chars size) (text : Bytes) : Except Overrun (Chars size) :=
  inMember do Bytes.load (← Bytes.memcpy field.toList 0 (text ++ [0])) 0 size

def text (field : Chars size) : Except Overrun Bytes := inMember (Bytes.cstr field.toList 0)

/-- `strcspn(field, "\n")` -/
def strcspn (field : Chars size) : Except Overrun Nat :=
  match field.toList.findIdx? fun x => x = 0 || x = 10 with
  | some i => .ok i
  | none => .error .member

/-- `field[i] = '\0'` -/
def cut (field : Chars size) (i : Nat) : Except Overrun (Chars size) :=
  if inside : i < size then .ok (field.set i 0) else .error .member

/-- `field[strcspn(field, "\n")] = '\0'` -/
def trim (field : Chars size) : Except Overrun (Chars size) := do cut field (← strcspn field)

/-- `strncpy` into a member of the same size: the text and then zeros. -/
def strncpy (source : Chars size) : Chars size :=
  .ofFn fun i => ((source.toList.takeWhile (· ≠ 0))[i.val]?).getD 0

/-- `fgets` into a member, which stays as it is at the end of the input. -/
def receive (field : Chars size) (input : Bytes) :
    Option (Bytes × Bytes) → Except Overrun (Chars size × Bytes)
  | none => .ok (field, input)
  | some (line, rest) => do return (← field.put line, rest)

theorem put_within (field : Chars size) (text : Bytes) : Within (field.put text) := inMember_within _

theorem text_within (field : Chars size) : Within field.text := inMember_within _

theorem strcspn_within (field : Chars size) : Within field.strcspn := by
  unfold strcspn
  split
  · exact .ok _
  · exact .member

theorem cut_within (field : Chars size) (i : Nat) : Within (field.cut i) := by
  unfold cut
  split
  · exact .ok _
  · exact .member

theorem receive_within (field : Chars size) (input : Bytes) (line : Option (Bytes × Bytes)) :
    Within (field.receive input line) := by
  cases line with
  | none => exact .ok _
  | some line => exact .bind (put_within field line.1) fun _ _ => .ok _

theorem trim_within (field : Chars size) : Within field.trim :=
  .bind (strcspn_within field) fun _ _ => cut_within ..

/-- The text that `%s` prints, if there is a terminator. -/
def shown (field : Chars size) : Bytes := field.toList.takeWhile (· ≠ 0)

def Stores (field : Chars size) (bytes : Bytes) : Prop := ∃ after, field.toList = bytes ++ 0 :: after

def Holds (field : Chars size) (text : Bytes) : Prop := 0 ∉ text ∧ Stores field text

section Texts

variable {field field' : Chars size} {t : Bytes}

theorem Holds.shown (holds : Holds field t) : field.shown = t := by
  obtain ⟨clean, after, whole⟩ := holds
  rw [Chars.shown, whole, Bytes.text_nul clean]

theorem Holds.text (holds : Holds field t) : field.text = .ok t := by
  obtain ⟨clean, after, whole⟩ := holds
  have found := Bytes.cstr_append [] clean after
  rw [List.nil_append, List.length_nil, ← whole] at found
  rw [Chars.text, found, inMember_ok]

theorem Stores.length (stores : Stores field t) : t.length < size := by
  obtain ⟨after, whole⟩ := stores
  have lengths := congrArg List.length whole
  simp only [Vector.length_toList, List.length_append, List.length_cons] at lengths
  omega

theorem Holds.length (holds : Holds field t) : t.length < size := holds.2.length

theorem put_stores (field : Chars size) (t : Bytes) (short : t.length < size) :
    ∃ field', field.put t = .ok field' ∧ Stores field' t := by
  have copied : Bytes.memcpy field.toList 0 (t ++ [0]) =
      .ok (t ++ [0] ++ field.toList.drop (t.length + 1)) := by
    have copied := Bytes.memcpy_append [] (field.toList.take (t.length + 1))
      (field.toList.drop (t.length + 1)) (t ++ [0]) (by simp; omega)
    rwa [List.nil_append, List.nil_append, List.take_append_drop] at copied
  have size_eq : (t ++ [0] ++ field.toList.drop (t.length + 1)).toArray.size = size := by
    simp
    omega
  have loaded := Bytes.load_append [] ⟨_, size_eq⟩ []
  simp only [List.nil_append, List.append_nil, Vector.toList_mk, List.length_nil] at loaded
  refine ⟨⟨_, size_eq⟩, ?_, field.toList.drop (t.length + 1), ?_⟩
  · rw [put, copied, ok_bind, loaded, inMember_ok]
  · simp

theorem put_length (done : field.put t = .ok field') : t.length < size := by
  by_contra long
  have refused : Bytes.memcpy field.toList 0 (t ++ [0]) = .error .outOfBounds := by
    apply if_neg
    simp only [List.length_append, List.length_singleton, Vector.length_toList]
    omega
  rw [put, refused, error_bind] at done
  contradiction

theorem stores_of_put (done : field.put t = .ok field') : Stores field' t := by
  obtain ⟨_, again, stores⟩ := put_stores field t (put_length done)
  rw [Except.ok.inj (done.symm.trans again)]
  exact stores

/-- After `trim` a member holds a text of one line. -/
theorem trim_holds (done : field.trim = .ok field') : ∃ t, Holds field' t ∧ 10 ∉ t := by
  obtain ⟨i, found, done⟩ := bind_eq_ok.mp done
  unfold strcspn at found
  split at found
  next j stop =>
    cases found
    obtain ⟨inside, _, passed⟩ := List.findIdx?_eq_some_iff_getElem.mp stop
    have other : ∀ x ∈ field.toList.take i, x ≠ 0 ∧ x ≠ 10 := by
      intro x member
      obtain ⟨k, before, rfl⟩ := List.mem_take_iff_getElem.mp member
      simpa using passed k (by omega)
    unfold cut at done
    split at done
    next bound =>
      cases done
      refine ⟨field.toList.take i, ⟨fun zero => (other 0 zero).1 rfl, field.toList.drop (i + 1), ?_⟩,
        fun newline => (other 10 newline).2 rfl⟩
      rw [Vector.toList_set, List.set_eq_take_append_cons_drop, if_pos inside]
    next => contradiction
  next => contradiction

end Texts

section Copies

variable {field field' source : Chars size} {t : Bytes}

def padded (t : Bytes) : Chars size := .ofFn fun i => (t[i.val]?).getD 0

theorem padded_get (t : Bytes) (i : Nat) (inside : i < size) :
    (padded t : Chars size).toList[i]? = some ((t[i]?).getD 0) := by
  rw [List.getElem?_eq_getElem (by simpa using inside)]
  simp [padded]

theorem padded_toList (fits : t.length ≤ size) :
    (padded t : Chars size).toList = t ++ Bytes.zeros (size - t.length) := by
  apply List.ext_getElem?
  intro i
  by_cases inside : i < size
  · rw [padded_get t i inside]
    by_cases front : i < t.length
    · rw [List.getElem?_append_left front, List.getElem?_eq_getElem front, Option.getD_some]
    · have behind : i - t.length < size - t.length := by omega
      rw [List.getElem?_append_right (Nat.not_lt.mp front), List.getElem?_eq_none (Nat.not_lt.mp front)]
      simp [Bytes.zeros, behind]
  · rw [List.getElem?_eq_none (by simpa using inside), List.getElem?_eq_none]
    simp only [List.length_append, Bytes.zeros_length]
    omega

def Ends (field : Chars size) : Prop := 0 ∈ field.toList

theorem Stores.ends (stores : Stores field t) : Ends field := by
  obtain ⟨after, whole⟩ := stores
  rw [Ends, whole]
  simp

theorem strncpy_stores (stores : Stores source t) (clean : 0 ∉ t) : strncpy source = padded t := by
  have shown : source.toList.takeWhile (· ≠ 0) = t := Holds.shown ⟨clean, stores⟩
  rw [strncpy, shown]
  rfl

theorem padded_ends (short : t.length < size) : Ends (padded t : Chars size) := by
  have found := padded_get t t.length short
  rw [List.getElem?_eq_none (Nat.le_refl _)] at found
  exact List.mem_of_getElem? found

theorem strncpy_ends (ends : Ends source) : Ends (strncpy source) := by
  apply padded_ends
  obtain ⟨text, behind, shape, clean⟩ := List.eq_append_cons_of_mem ends
  have lengths := congrArg List.length shape
  simp only [Vector.length_toList, List.length_append, List.length_cons] at lengths
  have shown : source.toList.takeWhile (· ≠ 0) = text := Holds.shown ⟨clean, behind, shape⟩
  rw [shown]
  omega

theorem strcspn_ends (ends : Ends field) : ∃ i, i < size ∧ field.strcspn = .ok i := by
  unfold strcspn
  cases found : field.toList.findIdx? fun x => x = 0 || x = 10 with
  | none =>
    rw [List.findIdx?_eq_none_iff] at found
    exact absurd (found 0 ends) (by simp)
  | some i =>
    have inside := (List.findIdx?_eq_some_iff_findIdx_eq.mp found).1
    exact ⟨i, by simpa using inside, rfl⟩

/-- A text of one line stops at its terminator, or at its newline. -/
theorem strcspn_line (whole : field.toList = t ++ x :: after) (clean : 0 ∉ t) (oneLine : 10 ∉ t)
    (stop : x = 0 ∨ x = 10) : field.strcspn = .ok t.length := by
  have found : field.toList.findIdx? (fun x => x = 0 || x = 10) = some t.length := by
    rw [whole, List.findIdx?_append, List.findIdx?_eq_none_iff.mpr]
    · simp [List.findIdx?_cons, stop]
    · intro y member
      have nul : y ≠ 0 := fun same => clean (same ▸ member)
      have newline : y ≠ 10 := fun same => oneLine (same ▸ member)
      simp [nul, newline]
  unfold strcspn
  rw [found]

theorem cut_ends (field : Chars size) (inside : i < size) :
    ∃ field', field.cut i = .ok field' ∧ Ends field' := by
  refine ⟨field.set i 0, dif_pos inside, ?_⟩
  rw [Ends, Vector.toList_set]
  exact List.mem_set (by simpa using inside) 0

theorem ends_of_cut (done : field.cut i = .ok field') : Ends field' := by
  unfold cut at done
  split at done
  next inside =>
    obtain ⟨other, again, ends⟩ := cut_ends field inside
    rw [cut, dif_pos inside] at again
    rw [Except.ok.inj (done.symm.trans again)]
    exact ends
  next => contradiction

/-- A text is what is in front of the byte that is cut, if that byte is the one behind it. -/
theorem cut_holds_iff (whole : field.toList = t ++ x :: after) (clean : 0 ∉ t) (solid : x ≠ 0)
    (done : field.cut i = .ok field') : Holds field' t ↔ i = t.length := by
  unfold cut at done
  split at done
  next inside =>
    cases done
    constructor
    · rintro ⟨_, behind, shape⟩
      by_contra other
      rw [Vector.toList_set, whole] at shape
      have there := congrArg (·[t.length]?) shape
      simp [other] at there
      exact solid there
    · rintro rfl
      refine ⟨clean, after, ?_⟩
      rw [Vector.toList_set, whole]
      simp
  next => contradiction

end Copies
end Chars
end Tasks.Kit
