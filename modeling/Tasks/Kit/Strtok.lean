import Tasks.Kit.Scan

/-! `strtok` with one delimiter, on texts and in an array: its calls give the fields between delimiters
that are not empty, and no others. -/
namespace Tasks.Kit.Strtok

/-- The next token, and the text behind its delimiter. -/
def strtok (delim : UInt8) (text : Bytes) : Option (Bytes × Bytes) :=
  let start := text.dropWhile (· = delim)
  if start = [] then none
  else some (start.takeWhile (· ≠ delim), (start.dropWhile (· ≠ delim)).drop 1)

/-- The non-empty pieces between delimiters. -/
def fields (delim : UInt8) (text : Bytes) : List Bytes := (text.splitOn delim).filter (· ≠ [])

section Fields

variable {delim x : UInt8} {text token rest spaces tail : Bytes}

@[simp] theorem fields_nil (delim : UInt8) : fields delim [] = [] := by simp [fields]

theorem fields_append (delim : UInt8) (text rest : Bytes) :
    fields delim (text ++ delim :: rest) = fields delim text ++ fields delim rest := by
  simp only [fields, List.splitOn_append_cons_of_beq text rest (beq_self_eq_true delim), List.filter_append]

theorem fields_delim (delim : UInt8) (text : Bytes) : fields delim (delim :: text) = fields delim text := by
  have split := fields_append delim [] text
  rwa [fields_nil, List.nil_append, List.nil_append] at split

theorem fields_delims (delims : ∀ x ∈ text, x = delim) : fields delim text = [] := by
  induction text with
  | nil => exact fields_nil delim
  | cons x rest ih =>
    obtain ⟨rfl, others⟩ := List.forall_mem_cons.mp delims
    rw [fields_delim, ih others]

theorem fields_single (clean : delim ∉ token) (some : token ≠ []) : fields delim token = [token] := by
  simp [fields, List.splitOn_eq_singleton clean, some]

theorem fields_cons (clean : delim ∉ token) (some : token ≠ []) (rest : Bytes) :
    fields delim (token ++ delim :: rest) = token :: fields delim rest := by
  rw [fields_append, fields_single clean some]
  rfl

theorem token_end (delim : UInt8) (text : Bytes) :
    ∃ token tail, text = token ++ tail ∧ delim ∉ token ∧ ∀ x ∈ tail.head?, x = delim := by
  refine ⟨_, _, (List.takeWhile_append_dropWhile (p := fun x => decide (x ≠ delim))).symm, ?_, ?_⟩
  · intro member
    simpa using List.mem_takeWhile_imp member
  · intro x head
    have stop := List.head?_dropWhile_not (fun x => decide (x ≠ delim)) text
    rw [Option.mem_def.mp head] at stop
    simpa using stop

/-- The first token, between delimiters. -/
theorem token_split (delim : UInt8) (text : Bytes) : (∀ x ∈ text, x = delim) ∨
    ∃ spaces token tail, text = spaces ++ (token ++ tail) ∧ (∀ x ∈ spaces, x = delim) ∧ token ≠ [] ∧
      delim ∉ token ∧ ∀ x ∈ tail.head?, x = delim := by
  have whole := List.takeWhile_append_dropWhile (p := fun x => decide (x = delim)) (l := text)
  have spaces : ∀ x ∈ text.takeWhile (fun x => decide (x = delim)), x = delim := fun x member => by
    simpa using List.mem_takeWhile_imp member
  cases shape : text.dropWhile (fun x => decide (x = delim)) with
  | nil =>
    rw [shape, List.append_nil] at whole
    exact .inl (whole ▸ spaces)
  | cons y rest =>
    have other : y ≠ delim := by
      have head := List.head?_dropWhile_not (fun x => decide (x = delim)) text
      simpa [shape] using head
    obtain ⟨token, tail, split, clean, ends⟩ := token_end delim rest
    refine .inr ⟨_, y :: token, tail, ?_, spaces, List.cons_ne_nil y token, ?_, ends⟩
    · rw [shape, split] at whole
      exact whole.symm
    · simp [clean, Ne.symm other]

theorem fields_token (delims : ∀ x ∈ spaces, x = delim) (some : token ≠ []) (clean : delim ∉ token)
    (ends : ∀ x ∈ tail.head?, x = delim) :
    fields delim (spaces ++ (token ++ tail)) = token :: fields delim (tail.drop 1) := by
  induction spaces with
  | nil =>
    cases tail with
    | nil => simp [fields_single clean some]
    | cons x rest =>
      obtain rfl := ends x rfl
      exact fields_cons clean some rest
  | cons x spaces ih =>
    obtain ⟨rfl, others⟩ := List.forall_mem_cons.mp delims
    rw [List.cons_append, fields_delim, ih others]

theorem fields_behind (edge : ∀ x ∈ text.getLast?, x = delim) (rest : Bytes) :
    fields delim (text ++ rest) = fields delim text ++ fields delim rest := by
  rcases List.eq_nil_or_concat text with rfl | ⟨front, x, rfl⟩
  · simp
  · obtain rfl : x = delim := edge x (by simp)
    rw [List.concat_eq_append, List.append_assoc, List.singleton_append, fields_append, fields_append,
      fields_nil, List.append_nil]

/-- A text up to its last delimiter, and what is behind it. -/
theorem last_split (delim : UInt8) (text : Bytes) :
    ∃ front w, text = front ++ w ∧ delim ∉ w ∧ ∀ y ∈ front.getLast?, y = delim := by
  refine ⟨_, _, (List.rdropWhile_append_rtakeWhile (p := fun y => decide (y ≠ delim))).symm, ?_, ?_⟩
  · intro member
    simpa using List.mem_rtakeWhile_imp member
  · intro y last
    obtain ⟨some, rfl⟩ := List.mem_getLast?_eq_getLast last
    simpa using List.rdropWhile_last_not _ text some

/-- A byte that is no delimiter is in a field, behind what the text has of it. -/
theorem fields_within (other : x ≠ delim) (text rest : Bytes) :
    ∃ front w w' more, text = front ++ w ∧ delim ∉ w ∧ (∀ y ∈ front.getLast?, y = delim) ∧
      fields delim (text ++ x :: rest) = fields delim front ++ (w ++ x :: w') :: more := by
  obtain ⟨front, w, rfl, clean, edge⟩ := last_split delim text
  obtain ⟨w', tail, rfl, clean', ends⟩ := token_end delim rest
  refine ⟨front, w, w', fields delim (tail.drop 1), rfl, clean, edge, ?_⟩
  have single : delim ∉ w ++ x :: w' := by simp [clean, clean', Ne.symm other]
  have spaces : ∀ x ∈ ([] : Bytes), x = delim := List.forall_mem_nil _
  have token := fields_token spaces (by simp) single ends
  rw [List.nil_append, List.append_assoc, List.cons_append] at token
  rw [List.append_assoc, fields_behind edge, token]

theorem fields_rec {motive : Bytes → Prop} (delim : UInt8)
    (delims : ∀ text, (∀ x ∈ text, x = delim) → motive text)
    (token : ∀ spaces token tail, (∀ x ∈ spaces, x = delim) → token ≠ [] → delim ∉ token →
      (∀ x ∈ tail.head?, x = delim) → motive (tail.drop 1) → motive (spaces ++ (token ++ tail)))
    (text : Bytes) : motive text := by
  induction size : text.length using Nat.strong_induction_on generalizing text with
  | _ n ih =>
    subst size
    rcases token_split delim text with all | ⟨spaces, word, tail, rfl, before, filled, clean, ends⟩
    · exact delims text all
    · have shorter : (tail.drop 1).length < (spaces ++ (word ++ tail)).length := by
        have positive := List.length_pos_iff.mpr filled
        simp only [List.length_append, List.length_drop]
        omega
      exact token spaces word tail before filled clean ends (ih _ shorter _ rfl)

theorem fields_flatten (delim : UInt8) (text : Bytes) :
    (fields delim text).flatten = text.filter (fun x => decide (x ≠ delim)) := by
  induction text using fields_rec delim with
  | delims text all =>
    rw [fields_delims all, List.filter_eq_nil_iff.mpr (by simpa using all)]
    rfl
  | token spaces token tail before filled clean ends ih =>
    have none : spaces.filter (fun x => decide (x ≠ delim)) = [] :=
      List.filter_eq_nil_iff.mpr (by simpa using before)
    have whole : token.filter (fun x => decide (x ≠ delim)) = token :=
      List.filter_eq_self.mpr fun x member => by
        simpa using fun same : x = delim => clean (same ▸ member)
    have behind : tail.filter (fun x => decide (x ≠ delim)) =
        (tail.drop 1).filter (fun x => decide (x ≠ delim)) := by
      cases tail with
      | nil => rfl
      | cons x rest => simp [ends x rfl]
    rw [fields_token before filled clean ends, List.flatten_cons, ih, List.filter_append, List.filter_append,
      none, whole, behind, List.nil_append]

theorem mem_fields (word : token ∈ fields delim text) (inside : x ∈ token) : x ∈ text := by
  have member : x ∈ (fields delim text).flatten := List.mem_flatten_of_mem word inside
  rw [fields_flatten] at member
  exact List.mem_of_mem_filter member

theorem exists_field (other : x ≠ delim) (inside : x ∈ text) : ∃ word ∈ fields delim text, x ∈ word := by
  apply List.mem_flatten.mp
  rw [fields_flatten]
  exact List.mem_filter.mpr ⟨inside, by simpa using other⟩

theorem skip_spaces (tail : Bytes) (delims : ∀ x ∈ spaces, x = delim) (some : token ≠ [])
    (clean : delim ∉ token) :
    (spaces ++ (token ++ tail)).takeWhile (fun x => decide (x = delim)) = spaces ∧
      (spaces ++ (token ++ tail)).dropWhile (fun x => decide (x = delim)) = token ++ tail := by
  have kept : ∀ x ∈ spaces, decide (x = delim) = true := by simpa using delims
  have ends : ∀ x ∈ (token ++ tail).head?, decide (x = delim) = false := by
    obtain ⟨y, rest, rfl⟩ := List.exists_cons_of_ne_nil some
    simp only [List.mem_cons, not_or] at clean
    simp [Ne.symm clean.1]
  exact ⟨Scan.takeWhile_append kept ends, Scan.dropWhile_append kept ends⟩

theorem skip_token (clean : delim ∉ token) (ends : ∀ x ∈ tail.head?, x = delim) :
    (token ++ tail).takeWhile (fun x => decide (x ≠ delim)) = token ∧
      (token ++ tail).dropWhile (fun x => decide (x ≠ delim)) = tail := by
  have kept : ∀ x ∈ token, decide (x ≠ delim) = true := by
    intro x member
    simpa using fun same : x = delim => clean (same ▸ member)
  have stops : ∀ x ∈ tail.head?, decide (x ≠ delim) = false := by simpa using ends
  exact ⟨Scan.takeWhile_append kept stops, Scan.dropWhile_append kept stops⟩

/-- A call gives the next field and leaves the others. -/
theorem strtok_cases (delim : UInt8) (text : Bytes) :
    (strtok delim text = none ∧ fields delim text = []) ∨
      ∃ token rest, strtok delim text = some (token, rest) ∧
        fields delim text = token :: fields delim rest := by
  rcases token_split delim text with delims | ⟨spaces, token, tail, rfl, delims, some, clean, ends⟩
  · have empty : text.dropWhile (fun x => decide (x = delim)) = [] :=
      List.dropWhile_eq_nil_iff.mpr (by simpa using delims)
    exact .inl ⟨by simp only [strtok, empty, if_true], fields_delims delims⟩
  · refine .inr ⟨token, tail.drop 1, ?_, fields_token delims some clean ends⟩
    have more : token ++ tail ≠ [] := by simp [some]
    simp only [strtok, (skip_spaces tail delims some clean).2, if_neg more, (skip_token clean ends).1,
      (skip_token clean ends).2]

end Fields

section InPlace

open Bytes

/-- A call on the string at `i` of an array, which gets a NUL behind the token: where the token starts, and
where the next call goes on. -/
def strtokAt (delim : UInt8) (b : Bytes) (i : Nat) : Except Fault (Bytes × Option (Nat × Nat)) := do
  let text ← cstr b i
  let start := i + (text.takeWhile (· = delim)).length
  let stop := start + ((text.dropWhile (· = delim)).takeWhile (· ≠ delim)).length
  if stop = start then return (b, none)
  else if stop = i + text.length then return (b, some (start, stop))
  else return (b.set stop 0, some (start, stop + 1))

variable {delim : UInt8} {b text spaces token tail rest : Bytes} {i : Nat}

/-- What a call leaves: the array up to `i` is as it was, the token and the string with it alone end in
front of the next call, and the other fields are those of the string there. -/
structure Cut (delim : UInt8) (b : Bytes) (i : Nat) (b' : Bytes) (start saved : Nat) (token rest : Bytes) :
    Prop where
  length : b'.length = b.length
  front : b'.take (i + 1) = b.take (i + 1)
  further : i < saved
  stored : cstr (b'.take (saved + 1)) start = .ok token
  first : ∃ t, cstr (b'.take (saved + 1)) i = .ok t ∧ fields delim t = [token]
  behind : cstr b' saved = .ok rest

/-- The strings that a NUL behind the token ends. -/
theorem cut_strings (before spaces token more : Bytes) (clean : 0 ∉ spaces) (clean' : 0 ∉ token)
    (far : before.length + spaces.length + token.length < k) :
    cstr ((before ++ spaces ++ token ++ 0 :: more).take k) (before.length + spaces.length) = .ok token ∧
      cstr ((before ++ spaces ++ token ++ 0 :: more).take k) before.length = .ok (spaces ++ token) := by
  obtain ⟨n, rfl⟩ : ∃ n, k = (before ++ spaces ++ token).length + (n + 1) :=
    ⟨k - (before ++ spaces ++ token).length - 1, by simp only [List.length_append]; omega⟩
  rw [List.take_length_add_append, List.take_succ_cons]
  constructor
  · rw [← List.length_append]
    exact cstr_append (before ++ spaces) clean' (more.take n)
  · rw [List.append_assoc before]
    exact cstr_append before (by simp [clean, clean']) (more.take n)

/-- A call on delimiters, a token, and what begins with its delimiter. -/
theorem strtokAt_token (found : cstr b i = .ok (spaces ++ (token ++ tail))) (delims : ∀ x ∈ spaces, x = delim)
    (filled : token ≠ []) (single : delim ∉ token) (ends : ∀ x ∈ tail.head?, x = delim) :
    strtokAt delim b i =
      if tail = [] then .ok (b, some (i + spaces.length, i + spaces.length + token.length))
      else .ok (b.set (i + spaces.length + token.length) 0,
        some (i + spaces.length, i + spaces.length + token.length + 1)) := by
  have skipped := skip_spaces tail delims filled single
  have taken := (skip_token single ends).1
  have more : ¬ i + spaces.length + token.length = i + spaces.length := by
    have positive := List.length_pos_iff.mpr filled
    omega
  have last : i + spaces.length + token.length = i + (spaces ++ (token ++ tail)).length ↔ tail = [] := by
    rw [← List.length_eq_zero_iff]
    simp only [List.length_append]
    omega
  simp only [strtokAt, found, ok_bind, skipped.1, skipped.2, taken, if_neg more, last]
  rfl

theorem fields_alone (delims : ∀ x ∈ spaces, x = delim) (filled : token ≠ []) (single : delim ∉ token) :
    fields delim (spaces ++ token) = [token] := by
  have first : fields delim (spaces ++ (token ++ [])) = token :: fields delim [] :=
    fields_token delims filled single (by simp)
  rwa [List.append_nil, fields_nil] at first

/-- A token that ends with the string stays as it is. -/
theorem cut_last (before after : Bytes) (clean : 0 ∉ spaces) (clean' : 0 ∉ token) (filled : token ≠ [])
    (alone : fields delim (spaces ++ token) = [token]) :
    Cut delim (before ++ spaces ++ token ++ 0 :: after) before.length (before ++ spaces ++ token ++ 0 :: after)
      (before.length + spaces.length) (before.length + spaces.length + token.length) token [] := by
  have positive := List.length_pos_iff.mpr filled
  have strings := cut_strings before spaces token after clean clean' (Nat.lt_succ_self _)
  have behind := cstr_append (before ++ spaces ++ token) (List.not_mem_nil (a := 0)) after
  rw [List.append_nil, List.length_append, List.length_append] at behind
  exact ⟨rfl, rfl, by omega, strings.1, ⟨_, strings.2, alone⟩, behind⟩

/-- The delimiter behind any other token gets a NUL. -/
theorem cut_middle (before after : Bytes) (clean : 0 ∉ spaces) (clean' : 0 ∉ token) (cleanRest : 0 ∉ rest)
    (filled : token ≠ []) (alone : fields delim (spaces ++ token) = [token]) :
    Cut delim (before ++ spaces ++ token ++ delim :: (rest ++ 0 :: after)) before.length
      ((before ++ spaces ++ token ++ delim :: (rest ++ 0 :: after)).set
        (before.length + spaces.length + token.length) 0)
      (before.length + spaces.length) (before.length + spaces.length + token.length + 1) token rest := by
  have positive := List.length_pos_iff.mpr filled
  have cut : (before ++ spaces ++ token ++ delim :: (rest ++ 0 :: after)).set
      (before.length + spaces.length + token.length) 0 =
        before ++ spaces ++ token ++ 0 :: (rest ++ 0 :: after) := by
    have here : before.length + spaces.length + token.length = (before ++ spaces ++ token).length := by
      simp only [List.length_append]
    rw [here, List.set_append_right _ _ (Nat.le_refl _), Nat.sub_self, List.set_cons_zero]
  have strings := cut_strings before spaces token (rest ++ 0 :: after) clean clean'
    (Nat.lt_succ_of_lt (Nat.lt_succ_self _))
  have behind := cstr_append (before ++ spaces ++ token ++ [0]) cleanRest after
  simp only [List.append_assoc, List.singleton_append, List.length_append, List.length_singleton] at behind
  refine ⟨List.length_set, List.take_set_of_le (by omega), by omega, ?_, ⟨spaces ++ token, ?_, alone⟩, ?_⟩
  · rw [cut, strings.1]
  · rw [cut, strings.2]
  · rw [cut]
    simpa [Nat.add_assoc] using behind

theorem strtokAt_cases (delim : UInt8) (found : cstr b i = .ok text) :
    (fields delim text = [] ∧ strtokAt delim b i = .ok (b, none)) ∨
      ∃ b' start saved token rest, strtokAt delim b i = .ok (b', some (start, saved)) ∧
        fields delim text = token :: fields delim rest ∧ Cut delim b i b' start saved token rest := by
  rcases token_split delim text with delims | ⟨spaces, token, tail, rfl, delims, filled, single, ends⟩
  · have empty : text.dropWhile (fun x => decide (x = delim)) = [] :=
      List.dropWhile_eq_nil_iff.mpr (by simpa using delims)
    refine .inl ⟨fields_delims delims, ?_⟩
    simp only [strtokAt, found, ok_bind, empty, List.takeWhile_nil, List.length_nil, Nat.add_zero, if_true]
    rfl
  · have step := strtokAt_token found delims filled single ends
    have others := fields_token delims filled single ends
    have alone := fields_alone delims filled single
    obtain ⟨before, after, rfl, rfl, clean⟩ := cstr_split found
    simp only [List.mem_append, not_or] at clean
    obtain ⟨cleanSpaces, cleanToken, cleanTail⟩ := clean
    refine .inr ?_
    cases tail with
    | nil =>
      have array : before ++ (spaces ++ (token ++ [])) ++ 0 :: after =
          before ++ spaces ++ token ++ 0 :: after := by simp
      rw [if_pos rfl, array] at step
      rw [array]
      exact ⟨_, _, _, token, [], step, others, cut_last before after cleanSpaces cleanToken filled alone⟩
    | cons x rest =>
      obtain rfl := ends x rfl
      have array : before ++ (spaces ++ (token ++ x :: rest)) ++ 0 :: after =
          before ++ spaces ++ token ++ x :: (rest ++ 0 :: after) := by simp
      have cleanRest : 0 ∉ rest := fun member => cleanTail (List.mem_cons_of_mem x member)
      rw [if_neg (List.cons_ne_nil x rest), array] at step
      rw [array]
      exact ⟨_, _, _, token, rest, step, others,
        cut_middle before after cleanSpaces cleanToken cleanRest filled alone⟩

/-- At most `n` calls one after another: where the tokens start. -/
def strtoks (delim : UInt8) : Nat → Bytes → Nat → Except Fault (Bytes × List Nat)
  | 0, b, _ => .ok (b, [])
  | n + 1, b, i => do
    let (b, next) ← strtokAt delim b i
    match next with
    | none => return (b, [])
    | some (start, saved) => do
      let (b, starts) ← strtoks delim n b saved
      return (b, start :: starts)

theorem strtoks_length (n : Nat) (found : cstr b i = .ok text) (cuts : strtoks delim n b i = .ok (b', starts)) :
    b'.length = b.length := by
  induction n generalizing b i text b' starts with
  | zero =>
    cases cuts
    rfl
  | succ n ih =>
    rw [strtoks] at cuts
    rcases strtokAt_cases delim found with ⟨_, last⟩ | ⟨next, start, saved, token, rest, call, _, cut⟩
    · rw [last, ok_bind] at cuts
      cases cuts
      rfl
    · rw [call, ok_bind] at cuts
      obtain ⟨⟨later, starts⟩, behind, cuts⟩ := bind_eq_ok.mp cuts
      cases cuts
      exact (ih cut.behind behind).trans cut.length

/-- The tokens are the first fields, and the string in front of them is cut behind the first. -/
theorem strtoks_spec (delim : UInt8) (n : Nat) (found : cstr b i = .ok text) :
    ∃ b' starts t, strtoks delim n b i = .ok (b', starts) ∧
      starts.mapM (cstr b') = .ok ((fields delim text).take n) ∧ b'.take (i + 1) = b.take (i + 1) ∧
      cstr b' i = .ok t ∧ (0 < n → fields delim t = (fields delim text).take 1) := by
  induction n generalizing b i text with
  | zero => exact ⟨b, [], text, rfl, rfl, rfl, found, nofun⟩
  | succ n ih =>
    rcases strtokAt_cases delim found with
      ⟨none, last⟩ | ⟨b', start, saved, token, rest, next, more, cut⟩
    · refine ⟨b, [], text, ?_, ?_, rfl, found, fun _ => ?_⟩
      · simp only [strtoks, last, ok_bind]
        rfl
      · rw [none]
        rfl
      · rw [none, List.take_nil]
    · obtain ⟨b'', starts, _, later, words, front, _, _⟩ := ih cut.behind
      have within : i + 1 ≤ saved + 1 := Nat.succ_le_succ (Nat.le_of_lt cut.further)
      have stored : cstr b'' start = .ok token := cstr_take (front ▸ cut.stored)
      obtain ⟨t, first, alone⟩ := cut.first
      refine ⟨b'', start :: starts, t, ?_, ?_, ?_, cstr_take (front ▸ first), fun _ => ?_⟩
      · simp only [strtoks, next, ok_bind, later]
        rfl
      · rw [List.mapM_cons, stored, ok_bind, words, ok_bind, more, List.take_succ_cons]
        rfl
      · have shorter := congrArg (List.take (i + 1)) front
        rw [List.take_take, List.take_take, Nat.min_eq_left within] at shorter
        exact shorter.trans cut.front
      · rw [alone, more]
        rfl

end InPlace
end Tasks.Kit.Strtok
