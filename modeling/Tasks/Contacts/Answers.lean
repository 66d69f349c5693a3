import Tasks.Contacts.ArrayBook

/-! The five lines that are typed at the prompts of an edit, and what a prompt makes of its input. -/
namespace Tasks.Contacts

open Kit Kit.Lines

structure Answers where
  lastname : Bytes
  firstname : Bytes
  middlename : Bytes
  link : Bytes
  number : Bytes
  text : ∀ line ∈ [lastname, firstname, middlename, link, number], 0 ∉ line ∧ 10 ∉ line

def Answers.lines (answers : Answers) : List Bytes :=
  [answers.lastname, answers.firstname, answers.middlename, answers.link, answers.number]

def typed (lines : List Bytes) : Bytes := lines.flatMap (· ++ [10])

theorem typed_cons (line : Bytes) (lines : List Bytes) (rest : Bytes) :
    typed (line :: lines) ++ rest = line ++ 10 :: (typed lines ++ rest) := by
  simp [typed]

/-- What one answer, or its front part, has made of a member: an empty line keeps it. -/
def Takes (member member' : Field) (line : Bytes) : Prop :=
  (line = [] → member' = member) ∧ (line ≠ [] → Chars.Holds member' line)

structure Written (front : Bytes → Bytes) (answers : Answers) (con con' : Contact) : Prop where
  id : con'.id = con.id
  lastname : Takes con.lastname con'.lastname (front answers.lastname)
  firstname : Takes con.firstname con'.firstname (front answers.firstname)
  middlename : Takes con.middlename con'.middlename (front answers.middlename)
  link : Takes con.soc.link con'.soc.link (front answers.link)
  number : Takes con.soc.number con'.soc.number (front answers.number)

theorem Written.congr {front front' : Bytes → Bytes} {answers : Answers} {con con' : Contact}
    (written : Written front answers con con') (same : ∀ line ∈ answers.lines, front line = front' line) :
    Written front' answers con con' where
  id := written.id
  lastname := same answers.lastname (by simp [Answers.lines]) ▸ written.lastname
  firstname := same answers.firstname (by simp [Answers.lines]) ▸ written.firstname
  middlename := same answers.middlename (by simp [Answers.lines]) ▸ written.middlename
  link := same answers.link (by simp [Answers.lines]) ▸ written.link
  number := same answers.number (by simp [Answers.lines]) ▸ written.number

section Reading

variable {input line rest : Bytes} {lines : List Bytes} {n : Nat}

theorem readLine_newlines (n : Nat) (input : Bytes) :
    input.count 10 ≤ (readLine n input).2.count 10 + 1 := by
  induction n generalizing input with
  | zero => simp [readLine]
  | succ n ih =>
    cases input with
    | nil => simp [readLine]
    | cons x rest =>
      by_cases newline : x = 10
      · simp [readLine, newline]
      · simpa [readLine, newline, List.count_cons] using ih rest

def left (n : Nat) : Nat → Bytes → Bytes
  | 0, input => input
  | k + 1, input => left n k (readLine n input).2

theorem left_newlines (n k : Nat) (input : Bytes) : input.count 10 ≤ (left n k input).count 10 + k := by
  induction k generalizing input with
  | zero => exact Nat.le_refl _
  | succ k ih =>
    have first := readLine_newlines n input
    have later := ih (readLine n input).2
    rw [left]
    omega

theorem typed_newlines (lines : List Bytes) : lines.length ≤ (typed lines).count 10 := by
  induction lines with
  | nil => exact Nat.le_refl 0
  | cons line lines ih =>
    simp only [typed, List.flatMap_cons, List.count_append, List.length_cons] at ih ⊢
    simp only [List.count_singleton_self]
    omega

/-- The lines are read one by one if and only if each leaves room for its newline. -/
theorem left_lines_iff (n : Nat) (oneLine : ∀ line ∈ lines, 10 ∉ line) (rest : Bytes) :
    left n lines.length (typed lines ++ rest) = rest ↔ ∀ line ∈ lines, line.length < n := by
  induction lines with
  | nil => simp [left, typed]
  | cons line lines ih =>
    have here := oneLine line List.mem_cons_self
    have others := ih fun other member => oneLine other (List.mem_cons_of_mem line member)
    rw [List.length_cons, left, typed_cons, List.forall_mem_cons]
    by_cases short : line.length < n
    · rw [readLine_text line _ here short, others]
      exact (and_iff_right short).symm
    · refine iff_of_false (fun same => ?_) fun fits => short fits.1
      have kept := left_newlines n lines.length (readLine n (line ++ 10 :: (typed lines ++ rest))).2
      have newlines := typed_newlines lines
      rw [same, readLine_long here (Nat.not_lt.mp short)] at kept
      simp only [List.count_append, List.count_cons_self] at kept
      omega

end Reading

namespace ArrayBook

variable {buffer member : Field} {bounds : Field → Field} {input line rest : Bytes}

theorem prompt_ends (buffer member : Field) (bounds : Field → Field) (more : input ≠ [])
    (ends : ∀ source, Chars.Ends source → Chars.Ends (bounds source)) :
    ∃ buffer' member', Chars.prompt buffer member bounds input = .ok (buffer', member', (readLine 19 input).2) ∧
      (Chars.Ends member → Chars.Ends member') := by
  obtain ⟨buffer', received, stores, _⟩ := Chars.receive_line buffer more
  simp only [Chars.prompt, received, ok_bind]
  split
  · exact ⟨buffer', member, rfl, id⟩
  · have copied := Chars.strncpy_ends stores.ends
    obtain ⟨i, inside, found⟩ := Chars.strcspn_ends (ends _ copied)
    obtain ⟨member', cut, ended⟩ := Chars.cut_ends (Chars.strncpy buffer') inside
    refine ⟨buffer', member', ?_, fun _ => ended⟩
    simp only [found, ok_bind, cut]
    rfl

/-- What a prompt leaves of the input does not depend on what it stores. -/
theorem prompt_left (done : Chars.prompt buffer member bounds input = .ok (buffer', member', rest)) :
    rest = (readLine 19 input).2 := by
  obtain ⟨⟨buffer'', input'⟩, received, done⟩ := bind_eq_ok.mp done
  have read : input' = (readLine 19 input).2 := by
    by_cases more : input = []
    · subst more
      cases received
      rfl
    · obtain ⟨_, again, _⟩ := Chars.receive_line buffer more
      cases received.symm.trans again
      rfl
  dsimp only at done
  split at done
  · cases done
    exact read
  · obtain ⟨_, _, done⟩ := bind_eq_ok.mp done
    obtain ⟨_, _, done⟩ := bind_eq_ok.mp done
    cases done
    exact read

/-- The five prompts of an edit, whatever they are cut by. -/
theorem prompts_left {buffer₁ : Field}
    (one : Chars.prompt buffer₁ member₁ bounds₁ input = .ok (buffer₂, member₁', input₂))
    (two : Chars.prompt buffer₂ member₂ bounds₂ input₂ = .ok (buffer₃, member₂', input₃))
    (three : Chars.prompt buffer₃ member₃ bounds₃ input₃ = .ok (buffer₄, member₃', input₄))
    (four : Chars.prompt buffer₄ member₄ bounds₄ input₄ = .ok (buffer₅, member₄', input₅))
    (five : Chars.prompt buffer₅ member₅ bounds₅ input₅ = .ok (buffer₆, member₅', rest)) :
    rest = left 19 5 input := by
  simp only [left]
  rw [prompt_left five, prompt_left four, prompt_left three, prompt_left two, prompt_left one]

theorem prompt_done (done : Chars.prompt buffer member bounds input = .ok (buffer', member', rest))
    (ends : Chars.Ends member) : Chars.Ends member' := by
  obtain ⟨⟨buffer'', input'⟩, _, done⟩ := bind_eq_ok.mp done
  dsimp only at done
  split at done
  · cases done
    exact ends
  · obtain ⟨i, _, done⟩ := bind_eq_ok.mp done
    obtain ⟨member'', cut, done⟩ := bind_eq_ok.mp done
    cases done
    exact Chars.ends_of_cut cut

/-- A prompt at a line of text; a member that is set has the newline until it is cut. -/
theorem prompt_line (buffer member : Field) (bounds : Field → Field) (clean : 0 ∉ line)
    (oneLine : 10 ∉ line) (short : line.length < 19) (rest : Bytes) :
    ∃ buffer', Chars.prompt buffer member bounds (line ++ 10 :: rest) =
      if line = [] then .ok (buffer', member, rest)
      else do
        let i ← Chars.strcspn (bounds (Chars.padded (line ++ [10])))
        return (buffer', ← Chars.cut (Chars.padded (line ++ [10])) i, rest) := by
  have more : line ++ 10 :: rest ≠ [] := by simp
  obtain ⟨buffer', received, stores, head⟩ := Chars.receive_line buffer more
  rw [readLine_text line rest oneLine short] at received stores
  have nul : 0 ∉ line ++ [10] := by simp [clean]
  have empty : buffer'.toList.head? = some 10 ↔ line = [] := by
    rw [head]
    cases line with
    | nil => simp
    | cons x line =>
      simp only [List.mem_cons, not_or] at oneLine
      simp [Ne.symm oneLine.1]
  refine ⟨buffer', ?_⟩
  simp only [Chars.prompt, received, ok_bind, empty, Chars.strncpy_stores stores nul]
  rfl

theorem padded_line (short : line.length < 19) :
    ∃ after, (Chars.padded (line ++ [10]) : Field).toList = line ++ 10 :: after := by
  have fits : (line ++ [10]).length ≤ 20 := by
    rw [List.length_append, List.length_singleton]
    omega
  rw [Chars.padded_toList fits, List.append_assoc]
  exact ⟨_, rfl⟩

/-- The prompts for all members but the first name. -/
theorem prompt_takes (buffer member : Field) (clean : 0 ∉ line) (oneLine : 10 ∉ line)
    (short : line.length < 19) (rest : Bytes) :
    ∃ buffer' member', Chars.prompt buffer member id (line ++ 10 :: rest) = .ok (buffer', member', rest) ∧
      Takes member member' line := by
  obtain ⟨buffer', prompted⟩ := prompt_line buffer member id clean oneLine short rest
  by_cases empty : line = []
  · rw [if_pos empty] at prompted
    exact ⟨buffer', member, prompted, fun _ => rfl, fun some => absurd empty some⟩
  · obtain ⟨after, whole⟩ := padded_line short
    have found := Chars.strcspn_line whole clean oneLine (.inr rfl)
    obtain ⟨member', cut, _⟩ := Chars.cut_ends (Chars.padded (line ++ [10]) : Field) (i := line.length)
      (by omega)
    have holds := (Chars.cut_holds_iff whole clean (by decide) cut).mpr rfl
    rw [if_neg empty, id_eq, found, ok_bind, cut] at prompted
    exact ⟨buffer', member', prompted, fun none => absurd none empty, fun _ => holds⟩

theorem prompt_typed (buffer member : Field) (text : 0 ∉ line ∧ 10 ∉ line) (short : line.length ≤ 18)
    (lines : List Bytes) (rest : Bytes) :
    ∃ buffer' member', Chars.prompt buffer member id (typed (line :: lines) ++ rest) =
        .ok (buffer', member', typed lines ++ rest) ∧ Takes member member' line := by
  rw [typed_cons]
  exact prompt_takes buffer member text.1 text.2 (Nat.lt_succ_of_le short) (typed lines ++ rest)

/-- The prompts behind the two names, the same in every program. -/
theorem prompts_typed (buffer : Field) (con : Contact) {middle link number : Bytes}
    (text : ∀ line ∈ [middle, link, number], 0 ∉ line ∧ 10 ∉ line)
    (short : ∀ line ∈ [middle, link, number], line.length ≤ 18) (rest : Bytes) :
    ∃ buffer₁ middlename buffer₂ link' buffer₃ number',
      Chars.prompt buffer con.middlename id (typed [middle, link, number] ++ rest) =
        .ok (buffer₁, middlename, typed [link, number] ++ rest) ∧
      Chars.prompt buffer₁ con.soc.link id (typed [link, number] ++ rest) =
        .ok (buffer₂, link', typed [number] ++ rest) ∧
      Chars.prompt buffer₂ con.soc.number id (typed [number] ++ rest) = .ok (buffer₃, number', rest) ∧
      Takes con.middlename middlename middle ∧ Takes con.soc.link link' link ∧
      Takes con.soc.number number' number := by
  obtain ⟨buffer₁, middlename, one, takesMiddle⟩ := prompt_typed buffer con.middlename
    (text middle (by simp)) (short middle (by simp)) [link, number] rest
  obtain ⟨buffer₂, link', two, takesLink⟩ := prompt_typed buffer₁ con.soc.link
    (text link (by simp)) (short link (by simp)) [number] rest
  obtain ⟨buffer₃, number', three, takesNumber⟩ := prompt_typed buffer₂ con.soc.number
    (text number (by simp)) (short number (by simp)) [] rest
  exact ⟨buffer₁, middlename, buffer₂, link', buffer₃, number', one, two, three, takesMiddle, takesLink,
    takesNumber⟩

end ArrayBook
end Tasks.Contacts
