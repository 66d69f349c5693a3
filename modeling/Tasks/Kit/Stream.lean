import Tasks.Kit.Bytes

/-! A reliable, ordered byte stream, which keeps no boundaries, and the arrays it is read into. -/
namespace Tasks.Kit

/-- What a system call accepts of its argument, or returns of what is pending. -/
structure Front (part whole : List α) : Prop where
  nonempty : part ≠ []
  front : part <+: whole

namespace Front

variable {part whole : List α} {n : Nat}

theorem all (more : whole ≠ []) : Front whole whole := ⟨more, List.prefix_rfl⟩

theorem pos (taken : Front part whole) : 0 < part.length := List.length_pos_iff.mpr taken.nonempty

theorem length_le (taken : Front part whole) : part.length ≤ whole.length := taken.front.length_le

theorem whole_ne (taken : Front part whole) : whole ≠ [] :=
  List.length_pos_iff.mp (Nat.lt_of_lt_of_le taken.pos taken.length_le)

theorem split (taken : Front part (whole.take n)) : part ++ whole.drop part.length = whole := by
  obtain ⟨rest, rfl⟩ := taken.front.trans (List.take_prefix n whole)
  rw [List.drop_left]

theorem eq_of_length (taken : Front part whole) (same : part.length = whole.length) : part = whole :=
  taken.front.eq_of_length same

end Front

namespace Bytes

variable {text before after : Bytes}

/-- An array after `recv` has put bytes at its front. -/
def overlay (array got : Bytes) : Bytes := got ++ array.drop got.length

/-- Texts on a stream, each with its NUL. -/
def packets (texts : List Bytes) : Bytes := texts.flatMap (· ++ [0])

@[simp] theorem packets_nil : packets [] = [] := rfl

@[simp] theorem packets_cons (text : Bytes) (texts : List Bytes) :
    packets (text :: texts) = text ++ 0 :: packets texts := by simp [packets]

@[simp] theorem packets_append (texts more : List Bytes) :
    packets (texts ++ more) = packets texts ++ packets more := by simp [packets]

theorem cstr_packet (clean : 0 ∉ text) (after : Bytes) : cstr (text ++ 0 :: after) 0 = .ok text := by
  simpa using cstr_append [] clean after

theorem cstr_overlay (clean : 0 ∉ text) (array more : Bytes) :
    cstr (overlay array (text ++ 0 :: more)) 0 = .ok text := by
  rw [overlay, List.append_assoc, List.cons_append]
  exact cstr_packet clean _

/-- Two texts that end with a NUL at the front of the same bytes. -/
theorem packet_inj (clean : 0 ∉ text) (clean' : 0 ∉ text') (same : text ++ 0 :: before = text' ++ 0 :: after) :
    text = text' ∧ before = after := by
  have texts := (cstr_packet clean before).symm.trans ((congrArg (cstr · 0) same).trans (cstr_packet clean' after))
  cases texts
  simpa using same

/-- A text that is found whatever the array held has come with its NUL. -/
theorem overlay_determined
    (found : ∀ array, array.length = n → cstr (overlay array got) 0 = .ok text) :
    ∃ more, got = text ++ 0 :: more := by
  have ones := found (List.replicate n 1) List.length_replicate
  obtain ⟨ends, rfl⟩ := cstr_text ones
  have filler : 0 ∉ (List.replicate n (1 : UInt8)).drop got.length := by simp
  have inside : 0 ∈ got := by
    simpa [overlay, filler] using ends
  obtain ⟨text, more, rfl, clean⟩ := List.eq_append_cons_of_mem inside
  refine ⟨more, ?_⟩
  have text' := (cstr_text (cstr_overlay clean (List.replicate n 1) more)).2
  rw [← text']

end Bytes
end Tasks.Kit
