import Tasks.Kit.Chars

/-! The contact record that the contact books of Module 2 share. -/
namespace Tasks.Contacts

open Kit

/-- A `char[20]` member with everything stored in it, also past the terminator. -/
abbrev Field := Vector UInt8 20

/-- `field[0] = '\0'` -/
def Field.cut (field : Field) : Field := field.set 0 0

structure Social where
  number : Field
  link : Field
  deriving DecidableEq, Repr

structure Contact where
  id : Int
  lastname : Field
  firstname : Field
  middlename : Field
  soc : Social
  deriving DecidableEq, Repr

def Contact.row (con : Contact) (members : List Field) : Except Overrun (Int × List Bytes) := do
  let texts ← members.mapM Chars.text
  return (con.id, texts)

theorem Contact.row_within (con : Contact) (members : List Field) : Within (con.row members) :=
  .bind (.mapM Chars.text_within _) fun _ _ => .ok _

end Tasks.Contacts
