/-!
# Byte lengths

Positions in a text are counted in bytes of its UTF-8 encoding.
-/

namespace Phrasebook.Text

/-- The number of bytes of a text. -/
def byteLength (cs : List Char) : Nat :=
  cs.foldr (fun c count => c.utf8Size + count) 0

theorem byteLength_cons (c : Char) (cs : List Char) :
    byteLength (c :: cs) = c.utf8Size + byteLength cs :=
  rfl

theorem byteLength_append (cs ds : List Char) :
    byteLength (cs ++ ds) = byteLength cs + byteLength ds := by
  induction cs with
  | nil => simp [byteLength]
  | cons c cs ih => rw [List.cons_append, byteLength_cons, byteLength_cons, ih, Nat.add_assoc]

/-- The byte position of `rest`, the remaining part of `whole`. -/
def offsetOf (whole rest : List Char) : Nat :=
  byteLength whole - byteLength rest

/-- The bytes before a remaining part are those of the text in front of it. -/
theorem offsetOf_append (before rest : List Char) :
    offsetOf (before ++ rest) rest = byteLength before := by
  rw [offsetOf, byteLength_append]
  omega

end Phrasebook.Text
