/-!
# Byte spans

A node of a program remembers where it stands in the source text as a
half-open range of **bytes** of the UTF-8 text. Columns, on the other
hand, count characters, so the two measures meet here: `byteLength` is
the number of bytes a run of characters takes, and `slice?` cuts a run
of characters by byte offsets, answering nothing when an offset falls
inside a character.
-/

namespace ScriptToShell

/-- **A span**: the bytes from `start` up to, not including, `stop`. -/
structure Span where
  /-- Offset of the first byte. -/
  start : Nat
  /-- Offset behind the last byte. -/
  stop : Nat
deriving DecidableEq, Repr, Inhabited

namespace Span

/-- The span of a node that stands nowhere. -/
def nowhere : Span := ⟨0, 0⟩

end Span

/-- The number of bytes of a run of characters in UTF-8. -/
def byteLength : List Char → Nat
  | [] => 0
  | c :: cs => c.utf8Size + byteLength cs

/-- What is left behind the first `n` bytes, if they end between two
characters. -/
def dropBytes? : List Char → Nat → Option (List Char)
  | cs, 0 => some cs
  | [], _ + 1 => none
  | c :: cs, n + 1 => if c.utf8Size ≤ n + 1 then dropBytes? cs (n + 1 - c.utf8Size) else none

/-- The characters of the first `n` bytes, if they end between two
characters. -/
def takeBytes? : List Char → Nat → Option (List Char)
  | _, 0 => some []
  | [], _ + 1 => none
  | c :: cs, n + 1 =>
    if c.utf8Size ≤ n + 1 then (takeBytes? cs (n + 1 - c.utf8Size)).map (c :: ·) else none

/-- The characters between two byte offsets, if both stand between two
characters and in this order. -/
def slice? (cs : List Char) (start stop : Nat) : Option (List Char) :=
  if start ≤ stop then (dropBytes? cs start).bind (takeBytes? · (stop - start)) else none

@[simp] theorem byteLength_append (as bs : List Char) :
    byteLength (as ++ bs) = byteLength as + byteLength bs := by
  induction as with
  | nil => simp [byteLength]
  | cons a as ih => simp [byteLength, ih, Nat.add_assoc]

end ScriptToShell
