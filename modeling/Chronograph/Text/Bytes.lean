/-!
# Texts counted in bytes

A text has a length in bytes, that of its UTF-8 form, and can be cut at a
number of bytes unless the cut falls inside a character.
-/

namespace Chronograph

/-- The bytes of a text in UTF-8. -/
def byteLength : List Char → Nat
  | [] => 0
  | c :: s => c.utf8Size + byteLength s

/-- A text without its first `n` bytes, unless they end inside a character or
the text has fewer. -/
def dropBytes : Nat → List Char → Option (List Char)
  | 0, s => some s
  | _ + 1, [] => none
  | n + 1, c :: s => if c.utf8Size ≤ n + 1 then dropBytes (n + 1 - c.utf8Size) s else none

/-- What is cut off and what is left make up the text's bytes. -/
theorem byteLength_dropBytes {n : Nat} {s rest : List Char} (h : dropBytes n s = some rest) :
    byteLength s = n + byteLength rest := by
  fun_induction dropBytes n s with
  | case1 s => simp_all
  | case2 => simp at h
  | case3 n c s hc ih =>
      have := ih h
      simp only [byteLength]
      omega
  | case4 => simp at h

end Chronograph
