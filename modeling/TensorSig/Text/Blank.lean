/-!
# Blank characters and trimming

Two notions of white space meet here. A signature ignores the five characters of `isSpace` between
its tokens, while a listing line is trimmed of every blank character of Unicode, `isBlank`.

* `trimStart`, `trim`: remove the blank characters at the start, at both ends.
* `isBlank_of_isSpace`: what a signature ignores, trimming removes.
-/

namespace TensorSig.Text

/-- The characters that a signature ignores between its tokens: space, tab, form feed, carriage
return and line feed. -/
def isSpace (c : Char) : Bool :=
  c = ' ' || c = '\t' || c = '\x0c' || c = '\r' || c = '\n'

/-- The blank characters of Unicode, together with the four information separators. -/
def isBlank (c : Char) : Bool :=
  let n := c.toNat
  (0x09 ≤ n && n ≤ 0x0d) || (0x1c ≤ n && n ≤ 0x20) || n = 0x85 || n = 0xa0 || n = 0x1680 ||
    (0x2000 ≤ n && n ≤ 0x200a) || n = 0x2028 || n = 0x2029 || n = 0x202f || n = 0x205f ||
    n = 0x3000

theorem isBlank_of_isSpace {c : Char} (h : isSpace c = true) : isBlank c = true := by
  simp only [isSpace, Bool.or_eq_true, decide_eq_true_eq] at h
  rcases h with (((rfl | rfl) | rfl) | rfl) | rfl <;> decide

/-- A text without the blank characters at its start. -/
def trimStart (text : List Char) : List Char := text.dropWhile isBlank

/-- A text without the blank characters at its end. -/
def trimEnd (text : List Char) : List Char := (text.reverse.dropWhile isBlank).reverse

/-- A text without the blank characters at its ends. -/
def trim (text : List Char) : List Char := trimEnd (trimStart text)

end TensorSig.Text
