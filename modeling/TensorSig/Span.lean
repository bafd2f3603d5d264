import TensorSig.Text.Numeral

/-!
# Spans

A span is a position in a signature: the offset in characters from zero and, where they are known,
the line and the column from one and the name of a listing. A span that was computed for one
signature is relocated when the signature is a piece of a line of a listing.

* `Span.ofOffset`: the span of an offset of a text, in which line feeds alone end lines.
* `Span.relocate`: the span on a line of a listing.
* `Span.text`: how a span is written.
-/

namespace TensorSig

/-- A position in a signature. -/
structure Span where
  offset : Int := 0
  line? : Option Int := none
  column? : Option Int := none
  file? : Option String := none
  deriving DecidableEq

namespace Span

/-- The line of an offset: one more than the number of line feeds before it. -/
def lineOf (text : List Char) (offset : Nat) : Nat := (text.take offset).count '\n' + 1

/-- The column of an offset: one more than the number of characters between the last line feed
before it and the offset. -/
def columnOf (text : List Char) (offset : Nat) : Nat :=
  ((text.take offset).reverse.takeWhile (· ≠ '\n')).length + 1

/-- The span of an offset of a text. -/
def ofOffset (text : List Char) (offset : Nat) : Span :=
  { offset := offset, line? := some (lineOf text offset), column? := some (columnOf text offset) }

/-- The span on a line of a listing, where the signature starts `shift` characters into the line.
The offset stays relative to the signature, and a listing without a name leaves the name alone. -/
def relocate (s : Span) (line : Int) (file? : Option String) (shift : Int) : Span :=
  { offset := s.offset
    line? := some line
    column? := s.column?.map (· + shift)
    file? := file? <|> s.file? }

/-- A number as it is written. -/
def numberText (n : Int) : String := String.ofList (Numeral.ofInt n)

/-- A span as it is written: the name, the line and the column with colons between them. A missing
or empty name is written `<input>`. -/
def text (s : Span) : String :=
  let name :=
    match s.file? with
    | some file => if file.isEmpty then "<input>" else file
    | none => "<input>"
  ":".intercalate (name :: (s.line?.toList ++ s.column?.toList).map numberText)

end Span

end TensorSig
