/-!
# Lines

How a text is cut into lines.

* `unifyNewlines`: carriage returns, alone or before a line feed, become line feeds.
* `NewlineMode`: whether a stream of text does that.
* `splitLines`: the pieces between line boundaries of every kind, without the boundaries.
* `splitNewlines`: the pieces that end in a line feed, each with its line feed.
-/

namespace TensorSig.Text

/-- A text in which every carriage return, with the line feed that may follow it, is one line
feed. -/
def unifyNewlines : List Char → List Char
  | [] => []
  | '\r' :: '\n' :: rest => '\n' :: unifyNewlines rest
  | '\r' :: rest => '\n' :: unifyNewlines rest
  | c :: rest => c :: unifyNewlines rest

/-- What a stream does with the carriage returns in its text. -/
inductive NewlineMode
  | kept
  | unified
  deriving DecidableEq

/-- The text that a stream yields. -/
def NewlineMode.decode : NewlineMode → List Char → List Char
  | kept, text => text
  | unified, text => unifyNewlines text

/-- The characters that end a line: line feed, vertical tab, form feed, carriage return, the
information separators from the file to the record one, next line, line and paragraph separator. -/
def isLineBoundary (c : Char) : Bool :=
  let n := c.toNat
  (0x0a ≤ n && n ≤ 0x0d) || (0x1c ≤ n && n ≤ 0x1e) || n = 0x85 || n = 0x2028 || n = 0x2029

/-- The pieces of a text between the characters of a class; a piece after the last of them counts
unless it is empty. The pieces keep their final character if `keep` says so. -/
def splitAfter (ends : Char → Bool) (keep : Bool) : List Char → List (List Char)
  | [] => []
  | c :: rest =>
    if ends c then (if keep then [c] else []) :: splitAfter ends keep rest
    else
      match splitAfter ends keep rest with
      | [] => [[c]]
      | piece :: pieces => (c :: piece) :: pieces

/-- The lines of a text whose carriage returns are already unified. -/
def splitLines (text : List Char) : List (List Char) := splitAfter isLineBoundary false text

/-- The lines of a text that only line feeds end, each with its line feed. -/
def splitNewlines (text : List Char) : List (List Char) := splitAfter (· = '\n') true text

end TensorSig.Text
