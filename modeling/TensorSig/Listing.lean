import TensorSig.Parse
import TensorSig.Text.Affix
import TensorSig.Text.Blank

/-!
# Listings

A listing holds one declaration a line. Blank lines and comments are skipped, a marker in front of a
declaration is dropped, and each line is parsed on its own: a line that fails yields a diagnostic on
that line and leaves the others alone. A numeral that is too long to be read ends the listing.

* `declaration?`: the declaration on a line.
* `columnShift`: where on the line it is taken to start.
* `Entry.ofLine`: what becomes of one line.
* `Listing.parse`: what becomes of all lines.
-/

namespace TensorSig

/-- A text without a marker in front of it and, if the marker is there, without the blank characters
after the marker. -/
def dropMarker (marker text : List Char) : List Char :=
  match Text.afterPrefix? marker text with
  | some rest => Text.trimStart rest
  | none => text

/-- The declaration on a line of a listing: the line without the blank characters at its ends,
without a leading `- ` and without a leading `func:`. There is none on a blank line, in a comment
and after a bare marker. -/
def declaration? (line : List Char) : Option (List Char) :=
  let text := Text.trim line
  if text.isEmpty || text.head? = some '#' then none
  else
    let text := dropMarker ['f', 'u', 'n', 'c', ':'] (dropMarker ['-', ' '] text)
    if text.isEmpty then none else some text

/-- Where on a line its declaration is taken to start: at the first occurrence of it. -/
def columnShift (line declaration : List Char) : Nat :=
  (Text.firstOccurrence? declaration line).getD 0

/-- What becomes of a line. -/
inductive Entry
  /-- There is no declaration on it. -/
  | skipped
  | parsed (signature : Signature)
  | failed (diagnostic : Diagnostic)

namespace Entry

/-- What becomes of a line with a number in a listing that may have a name. -/
def ofLine (file? : Option String) (number : Nat) (line : List Char) :
    Except OversizedNumeral Entry :=
  match declaration? line with
  | none => .ok skipped
  | some text =>
    match parseFunction text with
    | .ok signature => .ok (parsed signature)
    | .error (.signature e) =>
      .ok (failed (e.toDiagnostic.relocate number file? (columnShift line text)))
    | .error (.oversized numeral) => .error numeral

/-- The declaration of a line that was parsed. -/
def signature? : Entry → Option Signature
  | parsed signature => some signature
  | _ => none

/-- The diagnostic of a line that failed. -/
def diagnostic? : Entry → Option Diagnostic
  | failed diagnostic => some diagnostic
  | _ => none

/-- What becomes of lines of which the first has a given number. -/
def ofLines (file? : Option String) : Nat → List (List Char) → Except OversizedNumeral (List Entry)
  | _, [] => .ok []
  | number, line :: lines => do
    let entry ← ofLine file? number line
    let entries ← ofLines file? (number + 1) lines
    return entry :: entries

end Entry

/-- A parsed listing: a declaration or nothing for each line, and the diagnostics in order. -/
structure Listing where
  results : List (Option Signature)
  diagnostics : List Diagnostic

namespace Listing

/-- The listing that entries make up. -/
def ofEntries (entries : List Entry) : Listing :=
  { results := entries.map Entry.signature?
    diagnostics := entries.filterMap Entry.diagnostic? }

/-- Parse a listing. Lines are numbered from one. -/
def parse (file? : Option String) (lines : List (List Char)) : Except OversizedNumeral Listing :=
  (Entry.ofLines file? 1 lines).map ofEntries

end Listing

end TensorSig
