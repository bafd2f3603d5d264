/-!
# Paths

A path is written in one normal form: slashes in a row count as one, the component `.` and a slash
at the end are dropped, and the empty path is `.`. The component `..` is kept, since it depends on
the file system what it leads to. Exactly two slashes at the start are kept as they are.
-/

namespace TensorSig.Command

/-- The components of a path between its slashes. -/
def pathComponents : List Char → List (List Char)
  | [] => [[]]
  | c :: rest =>
    if c = '/' then [] :: pathComponents rest
    else
      match pathComponents rest with
      | [] => [[c]]
      | first :: others => (c :: first) :: others

/-- The slashes that a path starts with in normal form. -/
def pathRoot : List Char → List Char
  | '/' :: '/' :: '/' :: _ => ['/']
  | '/' :: '/' :: _ => ['/', '/']
  | '/' :: _ => ['/']
  | _ => []

/-- The normal form of a path. -/
def normalPath (path : List Char) : List Char :=
  let components := (pathComponents path).filter fun c => c ≠ [] ∧ c ≠ ['.']
  let text := pathRoot path ++ ['/'].intercalate components
  if text.isEmpty then ['.'] else text

end TensorSig.Command
