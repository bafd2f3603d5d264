/-!
# Texts at the start of texts

* `afterPrefix?`: what follows one text at the start of another; `afterPrefix?_eq_some_iff` says
  that it is the rest of the text.
* `firstOccurrence?`: the offset at which a text occurs first in another.
-/

namespace TensorSig.Text

/-- What follows a text at the start of another, where it stands there. -/
def afterPrefix? : List Char → List Char → Option (List Char)
  | [], text => some text
  | _ :: _, [] => none
  | c :: w, d :: text => if c = d then afterPrefix? w text else none

theorem afterPrefix?_append (w rest : List Char) : afterPrefix? w (w ++ rest) = some rest := by
  induction w with
  | nil => rfl
  | cons c w ih => rw [List.cons_append, afterPrefix?, if_pos rfl, ih]

theorem append_of_afterPrefix? {w text rest : List Char} (h : afterPrefix? w text = some rest) :
    w ++ rest = text := by
  induction w generalizing text with
  | nil =>
    obtain rfl := Option.some.inj h
    rfl
  | cons c w ih =>
    cases text with
    | nil => cases h
    | cons d text =>
      rw [afterPrefix?] at h
      split at h
      · rename_i hcd
        rw [List.cons_append, ih h, hcd]
      · cases h

theorem afterPrefix?_eq_some_iff {w text rest : List Char} :
    afterPrefix? w text = some rest ↔ w ++ rest = text :=
  ⟨append_of_afterPrefix?, fun h => h ▸ afterPrefix?_append w rest⟩

/-- The offset of the first occurrence of a text in another. -/
def firstOccurrence? (text : List Char) : List Char → Option Nat
  | [] => if text.isEmpty then some 0 else none
  | c :: rest =>
    if (afterPrefix? text (c :: rest)).isSome then some 0
    else (firstOccurrence? text rest).map (· + 1)

end TensorSig.Text
