import TensorSig.Listing
import Mathlib.Data.List.Infix
import Mathlib.Data.List.TakeWhile

/-!
# Declarations on lines

What trimming and the dropping of markers leave of a line. Blank characters at the end of a line do
not matter: neither to the declaration on it nor to the column at which it is taken to start. This
is why a line may keep the line feed that ends it.

* `Text.isSome_afterPrefix?_iff`: one text stands at the start of another.
* `Text.trim_append`, `Text.trim_eq_self`: blank characters at the end, a text without any at its
  ends.
* `spec_of_declaration?`: the declaration on a line is a piece of it.
* `declaration?_eq_self`: a line that is its own declaration.
* `declaration?_append`, `columnShift_append`: a line with blank characters behind it.
-/

namespace TensorSig

namespace Text

/-! ## Texts in texts -/

theorem isSome_afterPrefix?_iff {w text : List Char} :
    (afterPrefix? w text).isSome ↔ w <+: text := by
  simp only [Option.isSome_iff_exists, afterPrefix?_eq_some_iff]
  rfl

/-- A character behind a text gives another no place to occur unless it is its last. -/
theorem firstOccurrence?_concat {text : List Char} {c : Char} (hne : text ≠ [])
    (hc : text.getLast? ≠ some c) (line : List Char) :
    firstOccurrence? text (line ++ [c]) = firstOccurrence? text line := by
  have hp : ∀ l, text <+: l ++ [c] ↔ text <+: l := by
    intro l
    rw [List.prefix_concat_iff]
    refine ⟨fun h => h.resolve_left fun he => hc ?_, .inr⟩
    rw [he, List.getLast?_concat]
  induction line with
  | nil =>
    have hn : ¬(afterPrefix? text [c]).isSome := by
      rw [isSome_afterPrefix?_iff, ← List.nil_append [c], hp, List.prefix_nil]
      exact hne
    simp [firstOccurrence?, hn, hne]
  | cons d line ih =>
    have hd : (afterPrefix? text (d :: (line ++ [c]))).isSome ↔
        (afterPrefix? text (d :: line)).isSome := by
      rw [isSome_afterPrefix?_iff, isSome_afterPrefix?_iff, ← List.cons_append, hp]
    rw [List.cons_append, firstOccurrence?, firstOccurrence?, ih]
    simp only [hd]

/-- Characters behind a text give another no place to occur unless one of them is its last. -/
theorem firstOccurrence?_append {text ws : List Char} (hne : text ≠ [])
    (hws : ∀ c ∈ ws, text.getLast? ≠ some c) (line : List Char) :
    firstOccurrence? text (line ++ ws) = firstOccurrence? text line := by
  induction ws generalizing line with
  | nil => rw [List.append_nil]
  | cons c ws ih =>
    rw [List.forall_mem_cons] at hws
    rw [List.append_cons, ih hws.2, firstOccurrence?_concat hne hws.1]

/-! ## Trimming -/

theorem trimEnd_append {ws : List Char} (h : ∀ c ∈ ws, isBlank c = true) (text : List Char) :
    trimEnd (text ++ ws) = trimEnd text := by
  have hr : ∀ c ∈ ws.reverse, isBlank c = true := fun c hc => h c (List.mem_reverse.1 hc)
  rw [trimEnd, List.reverse_append, List.dropWhile_append_of_pos hr, trimEnd]

/-- Blank characters at the end of a text do not matter to what trimming leaves. -/
theorem trim_append {ws : List Char} (h : ∀ c ∈ ws, isBlank c = true) (text : List Char) :
    trim (text ++ ws) = trim text := by
  rw [trim, trim, trimStart, trimStart, List.dropWhile_append]
  split
  · rename_i he
    rw [List.isEmpty_iff.1 he, List.dropWhile_eq_nil_iff.2 h]
  · exact trimEnd_append h _

/-- Trimming leaves no blank character at the end. -/
theorem isBlank_of_getLast?_trim {text : List Char} {c : Char}
    (h : (trim text).getLast? = some c) : isBlank c = false := by
  have hd := List.head?_dropWhile_not isBlank (trimStart text).reverse
  rw [trim, trimEnd, List.getLast?_reverse] at h
  rwa [h] at hd

theorem trim_isInfix (text : List Char) : trim text <:+: text := by
  have hs : trimStart text <:+ text := List.dropWhile_suffix _
  have he : trim text <+: trimStart text := by
    rw [← List.reverse_suffix, trim, trimEnd, List.reverse_reverse]
    exact List.dropWhile_suffix _
  exact he.isInfix.trans hs.isInfix

/-- A text without blank characters at its ends is what trimming leaves of it. -/
theorem trim_eq_self {text : List Char} (hhead : ∀ c ∈ text.head?, isBlank c = false)
    (hlast : ∀ c ∈ text.getLast?, isBlank c = false) : trim text = text := by
  have hs : trimStart text = text := by
    cases text with
    | nil => rfl
    | cons c rest => exact List.dropWhile_cons_of_neg (by simp [hhead c rfl])
  rw [trim, hs, trimEnd, List.reverse_eq_iff]
  cases hr : text.reverse with
  | nil => rfl
  | cons c rest =>
    have hc : text.getLast? = some c := by rw [← List.head?_reverse, hr, List.head?_cons]
    exact List.dropWhile_cons_of_neg (by simp [hlast c hc])

end Text

/-! ## The declaration on a line -/

theorem dropMarker_isSuffix (marker text : List Char) : dropMarker marker text <:+ text := by
  unfold dropMarker
  split
  · rename_i rest h
    rw [← Text.append_of_afterPrefix? h]
    exact (List.dropWhile_suffix _).trans (List.suffix_append _ _)
  · exact List.suffix_rfl

theorem dropMarker_eq_self {marker text : List Char} (h : ¬marker <+: text) :
    dropMarker marker text = text := by
  rw [← Text.isSome_afterPrefix?_iff, Option.not_isSome_iff_eq_none] at h
  rw [dropMarker, h]

/-- The declaration on a line is not empty, and only a part of the line before it and blank
characters behind it are missing. -/
theorem spec_of_declaration? {line text : List Char} (h : declaration? line = some text) :
    text ≠ [] ∧ text <:+ Text.trim line := by
  unfold declaration? at h
  dsimp only at h
  split at h
  · cases h
  · split at h
    · cases h
    · rename_i hne
      obtain rfl := Option.some.inj h
      refine ⟨fun he => hne (List.isEmpty_iff.2 he), ?_⟩
      exact (dropMarker_isSuffix _ _).trans (dropMarker_isSuffix _ _)

/-- The declaration on a line is a piece of the line. -/
theorem isInfix_of_declaration? {line text : List Char} (h : declaration? line = some text) :
    text <:+: line :=
  (spec_of_declaration? h).2.isInfix.trans (Text.trim_isInfix line)

/-- No blank character is at the end of a declaration. -/
theorem isBlank_of_getLast?_declaration {line text : List Char} {c : Char}
    (h : declaration? line = some text) (hc : text.getLast? = some c) :
    Text.isBlank c = false := by
  obtain ⟨hne, hs⟩ := spec_of_declaration? h
  have hl : (Text.trim line).getLast? = some c := by
    rw [← hc, List.getLast?_eq_some_getLast hne, List.getLast?_eq_some_getLast (hs.ne_nil hne),
      hs.getLast hne]
  exact Text.isBlank_of_getLast?_trim hl

/-- A line is its own declaration where nothing is to be trimmed, skipped or dropped. -/
theorem declaration?_eq_self {line : List Char} (hne : line ≠ [])
    (hhead : ∀ c ∈ line.head?, Text.isBlank c = false ∧ c ≠ '#')
    (hlast : ∀ c ∈ line.getLast?, Text.isBlank c = false) (hitem : ¬['-', ' '] <+: line)
    (hfunc : ¬['f', 'u', 'n', 'c', ':'] <+: line) : declaration? line = some line := by
  have ht : Text.trim line = line := Text.trim_eq_self (fun c hc => (hhead c hc).1) hlast
  have hn : line.head? ≠ some '#' := fun hc => (hhead '#' hc).2 rfl
  unfold declaration?
  simp [ht, dropMarker_eq_self hitem, dropMarker_eq_self hfunc, hne, hn]

/-- **Blank characters at the end of a line** do not matter to the declaration on it. -/
theorem declaration?_append {ws : List Char} (h : ∀ c ∈ ws, Text.isBlank c = true)
    (line : List Char) : declaration? (line ++ ws) = declaration? line := by
  rw [declaration?, Text.trim_append h, declaration?]

/-- **Nor do they matter to its column.** -/
theorem columnShift_append {ws line text : List Char} (h : ∀ c ∈ ws, Text.isBlank c = true)
    (hd : declaration? line = some text) :
    columnShift (line ++ ws) text = columnShift line text := by
  have hlast : ∀ c ∈ ws, text.getLast? ≠ some c := by
    intro c hc hl
    have hb := isBlank_of_getLast?_declaration hd hl
    rw [h c hc] at hb
    cases hb
  rw [columnShift, Text.firstOccurrence?_append (spec_of_declaration? hd).1 hlast, columnShift]

end TensorSig
