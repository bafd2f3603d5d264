import TensorSig.Text.Affix

/-!
# Scanners

A scanner looks for a lexeme at the start of a text and returns it with the rest of the text. The
lexical classes of the signature language are put together from few scanners.

* `word`, `char`, `run`: a fixed word, one character of a class, the longest run of a class.
* `andThen`, `orElse`, `optional`: sequence, choice in order, and choice with the empty lexeme.
* `Exact`: a scanner's lexeme and rest make up the text; every combination of exact scanners is
  exact. `Consuming`: a scanner never finds the empty lexeme.
-/

namespace TensorSig

/-- A lexeme at the start of a text, with the rest of the text. -/
abbrev Scanner := List Char → Option (List Char × List Char)

namespace Scanner

/-- A fixed word. -/
def word (w : List Char) : Scanner := fun text =>
  (Text.afterPrefix? w text).map fun rest => (w, rest)

/-- One character of a class. -/
def char (p : Char → Bool) : Scanner
  | [] => none
  | c :: rest => if p c then some ([c], rest) else none

/-- The longest run of characters of a class, which may be empty. -/
def run (p : Char → Bool) : Scanner := fun text => some (text.takeWhile p, text.dropWhile p)

/-- One scanner and then another on what it leaves. -/
def andThen (f g : Scanner) : Scanner := fun text =>
  match f text with
  | none => none
  | some (lexeme, rest) => (g rest).map fun (next, rest') => (lexeme ++ next, rest')

/-- The first scanner, or the second where the first finds nothing. -/
def orElse (f g : Scanner) : Scanner := fun text => (f text).or (g text)

/-- The scanner, or the empty lexeme where it finds nothing. -/
def optional (f : Scanner) : Scanner := fun text => (f text).or (some ([], text))

/-! ## A lexeme is a piece of the text -/

/-- The lexeme and the rest of the text make up the text. -/
def Exact (f : Scanner) : Prop := ∀ text lexeme rest, f text = some (lexeme, rest) →
  lexeme ++ rest = text

/-- The lexeme is never empty. -/
def Consuming (f : Scanner) : Prop := ∀ text lexeme rest, f text = some (lexeme, rest) →
  lexeme ≠ []

theorem Exact.word (w : List Char) : Exact (word w) := by
  intro text lexeme rest h
  obtain ⟨r, hr, he⟩ := Option.map_eq_some_iff.1 h
  obtain ⟨rfl, rfl⟩ := Prod.mk.inj he
  exact Text.append_of_afterPrefix? hr

theorem Consuming.word {w : List Char} (hw : w ≠ []) : Consuming (word w) := by
  intro text lexeme rest h
  obtain ⟨r, -, he⟩ := Option.map_eq_some_iff.1 h
  exact (Prod.mk.inj he).1 ▸ hw

theorem char_eq_some {p : Char → Bool} {text lexeme rest : List Char}
    (h : char p text = some (lexeme, rest)) : ∃ c, lexeme = [c] ∧ text = c :: rest := by
  cases text with
  | nil => simp [char] at h
  | cons c r =>
    simp only [char] at h
    split at h
    · simp only [Option.some.injEq, Prod.mk.injEq] at h
      exact ⟨c, h.1.symm, by rw [h.2]⟩
    · simp at h

theorem Exact.char (p : Char → Bool) : Exact (char p) := by
  intro text lexeme rest h
  obtain ⟨c, rfl, rfl⟩ := char_eq_some h
  rfl

theorem Consuming.char (p : Char → Bool) : Consuming (char p) := by
  intro text lexeme rest h
  obtain ⟨c, rfl, rfl⟩ := char_eq_some h
  simp

theorem Exact.run (p : Char → Bool) : Exact (run p) := by
  intro text lexeme rest h
  simp only [Scanner.run, Option.some.injEq, Prod.mk.injEq] at h
  obtain ⟨rfl, rfl⟩ := h
  exact List.takeWhile_append_dropWhile

theorem andThen_eq_some {f g : Scanner} {text lexeme rest : List Char}
    (h : f.andThen g text = some (lexeme, rest)) :
    ∃ l l' r, f text = some (l, r) ∧ g r = some (l', rest) ∧ lexeme = l ++ l' := by
  unfold andThen at h
  split at h
  · simp at h
  · rename_i l r hf
    obtain ⟨⟨l', r'⟩, hg, he⟩ := Option.map_eq_some_iff.1 h
    obtain ⟨rfl, rfl⟩ := Prod.mk.inj he
    exact ⟨l, l', r, hf, hg, rfl⟩

theorem Exact.andThen {f g : Scanner} (hf : Exact f) (hg : Exact g) : Exact (f.andThen g) := by
  intro text lexeme rest h
  obtain ⟨l, l', r, h₁, h₂, rfl⟩ := andThen_eq_some h
  rw [List.append_assoc, hg _ _ _ h₂, hf _ _ _ h₁]

theorem Consuming.andThen {f : Scanner} (hf : Consuming f) (g : Scanner) :
    Consuming (f.andThen g) := by
  intro text lexeme rest h
  obtain ⟨l, l', r, h₁, -, rfl⟩ := andThen_eq_some h
  simp [hf _ _ _ h₁]

theorem Consuming.after {g : Scanner} (f : Scanner) (hg : Consuming g) :
    Consuming (f.andThen g) := by
  intro text lexeme rest h
  obtain ⟨l, l', r, -, h₂, rfl⟩ := andThen_eq_some h
  simp [hg _ _ _ h₂]

theorem Exact.orElse {f g : Scanner} (hf : Exact f) (hg : Exact g) : Exact (f.orElse g) := by
  intro text lexeme rest h
  rcases Option.or_eq_some_iff.1 h with h | ⟨-, h⟩
  · exact hf _ _ _ h
  · exact hg _ _ _ h

theorem Exact.optional {f : Scanner} (hf : Exact f) : Exact f.optional := by
  intro text lexeme rest h
  rcases Option.or_eq_some_iff.1 h with h | ⟨-, h⟩
  · exact hf _ _ _ h
  · simp only [Option.some.injEq, Prod.mk.injEq] at h
    rw [← h.1, ← h.2, List.nil_append]

/-- An exact scanner that consumes leaves a shorter text. -/
theorem length_lt {f : Scanner} (he : Exact f) (hc : Consuming f) {text lexeme rest : List Char}
    (h : f text = some (lexeme, rest)) : rest.length < text.length := by
  have hl := List.length_pos_iff.2 (hc _ _ _ h)
  have := congrArg List.length (he _ _ _ h)
  simp only [List.length_append] at this
  omega

end Scanner

end TensorSig
