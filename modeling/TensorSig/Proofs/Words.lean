import Mathlib.Computability.Language
import TensorSig.Grammar.Terminal
import TensorSig.Text.Blank

/-!
# The words of the terminals

A terminal stands for a language of words over characters. This module gives the languages without
mention of the scanners and shows that each scanner finds the longest word of its language at the
start of a text.

* `Terminal.words`: the words of a terminal, and `digits`, `integers`, `floats`, `names`: the
  lexical classes among them.
* `MadeOf`: the words of a language are made of characters of a class.
* `Scanner.Longest`: a scanner finds the longest word of a language, and finds one whenever there
  is one. It is kept by sequence (`Longest.andThen`) as long as no character both goes on with a
  word of the first language and starts a word of the second.
* `Terminal.longest_scan`: the scanner of a terminal is such a scanner.
* `Terminal.scan_eq_none_iff`: it finds nothing where no word of the terminal starts the text.
-/

namespace TensorSig

/-! ## Languages -/

/-- The words of one character of a class. -/
def letter (p : Char → Bool) : Language Char := {w | ∃ c, p c = true ∧ w = [c]}

/-- The words of any number of characters of a class. -/
def letters (p : Char → Bool) : Language Char := {w | ∀ c ∈ w, p c = true}

/-- One digit or more. -/
def digits : Language Char := letter Char.isDigit * letters Char.isDigit

/-- Digits after an optional minus sign. -/
def integers : Language Char := (letter (· = '-') + 1) * digits

/-- Exponent parts. -/
def exponents : Language Char :=
  letter (fun c => c = 'e' || c = 'E') * ((letter (fun c => c = '+' || c = '-') + 1) * digits)

/-- A point and digits, with or without an exponent part. -/
def fractions : Language Char := letter (· = '.') * (digits * (exponents + 1))

/-- Floating-point numerals: an integer with a fraction, an exponent or both. -/
def floats : Language Char := integers * (fractions + exponents)

/-- Names. -/
def names : Language Char := letter Terminal.isNameStart * letters Terminal.isNamePart

/-- A word of which the first letter may be of either case. -/
def eitherCase (lower upper : Char) (others : List Char) : Language Char :=
  letter (fun c => c = lower || c = upper) * {others}

namespace Terminal

/-- The words of a terminal that has no spelling of its own. -/
def classWords : Terminal → Language Char
  | literal .float => floats
  | literal .integer => integers
  | literal (.bool true) => eitherCase 't' 'T' ['r', 'u', 'e']
  | literal (.bool false) => eitherCase 'f' 'F' ['a', 'l', 's', 'e']
  | natural => digits
  | _ => names

/-- The words of a terminal: its spelling, or those of its class. -/
def words (t : Terminal) : Language Char :=
  match t.spelling? with
  | some s => {s.toList}
  | none => t.classWords

end Terminal

theorem mem_singleton_language {v w : List Char} : w ∈ ({v} : Language Char) ↔ w = v :=
  Set.mem_singleton_iff

/-- A word of one character and then others of a class, as its characters. -/
theorem cons_mem_letter_mul {p : Char → Bool} {L : Language Char} {w : List Char} :
    w ∈ letter p * L ↔ ∃ c v, p c = true ∧ v ∈ L ∧ w = c :: v := by
  constructor
  · intro h
    obtain ⟨a, ⟨c, hc, rfl⟩, v, hv, rfl⟩ := Language.mem_mul.1 h
    exact ⟨c, v, hc, hv, rfl⟩
  · rintro ⟨c, v, hc, hv, rfl⟩
    exact Language.append_mem_mul (a := [c]) ⟨c, hc, rfl⟩ hv

/-! ## The characters of words -/

/-- The words of a language are made of characters of a class. -/
def MadeOf (p : Char → Bool) (L : Language Char) : Prop := ∀ w ∈ L, ∀ c ∈ w, p c = true

namespace MadeOf

variable {p q : Char → Bool} {L M : Language Char}

theorem letter (h : ∀ c, q c = true → p c = true) : MadeOf p (letter q) := by
  rintro w ⟨c, hc, rfl⟩ d hd
  obtain rfl := List.mem_singleton.1 hd
  exact h _ hc

theorem letters (h : ∀ c, q c = true → p c = true) : MadeOf p (letters q) :=
  fun _ hw c hc => h c (hw c hc)

theorem one : MadeOf p 1 := by
  intro w hw c hc
  rw [(Language.mem_one w).1 hw] at hc
  cases hc

theorem add (hL : MadeOf p L) (hM : MadeOf p M) : MadeOf p (L + M) := by
  intro w hw
  rcases (Language.mem_add _ _ _).1 hw with hw | hw
  · exact hL w hw
  · exact hM w hw

theorem mul (hL : MadeOf p L) (hM : MadeOf p M) : MadeOf p (L * M) := by
  intro w hw c hc
  obtain ⟨a, ha, b, hb, rfl⟩ := Language.mem_mul.1 hw
  rcases List.mem_append.1 hc with hc | hc
  · exact hL a ha c hc
  · exact hM b hb c hc

theorem eitherCase {c d : Char} {v : List Char} (hc : p c = true) (hd : p d = true)
    (hv : ∀ e ∈ v, p e = true) : MadeOf p (eitherCase c d v) := by
  refine mul (letter ?_) fun u hu => mem_singleton_language.1 hu ▸ hv
  simp +contextual [or_imp, hc, hd]

end MadeOf

/-! ## Longest words -/

/-- No character both goes on with a word of the first language and starts a word of the second. -/
def Separated (L M : Language Char) : Prop :=
  ∀ v c y z, v ∈ L → v ++ c :: y ∈ L → c :: z ∉ M

namespace Scanner

/-- A scanner finds the longest word of a language at the start of a text. -/
structure Longest (f : Scanner) (L : Language Char) : Prop where
  mem : ∀ {text w rest}, f text = some (w, rest) → w ∈ L
  exact : f.Exact
  le : ∀ {text w rest v}, f text = some (w, rest) → v ∈ L → v <+: text → v.length ≤ w.length
  total : ∀ {text v}, v ∈ L → v <+: text → ∃ w rest, f text = some (w, rest)

theorem word_append (w rest : List Char) : word w (w ++ rest) = some (w, rest) := by
  simp [word, Text.afterPrefix?_append]

theorem Longest.word (w : List Char) : Longest (word w) {w} where
  mem := by
    intro text v rest h
    obtain ⟨r, -, he⟩ := Option.map_eq_some_iff.1 h
    exact mem_singleton_language.2 (Prod.mk.inj he).1.symm
  exact := .word w
  le := by
    intro text v rest u h hu hp
    obtain ⟨r, -, he⟩ := Option.map_eq_some_iff.1 h
    rw [mem_singleton_language.1 hu, (Prod.mk.inj he).1]
  total := by
    intro text v hv hp
    obtain rfl := mem_singleton_language.1 hv
    obtain ⟨r, rfl⟩ := hp
    exact ⟨v, r, word_append v r⟩

theorem Longest.char (p : Char → Bool) : Longest (char p) (letter p) where
  mem := by
    intro text w rest h
    cases text with
    | nil => simp [Scanner.char] at h
    | cons c r =>
      simp only [Scanner.char] at h
      split at h
      · rename_i hc
        obtain ⟨rfl, -⟩ := Prod.mk.inj (Option.some.inj h)
        exact ⟨c, hc, rfl⟩
      · simp at h
  exact := .char p
  le := by
    intro text w rest v h hv hp
    obtain ⟨c, rfl, -⟩ := char_eq_some h
    obtain ⟨d, -, rfl⟩ := hv
    exact le_rfl
  total := by
    intro text v hv hp
    obtain ⟨c, hc, rfl⟩ := hv
    obtain ⟨r, rfl⟩ := hp
    exact ⟨[c], r, by simp [Scanner.char, hc]⟩

theorem Longest.run (p : Char → Bool) : Longest (run p) (letters p) where
  mem := by
    intro text w rest h
    obtain ⟨rfl, -⟩ := Prod.mk.inj (Option.some.inj h)
    exact List.all_eq_true.1 List.all_takeWhile
  exact := .run p
  le := by
    intro text w rest v h hv hp
    obtain ⟨rfl, -⟩ := Prod.mk.inj (Option.some.inj h)
    obtain ⟨r, rfl⟩ := hp
    rw [List.takeWhile_append_of_pos hv, List.length_append]
    exact Nat.le_add_right _ _
  total := fun _ _ => ⟨_, _, rfl⟩

/-- The two words found in sequence are the longest word of the product. Where the first word could
be cut shorter, the character after the cut starts no word of the second language, so that the
second word would be empty. -/
theorem Longest.andThen {f g : Scanner} {L M : Language Char} (hf : Longest f L)
    (hg : Longest g M) (hs : Separated L M) : Longest (f.andThen g) (L * M) where
  mem := by
    intro text w rest h
    obtain ⟨l, l', r, h₁, h₂, rfl⟩ := andThen_eq_some h
    exact Language.append_mem_mul (hf.mem h₁) (hg.mem h₂)
  exact := hf.exact.andThen hg.exact
  le := by
    intro text w rest v h hv hp
    obtain ⟨l, l', r, h₁, h₂, rfl⟩ := andThen_eq_some h
    obtain ⟨a, ha, b, hb, rfl⟩ := Language.mem_mul.1 hv
    obtain rfl := hf.exact _ _ _ h₁
    have hal : a.length ≤ l.length := hf.le h₁ ha ((List.prefix_append a b).trans hp)
    obtain ⟨x, rfl⟩ : a <+: l := List.prefix_of_prefix_length_le
      ((List.prefix_append a b).trans hp) (List.prefix_append l r) hal
    cases x with
    | nil =>
      rw [List.append_nil] at hp ⊢
      have := hg.le h₂ hb ((List.prefix_append_right_inj a).1 hp)
      simpa using this
    | cons c y =>
      cases b with
      | nil => simp only [List.length_append, List.length_nil, List.length_cons]; omega
      | cons d z =>
        rw [List.append_assoc, List.prefix_append_right_inj, List.cons_append,
          List.cons_prefix_cons] at hp
        obtain ⟨rfl, -⟩ := hp
        exact absurd hb (hs a d y z ha (hf.mem h₁))
  total := by
    intro text v hv hp
    obtain ⟨a, ha, b, hb, rfl⟩ := Language.mem_mul.1 hv
    have hap : a <+: text := (List.prefix_append a b).trans hp
    obtain ⟨l, r, h₁⟩ := hf.total ha hap
    obtain rfl := hf.exact _ _ _ h₁
    have hal : a.length ≤ l.length := hf.le h₁ ha hap
    obtain ⟨x, rfl⟩ : a <+: l :=
      List.prefix_of_prefix_length_le hap (List.prefix_append l r) hal
    have hbr : ∃ u ∈ M, u <+: r := by
      cases x with
      | nil =>
        rw [List.append_nil] at hp
        exact ⟨b, hb, (List.prefix_append_right_inj a).1 hp⟩
      | cons c y =>
        cases b with
        | nil => exact ⟨[], hb, List.nil_prefix⟩
        | cons d z =>
          rw [List.append_assoc, List.prefix_append_right_inj, List.cons_append,
            List.cons_prefix_cons] at hp
          obtain ⟨rfl, -⟩ := hp
          exact absurd hb (hs a d y z ha (hf.mem h₁))
    obtain ⟨u, hu, hur⟩ := hbr
    obtain ⟨l', r', h₂⟩ := hg.total hu hur
    exact ⟨_, r', by simp only [Scanner.andThen, h₁, h₂, Option.map_some]; rfl⟩

theorem Longest.optional {f : Scanner} {L : Language Char} (hf : Longest f L) :
    Longest f.optional (L + 1) where
  mem := by
    intro text w rest h
    rcases Option.or_eq_some_iff.1 h with h | ⟨-, h⟩
    · exact (Language.mem_add _ _ _).2 (Or.inl (hf.mem h))
    · obtain ⟨rfl, -⟩ := Prod.mk.inj (Option.some.inj h)
      exact (Language.mem_add _ _ _).2 (Or.inr rfl)
  exact := hf.exact.optional
  le := by
    intro text w rest v h hv hp
    rcases (Language.mem_add _ _ _).1 hv with hv | hv
    · obtain ⟨u, r, hu⟩ := hf.total hv hp
      rw [Scanner.optional, hu, Option.some_or] at h
      obtain ⟨rfl, -⟩ := Prod.mk.inj (Option.some.inj h)
      exact hf.le hu hv hp
    · rw [(Language.mem_one v).1 hv]
      exact Nat.zero_le _
  total := by
    intro text v hv hp
    cases h : f text with
    | none => exact ⟨[], text, by simp [Scanner.optional, h]⟩
    | some u => exact ⟨u.1, u.2, by simp [Scanner.optional, h]⟩

theorem Longest.orElse {f g : Scanner} {L M : Language Char} (hf : Longest f L)
    (hg : Longest g M) (hs : ∀ v ∈ L, ∀ w ∈ M, v.head? ≠ w.head?) (hL : [] ∉ L) (hM : [] ∉ M) :
    Longest (f.orElse g) (L + M) where
  mem := by
    intro text w rest h
    rcases Option.or_eq_some_iff.1 h with h | ⟨-, h⟩
    · exact (Language.mem_add _ _ _).2 (Or.inl (hf.mem h))
    · exact (Language.mem_add _ _ _).2 (Or.inr (hg.mem h))
  exact := hf.exact.orElse hg.exact
  le := by
    have head_eq : ∀ {v text : List Char}, v ≠ [] → v <+: text → v.head? = text.head? := by
      rintro (_ | ⟨c, v⟩) text hv ⟨r, rfl⟩
      · exact absurd rfl hv
      · rfl
    intro text w rest v h hv hp
    rcases Option.or_eq_some_iff.1 h with h | ⟨hn, h⟩
    · rcases (Language.mem_add _ _ _).1 hv with hv | hv
      · exact hf.le h hv hp
      · refine absurd ?_ (hs w (hf.mem h) v hv)
        have hw : w <+: text := ⟨rest, hf.exact _ _ _ h⟩
        rw [head_eq (fun e => hL (e ▸ hf.mem h)) hw, head_eq (fun e => hM (e ▸ hv)) hp]
    · rcases (Language.mem_add _ _ _).1 hv with hv | hv
      · obtain ⟨u, r, hu⟩ := hf.total hv hp
        rw [hn] at hu
        cases hu
      · exact hg.le h hv hp
  total := by
    intro text v hv hp
    rcases (Language.mem_add _ _ _).1 hv with hv | hv
    · obtain ⟨u, r, hu⟩ := hf.total hv hp
      exact ⟨u, r, by simp [Scanner.orElse, hu]⟩
    · obtain ⟨u, r, hu⟩ := hg.total hv hp
      cases h : f text with
      | none => exact ⟨u, r, by simp [Scanner.orElse, h, hu]⟩
      | some u => exact ⟨u.1, u.2, by simp [Scanner.orElse, h]⟩

end Scanner

/-! ## The lexical classes -/

theorem separated_letter (p : Char → Bool) (M : Language Char) : Separated (letter p) M := by
  rintro v c y z ⟨d, -, rfl⟩ ⟨e, -, he⟩
  simp at he

theorem separated_optional {p : Char → Bool} {M : Language Char}
    (h : ∀ c z, p c = true → c :: z ∉ M) : Separated (letter p + 1) M := by
  intro v c y z hv hw
  rcases (Language.mem_add _ _ _).1 hw with ⟨d, hd, he⟩ | he
  · rcases (Language.mem_add _ _ _).1 hv with ⟨e, -, rfl⟩ | hv
    · simp at he
    · rw [(Language.mem_one v).1 hv, List.nil_append] at he
      obtain ⟨rfl, -⟩ := List.cons.inj he
      exact h c z hd
  · simp [Language.mem_one] at he

theorem mem_digits {w : List Char} :
    w ∈ digits ↔ w ≠ [] ∧ ∀ c ∈ w, c.isDigit = true := by
  rw [digits, cons_mem_letter_mul]
  constructor
  · rintro ⟨c, v, hc, hv, rfl⟩
    refine ⟨by simp, fun d hd => ?_⟩
    rcases List.mem_cons.1 hd with rfl | hd
    · exact hc
    · exact hv d hd
  · rintro ⟨hn, hw⟩
    obtain ⟨c, v, rfl⟩ := List.exists_cons_of_ne_nil hn
    exact ⟨c, v, hw c (by simp), fun d hd => hw d (by simp [hd]), rfl⟩

theorem isDigit_of_cons_mem_digits {c : Char} {w : List Char} (h : c :: w ∈ digits) :
    c.isDigit = true := (mem_digits.1 h).2 c (by simp)

/-- An integer starts with a digit or a minus sign, and all else in it are digits. -/
theorem exists_of_mem_integers {w : List Char} (h : w ∈ integers) :
    ∃ c v, w = c :: v ∧ (c.isDigit = true ∨ c = '-') ∧ ∀ d ∈ v, d.isDigit = true := by
  obtain ⟨a, ha, b, hb, rfl⟩ := Language.mem_mul.1 h
  obtain ⟨hn, hb⟩ := mem_digits.1 hb
  rcases (Language.mem_add _ _ _).1 ha with ⟨c, hc, rfl⟩ | ha
  · exact ⟨c, b, rfl, Or.inr (by simpa using hc), hb⟩
  · obtain rfl := (Language.mem_one a).1 ha
    obtain ⟨c, v, rfl⟩ := List.exists_cons_of_ne_nil hn
    exact ⟨c, v, rfl, Or.inl (hb c (by simp)), fun d hd => hb d (by simp [hd])⟩

/-- What goes on with an integer is a digit. -/
theorem isDigit_of_append_mem_integers {v y : List Char} {c : Char} (hv : v ∈ integers)
    (hw : v ++ c :: y ∈ integers) : c.isDigit = true := by
  obtain ⟨d, u, rfl, -, -⟩ := exists_of_mem_integers hv
  obtain ⟨d', u', he, -, hu⟩ := exists_of_mem_integers hw
  obtain ⟨-, rfl⟩ := List.cons.inj he
  exact hu c (by simp)

theorem cons_mem_exponents {c : Char} {w : List Char} (h : c :: w ∈ exponents) :
    c = 'e' ∨ c = 'E' := by
  obtain ⟨d, v, hd, -, he⟩ := cons_mem_letter_mul.1 h
  obtain ⟨rfl, -⟩ := List.cons.inj he
  simpa using hd

theorem cons_mem_fractions {c : Char} {w : List Char} (h : c :: w ∈ fractions) : c = '.' := by
  obtain ⟨d, v, hd, -, he⟩ := cons_mem_letter_mul.1 h
  obtain ⟨rfl, -⟩ := List.cons.inj he
  simpa using hd

theorem nil_notMem_exponents : [] ∉ exponents := by
  intro h
  obtain ⟨c, v, -, -, he⟩ := cons_mem_letter_mul.1 h
  cases he

theorem nil_notMem_fractions : [] ∉ fractions := by
  intro h
  obtain ⟨c, v, -, -, he⟩ := cons_mem_letter_mul.1 h
  cases he

/-- A fraction or an exponent part starts with no digit. -/
theorem isDigit_eq_false_of_cons_mem {c : Char} {w : List Char}
    (h : c :: w ∈ fractions + exponents) : c.isDigit = false := by
  rcases (Language.mem_add _ _ _).1 h with h | h
  · rw [cons_mem_fractions h]
    decide
  · rcases cons_mem_exponents h with rfl | rfl <;> decide

theorem separated_integers : Separated integers (fractions + exponents) := by
  intro v c y z hv hw hz
  have := isDigit_of_append_mem_integers hv hw
  rw [isDigit_eq_false_of_cons_mem hz] at this
  cases this

namespace Terminal

theorem longest_scanDigits : Scanner.Longest scanDigits digits :=
  (Scanner.Longest.char _).andThen (.run _) (separated_letter _ _)

theorem longest_scanInteger : Scanner.Longest scanInteger integers :=
  (Scanner.Longest.char _).optional.andThen longest_scanDigits <| separated_optional <| by
    intro c z hc hz
    obtain rfl : c = '-' := by simpa using hc
    exact absurd (isDigit_of_cons_mem_digits hz) (by decide)

theorem longest_scanExponent : Scanner.Longest scanExponent exponents := by
  refine (Scanner.Longest.char _).andThen
    ((Scanner.Longest.char _).optional.andThen longest_scanDigits ?_) (separated_letter _ _)
  refine separated_optional fun c z hc hz => ?_
  have hd := isDigit_of_cons_mem_digits hz
  obtain rfl | rfl : c = '+' ∨ c = '-' := by simpa using hc
  · exact absurd hd (by decide)
  · exact absurd hd (by decide)

theorem longest_scanFraction : Scanner.Longest scanFraction fractions := by
  refine (Scanner.Longest.char _).andThen
    (longest_scanDigits.andThen longest_scanExponent.optional ?_) (separated_letter _ _)
  intro v c y z hv hw hz
  have hc : c.isDigit = true := (mem_digits.1 hw).2 c (by simp)
  rcases (Language.mem_add _ _ _).1 hz with hz | hz
  · rcases cons_mem_exponents hz with rfl | rfl
    · exact absurd hc (by decide)
    · exact absurd hc (by decide)
  · exact absurd hz (by simp [Language.mem_one])

theorem longest_scanFloat : Scanner.Longest scanFloat floats := by
  refine longest_scanInteger.andThen (longest_scanFraction.orElse longest_scanExponent ?_
    nil_notMem_fractions nil_notMem_exponents) separated_integers
  rintro (_ | ⟨c, v⟩) hv (_ | ⟨d, w⟩) hw
  · exact absurd hv nil_notMem_fractions
  · exact absurd hv nil_notMem_fractions
  · exact absurd hw nil_notMem_exponents
  · rw [cons_mem_fractions hv]
    rcases cons_mem_exponents hw with rfl | rfl <;> simp

theorem longest_scanClass (t : Terminal) : t.scanClass.Longest t.classWords := by
  unfold scanClass
  split
  · exact longest_scanFloat
  · exact longest_scanInteger
  · exact (Scanner.Longest.char _).andThen (.word _) (separated_letter _ _)
  · exact (Scanner.Longest.char _).andThen (.word _) (separated_letter _ _)
  · exact longest_scanDigits
  · have hn : t.classWords = names := by
      unfold classWords
      split <;> simp_all
    rw [hn]
    exact (Scanner.Longest.char _).andThen (.run _) (separated_letter _ _)

/-- **A terminal is found by its longest word.** -/
theorem longest_scan (t : Terminal) : t.scan.Longest t.words := by
  cases h : t.spelling? with
  | some s =>
    simp only [scan, words, h]
    exact .word _
  | none =>
    simp only [scan, words, h]
    exact longest_scanClass t

/-- A text that is found whole is a word. -/
theorem mem_words_of_scan {t : Terminal} {w : List Char} (h : t.scan w = some (w, [])) :
    w ∈ t.words :=
  t.longest_scan.mem h

/-- Nothing is found where no word of the terminal starts the text. -/
theorem scan_eq_none_iff {t : Terminal} {text : List Char} :
    t.scan text = none ↔ ∀ v ∈ t.words, ¬ v <+: text := by
  constructor
  · intro h v hv hp
    obtain ⟨w, r, hw⟩ := t.longest_scan.total hv hp
    rw [h] at hw
    cases hw
  · intro h
    cases hs : t.scan text with
    | none => rfl
    | some u => exact absurd ⟨u.2, t.exact_scan _ _ _ hs⟩ (h u.1 (t.longest_scan.mem hs))

end Terminal

end TensorSig
