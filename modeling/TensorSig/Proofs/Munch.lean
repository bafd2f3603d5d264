import TensorSig.Proofs.Table
import TensorSig.Proofs.Words

/-!
# The longest lexeme

A state tries the terminals that it has an action for one after the other. This module shows that
the order of trial is no more than the longest lexeme: among all words of acceptable terminals at
the start of a text, the one that is found is the longest, and no other terminal has a word of that
length.

* `Terminal.starts`, `Terminal.body`: the characters that start a word of a terminal, and those that
  may go on with one.
* `Terminal.overlap`, `Terminal.prefix_of_spelling`: which acceptable terminals of one state have
  words that start alike.
* `State.TrialOrder`: the orders in which the acceptable terminals of a state may be tried.
* `firstLexeme?_eq_some_iff`: what is found is the longest word.
* `exists_longest_lexeme`: it is longer than the words of all other terminals, and every order of
  trial finds it.
* `Terminal.body_of_append_mem`, `Terminal.body_eq_false_of_next`: the first character of a token
  never goes on with a word of the token before it, unless that is the word of a type.
-/

namespace TensorSig

namespace Terminal

/-! ## The characters of words -/

/-- The characters that start the words of a terminal without a spelling of its own. -/
def classStarts : Terminal → Char → Bool
  | literal .float, c => c.isDigit || c = '-'
  | literal .integer, c => c.isDigit || c = '-'
  | literal (.bool true), c => c = 't' || c = 'T'
  | literal (.bool false), c => c = 'f' || c = 'F'
  | natural, c => c.isDigit
  | _, c => isNameStart c

/-- The characters that start the words of a terminal. -/
def starts (t : Terminal) (c : Char) : Bool :=
  match t.spelling? with
  | some s => s.toList.head? = some c
  | none => t.classStarts c

/-- The characters of numerals. -/
def isNumeralPart (c : Char) : Bool :=
  c.isDigit || c = '-' || c = '+' || c = '.' || c = 'e' || c = 'E'

/-- The characters that may go on with a word of a terminal. -/
def body : Terminal → Char → Bool
  | literal .float, c => isNumeralPart c
  | literal .integer, c => isNumeralPart c
  | natural, c => c.isDigit
  | name, c => isNamePart c
  | _, _ => false

/-- Integers and floating-point numerals. -/
def isNumeral : Terminal → Bool
  | literal .float => true
  | literal .integer => true
  | _ => false

/-- A terminal without a spelling of its own is one of six. -/
theorem mem_classes {t : Terminal} (h : t.spelling? = none) :
    t ∈ [literal .float, literal .integer, literal (.bool true), literal (.bool false), natural,
      name] := by
  have key : ∀ t ∈ all, t.spelling? = none → t ∈ [literal .float, literal .integer,
      literal (.bool true), literal (.bool false), natural, name] := by decide
  exact key t (mem_all t) h

theorem words_of_spelling? {t : Terminal} {s : String} (h : t.spelling? = some s) :
    t.words = {s.toList} := by
  simp only [words, h]

theorem words_of_spelling?_eq_none {t : Terminal} (h : t.spelling? = none) :
    t.words = t.classWords := by
  simp only [words, h]

theorem madeOf_digits : MadeOf isNumeralPart digits := by
  have hd : ∀ c, c.isDigit = true → isNumeralPart c = true := by simp +contextual [isNumeralPart]
  exact .mul (.letter hd) (.letters hd)

theorem madeOf_integers : MadeOf isNumeralPart integers := by
  refine .mul (.add (.letter ?_) .one) madeOf_digits
  simp +contextual [isNumeralPart]

theorem madeOf_exponents : MadeOf isNumeralPart exponents := by
  refine .mul (.letter ?_) (.mul (.add (.letter ?_) .one) madeOf_digits)
  · simp +contextual [isNumeralPart, or_imp]
  · simp +contextual [isNumeralPart, or_imp]

theorem madeOf_floats : MadeOf isNumeralPart floats := by
  refine .mul madeOf_integers (.add (.mul (.letter ?_)
    (.mul madeOf_digits (.add madeOf_exponents .one))) madeOf_exponents)
  simp +contextual [isNumeralPart]

theorem madeOf_names : MadeOf isNamePart names := by
  refine .mul (.letter fun c hc => ?_) (.letters fun _ h => h)
  simp [isNamePart, hc]

/-- A word starts with one of the characters that start the words of its terminal. -/
theorem exists_of_mem_words {t : Terminal} {w : List Char} (h : w ∈ t.words) :
    ∃ c v, w = c :: v ∧ t.starts c = true := by
  cases hs : t.spelling? with
  | some s =>
    rw [words_of_spelling? hs] at h
    obtain rfl := mem_singleton_language.1 h
    obtain ⟨c, v, hcv⟩ := List.exists_cons_of_ne_nil (toList_ne_nil_of_spelling? hs)
    exact ⟨c, v, hcv, by simp [starts, hs, hcv]⟩
  | none =>
    rw [words_of_spelling?_eq_none hs] at h
    have hc := mem_classes hs
    simp only [List.mem_cons, List.not_mem_nil, or_false] at hc
    rcases hc with rfl | rfl | rfl | rfl | rfl | rfl
    · obtain ⟨i, hi, f, hf, rfl⟩ := Language.mem_mul.1 h
      obtain ⟨c, v, rfl, hc, -⟩ := exists_of_mem_integers hi
      exact ⟨c, v ++ f, rfl, by simpa [starts, spelling?, classStarts] using hc⟩
    · obtain ⟨c, v, rfl, hc, -⟩ := exists_of_mem_integers h
      exact ⟨c, v, rfl, by simpa [starts, spelling?, classStarts] using hc⟩
    · obtain ⟨c, v, hc, -, rfl⟩ := cons_mem_letter_mul.1 h
      exact ⟨c, v, rfl, by simpa [starts, spelling?, classStarts] using hc⟩
    · obtain ⟨c, v, hc, -, rfl⟩ := cons_mem_letter_mul.1 h
      exact ⟨c, v, rfl, by simpa [starts, spelling?, classStarts] using hc⟩
    · obtain ⟨c, v, hc, -, rfl⟩ := cons_mem_letter_mul.1 h
      exact ⟨c, v, rfl, by simpa [starts, spelling?, classStarts] using hc⟩
    · obtain ⟨c, v, hc, -, rfl⟩ := cons_mem_letter_mul.1 h
      exact ⟨c, v, rfl, by simpa [starts, spelling?, classStarts] using hc⟩

theorem ne_nil_of_mem_words {t : Terminal} {w : List Char} (h : w ∈ t.words) : w ≠ [] := by
  obtain ⟨c, v, rfl, -⟩ := exists_of_mem_words h
  simp

theorem starts_of_cons_mem_words {t : Terminal} {c : Char} {w : List Char}
    (h : c :: w ∈ t.words) : t.starts c = true := by
  obtain ⟨d, v, he, hd⟩ := exists_of_mem_words h
  rw [(List.cons.inj he).1]
  exact hd

theorem isNumeralPart_of_mem_words {t : Terminal} (ht : t.isNumeral = true) {w : List Char}
    (h : w ∈ t.words) : ∀ c ∈ w, isNumeralPart c = true := by
  unfold isNumeral at ht
  split at ht
  · exact madeOf_floats w h
  · exact madeOf_integers w h
  · cases ht

/-- The words of a class are made of the characters of numerals or of those of names. -/
theorem part_of_mem_classWords {t : Terminal} (ht : t.spelling? = none) {w : List Char}
    (h : w ∈ t.words) : ∀ c ∈ w, isNumeralPart c = true ∨ isNamePart c = true := by
  have htrue : MadeOf isNamePart (eitherCase 't' 'T' ['r', 'u', 'e']) :=
    .eitherCase (by decide) (by decide) (List.all_eq_true.1 (by decide))
  have hfalse : MadeOf isNamePart (eitherCase 'f' 'F' ['a', 'l', 's', 'e']) :=
    .eitherCase (by decide) (by decide) (List.all_eq_true.1 (by decide))
  have hc := mem_classes ht
  simp only [List.mem_cons, List.not_mem_nil, or_false] at hc
  rcases hc with rfl | rfl | rfl | rfl | rfl | rfl
  · exact fun c hc => Or.inl (madeOf_floats w h c hc)
  · exact fun c hc => Or.inl (madeOf_integers w h c hc)
  · exact fun c hc => Or.inr (htrue w h c hc)
  · exact fun c hc => Or.inr (hfalse w h c hc)
  · exact fun c hc => Or.inl (madeOf_digits w h c hc)
  · exact fun c hc => Or.inr (madeOf_names w h c hc)

theorem part_eq_false_of_isBlank {c : Char} (h : Text.isBlank c = true) :
    isNumeralPart c = false ∧ isNamePart c = false := by
  have hn : c.toNat ≤ 0x20 ∨ 0x7b ≤ c.toNat := by
    simp only [Text.isBlank, Bool.or_eq_true, Bool.and_eq_true, decide_eq_true_eq] at h
    omega
  have hdigit : c.isDigit = false := by
    simp only [Char.isDigit, UInt32.le_iff_toNat_le, Char.toNat_val]
    simp
    omega
  have halpha : c.isAlpha = false := by
    change (decide ('A'.val ≤ c.val ∧ c.val ≤ 'Z'.val) ||
      decide ('a'.val ≤ c.val) && decide (c.val ≤ 'z'.val)) = false
    simp only [UInt32.le_iff_toNat_le, Char.toNat_val]
    simp
    omega
  have hother : ∀ d : Char, 0x20 < d.toNat → d.toNat < 0x7b → c ≠ d := by
    rintro d h₁ h₂ rfl
    omega
  constructor
  · simp [isNumeralPart, hdigit, hother]
  · simp [isNamePart, isNameStart, hdigit, halpha, hother]

/-- **No word has a blank character in it.** -/
theorem isBlank_eq_false_of_mem_words {t : Terminal} {w : List Char} (h : w ∈ t.words) :
    ∀ c ∈ w, Text.isBlank c = false := by
  intro c hc
  cases hs : t.spelling? with
  | some s =>
    have key : ∀ t ∈ all, ∀ s ∈ t.spelling?, (s.toList.all fun c => !Text.isBlank c) = true := by
      decide +kernel
    rw [words_of_spelling? hs] at h
    obtain rfl := mem_singleton_language.1 h
    simpa using List.all_eq_true.1 (key t (mem_all t) s hs) c hc
  | none =>
    rw [Bool.eq_false_iff]
    intro hb
    obtain ⟨h₁, h₂⟩ := part_eq_false_of_isBlank hb
    rcases part_of_mem_classWords hs h c hc with hp | hp
    · rw [h₁] at hp
      cases hp
    · rw [h₂] at hp
      cases hp

/-- No word has white space in it. -/
theorem isSpace_eq_false_of_mem_words {t : Terminal} {w : List Char} (h : w ∈ t.words) :
    ∀ c ∈ w, Text.isSpace c = false := by
  intro c hc
  rw [Bool.eq_false_iff]
  intro hs
  have hb := isBlank_eq_false_of_mem_words h c hc
  rw [Text.isBlank_of_isSpace hs] at hb
  cases hb

theorem isSpace_eq_false_of_cons_mem {t : Terminal} {c : Char} {w : List Char}
    (h : c :: w ∈ t.words) : Text.isSpace c = false :=
  isSpace_eq_false_of_mem_words h c (by simp)

/-! ## Terminals of one state -/

/-- The characters that start the words of a terminal, where they are few. -/
def firstChars? (t : Terminal) : Option (List Char) :=
  match t.spelling? with
  | some s => some (s.toList.take 1)
  | none =>
    match t with
    | literal (.bool true) => some ['t', 'T']
    | literal (.bool false) => some ['f', 'F']
    | _ => none

theorem mem_firstChars? {t : Terminal} {cs : List Char} (h : t.firstChars? = some cs) {c : Char}
    (hc : t.starts c = true) : c ∈ cs := by
  unfold firstChars? at h
  split at h
  · rename_i s hs
    obtain rfl := Option.some.inj h
    rw [starts, hs] at hc
    cases hl : s.toList with
    | nil => simp [hl] at hc
    | cons d v =>
      obtain rfl : d = c := by simpa [hl] using hc
      simp
  · split at h
    · obtain rfl := Option.some.inj h
      simpa [starts, spelling?, classStarts] using hc
    · obtain rfl := Option.some.inj h
      simpa [starts, spelling?, classStarts] using hc
    · cases h

/-- Whether no character starts words of both of two terminals, decided on the few characters that
start those of one of them. -/
def apart (t u : Terminal) : Bool :=
  match t.firstChars?, u.firstChars? with
  | some cs, _ => cs.all fun c => !u.starts c
  | none, some cs => cs.all fun c => !t.starts c
  | none, none => false

theorem starts_eq_false_of_apart {t u : Terminal} (h : t.apart u = true) {c : Char}
    (hc : t.starts c = true) : u.starts c = false := by
  unfold apart at h
  split at h
  · rename_i cs _ hcs
    simpa using List.all_eq_true.1 h c (mem_firstChars? hcs hc)
  · rename_i cs _ hcs
    rw [Bool.eq_false_iff]
    intro hu
    have := List.all_eq_true.1 h c (mem_firstChars? hcs hu)
    simp [hc] at this
  · cases h

/-- **Where two acceptable terminals of a state have words that start alike**, both have spellings
of their own or both are numerals. -/
theorem overlap {s : State} {t u : Terminal} (ht : t ∈ s.acceptable) (hu : u ∈ s.acceptable)
    (hn : t ≠ u) {c : Char} (htc : t.starts c = true) (huc : u.starts c = true) :
    (t.spelling?.isSome ∧ u.spelling?.isSome) ∨ (t.isNumeral = true ∧ u.isNumeral = true) := by
  have key : ∀ s ∈ State.all, ∀ t ∈ s.acceptable, ∀ u ∈ s.acceptable, t ≠ u →
      (t.spelling?.isSome ∧ u.spelling?.isSome) ∨ (t.isNumeral = true ∧ u.isNumeral = true) ∨
        t.apart u = true := by decide +kernel
  rcases key s (State.mem_all s) t ht u hu hn with h | h | h
  · exact Or.inl h
  · exact Or.inr h
  · rw [starts_eq_false_of_apart h htc] at huc
    cases huc

/-- A spelling that starts another is that of the word of a type, as is the other, and the longer
one is the more urgent. -/
theorem prefix_of_spelling {t u : Terminal} {p q : String} (ht : t.spelling? = some p)
    (hu : u.spelling? = some q) (hn : t ≠ u) (h : p.toList <+: q.toList) :
    (∃ v w, t = plain v ∧ u = plain w) ∧ t.priority < u.priority := by
  have key : ∀ t ∈ all, ∀ p ∈ t.spelling?, ∀ u ∈ all, ∀ q ∈ u.spelling?, t ≠ u →
      p.toList <+: q.toList → ((∃ v ∈ PlainType.all, t = plain v) ∧
        ∃ w ∈ PlainType.all, u = plain w) ∧ t.priority < u.priority := by decide +kernel
  obtain ⟨⟨⟨v, -, hv⟩, w, -, hw⟩, hp⟩ := key t (mem_all t) p ht u (mem_all u) q hu hn h
  exact ⟨⟨v, w, hv, hw⟩, hp⟩

/-- A floating-point numeral starts no integer. -/
theorem not_prefix_of_mem_floats {v w : List Char} (hv : v ∈ floats) (hw : w ∈ integers) :
    ¬ v <+: w := by
  rintro ⟨z, rfl⟩
  obtain ⟨i, hi, f, hf, rfl⟩ := Language.mem_mul.1 hv
  cases f with
  | nil =>
    rcases (Language.mem_add _ _ _).1 hf with hf | hf
    · exact nil_notMem_fractions hf
    · exact nil_notMem_exponents hf
  | cons c f =>
    rw [List.append_assoc, List.cons_append] at hw
    have := isDigit_of_append_mem_integers hi hw
    rw [isDigit_eq_false_of_cons_mem hf] at this
    cases this

/-- Of two acceptable terminals with words at the start of a text, the first has the longer word or
the other is the more urgent. -/
theorem length_lt_or_priority_lt {s : State} {t u : Terminal} (ht : t ∈ s.acceptable)
    (hu : u ∈ s.acceptable) (hn : t ≠ u) {v w text : List Char} (hv : v ∈ t.words)
    (hw : w ∈ u.words) (hvp : v <+: text) (hwp : w <+: text) :
    w.length < v.length ∨ t.priority < u.priority := by
  by_cases hl : w.length < v.length
  · exact Or.inl hl
  right
  have hvw : v <+: w := List.prefix_of_prefix_length_le hvp hwp (Nat.le_of_not_lt hl)
  obtain ⟨c, v', rfl, hc⟩ := exists_of_mem_words hv
  have hd : u.starts c = true := by
    obtain ⟨z, rfl⟩ := hvw
    exact starts_of_cons_mem_words hw
  rcases overlap ht hu hn hc hd with ⟨hts, hus⟩ | ⟨htn, hun⟩
  · obtain ⟨p, hp⟩ := Option.isSome_iff_exists.1 hts
    obtain ⟨q, hq⟩ := Option.isSome_iff_exists.1 hus
    rw [words_of_spelling? hp] at hv
    rw [words_of_spelling? hq] at hw
    rw [mem_singleton_language.1 hv, mem_singleton_language.1 hw] at hvw
    exact (prefix_of_spelling hp hq hn hvw).2
  · unfold isNumeral at htn hun
    split at htn
    · split at hun
      · exact absurd rfl hn
      · exact absurd hvw (not_prefix_of_mem_floats hv hw)
      · cases hun
    · split at hun
      · decide
      · exact absurd rfl hn
      · cases hun
    · cases htn

end Terminal

/-! ## What is found -/

/-- The acceptable terminals of a state in an order in which they may be tried: the more urgent ones
come first. Among those of equal urgency any may come first. -/
structure State.TrialOrder (s : State) (ts : List Terminal) : Prop where
  perm : ts.Perm s.acceptable
  byPriority : ts.Pairwise fun t u => u.priority ≤ t.priority

theorem State.trialOrder_acceptable (s : State) : s.TrialOrder s.acceptable :=
  ⟨.refl _, Terminal.pairwise_ranked.filter _⟩

/-- Words of acceptable terminals that start a text are no longer than the one that is found, and
shorter unless they are words of the same terminal. -/
theorem length_le_of_firstLexeme? {s : State} {ts : List Terminal} (hts : s.TrialOrder ts)
    {text w rest : List Char} {t : Terminal} (h : firstLexeme? ts text = some (t, w, rest)) :
    t ∈ s.acceptable ∧ w ∈ t.words ∧ w ++ rest = text ∧ ∀ u ∈ s.acceptable, ∀ v ∈ u.words,
      v <+: text → v.length ≤ w.length ∧ (u ≠ t → v.length < w.length) := by
  obtain ⟨before, t', behind, hcut, hfound, hbefore⟩ := List.findSome?_eq_some_iff.1 h
  obtain ⟨⟨l, r⟩, hscan, he⟩ := Option.map_eq_some_iff.1 hfound
  obtain ⟨rfl, rfl, rfl⟩ : t' = t ∧ l = w ∧ r = rest := by simpa using he
  have ht : t' ∈ s.acceptable := hts.perm.mem_iff.1 (by simp [hcut])
  have hw : l ∈ t'.words := t'.longest_scan.mem hscan
  have hwr : l ++ r = text := t'.exact_scan _ _ _ hscan
  have hwp : l <+: text := ⟨r, hwr⟩
  refine ⟨ht, hw, hwr, fun u hu v hv hvp => ?_⟩
  by_cases hut : u = t'
  · subst hut
    exact ⟨u.longest_scan.le hscan hv hvp, fun hn => absurd rfl hn⟩
  suffices hl : v.length < l.length from ⟨Nat.le_of_lt hl, fun _ => hl⟩
  rcases Terminal.length_lt_or_priority_lt ht hu (Ne.symm hut) hw hv hwp hvp with hl | hp
  · exact hl
  · -- the other terminal is tried before, so its scanner finds nothing
    have hmem : u ∈ before := by
      have hpw := hts.byPriority
      have huts : u ∈ ts := hts.perm.mem_iff.2 hu
      rw [hcut] at hpw huts
      rcases List.mem_append.1 huts with hu | hu
      · exact hu
      · rcases List.mem_cons.1 hu with hu | hu
        · exact absurd hu hut
        · have := List.rel_of_pairwise_cons (List.pairwise_append.1 hpw).2.1 hu
          omega
    have hnone := Option.map_eq_none_iff.1 (hbefore u hmem)
    exact absurd hvp (Terminal.scan_eq_none_iff.1 hnone v hv)

theorem firstLexeme?_eq_none_iff {ts : List Terminal} {text : List Char} :
    firstLexeme? ts text = none ↔ ∀ t ∈ ts, ∀ v ∈ t.words, ¬ v <+: text := by
  simp only [firstLexeme?, List.findSome?_eq_none_iff, Option.map_eq_none_iff,
    Terminal.scan_eq_none_iff]

/-- **What is found is the longest word** of an acceptable terminal at the start of the text. -/
theorem State.TrialOrder.firstLexeme?_eq_some_iff {s : State} {ts : List Terminal}
    (hts : s.TrialOrder ts) {text w rest : List Char} {t : Terminal} :
    firstLexeme? ts text = some (t, w, rest) ↔
      t ∈ s.acceptable ∧ w ∈ t.words ∧ w ++ rest = text ∧
        ∀ u ∈ s.acceptable, ∀ v ∈ u.words, v <+: text → v.length ≤ w.length := by
  constructor
  · intro h
    obtain ⟨ht, hw, hwr, hl⟩ := length_le_of_firstLexeme? hts h
    exact ⟨ht, hw, hwr, fun u hu v hv hvp => (hl u hu v hv hvp).1⟩
  · rintro ⟨ht, hw, hwr, hl⟩
    have hwp : w <+: text := ⟨rest, hwr⟩
    cases hf : firstLexeme? ts text with
    | none => exact absurd hwp (firstLexeme?_eq_none_iff.1 hf t (hts.perm.mem_iff.2 ht) w hw)
    | some found =>
      obtain ⟨u, v, r⟩ := found
      obtain ⟨hu, hv, hvr, hl'⟩ := length_le_of_firstLexeme? hts hf
      have hle : v.length ≤ w.length := hl u hu v hv ⟨r, hvr⟩
      obtain ⟨hge, hgt⟩ := hl' t ht w hw hwp
      obtain rfl : t = u := by
        by_contra hn
        exact absurd (hgt hn) (Nat.not_lt.2 hle)
      obtain ⟨rfl, rfl⟩ := List.append_inj (hvr.trans hwr.symm) (Nat.le_antisymm hle hge)
      rfl

theorem firstLexeme?_eq_some_iff {s : State} {text w rest : List Char} {t : Terminal} :
    firstLexeme? s.acceptable text = some (t, w, rest) ↔
      t ∈ s.acceptable ∧ w ∈ t.words ∧ w ++ rest = text ∧
        ∀ u ∈ s.acceptable, ∀ v ∈ u.words, v <+: text → v.length ≤ w.length :=
  s.trialOrder_acceptable.firstLexeme?_eq_some_iff

/-- **Trial by urgency finds the longest word.** In every state, whatever led to it, where the word
of an acceptable terminal starts a text, there is one terminal with a longer word there than all
others have. Trial by urgency finds that word, and does so however the terminals of equal urgency
are arranged. -/
theorem exists_longest_lexeme {s : State} {text : List Char}
    (h : ∃ u ∈ s.acceptable, ∃ v ∈ u.words, v <+: text) : s.TrialOrder s.acceptable ∧
    ∃ t ∈ s.acceptable, ∃ w ∈ t.words, ∃ rest, w ++ rest = text ∧
      (∀ v ∈ t.words, v <+: text → v.length ≤ w.length) ∧
      (∀ u ∈ s.acceptable, u ≠ t → ∀ v ∈ u.words, v <+: text → v.length < w.length) ∧
      ∀ ts, s.TrialOrder ts → firstLexeme? ts text = some (t, w, rest) := by
  obtain ⟨u, hu, v, hv, hvp⟩ := h
  refine ⟨s.trialOrder_acceptable, ?_⟩
  cases hf : firstLexeme? s.acceptable text with
  | none => exact absurd hvp (firstLexeme?_eq_none_iff.1 hf u hu v hv)
  | some found =>
    obtain ⟨t, w, rest⟩ := found
    obtain ⟨ht, hw, hwr, hl⟩ := length_le_of_firstLexeme? s.trialOrder_acceptable hf
    refine ⟨t, ht, w, hw, rest, hwr, fun v hv hvp => (hl t ht v hv hvp).1,
      fun u hu hn v hv hvp => (hl u hu v hv hvp).2 hn, fun ts hts => ?_⟩
    exact hts.firstLexeme?_eq_some_iff.2 (firstLexeme?_eq_some_iff.1 hf)

theorem exists_longest_lexeme_tensorList :
    (∃ u ∈ (State.start .type).acceptable, ∃ v ∈ u.words, v <+: "TensorListx".toList) ∧
      (State.start .type).TrialOrder (State.start .type).acceptable ∧
      ∃ t ∈ (State.start .type).acceptable, ∃ w ∈ t.words, ∃ rest,
        w ++ rest = "TensorListx".toList ∧
        (∀ v ∈ t.words, v <+: "TensorListx".toList → v.length ≤ w.length) ∧
        (∀ u ∈ (State.start .type).acceptable, u ≠ t →
          ∀ v ∈ u.words, v <+: "TensorListx".toList → v.length < w.length) ∧
        ∀ ts, (State.start .type).TrialOrder ts →
          firstLexeme? ts "TensorListx".toList = some (t, w, rest) := by
  -- the word of the hypothesis is a shorter one than is found
  have h : ∃ u ∈ (State.start .type).acceptable, ∃ v ∈ u.words, v <+: "TensorListx".toList :=
    ⟨.plain (.tensor .tensor), by decide, "Tensor".toList, rfl, by decide⟩
  exact ⟨h, exists_longest_lexeme h⟩

example : firstLexeme? (State.start .type).acceptable "TensorListx".toList =
    some (.plain (.tensor .tensorList), "TensorList".toList, ['x']) := rfl

example : firstLexeme? (State.start .literal).acceptable "0.125".toList =
    some (.literal .float, "0.125".toList, []) := rfl

/-! ## The end of a word -/

namespace Terminal

theorem length_of_mem_eitherCase {c d : Char} {v w : List Char} (h : w ∈ eitherCase c d v) :
    w.length = v.length + 1 := by
  obtain ⟨e, u, -, hu, rfl⟩ := cons_mem_letter_mul.1 h
  rw [mem_singleton_language.1 hu, List.length_cons]

/-- A longer word of the same terminal goes on with a character of its body. -/
theorem body_of_append_mem_words {t : Terminal} {w y : List Char} {c : Char} (hw : w ∈ t.words)
    (hv : w ++ c :: y ∈ t.words) : t.body c = true := by
  cases hs : t.spelling? with
  | some p =>
    rw [words_of_spelling? hs, mem_singleton_language] at hw hv
    simp [← hw] at hv
  | none =>
    have hlen : ∀ {d e : Char} {v : List Char}, w ∈ eitherCase d e v →
        w ++ c :: y ∉ eitherCase d e v := by
      intro d e v hw hv
      have h₁ := length_of_mem_eitherCase hw
      have h₂ := length_of_mem_eitherCase hv
      rw [List.length_append, List.length_cons] at h₂
      omega
    have hc := mem_classes hs
    simp only [List.mem_cons, List.not_mem_nil, or_false] at hc
    rcases hc with rfl | rfl | rfl | rfl | rfl | rfl
    · exact isNumeralPart_of_mem_words rfl hv c (by simp)
    · exact isNumeralPart_of_mem_words rfl hv c (by simp)
    · exact absurd hv (hlen hw)
    · exact absurd hv (hlen hw)
    · exact (mem_digits.1 hv).2 c (by simp)
    · exact madeOf_names _ hv c (by simp)

/-- **What goes on with a word.** Where a longer word of an acceptable terminal goes on with a word
of another, both are words of types, or the first goes on with a character of its body. -/
theorem body_of_append_mem {s : State} {t u : Terminal} (ht : t ∈ s.acceptable)
    (hu : u ∈ s.acceptable) {w y : List Char} {c : Char} (hw : w ∈ t.words)
    (hv : w ++ c :: y ∈ u.words) : (∃ p q, t = plain p ∧ u = plain q) ∨ t.body c = true := by
  by_cases hn : t = u
  · subst hn
    exact Or.inr (body_of_append_mem_words hw hv)
  · obtain ⟨d, w', rfl, hd⟩ := exists_of_mem_words hw
    rcases overlap ht hu hn hd (starts_of_cons_mem_words hv) with ⟨hts, hus⟩ | ⟨htn, hun⟩
    · obtain ⟨p, hp⟩ := Option.isSome_iff_exists.1 hts
      obtain ⟨q, hq⟩ := Option.isSome_iff_exists.1 hus
      rw [words_of_spelling? hp, mem_singleton_language] at hw
      rw [words_of_spelling? hq, mem_singleton_language] at hv
      exact Or.inl (prefix_of_spelling hp hq hn ⟨c :: y, by rw [← hw, ← hv]⟩).1
    · right
      have hc := isNumeralPart_of_mem_words hun hv c (by simp)
      unfold isNumeral at htn
      split at htn
      · exact hc
      · exact hc
      · cases htn

/-- **The character after a word.** The first character of a token is none that goes on with a word
of the token before it. -/
theorem body_eq_false_of_next {s q : State} {t u : Terminal} (h : s.shift? t = some q)
    (hu : u ∈ q.acceptable) {c : Char} {w : List Char} (hw : c :: w ∈ u.words) :
    t.body c = false := by
  have key : ∀ s ∈ State.all, ∀ t ∈ all, ∀ q ∈ s.shift? t,
      t ∈ [literal .float, literal .integer, natural, name] → ∀ u ∈ q.acceptable,
        ∃ cs ∈ u.firstChars?, cs.all fun c => !t.body c := by decide +kernel
  by_cases ht : t ∈ [literal .float, literal .integer, natural, name]
  · obtain ⟨cs, hcs, hall⟩ := key s (State.mem_all s) t (mem_all t) q h ht u hu
    have hc := mem_firstChars? hcs (starts_of_cons_mem_words hw)
    simpa using List.all_eq_true.1 hall c hc
  · unfold body
    split <;> simp_all

end Terminal

/-! ## Words of types -/

namespace State

/-- A state that accepts the word of a type accepts the words of all. -/
theorem plain_mem_acceptable {s : State} {p q : PlainType}
    (h : Terminal.plain p ∈ s.acceptable) : Terminal.plain q ∈ s.acceptable := by
  have key : ∀ s ∈ all, ∀ p ∈ PlainType.all, s.acts (.token (.plain p)) = true →
      ∀ q ∈ PlainType.all, s.acts (.token (.plain q)) = true := by decide +kernel
  rw [mem_acceptable] at h ⊢
  exact key s (mem_all s) p (PlainType.mem_all p) h q (PlainType.mem_all q)

theorem eq_of_shift?_plain {s q : State} {p : PlainType} (h : s.shift? (.plain p) = some q) :
    q = .plain p := by
  have key : ∀ s ∈ all, ∀ p ∈ PlainType.all, ∀ q ∈ s.shift? (.plain p), q = .plain p := by
    decide +kernel
  exact key s (mem_all s) p (PlainType.mem_all p) q h

/-- What makes the word of a type longer can only be read as a name after that word. -/
theorem eq_name_of_mem_acceptable_plain {p : PlainType} {t : Terminal}
    (ht : t ∈ (State.plain p).acceptable) {c : Char} {w : List Char} (hw : c :: w ∈ t.words)
    (hc : c ∈ ['?', 'L', 'O', 'T']) : t = .name := by
  have key : ∀ p ∈ PlainType.all, ∀ t ∈ (State.plain p).acceptable, t ≠ .name →
      ∃ cs ∈ t.firstChars?, cs.all fun c => c ∉ ['?', 'L', 'O', 'T'] := by decide +kernel
  by_contra hn
  obtain ⟨cs, hcs, hall⟩ := key p (PlainType.mem_all p) t ht hn
  have := List.all_eq_true.1 hall c
    (Terminal.mem_firstChars? hcs (Terminal.starts_of_cons_mem_words hw))
  simp [hc] at this

end State

end TensorSig
