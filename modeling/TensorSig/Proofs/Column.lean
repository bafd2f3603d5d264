import TensorSig.Proofs.Flaws
import TensorSig.Proofs.Lead

/-!
# Columns

The column of a diagnostic counts from the start of the line, so the place of the declaration on the
line is added to it. That place is searched for, and what is found is the first occurrence of the
declaration, which is not behind the lead if the lead happens to contain it, or to contain the start
of it. A declaration with a character that is not in the lead is found where it is.

* `Text.OccursAt`, `isLeast_columnShift`: the place that is found is the first occurrence.
* `le_of_occursAt`: a text with a character that is not in what comes before it.
* `Span.columnOf_eq`: columns in a text without line feeds.
* `parse_listing_column`: the column of a diagnostic, and when it is that of the failure.
* `parse_listing_column_colon`: a diagnostic with another column.
-/

namespace TensorSig

/-! ## Occurrences -/

namespace Text

/-- So many characters of a line come before an occurrence of a text. -/
def OccursAt (text line : List Char) (n : Nat) : Prop :=
  ∃ p s, p.length = n ∧ line = p ++ (text ++ s)

variable {text line : List Char}

theorem occursAt_zero_iff : OccursAt text line 0 ↔ text <+: line := by
  constructor
  · rintro ⟨p, s, hp, rfl⟩
    obtain rfl := List.eq_nil_of_length_eq_zero hp
    exact List.prefix_append text s
  · rintro ⟨s, rfl⟩
    exact ⟨[], s, rfl, rfl⟩

theorem occursAt_succ_iff {c : Char} {n : Nat} :
    OccursAt text (c :: line) (n + 1) ↔ OccursAt text line n := by
  constructor
  · rintro ⟨p, s, hp, he⟩
    cases p with
    | nil => cases hp
    | cons d p => exact ⟨p, s, Nat.succ.inj hp, (List.cons.inj he).2⟩
  · rintro ⟨p, s, rfl, rfl⟩
    exact ⟨c :: p, s, rfl, rfl⟩

/-- **The first occurrence** of a text is found where it has any. -/
theorem exists_firstOccurrence? {n : Nat} (h : OccursAt text line n) :
    ∃ i, firstOccurrence? text line = some i ∧ IsLeast {n | OccursAt text line n} i := by
  induction line generalizing n with
  | nil =>
    obtain ⟨p, s, -, he⟩ := h
    obtain ⟨-, he⟩ := List.append_eq_nil_iff.1 he.symm
    obtain ⟨rfl, -⟩ := List.append_eq_nil_iff.1 he
    exact ⟨0, rfl, occursAt_zero_iff.2 List.prefix_rfl, fun _ _ => Nat.zero_le _⟩
  | cons c line ih =>
    rw [firstOccurrence?]
    by_cases hp : text <+: c :: line
    · rw [if_pos (isSome_afterPrefix?_iff.2 hp)]
      exact ⟨0, rfl, occursAt_zero_iff.2 hp, fun _ _ => Nat.zero_le _⟩
    · rw [if_neg (hp ∘ isSome_afterPrefix?_iff.1)]
      cases n with
      | zero => exact absurd (occursAt_zero_iff.1 h) hp
      | succ n =>
        obtain ⟨i, hi, hocc, hle⟩ := ih (occursAt_succ_iff.1 h)
        refine ⟨i + 1, by rw [hi, Option.map_some], occursAt_succ_iff.2 hocc, fun m hm => ?_⟩
        cases m with
        | zero => exact absurd (occursAt_zero_iff.1 hm) hp
        | succ m => exact Nat.succ_le_succ (hle (occursAt_succ_iff.1 hm))

/-- A text with a character that is not in what comes before it occurs there first. -/
theorem le_of_occursAt {p s : List Char} {c : Char} (hc : c ∈ text) (hp : c ∉ p) {n : Nat}
    (h : OccursAt text (p ++ (text ++ s)) n) : p.length ≤ n := by
  obtain ⟨q, s', rfl, he⟩ := h
  obtain ⟨a, b, rfl, ha⟩ := List.eq_append_cons_of_mem hc
  have hpa : c ∉ p ++ a := by simp [hp, ha]
  have he : (q ++ a) ++ c :: (b ++ s') = (p ++ a) ++ c :: (b ++ s) := by
    simpa only [List.append_assoc, List.cons_append] using he.symm
  obtain ⟨a', hq, -⟩ := exists_append_of_notMem hpa he
  have hl := congrArg List.length hq
  simp only [List.length_append] at hl
  omega

end Text

/-- The declaration on a line is taken to start at its first occurrence. -/
theorem isLeast_columnShift {line text : List Char} {n : Nat} (h : Text.OccursAt text line n) :
    IsLeast {n | Text.OccursAt text line n} (columnShift line text) := by
  obtain ⟨i, hi, hleast⟩ := Text.exists_firstOccurrence? h
  rwa [columnShift, hi, Option.getD_some]

/-! ## Columns -/

/-- Columns in a text without line feeds are offsets from one. -/
theorem Span.columnOf_eq {text : List Char} {o : Nat} (h : '\n' ∉ text) (ho : o ≤ text.length) :
    columnOf text o = o + 1 := by
  have hall : ∀ c ∈ (text.take o).reverse, decide (c ≠ '\n') = true := by
    intro c hc
    rw [decide_eq_true_eq]
    rintro rfl
    exact h (List.mem_of_mem_take (List.mem_reverse.1 hc))
  rw [columnOf, List.takeWhile_eq_self_iff.2 hall, List.length_reverse, List.length_take,
    Nat.min_eq_left ho]

/-- **The column of a diagnostic** is that of the place where parsing stopped exactly when the
declaration does not occur on the line before the place where it stands, and otherwise it is less.
It does not if it has a character that its lead does not have. -/
theorem parse_listing_column {line text : List Char} {error : SignatureError} (hn : '\n' ∉ line)
    (hd : declaration? line = some text) (he : parseFunction text = .error (.signature error))
    (file? : Option String) : ∃ (l : Lead) (ws : Blanks) (o column : Nat) (d : Diagnostic),
      l.Precedes text ∧ line = l.text ++ (text ++ ws.text) ∧
      error.span = .ofOffset text o ∧ o ≤ text.length ∧
      line.drop (l.text.length + o) = text.drop o ++ ws.text ∧
      Listing.parse file? [line] = .ok ⟨[none], [d]⟩ ∧
      d.span = ⟨o, some 1, some column, file?⟩ ∧
      column = columnShift line text + o + 1 ∧ column ≤ l.text.length + o + 1 ∧
      (column = l.text.length + o + 1 ↔
        ∀ n, Text.OccursAt text line n → l.text.length ≤ n) ∧
      ∀ c ∈ text, c ∉ l.text → column = l.text.length + o + 1 := by
  obtain ⟨l, ws, hl, hline⟩ := exists_lead hd
  obtain ⟨o, ho, hspan⟩ := exists_offset_le_of_parse he
  have hcolumn : Span.columnOf text o = o + 1 :=
    Span.columnOf_eq (fun h => hn ((isInfix_of_declaration? hd).mem h)) ho
  obtain ⟨hocc, hleast⟩ : IsLeast {n | Text.OccursAt text line n} (columnShift line text) :=
    isLeast_columnShift ⟨l.text, ws.text, rfl, hline⟩
  have hle : columnShift line text ≤ l.text.length := hleast ⟨l.text, ws.text, rfl, hline⟩
  have hfirst : columnShift line text + o + 1 = l.text.length + o + 1 ↔
      ∀ n, Text.OccursAt text line n → l.text.length ≤ n := by
    constructor
    · intro h n hn
      have := hleast hn
      omega
    · intro h
      have := h _ hocc
      omega
  refine ⟨l, ws, o, _, _, hl, hline, hspan, ho, ?drop, Listing.parse_of_signatureError hd he, ?span,
    rfl, by omega, hfirst, fun c hc hlc => hfirst.2 fun n h => ?_⟩
  case drop =>
    rw [hline, ← List.drop_drop, List.drop_left, List.drop_append_of_le_length ho]
  case span =>
    have hsum : ((o + 1 : Nat) : Int) + columnShift line text =
        (columnShift line text + o + 1 : Nat) := by omega
    rw [Diagnostic.relocate, SignatureError.toDiagnostic, hspan, Span.ofOffset, hcolumn]
    simp only [Span.relocate, Option.map_some, hsum]
    cases file? <;> rfl
  · rw [hline] at h
    exact Text.le_of_occursAt hc hlc h

theorem parse_listing_column_plus : '\n' ∉ "func: +".toList ∧
    declaration? "func: +".toList = some ['+'] ∧
    ∃ error, parseFunction ['+'] = .error (.signature error) ∧
      ∃ d, Listing.parse none ["func: +".toList] = .ok ⟨[none], [d]⟩ ∧
        d.span = ⟨0, some 1, some 7, none⟩ := by
  have hn : '\n' ∉ "func: +".toList := by decide
  have hd : declaration? "func: +".toList = some ['+'] := by decide
  have hread : read .function ['+'] = .error (.unreadable 0 ['+'] [.name]) := run_of_reject rfl
  have he : parseFunction ['+'] = .error (.signature _) := parse_of_read_error hread
  obtain ⟨l, ws, o, column, d, -, -, hspan, -, -, hp, hds, hc, -⟩ :=
    parse_listing_column hn hd he none
  have hshift : columnShift "func: +".toList ['+'] = 6 := by decide
  obtain rfl : 0 = o := Int.ofNat.inj (congrArg Span.offset hspan)
  rw [hshift] at hc
  subst hc
  exact ⟨hn, hd, _, he, d, hp, hds⟩

/-- **A diagnostic with another column**: the declaration is the last character of the keyword
before it, and its own column is 7. -/
theorem parse_listing_column_colon : "func: :".toList = "func: ".toList ++ [':'] ∧
    declaration? "func: :".toList = some [':'] ∧
    ∃ error d, parseFunction [':'] = .error (.signature error) ∧ error.span.offset = 0 ∧
      Listing.parse none ["func: :".toList] = .ok ⟨[none], [d]⟩ ∧ d.span.column? = some 5 := by
  have hd : declaration? "func: :".toList = some [':'] := by decide
  have hread : read .function [':'] = .error (.unreadable 0 [':'] [.name]) := run_of_reject rfl
  have he : parseFunction [':'] = .error (.signature _) := parse_of_read_error hread
  have hshift : columnShift "func: :".toList [':'] = 4 := by decide
  refine ⟨rfl, hd, _, _, he, rfl, Listing.parse_of_signatureError hd he, ?_⟩
  rw [hshift]
  rfl

end TensorSig
