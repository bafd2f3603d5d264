import Mathlib.Algebra.GroupWithZero.Nat
import TensorSig.Proofs.ErrorLexeme
import TensorSig.Proofs.Flaws
import TensorSig.Proofs.Suggestions

/-!
# Positions in reports

The line and the column of a report address its offset in the pieces of the text between line feeds,
and no other offset, and what the report quotes stands there without white space in it.

* `Addresses`, `addresses_lineOf`: the line and the column of an offset, counted in pieces.
* `Addresses.lt_iff`, `Addresses.unique`: offsets are ordered like their lines and columns.
* `Stuck.isSpace_eq_false`: what is found instead of an expected token has no white space in it.
* `parse_position`: the position, the quoted lexeme and the suggestions of a report.
-/

namespace TensorSig

/-! ## Lines and columns -/

/-- A line and a column address an offset of a text. The text is cut at its line feeds; the pieces
before the line, each with its line feed, and the characters of the line before the column are as
many as the offset says. -/
structure Addresses (text : List Char) (o line column : ℕ) : Prop where
  line_pos : 1 ≤ line
  line_le : line ≤ (text.splitOn '\n').length
  column_pos : 1 ≤ column
  column_le : ∀ piece ∈ (text.splitOn '\n')[line - 1]?, column ≤ piece.length + 1
  sum_eq : (((text.splitOn '\n').take (line - 1)).map fun piece => piece.length + 1).sum +
    (column - 1) = o

namespace Span

variable {text : List Char} {o : ℕ}

@[simp]
theorem lineOf_zero (text : List Char) : lineOf text 0 = 1 := rfl

@[simp]
theorem columnOf_zero (text : List Char) : columnOf text 0 = 1 := rfl

theorem lineOf_newline (text : List Char) (o : ℕ) :
    lineOf ('\n' :: text) (o + 1) = lineOf text o + 1 := by
  simp [lineOf]

theorem lineOf_cons {c : Char} (hc : c ≠ '\n') (text : List Char) (o : ℕ) :
    lineOf (c :: text) (o + 1) = lineOf text o := by
  simp [lineOf, hc]

theorem columnOf_newline (text : List Char) (o : ℕ) :
    columnOf ('\n' :: text) (o + 1) = columnOf text o := by
  rw [columnOf, columnOf, List.take_succ_cons, List.reverse_cons, List.takeWhile_append]
  split_ifs with hl
  · rw [List.takeWhile_cons_of_neg (by simp), List.append_nil, hl]
  · rfl

/-- A character other than a line feed moves the columns on the first line. -/
theorem columnOf_cons {c : Char} (hc : c ≠ '\n') (text : List Char) (o : ℕ) :
    columnOf (c :: text) (o + 1) =
      if lineOf text o = 1 then columnOf text o + 1 else columnOf text o := by
  have hfirst : lineOf text o = 1 ↔ ((text.take o).reverse.takeWhile (· ≠ '\n')).length =
      (text.take o).reverse.length := by
    have hcount : lineOf text o = 1 ↔ '\n' ∉ (text.take o).reverse := by
      rw [lineOf, Nat.add_eq_right, List.count_eq_zero, List.mem_reverse]
    rw [hcount]
    constructor
    · intro h
      rw [List.takeWhile_eq_self_iff.2]
      intro d hd
      exact decide_eq_true fun he => h (he ▸ hd)
    · intro h hmem
      have hall := List.takeWhile_eq_self_iff.1 ((List.takeWhile_prefix _).eq_of_length h)
      simpa using hall '\n' hmem
  rw [columnOf, columnOf, List.take_succ_cons, List.reverse_cons, List.takeWhile_append]
  simp only [hfirst]
  split_ifs with hl
  · rw [List.takeWhile_cons_of_pos (by simpa using hc), hl]
    simp
  · rfl

end Span

/-- The piece that an offset is in, and those before it. -/
theorem exists_splitOn {text : List Char} {o : ℕ} (ho : o ≤ text.length) :
    ∃ before piece after, text.splitOn '\n' = before ++ piece :: after ∧
      Span.lineOf text o = before.length + 1 ∧ 1 ≤ Span.columnOf text o ∧
      Span.columnOf text o ≤ piece.length + 1 ∧
      (before.map fun piece => piece.length + 1).sum + (Span.columnOf text o - 1) = o := by
  induction text generalizing o with
  | nil =>
    obtain rfl : o = 0 := Nat.le_zero.1 ho
    exact ⟨[], [], [], rfl, rfl, le_rfl, le_rfl, rfl⟩
  | cons c text ih =>
    cases o with
    | zero =>
      obtain ⟨piece, after, hs⟩ := List.exists_cons_of_ne_nil (List.splitOn_ne_nil '\n' (c :: text))
      exact ⟨[], piece, after, hs, rfl, le_rfl, by simp, rfl⟩
    | succ o =>
      obtain ⟨before, piece, after, hs, hline, hpos, hle, hsum⟩ := ih (Nat.le_of_succ_le_succ ho)
      rw [List.splitOn_cons_eq_if_modifyHead, hs]
      by_cases hc : c = '\n'
      · -- the line feed ends an empty piece
        subst hc
        refine ⟨[] :: before, piece, after, rfl, ?_, ?_⟩
        · rw [Span.lineOf_newline, hline, List.length_cons]
        · rw [Span.columnOf_newline]
          refine ⟨hpos, hle, ?_⟩
          rw [List.map_cons, List.sum_cons, List.length_nil]
          omega
      · rw [if_neg (by simpa using hc), Span.lineOf_cons hc, Span.columnOf_cons hc]
        cases before with
        | nil =>
          rw [if_pos (show Span.lineOf text o = 1 from hline)]
          refine ⟨[], c :: piece, after, rfl, hline, by omega, by simpa using hle, ?_⟩
          simp only [List.map_nil, List.sum_nil] at hsum ⊢
          omega
        | cons first before =>
          have hn : Span.lineOf text o ≠ 1 := by
            rw [hline, List.length_cons]
            omega
          rw [if_neg hn]
          refine ⟨(c :: first) :: before, piece, after, rfl, hline, hpos, hle, ?_⟩
          simp only [List.map_cons, List.sum_cons, List.length_cons] at hsum ⊢
          omega

/-- **The line and the column of an offset address it.** -/
theorem addresses_lineOf {text : List Char} {o : ℕ} (ho : o ≤ text.length) :
    Addresses text o (Span.lineOf text o) (Span.columnOf text o) := by
  obtain ⟨before, piece, after, hs, hline, hpos, hle, hsum⟩ := exists_splitOn ho
  have hl : Span.lineOf text o - 1 = before.length := by omega
  refine ⟨by omega, ?_, hpos, ?_, ?_⟩
  · rw [hs, List.length_append, List.length_cons]
    omega
  · rw [hl, hs]
    intro piece' hp
    simp only [List.getElem?_append_right le_rfl, Nat.sub_self, List.getElem?_cons_zero,
      Option.mem_def, Option.some.injEq] at hp
    exact hp ▸ hle
  · rw [hl, hs, List.take_left]
    exact hsum

namespace Addresses

variable {text : List Char} {o o' line line' column column' : ℕ}

/-- An offset on an earlier line comes first. -/
theorem lt_of_line_lt (h : Addresses text o line column) (h' : Addresses text o' line' column')
    (hl : line < line') : o < o' := by
  have hpos := h.line_pos
  have hlt : line - 1 < (text.splitOn '\n').length := by
    have := h'.line_le
    omega
  obtain ⟨n, hn⟩ : ∃ n, line' - 1 = line - 1 + 1 + n := Nat.exists_eq_add_of_le (by omega)
  have hle := h.column_le _ (List.getElem?_eq_getElem hlt)
  have hsum := h.sum_eq
  have hsum' := h'.sum_eq
  rw [hn, List.take_add, List.take_add_one, List.getElem?_eq_getElem hlt] at hsum'
  simp only [Option.toList_some, List.map_append, List.sum_append, List.map_cons, List.map_nil,
    List.sum_singleton] at hsum'
  have := h.column_pos
  omega

/-- **Offsets are ordered like their lines and columns.** -/
theorem lt_iff (h : Addresses text o line column) (h' : Addresses text o' line' column') :
    o < o' ↔ line < line' ∨ line = line' ∧ column < column' := by
  rcases lt_trichotomy line line' with hl | rfl | hl
  · have := h.lt_of_line_lt h' hl
    omega
  · have h₁ := h.sum_eq
    have h₂ := h'.sum_eq
    have h₃ := h.column_pos
    have h₄ := h'.column_pos
    omega
  · have := h'.lt_of_line_lt h hl
    omega

/-- A line and a column address one offset only. -/
theorem unique (h : Addresses text o line column) (h' : Addresses text o' line column) : o = o' :=
  h.sum_eq.symm.trans h'.sum_eq

end Addresses

/-! ## What is quoted -/

variable {r : StartRule}

/-- What is found instead of an expected token stands at the offset and has no white space in it. -/
theorem Stuck.isSpace_eq_false {c : Config} {why : Rejection} (h : Stuck r c why) {w : List Char}
    (hw : why.found? = some w) : w ≠ [] ∧ ∀ x ∈ w, Text.isSpace x = false := by
  have hword : ∀ {t : Terminal} {w : List Char}, w ∈ t.words →
      w ≠ [] ∧ ∀ x ∈ w, Text.isSpace x = false := fun hw =>
    ⟨Terminal.ne_nil_of_mem_words hw, Terminal.isSpace_eq_false_of_mem_words hw⟩
  cases h with
  | incomplete => cases hw
  | @unreadable gap rest x _ _ hx _ =>
    obtain ⟨v, rest', -, hstray, hl, -⟩ := exists_strayLexeme x rest
    obtain rfl : x :: v = w := Option.some.inj ((congrArg some hstray).symm.trans hw)
    rcases hl with ⟨t, ht⟩ | ⟨d, hd⟩
    · exact hword ht
    · obtain ⟨rfl, rfl⟩ := List.cons.inj hd
      exact ⟨List.cons_ne_nil _ _, List.forall_mem_singleton.2 hx⟩
  | misplaced _ _ _ hk _ _ =>
    obtain rfl := Option.some.inj hw
    exact hword hk

/-- A rejected text is rejected at its end, or at a lexeme without white space. -/
theorem found?_of_read {text : List Char} {why : Rejection} (h : read r text = .error why) :
    why.found? = none ∨ ∃ w, why.found? = some w ∧ w ≠ [] ∧ w <+: text.drop why.offset ∧
      ∀ c ∈ w, Text.isSpace c = false := by
  obtain ⟨ks, c, hks, hw, -⟩ := exists_stuck_of_read h
  obtain ⟨t, ht, -, ho⟩ := hks.spells
  dsimp only at ht ho
  rcases hw.exists_lexeme with ⟨hf, -⟩ | ⟨gap, w, rest, hc, hf, hoff, -⟩
  · exact .inl hf
  · obtain ⟨hne, hspace⟩ := hw.isSpace_eq_false hf
    refine .inr ⟨w, hf, hne, ?_, hspace⟩
    have hlen : why.offset = (t ++ gap).length := by
      rw [hoff, ho, List.length_append, Nat.zero_add]
    rw [ht, hc, ← List.append_assoc, hlen, List.drop_left]
    exact List.prefix_append w rest

/-! ## Reports -/

/-- **Positions in reports.** The line and the column of a report address its offset, and all
offsets of the text are ordered like their lines and columns. A report on a rejected text quotes the
end of the text, or a piece of it that stands at the offset and has no white space in it; and what
it suggests is in increasing order. -/
theorem parse_position {text : List Char} {error : SignatureError}
    (h : parse r text = .error (.signature error)) :
    (∃ o ≤ text.length, error.span = .ofOffset text o ∧
      Addresses text o (Span.lineOf text o) (Span.columnOf text o) ∧
      (error.kind ≠ .unsupportedElement → ∃ found, error.message = "unexpected " ++ found ++
          (if error.expected.isEmpty then ""
            else "; expected " ++ ", ".intercalate error.expected) ∧
        (found = "end of input" ∨ ∃ w, found = String.ofList (Text.quoted w) ∧ w ≠ [] ∧
          w <+: text.drop o ∧ ∀ c ∈ w, Text.isSpace c = false))) ∧
    error.expected.Pairwise (· < ·) ∧
    ∀ o ≤ text.length, ∀ o' ≤ text.length,
      (o < o' ↔ Span.lineOf text o < Span.lineOf text o' ∨
        Span.lineOf text o = Span.lineOf text o' ∧
          Span.columnOf text o < Span.columnOf text o') ∧
      (Span.lineOf text o = Span.lineOf text o' → Span.columnOf text o = Span.columnOf text o' →
        o = o') := by
  refine ⟨?_, ?_, fun o ho o' ho' => ⟨(addresses_lineOf ho).lt_iff (addresses_lineOf ho'), ?_⟩⟩
  · obtain ⟨o, ho, hspan⟩ := exists_offset_le_of_parse h
    refine ⟨o, ho, hspan, addresses_lineOf ho, fun hk => ?_⟩
    obtain ⟨why, hread, rfl⟩ := exists_read_error_of_parse h hk
    obtain rfl : why.offset = o := Int.ofNat.inj (congrArg Span.offset hspan)
    rcases found?_of_read hread with hf | ⟨w, hf, hw⟩
    · refine ⟨"end of input", ?_, .inl rfl⟩
      change why.message = _
      rw [Rejection.message, hf]
      rfl
    · exact ⟨_, (SignatureError.quotes_ofRejection hf hw.2.1).message, .inr ⟨w, rfl, hw⟩⟩
  · rcases exists_report_of_parse h with ⟨why, -, rfl⟩ | ⟨o, element, rfl⟩
    · exact pairwise_descriptions _
    · exact .nil
  · intro hl hc
    have haddr := addresses_lineOf ho
    rw [hl, hc] at haddr
    exact haddr.unique (addresses_lineOf ho')

theorem parse_position_secondLine : ∃ error,
    parse .literal "\nx".toList = .error (.signature error) ∧
      error.span = ⟨1, some 2, some 1, none⟩ ∧ Addresses "\nx".toList 1 2 1 := by
  have hread : read .literal "\nx".toList =
      .error (.unreadable 1 ['x'] (State.start .literal).acceptable) := run_of_reject rfl
  have hp := parse_of_read_error hread
  obtain ⟨⟨o, -, ho, haddr, -⟩, -⟩ := parse_position hp
  obtain rfl : 1 = o := Int.ofNat.inj (congrArg Span.offset ho)
  exact ⟨_, hp, ho.trans (by decide), haddr⟩

end TensorSig
