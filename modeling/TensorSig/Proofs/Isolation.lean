import TensorSig.Proofs.Composition
import TensorSig.Proofs.DeclarationLine
import TensorSig.Proofs.Listing
import TensorSig.Proofs.Outcome

/-!
# Bad lines

A listing with a bad line in it still yields what the other lines do: the line adds one diagnostic
and takes nothing away. The one exception is a line with a numeral that is too long to be read. It
breaks the whole listing off, and what the lines before and behind it would yield is lost.

* `lineNumeral?`, `lineDiagnostic?`, `lineDiagnostics`: what a line, and lines, add to a failure.
* `Listing.parse_eq`: a listing in terms of its lines.
* `lineNumeral?_eq_none_of_length_le`: only very long lines break a listing off.
* `parse_listing_isolated`: a bad line between others.
* `parse_listing_overlong`: a listing that one line breaks off.
-/

namespace TensorSig

/-! ## What a line adds -/

/-- The numeral in the declaration of a line that is too long to be read. -/
def lineNumeral? (line : List Char) : Option OversizedNumeral :=
  (declaration? line).bind fun text =>
    match parseFunction text with
    | .error (.oversized numeral) => some numeral
    | _ => none

/-- The diagnostic on a line with a given number, where its declaration is no signature. -/
def lineDiagnostic? (file? : Option String) (number : Nat) (line : List Char) :
    Option Diagnostic :=
  (declaration? line).bind fun text =>
    match parseFunction text with
    | .error (.signature error) =>
      some (error.toDiagnostic.relocate number file? (columnShift line text))
    | _ => none

/-- The diagnostics on lines of which the first has a given number. -/
def lineDiagnostics (file? : Option String) (n : Nat) (lines : List (List Char)) :
    List Diagnostic :=
  (lines.zipIdx n).filterMap fun (line, number) => lineDiagnostic? file? number line

variable {file? : Option String} {line : List Char}

theorem lineNumeral?_eq_some_iff {numeral : OversizedNumeral} : lineNumeral? line = some numeral ↔
    ∃ text, declaration? line = some text ∧ parseFunction text = .error (.oversized numeral) := by
  unfold lineNumeral?
  rw [Option.bind_eq_some_iff]
  refine exists_congr fun text => and_congr_right fun _ => ?_
  cases parseFunction text with
  | ok signature => simp
  | error failure => cases failure <;> simp

theorem readable_iff : Readable line ↔ lineNumeral? line = none := by
  simp only [Option.eq_none_iff_forall_ne_some, ne_eq, lineNumeral?_eq_some_iff, not_exists,
    not_and]
  exact ⟨fun h numeral text hd => h text hd numeral, fun h text hd numeral => h numeral text hd⟩

/-- A line of which no numeral is too long yields a declaration or a diagnostic if there is anything
to parse on it, and not both. -/
theorem isSome_lineDiagnostic?_iff (h : lineNumeral? line = none) (n : Nat) :
    (lineDiagnostic? file? n line).isSome ↔
      (declaration? line).isSome ∧ lineSignature? line = none := by
  unfold lineDiagnostic? lineSignature?
  cases hd : declaration? line with
  | none => simp
  | some text =>
    cases hp : parseFunction text with
    | ok signature => simp [hp]
    | error failure =>
      cases failure with
      | signature error => simp [hp]
      | oversized numeral =>
        rw [lineNumeral?_eq_some_iff.2 ⟨text, hd, hp⟩] at h
        cases h

/-- A diagnostic on a line says where the line stands, and nothing else depends on that. -/
theorem lineDiagnostic?_add (n k : Nat) (line : List Char) : lineDiagnostic? file? (n + k) line =
    (lineDiagnostic? file? n line).map (Diagnostic.lowered k) := by
  unfold lineDiagnostic?
  cases declaration? line with
  | none => rfl
  | some text =>
    rw [Option.bind_some, Option.bind_some]
    cases parseFunction text with
    | ok signature => rfl
    | error failure =>
      cases failure <;> simp [Diagnostic.lowered, Diagnostic.relocate, Span.relocate]

theorem Numeral.length_unsigned_le (numeral : List Char) :
    (unsigned numeral).length ≤ numeral.length := by
  unfold unsigned
  split <;> simp

/-- A line with a declaration that is parsed adds the declaration and nothing else. -/
theorem spec_of_parseFunction {text : List Char} {s : Signature}
    (hd : declaration? line = some text) (hp : parseFunction text = .ok s)
    (file? : Option String) (n : Nat) :
    lineNumeral? line = none ∧ lineSignature? line = some s ∧
      lineDiagnostic? file? n line = none := by
  simp [lineNumeral?, lineSignature?, lineDiagnostic?, hd, hp]

/-- A numeral that is too long is a part of its line. -/
theorem digitLimit_lt_length_of_lineNumeral? {numeral : OversizedNumeral}
    (h : lineNumeral? line = some numeral) : digitLimit < line.length := by
  obtain ⟨text, hd, hp⟩ := lineNumeral?_eq_some_iff.1 h
  obtain ⟨hlt, ks, -, hs, -, -, k, hk, hn⟩ := exists_numeral_of_parse hp
  have hdigits : numeral.digits ≤ k.lexeme.text.length := by
    rcases hn with ⟨-, hn⟩ | ⟨-, hn⟩
    · omega
    · rw [← hn]
      exact Numeral.length_unsigned_le _
  have hstop := hs.stop_le hk
  have hline := (isInfix_of_declaration? hd).length_le
  unfold Token.stop at hstop
  omega

/-- **Only very long lines break a listing off.** -/
theorem lineNumeral?_eq_none_of_length_le (h : line.length ≤ digitLimit) :
    lineNumeral? line = none := by
  refine Option.eq_none_iff_forall_ne_some.2 fun numeral hn => ?_
  have hlt := digitLimit_lt_length_of_lineNumeral? hn
  omega

/-! ## Listings -/

theorem lineDiagnostics_cons (n : Nat) (line : List Char) (lines : List (List Char)) :
    lineDiagnostics file? n (line :: lines) =
      (lineDiagnostic? file? n line).toList ++ lineDiagnostics file? (n + 1) lines := by
  unfold lineDiagnostics
  rw [List.zipIdx_cons, List.filterMap_cons]
  dsimp only
  cases lineDiagnostic? file? n line <;> rfl

namespace Entry

theorem ofLine_eq_error {numeral : OversizedNumeral} (h : lineNumeral? line = some numeral)
    (n : Nat) : ofLine file? n line = .error numeral := by
  obtain ⟨text, hd, hp⟩ := lineNumeral?_eq_some_iff.1 h
  simp only [ofLine, hd, hp]

theorem exists_ofLine (file? : Option String) (n : Nat) (h : lineNumeral? line = none) :
    ∃ entry, ofLine file? n line = .ok entry ∧ entry.signature? = lineSignature? line ∧
      entry.diagnostic? = lineDiagnostic? file? n line := by
  unfold ofLine lineSignature? lineDiagnostic?
  cases hd : declaration? line with
  | none => exact ⟨_, rfl, rfl, rfl⟩
  | some text =>
    dsimp only
    rw [Option.bind_some, Option.bind_some]
    cases hp : parseFunction text with
    | ok signature => exact ⟨_, rfl, rfl, rfl⟩
    | error failure =>
      cases failure with
      | signature error => exact ⟨_, rfl, rfl, rfl⟩
      | oversized numeral =>
        rw [lineNumeral?_eq_some_iff.2 ⟨text, hd, hp⟩] at h
        cases h

/-- Lines fail with the first numeral that is too long. -/
theorem ofLines_eq_error {lines : List (List Char)} {numeral : OversizedNumeral}
    (h : lines.findSome? lineNumeral? = some numeral) (n : Nat) :
    ofLines file? n lines = .error numeral := by
  induction lines generalizing n with
  | nil => cases h
  | cons line lines ih =>
    rw [List.findSome?_cons] at h
    rw [ofLines]
    cases hn : lineNumeral? line with
    | some numeral' =>
      rw [hn] at h
      rw [ofLine_eq_error hn, Option.some.inj h]
      rfl
    | none =>
      rw [hn] at h
      obtain ⟨entry, he, -⟩ := exists_ofLine file? n hn
      rw [he, ih h]
      rfl

/-- Where there is no such numeral, they become what each of them adds. -/
theorem exists_ofLines (file? : Option String) (n : Nat) {lines : List (List Char)}
    (h : lines.findSome? lineNumeral? = none) : ∃ entries, ofLines file? n lines = .ok entries ∧
      Listing.ofEntries entries = ⟨lines.map lineSignature?, lineDiagnostics file? n lines⟩ := by
  induction lines generalizing n with
  | nil => exact ⟨[], rfl, rfl⟩
  | cons line lines ih =>
    rw [List.findSome?_eq_none_iff, List.forall_mem_cons, ← List.findSome?_eq_none_iff] at h
    obtain ⟨entry, he, hs, hd⟩ := exists_ofLine file? n h.1
    obtain ⟨entries, hes, hl⟩ := ih (n + 1) h.2
    refine ⟨[entry] ++ entries, bind_eq_ok_iff.2 ⟨entry, he, bind_eq_ok_iff.2 ⟨entries, hes, rfl⟩⟩,
      ?_⟩
    rw [Listing.ofEntries_append, hl, lineDiagnostics_cons, List.map_cons, ← hs, ← hd]
    cases entry <;> rfl

end Entry

/-- **A listing in terms of its lines**: what each of them adds, or a failure for the first numeral
that is too long. -/
theorem Listing.parse_eq (file? : Option String) (lines : List (List Char)) :
    parse file? lines =
      match lines.findSome? lineNumeral? with
      | some numeral => .error numeral
      | none => .ok ⟨lines.map lineSignature?, lineDiagnostics file? 1 lines⟩ := by
  unfold parse
  cases h : lines.findSome? lineNumeral? with
  | some numeral =>
    rw [Entry.ofLines_eq_error h]
    rfl
  | none =>
    obtain ⟨entries, he, hl⟩ := Entry.exists_ofLines file? 1 h
    rw [he, ← hl]
    rfl

theorem Listing.parse_eq_ok {lines : List (List Char)}
    (h : ∀ line ∈ lines, lineNumeral? line = none) :
    parse file? lines = .ok ⟨lines.map lineSignature?, lineDiagnostics file? 1 lines⟩ := by
  rw [parse_eq, List.findSome?_eq_none_iff.2 h]

/-- A line with a declaration that is parsed, by itself. -/
theorem Listing.parse_of_parseFunction {text : List Char} {s : Signature}
    (hd : declaration? line = some text) (hp : parseFunction text = .ok s) :
    parse file? [line] = .ok ⟨[some s], []⟩ := by
  obtain ⟨hn, hs, hdiag⟩ := spec_of_parseFunction hd hp file? 1
  rw [parse_eq, List.findSome?_singleton, hn, List.map_singleton, hs, lineDiagnostics_cons, hdiag]
  rfl

/-- A line with a declaration that is no signature, by itself. -/
theorem Listing.parse_of_signatureError {text : List Char} {error : SignatureError}
    (hd : declaration? line = some text) (hp : parseFunction text = .error (.signature error)) :
    parse file? [line] =
      .ok ⟨[none], [error.toDiagnostic.relocate 1 file? (columnShift line text)]⟩ := by
  have hn : lineNumeral? line = none := by simp [lineNumeral?, hd, hp]
  rw [parse_eq, List.findSome?_singleton, hn, List.map_singleton, lineDiagnostics_cons]
  simp [lineSignature?, lineDiagnostic?, lineDiagnostics, hd, hp]

/-! ## Small declarations -/

theorem parse_identifier {n : List Char} (h : n ∈ Terminal.name.words) :
    parse .identifier n = .ok (String.ofList n) := by
  refine parse_eq_ok_iff.2 ⟨[⟨.name, ⟨n, 0⟩⟩], ?_, .singleton _, _, rfl, rfl⟩
  have hs : Spells 0 [⟨.name, ⟨n, 0⟩⟩] ([] ++ (n ++ [])) := .cons .nil h rfl (.nil .nil)
  simpa using hs

theorem read_params_nil : read .params [] = .ok ([] : List ParamExpr) :=
  read_eq_ok_iff.2 ⟨[], .nil .nil, .nil, .single .paramsNone .nil⟩

theorem read_returns_unit : read .returns ['(', ')'] = .ok (.tuple 0 [] : TypeExpr) := by
  refine read_eq_ok_iff.2 ⟨[⟨.openParen, ⟨['('], 0⟩⟩, ⟨.closeParen, ⟨[')'], 1⟩⟩], ?_, by decide,
    .single .returnsTuple (.single (.tupleEmpty .returns) (.terminal ⟨_, _⟩ (.terminal ⟨_, _⟩ .nil)))⟩
  refine @Spells.cons 0 [] _ _ _ .nil rfl rfl ?_
  exact @Spells.cons 1 [] _ _ _ .nil rfl rfl (.nil .nil)

/-- An integer list with one dimension. -/
theorem read_returns_intList {w : List Char} (h : w ∈ Terminal.natural.words) :
    read .returns ("IntList[".toList ++ (w ++ [']'])) = .ok (.intList 0 w [] : TypeExpr) := by
  refine read_eq_ok_iff.2 ⟨[⟨.plain (.tensor .intList), ⟨"IntList".toList, 0⟩⟩] ++
    [⟨.openSquare, ⟨['['], 7⟩⟩, ⟨.natural, ⟨w, 8⟩⟩, ⟨.closeSquare, ⟨[']'], 8 + w.length⟩⟩],
    ?spells, ?apart, ?derives⟩
  case spells =>
    refine @Spells.cons 0 [] _ _ _ .nil rfl rfl ?_
    refine @Spells.cons 7 [] _ _ _ .nil rfl rfl ?_
    refine @Spells.cons 8 [] _ _ _ .nil h rfl ?_
    exact @Spells.cons _ [] _ _ _ .nil rfl rfl (.nil .nil)
  case apart =>
    refine .append_cons (.singleton _) (.cons (.cons (.singleton _) ?_) ?_) rfl (by decide) <;>
      simp
  case derives =>
    exact .single .returnsSingle (.single .returnUnnamed (.single (.base .intList)
      (.single .intListOne (.terminal ⟨_, _⟩ (.terminal ⟨_, _⟩ (.terminal ⟨_, _⟩
        (.terminal ⟨_, _⟩ .nil)))))))

/-- A function without parameters and results. -/
theorem parseFunction_unit {n : List Char} (h : n ∈ Terminal.name.words) :
    parseFunction (declaration n [] ['(', ')']) = .ok ⟨String.ofList n, [], .tuple []⟩ := by
  refine (parse_declaration (parse_identifier h) (accepted_iff.2 ⟨_, read_params_nil⟩)
    (accepted_iff.2 ⟨_, read_returns_unit⟩)).trans ?_
  rw [parse_of_read read_params_nil, parse_of_read read_returns_unit]
  rfl

/-- A function of which the result has a dimension that is too long to be read. -/
theorem parseFunction_overlong {n w : List Char} (hn : n ∈ Terminal.name.words)
    (hw : w ∈ Terminal.natural.words) (hlong : digitLimit < w.length) :
    parseFunction (declaration n [] ("IntList[".toList ++ (w ++ [']']))) =
      .error (.oversized ⟨w.length⟩) := by
  refine (parse_declaration (parse_identifier hn) (accepted_iff.2 ⟨_, read_params_nil⟩)
    (accepted_iff.2 ⟨_, read_returns_intList hw⟩)).trans ?_
  have hd : TypeExpr.denote (.intList 0 w []) = .error (.oversized ⟨w.length⟩) := by
    rw [TypeExpr.denote, readDims, readNatural, if_pos hlong]
    rfl
  rw [parse_of_read read_params_nil, parse_of_read (read_returns_intList hw)]
  simp only [StartRule.denote, hd]
  rfl

/-! ## Bad lines between others -/

/-- **Bad lines are isolated up to a numeral that is too long.** A listing fails exactly when there
is such a numeral in it, with the first one. Otherwise a line between others only adds what is on
it: the lines before it yield what they do by themselves, and so do the lines behind it but for
their numbers. Whatever is to be parsed on it and is not yields one diagnostic. -/
theorem parse_listing_isolated (file? : Option String) :
    (∀ (lines : List (List Char)) (numeral : OversizedNumeral),
      Listing.parse file? lines = .error numeral ↔ lines.findSome? lineNumeral? = some numeral) ∧
    ∀ (before : List (List Char)) (line : List Char) (after : List (List Char)),
      lineNumeral? line = none →
        (Listing.parse file? (before ++ line :: after) = do
          let l ← Listing.parse file? before
          let l' ← Listing.parse file? after
          return ⟨l.results ++ lineSignature? line :: l'.results,
            l.diagnostics ++ (lineDiagnostic? file? (before.length + 1) line).toList ++
              l'.diagnostics.map (Diagnostic.lowered (before.length + 1))⟩) ∧
        ((lineDiagnostic? file? (before.length + 1) line).isSome ↔
          (declaration? line).isSome ∧ lineSignature? line = none) := by
  refine ⟨fun lines numeral => ?fails, fun before line after h =>
    ⟨?between, isSome_lineDiagnostic?_iff h _⟩⟩
  case fails =>
    rw [Listing.parse_eq]
    cases lines.findSome? lineNumeral? <;> simp
  case between =>
    have hline : Listing.parse file? [line] =
        .ok ⟨[lineSignature? line], (lineDiagnostic? file? 1 line).toList⟩ := by
      rw [Listing.parse_eq, List.findSome?_singleton, h, lineDiagnostics_cons]
      simp [lineDiagnostics]
    rw [List.append_cons, Listing.parse_append, Listing.parse_append, hline, Nat.add_comm,
      lineDiagnostic?_add]
    cases Listing.parse file? before with
    | error numeral => rfl
    | ok l =>
      cases Listing.parse file? after with
      | error numeral => rfl
      | ok l' => simp [bind, Except.bind, pure, Except.pure, Option.toList_map, Nat.add_comm]

theorem parse_listing_isolated_plus : lineNumeral? ['+'] = none ∧
    ∃ d, lineDiagnostic? none 2 ['+'] = some d ∧
      Listing.parse none ["f()->()".toList, ['+'], "g()->()".toList] =
        .ok ⟨[some ⟨"f", [], .tuple []⟩, none, some ⟨"g", [], .tuple []⟩], [d]⟩ := by
  have hplus : lineNumeral? ['+'] = none := lineNumeral?_eq_none_of_length_le (by decide)
  have hread : read .function ['+'] = .error (.unreadable 0 ['+'] [.name]) := run_of_reject rfl
  have herror : lineSignature? ['+'] = none := by
    have hd : declaration? ['+'] = some ['+'] := by decide
    rw [lineSignature?, hd, Option.bind_some, parseFunction, parse_of_read_error hread]
  have hf : Listing.parse none ["f()->()".toList] = .ok ⟨[some ⟨"f", [], .tuple []⟩], []⟩ :=
    Listing.parse_of_parseFunction (by decide)
      (@parseFunction_unit ['f'] (Terminal.mem_words_of_scan rfl))
  have hg : Listing.parse none ["g()->()".toList] = .ok ⟨[some ⟨"g", [], .tuple []⟩], []⟩ :=
    Listing.parse_of_parseFunction (by decide)
      (@parseFunction_unit ['g'] (Terminal.mem_words_of_scan rfl))
  obtain ⟨hbetween, hsome⟩ :=
    (parse_listing_isolated none).2 ["f()->()".toList] ['+'] ["g()->()".toList] hplus
  obtain ⟨d, hd⟩ := Option.isSome_iff_exists.1 (hsome.2 ⟨rfl, herror⟩)
  refine ⟨hplus, d, hd, hbetween.trans ?_⟩
  rw [hf, hg, herror, hd]
  rfl

/-- **One line breaks a listing off**: the declaration behind it, which by itself yields what it
should, yields nothing in the listing. -/
theorem parse_listing_overlong :
    Listing.parse none ["f()->IntList[".toList ++ (List.replicate 4301 '0' ++ [']']),
        "g()->()".toList] = .error ⟨4301⟩ ∧
      Listing.parse none ["g()->()".toList] = .ok ⟨[some ⟨"g", [], .tuple []⟩], []⟩ := by
  refine ⟨?overlong, Listing.parse_of_parseFunction (by decide)
    (@parseFunction_unit ['g'] (Terminal.mem_words_of_scan rfl))⟩
  case overlong =>
    have hlength : (List.replicate 4301 '0').length = 4301 := List.length_replicate
    have hw : List.replicate 4301 '0' ∈ Terminal.natural.words := by
      refine mem_digits.2 ⟨?_, fun c hc => ?_⟩
      · rw [← List.length_pos_iff, hlength]
        decide
      · obtain rfl := List.eq_of_mem_replicate hc
        rfl
    generalize List.replicate 4301 '0' = w at hlength hw
    have hd : declaration? ("f()->IntList[".toList ++ (w ++ [']'])) =
        some ("f()->IntList[".toList ++ (w ++ [']'])) := by
      refine declaration?_eq_self ?_ ?_ ?_ ?_ ?_
      · simp
      · rintro c ⟨⟩
        decide
      · intro c hc
        rw [← List.append_assoc, List.getLast?_concat] at hc
        obtain rfl := Option.some.inj hc
        decide
      · simp
      · simp
    have hlong : digitLimit < w.length := by
      rw [hlength]
      decide
    have hp := @parseFunction_overlong ['f'] w (Terminal.mem_words_of_scan rfl) hw hlong
    rw [Listing.parse_eq, List.findSome?_cons,
      lineNumeral?_eq_some_iff.2 ⟨_, hd, hp⟩, hlength]

end TensorSig
