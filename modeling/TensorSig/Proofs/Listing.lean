import TensorSig.Listing
import TensorSig.Proofs.ErrorOffset
import TensorSig.Proofs.RoundTrip

/-!
# Listings line by line

What a listing yields is put together from what its lines yield, and no line matters to another. Two
listings side by side are parsed one after the other, the second as if it stood alone but for the
numbers of its lines.

* `Diagnostic.lowered`, `Entry.lowered`: the same about a line that stands further down.
* `lineSignature?`, `lineError?`, `Readable`: what a line yields by itself.
* `Diagnostic.Reports`: a diagnostic says what a report does, about a line of a listing.
* `Entry.spec_of_ofLine`: what becomes of one line; `Listing.spec_of_ofLines`: and of all of them.
* `Listing.parse_append`: listings side by side.
* `parse_listing_pointwise`: both together, with the listings that are parsed at all.
-/

namespace TensorSig

/-! ## Lines further down -/

/-- A diagnostic about a line that stands further down. -/
def Diagnostic.lowered (k : Nat) (d : Diagnostic) : Diagnostic :=
  { d with span := { d.span with line? := d.span.line?.map (· + (k : Int)) } }

namespace Entry

/-- What becomes of a line that stands further down. -/
def lowered (k : Nat) : Entry → Entry
  | skipped => skipped
  | parsed signature => parsed signature
  | failed diagnostic => failed (diagnostic.lowered k)

theorem signature?_lowered (k : Nat) (e : Entry) : (e.lowered k).signature? = e.signature? := by
  cases e <;> rfl

theorem diagnostic?_lowered (k : Nat) (e : Entry) :
    (e.lowered k).diagnostic? = e.diagnostic?.map (Diagnostic.lowered k) := by
  cases e <;> rfl

variable (file? : Option String)

theorem ofLine_add (n k : Nat) (line : List Char) :
    ofLine file? (n + k) line = (ofLine file? n line).map (lowered k) := by
  unfold ofLine
  cases declaration? line with
  | none => rfl
  | some text =>
    dsimp only
    cases parseFunction text with
    | ok signature => rfl
    | error failure =>
      cases failure with
      | oversized numeral => rfl
      | signature e =>
        simp only [Except.map, lowered, Diagnostic.lowered, Diagnostic.relocate, Span.relocate,
          Option.map_some, Int.natCast_add]

/-- Nothing but the numbers of lines depends on where they stand. -/
theorem ofLines_add (n k : Nat) (lines : List (List Char)) :
    ofLines file? (n + k) lines = (ofLines file? n lines).map (List.map (lowered k)) := by
  induction lines generalizing n with
  | nil => rfl
  | cons line lines ih =>
    rw [ofLines, ofLines, ofLine_add, Nat.add_right_comm, ih]
    cases ofLine file? n line with
    | error numeral => rfl
    | ok entry => cases ofLines file? (n + 1) lines <;> rfl

theorem ofLines_append (n : Nat) (xs ys : List (List Char)) :
    ofLines file? n (xs ++ ys) = do
      let entries ← ofLines file? n xs
      let entries' ← ofLines file? (n + xs.length) ys
      return entries ++ entries' := by
  induction xs generalizing n with
  | nil =>
    change ofLines file? n ys = ofLines file? n ys >>= fun entries => .ok entries
    cases ofLines file? n ys <;> rfl
  | cons line xs ih =>
    rw [List.cons_append, ofLines, ofLines, ih, List.length_cons, Nat.add_right_comm n 1,
      ← Nat.add_assoc]
    cases ofLine file? n line with
    | error numeral => rfl
    | ok entry =>
      cases ofLines file? (n + 1) xs with
      | error numeral => rfl
      | ok entries => cases ofLines file? (n + xs.length + 1) ys <;> rfl

end Entry

/-! ## One line -/

/-- The declaration on a line, where there is one and it is parsed. -/
def lineSignature? (line : List Char) : Option Signature :=
  (declaration? line).bind fun text =>
    match parseFunction text with
    | .ok signature => some signature
    | .error _ => none

/-- The report on the declaration of a line, where there is one and it is no signature. -/
def lineError? (line : List Char) : Option SignatureError :=
  (declaration? line).bind fun text =>
    match parseFunction text with
    | .error (.signature error) => some error
    | _ => none

/-- No numeral in the declaration of a line is too long to be read. -/
def Readable (line : List Char) : Prop :=
  ∀ text, declaration? line = some text →
    ∀ numeral, parseFunction text ≠ .error (.oversized numeral)

/-- The reports on the declarations of lines, each with the number of its line. -/
def numberedErrors (n : Nat) (lines : List (List Char)) : List (Nat × SignatureError) :=
  (lines.zipIdx n).filterMap fun (line, number) => (lineError? line).map (number, ·)

/-- A diagnostic says what a report does, about a line of a listing. -/
structure Diagnostic.Reports (file? : Option String) (number : Nat) (error : SignatureError)
    (d : Diagnostic) : Prop where
  message : d.message = error.message
  code : d.code? = some error.kind.code
  severity : d.severity = "error"
  notes : d.notes = if error.expected = [] then []
    else ["expected one of: " ++ ", ".intercalate error.expected]
  offset : d.span.offset = error.span.offset
  line : d.span.line? = some (number : Int)
  file : d.span.file? = file?

namespace Entry

variable {file? : Option String} {n : Nat}

/-- A line becomes an entry exactly when no numeral in it is too long. -/
theorem exists_ofLine_iff {line : List Char} :
    (∃ entry, ofLine file? n line = .ok entry) ↔ Readable line := by
  unfold ofLine Readable
  cases declaration? line with
  | none => simp
  | some text =>
    cases hp : parseFunction text with
    | ok signature => simp [hp]
    | error failure => cases failure <;> simp [hp]

/-- **What becomes of a line**: the declaration that is parsed on it, or a diagnostic that says what
the report on it does, or neither. -/
theorem spec_of_ofLine {line : List Char} {entry : Entry} (h : ofLine file? n line = .ok entry) :
    entry.signature? = lineSignature? line ∧
      Option.Rel (Diagnostic.Reports file? n) (lineError? line) entry.diagnostic? := by
  unfold ofLine at h
  unfold lineSignature? lineError?
  cases hd : declaration? line with
  | none =>
    rw [hd] at h
    obtain rfl := Except.ok.inj h
    exact ⟨rfl, .none⟩
  | some text =>
    rw [hd] at h
    dsimp only at h
    rw [Option.bind_some, Option.bind_some]
    cases hp : parseFunction text with
    | ok signature =>
      rw [hp] at h
      obtain rfl := Except.ok.inj h
      exact ⟨rfl, .none⟩
    | error failure =>
      rw [hp] at h
      cases failure with
      | oversized numeral => cases h
      | signature e =>
        obtain rfl := Except.ok.inj h
        -- a report on a text by itself names no listing, so the name is that of this one
        obtain ⟨o, ho⟩ := exists_ofOffset_of_parse hp
        refine ⟨rfl, .some ⟨rfl, rfl, rfl, ?notes, rfl, rfl, ?file⟩⟩
        case notes => simp [Diagnostic.relocate, SignatureError.toDiagnostic]
        case file =>
          simp [Diagnostic.relocate, SignatureError.toDiagnostic, Span.relocate, ho, Span.ofOffset]

/-- Lines become entries exactly when no numeral in them is too long. -/
theorem exists_ofLines_iff {lines : List (List Char)} :
    (∃ entries, ofLines file? n lines = .ok entries) ↔ ∀ line ∈ lines, Readable line := by
  induction lines generalizing n with
  | nil => simp [ofLines]
  | cons line lines ih =>
    rw [List.forall_mem_cons, ← @exists_ofLine_iff file? n, ← @ih (n + 1), ofLines]
    constructor
    · rintro ⟨entries, h⟩
      obtain ⟨entry, he, h⟩ := bind_eq_ok_iff.1 h
      obtain ⟨entries, hes, -⟩ := bind_eq_ok_iff.1 h
      exact ⟨⟨entry, he⟩, entries, hes⟩
    · rintro ⟨⟨entry, he⟩, entries, hes⟩
      exact ⟨entry :: entries, bind_eq_ok_iff.2 ⟨entry, he, bind_eq_ok_iff.2 ⟨entries, hes, rfl⟩⟩⟩

end Entry

/-! ## Listings -/

namespace Listing

theorem ofEntries_append (es es' : List Entry) : ofEntries (es ++ es') =
    ⟨(ofEntries es).results ++ (ofEntries es').results,
      (ofEntries es).diagnostics ++ (ofEntries es').diagnostics⟩ := by
  simp only [ofEntries, List.map_append, List.filterMap_append]

theorem ofEntries_lowered (k : Nat) (es : List Entry) : ofEntries (es.map (Entry.lowered k)) =
    ⟨(ofEntries es).results, (ofEntries es).diagnostics.map (Diagnostic.lowered k)⟩ := by
  simp only [ofEntries, List.map_map, List.filterMap_map, List.map_filterMap]
  congr 1
  · exact List.map_congr_left fun e _ => e.signature?_lowered k
  · exact List.filterMap_congr fun e _ => e.diagnostic?_lowered k

/-- **Listings side by side** are parsed one after the other. The lines of the second are counted on
from those of the first. -/
theorem parse_append (file? : Option String) (xs ys : List (List Char)) :
    parse file? (xs ++ ys) = do
      let l ← parse file? xs
      let l' ← parse file? ys
      return ⟨l.results ++ l'.results,
        l.diagnostics ++ l'.diagnostics.map (Diagnostic.lowered xs.length)⟩ := by
  unfold parse
  rw [Entry.ofLines_append, Entry.ofLines_add]
  cases Entry.ofLines file? 1 xs with
  | error numeral => rfl
  | ok es =>
    cases Entry.ofLines file? 1 ys with
    | error numeral => rfl
    | ok es' =>
      change Except.ok (ofEntries (es ++ es'.map (Entry.lowered xs.length))) = _
      rw [ofEntries_append, ofEntries_lowered]
      rfl

variable {file? : Option String}

theorem parse_eq_ok_iff_entries {lines : List (List Char)} {l : Listing} :
    parse file? lines = .ok l ↔
      ∃ entries, Entry.ofLines file? 1 lines = .ok entries ∧ ofEntries entries = l := by
  unfold parse
  cases Entry.ofLines file? 1 lines <;> simp [Except.map]

/-- A listing is parsed exactly when no numeral in its declarations is too long. -/
theorem exists_parse_iff {lines : List (List Char)} :
    (∃ l, parse file? lines = .ok l) ↔ ∀ line ∈ lines, Readable line := by
  rw [← @Entry.exists_ofLines_iff file? 1]
  simp only [parse_eq_ok_iff_entries]
  constructor
  · rintro ⟨_, entries, h, -⟩
    exact ⟨entries, h⟩
  · rintro ⟨entries, h⟩
    exact ⟨_, entries, h, rfl⟩

/-- **What becomes of lines**: a result for each, and a diagnostic for each report on one. -/
theorem spec_of_ofLines {n : Nat} {lines : List (List Char)} {entries : List Entry}
    (h : Entry.ofLines file? n lines = .ok entries) :
    (ofEntries entries).results = lines.map lineSignature? ∧
      List.Forall₂ (fun x => Diagnostic.Reports file? x.1 x.2) (numberedErrors n lines)
        (ofEntries entries).diagnostics := by
  induction lines generalizing n entries with
  | nil =>
    obtain rfl := Except.ok.inj h
    exact ⟨rfl, .nil⟩
  | cons line lines ih =>
    obtain ⟨entry, he, h⟩ := bind_eq_ok_iff.1 h
    obtain ⟨entries, hes, h⟩ := bind_eq_ok_iff.1 h
    obtain rfl := Except.ok.inj h
    obtain ⟨hresults, hdiagnostics⟩ := ih hes
    obtain ⟨hs, hd⟩ := Entry.spec_of_ofLine he
    refine ⟨?results, ?diagnostics⟩
    case results =>
      rw [List.map_cons, ← hs, ← hresults]
      rfl
    case diagnostics =>
      simp only [numberedErrors, List.zipIdx_cons, List.filterMap_cons, ofEntries]
        at hdiagnostics ⊢
      generalize lineError? line = error? at hd
      generalize entry.diagnostic? = diagnostic? at hd
      cases hd with
      | none => exact hdiagnostics
      | some hd => exact .cons hd hdiagnostics

end Listing

/-- **A listing is parsed line by line.** Listings side by side are parsed one after the other, each
as if it stood alone but for the numbers of lines. A listing yields something exactly when no
numeral in it is too long, and then it yields what each line does: the declarations that are parsed,
and one diagnostic for each report, in the order of the lines. -/
theorem parse_listing_pointwise (file? : Option String) :
    (∀ xs ys, Listing.parse file? (xs ++ ys) = do
      let l ← Listing.parse file? xs
      let l' ← Listing.parse file? ys
      return ⟨l.results ++ l'.results,
        l.diagnostics ++ l'.diagnostics.map (Diagnostic.lowered xs.length)⟩) ∧
    (∀ lines, (∃ l, Listing.parse file? lines = .ok l) ↔ ∀ line ∈ lines, Readable line) ∧
    ∀ lines l, Listing.parse file? lines = .ok l →
      l.results = lines.map lineSignature? ∧
      List.Forall₂ (fun x => Diagnostic.Reports file? x.1 x.2) (numberedErrors 1 lines)
        l.diagnostics := by
  refine ⟨Listing.parse_append file?, fun lines => Listing.exists_parse_iff, fun lines l h => ?_⟩
  obtain ⟨entries, he, rfl⟩ := Listing.parse_eq_ok_iff_entries.1 h
  exact Listing.spec_of_ofLines he

theorem parse_listing_pointwise_marked : ∃ l,
    Listing.parse (some "native.txt")
        ["# note".toList, "- func: f(*)->()".toList, " - func: +".toList] = .ok l ∧
      l.results = [none, some ⟨"f", [.variadic], .tuple []⟩, none] ∧
      ∃ d, l.diagnostics = [d] ∧ d.code? = some "E-SIG-LEX" ∧ d.span.line? = some 3 ∧
        d.span.file? = some "native.txt" := by
  have hf : parseFunction "f(*)->()".toList = .ok ⟨"f", [.variadic], .tuple []⟩ := by
    refine parse_eq_ok_iff.2 ⟨_, ?spells, ?apart, .mk ⟨['f'], 0⟩ ⟨['('], 1⟩ ⟨[')'], 3⟩
      ⟨['-', '>'], 4⟩ (.cons (.variadic ⟨['*'], 2⟩) .nil) (.empty ⟨['('], 6⟩ ⟨[')'], 7⟩)⟩
    case spells =>
      refine @Spells.cons 0 [] _ _ _ .nil (Terminal.mem_words_of_scan rfl) rfl ?_
      refine @Spells.cons 1 [] _ _ _ .nil rfl rfl ?_
      refine @Spells.cons 2 [] _ _ _ .nil rfl rfl ?_
      refine @Spells.cons 3 [] _ _ _ .nil rfl rfl ?_
      refine @Spells.cons 4 [] _ _ _ .nil rfl rfl ?_
      refine @Spells.cons 6 [] _ _ _ .nil rfl rfl ?_
      exact @Spells.cons 7 [] _ _ _ .nil rfl rfl (.nil .nil)
    case apart => decide
  have hplus : parseFunction ['+'] =
      .error (.signature (.ofRejection ['+'] (.unreadable 0 ['+'] [.name]))) :=
    parse_of_read_error (run_of_reject rfl)
  generalize ha : "# note".toList = a
  generalize hb : "- func: f(*)->()".toList = b
  generalize hc : " - func: +".toList = c
  have ha : declaration? a = none := by subst ha; decide
  have hb : declaration? b = some "f(*)->()".toList := by subst hb; decide
  have hc : declaration? c = some ['+'] := by subst hc; decide
  generalize "f(*)->()".toList = text at hf hb
  have hread : ∀ line ∈ [a, b, c], Readable line := by simp [Readable, ha, hb, hc, hf, hplus]
  obtain ⟨-, hok, hspec⟩ := parse_listing_pointwise (some "native.txt")
  obtain ⟨l, hl⟩ := (hok _).2 hread
  obtain ⟨hresults, hdiagnostics⟩ := hspec _ l hl
  have herrors : numberedErrors 1 [a, b, c] =
      [(3, .ofRejection ['+'] (.unreadable 0 ['+'] [.name]))] := by
    simp [numberedErrors, lineError?, ha, hb, hc, hf, hplus]
  rw [herrors] at hdiagnostics
  obtain ⟨d, ds, hd, hds, he⟩ := List.forall₂_cons_left_iff.1 hdiagnostics
  obtain rfl := List.forall₂_nil_left_iff.1 hds
  refine ⟨l, hl, ?_, d, he, hd.code, hd.line, hd.file⟩
  simp [hresults, lineSignature?, ha, hb, hc, hf, hplus]

end TensorSig
