import TensorSig.Command.Run
import TensorSig.Proofs.Arguments
import TensorSig.Proofs.Isolation
import Mathlib.Data.List.ReduceOption

/-!
# Listings in files

A run of the command over files reports what the listings in them yield: a line on standard output
for each declaration, a line on standard error for each diagnostic, in the order of the files and of
their lines. The run takes the declarations one by one from all files, and here what it leaves
behind is put together from the listings.

* `Transcript.andThen`, `Transcript.ofDeclarations_append`: declarations one after the other.
* `Transcript.ofDeclarations_ofLines`: the lines of one listing.
* `fileLines`, `ListingsOf`: the listings in files.
* `Outcome.ofListings`: what listings amount to.
* `run_listings`: a run over files amounts to the listings in them.
* `run_dotHyphen`: a file that is not read.
-/

namespace TensorSig.Command

/-! ## Transcripts -/

namespace Transcript

/-- A transcript that goes on with another unless it breaks off. -/
def andThen (t t' : Transcript) : Transcript :=
  match t.interruption? with
  | some _ => t
  | none => ⟨t.out ++ t'.out, t.err ++ t'.err, t'.interruption?⟩

theorem andThen_assoc (t t' t'' : Transcript) :
    (t.andThen t').andThen t'' = t.andThen (t'.andThen t'') := by
  obtain ⟨out, err, why?⟩ := t
  obtain ⟨out', err', why'?⟩ := t'
  cases why? <;> cases why'? <;> simp [andThen]

variable (start? : Option StartRule) (dump : Bool)

theorem ofDeclarations_cons (d : Declaration) (ds : List Declaration) :
    ofDeclarations start? dump (d :: ds) =
      (ofDeclarations start? dump [d]).andThen (ofDeclarations start? dump ds) := by
  cases start? with
  | none => rfl
  | some start =>
    cases ht : d.text? with
    | none => simp only [ofDeclarations, ht, andThen]
    | some text =>
      cases hc : parseComponent start text with
      | ok c => simp [ofDeclarations, ht, hc, andThen]
      | error failure => cases failure <;> simp [ofDeclarations, ht, hc, andThen]

/-- **Declarations one after the other** lead to what the first lead to and then to what the others
do. -/
theorem ofDeclarations_append (ds ds' : List Declaration) :
    ofDeclarations start? dump (ds ++ ds') =
      (ofDeclarations start? dump ds).andThen (ofDeclarations start? dump ds') := by
  induction ds with
  | nil => rfl
  | cons d ds ih =>
    rw [List.cons_append, ofDeclarations_cons, ih, ← andThen_assoc, ← ofDeclarations_cons]

end Transcript

/-! ## The lines of a listing -/

/-- The line on standard output for a declaration. -/
def successLine (s : Signature) : String := "[ok] " ++ s.name

/-- The line on standard error for a diagnostic. -/
def diagnosticLine (d : Diagnostic) : String := "[parse error] " ++ d.span.text ++ ": " ++ d.message

theorem failureLine_eq (d : Declaration) (e : SignatureError) : failureLine d e =
    diagnosticLine (e.toDiagnostic.relocate d.line (some (String.ofList d.label)) d.shift) :=
  rfl

/-- **The lines of a listing** lead to a line for each declaration and one for each diagnostic. -/
theorem Transcript.ofDeclarations_ofLines (label : List Char) (n : Nat) {lines : List (List Char)}
    (h : ∀ line ∈ lines, lineNumeral? line = none) :
    ofDeclarations (some .function) false (Declaration.ofLines label n lines) =
      ⟨(lines.filterMap lineSignature?).map successLine,
        (lineDiagnostics (some (String.ofList label)) n lines).map diagnosticLine, none⟩ := by
  induction lines generalizing n with
  | nil => rfl
  | cons line lines ih =>
    rw [List.forall_mem_cons] at h
    rw [lineDiagnostics_cons, List.filterMap_cons, Declaration.ofLines]
    cases hd : declaration? line with
    | none => simpa [lineSignature?, lineDiagnostic?, hd] using ih (n + 1) h.2
    | some text =>
      dsimp only
      rw [ofDeclarations_cons, ih (n + 1) h.2]
      cases hp : parseFunction text with
      | ok s =>
        have hc : parseComponent .function text = .ok (.function s) := congrArg _ hp
        simp [lineSignature?, lineDiagnostic?, hd, hp, ofDeclarations, hc, andThen, successLines,
          successLine]
      | error failure =>
        have hc : parseComponent .function text = .error failure := congrArg _ hp
        cases failure with
        | oversized numeral =>
          rw [lineNumeral?_eq_some_iff.2 ⟨text, hd, hp⟩] at h
          cases h.1
        | signature error =>
          simp [lineSignature?, lineDiagnostic?, hd, hp, ofDeclarations, hc, andThen,
            failureLine_eq]

/-! ## The listings in files -/

/-- The lines of a file. -/
def fileLines (content : List Char) : List (List Char) :=
  Text.splitLines (Text.unifyNewlines content)

/-- The listings in the files under paths, each with its path in normal form as its name. -/
def ListingsOf (files : FileSystem) : List (List Char) → List Listing → Prop :=
  List.Forall₂ fun path l => ∃ content, files (normalPath path) = .ok content ∧
    Listing.parse (some (String.ofList (normalPath path))) (fileLines content) = .ok l

/-- What listings amount to: a line for each declaration, a line for each diagnostic, and an exit
code that says whether there are diagnostics. -/
def Outcome.ofListings (listings : List Listing) : Outcome :=
  { stdout := linesText ((listings.flatMap fun l => l.results.reduceOption).map successLine)
    stderr := linesText ((listings.flatMap Listing.diagnostics).map diagnosticLine)
    ending := .exit (if listings.any fun l => !l.diagnostics.isEmpty then 1 else 0) }

/-- What the declarations of listings lead to. -/
def Transcript.ofListings (listings : List Listing) : Transcript :=
  { out := (listings.flatMap fun l => l.results.reduceOption).map successLine
    err := (listings.flatMap Listing.diagnostics).map diagnosticLine }

theorem Transcript.outcome_ofListings (listings : List Listing) :
    (ofListings listings).outcome = Outcome.ofListings listings := by
  have hcode : (ofListings listings).err.isEmpty =
      !listings.any fun l => !l.diagnostics.isEmpty := by
    rw [ofListings, List.isEmpty_map, Bool.eq_iff_iff]
    simp
  unfold outcome Outcome.ofListings
  rw [hcode]
  cases listings.any fun l => !l.diagnostics.isEmpty <;> rfl

variable {files : FileSystem} {paths : List (List Char)}

/-- A file under a path, in the lines of which no numeral is too long. -/
def ReadableFile (files : FileSystem) (path : List Char) : Prop :=
  ∃ content, files (normalPath path) = .ok content ∧ ∀ line ∈ fileLines content, Readable line

/-- Files are read as the declarations of the listings in them. -/
theorem exists_readFiles (h : ∀ path ∈ paths, ReadableFile files path) :
    ∃ ds listings, readFiles files (paths.map normalPath) = .ok ds ∧
      ListingsOf files paths listings ∧
      Transcript.ofDeclarations (some .function) false ds = .ofListings listings := by
  induction paths with
  | nil => exact ⟨[], [], rfl, .nil, rfl⟩
  | cons path paths ih =>
    rw [List.forall_mem_cons] at h
    obtain ⟨content, hcontent, hread⟩ := h.1
    obtain ⟨ds, listings, hds, hlistings, htranscript⟩ := ih h.2
    have hnumeral : ∀ line ∈ fileLines content, lineNumeral? line = none :=
      fun line hline => readable_iff.1 (hread line hline)
    refine ⟨Declaration.ofLines (normalPath path) 1 (fileLines content) ++ ds, _ :: listings, ?read,
      .cons ⟨content, hcontent, Listing.parse_eq_ok hnumeral⟩ hlistings, ?transcript⟩
    case read =>
      rw [List.map_cons, readFiles, hcontent]
      dsimp only
      rw [hds]
      rfl
    case transcript =>
      rw [Transcript.ofDeclarations_append, htranscript,
        Transcript.ofDeclarations_ofLines _ _ hnumeral]
      simp [Transcript.andThen, Transcript.ofListings, List.reduceOption, List.filterMap_map]

/-! ## Runs over files -/

namespace Options

variable {options : Options}

theorem source_eq_stdin (he : options.exprs = [])
    (hp : options.paths = [] ∨ options.paths.map normalPath = [['-']]) :
    options.source = .stdin := by
  rw [source, he]
  exact if_pos (hp.imp_left List.map_eq_nil_iff.2)

theorem source_eq_files (he : options.exprs = []) (hne : options.paths ≠ [])
    (hp : options.paths.map normalPath ≠ [['-']]) :
    options.source = .files (options.paths.map normalPath) := by
  rw [source, he]
  exact if_neg (not_or.2 ⟨mt List.map_eq_nil_iff.1 hne, hp⟩)

end Options

/-- A run parses the declarations that it finds. -/
theorem run_of_declarations {arguments : List (List Char)} {files : FileSystem}
    {stdin : List Char} {newlines : Text.NewlineMode} {options : Options} {ds : List Declaration}
    (h : Request.ofArguments arguments = .ok (.run options))
    (hds : declarations files (newlines.decode stdin) options.source = .ok ds) :
    run arguments files stdin newlines =
      (Transcript.ofDeclarations options.start? options.dump ds).outcome := by
  rw [run, h]
  dsimp only
  rw [runOptions, hds]

/-- **A run over files amounts to the listings in them.** Paths that do not start with a hyphen are
taken for paths with no options. A run with no options over files that can be read, unless standard
input is read in place of a single one, writes a line for each declaration and each diagnostic of
the listings in the files, in order, and its exit code says whether there are diagnostics. -/
theorem run_listings (files : FileSystem) (stdin : List Char) (newlines : Text.NewlineMode) :
    (∀ paths : List (List Char), (∀ path ∈ paths, path.head? ≠ some '-') →
      Request.ofArguments paths = .ok (.run { paths := paths })) ∧
    ∀ arguments paths : List (List Char),
      Request.ofArguments arguments = .ok (.run { paths := paths }) → paths ≠ [] →
        paths.map normalPath ≠ [['-']] → (∀ path ∈ paths, ReadableFile files path) →
          ∃ listings, ListingsOf files paths listings ∧
            run arguments files stdin newlines = Outcome.ofListings listings := by
  refine ⟨fun paths h => Request.ofArguments_operands fun path hpath => .inl (h path hpath), ?_⟩
  intro arguments paths hrun hne hstdin hread
  obtain ⟨ds, listings, hds, hlistings, htranscript⟩ := exists_readFiles hread
  have hsource : Options.source { paths := paths } = .files (paths.map normalPath) :=
    Options.source_eq_files rfl hne hstdin
  have hdeclarations : declarations files (newlines.decode stdin)
      (Options.source { paths := paths }) = .ok ds := by
    rw [hsource]
    exact hds
  refine ⟨listings, hlistings, ?_⟩
  rw [run_of_declarations hrun hdeclarations, htranscript, Transcript.outcome_ofListings]

theorem run_listings_plus :
    (∀ path ∈ [['a']], ReadableFile (fun _ => .ok "f()->()\n+".toList) path) ∧
      ∃ listings, ListingsOf (fun _ => .ok "f()->()\n+".toList) [['a']] listings ∧
        run [['a']] (fun _ => .ok "f()->()\n+".toList) [] .kept = Outcome.ofListings listings := by
  have hread : ∀ path ∈ [['a']], ReadableFile (fun _ => .ok "f()->()\n+".toList) path := by
    refine fun path _ => ⟨_, rfl, fun line hline => ?_⟩
    have hlength : ∀ line ∈ fileLines "f()->()\n+".toList, line.length ≤ digitLimit := by decide
    exact readable_iff.2 (lineNumeral?_eq_none_of_length_le (hlength line hline))
  obtain ⟨hpaths, hrun⟩ := run_listings (fun _ => .ok "f()->()\n+".toList) [] .kept
  exact ⟨hread, hrun [['a']] [['a']] (hpaths _ (by decide)) (by decide) (by decide) hread⟩

/-- **A file that is not read.** The path leads to a file called `-`, and standard input is read in
its place. -/
theorem run_dotHyphen :
    (∀ path ∈ ["./-".toList], path.head? ≠ some '-') ∧
      (∀ path ∈ ["./-".toList], ReadableFile (fun _ => .ok "f()->()".toList) path) ∧
      ¬∃ listings, ListingsOf (fun _ => .ok "f()->()".toList) ["./-".toList] listings ∧
        run ["./-".toList] (fun _ => .ok "f()->()".toList) [] .kept =
          Outcome.ofListings listings := by
  have hhyphen : ∀ path ∈ ["./-".toList], path.head? ≠ some '-' := by decide
  refine ⟨hhyphen, fun path _ => ⟨_, rfl, fun line hline => ?_⟩, ?_⟩
  · have hlength : ∀ line ∈ fileLines "f()->()".toList, line.length ≤ digitLimit := by decide
    exact readable_iff.2 (lineNumeral?_eq_none_of_length_le (hlength line hline))
  · rintro ⟨listings, hlistings, hrun⟩
    have hlines : fileLines "f()->()".toList = ["f()->()".toList] := by decide
    have hparse : Listing.parse (some (String.ofList (normalPath "./-".toList)))
        ["f()->()".toList] = .ok ⟨[some ⟨"f", [], .tuple []⟩], []⟩ :=
      Listing.parse_of_parseFunction (by decide)
        (@parseFunction_unit ['f'] (Terminal.mem_words_of_scan rfl))
    obtain ⟨l, ls, ⟨content, hcontent, hl⟩, hls, rfl⟩ := List.forall₂_cons_left_iff.1 hlistings
    obtain rfl := List.forall₂_nil_left_iff.1 hls
    obtain rfl := Except.ok.inj hcontent
    rw [hlines, hparse] at hl
    obtain rfl := Except.ok.inj hl
    have hrequest := Request.ofArguments_operands fun path hpath => .inl (hhyphen path hpath)
    rw [run, hrequest] at hrun
    have hstdout : "" = linesText ["[ok] f"] := congrArg Outcome.stdout hrun
    exact absurd hstdout (by decide)

end TensorSig.Command
