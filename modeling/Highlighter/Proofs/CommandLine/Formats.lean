import Highlighter.CommandLine.Basic
import Highlighter.Proofs.Builtin.Highlighting
import Highlighter.Proofs.CommandLine.Options
import Highlighter.Proofs.Registry.Effects

/-! # The two formats

    A run that is asked for HTML and one that is asked for tokens read the
    same files and highlight the same text, and what they do with it differs
    in one place: the plain language stands in for one that is not known in
    HTML only.

    Loading grammar files adds to the builtin registry: it keeps the hooks,
    of which none takes part but those for tokens, and the languages, of
    which the plain one is there from the start (`registry_extends`).  So
    for a language that is known both runs tokenize the text with its
    grammar, and the HTML is the rendering of the tokens; for another one
    the run for tokens fails (`run_formats`). -/

namespace Highlighter

-- ── Loading grammar files ────────────────────────────────────────────────

namespace Registry

/-- A registry that another one has become by loading: tokens are written
    in the same way, and no language is lost. -/
structure Extends (r r' : Registry) : Prop where
  hooks : r'.hooks = r.hooks
  renderer : r'.renderer = r.renderer
  languages : ∀ n ∈ r.catalog.languages, n ∈ r'.catalog.languages

theorem Extends.refl (r : Registry) : r.Extends r := ⟨rfl, rfl, fun _ hn => hn⟩

theorem Extends.trans {r r' r'' : Registry} (h : r.Extends r') (h' : r'.Extends r'') :
    r.Extends r'' where
  hooks := h'.hooks.trans h.hooks
  renderer := h'.renderer.trans h.renderer
  languages n hn := h'.languages n (h.languages n hn)

theorem extends_of_load {r r' : Registry} {d : Document} {id : GrammarId}
    (h : r.load d = (.ok id, r')) : r.Extends r' := by
  rcases hload : r.catalog.load d with ⟨result, c⟩
  rw [load, hload] at h
  obtain ⟨rfl, rfl⟩ := Prod.mk.inj h
  refine ⟨rfl, rfl, fun n hn => ?_⟩
  rw [Catalog.mem_languages_iff] at hn ⊢
  exact hn.load hload

theorem extends_of_loadFile {r r' : Registry} {content : Except FileError String}
    {id : GrammarId} (h : r.loadFile content = (.ok id, r')) : r.Extends r' := by
  rw [loadFile] at h
  cases hd : Document.ofFile content with
  | ok d =>
      rw [hd] at h
      exact extends_of_load h
  | error e =>
      rw [hd] at h
      cases h

end Registry

namespace CommandLine

theorem extends_of_loadFiles {files : Files} {directory : String} (names : List String) :
    ∀ {r r' : Registry}, loadFiles files directory names r = .ok r' → r.Extends r' := by
  induction names with
  | nil =>
      intro r r' h
      obtain rfl := Except.ok.inj h
      exact .refl r
  | cons name names ih =>
      intro r r' h
      rw [loadFiles] at h
      split at h
      · next hload => exact (Registry.extends_of_loadFile hload).trans (ih h)
      · cases h

theorem extends_of_loadDirectories {files : Files} (directories : List String) :
    ∀ {r r' : Registry}, loadDirectories files directories r = .ok r' → r.Extends r' := by
  induction directories with
  | nil =>
      intro r r' h
      obtain rfl := Except.ok.inj h
      exact .refl r
  | cons directory directories ih =>
      intro r r' h
      rw [loadDirectories] at h
      split at h
      · cases h
      · split at h
        · cases h
        · next hload => exact (extends_of_loadFiles _ hload).trans (ih h)

/-- The registry of a run has no hooks but those for tokens, and knows the
    plain language. -/
theorem registry_extends {files : Files} {o : Options} {r : Registry}
    (h : registry files o = .ok r) :
    r.hooks.highlight = [] ∧ plainName ∈ r.catalog.languages := by
  obtain ⟨builtin, hbuiltin, hfounded, -, hlanguages⟩ := Registry.builtin_founded
  rw [registry, hbuiltin] at h
  have hextends := extends_of_loadDirectories o.directories h
  have hplain : plainName ∈ builtin.catalog.languages :=
    (hlanguages plainName).mpr ⟨_, Builtin.plain_mem_languages, List.mem_cons_self⟩
  exact ⟨hextends.hooks ▸ hfounded.noHighlight, hextends.languages _ hplain⟩

/-- Without directories it is the builtin one. -/
theorem registry_of_directories_nil {builtin : Registry} (hbuiltin : Registry.builtin = .ok builtin)
    (files : Files) {o : Options} (ho : o.directories = []) : registry files o = .ok builtin := by
  rw [registry, hbuiltin, ho]
  rfl

-- ── What is written ──────────────────────────────────────────────────────

open Options (withFormat)

/-- The tokens of a text. -/
def tokenized (r : Registry) (id : GrammarId) (text : String) : Except Failure (List Fragment) :=
  (r.tokenize id text).mapError fun fault => Failure.highlighting (.tokenizing fault)

theorem tokenized_eq_ok_iff {r : Registry} {id : GrammarId} {text : String}
    {fs : List Fragment} : tokenized r id text = .ok fs ↔ r.tokenize id text = .ok fs := by
  rw [tokenized]
  cases r.tokenize id text with
  | ok gs =>
      constructor
      · intro h
        obtain rfl : gs = fs := Except.ok.inj h
        rfl
      · intro h
        obtain rfl : gs = fs := Except.ok.inj h
        rfl
  | error fault => exact iff_of_false nofun nofun

/-- HTML is the rendering of the tokens. -/
theorem output_html {r : Registry} (hhooks : r.hooks.highlight = []) {o : Options}
    {id : GrammarId} (hid : r.grammarFor (language o) true = .ok id) (text : String) :
    output r (withFormat .html o) text = (tokenized r id text).map fun fs =>
      r.renderer.render r.hooks (language o) fs ++ "\n" := by
  have hformat : (withFormat .html o).format.getD .html = .html := rfl
  have hhighlight : htmlText r (withFormat .html o) text
      = ((r.tokenize id text).mapError Error.tokenizing).map
          (r.renderer.render r.hooks (language o)) :=
    Registry.highlight_of_grammarFor hhooks hid text
  simp only [output, hformat, hhighlight, tokenized]
  cases r.tokenize id text <;> rfl

theorem output_tokens {r : Registry} {o : Options} {id : GrammarId}
    (hid : r.catalog.grammarId? (language o) = some id) (text : String) :
    output r (withFormat .tokens o) text = (tokenized r id text).map fun fs =>
      String.ofList (Fragment.encodeAll fs).pretty ++ "\n" := by
  have hformat : (withFormat .tokens o).format.getD .html = .tokens := rfl
  have hgrammar : r.grammarFor (language (withFormat .tokens o)) false = .ok id :=
    Registry.grammarFor_of_grammarId? hid false
  simp only [output, hformat, tokenText, hgrammar, bind, Except.bind, tokenized]
  cases r.tokenize id text <;> rfl

/-- No language stands in when tokens are asked for. -/
theorem output_tokens_of_unknown {r : Registry} {o : Options}
    (h : r.catalog.grammarId? (language o) = none) (text : String) :
    output r (withFormat .tokens o) text
      = .error (.highlighting (.grammarNotFound (language o))) := by
  have hformat : (withFormat .tokens o).format.getD .html = .tokens := rfl
  have hgrammar : r.grammarFor (language (withFormat .tokens o)) false
      = .error (.grammarNotFound (language o)) := by
    simp only [Registry.grammarFor, show language (withFormat .tokens o) = language o from rfl, h]
  simp only [output, hformat, tokenText, hgrammar, bind, Except.bind]

/-- A run succeeds if what it writes can be had. -/
theorem outcome_code_eq_zero_iff {α : Type} {warnings : String} {x : Except Failure α}
    {f : α → String} : (outcome warnings (x.map f)).code = 0 ↔ ∃ a, x = .ok a := by
  cases x with
  | ok a => exact iff_of_true rfl ⟨a, rfl⟩
  | error e =>
      refine iff_of_false (fun h => ?_) nofun
      rw [show (Except.error e : Except Failure α).map f = .error e from rfl, outcome] at h
      split at h <;> cases h

-- ── Runs ─────────────────────────────────────────────────────────────────

/-- What a run with these arguments is to highlight, once grammar files are
    loaded and the text is read. -/
def Highlights (files : Files) (stdin : String) (args : List String) (r : Registry)
    (name text : String) : Prop :=
  ∃ o, Request.ofArguments? args = some (.highlight o) ∧ o.list = false ∧ registry files o = .ok r ∧
    code files stdin o = .ok text ∧ language o = name

section Run

variable {files : Files} {stdin : String} {args : List String} {r : Registry} {name text : String}

theorem Highlights.unique {r' : Registry} {name' text' : String}
    (h : Highlights files stdin args r name text)
    (h' : Highlights files stdin args r' name' text') : r = r' ∧ name = name' ∧ text = text' := by
  obtain ⟨o, hargs, -, hr, htext, rfl⟩ := h
  obtain ⟨o', hargs', -, hr', htext', rfl⟩ := h'
  obtain rfl := Request.highlight.inj (Option.some.inj (hargs.symm.trans hargs'))
  exact ⟨Except.ok.inj (hr.symm.trans hr'), rfl, Except.ok.inj (htext.symm.trans htext')⟩

/-- A run that highlights writes what is made of the text. -/
theorem runWith_of_highlights {o : Options} (hlist : o.list = false)
    (hr : registry files o = .ok r) (htext : code files stdin o = .ok text) (f : Format) :
    runWith files stdin (withFormat f o)
      = outcome (warnings r) (output r (withFormat f o) text) := by
  have hr : registry files (withFormat f o) = .ok r := hr
  have htext : code files stdin (withFormat f o) = .ok text := htext
  have hwritten : written files stdin (withFormat f o) r = output r (withFormat f o) text := by
    rw [written, htext]
    exact if_neg (hlist ▸ Bool.false_ne_true)
  rw [runWith, hr]
  exact congrArg (outcome (warnings r)) hwritten

/-- Other runs do not depend on the format. -/
theorem runWith_withFormat {o : Options}
    (h : ∀ r text, o.list = false → registry files o = .ok r → code files stdin o ≠ .ok text)
    (f f' : Format) :
    runWith files stdin (withFormat f o) = runWith files stdin (withFormat f' o) := by
  have hregistry : ∀ f, registry files (withFormat f o) = registry files o := fun _ => rfl
  have hcode : ∀ f, code files stdin (withFormat f o) = code files stdin o := fun _ => rfl
  rw [runWith, runWith, hregistry, hregistry]
  cases hr : registry files o with
  | error e => rfl
  | ok r =>
      refine congrArg (outcome (warnings r)) ?_
      rw [written, written, hcode, hcode]
      cases hlist : o.list with
      | true => exact (if_pos hlist).trans (if_pos hlist).symm
      | false =>
          cases htext : code files stdin o with
          | error e => rfl
          | ok text => exact absurd htext (h r text hlist hr)

/-- What runs with the two formats write for a text.  The plain language
    stands in for one that is not known in HTML only. -/
theorem run_of_highlights (h : Highlights files stdin ("--format" :: "html" :: args) r name text) :
    ∃ id, r.grammarFor name true = .ok id ∧
      run files stdin ("--format" :: "html" :: args)
        = outcome (warnings r) ((tokenized r id text).map fun fs =>
            r.renderer.render r.hooks name fs ++ "\n") ∧
      (name ∈ r.catalog.languages → run files stdin ("--format" :: "tokens" :: args)
        = outcome (warnings r) ((tokenized r id text).map fun fs =>
            String.ofList (Fragment.encodeAll fs).pretty ++ "\n")) ∧
      (name ∉ r.catalog.languages → r.catalog.grammarId? plainName = some id ∧
        run files stdin ("--format" :: "tokens" :: args)
          = outcome (warnings r) (.error (.highlighting (.grammarNotFound name)))) := by
  obtain ⟨o', hargs, hlist, hr, htext, rfl⟩ := h
  obtain ⟨x, hx⟩ := exists_ofArguments?_format args
  obtain ⟨⟨o⟩ | _, rfl, hasked⟩ := Option.map_eq_some_iff.mp ((hx .html).symm.trans hargs)
  case about => exact nomatch hasked
  obtain rfl := Request.highlight.inj hasked
  obtain ⟨hhooks, hplain⟩ := registry_extends hr
  have hrun : ∀ f : Format, run files stdin ("--format" :: f.name :: args)
      = outcome (warnings r) (output r (withFormat f o) text) := by
    intro f
    rw [run, hx]
    exact runWith_of_highlights hlist hr htext f
  show ∃ id, r.grammarFor (language o) true = .ok id ∧ _
  cases hid : r.catalog.grammarId? (language o) with
  | some id =>
      have hgrammar := Registry.grammarFor_of_grammarId? hid true
      have hknown := Catalog.exists_grammarId?_iff.mp ⟨id, hid⟩
      refine ⟨id, hgrammar, ?_, fun _ => ?_, fun hunknown => absurd hknown hunknown⟩
      · exact (hrun .html).trans (congrArg _ (output_html hhooks hgrammar text))
      · exact (hrun .tokens).trans (congrArg _ (output_tokens hid text))
  | none =>
      have hunknown := Catalog.grammarId?_eq_none_iff.mp hid
      obtain ⟨id, hplain⟩ := Catalog.exists_grammarId?_iff.mpr hplain
      have hgrammar : r.grammarFor (language o) true = .ok id := by
        simp only [Registry.grammarFor, hid, hplain]
      refine ⟨id, hgrammar, ?_, fun hknown => absurd hknown hunknown, fun _ => ⟨hplain, ?_⟩⟩
      · exact (hrun .html).trans (congrArg _ (output_html hhooks hgrammar text))
      · exact (hrun .tokens).trans (congrArg _ (output_tokens_of_unknown hid text))

/-- The run for HTML succeeds where the text can be tokenized. -/
theorem run_code_of_tokenize
    (h : Highlights files stdin ("--format" :: "html" :: args) r name text) {id : GrammarId}
    (hid : r.grammarFor name true = .ok id) {fs : List Fragment}
    (hfs : r.tokenize id text = .ok fs) :
    (run files stdin ("--format" :: "html" :: args)).code = 0 := by
  obtain ⟨id', hid', hrun, -⟩ := run_of_highlights h
  obtain rfl := Except.ok.inj (hid.symm.trans hid')
  rw [hrun]
  exact outcome_code_eq_zero_iff.mpr ⟨fs, tokenized_eq_ok_iff.mpr hfs⟩

/-- A run that has nothing to highlight does not depend on the format. -/
theorem run_of_not_highlights
    (h : ∀ r name text, ¬ Highlights files stdin ("--format" :: "html" :: args) r name text) :
    run files stdin ("--format" :: "tokens" :: args)
      = run files stdin ("--format" :: "html" :: args) := by
  obtain ⟨x, hx⟩ := exists_ofArguments?_format args
  have hhtml : Request.ofArguments? ("--format" :: "html" :: args)
      = x.map (Request.withFormat .html) := hx .html
  have htokens : Request.ofArguments? ("--format" :: "tokens" :: args)
      = x.map (Request.withFormat .tokens) := hx .tokens
  rw [run, run, hhtml, htokens]
  match x with
  | none => rfl
  | some .about => rfl
  | some (.highlight o) =>
      refine runWith_withFormat (fun r text hlist hr htext => ?_) .tokens .html
      exact h r (language o) text ⟨withFormat .html o, hhtml, hlist, hr, htext, rfl⟩

end Run

/-- The run for tokens succeeds exactly if the one for HTML does and the
    language is known.  Then the HTML is the rendering of the tokens, with
    the hooks of the registry; and without a text to highlight both runs
    are the same.  For a language that is not known the HTML is that of the
    plain one, and the run for tokens fails. -/
theorem run_formats (files : Files) (stdin : String) (args : List String) :
    let asked := Highlights files stdin ("--format" :: "html" :: args)
    let html := run files stdin ("--format" :: "html" :: args)
    let tokens := run files stdin ("--format" :: "tokens" :: args)
    (tokens.code = 0 ↔
      html.code = 0 ∧ ∀ r name text, asked r name text → name ∈ r.catalog.languages) ∧
    ((∀ r name text, ¬ asked r name text) → tokens = html) ∧
    ∀ r name text, asked r name text → ∃ id, r.grammarFor name true = .ok id ∧
      (html.code = 0 → ∃ fs, r.tokenize id text = .ok fs ∧
        html.stdout = r.renderer.render r.hooks name fs ++ "\n" ∧
        (tokens.code = 0 →
          tokens.stdout = String.ofList (Fragment.encodeAll fs).pretty ++ "\n")) ∧
      (name ∉ r.catalog.languages → r.catalog.grammarId? plainName = some id ∧
        tokens = ⟨1, "", warnings r ++ "Error: " ++ (Error.grammarNotFound name).detail ++ "\n"⟩) := by
  intro asked html tokens
  refine ⟨?_, run_of_not_highlights, fun r name text h => ?_⟩
  · by_cases hasked : ∃ r name text, asked r name text
    · obtain ⟨r, name, text, h⟩ := hasked
      obtain ⟨id, -, hhtml, hknown, hunknown⟩ := run_of_highlights h
      by_cases hname : name ∈ r.catalog.languages
      · have hcode : tokens.code = 0 ↔ html.code = 0 := by
          rw [show tokens = _ from hknown hname, show html = _ from hhtml,
            outcome_code_eq_zero_iff, outcome_code_eq_zero_iff]
        rw [hcode]
        refine (and_iff_left fun r' name' text' h' => ?_).symm
        obtain ⟨rfl, rfl, rfl⟩ := h.unique h'
        exact hname
      · refine iff_of_false (fun hcode => ?_) fun hall => hname (hall.2 r name text h)
        rw [show tokens = _ from (hunknown hname).2] at hcode
        cases hcode
    · rw [show tokens = html from run_of_not_highlights fun r name text h =>
        hasked ⟨r, name, text, h⟩]
      exact (and_iff_left fun r name text h => absurd ⟨r, name, text, h⟩ hasked).symm
  · obtain ⟨id, hgrammar, hhtml, hknown, hunknown⟩ := run_of_highlights h
    refine ⟨id, hgrammar, fun hcode => ?_, hunknown⟩
    rw [show html = _ from hhtml] at hcode
    obtain ⟨fs, hfs⟩ := outcome_code_eq_zero_iff.mp hcode
    refine ⟨fs, tokenized_eq_ok_iff.mp hfs, ?_, fun hcode => ?_⟩
    · rw [show html = _ from hhtml, hfs]
      rfl
    · by_cases hname : name ∈ r.catalog.languages
      · rw [show tokens = _ from hknown hname, hfs]
        rfl
      · rw [show tokens = _ from (hunknown hname).2] at hcode
        cases hcode

/-- A tag is highlighted and tokenized, with the same tokens. -/
theorem run_formats_of_tag :
    (run (Disk.files []) "<b>" ["--format", "html", "--lang", "html"]).code = 0 ∧
      (run (Disk.files []) "<b>" ["--format", "tokens", "--lang", "html"]).code = 0 ∧
      ∃ (r : Registry) (fs : List Fragment),
        (run (Disk.files []) "<b>" ["--format", "html", "--lang", "html"]).stdout
          = r.renderer.render r.hooks "html" fs ++ "\n" ∧
        (run (Disk.files []) "<b>" ["--format", "tokens", "--lang", "html"]).stdout
          = String.ofList (Fragment.encodeAll fs).pretty ++ "\n" := by
  obtain ⟨builtin, hbuiltin, hfounded, hcatalog, hlanguages⟩ := Registry.builtin_founded
  have hargs : Request.ofArguments? ["--format", "html", "--lang", "html"]
      = some (.highlight { language := some "html", format := some .html }) := by decide +kernel
  have hasked : Highlights (Disk.files []) "<b>" ["--format", "html", "--lang", "html"] builtin
      "html" "<b>" :=
    ⟨_, hargs, rfl, registry_of_directories_nil hbuiltin _ rfl, rfl, rfl⟩
  have hmarkup : Builtin.markup ∈ Builtin.languages := List.mem_cons_self
  have hname : "html" ∈ Builtin.markup.given := by decide
  have hknown : "html" ∈ builtin.catalog.languages := (hlanguages "html").mpr ⟨_, hmarkup, hname⟩
  obtain ⟨id, fs, hid, hfs⟩ := Builtin.exists_tokens_of_alone hmarkup hname "<b>"
    (by decide +kernel)
  rw [← hcatalog] at hid hfs
  have hhtml := run_code_of_tokenize hasked (Registry.grammarFor_of_grammarId? hid true) hfs
  obtain ⟨hcode, -, hall⟩ := run_formats (Disk.files []) "<b>" ["--lang", "html"]
  have htokens := hcode.mpr ⟨hhtml, fun r name text h => by
    obtain ⟨rfl, rfl, rfl⟩ := hasked.unique h
    exact hknown⟩
  obtain ⟨id', -, hwritten, -⟩ := hall builtin "html" "<b>" hasked
  obtain ⟨fs', -, hrendered, hprinted⟩ := hwritten hhtml
  exact ⟨hhtml, htokens, builtin, fs', hrendered, hprinted htokens⟩

/-- For a language that is not known the HTML is written and the tokens are
    not. -/
theorem run_formats_of_unknown :
    (run (Disk.files []) "ab" ["--format", "html", "--lang", "nosuch"]).code = 0 ∧
      (run (Disk.files []) "ab" ["--format", "tokens", "--lang", "nosuch"]).code = 1 := by
  obtain ⟨builtin, hbuiltin, hfounded, hcatalog, hlanguages⟩ := Registry.builtin_founded
  have hargs : Request.ofArguments? ["--format", "html", "--lang", "nosuch"]
      = some (.highlight { language := some "nosuch", format := some .html }) := by decide +kernel
  have hasked : Highlights (Disk.files []) "ab" ["--format", "html", "--lang", "nosuch"] builtin
      "nosuch" "ab" :=
    ⟨_, hargs, rfl, registry_of_directories_nil hbuiltin _ rfl, rfl, rfl⟩
  have hnosuch : "nosuch" ∉ builtin.catalog.languages := by
    rw [hlanguages]
    decide +kernel
  obtain ⟨plain, fs, hid, hfs⟩ := Builtin.exists_tokens_of_alone Builtin.plain_mem_languages
    (n := plainName) List.mem_cons_self "ab" (by decide +kernel)
  rw [← hcatalog] at hid hfs
  obtain ⟨id, hgrammar, -, -, hunknown⟩ := run_of_highlights hasked
  obtain ⟨hid', htokens⟩ := hunknown hnosuch
  obtain rfl := Option.some.inj (hid.symm.trans hid')
  refine ⟨run_code_of_tokenize hasked hgrammar hfs, ?_⟩
  rw [htokens]
  rfl

end CommandLine

end Highlighter
