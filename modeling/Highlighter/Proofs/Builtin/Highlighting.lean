import Highlighter.Proofs.Builtin.LongNumbers

/-! # Highlighting with the builtin languages

    A registry is `Founded` when its catalog is, when no hook takes part but
    those for tokens, and when the text can be read back from what is
    written.  Such a registry highlights every text in every language, and
    of the HTML only tags and escapes are added; unless a match of some
    pattern is given up in a part of the text, for then there is no HTML
    (`Registry.Founded.highlight_ok`).

    The builtin registry is of this kind (`Registry.builtin_founded`): its
    catalog is founded, and the only hook sets an attribute.  That a match
    is given up does happen there: in block diagrams, with a letter behind
    some thousand digits (`Registry.highlight_ones`). -/

namespace Highlighter

open Html (breakable readBack)

/-- All texts can be highlighted in all languages, and read back. -/
structure Registry.Founded (r : Registry) : Prop where
  catalog : r.catalog.Founded
  noHighlight : r.hooks.highlight = []
  hooks : r.hooks.Quiet
  renderer : r.renderer.Quiet

/-- Where there are no hooks nothing is done. -/
theorem Hooks.run_of_highlight_nil {hooks : Hooks} (h : hooks.highlight = []) (name : HookName)
    (env : HighlightEnv) : hooks.run name env = env := by
  rw [Hooks.run, Hooks.at?, h]
  rfl

namespace Registry

/-- A language is highlighted with its own grammar. -/
theorem grammarFor_of_grammarId? {r : Registry} {language : String} {id : GrammarId}
    (h : r.catalog.grammarId? language = some id) (fallback : Bool) :
    r.grammarFor language fallback = .ok id := by
  simp only [grammarFor, h]

/-- Without hooks, highlighting is tokenizing and rendering. -/
theorem highlight_of_grammarFor {r : Registry} (hhooks : r.hooks.highlight = [])
    {language : String} {fallback : Bool} {id : GrammarId}
    (hid : r.grammarFor language fallback = .ok id) (code : String) :
    r.highlight language code fallback = ((r.tokenize id code).mapError Error.tokenizing).map
      (r.renderer.render r.hooks language) := by
  rw [highlight, hid]
  show r.highlightWith id language code = _
  cases hfs : r.tokenize id code with
  | error fault =>
      have hfragments : r.fragments { code, grammar := some id, language }
          = .error (.tokenizing fault) := by simp only [fragments, hfs]
      simp only [highlightWith, Hooks.run_of_highlight_nil hhooks, hfragments]
      rfl
  | ok fs =>
      have hfragments : r.fragments { code, grammar := some id, language } = .ok fs := by
        simp only [fragments, hfs]
      simp only [highlightWith, Hooks.run_of_highlight_nil hhooks, hfragments]
      rfl

/-- Every text is highlighted in every language, and read back from the
    HTML but for the blanks that do not break, unless a match is given up. -/
theorem Founded.highlight_ok {r : Registry} (h : r.Founded) {language : String}
    (hlanguage : language ∈ r.catalog.languages) (text : String) (fallback : Bool) :
    (∃ html, r.highlight language text fallback = .ok html ∧ readBack html = breakable text) ∨
      ∃ regex, r.highlight language text fallback = .error (.tokenizing (.gaveUp regex)) ∧
        Tokenizer.GivesUp r.catalog.grammars text regex := by
  obtain ⟨id, hid, hor⟩ := h.catalog.tokenize_ok hlanguage text
  rw [highlight_of_grammarFor h.noHighlight (grammarFor_of_grammarId? hid fallback)]
  rcases hor with ⟨fs, hfs, htexts, hlabels⟩ | ⟨regex, hgaveUp, hgivesUp⟩
  · refine .inl ⟨r.renderer.render r.hooks language fs, ?_, ?_⟩
    · rw [tokenize, hfs]
      rfl
    · rw [Html.readBack_render language h.renderer h.hooks hlabels, htexts]
  · refine .inr ⟨regex, ?_, hgivesUp⟩
    rw [tokenize, hgaveUp]
    rfl

end Registry

namespace Builtin

theorem mem_setSorted {name value : String} {entries : List (String × String)}
    {e : String × String} (h : e ∈ setSorted name value entries) :
    e = (name, value) ∨ e ∈ entries := by
  induction entries with
  | nil => exact .inl (List.mem_singleton.mp h)
  | cons first entries ih =>
      rw [setSorted] at h
      split at h
      · exact List.mem_cons.mp h
      · split at h
        · exact (List.mem_cons.mp h).imp_right (List.mem_cons_of_mem first)
        · rcases List.mem_cons.mp h with rfl | h
          · exact .inr List.mem_cons_self
          · exact (ih h).imp_right (List.mem_cons_of_mem first)

/-- The hook for entities sets an attribute, no more. -/
theorem quiet_entityTitle : (Hooks.addWrap {} entityTitle).Quiet := by
  intro f hf env henv
  obtain rfl := List.mem_singleton.mp hf
  rw [entityTitle]
  split
  · refine ⟨⟨henv.tag, henv.classes, fun a ha => ?_⟩, rfl⟩
    rcases mem_setSorted ha with rfl | ha
    · exact (by decide : Html.TagPart "title")
    · exact henv.attributes a ha
  · exact ⟨henv, rfl⟩

end Builtin

namespace Registry

/-- The builtin registry can be made, and knows the languages of its
    documents and the plain one. -/
theorem builtin_founded :
    ∃ r, Registry.builtin = .ok r ∧ r.Founded ∧ r.catalog = Builtin.catalog ∧
      ∀ n, n ∈ r.catalog.languages ↔ ∃ d ∈ Builtin.languages, n ∈ d.given := by
  obtain ⟨r, hr, hcatalog, hhooks, hrenderer⟩ := exists_builtin
  have hfounded : r.Founded :=
    { catalog := hcatalog ▸ Builtin.founded_catalog
      noHighlight := congrArg Hooks.highlight hhooks
      hooks := hhooks ▸ Builtin.quiet_entityTitle
      renderer := hrenderer ▸ Html.quiet_default }
  refine ⟨r, hr, hfounded, hcatalog, fun n => ?_⟩
  rw [Catalog.mem_languages_iff, hcatalog]
  exact Builtin.settles_catalog.languages n

/-- A text in one of the builtin languages is highlighted, and read back from
    the HTML with blanks for the blanks that do not break, exactly if no match
    is given up; and a match is given up only if one of the patterns does so
    in a part of the text. -/
theorem builtin_highlight (text : String) (fallback : Bool) :
    ∃ r, Registry.builtin = .ok r ∧ ∀ language ∈ r.catalog.languages,
      ((∃ html, r.highlight language text fallback = .ok html ∧ readBack html = breakable text) ↔
        ∀ regex, r.highlight language text fallback ≠ .error (.tokenizing (.gaveUp regex))) ∧
      ∀ regex, r.highlight language text fallback = .error (.tokenizing (.gaveUp regex)) →
        Tokenizer.GivesUp r.catalog.grammars text regex := by
  obtain ⟨r, hr, hfounded, -⟩ := builtin_founded
  refine ⟨r, hr, fun language hlanguage => ?_⟩
  rcases hfounded.highlight_ok hlanguage text fallback with
    ⟨html, hok, hread⟩ | ⟨regex, herror, hgivesUp⟩
  · have hnone : ∀ regex,
        r.highlight language text fallback ≠ .error (.tokenizing (.gaveUp regex)) :=
      fun regex herror => nomatch hok.symm.trans herror
    exact ⟨⟨fun _ => hnone, fun _ => ⟨html, hok, hread⟩⟩,
      fun regex herror => absurd herror (hnone regex)⟩
  · refine ⟨⟨?_, fun hnone => absurd herror (hnone regex)⟩, fun regex' herror' => ?_⟩
    · rintro ⟨html, hok, -⟩
      exact nomatch hok.symm.trans herror
    · have hfault := Except.error.inj (herror.symm.trans herror')
      obtain rfl : regex = regex' := Tokenizer.Fault.gaveUp.inj (Error.tokenizing.inj hfault)
      exact hgivesUp

/-- A tag with a greater-than sign in an attribute, an entity, and a blank
    that does not break. -/
theorem builtin_highlight_entity :
    ∃ r, Registry.builtin = .ok r ∧ "html" ∈ r.catalog.languages ∧
      ∃ html, r.highlight "html" "<a title='é>'>&lt;\xa0</a>" false = .ok html ∧
        readBack html = "<a title='é>'>&lt; </a>" := by
  obtain ⟨r, hr, hall⟩ := builtin_highlight "<a title='é>'>&lt;\xa0</a>" false
  obtain ⟨r', hr', hfounded, hcatalog, hlanguages⟩ := builtin_founded
  obtain rfl : r = r' := Except.ok.inj (hr.symm.trans hr')
  have hmarkup : Builtin.markup ∈ Builtin.languages := List.mem_cons_self
  have hname : "html" ∈ Builtin.markup.given := by decide
  have hhtml : "html" ∈ r.catalog.languages := (hlanguages "html").mpr ⟨_, hmarkup, hname⟩
  obtain ⟨id, fs, hid, hfs⟩ := Builtin.exists_tokens_of_alone hmarkup hname
    "<a title='é>'>&lt;\xa0</a>" (by decide +kernel)
  rw [← hcatalog] at hid hfs
  obtain ⟨html, hok, hread⟩ := (hall "html" hhtml).1.mpr fun regex herror => by
    rw [highlight_of_grammarFor hfounded.noHighlight (grammarFor_of_grammarId? hid false), tokenize,
      hfs] at herror
    exact nomatch herror
  exact ⟨r, hr, hhtml, html, hok, hread.trans (by decide +kernel)⟩

/-- With a letter behind many digits there is no HTML. -/
theorem highlight_ones {r : Registry} (hr : Registry.builtin = .ok r) {n : Nat} (hn : 3162 ≤ n)
    (fallback : Bool) : "diag" ∈ r.catalog.languages ∧
      ∃ regex, r.highlight "diag" (Builtin.ones n) fallback =
        .error (.tokenizing (.gaveUp regex)) := by
  obtain ⟨r', hr', hfounded, hcatalog, -⟩ := builtin_founded
  obtain rfl : r = r' := Except.ok.inj (hr.symm.trans hr')
  obtain ⟨id, regex, hid, htokenize⟩ := Builtin.tokenize_ones hn
  rw [← hcatalog] at hid htokenize
  refine ⟨?_, regex, ?_⟩
  · rw [hfounded.catalog.mem_languages_iff]
    rw [hfounded.catalog.grammarId?] at hid
    exact OrderedMap.mem_names_of_get? hid
  · rw [highlight_of_grammarFor hfounded.noHighlight (grammarFor_of_grammarId? hid fallback),
      tokenize, htokenize]
    rfl

/-- So not every text is highlighted. -/
theorem builtin_highlight_ones :
    ∃ r, Registry.builtin = .ok r ∧ "diag" ∈ r.catalog.languages ∧
      ∃ regex, r.highlight "diag" (String.ofList (List.replicate 5000 '1' ++ ['a'])) false
        = .error (.tokenizing (.gaveUp regex)) := by
  obtain ⟨r, hr, -⟩ := builtin_founded
  exact ⟨r, hr, highlight_ones hr (by decide : 3162 ≤ 5000) false⟩

end Registry

end Highlighter
