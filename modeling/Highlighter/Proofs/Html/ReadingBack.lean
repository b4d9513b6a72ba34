import Highlighter.Html

/-! # Reading back the HTML

    The source text can be read off the HTML of fragments: tags are left
    out, with their attribute values whatever these contain, and the two
    references that text is escaped with are replaced by their characters.
    This gives the text of the fragments, with blanks for the blanks that do
    not break (`readBack_render`).

    It takes tags and attributes that can be told apart from their values:
    no label has a quotation mark in it, and no hook brings one in
    (`Hooks.Quiet`). -/

namespace Highlighter

open Fragment (texts)

namespace Html

-- ── Reading ──────────────────────────────────────────────────────────────

/-- Where a character of HTML stands. -/
inductive Place where
  | content
  | tag
  | value
deriving DecidableEq, Repr

/-- The characters that stand in no tag.  In a tag, quotation marks are
    around the values of attributes. -/
def strip : Place → List Char → List Char
  | _, [] => []
  | .content, c :: cs => if c = '<' then strip .tag cs else c :: strip .content cs
  | .tag, c :: cs =>
      if c = '>' then strip .content cs
      else if c = '"' then strip .value cs
      else strip .tag cs
  | .value, c :: cs => if c = '"' then strip .tag cs else strip .value cs

/-- The text of which less-than signs and ampersands were escaped. -/
def decode : List Char → List Char
  | '&' :: 'l' :: 't' :: ';' :: cs => '<' :: decode cs
  | '&' :: 'a' :: 'm' :: 'p' :: ';' :: cs => '&' :: decode cs
  | c :: cs => c :: decode cs
  | [] => []

/-- The text that HTML shows. -/
def readBack (html : String) : String := String.ofList (decode (strip .content html.toList))

example : readBack "a<b title=\">\">&amp;lt;</b>" = "a&lt;" := by decide +kernel

/-- A text with blanks for the blanks that do not break. -/
def breakable (text : String) : String :=
  String.ofList (text.toList.map fun c => if c = '\xa0' then ' ' else c)

-- ── Escaped text ─────────────────────────────────────────────────────────

theorem toList_escape (s : String) : (escape s).toList = s.toList.flatMap escapeChar := by
  rw [escape, String.toList_ofList]

theorem toList_escape_append (s t : String) :
    (escape (s ++ t)).toList = (escape s).toList ++ (escape t).toList := by
  simp only [toList_escape, String.toList_append, List.flatMap_append]

/-- A character that is not in a tag is kept, if it does not begin one. -/
theorem strip_content {cs : List Char} (h : ∀ c ∈ cs, c ≠ '<') (rest : List Char) :
    strip .content (cs ++ rest) = cs ++ strip .content rest := by
  induction cs with
  | nil => rfl
  | cons c cs ih =>
      obtain ⟨hc, hcs⟩ := List.forall_mem_cons.mp h
      rw [List.cons_append, strip, if_neg hc, ih hcs, List.cons_append]

theorem ne_of_mem_escapeChar {c d : Char} (h : d ∈ escapeChar c) : d ≠ '<' := by
  rintro rfl
  unfold escapeChar at h
  split at h
  · exact absurd h (by decide)
  · exact absurd h (by decide)
  · exact absurd h (by decide)
  · next hc _ => exact hc (List.mem_singleton.mp h).symm

theorem strip_escape (s : String) (rest : List Char) :
    strip .content ((escape s).toList ++ rest) = (escape s).toList ++ strip .content rest := by
  refine strip_content (fun c hc => ?_) rest
  rw [toList_escape] at hc
  obtain ⟨d, -, hd⟩ := List.mem_flatMap.mp hc
  exact ne_of_mem_escapeChar hd

/-- A character that is escaped is decoded, and then what follows it. -/
theorem decode_escapeChar (c : Char) (rest : List Char) :
    decode (escapeChar c ++ rest) = (if c = '\xa0' then ' ' else c) :: decode rest := by
  unfold escapeChar
  split
  · rfl
  · rfl
  · rfl
  · next hamp _ hblank =>
      rw [if_neg hblank, List.singleton_append, decode]
      · rintro cs rfl
        exact fun _ => hamp rfl
      · rintro cs rfl
        exact fun _ => hamp rfl

theorem decode_escape (s : String) : decode (escape s).toList = (breakable s).toList := by
  rw [toList_escape, breakable, String.toList_ofList]
  induction s.toList with
  | nil => rfl
  | cons c cs ih => rw [List.flatMap_cons, decode_escapeChar, ih, List.map_cons]

-- ── Tags ─────────────────────────────────────────────────────────────────

/-- There is no quotation mark in the text. -/
def Unquoted (s : String) : Prop := ∀ c ∈ s.toList, c ≠ '"'

instance (s : String) : Decidable (Unquoted s) := List.decidableBAll _ s.toList

/-- The text is a part of a tag: it neither ends the tag nor begins a
    value. -/
def TagPart (s : String) : Prop := ∀ c ∈ s.toList, c ≠ '>' ∧ c ≠ '"'

instance (s : String) : Decidable (TagPart s) := List.decidableBAll _ s.toList

/-- A part of a tag is left out. -/
theorem strip_tag {cs : List Char} (h : ∀ c ∈ cs, c ≠ '>' ∧ c ≠ '"') (rest : List Char) :
    strip .tag (cs ++ rest) = strip .tag rest := by
  induction cs with
  | nil => rfl
  | cons c cs ih =>
      obtain ⟨⟨hend, hquote⟩, hcs⟩ := List.forall_mem_cons.mp h
      rw [List.cons_append, strip, if_neg hend, if_neg hquote, ih hcs]

/-- A value is left out up to its quotation mark. -/
theorem strip_value {cs : List Char} (h : ∀ c ∈ cs, c ≠ '"') (rest : List Char) :
    strip .value (cs ++ '"' :: rest) = strip .tag rest := by
  induction cs with
  | nil => rfl
  | cons c cs ih =>
      obtain ⟨hc, hcs⟩ := List.forall_mem_cons.mp h
      rw [List.cons_append, strip, if_neg hc, ih hcs]

theorem unquoted_escapeAttribute (s : String) : Unquoted (escapeAttribute s) := by
  intro c hc
  rw [escapeAttribute, String.toList_ofList] at hc
  obtain ⟨d, -, hd⟩ := List.mem_flatMap.mp hc
  unfold escapeAttributeChar at hd
  split at hd
  · rintro rfl
    exact absurd hd (by decide)
  · next hquote =>
      rintro rfl
      exact hquote (List.mem_singleton.mp hd).symm

/-- An attribute with its value is left out. -/
theorem strip_attribute {name value : String} (hname : TagPart name) (hvalue : Unquoted value)
    (rest : List Char) :
    strip .tag (' ' :: (name.toList ++ '=' :: '"' :: (value.toList ++ '"' :: rest))) =
      strip .tag rest := by
  change strip .tag (name.toList ++ '=' :: '"' :: (value.toList ++ '"' :: rest)) = _
  rw [strip_tag hname]
  exact strip_value hvalue rest

theorem strip_attributes {as : List (String × String)} (h : ∀ a ∈ as, TagPart a.1)
    (rest : List Char) : strip .tag ((attributes as).toList ++ rest) = strip .tag rest := by
  induction as with
  | nil => rfl
  | cons a as ih =>
      obtain ⟨name, value⟩ := a
      obtain ⟨hname, has⟩ := List.forall_mem_cons.mp h
      have hspelled : (attributes ((name, value) :: as)).toList ++ rest =
          ' ' :: (name.toList ++ '=' :: '"' :: ((escapeAttribute value).toList ++
            '"' :: ((attributes as).toList ++ rest))) := by
        simp [attributes, String.toList_append]
      rw [hspelled, strip_attribute hname (unquoted_escapeAttribute value), ih has]

/-- What a token is to be written as leaves no doubt where its tags end. -/
structure Quiet (env : WrapEnv) : Prop where
  tag : TagPart env.tag
  classes : ∀ c ∈ env.classes, Unquoted c
  attributes : ∀ a ∈ env.attributes, TagPart a.1

theorem unquoted_intercalate {ss : List String} (h : ∀ s ∈ ss, Unquoted s) :
    Unquoted (" ".intercalate ss) := by
  induction ss with
  | nil => exact nofun
  | cons s ss ih =>
      obtain ⟨hs, hss⟩ := List.forall_mem_cons.mp h
      cases ss with
      | nil =>
          rw [String.intercalate_singleton]
          exact hs
      | cons t ss =>
          intro c hc
          rw [String.intercalate_cons_cons, String.toList_append, String.toList_append] at hc
          rcases List.mem_append.mp hc with hc | hc
          · rcases List.mem_append.mp hc with hc | hc
            · exact hs c hc
            · rw [List.mem_singleton.mp hc]
              decide
          · exact ih hss c hc

/-- Of an element only the content is kept. -/
theorem strip_element {env : WrapEnv} (h : Quiet env) (rest : List Char) :
    strip .content ((element env).toList ++ rest) =
      strip .content (env.content.toList ++ '<' :: '/' :: (env.tag.toList ++ '>' :: rest)) := by
  have hspelled : (element env).toList ++ rest =
      '<' :: (env.tag.toList ++ (' ' :: ("class".toList ++ '=' :: '"' ::
        ((" ".intercalate env.classes).toList ++ '"' :: ((attributes env.attributes).toList ++
          '>' :: (env.content.toList ++ '<' :: '/' :: (env.tag.toList ++ '>' :: rest))))))) := by
    simp [element, String.toList_append]
  have hclass : TagPart "class" := by decide
  rw [hspelled]
  change strip .tag (env.tag.toList ++ _) = _
  rw [strip_tag h.tag, strip_attribute hclass (unquoted_intercalate h.classes),
    strip_attributes h.attributes]
  rfl

theorem strip_endTag {tag : String} (h : TagPart tag) (rest : List Char) :
    strip .content ('<' :: '/' :: (tag.toList ++ '>' :: rest)) = strip .content rest := by
  change strip .tag (tag.toList ++ '>' :: rest) = _
  rw [strip_tag h]
  rfl

-- ── Fragments ────────────────────────────────────────────────────────────

end Html

/-- The type and the further labels are unquoted. -/
structure Label.Unquoted (l : Label) : Prop where
  kind : Html.Unquoted l.kind
  aliases : ∀ a ∈ l.aliases, Html.Unquoted a

mutual

/-- All labels of a fragment are unquoted. -/
def Fragment.Unquoted : Fragment → Prop
  | .raw _ => True
  | .leaf label _ => label.Unquoted
  | .node label inner => label.Unquoted ∧ Fragment.AllUnquoted inner

/-- All labels of fragments in a row are unquoted. -/
def Fragment.AllUnquoted : List Fragment → Prop
  | [] => True
  | f :: fs => f.Unquoted ∧ Fragment.AllUnquoted fs

end

/-- Wrap hooks keep the content, and tags that can be told apart from
    their values. -/
def Hooks.Quiet (hooks : Hooks) : Prop :=
  ∀ f ∈ hooks.wrap, ∀ env, Html.Quiet env → Html.Quiet (f env) ∧ (f env).content = env.content

theorem Hooks.Quiet.runWrap {hooks : Hooks} (h : hooks.Quiet) {env : WrapEnv}
    (henv : Html.Quiet env) :
    Html.Quiet (hooks.runWrap env) ∧ (hooks.runWrap env).content = env.content := by
  obtain ⟨highlight, wrap⟩ := hooks
  change Html.Quiet (wrap.foldl (fun env f => f env) env) ∧ _
  change ∀ f ∈ wrap, _ at h
  change _ ∧ (wrap.foldl (fun env f => f env) env).content = env.content
  induction wrap generalizing env with
  | nil => exact ⟨henv, rfl⟩
  | cons f wrap ih =>
      obtain ⟨hf, hwrap⟩ := List.forall_mem_cons.mp h
      obtain ⟨hquiet, hcontent⟩ := hf env henv
      obtain ⟨hlast, hkept⟩ := ih hquiet hwrap
      exact ⟨hlast, hkept.trans hcontent⟩

namespace Html

/-- How tokens are written is told apart from what they are. -/
structure Renderer.Quiet (r : Renderer) : Prop where
  tag : TagPart r.tag
  tokenClass : Unquoted r.tokenClass

theorem quiet_default : ({} : Renderer).Quiet := ⟨by decide, by decide⟩

theorem Renderer.Quiet.wrapEnv {r : Renderer} (h : r.Quiet) (language : String) {label : Label}
    (hlabel : label.Unquoted) (content text : String) :
    Html.Quiet (r.wrapEnv language label content text) where
  tag := h.tag
  classes := by
    intro c hc
    rcases List.mem_cons.mp hc with rfl | hc
    · exact h.tokenClass
    · rcases List.mem_cons.mp hc with rfl | hc
      · exact hlabel.kind
      · exact hlabel.aliases c hc
  attributes := nofun

/-- An element for a token is its content. -/
theorem strip_token {r : Renderer} (hr : r.Quiet) {hooks : Hooks} (hhooks : hooks.Quiet)
    (language : String) {label : Label} (hlabel : label.Unquoted) {content source : String}
    (hcontent : ∀ rest, strip .content (content.toList ++ rest) =
      (escape source).toList ++ strip .content rest) (text : String) (rest : List Char) :
    strip .content
        ((element (hooks.runWrap (r.wrapEnv language label content text))).toList ++ rest) =
      (escape source).toList ++ strip .content rest := by
  obtain ⟨hquiet, hkept⟩ := hhooks.runWrap (hr.wrapEnv language hlabel content text)
  change _ = content at hkept
  rw [strip_element hquiet, hkept, hcontent, strip_endTag hquiet.tag]

section Render

variable {r : Renderer} {hooks : Hooks} (language : String)

mutual

/-- Of a fragment as HTML only its text is kept, escaped. -/
theorem strip_renderOne (hr : r.Quiet) (hhooks : hooks.Quiet) :
    ∀ {f : Fragment}, f.Unquoted → ∀ rest,
      strip .content ((r.renderOne hooks language f).toList ++ rest) =
        (escape f.text).toList ++ strip .content rest
  | .raw text, _, rest => by
      rw [Renderer.renderOne, Fragment.text]
      exact strip_escape text rest
  | .leaf label text, h, rest => by
      rw [Fragment.Unquoted] at h
      rw [Renderer.renderOne, Fragment.text]
      exact strip_token hr hhooks language h (strip_escape text) text rest
  | .node label inner, h, rest => by
      rw [Fragment.Unquoted] at h
      rw [Renderer.renderOne, Fragment.text]
      exact strip_token hr hhooks language h.1 (strip_render hr hhooks h.2) _ rest

/-- Of fragments as HTML only their text is kept, escaped. -/
theorem strip_render (hr : r.Quiet) (hhooks : hooks.Quiet) :
    ∀ {fs : List Fragment}, Fragment.AllUnquoted fs → ∀ rest,
      strip .content ((r.render hooks language fs).toList ++ rest) =
        (escape (texts fs)).toList ++ strip .content rest
  | [], _, rest => by
      rw [Renderer.render, texts]
      rfl
  | f :: fs, h, rest => by
      rw [Fragment.AllUnquoted] at h
      rw [Renderer.render, texts, String.toList_append, List.append_assoc,
        strip_renderOne hr hhooks h.1, strip_render hr hhooks h.2, toList_escape_append,
        List.append_assoc]

end

/-- The text of fragments is read back from their HTML. -/
theorem readBack_render (hr : r.Quiet) (hhooks : hooks.Quiet) {fs : List Fragment}
    (h : Fragment.AllUnquoted fs) :
    readBack (r.render hooks language fs) = breakable (texts fs) := by
  have hstrip := strip_render language hr hhooks h []
  rw [List.append_nil] at hstrip
  rw [readBack, hstrip]
  change String.ofList (decode ((escape (texts fs)).toList ++ [])) = _
  rw [List.append_nil, decode_escape, String.ofList_toList]

end Render

end Html

end Highlighter
