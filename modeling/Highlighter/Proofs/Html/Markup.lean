import Highlighter.Proofs.Html.ReadingBack

/-! # Start tags

    HTML is read piece by piece: characters, which may be written as
    references, start tags with their attributes, and end tags.  The reader
    is strict.  It takes attribute values between double quotation marks,
    and no character that a tag or a reference has no room for.

    A token is written with a single attribute, its classes.  They are not
    escaped, so the tag is read as it was meant exactly if no label has a
    quotation mark in it, and if what is written in the value stands for
    itself (`next?_token_iff`). -/

namespace Highlighter.Html

-- ── Pieces ───────────────────────────────────────────────────────────────

/-- A start tag, with the values of its attributes as they are written. -/
structure StartTag where
  name : String
  attributes : List (String × String) := []
deriving DecidableEq, Repr

/-- What HTML is made of. -/
inductive Piece where
  | char (c : Char)
  | start (tag : StartTag)
  | finish (name : String)
deriving DecidableEq, Repr

/-- The character that is written as a reference. -/
def reference? (name : List Char) : Option Char :=
  if name = ['l', 't'] then some '<'
  else if name = ['a', 'm', 'p'] then some '&'
  else none

/-- A blank between the parts of a tag. -/
def isBlank (c : Char) : Bool := c == ' ' || c == '\t' || c == '\n' || c == '\x0c'

/-- A character in the name of an element. -/
def isNameChar (c : Char) : Bool := c.isAlphanum || c == '-'

/-- A character in the name of an attribute. -/
def isAttributeChar (c : Char) : Bool := !isBlank c && !(['"', '\'', '<', '>', '/', '='].contains c)

/-- The plain name of an element: a letter, then letters, digits and
    dashes. -/
def plainName (s : String) : Bool :=
  match s.toList with
  | [] => false
  | c :: cs => c.isAlpha && cs.all isNameChar

/-- A piece that has been read in part.  What was `seen` of a word has its
    last character first. -/
inductive Pending where
  | none
  /-- Behind an ampersand. -/
  | reference (seen : List Char)
  /-- Behind a less-than sign. -/
  | bracket
  | startName (seen : List Char)
  /-- Behind the slash of an end tag. -/
  | slash
  | endName (seen : List Char)
  /-- Behind a blank in a start tag. -/
  | gap (tag : StartTag)
  | attributeName (tag : StartTag) (seen : List Char)
  /-- Behind the equals sign of an attribute. -/
  | equals (tag : StartTag) (name : String)
  | value (tag : StartTag) (name : String) (seen : List Char)
  /-- Behind a value. -/
  | quoted (tag : StartTag)

/-- What a character does to a piece. -/
inductive Step where
  | more (p : Pending)
  | whole (piece : Piece)
  | fault

/-- The word whose last character stands first. -/
def word (seen : List Char) : String := String.ofList seen.reverse

/-- A character behind the name of a start tag or behind one of its
    values. -/
def StartTag.step (tag : StartTag) (c : Char) : Step :=
  if isBlank c then .more (.gap tag)
  else if c = '>' then .whole (.start tag)
  else .fault

/-- One character more. -/
def Pending.step : Pending → Char → Step
  | .none, c =>
      if c = '<' then .more .bracket
      else if c = '&' then .more (.reference [])
      else .whole (.char c)
  | .reference seen, c =>
      if c = ';' then (reference? seen.reverse).elim .fault fun d => .whole (.char d)
      else .more (.reference (c :: seen))
  | .bracket, c =>
      if c = '/' then .more .slash
      else if c.isAlpha then .more (.startName [c])
      else .fault
  | .startName seen, c =>
      if isNameChar c then .more (.startName (c :: seen)) else StartTag.step ⟨word seen, []⟩ c
  | .slash, c => if c.isAlpha then .more (.endName [c]) else .fault
  | .endName seen, c =>
      if isNameChar c then .more (.endName (c :: seen))
      else if c = '>' then .whole (.finish (word seen))
      else .fault
  | .gap tag, c =>
      if isAttributeChar c then .more (.attributeName tag [c]) else tag.step c
  | .attributeName tag seen, c =>
      if isAttributeChar c then .more (.attributeName tag (c :: seen))
      else if c = '=' then .more (.equals tag (word seen))
      else .fault
  | .equals tag name, c => if c = '"' then .more (.value tag name []) else .fault
  | .value tag name seen, c =>
      if c = '"' then .more (.quoted { tag with attributes := tag.attributes ++ [(name, word seen)] })
      else .more (.value tag name (c :: seen))
  | .quoted tag, c => tag.step c

/-- The piece in front, and what follows it. -/
def next? : Pending → List Char → Option (Piece × List Char)
  | _, [] => none
  | p, c :: cs =>
      match p.step c with
      | .more p => next? p cs
      | .whole piece => some (piece, cs)
      | .fault => none

/-- All pieces, up to the end. -/
def pieces? : Pending → List Char → Option (List Piece)
  | .none, [] => some []
  | _, [] => none
  | p, c :: cs =>
      match p.step c with
      | .more p => pieces? p cs
      | .whole piece => (pieces? .none cs).map (piece :: ·)
      | .fault => none

theorem next?_of_more {p q : Pending} {c : Char} (h : p.step c = .more q) (cs : List Char) :
    next? p (c :: cs) = next? q cs := by
  rw [next?, h]

theorem next?_of_whole {p : Pending} {c : Char} {piece : Piece} (h : p.step c = .whole piece)
    (cs : List Char) : next? p (c :: cs) = some (piece, cs) := by
  rw [next?, h]

/-- The piece in front is the first one of all. -/
theorem pieces?_of_next? {p : Pending} {cs rest : List Char} {piece : Piece}
    (h : next? p cs = some (piece, rest)) :
    pieces? p cs = (pieces? .none rest).map (piece :: ·) := by
  induction cs generalizing p with
  | nil => exact nomatch h
  | cons c cs ih =>
      rw [next?] at h
      rw [pieces?]
      cases hstep : p.step c with
      | more q =>
          rw [hstep] at h
          exact ih h
      | whole piece =>
          rw [hstep] at h
          obtain ⟨rfl, rfl⟩ := Prod.mk.inj (Option.some.inj h)
          rfl
      | fault =>
          rw [hstep] at h
          exact nomatch h

-- ── Names and values ─────────────────────────────────────────────────────

theorem next?_startName {cs : List Char} (h : ∀ c ∈ cs, isNameChar c = true)
    (seen rest : List Char) :
    next? (.startName seen) (cs ++ rest) = next? (.startName (cs.reverse ++ seen)) rest := by
  induction cs generalizing seen with
  | nil => rfl
  | cons c cs ih =>
      obtain ⟨hc, hcs⟩ := List.forall_mem_cons.mp h
      have hstep : Pending.step (.startName seen) c = .more (.startName (c :: seen)) := if_pos hc
      rw [List.cons_append, next?_of_more hstep, ih hcs, List.reverse_cons, List.append_assoc,
        List.singleton_append]

theorem next?_endName {cs : List Char} (h : ∀ c ∈ cs, isNameChar c = true)
    (seen rest : List Char) :
    next? (.endName seen) (cs ++ rest) = next? (.endName (cs.reverse ++ seen)) rest := by
  induction cs generalizing seen with
  | nil => rfl
  | cons c cs ih =>
      obtain ⟨hc, hcs⟩ := List.forall_mem_cons.mp h
      have hstep : Pending.step (.endName seen) c = .more (.endName (c :: seen)) := if_pos hc
      rw [List.cons_append, next?_of_more hstep, ih hcs, List.reverse_cons, List.append_assoc,
        List.singleton_append]

/-- A value goes on up to a quotation mark. -/
theorem next?_value {cs : List Char} (h : ∀ c ∈ cs, c ≠ '"') (tag : StartTag) (name : String)
    (seen rest : List Char) :
    next? (.value tag name seen) (cs ++ '"' :: rest) =
      next? (.quoted { tag with
        attributes := tag.attributes ++ [(name, word (cs.reverse ++ seen))] }) rest := by
  induction cs generalizing seen with
  | nil => rfl
  | cons c cs ih =>
      obtain ⟨hc, hcs⟩ := List.forall_mem_cons.mp h
      have hstep : Pending.step (.value tag name seen) c = .more (.value tag name (c :: seen)) :=
        if_neg hc
      rw [List.cons_append, next?_of_more hstep, ih hcs, List.reverse_cons, List.append_assoc,
        List.singleton_append]

/-- A plain name is read as a letter and the characters behind it. -/
theorem toList_of_plainName {s : String} (h : plainName s = true) :
    ∃ c cs, s.toList = c :: cs ∧ c.isAlpha = true ∧ ∀ d ∈ cs, isNameChar d = true := by
  unfold plainName at h
  split at h
  · exact absurd h Bool.false_ne_true
  · next c cs hs =>
      obtain ⟨hc, hcs⟩ := Bool.and_eq_true_iff.mp h
      exact ⟨c, cs, hs, hc, List.all_eq_true.mp hcs⟩

/-- No name has a character in it that ends a tag or begins a value. -/
theorem tagPart_of_plainName {s : String} (h : plainName s = true) : TagPart s := by
  obtain ⟨c, cs, hs, hc, hcs⟩ := toList_of_plainName h
  intro d hd
  have hname : isNameChar d = true := by
    rw [hs] at hd
    rcases List.mem_cons.mp hd with rfl | hd
    · rw [isNameChar, Char.isAlphanum, hc]
      rfl
    · exact hcs d hd
  refine ⟨?_, ?_⟩
  · rintro rfl
    exact absurd hname (by decide)
  · rintro rfl
    exact absurd hname (by decide)

theorem word_reverse (s : String) : word (s.toList.reverse) = s := by
  rw [word, List.reverse_reverse, String.ofList_toList]

/-- A start tag is read up to its name. -/
theorem next?_startTag {tag : String} (h : plainName tag = true) (rest : List Char) :
    next? .none ('<' :: (tag.toList ++ rest)) = next? (.startName tag.toList.reverse) rest := by
  obtain ⟨c, cs, htag, hc, hcs⟩ := toList_of_plainName h
  have hslash : c ≠ '/' := by
    rintro rfl
    exact absurd hc (by decide)
  have hletter : Pending.step .bracket c = .more (.startName [c]) := by
    rw [Pending.step, if_neg hslash, if_pos hc]
  rw [htag, List.cons_append, next?_of_more rfl, next?_of_more hletter, next?_startName hcs,
    List.reverse_cons]

/-- A start tag is read up to the quotation mark behind its classes. -/
theorem next?_classes {tag : String} (h : plainName tag = true) {value : List Char}
    (hvalue : ∀ c ∈ value, c ≠ '"') (rest : List Char) :
    next? .none ('<' :: (tag.toList ++ " class=\"".toList ++ value ++ '"' :: rest)) =
      next? (.quoted ⟨tag, [("class", String.ofList value)]⟩) rest := by
  have hblank : next? (.startName tag.toList.reverse) (" class=\"".toList ++ value ++ '"' :: rest) =
      next? (.value ⟨word tag.toList.reverse, []⟩ "class" []) (value ++ '"' :: rest) := rfl
  rw [List.append_assoc, List.append_assoc, ← List.append_assoc " class=\"".toList,
    next?_startTag h, hblank, next?_value hvalue, word_reverse, List.append_nil, word,
    List.reverse_reverse]
  rfl

/-- An end tag is one piece. -/
theorem next?_endTag {tag : String} (h : plainName tag = true) (rest : List Char) :
    next? .none ('<' :: '/' :: (tag.toList ++ '>' :: rest)) = some (.finish tag, rest) := by
  obtain ⟨c, cs, htag, hc, hcs⟩ := toList_of_plainName h
  have hletter : Pending.step .slash c = .more (.endName [c]) := if_pos hc
  have hend : Pending.step (.endName (cs.reverse ++ [c])) '>' = .whole (.finish tag) := by
    rw [← List.reverse_cons, ← htag]
    change Step.whole (.finish (word tag.toList.reverse)) = _
    rw [word_reverse]
  rw [htag, List.cons_append, next?_of_more rfl, next?_of_more rfl, next?_of_more hletter,
    next?_endName hcs, next?_of_whole hend]

-- ── Attributes ───────────────────────────────────────────────────────────

/-- The start tag of which a part has been read. -/
def Pending.tag? : Pending → Option StartTag
  | .gap tag | .attributeName tag _ | .equals tag _ | .value tag _ _ | .quoted tag => some tag
  | _ => .none

/-- A step leads to a start tag whose attributes begin with these. -/
def Step.Keeps (attributes : List (String × String)) : Step → Prop
  | .more p => ∃ tag, p.tag? = some tag ∧ attributes <+: tag.attributes
  | .whole piece => ∃ tag, piece = .start tag ∧ attributes <+: tag.attributes
  | .fault => True

theorem StartTag.step_keeps (tag : StartTag) (c : Char) : (tag.step c).Keeps tag.attributes := by
  unfold StartTag.step
  split
  · exact ⟨tag, rfl, List.prefix_refl _⟩
  · split
    · exact ⟨tag, rfl, List.prefix_refl _⟩
    · trivial

/-- The attributes that were read stay. -/
theorem Pending.step_keeps {p : Pending} {tag : StartTag} (h : p.tag? = some tag) (c : Char) :
    (p.step c).Keeps tag.attributes := by
  cases p with
  | none => exact nomatch h
  | reference seen => exact nomatch h
  | bracket => exact nomatch h
  | startName seen => exact nomatch h
  | slash => exact nomatch h
  | endName seen => exact nomatch h
  | gap t =>
      obtain rfl := Option.some.inj h
      rw [Pending.step]
      split
      · exact ⟨t, rfl, List.prefix_refl _⟩
      · exact t.step_keeps c
  | attributeName t seen =>
      obtain rfl := Option.some.inj h
      rw [Pending.step]
      split
      · exact ⟨t, rfl, List.prefix_refl _⟩
      · split
        · exact ⟨t, rfl, List.prefix_refl _⟩
        · trivial
  | equals t name =>
      obtain rfl := Option.some.inj h
      rw [Pending.step]
      split
      · exact ⟨t, rfl, List.prefix_refl _⟩
      · trivial
  | value t name seen =>
      obtain rfl := Option.some.inj h
      rw [Pending.step]
      split
      · exact ⟨_, rfl, List.prefix_append _ _⟩
      · exact ⟨t, rfl, List.prefix_refl _⟩
  | quoted t =>
      obtain rfl := Option.some.inj h
      exact t.step_keeps c

/-- So the tag that is read in the end begins with them. -/
theorem next?_keeps {p : Pending} {tag : StartTag} (h : p.tag? = some tag) {cs rest : List Char}
    {piece : Piece} (hnext : next? p cs = some (piece, rest)) :
    ∃ whole, piece = .start whole ∧ tag.attributes <+: whole.attributes := by
  induction cs generalizing p tag with
  | nil => exact nomatch hnext
  | cons c cs ih =>
      have hkeeps := Pending.step_keeps h c
      rw [next?] at hnext
      split at hnext
      · next hstep =>
          rw [hstep] at hkeeps
          obtain ⟨tag', htag', hprefix⟩ := hkeeps
          obtain ⟨whole, hwhole, hprefix'⟩ := ih htag' hnext
          exact ⟨whole, hwhole, hprefix.trans hprefix'⟩
      · next hstep =>
          rw [hstep] at hkeeps
          obtain ⟨rfl, -⟩ := Prod.mk.inj (Option.some.inj hnext)
          exact hkeeps
      · exact nomatch hnext

-- ── Tokens ───────────────────────────────────────────────────────────────

namespace Renderer

variable (r : Renderer) (hooks : Hooks) (language : String)

/-- The classes of a token, as they are written. -/
def classes (label : Label) : String :=
  " ".intercalate (r.tokenClass :: label.kind :: label.aliases)

/-- The start tag of a token. -/
def startTag (label : Label) : StartTag := ⟨r.tag, [("class", r.classes label)]⟩

/-- What is written between the tags of a token. -/
def content : Fragment → String
  | .raw text => escape text
  | .leaf _ text => escape text
  | .node _ inner => r.render hooks language inner

variable {r hooks}

/-- Without hooks a token is written as its classes and its content. -/
theorem toList_renderOne (hhooks : hooks.wrap = []) {f : Fragment} {label : Label}
    (hf : f.label? = some label) :
    (r.renderOne hooks language f).toList =
      '<' :: (r.tag.toList ++ " class=\"".toList ++ (r.classes label).toList ++
        '"' :: '>' :: ((r.content hooks language f).toList ++
          '<' :: '/' :: (r.tag.toList ++ ['>']))) := by
  have helement : ∀ content text,
      (element (hooks.runWrap (r.wrapEnv language label content text))).toList =
        '<' :: (r.tag.toList ++ " class=\"".toList ++ (r.classes label).toList ++
          '"' :: '>' :: (content.toList ++ '<' :: '/' :: (r.tag.toList ++ ['>']))) := by
    intro content text
    rw [Hooks.runWrap, hhooks, List.foldl_nil]
    simp [element, wrapEnv, attributes, classes]
  cases f with
  | raw text => cases hf
  | leaf l text =>
      obtain rfl := Option.some.inj hf
      rw [renderOne]
      exact helement _ _
  | node l inner =>
      obtain rfl := Option.some.inj hf
      rw [renderOne]
      exact helement _ _

end Renderer

theorem unquoted_of_intercalate {ss : List String} (h : Unquoted (" ".intercalate ss)) :
    ∀ s ∈ ss, Unquoted s := by
  induction ss with
  | nil => exact nofun
  | cons s ss ih =>
      cases ss with
      | nil =>
          rw [String.intercalate_singleton] at h
          exact List.forall_mem_singleton.mpr h
      | cons t ss =>
          have happend : ∀ c ∈ s.toList ++ " ".toList ++ (" ".intercalate (t :: ss)).toList,
              c ≠ '"' := by
            rw [Unquoted, String.intercalate_cons_cons, String.toList_append,
              String.toList_append] at h
            exact h
          refine List.forall_mem_cons.mpr ⟨fun c hc => ?_, ih fun c hc => ?_⟩
          · exact happend c (List.mem_append_left _ (List.mem_append_left _ hc))
          · exact happend c (List.mem_append_right _ hc)

/-- The classes of a token are unquoted if their parts are. -/
theorem unquoted_classes_iff {r : Renderer} {label : Label} :
    Unquoted (r.classes label) ↔ Unquoted r.tokenClass ∧ label.Unquoted := by
  constructor
  · intro h
    obtain ⟨hclass, hlabel⟩ := List.forall_mem_cons.mp (unquoted_of_intercalate h)
    obtain ⟨hkind, haliases⟩ := List.forall_mem_cons.mp hlabel
    exact ⟨hclass, hkind, haliases⟩
  · rintro ⟨hclass, hkind, haliases⟩
    exact unquoted_intercalate
      (List.forall_mem_cons.mpr ⟨hclass, List.forall_mem_cons.mpr ⟨hkind, haliases⟩⟩)

section Token

variable {r : Renderer} {hooks : Hooks} (language : String) {f : Fragment} {label : Label}

/-- Unquoted classes are read as they are written, and what follows is the
    content and the end tag. -/
theorem next?_token_of_unquoted (hr : plainName r.tag = true) (hhooks : hooks.wrap = [])
    (hf : f.label? = some label) (h : Unquoted (r.classes label)) :
    next? .none (r.renderOne hooks language f).toList =
      some (.start (r.startTag label), (r.content hooks language f).toList ++
        '<' :: '/' :: (r.tag.toList ++ ['>'])) := by
  rw [Renderer.toList_renderOne language hhooks hf, next?_classes hr h, String.ofList_toList]
  rfl

/-- A quotation mark ends the value of the classes. -/
theorem next?_token_of_quoted (hr : plainName r.tag = true) (hhooks : hooks.wrap = [])
    (hf : f.label? = some label) (h : ¬ Unquoted (r.classes label)) {piece : Piece}
    {rest : List Char} (hnext : next? .none (r.renderOne hooks language f).toList =
      some (piece, rest)) :
    ∃ front back tag, (r.classes label).toList = front ++ '"' :: back ∧ piece = .start tag ∧
      [("class", String.ofList front)] <+: tag.attributes := by
  have hmem : '"' ∈ (r.classes label).toList := by
    refine Decidable.of_not_not fun hnot => h fun c hc => ?_
    rintro rfl
    exact hnot hc
  obtain ⟨front, back, hsplit, hfront⟩ := List.eq_append_cons_of_mem hmem
  have hunquoted : ∀ c ∈ front, c ≠ '"' := by
    rintro c hc rfl
    exact hfront hc
  rw [Renderer.toList_renderOne language hhooks hf, hsplit, ← List.append_assoc,
    List.append_assoc _ ('"' :: back), List.cons_append, next?_classes hr hunquoted] at hnext
  obtain ⟨tag, hpiece, hattributes⟩ := next?_keeps rfl hnext
  exact ⟨front, back, tag, hsplit, hpiece, hattributes⟩

/-- The start tag of a token has its classes as its only attribute, and they
    are read back from the value, exactly if neither the class that all
    tokens have nor the labels have a quotation mark in them, and if the
    classes stand for themselves in a value.  How a value is read is left
    open, but that nothing becomes longer.  Without quotation marks, what
    follows the start tag is the content and the end tag. -/
theorem next?_token_iff (hr : plainName r.tag = true) (hhooks : hooks.wrap = [])
    (hf : f.label? = some label) {decode : List Char → List Char}
    (hdecode : ∀ cs, (decode cs).length ≤ cs.length) :
    ((∃ value rest, next? .none (r.renderOne hooks language f).toList =
          some (.start ⟨r.tag, [("class", value)]⟩, rest) ∧
        decode value.toList = (r.classes label).toList) ↔
      (Unquoted r.tokenClass ∧ label.Unquoted) ∧
        decode (r.classes label).toList = (r.classes label).toList) ∧
    (Unquoted r.tokenClass ∧ label.Unquoted →
      next? .none (r.renderOne hooks language f).toList =
        some (.start ⟨r.tag, [("class", r.classes label)]⟩,
          (r.content hooks language f).toList ++ '<' :: '/' :: (r.tag.toList ++ ['>']))) := by
  rw [← unquoted_classes_iff]
  refine ⟨⟨?_, ?_⟩, next?_token_of_unquoted language hr hhooks hf⟩
  · rintro ⟨value, rest, hnext, hvalue⟩
    by_cases h : Unquoted (r.classes label)
    · rw [next?_token_of_unquoted language hr hhooks hf h] at hnext
      obtain ⟨hpiece, -⟩ := Prod.mk.inj (Option.some.inj hnext)
      cases hpiece
      exact ⟨h, hvalue⟩
    · -- what is in front of the quotation mark is too short for the classes
      obtain ⟨front, back, tag, hsplit, hpiece, hattributes⟩ :=
        next?_token_of_quoted language hr hhooks hf h hnext
      cases hpiece
      obtain ⟨hfirst, -⟩ := List.cons_prefix_cons.mp hattributes
      obtain rfl : String.ofList front = value := (Prod.mk.inj hfirst).2
      have hshort := hdecode (String.ofList front).toList
      rw [hvalue, hsplit, String.toList_ofList, List.length_append, List.length_cons] at hshort
      omega
  · rintro ⟨h, hvalue⟩
    exact ⟨_, _, next?_token_of_unquoted language hr hhooks hf h, hvalue⟩

end Token

/-- No reference is shorter than its character. -/
theorem length_decode_le (cs : List Char) : (decode cs).length ≤ cs.length := by
  fun_induction decode cs with
  | case1 cs ih => simp only [List.length_cons]; omega
  | case2 cs ih => simp only [List.length_cons]; omega
  | case3 c cs _ _ ih => simp only [List.length_cons]; omega
  | case4 => exact Nat.le_refl 0

/-- A token with a greater-than sign in its type and an apostrophe in a
    further label. -/
theorem next?_token_iff_of_apostrophe :
    let r : Renderer := { tag := "em", tokenClass := "tok" }
    let label : Label := { kind := "a>b", aliases := ["c'd"], length := 1 }
    let f : Fragment := .leaf label "<"
    plainName r.tag = true ∧ f.label? = some label ∧
      (∀ cs, (decode cs).length ≤ cs.length) ∧
      ∃ value rest, next? .none (r.renderOne {} "" f).toList =
          some (.start ⟨"em", [("class", value)]⟩, rest) ∧
        decode value.toList = "tok a>b c'd".toList := by
  intro r label f
  have hr : plainName r.tag = true := by decide
  have hhooks : ({} : Hooks).wrap = [] := rfl
  have hf : f.label? = some label := rfl
  have hclasses : (Unquoted r.tokenClass ∧ label.Unquoted) ∧
      decode (r.classes label).toList = (r.classes label).toList :=
    ⟨⟨by decide, by decide, by decide⟩, by decide⟩
  exact ⟨hr, hf, length_decode_le,
    (next?_token_iff "" hr hhooks hf length_decode_le).1.mpr hclasses⟩

/-- A type with quotation marks in it brings another attribute. -/
theorem next?_token_two_attributes :
    next? .none (({} : Renderer).renderOne {} ""
        (.leaf { kind := "a\" title=\"b", length := 1 } "x")).toList =
      some (.start ⟨"span", [("class", "token a"), ("title", "b")]⟩, "x</span>".toList) := by
  decide +kernel

end Highlighter.Html
