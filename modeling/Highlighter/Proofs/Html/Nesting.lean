import Highlighter.Proofs.Html.Markup

/-! # Elements

    The pieces of HTML make up a tree when every end tag has the name of the
    start tag that was left open last, and no start tag is left open at the
    end.  What fragments are written as is such a tree.  It has one element
    for every token, in their order and nested as they are, and between the
    tags stand the characters of the texts (`nodes?_render`). -/

namespace Highlighter

open Fragment (texts)

namespace Html

-- ── Trees ────────────────────────────────────────────────────────────────

/-- What HTML shows in one place. -/
inductive Node where
  | char (c : Char)
  | element (tag : StartTag) (inner : List Node)
deriving Repr

/-- An element that is still open, with what stood in front of it in the
    element around, the last node first. -/
structure Open where
  tag : StartTag
  before : List Node

/-- The tree that pieces make up.  The nodes so far have the last one first,
    and of the open elements the innermost comes first. -/
def build? : List Open → List Node → List Piece → Option (List Node)
  | opened, nodes, [] => if opened.isEmpty then some nodes.reverse else none
  | opened, nodes, .char c :: ps => build? opened (.char c :: nodes) ps
  | opened, nodes, .start tag :: ps => build? (⟨tag, nodes⟩ :: opened) [] ps
  | opened, nodes, .finish name :: ps =>
      match opened with
      | [] => none
      | o :: opened =>
          if o.tag.name = name then build? opened (.element o.tag nodes.reverse :: o.before) ps
          else none

/-- The tree that HTML shows. -/
def nodes? (html : String) : Option (List Node) :=
  (pieces? .none html.toList).bind (build? [] [])

mutual

/-- The elements of a node, without the characters between them. -/
def Node.elements : Node → List Node
  | .char _ => []
  | .element tag inner => [.element tag (elementsAll inner)]

/-- The elements of nodes in a row. -/
def elementsAll : List Node → List Node
  | [] => []
  | n :: ns => n.elements ++ elementsAll ns

end

-- ── The tree of fragments ────────────────────────────────────────────────

/-- The characters of a text, with blanks for the blanks that do not
    break. -/
def characters (text : String) : List Node :=
  (breakable text).toList.map .char

namespace Renderer

mutual

/-- What a fragment is to be seen as. -/
def nodeOf (r : Renderer) : Fragment → List Node
  | .raw text => characters text
  | .leaf label text => [.element (r.startTag label) (characters text)]
  | .node label inner => [.element (r.startTag label) (nodesOf r inner)]

/-- What fragments in a row are to be seen as. -/
def nodesOf (r : Renderer) : List Fragment → List Node
  | [] => []
  | f :: fs => nodeOf r f ++ nodesOf r fs

end

end Renderer

end Html

mutual

/-- A fragment without its texts. -/
def Fragment.emptied : Fragment → Fragment
  | .raw _ => .raw ""
  | .leaf label _ => .leaf label ""
  | .node label inner => .node label (Fragment.emptiedAll inner)

/-- Fragments in a row without their texts. -/
def Fragment.emptiedAll : List Fragment → List Fragment
  | [] => []
  | f :: fs => f.emptied :: Fragment.emptiedAll fs

end

namespace Html

-- ── Pieces of a tree ─────────────────────────────────────────────────────

/-- A text is read as nodes, whatever follows and whatever is open. -/
def ReadAs (html : List Char) (nodes : List Node) : Prop :=
  ∀ rest opened before,
    (pieces? .none (html ++ rest)).bind (build? opened before) =
      (pieces? .none rest).bind (build? opened (nodes.reverse ++ before))

theorem readAs_nil : ReadAs [] [] := fun _ _ _ => rfl

theorem ReadAs.append {a b : List Char} {ns ms : List Node} (ha : ReadAs a ns)
    (hb : ReadAs b ms) : ReadAs (a ++ b) (ns ++ ms) := by
  intro rest opened before
  rw [List.append_assoc, ha, hb, List.reverse_append, List.append_assoc]

/-- The first piece takes part in the tree first. -/
theorem build?_of_next? {cs rest : List Char} {piece : Piece}
    (h : next? .none cs = some (piece, rest)) (opened : List Open) (before : List Node) :
    (pieces? .none cs).bind (build? opened before) =
      (pieces? .none rest).bind fun ps => build? opened before (piece :: ps) := by
  rw [pieces?_of_next? h, Option.bind_map]
  rfl

/-- An escaped character is read back, up to its blank. -/
theorem next?_escapeChar (c : Char) (rest : List Char) :
    next? .none (escapeChar c ++ rest) = some (.char (if c = '\xa0' then ' ' else c), rest) := by
  unfold escapeChar
  split
  · rfl
  · rfl
  · rfl
  · next hamp hless hblank =>
      have hstep : Pending.step .none c = .whole (.char c) := by
        rw [Pending.step, if_neg hless, if_neg hamp]
      rw [List.singleton_append, next?_of_whole hstep, if_neg hblank]

theorem readAs_escape (text : String) : ReadAs (escape text).toList (characters text) := by
  rw [toList_escape, characters, breakable, String.toList_ofList]
  induction text.toList with
  | nil => exact readAs_nil
  | cons c cs ih =>
      intro rest opened before
      rw [List.flatMap_cons, List.append_assoc, build?_of_next? (next?_escapeChar c _)]
      change (pieces? .none (_ ++ rest)).bind (build? opened (_ :: before)) = _
      rw [ih, List.map_cons, List.map_cons, List.reverse_cons, List.append_assoc,
        List.singleton_append]

/-- Between the tags of an element stands what is inside. -/
theorem readAs_element {tag : String} (htag : plainName tag = true) {value : String}
    (hvalue : Unquoted value) {content : List Char} {inner : List Node}
    (hcontent : ReadAs content inner) :
    ReadAs ('<' :: (tag.toList ++ " class=\"".toList ++ value.toList ++
        '"' :: '>' :: (content ++ '<' :: '/' :: (tag.toList ++ ['>']))))
      [.element ⟨tag, [("class", value)]⟩ inner] := by
  intro rest opened before
  have hstart : next? .none ('<' :: (tag.toList ++ " class=\"".toList ++ value.toList ++
      '"' :: '>' :: (content ++ '<' :: '/' :: (tag.toList ++ '>' :: rest)))) =
      some (.start ⟨tag, [("class", value)]⟩,
        content ++ '<' :: '/' :: (tag.toList ++ '>' :: rest)) := by
    rw [next?_classes htag hvalue, String.ofList_toList]
    rfl
  have hspelled : '<' :: (tag.toList ++ " class=\"".toList ++ value.toList ++
      '"' :: '>' :: (content ++ '<' :: '/' :: (tag.toList ++ ['>']))) ++ rest =
      '<' :: (tag.toList ++ " class=\"".toList ++ value.toList ++
        '"' :: '>' :: (content ++ '<' :: '/' :: (tag.toList ++ '>' :: rest))) := by
    simp only [List.cons_append, List.append_assoc, List.nil_append]
  rw [hspelled, build?_of_next? hstart]
  change (pieces? .none _).bind (build? (_ :: opened) []) = _
  rw [hcontent, build?_of_next? (next?_endTag htag rest)]
  refine congrArg _ (funext fun ps => ?_)
  rw [build?, if_pos rfl, List.append_nil, List.reverse_reverse]
  rfl

-- ── Fragments ────────────────────────────────────────────────────────────

section Render

variable {r : Renderer} {hooks : Hooks} (language : String)

mutual

/-- A fragment is read as what it is to be seen as. -/
theorem readAs_renderOne (htag : plainName r.tag = true) (hclass : Unquoted r.tokenClass)
    (hhooks : hooks.wrap = []) :
    ∀ {f : Fragment}, f.Unquoted → ReadAs (r.renderOne hooks language f).toList (r.nodeOf f)
  | .raw text, _ => by
      rw [Renderer.renderOne, Renderer.nodeOf]
      exact readAs_escape text
  | .leaf label text, h => by
      rw [Fragment.Unquoted] at h
      rw [Renderer.toList_renderOne language hhooks rfl, Renderer.nodeOf]
      exact readAs_element htag (unquoted_classes_iff.mpr ⟨hclass, h⟩) (readAs_escape text)
  | .node label inner, h => by
      rw [Fragment.Unquoted] at h
      rw [Renderer.toList_renderOne language hhooks rfl, Renderer.nodeOf]
      exact readAs_element htag (unquoted_classes_iff.mpr ⟨hclass, h.1⟩)
        (readAs_render htag hclass hhooks h.2)

/-- Fragments are read as what they are to be seen as. -/
theorem readAs_render (htag : plainName r.tag = true) (hclass : Unquoted r.tokenClass)
    (hhooks : hooks.wrap = []) :
    ∀ {fs : List Fragment}, Fragment.AllUnquoted fs →
      ReadAs (r.render hooks language fs).toList (r.nodesOf fs)
  | [], _ => by
      rw [Renderer.render, Renderer.nodesOf]
      exact readAs_nil
  | f :: fs, h => by
      rw [Fragment.AllUnquoted] at h
      rw [Renderer.render, Renderer.nodesOf, String.toList_append]
      exact (readAs_renderOne htag hclass hhooks h.1).append (readAs_render htag hclass hhooks h.2)

end

theorem nodes?_of_readAs {html : String} {nodes : List Node} (h : ReadAs html.toList nodes) :
    nodes? html = some nodes := by
  have hall := h [] [] []
  rw [List.append_nil] at hall
  rw [nodes?, hall, List.append_nil]
  change some nodes.reverse.reverse = _
  rw [List.reverse_reverse]

-- ── Without texts ────────────────────────────────────────────────────────

theorem elementsAll_append (ns ms : List Node) :
    elementsAll (ns ++ ms) = elementsAll ns ++ elementsAll ms := by
  induction ns with
  | nil => rw [elementsAll, List.nil_append, List.nil_append]
  | cons n ns ih => rw [List.cons_append, elementsAll, ih, elementsAll, List.append_assoc]

theorem elementsAll_characters (text : String) : elementsAll (characters text) = [] := by
  rw [characters]
  induction (breakable text).toList with
  | nil => rw [List.map_nil, elementsAll]
  | cons c cs ih => rw [List.map_cons, elementsAll, ih, Node.elements, List.append_nil]

mutual

theorem nodeOf_emptied (r : Renderer) : ∀ f : Fragment, r.nodeOf f.emptied = elementsAll (r.nodeOf f)
  | .raw text => by
      rw [Fragment.emptied, Renderer.nodeOf, Renderer.nodeOf, elementsAll_characters]
      rfl
  | .leaf label text => by
      rw [Fragment.emptied, Renderer.nodeOf, Renderer.nodeOf, elementsAll, Node.elements,
        elementsAll_characters, elementsAll]
      rfl
  | .node label inner => by
      rw [Fragment.emptied, Renderer.nodeOf, Renderer.nodeOf, elementsAll, Node.elements,
        nodesOf_emptiedAll r inner, elementsAll]
      rfl

/-- Fragments without texts have the same elements. -/
theorem nodesOf_emptiedAll (r : Renderer) :
    ∀ fs : List Fragment, r.nodesOf (Fragment.emptiedAll fs) = elementsAll (r.nodesOf fs)
  | [] => by
      rw [Fragment.emptiedAll, Renderer.nodesOf, elementsAll]
  | f :: fs => by
      rw [Fragment.emptiedAll, Renderer.nodesOf, Renderer.nodesOf, elementsAll_append,
        nodeOf_emptied r f, nodesOf_emptiedAll r fs]

end

mutual

theorem unquoted_emptied : ∀ {f : Fragment}, f.Unquoted → f.emptied.Unquoted
  | .raw _, _ => by
      rw [Fragment.emptied, Fragment.Unquoted]
      trivial
  | .leaf label _, h => by
      rw [Fragment.Unquoted] at h
      rw [Fragment.emptied, Fragment.Unquoted]
      exact h
  | .node label inner, h => by
      rw [Fragment.Unquoted] at h
      rw [Fragment.emptied, Fragment.Unquoted]
      exact ⟨h.1, unquoted_emptiedAll h.2⟩

theorem unquoted_emptiedAll :
    ∀ {fs : List Fragment}, Fragment.AllUnquoted fs →
      Fragment.AllUnquoted (Fragment.emptiedAll fs)
  | [], h => by
      rw [Fragment.emptiedAll]
      exact h
  | f :: fs, h => by
      rw [Fragment.AllUnquoted] at h
      rw [Fragment.emptiedAll, Fragment.AllUnquoted]
      exact ⟨unquoted_emptied h.1, unquoted_emptiedAll h.2⟩

end

/-- The HTML of fragments is read as the tree of their tokens: an element
    for each, in their order and nested as they are, whose only attribute
    is its classes, around the characters of its text.  Without the tags it
    is the text of the fragments, with blanks for the blanks that do not
    break.  And it has the elements that there are without any text.  Of
    the labels it takes no more than that they have no quotation marks in
    them. -/
theorem nodes?_render (htag : plainName r.tag = true) (hclass : Unquoted r.tokenClass)
    (hhooks : hooks.wrap = []) {fs : List Fragment} (h : Fragment.AllUnquoted fs) :
    nodes? (r.render hooks language fs) = some (r.nodesOf fs) ∧
      readBack (r.render hooks language fs) = breakable (texts fs) ∧
      nodes? (r.render hooks language (Fragment.emptiedAll fs)) =
        some (elementsAll (r.nodesOf fs)) := by
  have hquiet : r.Quiet := ⟨tagPart_of_plainName htag, hclass⟩
  have hhooksQuiet : hooks.Quiet := by
    intro f hf
    rw [hhooks] at hf
    exact absurd hf List.not_mem_nil
  refine ⟨nodes?_of_readAs (readAs_render language htag hclass hhooks h),
    readBack_render language hquiet hhooksQuiet h, ?_⟩
  rw [← nodesOf_emptiedAll]
  exact nodes?_of_readAs (readAs_render language htag hclass hhooks (unquoted_emptiedAll h))

/-- Texts that look like references, tags and values, in and around nested
    tokens. -/
theorem nodes?_render_of_tags :
    let r : Renderer := { tag := "em", tokenClass := "tok" }
    let fs : List Fragment :=
      [.raw "&lt;\xa0\"", .node ⟨"a", ["b"], 5, false⟩ [.leaf ⟨"c", [], 4, false⟩ "</em>", .raw "&"]]
    plainName r.tag = true ∧ Unquoted r.tokenClass ∧ Fragment.AllUnquoted fs ∧
      nodes? (r.render {} "" fs) = some
        (("&lt; \"".toList.map .char) ++
          [.element ⟨"em", [("class", "tok a b")]⟩
            (.element ⟨"em", [("class", "tok c")]⟩ ("</em>".toList.map .char) :: [.char '&'])]) ∧
      readBack (r.render {} "" fs) = "&lt; \"</em>&" := by
  intro r fs
  have htag : plainName r.tag = true := by decide
  have hclass : Unquoted r.tokenClass := by decide
  have hfs : Fragment.AllUnquoted fs := by
    simp only [fs, Fragment.AllUnquoted, Fragment.Unquoted, and_true, true_and]
    exact ⟨⟨by decide, by decide⟩, by decide, by decide⟩
  have hhooks : ({} : Hooks).wrap = [] := rfl
  obtain ⟨hnodes, hread, -⟩ := nodes?_render "" htag hclass hhooks hfs
  exact ⟨htag, hclass, hfs, hnodes, hread.trans (by decide +kernel)⟩

end Render

end Html

end Highlighter
