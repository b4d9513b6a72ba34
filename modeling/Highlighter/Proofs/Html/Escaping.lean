import Highlighter.Html
import Highlighter.Text.Bytes

/-! # Escaping

    Text is escaped character by character, so escaping is the same whether
    a text is escaped at once or in parts.  How raw text is split into raw
    fragments, in a row or inside of tokens, therefore makes no difference
    to the HTML (`Resplit`).

    A writer need not go character by character.  Content can be copied in
    slices, each from behind one character that is replaced to the next one
    (`escapeSlices?`); an attribute value can be split at its quotation
    marks and its parts be joined again (`escapeParts`).  Slices are cut by
    byte offsets, where the characters that are replaced are one byte long
    or two.  No slice cuts a character, none is lost or written twice, and
    both ways give what escaping character by character does
    (`escaping_charwise`). -/

namespace Highlighter

open Text (byteLength slice?)

-- ── Slices between characters that are replaced ──────────────────────────

namespace Html

/-- What takes the place of a character of content, if anything does. -/
def replacement? : Char → Option String
  | '&' => some "&amp;"
  | '<' => some "&lt;"
  | '\xa0' => some " "
  | _ => none

/-- Writes the characters of a text from the offset `pos` on, and in front
    of them what has not been copied yet, which begins at the offset
    `last`.  There is no result if a slice cuts a character. -/
def escapeFrom? (text : List Char) : (last pos : Nat) → List Char → Option (List Char)
  | last, _, [] => if last < byteLength text then slice? text last (byteLength text) else some []
  | last, pos, c :: cs =>
      let next := pos + c.utf8Size
      match replacement? c with
      | none => escapeFrom? text last next cs
      | some new => do
          let copied ← slice? text last pos
          let rest ← escapeFrom? text next next cs
          some (copied ++ new.toList ++ rest)

/-- A text as content, copied in slices. -/
def escapeSlices? (s : String) : Option String :=
  (escapeFrom? s.toList 0 0 s.toList).map String.ofList

theorem escapeChar_eq_replacement (c : Char) :
    escapeChar c = (replacement? c).elim [c] String.toList := by
  unfold escapeChar
  split
  · rfl
  · rfl
  · rfl
  · next hamp hless hblank =>
      rw [replacement?]
      · rfl
      · exact hamp
      · exact hless
      · exact hblank

/-- What has not been copied is a stretch in front of `pos` that begins at
    `last`; it is written as it is, and what follows character by
    character. -/
theorem escapeFrom?_eq (copied stretch cs : List Char) :
    escapeFrom? (copied ++ stretch ++ cs) (byteLength copied) (byteLength (copied ++ stretch)) cs
      = some (stretch ++ cs.flatMap escapeChar) := by
  induction cs generalizing copied stretch with
  | nil =>
      rw [escapeFrom?, List.flatMap_nil, List.append_nil, List.append_nil]
      by_cases hlt : byteLength copied < byteLength (copied ++ stretch)
      · have hslice := Text.slice?_append copied stretch []
        rw [List.append_nil, ← Text.byteLength_append] at hslice
        rw [if_pos hlt, hslice]
      · -- nothing is left to be copied
        rw [Text.byteLength_append] at hlt
        obtain rfl := Text.byteLength_eq_zero.mp (show byteLength stretch = 0 by omega)
        rw [if_neg (by simp)]
  | cons c cs ih =>
      have hnext : byteLength (copied ++ stretch) + c.utf8Size
          = byteLength (copied ++ stretch ++ [c]) := by
        rw [Text.byteLength_append _ [c], Text.byteLength_cons, Text.byteLength_nil, Nat.add_zero]
      rw [escapeFrom?, List.flatMap_cons, escapeChar_eq_replacement, hnext]
      cases replacement? c with
      | none =>
          have hrest := ih copied (stretch ++ [c])
          simp only [List.append_assoc, List.singleton_append] at hrest ⊢
          exact hrest
      | some new =>
          have hslice := Text.slice?_append copied stretch (c :: cs)
          have hrest := ih (copied ++ stretch ++ [c]) []
          simp only [List.append_nil, List.append_assoc, List.singleton_append,
            Text.byteLength_append, List.nil_append] at hslice hrest ⊢
          rw [hslice, hrest]
          simp

theorem escapeSlices?_eq (s : String) : escapeSlices? s = some (escape s) := by
  rw [escapeSlices?, show escapeFrom? s.toList 0 0 s.toList = _ from escapeFrom?_eq [] [] s.toList]
  rfl

theorem escape_append (s t : String) : escape (s ++ t) = escape s ++ escape t := by
  rw [escape, String.toList_append, List.flatMap_append, String.ofList_append]
  rfl

-- ── Parts between quotation marks ────────────────────────────────────────

/-- Writes the parts of a text with `&quot;` in front of each but the one
    with the index 0. -/
def writeParts : (index : Nat) → List (List Char) → List Char
  | _, [] => []
  | index, part :: parts =>
      (if 0 < index then "&quot;".toList else []) ++ part ++ writeParts (index + 1) parts

/-- A text as the value of an attribute, split at its quotation marks. -/
def escapeParts (s : String) : String := String.ofList (writeParts 0 (s.toList.splitOn '"'))

/-- Behind the first part the index does not matter. -/
theorem writeParts_succ (i j : Nat) (parts : List (List Char)) :
    writeParts (i + 1) parts = writeParts (j + 1) parts := by
  induction parts generalizing i j with
  | nil => rfl
  | cons part parts ih =>
      rw [writeParts, writeParts, if_pos (Nat.succ_pos i), if_pos (Nat.succ_pos j),
        ih (i + 1) (j + 1)]

/-- What is split at quotation marks is written with a reference for each. -/
theorem writeParts_splitOn (cs : List Char) :
    writeParts 0 (cs.splitOn '"') = cs.flatMap escapeAttributeChar := by
  induction cs with
  | nil => rfl
  | cons c cs ih =>
      obtain ⟨part, parts, hparts⟩ := List.exists_cons_of_ne_nil (List.splitOn_ne_nil '"' cs)
      rw [hparts] at ih
      rw [List.splitOn_eq_splitOnP] at hparts
      rw [List.splitOn_eq_splitOnP, List.splitOnP_cons_eq_if_modifyHead, hparts,
        List.flatMap_cons, ← ih]
      by_cases hquote : c = '"'
      · subst hquote
        rw [if_pos (beq_self_eq_true _)]
        simp only [writeParts, writeParts_succ 1 0, Nat.lt_irrefl, if_false, Nat.zero_lt_one,
          if_true, Nat.zero_add, List.nil_append, List.append_assoc]
        rfl
      · have hchar : escapeAttributeChar c = [c] := by
          rw [escapeAttributeChar]
          exact hquote
        rw [if_neg (by simpa using hquote), List.modifyHead_cons, hchar]
        rfl

theorem escapeParts_eq (s : String) : escapeParts s = escapeAttribute s := by
  rw [escapeParts, writeParts_splitOn]
  rfl

/-- No reference has a quotation mark. -/
theorem quote_not_mem_escapeAttributeChar (c : Char) : '"' ∉ escapeAttributeChar c := by
  unfold escapeAttributeChar
  split
  · decide
  · next hquote => exact fun h => hquote (List.mem_singleton.mp h).symm

end Html

-- ── Raw text in several fragments ────────────────────────────────────────

namespace Fragment

/-- Fragments that differ in how raw text is split into raw fragments, in a
    row or inside of tokens. -/
inductive Resplit : List Fragment → List Fragment → Prop where
  | split (a b : String) (fs : List Fragment) :
      Resplit (.raw (a ++ b) :: fs) (.raw a :: .raw b :: fs)
  | behind (f : Fragment) {fs gs : List Fragment} (h : Resplit fs gs) : Resplit (f :: fs) (f :: gs)
  | inside (label : Label) {inner inner' : List Fragment} (fs : List Fragment)
      (h : Resplit inner inner') : Resplit (.node label inner :: fs) (.node label inner' :: fs)
  | refl (fs : List Fragment) : Resplit fs fs
  | symm {fs gs : List Fragment} (h : Resplit fs gs) : Resplit gs fs
  | trans {fs gs hs : List Fragment} (h : Resplit fs gs) (h' : Resplit gs hs) : Resplit fs hs

theorem Resplit.texts_eq {fs gs : List Fragment} (h : Resplit fs gs) : texts fs = texts gs := by
  induction h with
  | split a b fs => simp [text, String.append_assoc]
  | behind f h ih => rw [texts_cons, texts_cons, ih]
  | inside label fs h ih => rw [texts_cons, texts_cons, text, text, ih]
  | refl fs => rfl
  | symm h ih => exact ih.symm
  | trans h h' ih ih' => exact ih.trans ih'

end Fragment

namespace Html

/-- Splitting raw text otherwise does not change the HTML, nor what hooks
    see of the tokens around it. -/
theorem render_resplit (r : Renderer) (hooks : Hooks) (language : String) {fs gs : List Fragment}
    (h : Fragment.Resplit fs gs) : r.render hooks language fs = r.render hooks language gs := by
  induction h with
  | split a b fs =>
      simp only [Renderer.render, Renderer.renderOne, escape_append, String.append_assoc]
  | behind f h ih => rw [Renderer.render, Renderer.render, ih]
  | inside label fs h ih =>
      rw [Renderer.render, Renderer.render, Renderer.renderOne, Renderer.renderOne, ih, h.texts_eq]
  | refl fs => rfl
  | symm h ih => exact ih.symm
  | trans h h' ih ih' => exact ih.trans ih'

-- ── Escaping ─────────────────────────────────────────────────────────────

/-- Content is written character by character: an ampersand and a less-than
    sign as references, a no-break space as a blank, all else as it is; so
    it is when it is copied in slices, none of which fails.  Escaping goes
    along with concatenation, and the HTML of fragments does not depend on
    how raw text is split.  An attribute value has a reference in the place
    of every quotation mark, and is the same otherwise; so there is no
    quotation mark in it. -/
theorem escaping_charwise :
    (∀ s, escapeSlices? s = some (escape s) ∧
      escape s = String.ofList (s.toList.flatMap fun c =>
        if c = '&' then "&amp;".toList else if c = '<' then "&lt;".toList
        else if c = '\xa0' then " ".toList else [c])) ∧
    (∀ s t, escape (s ++ t) = escape s ++ escape t) ∧
    (∀ (r : Renderer) hooks language fs gs, Fragment.Resplit fs gs →
      r.render hooks language fs = r.render hooks language gs) ∧
    ∀ s, escapeParts s = escapeAttribute s ∧
      escapeAttribute s = String.ofList (s.toList.flatMap fun c =>
        if c = '"' then "&quot;".toList else [c]) ∧
      '"' ∉ (escapeAttribute s).toList := by
  refine ⟨fun s => ⟨escapeSlices?_eq s, ?_⟩, escape_append,
    fun r hooks language fs gs h => render_resplit r hooks language h,
    fun s => ⟨escapeParts_eq s, ?_, fun hquote => ?_⟩⟩
  · rw [escape]
    congr 2
    funext c
    unfold escapeChar
    split
    · rfl
    · rfl
    · rfl
    · next hamp hless hblank => rw [if_neg hamp, if_neg hless, if_neg hblank]
  · rw [escapeAttribute]
    congr 2
    funext c
    unfold escapeAttributeChar
    split
    · rfl
    · next hquote => rw [if_neg hquote]
  · rw [escapeAttribute, String.toList_ofList] at hquote
    obtain ⟨c, -, hc⟩ := List.mem_flatMap.mp hquote
    exact quote_not_mem_escapeAttributeChar c hc

/-- Raw text in two parts inside of a token, and a no-break space between
    characters that are replaced. -/
theorem escaping_charwise_nested :
    let label : Label := ⟨"tag", ["markup"], 7, false⟩
    let whole : List Fragment := [.node label [.raw "<&\xa0é"]]
    let parts : List Fragment := [.node label [.raw "<&", .raw "\xa0é"]]
    Fragment.Resplit whole parts ∧
      ({} : Renderer).render {} "html" parts
        = "<span class=\"token tag markup\">&lt;&amp; é</span>" ∧
      ({} : Renderer).render {} "html" whole = ({} : Renderer).render {} "html" parts ∧
      escapeSlices? "<&\xa0é" = some "&lt;&amp; é" ∧
      escapeParts "\"é\"" = "&quot;é&quot;" := by
  intro label whole parts
  have hsplit : Fragment.Resplit whole parts := .inside label [] (.split "<&" "\xa0é" [])
  obtain ⟨hcontent, -, hrender, hattribute⟩ := escaping_charwise
  refine ⟨hsplit, ?_, hrender {} {} "html" whole parts hsplit, ?_, ?_⟩
  · rfl
  · rw [(hcontent _).1]
    rfl
  · rw [(hattribute _).1]
    rfl

end Html

end Highlighter
