import Highlighter.Fragment
import Highlighter.Text.Bytes

/-! # Fragments that conserve a text

    Fragments conserve a text when their source texts in a row are that
    text, no raw fragment among them is empty, and every token is exactly
    as long as the text it stands for, which is a byte at least.  What is
    inside of a token has to conserve the text of the token in turn.

    The source text of a token with fragments inside is by definition that
    of the fragments; so at every depth it is enough to ask of each
    fragment that it is `Whole`.  Fragments that are whole can be counted
    in bytes: `lengths` is the byte length of their text, and there are no
    more of them than bytes. -/

namespace Highlighter.Fragment

open Text (byteLength)

mutual

/-- Raw text is not empty; a token has the length of its source text, at
    least a byte, and is whole inside. -/
def Whole : Fragment → Prop
  | .raw text => text ≠ ""
  | .leaf label text => 1 ≤ label.length ∧ label.length = text.utf8ByteSize
  | .node label inner =>
      1 ≤ label.length ∧ label.length = (texts inner).utf8ByteSize ∧ AllWhole inner

/-- Fragments of which each is whole. -/
def AllWhole : List Fragment → Prop
  | [] => True
  | f :: fs => f.Whole ∧ AllWhole fs

end

/-- Fragments that stand for a text and for nothing else. -/
def Conserved (text : String) (fs : List Fragment) : Prop :=
  texts fs = text ∧ AllWhole fs

@[simp] theorem allWhole_nil : AllWhole [] := by rw [AllWhole]; trivial

@[simp] theorem allWhole_cons {f : Fragment} {fs : List Fragment} :
    AllWhole (f :: fs) ↔ f.Whole ∧ AllWhole fs := by rw [AllWhole]

@[simp] theorem allWhole_append {fs gs : List Fragment} :
    AllWhole (fs ++ gs) ↔ AllWhole fs ∧ AllWhole gs := by
  induction fs with
  | nil => simp
  | cons f fs ih => rw [List.cons_append, allWhole_cons, allWhole_cons, ih, and_assoc]

@[simp] theorem allWhole_reverse {fs : List Fragment} : AllWhole fs.reverse ↔ AllWhole fs := by
  induction fs with
  | nil => rfl
  | cons f fs ih =>
      rw [List.reverse_cons, allWhole_append, ih]
      simp [and_comm]

@[simp] theorem lengths_reverse (fs : List Fragment) : lengths fs.reverse = lengths fs := by
  induction fs with
  | nil => rfl
  | cons f fs ih =>
      rw [List.reverse_cons, lengths_append, ih]
      simp [Nat.add_comm]

-- ── Counting bytes ───────────────────────────────────────────────────────

theorem Whole.length_eq {f : Fragment} (h : f.Whole) : f.length = byteLength f.text.toList := by
  rw [Text.byteLength_toList]
  cases f with
  | raw text => rfl
  | leaf label text => rw [Whole] at h; exact h.2
  | node label inner => rw [Whole] at h; exact h.2.1

theorem Whole.length_pos {f : Fragment} (h : f.Whole) : 1 ≤ f.length := by
  cases f with
  | raw text =>
      rw [Whole] at h
      have hne : text.utf8ByteSize ≠ 0 := fun h0 => h (String.utf8ByteSize_eq_zero_iff.mp h0)
      exact Nat.pos_of_ne_zero hne
  | leaf label text => rw [Whole] at h; exact h.1
  | node label inner => rw [Whole] at h; exact h.1

/-- Fragments that are whole are as long as their text. -/
theorem AllWhole.lengths_eq {fs : List Fragment} (h : AllWhole fs) :
    lengths fs = byteLength (texts fs).toList := by
  induction fs with
  | nil => rfl
  | cons f fs ih =>
      obtain ⟨hf, hfs⟩ := allWhole_cons.mp h
      rw [lengths_cons, texts_cons, String.toList_append, Text.byteLength_append, ih hfs,
        hf.length_eq]

/-- There are no more fragments than bytes. -/
theorem AllWhole.length_le {fs : List Fragment} (h : AllWhole fs) : fs.length ≤ lengths fs := by
  induction fs with
  | nil => exact Nat.zero_le _
  | cons f fs ih =>
      obtain ⟨hf, hfs⟩ := allWhole_cons.mp h
      have hpos := hf.length_pos
      have hrest := ih hfs
      rw [List.length_cons, lengths_cons]
      omega

end Highlighter.Fragment
