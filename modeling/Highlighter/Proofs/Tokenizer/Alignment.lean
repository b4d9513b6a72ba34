import Highlighter.Proofs.Fragment.Conservation
import Highlighter.Proofs.Regex.Finding
import Highlighter.Tokenizer.Scan

/-! # Aligned scans

    A scan knows where it is in two ways: by the fragments it has and by
    the offset it keeps.  `Aligned` says that the two agree: the fragments
    in front and behind make up the text, all of them are whole, and the
    offset is the length of those in front.  Then a slice of the text
    between two offsets is the text of the fragments between them, which
    is what a token is cut from.

    The steps of a scan may fail, but never for having more fragments than
    bytes: a `Sound` result is one that has a property or fails in another
    way. -/

namespace Highlighter.Tokenizer

open Fragment (AllWhole Conserved texts lengths)
open Text (byteLength slice?)

variable {α β : Type}

-- ── Sound results ────────────────────────────────────────────────────────

/-- A result with a property, or a fault that is not one of too many
    fragments. -/
def Sound (P : α → Prop) : Except Fault α → Prop
  | .ok a => P a
  | .error e => e ≠ .overfull

theorem Sound.bind {P : α → Prop} {Q : β → Prop} {r : Except Fault α} {f : α → Except Fault β}
    (hr : Sound P r) (hf : ∀ a, P a → Sound Q (f a)) : Sound Q (r >>= f) := by
  cases r with
  | error e => exact hr
  | ok a => exact hf a hr

theorem Sound.mono {P Q : α → Prop} {r : Except Fault α} (hr : Sound P r)
    (h : ∀ a, P a → Q a) : Sound Q r := by
  cases r with
  | error e => exact hr
  | ok a => exact h a hr

theorem Sound.of_ok {P : α → Prop} {r : Except Fault α} (hr : Sound P r) {a : α}
    (h : r = .ok a) : P a := by
  subst h
  exact hr

/-- A fold keeps what each of its steps keeps. -/
theorem Sound.foldlM {P : β → Prop} {f : β → α → Except Fault β} {as : List α}
    (hf : ∀ b, P b → ∀ a ∈ as, Sound P (f b a)) {b : β} (hb : P b) :
    Sound P (as.foldlM f b) := by
  induction as generalizing b with
  | nil => exact hb
  | cons a as ih =>
      rw [List.foldlM_cons]
      refine (hf b hb a (List.mem_cons_self)).bind fun b' hb' => ?_
      exact ih (fun b hb a ha => hf b hb a (List.mem_cons_of_mem _ ha)) hb'

/-- A fold over other states goes along with a fold, if its steps do so on
    what the steps keep. -/
theorem Sound.foldlM_map {γ : Type} {P : β → Prop} {h : β → γ} {f : β → α → Except Fault β}
    {g : γ → α → Except Fault γ} {as : List α}
    (hfg : ∀ b, P b → ∀ a ∈ as, g (h b) a = (f b a).map h ∧ Sound P (f b a)) {b : β} (hb : P b) :
    as.foldlM g (h b) = (as.foldlM f b).map h := by
  induction as generalizing b with
  | nil => rfl
  | cons a as ih =>
      obtain ⟨heq, hsound⟩ := hfg b hb a List.mem_cons_self
      rw [List.foldlM_cons, List.foldlM_cons, heq]
      cases hstep : f b a with
      | error e => rfl
      | ok b' =>
          exact ih (fun b hb a ha => hfg b hb a (List.mem_cons_of_mem _ ha)) (hsound.of_ok hstep)

-- ── Alignment ────────────────────────────────────────────────────────────

/-- Fragments with the same text as others, all of them whole. -/
def Keeps (fs gs : List Fragment) : Prop := texts gs = texts fs ∧ AllWhole gs

/-- The fragments behind a place may be replaced in turn. -/
theorem Keeps.append {fs gs rest hs : List Fragment} (h : Keeps fs (gs ++ rest))
    (hk : Keeps rest hs) : Keeps fs (gs ++ hs) := by
  refine ⟨?_, ?_⟩
  · rw [Fragment.texts_append, hk.1, ← Fragment.texts_append]
    exact h.1
  · exact Fragment.allWhole_append.mpr ⟨(Fragment.allWhole_append.mp h.2).1, hk.2⟩

/-- What a scan works on: the fragments before a place in reverse, those
    from there on and the offset of the place, which agree on the text. -/
structure Aligned (text : List Char) (before fs : List Fragment) (pos : Nat) : Prop where
  text_eq : (texts before.reverse).toList ++ (texts fs).toList = text
  pos_eq : pos = lengths before
  before_whole : AllWhole before
  whole : AllWhole fs

/-- The offset counts the bytes of the text in front. -/
theorem Aligned.pos_eq_byteLength {text : List Char} {before fs : List Fragment} {pos : Nat}
    (h : Aligned text before fs pos) : pos = byteLength (texts before.reverse).toList := by
  rw [h.pos_eq, ← Fragment.lengths_reverse]
  exact (Fragment.allWhole_reverse.mpr h.before_whole).lengths_eq

/-- Other fragments for the same text take the place of those behind. -/
theorem Aligned.keeps {text : List Char} {before fs gs : List Fragment} {pos : Nat}
    (h : Aligned text before fs pos) (hk : Keeps fs gs) : Aligned text before gs pos :=
  ⟨by rw [hk.1]; exact h.text_eq, h.pos_eq, h.before_whole, hk.2⟩

/-- The place moves behind fragments by their length. -/
theorem Aligned.advance {text : List Char} {before fs gs : List Fragment} {pos : Nat}
    (h : Aligned text before (fs ++ gs) pos) :
    Aligned text (fs.reverse ++ before) gs (pos + lengths fs) := by
  obtain ⟨hfs, hgs⟩ := Fragment.allWhole_append.mp h.whole
  refine ⟨?_, ?_, ?_, hgs⟩
  · rw [← h.text_eq]
    simp
  · rw [h.pos_eq, Fragment.lengths_append, Fragment.lengths_reverse, Nat.add_comm]
  · exact Fragment.allWhole_append.mpr ⟨Fragment.allWhole_reverse.mpr hfs, h.before_whole⟩

/-- The bytes between two offsets are the text of the fragments there. -/
theorem Aligned.slice?_eq {text : List Char} {before fs gs : List Fragment} {pos : Nat}
    (h : Aligned text before (fs ++ gs) pos) :
    slice? text pos (pos + lengths fs) = some (texts fs).toList := by
  obtain ⟨hfs, -⟩ := Fragment.allWhole_append.mp h.whole
  refine Text.slice?_eq_some_iff.mpr
    ⟨(texts before.reverse).toList, (texts gs).toList, ?_, h.pos_eq_byteLength.symm, ?_⟩
  · rw [← h.text_eq]
    simp
  · rw [← h.pos_eq_byteLength, hfs.lengths_eq]

/-- A fragment of an aligned scan is a part of the text. -/
theorem Aligned.part {text : List Char} {before rest : List Fragment} {f : Fragment} {pos : Nat}
    (h : Aligned text before (f :: rest) pos) : f.text.toList <:+: text := by
  refine ⟨(texts before.reverse).toList, (texts rest).toList, ?_⟩
  rw [← h.text_eq]
  simp

/-- There are never more fragments than bytes. -/
theorem Aligned.length_le {text : List Char} {before fs : List Fragment} {pos : Nat}
    (h : Aligned text before fs pos) : before.length + fs.length ≤ byteLength text := by
  have hb := h.before_whole.length_le
  have hf := h.whole.length_le
  rw [← h.pos_eq, h.pos_eq_byteLength] at hb
  rw [h.whole.lengths_eq] at hf
  rw [← h.text_eq, Text.byteLength_append]
  exact Nat.add_le_add hb hf

-- ── Cutting out a token ──────────────────────────────────────────────────

/-- A token that is found is not empty. -/
theorem find_sound (p : Pattern) (text : Regex.Haystack) (start : Nat) :
    Sound (fun found => ∀ span, found = some span → span.start < span.stop)
      (find p text start) := by
  rw [find]
  cases hfind : p.regex.find text start p.lookbehind with
  | error e =>
      cases e with
      | unreadable error => exact nofun
      | gaveUp => exact nofun
      | endless => exact nofun
  | ok found =>
      rintro span rfl
      exact (Regex.bounds_of_find hfind).2.1

theorem slice_sound (text : List Char) (start stop : Nat) :
    Sound (fun cs => slice? text start stop = some cs) (slice text start stop) := by
  rw [slice]
  cases h : slice? text start stop with
  | none => exact fun h => nomatch h
  | some cs => exact rfl

/-- A raw fragment has the text it was made for. -/
theorem rawFragment?_keeps (cs : List Char) :
    texts (rawFragment? cs) = String.ofList cs ∧ AllWhole (rawFragment? cs) := by
  cases cs with
  | nil => exact ⟨rfl, Fragment.allWhole_nil⟩
  | cons c cs =>
      refine ⟨by simp [rawFragment?, Fragment.text], ?_⟩
      simp [rawFragment?, Fragment.Whole]

/-- A token stands for what it has matched. -/
theorem token_sound {c : Context} {name : String} {p : Pattern} {matched : List Char}
    (hc : ∀ id text, Sound (Conserved text) (c.nested id text)) (hm : matched ≠ []) :
    Sound (fun t => t.Whole ∧ t.text = String.ofList matched) (token c name p matched) := by
  have hpos : 1 ≤ byteLength matched :=
    Nat.pos_of_ne_zero fun h => hm (Text.byteLength_eq_zero.mp h)
  rw [token]
  cases p.inside with
  | none =>
      refine ⟨?_, by rw [Fragment.text]⟩
      rw [Fragment.Whole]
      exact ⟨hpos, (Text.utf8ByteSize_ofList matched).symm⟩
  | some id =>
      refine (hc id (String.ofList matched)).bind fun inner hi => ?_
      refine ⟨?_, by rw [Fragment.text]; exact hi.1⟩
      rw [Fragment.Whole, hi.1]
      exact ⟨hpos, (Text.utf8ByteSize_ofList matched).symm, hi.2⟩

/-- What is cut has the text it was cut from. -/
theorem cut_sound {c : Context} {name : String} {p : Pattern} {text piece : List Char}
    {start stop : Nat} {span : Regex.Span}
    (hc : ∀ id text, Sound (Conserved text) (c.nested id text))
    (hpiece : slice? text start stop = some piece) (hspan : span.start < span.stop) :
    Sound (fun k => Conserved (String.ofList piece) (k.before ++ k.token :: k.after))
      (cut c name p text start span stop) := by
  rw [cut]
  refine (slice_sound text span.start span.stop).bind fun matched hmatched => ?_
  refine (slice_sound text start span.start).bind fun before hbefore => ?_
  have hne : matched ≠ [] := by
    rintro rfl
    obtain ⟨a, b, -, hstart, hstop⟩ := Text.append_of_slice? hmatched
    rw [Text.byteLength_nil] at hstop
    omega
  refine (token_sound hc hne).bind fun t ht => ?_
  refine (slice_sound text span.stop stop).bind fun after hafter => ?_
  have hall := Text.slice?_append_slice? (Text.slice?_append_slice? hbefore hmatched) hafter
  obtain rfl : piece = before ++ matched ++ after := Option.some.inj (hpiece.symm.trans hall)
  obtain ⟨hb, hbw⟩ := rawFragment?_keeps before
  obtain ⟨ha, haw⟩ := rawFragment?_keeps after
  refine ⟨?_, ?_⟩
  · rw [Fragment.texts_append, Fragment.texts_cons, hb, ht.2, ha, String.ofList_append,
      String.ofList_append, String.append_assoc]
  · exact Fragment.allWhole_append.mpr ⟨hbw, Fragment.allWhole_cons.mpr ⟨ht.1, haw⟩⟩

end Highlighter.Tokenizer
