import Highlighter.Tokenizer.Basic

/-! # Texts that are given up

    As long as patterns find nothing in a text, it stays one raw fragment
    (`applyEntries_of_findsNothing`).  If the search for the next pattern is
    given up then, the text is not tokenized (`tokenize_gaveUp`). -/

namespace Highlighter.Tokenizer

/-- The pattern finds no token in a text, or the search is given up. -/
def FindsNothing (text : String) (p : Pattern) : Prop :=
  find p text.toList.toArray 0 = .ok none ∨
    find p text.toList.toArray 0 = .error (.gaveUp p.regex)

/-- The text is given up. -/
def GivenUp (result : Except Fault (List Fragment)) : Prop :=
  ∃ regex, result = .error (.gaveUp regex)

section Scan

variable {c : Context} {pass : Pass} {text : String}

/-- At the only fragment a pattern searches in this alone. -/
theorem step_raw : pass.step c [] 0 (.raw text) [] = pass.stepAlone c text [] := by
  rw [Pass.step, List.isEmpty_nil, Bool.not_true, Bool.and_false]
  exact if_neg Bool.false_ne_true

theorem room_raw (htext : c.text = text.toList) (hne : text ≠ "") :
    ¬ Text.byteLength c.text < ([] : List Fragment).length + (([] : List Fragment).length + 1) := by
  have hpos : Text.byteLength c.text ≠ 0 := by
    rw [htext, ne_eq, Text.byteLength_eq_zero, String.toList_eq_nil_iff]
    exact hne
  rw [List.length_nil]
  omega

/-- A pattern that finds nothing leaves the text as it is. -/
theorem scan_of_find_none (htext : c.text = text.toList) (hne : text ≠ "")
    (honce : pass.once = false) (hfind : find pass.pattern text.toList.toArray 0 = .ok none)
    (fuel : Nat) : pass.scan c (fuel + 1) [] [.raw text] 0 = .ok [.raw text] := by
  have hstep : pass.step c [] 0 (.raw text) [] = .ok (.more [.raw text] []) := by
    rw [step_raw, Pass.stepAlone, hfind]
    simp only [bind, Except.bind, honce, Bool.false_eq_true, if_false]
  rw [Pass.scan, if_neg (room_raw htext hne), hstep]
  simp only [bind, Except.bind, Pass.scan, List.append_nil]

/-- A search without an answer ends the scan. -/
theorem scan_of_find_error (htext : c.text = text.toList) (hne : text ≠ "") {fault : Fault}
    (hfind : find pass.pattern text.toList.toArray 0 = .error fault) (fuel : Nat) :
    pass.scan c (fuel + 1) [] [.raw text] 0 = .error fault := by
  have hstep : pass.step c [] 0 (.raw text) [] = .error fault := by
    rw [step_raw, Pass.stepAlone, hfind]
    rfl
  rw [Pass.scan, if_neg (room_raw htext hne), hstep]
  rfl

end Scan

section Entries

variable {c : Context} {text : String} {es : List Entry}

/-- Entries that find nothing leave the text as it is, or it is given up. -/
theorem applyEntries_of_findsNothing (htext : c.text = text.toList) (hne : text ≠ "")
    (hes : ∀ e ∈ es, ∀ p ∈ e.patterns, FindsNothing text p) :
    applyEntries c es false [] [.raw text] 0 = .ok [.raw text] ∨
      GivenUp (applyEntries c es false [] [.raw text] 0) := by
  induction es with
  | nil => exact .inl rfl
  | cons e earlier ih =>
      obtain ⟨he, hearlier⟩ := List.forall_mem_cons.mp hes
      rw [applyEntries]
      rcases ih hearlier with hraw | ⟨regex, herror⟩
      · rw [hraw]
        show List.foldlM _ _ _ = _ ∨ GivenUp (List.foldlM _ _ _)
        generalize hps : e.patterns = ps at he
        clear hps
        induction ps with
        | nil => exact .inl rfl
        | cons p ps ihps =>
            obtain ⟨hp, hps⟩ := List.forall_mem_cons.mp he
            rw [List.foldlM_cons]
            rcases hp with hnone | herror
            · rw [scan_of_find_none htext hne rfl hnone]
              exact ihps hps
            · rw [scan_of_find_error htext hne herror]
              exact .inr ⟨p.regex, rfl⟩
      · rw [herror]
        exact .inr ⟨regex, rfl⟩

/-- What is given up stays so. -/
theorem givenUp_append {once : Bool} {before fs : List Fragment} {pos : Nat} (later : List Entry)
    (h : GivenUp (applyEntries c es once before fs pos)) :
    GivenUp (applyEntries c (later ++ es) once before fs pos) := by
  induction later with
  | nil => exact h
  | cons e later ih =>
      obtain ⟨regex, herror⟩ := ih
      rw [List.cons_append, applyEntries, herror]
      exact ⟨regex, rfl⟩

end Entries

/-- A text is given up where the first entries find nothing in it and the
    search for the next pattern is given up. -/
theorem tokenize_gaveUp {gs : List Grammar} {id : GrammarId} {text : String}
    (hne : text ≠ "") {first later : List Entry} {name : String} {p : Pattern} {ps : List Pattern}
    (hes : entries gs id = .ok (first ++ ⟨name, p :: ps⟩ :: later))
    (hfirst : ∀ e ∈ first, ∀ q ∈ e.patterns, FindsNothing text q)
    (hp : find p text.toList.toArray 0 = .error (.gaveUp p.regex)) :
    GivenUp (tokenize gs id text) := by
  have hempty : text.isEmpty = false := by
    rw [← Bool.not_eq_true, String.isEmpty_iff]
    exact hne
  rw [tokenize, tokenizeWithin, tokenizeBy, hempty, if_neg Bool.false_ne_true, hes]
  generalize tokenizeWithin gs _ = nested
  simp only [List.reverse_append, List.reverse_cons, List.append_assoc]
  refine givenUp_append _ ?_
  rw [List.singleton_append, applyEntries]
  have hreverse : ∀ e ∈ first.reverse, ∀ q ∈ e.patterns, FindsNothing text q :=
    fun e he => hfirst e (List.mem_reverse.mp he)
  rcases applyEntries_of_findsNothing (c := .of nested text) rfl hne hreverse with
    hraw | ⟨regex, herror⟩
  · rw [hraw]
    show GivenUp (List.foldlM _ _ _)
    rw [List.foldlM_cons, scan_of_find_error rfl hne hp]
    exact ⟨p.regex, rfl⟩
  · rw [herror]
    exact ⟨regex, rfl⟩

end Highlighter.Tokenizer
