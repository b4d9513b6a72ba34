import Highlighter.Json.Reader
import Highlighter.Json.Writer
import Mathlib.Tactic.IntervalCases

/-! # Texts of JSON values

    A value has many texts, for blanks may stand around every bracket,
    comma and colon.  `Spells v text` says that `text` is one of them.  It
    is told from a value alone, with strings as they are written, and knows
    nothing of reading; numbers have no texts here.

    Each reader takes back what is spelled, whatever follows: names and
    colons, elements and members when they are read one at a time
    (`Listed.elements`, `Listed.members`), and a whole value when it does
    not nest too deep (`readValue_spells`). -/

namespace Highlighter.Json

-- ── Texts ────────────────────────────────────────────────────────────────

/-- Nothing but blanks. -/
def Blank (cs : List Char) : Prop := ∀ c ∈ cs, isBlank c = true

instance (cs : List Char) : Decidable (Blank cs) := List.decidableBAll _ cs

/-- What stands in front of an element or a member. -/
def separator (first : Bool) : List Char := if first then [] else [',']

mutual

/-- A text is one of a value, without blanks around it. -/
def Spells : Json → List Char → Prop
  | .null, text => text = ['n', 'u', 'l', 'l']
  | .bool true, text => text = ['t', 'r', 'u', 'e']
  | .bool false, text => text = ['f', 'a', 'l', 's', 'e']
  | .number _, _ => False
  | .string s, text => text = writeString s
  | .array vs, text => ∃ inner, SpellsElements true vs inner ∧ text = '[' :: (inner ++ [']'])
  | .object ms, text => ∃ inner, SpellsMembers true ms inner ∧ text = '{' :: (inner ++ ['}'])

/-- A text is one of elements, up to the bracket. -/
def SpellsElements : (first : Bool) → List Json → List Char → Prop
  | _, [], text => Blank text
  | first, v :: vs, text =>
      ∃ b b₁ t ts, (Blank b ∧ Blank b₁) ∧ Spells v t ∧ SpellsElements false vs ts ∧
        text = b ++ (separator first ++ (b₁ ++ (t ++ ts)))

/-- A text is one of members, up to the bracket. -/
def SpellsMembers : (first : Bool) → List (String × Json) → List Char → Prop
  | _, [], text => Blank text
  | first, (name, v) :: ms, text =>
      ∃ b b₁ b₂ b₃ t ts, (Blank b ∧ Blank b₁ ∧ Blank b₂ ∧ Blank b₃) ∧ Spells v t ∧
        SpellsMembers false ms ts ∧
        text = b ++ (separator first ++ (b₁ ++ (writeString name ++ (b₂ ++ (':' ::
          (b₃ ++ (t ++ ts)))))))

end

mutual

/-- How deep lists and objects nest in a value. -/
def depth : Json → Nat
  | .array vs => elementsDepth vs + 1
  | .object ms => membersDepth ms + 1
  | _ => 0

/-- How deep lists and objects nest in elements. -/
def elementsDepth : List Json → Nat
  | [] => 0
  | v :: vs => max v.depth (elementsDepth vs)

/-- How deep lists and objects nest in members. -/
def membersDepth : List (String × Json) → Nat
  | [] => 0
  | (_, v) :: ms => max v.depth (membersDepth ms)

end

theorem blank_nil : Blank [] := nofun

theorem depth_le_elementsDepth {vs : List Json} : ∀ v ∈ vs, v.depth ≤ elementsDepth vs := by
  induction vs with
  | nil => exact nofun
  | cons w vs ih =>
      rw [elementsDepth, List.forall_mem_cons]
      exact ⟨Nat.le_max_left _ _, fun v hv => (ih v hv).trans (Nat.le_max_right _ _)⟩

theorem depth_le_membersDepth {ms : List (String × Json)} :
    ∀ m ∈ ms, m.2.depth ≤ membersDepth ms := by
  induction ms with
  | nil => exact nofun
  | cons w ms ih =>
      rw [membersDepth, List.forall_mem_cons]
      exact ⟨Nat.le_max_left _ _, fun m hm => (ih m hm).trans (Nat.le_max_right _ _)⟩

-- ── Blanks ───────────────────────────────────────────────────────────────

theorem trim_blank {b : List Char} (hb : Blank b) (cs : List Char) : trim (b ++ cs) = trim cs :=
  List.dropWhile_append_of_pos hb

theorem trim_cons {c : Char} (hc : isBlank c = false) (cs : List Char) :
    trim (c :: cs) = c :: cs :=
  List.dropWhile_cons_of_neg (by simp [hc])

theorem trim_blank_cons {b : List Char} (hb : Blank b) {c : Char} (hc : isBlank c = false)
    (cs : List Char) : trim (b ++ c :: cs) = c :: cs := by
  rw [trim_blank hb, trim_cons hc]

/-- A text of a value starts with a character that is no blank and ends
    nothing. -/
theorem Spells.head {v : Json} {text : List Char} (h : Spells v text) :
    ∃ c cs, text = c :: cs ∧ isBlank c = false ∧ c ≠ ']' := by
  cases v with
  | null =>
      rw [Spells] at h
      exact ⟨_, _, h, rfl, by decide⟩
  | bool b =>
      cases b <;> rw [Spells] at h <;> exact ⟨_, _, h, rfl, by decide⟩
  | number n =>
      rw [Spells] at h
      exact h.elim
  | string s =>
      rw [Spells] at h
      exact ⟨_, _, h, rfl, by decide⟩
  | array vs =>
      rw [Spells] at h
      obtain ⟨inner, -, h⟩ := h
      exact ⟨_, _, h, rfl, by decide⟩
  | object ms =>
      rw [Spells] at h
      obtain ⟨inner, -, h⟩ := h
      exact ⟨_, _, h, rfl, by decide⟩

theorem blank_append {b b₁ : List Char} (hb : Blank b) (hb₁ : Blank b₁) : Blank (b ++ b₁) :=
  List.forall_mem_append.mpr ⟨hb, hb₁⟩

theorem blank_space : Blank [' '] := by decide

theorem blank_newline (level : Nat) : Blank (newline level) := by
  intro c hc
  rcases List.mem_cons.mp hc with rfl | hc
  · rfl
  · rw [(List.mem_replicate.mp hc).2]
    rfl

-- ── Strings ──────────────────────────────────────────────────────────────

/-- Four digits of a control character are read as what they say. -/
theorem hex4?_control {n : Nat} (h : n < 0x20) :
    hex4? '0' '0' (hexDigit (n / 16)) (hexDigit n) = some n := by
  interval_cases n <;> rfl

theorem readUnicode_control {n : Nat} (h : n < 0x20) (cs : List Char) :
    readUnicode ('0' :: '0' :: hexDigit (n / 16) :: hexDigit n :: cs) = .ok (Char.ofNat n, cs) := by
  have htrailing : isTrailing n = false := by
    rw [isTrailing, Bool.and_eq_false_imp]
    exact fun h' => absurd (of_decide_eq_true h') (by omega)
  have hleading : isLeading n = false := by
    rw [isLeading, Bool.and_eq_false_imp]
    exact fun h' => absurd (of_decide_eq_true h') (by omega)
  have hhex : hex4 ('0' :: '0' :: hexDigit (n / 16) :: hexDigit n :: cs) = .ok (n, cs) := by
    rw [hex4, hex4?_control h]
  rw [readUnicode, hhex]
  change (if isTrailing n = true then _ else if isLeading n = true then _ else _) = _
  rw [htrailing, hleading]
  rfl

/-- A character that is written is read, and then what follows it. -/
theorem readChars_writeChar (fuel : Nat) (c : Char) (cs : List Char) :
    readChars (fuel + 1) (writeChar c ++ cs) =
      (do
        let (s, cs) ← readChars fuel cs
        .ok (c :: s, cs)) := by
  unfold writeChar
  split
  iterate 7 rfl
  · next hquote hbackslash _ _ _ _ _ =>
      split
      · next hlt =>
          have hread := readUnicode_control hlt cs
          rw [Char.ofNat_toNat] at hread
          change (do
            let d ← readUnicode ('0' :: '0' :: hexDigit (c.toNat / 16) :: hexDigit c.toNat :: cs)
            let s ← readChars fuel d.2
            .ok (d.1 :: s.1, s.2)) = _
          rw [hread]
          rfl
      · next hle =>
          rw [List.singleton_append, readChars, if_neg hquote, if_neg hbackslash, if_neg hle]

/-- A string that is written is read. -/
theorem readChars_writeString (s rest : List Char) : ∀ fuel, s.length < fuel →
    readChars fuel (s.flatMap writeChar ++ '"' :: rest) = .ok (s, rest) := by
  induction s with
  | nil =>
      intro fuel hfuel
      obtain ⟨fuel, rfl⟩ := Nat.exists_eq_add_of_lt hfuel
      rfl
  | cons c s ih =>
      intro fuel hfuel
      cases fuel with
      | zero => exact absurd hfuel (Nat.not_lt_zero _)
      | succ fuel =>
          rw [List.flatMap_cons, List.append_assoc, readChars_writeChar,
            ih fuel (Nat.lt_of_succ_lt_succ hfuel)]
          rfl

theorem length_le_flatMap_writeChar (s : List Char) :
    s.length ≤ (s.flatMap writeChar).length := by
  induction s with
  | nil => exact Nat.le_refl 0
  | cons c s ih =>
      have hc : 1 ≤ (writeChar c).length := by
        unfold writeChar
        split
        iterate 7 decide
        · split
          · exact Nat.le_add_left 1 5
          · exact Nat.le_refl 1
      rw [List.flatMap_cons, List.length_append, List.length_cons]
      omega

theorem readString_writeString (s : String) (rest : List Char) :
    readString (s.toList.flatMap writeChar ++ '"' :: rest) = .ok (s, rest) := by
  have hlength := length_le_flatMap_writeChar s.toList
  rw [readString, readChars_writeString s.toList rest _ (by rw [List.length_append]; omega)]
  exact congrArg (fun s => Except.ok (s, rest)) String.ofList_toList

/-- What is written, but for the quote in front. -/
theorem writeString_append (s : String) (rest : List Char) :
    writeString s ++ rest = '"' :: (s.toList.flatMap writeChar ++ '"' :: rest) := by
  rw [writeString, List.append_assoc]
  rfl

-- ── Readers ──────────────────────────────────────────────────────────────

section Readers

variable {b b₁ : List Char} {first : Bool}

theorem nextElement_next (hb : Blank b) (hb₁ : Blank b₁) {c : Char} (hc : isBlank c = false)
    (hend : c ≠ ']') (cs : List Char) :
    nextElement first (b ++ (separator first ++ (b₁ ++ c :: cs))) = .ok (true, c :: cs) := by
  have hnext : trim (b₁ ++ c :: cs) = c :: cs := trim_blank_cons hb₁ hc cs
  cases first with
  | true =>
      have htrim : trim (b ++ (separator true ++ (b₁ ++ c :: cs))) = c :: cs := by
        rw [trim_blank hb]
        exact hnext
      rw [nextElement, htrim]
      split
      · next h => cases h
      · next h => exact absurd (List.cons.inj h).1 hend
      · next h => rw [if_pos rfl, h]
  | false =>
      have htrim : trim (b ++ (separator false ++ (b₁ ++ c :: cs))) = ',' :: (b₁ ++ c :: cs) :=
        trim_blank_cons hb rfl _
      rw [nextElement, htrim]
      split
      · next h => cases h
      · next h => exact absurd (List.cons.inj h).1 (by decide)
      · next h =>
          obtain ⟨rfl, rfl⟩ := List.cons.inj h
          rw [if_neg Bool.false_ne_true, if_pos rfl, hnext]
          split
          · next h => cases h
          · next h => exact absurd (List.cons.inj h).1 hend
          · rfl

theorem nextElement_end (hb : Blank b) (cs : List Char) :
    nextElement first (b ++ ']' :: cs) = .ok (false, ']' :: cs) := by
  rw [nextElement, trim_blank_cons hb rfl]
  rfl

theorem nextName_next (hb : Blank b) (hb₁ : Blank b₁) (name : String) (cs : List Char) :
    nextName first (b ++ (separator first ++ (b₁ ++ (writeString name ++ cs)))) =
      .ok (some name, cs) := by
  have hname : nextName.name (writeString name ++ cs) = .ok (some name, cs) := by
    rw [writeString_append, nextName.name, readString_writeString]
    rfl
  have hnext : trim (b₁ ++ (writeString name ++ cs)) = writeString name ++ cs := by
    rw [writeString_append]
    exact trim_blank_cons hb₁ rfl _
  cases first with
  | true =>
      have htrim : trim (b ++ (separator true ++ (b₁ ++ (writeString name ++ cs)))) =
          writeString name ++ cs := by
        rw [trim_blank hb]
        exact hnext
      rw [nextName, htrim]
      rw [writeString_append] at hname ⊢
      exact hname
  | false =>
      have htrim : trim (b ++ (separator false ++ (b₁ ++ (writeString name ++ cs)))) =
          ',' :: (b₁ ++ (writeString name ++ cs)) :=
        trim_blank_cons hb rfl _
      rw [nextName, htrim]
      split
      · next h => cases h
      · next h => exact absurd (List.cons.inj h).1 (by decide)
      · next h =>
          obtain ⟨rfl, rfl⟩ := List.cons.inj h
          rw [if_neg Bool.false_ne_true, if_pos rfl, hnext]
          rw [writeString_append] at hname ⊢
          exact hname

theorem nextName_end (hb : Blank b) (cs : List Char) :
    nextName first (b ++ '}' :: cs) = .ok (none, '}' :: cs) := by
  rw [nextName, trim_blank_cons hb rfl]
  rfl

theorem colon_next (hb : Blank b) (cs : List Char) : colon (b ++ ':' :: cs) = .ok cs := by
  rw [colon, trim_blank_cons hb rfl]
  rfl

/-- Nothing that a number could go on with. -/
def Ends (cs : List Char) : Prop := ∀ c ∈ cs.head?, isDigit c = false

/-- A reader takes `a` off the front of a text, blanks in front or not,
    whatever follows that does not go on with a number. -/
structure Reads {α : Type} (item : Reader α) (a : α) (text : List Char) : Prop where
  head : ∃ c cs, text = c :: cs ∧ isBlank c = false ∧ c ≠ ']'
  read : ∀ b rest, Blank b → Ends rest → item (b ++ (text ++ rest)) = .ok (a, rest)

/-- A text of things in a row with commas between them and blanks around
    them, up to the bracket; `P` says what the text of each is. -/
inductive Listed {α : Type} (P : α → List Char → Prop) : Bool → List α → List Char → Prop where
  | nil {first : Bool} {b : List Char} : Blank b → Listed P first [] b
  | cons {first : Bool} {a : α} {as : List α} {b b₁ t ts : List Char} :
      Blank b → Blank b₁ → P a t → Listed P false as ts →
      Listed P first (a :: as) (b ++ (separator first ++ (b₁ ++ (t ++ ts))))

/-- The text of a member: its name, a colon and the text of its value. -/
def MemberText {α : Type} (P : α → List Char → Prop) (m : String × α) (text : List Char) : Prop :=
  ∃ b b₁ t, (Blank b ∧ Blank b₁) ∧ P m.2 t ∧ text = writeString m.1 ++ (b ++ ':' :: (b₁ ++ t))

theorem ends_cons {c : Char} (hc : isDigit c = false) (cs : List Char) : Ends (c :: cs) := by
  intro d hd
  obtain rfl : c = d := Option.some.inj hd
  exact hc

theorem isDigit_of_isBlank {c : Char} (hc : isBlank c = true) : isDigit c = false := by
  simp only [isBlank, Bool.or_eq_true, beq_iff_eq] at hc
  rcases hc with ((rfl | rfl) | rfl) | rfl <;> rfl

theorem ends_of_blank {b : List Char} (hb : Blank b) : Ends b :=
  fun c hc => isDigit_of_isBlank (hb c (List.mem_of_mem_head? hc))

theorem ends_append {b : List Char} (hb : Blank b) {c : Char} (hc : isDigit c = false)
    (cs : List Char) : Ends (b ++ c :: cs) := by
  cases b with
  | nil => exact ends_cons hc cs
  | cons d b => exact ends_cons (isDigit_of_isBlank (hb d List.mem_cons_self)) _

/-- What comes later in a row begins with a blank or a comma, so that no
    number goes on with it. -/
theorem Listed.ends {α : Type} {P : α → List Char → Prop} {as : List α} {text : List Char}
    (h : Listed P false as text) {c : Char} (hc : isDigit c = false) (rest : List Char) :
    Ends (text ++ c :: rest) := by
  cases h with
  | nil hb => exact ends_append hb hc rest
  | cons hb =>
      rw [List.append_assoc]
      exact ends_append hb rfl _

/-- Elements are read when a reader reads each of them. -/
theorem Listed.elements {α : Type} {item : Reader α} {first : Bool} {as : List α}
    {text : List Char} (h : Listed (Reads item) first as text) :
    ∀ {fuel : Nat}, text.length < fuel → ∀ rest,
      elements item fuel first (text ++ ']' :: rest) = .ok (as, rest) := by
  induction h with
  | nil hb =>
      intro fuel hfuel rest
      obtain ⟨fuel, rfl⟩ := Nat.exists_eq_add_of_lt hfuel
      rw [Json.elements, nextElement_end hb]
      rfl
  | @cons first a as b b₁ t ts hb hb₁ ht hts ih =>
      intro fuel hfuel rest
      cases fuel with
      | zero => exact absurd hfuel (Nat.not_lt_zero _)
      | succ fuel =>
          obtain ⟨c, cs, rfl, hc, hend⟩ := ht.head
          have hlength : ts.length < fuel := by
            simp only [List.length_append, List.length_cons] at hfuel
            omega
          have hread := ht.read [] (ts ++ ']' :: rest) blank_nil (hts.ends rfl rest)
          simp only [List.append_assoc, List.cons_append, List.nil_append] at hread ⊢
          rw [Json.elements, nextElement_next hb hb₁ hc hend]
          change (do
            let v ← item (c :: (cs ++ (ts ++ ']' :: rest)))
            let vs ← Json.elements item fuel false v.2
            .ok (v.1 :: vs.1, vs.2)) = _
          rw [hread]
          change (do
            let vs ← Json.elements item fuel false (ts ++ ']' :: rest)
            .ok (a :: vs.1, vs.2)) = _
          rw [ih hlength rest]
          rfl

/-- Members are read when a reader reads the value of each of them. -/
theorem Listed.members {α : Type} {item : Reader α} {first : Bool} {ms : List (String × α)}
    {text : List Char} (h : Listed (MemberText (Reads item)) first ms text) :
    ∀ {fuel : Nat}, text.length < fuel → ∀ rest,
      members item fuel first (text ++ '}' :: rest) = .ok (ms, rest) := by
  induction h with
  | nil hb =>
      intro fuel hfuel rest
      obtain ⟨fuel, rfl⟩ := Nat.exists_eq_add_of_lt hfuel
      rw [Json.members, nextName_end hb]
      rfl
  | @cons first m ms b b₁ t ts hb hb₁ ht hts ih =>
      intro fuel hfuel rest
      obtain ⟨name, a⟩ := m
      obtain ⟨b₂, b₃, v, ⟨hb₂, hb₃⟩, hv, rfl⟩ := ht
      cases fuel with
      | zero => exact absurd hfuel (Nat.not_lt_zero _)
      | succ fuel =>
          have hlength : ts.length < fuel := by
            simp only [List.length_append, List.length_cons] at hfuel
            omega
          have hread := hv.read b₃ (ts ++ '}' :: rest) hb₃ (hts.ends rfl rest)
          simp only [List.append_assoc, List.cons_append]
          rw [Json.members, nextName_next hb hb₁]
          change (do
            let cs ← colon (b₂ ++ ':' :: (b₃ ++ (v ++ (ts ++ '}' :: rest))))
            let v ← item cs
            let vs ← Json.members item fuel false v.2
            .ok ((name, v.1) :: vs.1, vs.2)) = _
          rw [colon_next hb₂]
          change (do
            let v ← item (b₃ ++ (v ++ (ts ++ '}' :: rest)))
            let vs ← Json.members item fuel false v.2
            .ok ((name, v.1) :: vs.1, vs.2)) = _
          rw [hread]
          change (do
            let vs ← Json.members item fuel false (ts ++ '}' :: rest)
            .ok ((name, a) :: vs.1, vs.2)) = _
          rw [ih hlength rest]
          rfl

/-- Elements are read when a reader reads each of them, blanks in front or
    not. -/
theorem elements_spells {α : Type} {item : Reader α} {g : Json → α} {vs : List Json}
    {first : Bool} {text : List Char} {fuel : Nat} (h : SpellsElements first vs text)
    (hitem : ∀ v ∈ vs, ∀ b t rest, Blank b → Spells v t → item (b ++ (t ++ rest)) = .ok (g v, rest))
    (hfuel : text.length < fuel) (rest : List Char) :
    elements item fuel first (text ++ ']' :: rest) = .ok (vs.map g, rest) := by
  suffices hlisted : Listed (Reads item) first (vs.map g) text from hlisted.elements hfuel rest
  clear hfuel
  induction vs generalizing first text with
  | nil =>
      rw [SpellsElements] at h
      exact .nil h
  | cons v vs ih =>
      rw [SpellsElements] at h
      obtain ⟨b, b₁, t, ts, ⟨hb, hb₁⟩, ht, hts, rfl⟩ := h
      obtain ⟨hv, hvs⟩ := List.forall_mem_cons.mp hitem
      exact .cons hb hb₁ ⟨ht.head, fun b rest hb _ => hv b t rest hb ht⟩ (ih hts hvs)

/-- Members are read when a reader reads the value of each of them. -/
theorem members_spells {α : Type} {item : Reader α} {g : Json → α} {ms : List (String × Json)}
    {first : Bool} {text : List Char} {fuel : Nat} (h : SpellsMembers first ms text)
    (hitem : ∀ m ∈ ms, ∀ b t rest, Blank b → Spells m.2 t →
      item (b ++ (t ++ rest)) = .ok (g m.2, rest))
    (hfuel : text.length < fuel) (rest : List Char) :
    members item fuel first (text ++ '}' :: rest) =
      .ok (ms.map fun m => (m.1, g m.2), rest) := by
  suffices hlisted : Listed (MemberText (Reads item)) first (ms.map fun m => (m.1, g m.2)) text from
    hlisted.members hfuel rest
  clear hfuel
  induction ms generalizing first text with
  | nil =>
      rw [SpellsMembers] at h
      exact .nil h
  | cons m ms ih =>
      obtain ⟨name, v⟩ := m
      rw [SpellsMembers] at h
      obtain ⟨b, b₁, b₂, b₃, t, ts, ⟨hb, hb₁, hb₂, hb₃⟩, ht, hts, rfl⟩ := h
      obtain ⟨hv, hms⟩ := List.forall_mem_cons.mp hitem
      have hread : Reads item (g v) t := ⟨ht.head, fun b rest hb _ => hv b t rest hb ht⟩
      have hmember : MemberText (Reads item) (name, g v)
          (writeString name ++ (b₂ ++ ':' :: (b₃ ++ t))) := ⟨b₂, b₃, t, ⟨hb₂, hb₃⟩, hread, rfl⟩
      have hlisted : Listed (MemberText (Reads item)) first _ _ := .cons hb hb₁ hmember (ih hts hms)
      simp only [List.append_assoc, List.cons_append] at hlisted
      exact hlisted

/-- A value that does not nest too deep is read from each of its texts. -/
theorem readValue_spells {depth : Nat} : ∀ {v : Json} {text : List Char}, Spells v text →
    v.depth ≤ depth → ∀ b rest, Blank b → readValue depth (b ++ (text ++ rest)) = .ok (v, rest) := by
  induction depth using Nat.strong_induction_on with
  | _ depth ih =>
      intro v text h hdepth b rest hb
      cases v with
      | null =>
          rw [Spells] at h
          rw [h, readValue, List.cons_append, trim_blank_cons hb rfl]
          rfl
      | bool value =>
          cases value <;> rw [Spells] at h <;>
            rw [h, readValue, List.cons_append, trim_blank_cons hb rfl] <;> rfl
      | number n =>
          rw [Spells] at h
          exact h.elim
      | string s =>
          rw [Spells] at h
          rw [h, writeString_append, readValue, trim_blank_cons hb rfl]
          change (do
            let read ← readString (s.toList.flatMap writeChar ++ '"' :: rest)
            .ok (Json.string read.1, read.2)) = _
          rw [readString_writeString]
          rfl
      | array vs =>
          rw [Spells] at h
          obtain ⟨inner, hinner, rfl⟩ := h
          rw [Json.depth] at hdepth
          obtain ⟨depth, rfl⟩ := Nat.exists_eq_add_of_le' (Nat.le_of_add_left_le hdepth)
          have hitem : ∀ v ∈ vs, ∀ b t rest, Blank b → Spells v t →
              readValue depth (b ++ (t ++ rest)) = .ok (id v, rest) := fun v hv b t rest hb ht =>
            ih depth (Nat.lt_succ_self _) ht
              ((depth_le_elementsDepth v hv).trans (Nat.le_of_succ_le_succ hdepth)) b rest hb
          have hlength : inner.length < (inner ++ ']' :: rest).length + 1 := by
            rw [List.length_append]
            omega
          rw [List.cons_append, List.append_assoc, List.singleton_append, readValue,
            trim_blank_cons hb rfl]
          change (do
            let vs ← elements (readValue depth) _ true (inner ++ ']' :: rest)
            .ok (Json.array vs.1, vs.2)) = _
          rw [elements_spells hinner hitem hlength, List.map_id]
          rfl
      | object ms =>
          rw [Spells] at h
          obtain ⟨inner, hinner, rfl⟩ := h
          rw [Json.depth] at hdepth
          obtain ⟨depth, rfl⟩ := Nat.exists_eq_add_of_le' (Nat.le_of_add_left_le hdepth)
          have hitem : ∀ m ∈ ms, ∀ b t rest, Blank b → Spells m.2 t →
              readValue depth (b ++ (t ++ rest)) = .ok (id m.2, rest) := fun m hm b t rest hb ht =>
            ih depth (Nat.lt_succ_self _) ht
              ((depth_le_membersDepth m hm).trans (Nat.le_of_succ_le_succ hdepth)) b rest hb
          have hlength : inner.length < (inner ++ '}' :: rest).length + 1 := by
            rw [List.length_append]
            omega
          rw [List.cons_append, List.append_assoc, List.singleton_append, readValue,
            trim_blank_cons hb rfl]
          change (do
            let ms ← members (readValue depth) _ true (inner ++ '}' :: rest)
            .ok (Json.object ms.1, ms.2)) = _
          rw [members_spells hinner hitem hlength]
          exact congrArg (fun ms => Except.ok (Json.object ms, rest)) (List.map_id ms)

theorem stringValue_spells {s : String} {text b : List Char} (hb : Blank b)
    (h : Spells (.string s) text) (rest : List Char) :
    stringValue (b ++ (text ++ rest)) = .ok (s, rest) := by
  rw [Spells] at h
  rw [h, writeString_append, stringValue, trim_blank_cons hb rfl]
  exact readString_writeString s rest

/-- The text of a string; other values have none. -/
def textOf : Json → String
  | .string s => s
  | _ => ""

theorem stringValues_spells {ss : List String} {text b : List Char} (hb : Blank b)
    (h : Spells (.array (ss.map .string)) text) (rest : List Char) :
    stringValues (b ++ (text ++ rest)) = .ok (ss, rest) := by
  rw [Spells] at h
  obtain ⟨inner, hinner, rfl⟩ := h
  have hitem : ∀ v ∈ ss.map Json.string, ∀ b t rest, Blank b → Spells v t →
      stringValue (b ++ (t ++ rest)) = .ok (textOf v, rest) := by
    intro v hv b t rest hb ht
    obtain ⟨s, -, rfl⟩ := List.mem_map.mp hv
    exact stringValue_spells hb ht rest
  have hlength : inner.length < (inner ++ ']' :: rest).length + 1 := by
    rw [List.length_append]
    omega
  have htexts : (ss.map Json.string).map textOf = ss := by
    rw [List.map_map]
    exact List.map_id ss
  rw [List.cons_append, List.append_assoc, List.singleton_append, stringValues,
    trim_blank_cons hb rfl]
  exact (elements_spells hinner hitem hlength rest).trans (by rw [htexts])

end Readers

end Highlighter.Json
