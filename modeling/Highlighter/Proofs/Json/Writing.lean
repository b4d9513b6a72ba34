import Highlighter.Proofs.Json.Spelling

/-! # Ways of writing JSON

    A way of writing is told by what its texts of each form are
    (`Writing`); the compact form and the one over several lines are two
    (`writing_compact`, `writing_pretty`).  What is written in such a way
    spells the value if there is no number in it (`Writing.spells`).

    Trees are values of strings, whole numbers of any size, lists and
    objects.  A reader of JSON that keeps numbers in machine words could
    not give all of them back; `readTree` does, from whatever is written
    (`Writing.reads`). -/

namespace Highlighter.Json

-- ── Ways of writing ──────────────────────────────────────────────────────

/-- A way of writing values: `W v text` says that `text` is written for `v`.
    What is between elements and members, and around colons, is blank. -/
structure Writing (W : Json → List Char → Prop) : Prop where
  null : ∀ {text : List Char}, W .null text → text = ['n', 'u', 'l', 'l']
  yes : ∀ {text : List Char}, W (.bool true) text → text = ['t', 'r', 'u', 'e']
  no : ∀ {text : List Char}, W (.bool false) text → text = ['f', 'a', 'l', 's', 'e']
  string : ∀ {s : String} {text : List Char}, W (.string s) text → text = writeString s
  ofNat : ∀ {n : Nat} {text : List Char}, W (.ofNat n) text → text = Nat.toDigits 10 n
  array : ∀ {vs : List Json} {text : List Char}, W (.array vs) text →
    ∃ inner, Listed W true vs inner ∧ text = '[' :: (inner ++ [']'])
  object : ∀ {ms : List (String × Json)} {text : List Char}, W (.object ms) text →
    ∃ inner, Listed (MemberText W) true ms inner ∧ text = '{' :: (inner ++ ['}'])

section Rows

variable {α : Type} {P Q : α → List Char → Prop} {first : Bool} {a : α} {as : List α}
  {text b : List Char}

/-- The texts in a row may be seen in another way; none of them is longer
    than that of the row. -/
theorem Listed.imp (h : Listed P first as text)
    (himp : ∀ a ∈ as, ∀ t, P a t → t.length ≤ text.length → Q a t) : Listed Q first as text := by
  induction h with
  | nil hb => exact .nil hb
  | cons hb hb₁ ht _ ih =>
      simp only [List.length_append] at himp
      have hhere := himp _ List.mem_cons_self _ ht (by omega)
      refine .cons hb hb₁ hhere (ih fun a ha t ht hlength => ?_)
      exact himp a (List.mem_cons_of_mem _ ha) t ht (by omega)

theorem Listed.imp_member {ms : List (String × α)} (h : Listed (MemberText P) first ms text)
    (himp : ∀ m ∈ ms, ∀ t, P m.2 t → t.length ≤ text.length → Q m.2 t) :
    Listed (MemberText Q) first ms text := by
  refine h.imp fun m hm t ht hlength => ?_
  obtain ⟨b, b₁, t, hb, ht, rfl⟩ := ht
  simp only [List.length_append, List.length_cons] at hlength
  exact ⟨b, b₁, t, hb, himp m hm t ht (by omega), rfl⟩

/-- What comes first in a row comes later behind a comma. -/
theorem Listed.comma (h : Listed P true (a :: as) text) :
    Listed P false (a :: as) (',' :: text) := by
  cases h with
  | @cons _ _ _ b b₁ t ts hb hb₁ ht hts =>
      have hlisted :
          Listed P false (a :: as) ([] ++ (separator false ++ ((b ++ b₁) ++ (t ++ ts)))) :=
        .cons blank_nil (blank_append hb hb₁) ht hts
      rw [List.append_assoc] at hlisted
      exact hlisted

theorem listed_singleton (hb : Blank b) {b₁ : List Char} (hb₁ : Blank b₁) {t : List Char}
    (ht : P a t) : Listed P true [a] (b ++ (t ++ b₁)) :=
  .cons hb blank_nil ht (.nil hb₁)

theorem listed_cons (hb : Blank b) {t ts : List Char} (ht : P a t) {a' : α}
    (hts : Listed P true (a' :: as) ts) : Listed P true (a :: a' :: as) (b ++ (t ++ ',' :: ts)) :=
  .cons hb blank_nil ht hts.comma

end Rows

theorem memberText {P : Json → List Char → Prop} (name : String) {v : Json} {b₁ t : List Char}
    (hb₁ : Blank b₁) (ht : P v t) :
    MemberText P (name, v) (writeString name ++ ':' :: (b₁ ++ t)) :=
  ⟨[], b₁, t, ⟨blank_nil, hb₁⟩, ht, rfl⟩

-- ── The two forms ────────────────────────────────────────────────────────

/-- The compact text of a value. -/
def CompactText (v : Json) (text : List Char) : Prop := text = v.compact

/-- A text of a value over several lines, however far in it stands. -/
def PrettyText (v : Json) (text : List Char) : Prop := ∃ level, text = prettyAt level v

theorem listed_compactElements : ∀ vs : List Json,
    Listed CompactText true vs (compactElements vs)
  | [] => by
      rw [compactElements]
      exact .nil blank_nil
  | [v] => by
      have hlisted : Listed CompactText true [v] (v.compact ++ []) :=
        listed_singleton blank_nil blank_nil rfl
      rw [List.append_nil] at hlisted
      rw [compactElements]
      exact hlisted
  | v :: w :: vs => by
      have hv : CompactText v v.compact := rfl
      rw [compactElements]
      exact listed_cons blank_nil hv (listed_compactElements (w :: vs))

theorem listed_compactMembers : ∀ ms : List (String × Json),
    Listed (MemberText CompactText) true ms (compactMembers ms)
  | [] => by
      rw [compactMembers]
      exact .nil blank_nil
  | [(name, v)] => by
      have hv : CompactText v v.compact := rfl
      have hlisted := listed_singleton blank_nil blank_nil (memberText name blank_nil hv)
      rw [List.append_nil] at hlisted
      rw [compactMembers]
      exact hlisted
  | (name, v) :: m :: ms => by
      have hv : CompactText v v.compact := rfl
      have hlisted := listed_cons blank_nil (memberText name blank_nil hv)
        (listed_compactMembers (m :: ms))
      rw [List.append_assoc] at hlisted
      rw [compactMembers, List.append_assoc]
      exact hlisted

theorem writing_compact : Writing CompactText where
  null h := by rw [h, compact]
  yes h := by rw [h, compact]
  no h := by rw [h, compact]
  string h := by rw [h, compact]
  ofNat {n text} h := by
    rw [h, ofNat, compact]
    exact String.toList_ofList
  array {vs text} h := ⟨_, listed_compactElements vs, by rw [h, compact]; rfl⟩
  object {ms text} h := ⟨_, listed_compactMembers ms, by rw [h, compact]; rfl⟩

theorem listed_prettyElements (level : Nat) {b : List Char} (hb : Blank b) : ∀ vs : List Json,
    Listed PrettyText true vs (prettyElements level vs ++ b)
  | [] => by
      rw [prettyElements]
      exact .nil hb
  | [v] => by
      have hv : PrettyText v (prettyAt level v) := ⟨level, rfl⟩
      rw [prettyElements, List.append_assoc]
      exact listed_singleton (blank_newline level) hb hv
  | v :: w :: vs => by
      have hv : PrettyText v (prettyAt level v) := ⟨level, rfl⟩
      rw [prettyElements, List.append_assoc, List.append_assoc]
      exact listed_cons (blank_newline level) hv (listed_prettyElements level hb (w :: vs))

theorem listed_prettyMembers (level : Nat) {b : List Char} (hb : Blank b) :
    ∀ ms : List (String × Json),
      Listed (MemberText PrettyText) true ms (prettyMembers level ms ++ b)
  | [] => by
      rw [prettyMembers]
      exact .nil hb
  | [(name, v)] => by
      have hv : PrettyText v (prettyAt level v) := ⟨level, rfl⟩
      have hlisted := listed_singleton (blank_newline level) hb
        (memberText name blank_space hv)
      rw [prettyMembers]
      simp only [List.append_assoc, List.cons_append, List.nil_append] at hlisted ⊢
      exact hlisted
  | (name, v) :: m :: ms => by
      have hv : PrettyText v (prettyAt level v) := ⟨level, rfl⟩
      have hlisted := listed_cons (blank_newline level) (memberText name blank_space hv)
        (listed_prettyMembers level hb (m :: ms))
      rw [prettyMembers]
      simp only [List.append_assoc, List.cons_append, List.nil_append] at hlisted ⊢
      exact hlisted

theorem writing_pretty : Writing PrettyText where
  null := by
    rintro text ⟨level, rfl⟩
    rw [prettyAt]
  yes := by
    rintro text ⟨level, rfl⟩
    rw [prettyAt]
  no := by
    rintro text ⟨level, rfl⟩
    rw [prettyAt]
  string := by
    rintro s text ⟨level, rfl⟩
    rw [prettyAt]
  ofNat := by
    rintro n text ⟨level, rfl⟩
    rw [ofNat, prettyAt]
    exact String.toList_ofList
  array := by
    rintro vs text ⟨level, rfl⟩
    cases vs with
    | nil =>
        rw [prettyAt]
        exact ⟨[], .nil blank_nil, rfl⟩
    | cons v vs =>
        rw [prettyAt]
        exact ⟨_, listed_prettyElements (level + 1) (blank_newline level) (v :: vs), rfl⟩
  object := by
    rintro ms text ⟨level, rfl⟩
    cases ms with
    | nil =>
        rw [prettyAt]
        exact ⟨[], .nil blank_nil, rfl⟩
    | cons m ms =>
        rw [prettyAt]
        exact ⟨_, listed_prettyMembers (level + 1) (blank_newline level) (m :: ms), rfl⟩

-- ── Spelling ─────────────────────────────────────────────────────────────

mutual

/-- There is no number in a value, at any depth. -/
def Numberless : Json → Prop
  | .number _ => False
  | .array vs => NumberlessElements vs
  | .object ms => NumberlessMembers ms
  | _ => True

/-- There is no number in elements. -/
def NumberlessElements : List Json → Prop
  | [] => True
  | v :: vs => Numberless v ∧ NumberlessElements vs

/-- There is no number in members. -/
def NumberlessMembers : List (String × Json) → Prop
  | [] => True
  | (_, v) :: ms => Numberless v ∧ NumberlessMembers ms

end

section Spelling

variable {W : Json → List Char → Prop}

mutual

/-- What is written for a value spells it. -/
theorem Writing.spells (hW : Writing W) : ∀ {v : Json} {text : List Char},
    v.Numberless → W v text → Spells v text
  | .null, _, _, h => by
      rw [Spells]
      exact hW.null h
  | .bool true, _, _, h => by
      rw [Spells]
      exact hW.yes h
  | .bool false, _, _, h => by
      rw [Spells]
      exact hW.no h
  | .number _, _, hv, _ => by
      rw [Numberless] at hv
      exact hv.elim
  | .string _, _, _, h => by
      rw [Spells]
      exact hW.string h
  | .array _, _, hv, h => by
      rw [Numberless] at hv
      rw [Spells]
      obtain ⟨inner, hinner, htext⟩ := hW.array h
      exact ⟨inner, hW.spellsElements hv hinner, htext⟩
  | .object _, _, hv, h => by
      rw [Numberless] at hv
      rw [Spells]
      obtain ⟨inner, hinner, htext⟩ := hW.object h
      exact ⟨inner, hW.spellsMembers hv hinner, htext⟩

theorem Writing.spellsElements (hW : Writing W) : ∀ {vs : List Json} {first : Bool}
    {text : List Char}, NumberlessElements vs → Listed W first vs text →
      SpellsElements first vs text
  | [], _, _, _, .nil hb => by
      rw [SpellsElements]
      exact hb
  | _ :: _, _, _, hvs, .cons hb hb₁ ht hts => by
      rw [NumberlessElements] at hvs
      rw [SpellsElements]
      exact ⟨_, _, _, _, ⟨hb, hb₁⟩, hW.spells hvs.1 ht, hW.spellsElements hvs.2 hts, rfl⟩

theorem Writing.spellsMembers (hW : Writing W) : ∀ {ms : List (String × Json)} {first : Bool}
    {text : List Char}, NumberlessMembers ms → Listed (MemberText W) first ms text →
      SpellsMembers first ms text
  | [], _, _, _, .nil hb => by
      rw [SpellsMembers]
      exact hb
  | (_, _) :: _, _, _, hms, .cons hb hb₁ hm hts => by
      rw [NumberlessMembers] at hms
      rw [SpellsMembers]
      obtain ⟨b₂, b₃, _, ⟨hb₂, hb₃⟩, ht, rfl⟩ := hm
      refine ⟨_, _, b₂, b₃, _, _, ⟨hb, hb₁, hb₂, hb₃⟩, hW.spells hms.1 ht,
        hW.spellsMembers hms.2 hts, ?_⟩
      simp only [List.append_assoc, List.cons_append]

end

/-- The compact form is a text of the value. -/
theorem spells_compact {v : Json} (hv : v.Numberless) : Spells v v.compact :=
  writing_compact.spells hv rfl

/-- The form over several lines is a text of the value. -/
theorem spells_prettyAt {v : Json} (level : Nat) (hv : v.Numberless) :
    Spells v (prettyAt level v) :=
  writing_pretty.spells hv ⟨level, rfl⟩

end Spelling

-- ── Trees ────────────────────────────────────────────────────────────────

/-- Reads a whole number of any size. -/
def readWhole : Reader Nat := fun cs =>
  match cs.takeWhile isDigit with
  | [] => .error (.peek .invalidNumber cs)
  | ds => .ok (Nat.ofDigitChars 10 ds 0, cs.dropWhile isDigit)

/-- Reads a tree in which lists and objects nest `depth` deep at most. -/
def readTree (depth : Nat) : Reader Json := fun cs =>
  match trim cs with
  | '"' :: cs => do
      let (s, cs) ← readString cs
      .ok (.string s, cs)
  | '[' :: cs =>
      match depth with
      | 0 => .error (.peek .tooDeep ('[' :: cs))
      | depth + 1 => do
          let (vs, cs) ← elements (readTree depth) (cs.length + 1) true cs
          .ok (.array vs, cs)
  | '{' :: cs =>
      match depth with
      | 0 => .error (.peek .tooDeep ('{' :: cs))
      | depth + 1 => do
          let (ms, cs) ← members (readTree depth) (cs.length + 1) true cs
          .ok (.object ms, cs)
  | cs => do
      let (n, cs) ← readWhole cs
      .ok (.ofNat n, cs)

/-- A value that is such a tree. -/
inductive IsTree : Json → Prop where
  | string (s : String) : IsTree (.string s)
  | ofNat (n : Nat) : IsTree (.ofNat n)
  | array {vs : List Json} : (∀ v ∈ vs, IsTree v) → IsTree (.array vs)
  | object {ms : List (String × Json)} : (∀ m ∈ ms, IsTree m.2) → IsTree (.object ms)

-- ── Numbers ──────────────────────────────────────────────────────────────

theorem isDigit_of_mem_toDigits {c : Char} {n : Nat} (h : c ∈ Nat.toDigits 10 n) :
    isDigit c = true := by
  have hdigit := Nat.isDigit_of_mem_toDigits (by decide) (by decide) h
  rw [Char.isDigit, Bool.and_eq_true, decide_eq_true_eq, decide_eq_true_eq] at hdigit
  rw [isDigit, Bool.and_eq_true, decide_eq_true_eq, decide_eq_true_eq]
  exact hdigit

theorem takeWhile_isDigit {cs : List Char} (h : Ends cs) : cs.takeWhile isDigit = [] := by
  cases cs with
  | nil => rfl
  | cons c cs => rw [List.takeWhile_cons_of_neg (by rw [h c rfl]; exact Bool.false_ne_true)]

theorem dropWhile_isDigit {cs : List Char} (h : Ends cs) : cs.dropWhile isDigit = cs := by
  cases cs with
  | nil => rfl
  | cons c cs => rw [List.dropWhile_cons_of_neg (by rw [h c rfl]; exact Bool.false_ne_true)]

/-- The digits of a number are read as that number. -/
theorem readWhole_toDigits (n : Nat) {rest : List Char} (hrest : Ends rest) :
    readWhole (Nat.toDigits 10 n ++ rest) = .ok (n, rest) := by
  have hdigits : ∀ c ∈ Nat.toDigits 10 n, isDigit c = true := fun c => isDigit_of_mem_toDigits
  rw [readWhole, List.takeWhile_append_of_pos hdigits, List.dropWhile_append_of_pos hdigits,
    takeWhile_isDigit hrest, dropWhile_isDigit hrest, List.append_nil]
  split
  · next h => exact absurd h Nat.toDigits_ne_nil
  · rw [Nat.ofDigitChars_toDigits (by decide) (by decide)]

-- ── Reading back ─────────────────────────────────────────────────────────

theorem reads_string {depth : Nat} (s : String) :
    Reads (readTree depth) (.string s) (writeString s) where
  head := ⟨_, _, rfl, rfl, by decide⟩
  read b rest hb _ := by
    rw [writeString_append, readTree, trim_blank_cons hb rfl]
    change (do
      let read ← readString (s.toList.flatMap writeChar ++ '"' :: rest)
      .ok (Json.string read.1, read.2)) = _
    rw [readString_writeString]
    rfl

theorem reads_ofNat {depth : Nat} (n : Nat) :
    Reads (readTree depth) (.ofNat n) (Nat.toDigits 10 n) := by
  obtain ⟨c, cs, hcs⟩ := List.exists_cons_of_ne_nil (Nat.toDigits_ne_nil (b := 10) (n := n))
  have hdigit : isDigit c = true := isDigit_of_mem_toDigits (hcs ▸ List.mem_cons_self)
  have hblank : isBlank c = false := by
    rw [Bool.eq_false_iff]
    exact fun h => Bool.false_ne_true ((isDigit_of_isBlank h).symm.trans hdigit)
  refine ⟨⟨c, cs, hcs, hblank, ?_⟩, fun b rest hb hrest => ?_⟩
  · rintro rfl
    exact Bool.false_ne_true hdigit
  · have hread := readWhole_toDigits n hrest
    rw [hcs] at hread ⊢
    rw [readTree, List.cons_append, trim_blank_cons hb hblank]
    split
    · next h =>
        obtain ⟨rfl, -⟩ := List.cons.inj h
        exact absurd hdigit Bool.false_ne_true
    · next h =>
        obtain ⟨rfl, -⟩ := List.cons.inj h
        exact absurd hdigit Bool.false_ne_true
    · next h =>
        obtain ⟨rfl, -⟩ := List.cons.inj h
        exact absurd hdigit Bool.false_ne_true
    · rw [List.cons_append] at hread
      rw [hread]
      rfl

/-- A tree is read from the text that is written for it, which bounds how
    deep it nests. -/
theorem Writing.reads {W : Json → List Char → Prop} (hW : Writing W) {depth : Nat} :
    ∀ {v : Json} {text : List Char}, IsTree v → W v text → text.length ≤ depth →
      Reads (readTree depth) v text := by
  induction depth with
  | zero =>
      intro v text hv h hlength
      cases hv with
      | string s => exact hW.string h ▸ reads_string s
      | ofNat n => exact hW.ofNat h ▸ reads_ofNat n
      | array hvs =>
          obtain ⟨inner, -, rfl⟩ := hW.array h
          exact absurd hlength (by simp)
      | object hms =>
          obtain ⟨inner, -, rfl⟩ := hW.object h
          exact absurd hlength (by simp)
  | succ depth ih =>
      intro v text hv h hlength
      cases hv with
      | string s => exact hW.string h ▸ reads_string s
      | ofNat n => exact hW.ofNat h ▸ reads_ofNat n
      | @array vs hvs =>
          obtain ⟨inner, hinner, rfl⟩ := hW.array h
          simp only [List.length_append, List.length_cons] at hlength
          have hread := hinner.imp fun v hv t ht hle =>
            ih (hvs v hv) ht (by omega)
          refine ⟨⟨_, _, rfl, rfl, by decide⟩, fun b rest hb _ => ?_⟩
          rw [List.cons_append, List.append_assoc, List.singleton_append, readTree,
            trim_blank_cons hb rfl]
          change (do
            let vs ← elements (readTree depth) _ true (inner ++ ']' :: rest)
            .ok (Json.array vs.1, vs.2)) = _
          rw [hread.elements (by rw [List.length_append]; omega)]
          rfl
      | @object ms hms =>
          obtain ⟨inner, hinner, rfl⟩ := hW.object h
          simp only [List.length_append, List.length_cons] at hlength
          have hread := hinner.imp_member fun m hm t ht hle =>
            ih (hms m hm) ht (by omega)
          refine ⟨⟨_, _, rfl, rfl, by decide⟩, fun b rest hb _ => ?_⟩
          rw [List.cons_append, List.append_assoc, List.singleton_append, readTree,
            trim_blank_cons hb rfl]
          change (do
            let ms ← members (readTree depth) _ true (inner ++ '}' :: rest)
            .ok (Json.object ms.1, ms.2)) = _
          rw [hread.members (by rw [List.length_append]; omega)]
          rfl

end Highlighter.Json
