import Highlighter.Proofs.Regex.ClassLiteral

/-! # The elements of regex literals

    A regex literal is cut from left to right into escapes, classes and
    single characters.  A class reaches from its bracket to the next closing
    bracket that is not escaped, or to the end if there is none; `[]` and
    `[^]` are closed classes with nothing in them.  Elements carry what keeps
    them apart, so that a source is cut in one way only
    (`Lexing.eq_of_source_eq`).

    Expansion is a single pass that knows no more than whether it is in a
    class.  It does to a source what `Lexing.expanded` does to each of its
    elements, and between any two of them it is in a class exactly when they
    are (`expand_elementwise`). -/

namespace Highlighter.Regex

/-- Rows of codewords can be read back if what follows them does not begin
    with a codeword. -/
theorem flatMap_append_inj {α β : Type} {f : α → List β} (Stop : List β → Prop)
    (hcode : ∀ a b x y, f a ++ x = f b ++ y → a = b ∧ x = y)
    (hstop : ∀ a x, ¬ Stop (f a ++ x)) {as bs : List α} {x y : List β} (hx : Stop x) (hy : Stop y)
    (h : as.flatMap f ++ x = bs.flatMap f ++ y) : as = bs ∧ x = y := by
  induction as generalizing bs with
  | nil =>
      cases bs with
      | nil => exact ⟨rfl, h⟩
      | cons b bs =>
          rw [List.flatMap_nil, List.nil_append, List.flatMap_cons, List.append_assoc] at h
          exact absurd (h ▸ hx) (hstop b _)
  | cons a as ih =>
      rw [List.flatMap_cons, List.append_assoc] at h
      cases bs with
      | nil =>
          rw [List.flatMap_nil, List.nil_append] at h
          exact absurd (h ▸ hy) (hstop a _)
      | cons b bs =>
          rw [List.flatMap_cons, List.append_assoc] at h
          obtain ⟨rfl, hrest⟩ := hcode a b _ _ h
          obtain ⟨rfl, rfl⟩ := ih hrest
          exact ⟨rfl, rfl⟩

namespace Literal

variable {flags : Flags}

/-- A row is expanded along its parts if each of them is expanded on its own
    and leaves expansion where it was. -/
theorem expandFrom_flatMap {α : Type} {inClass : Bool} {source expanded : α → List Char}
    (h : ∀ a cs, Dialect.expandFrom flags inClass (source a ++ cs)
      = expanded a ++ Dialect.expandFrom flags inClass cs) (as : List α) (cs : List Char) :
    Dialect.expandFrom flags inClass (as.flatMap source ++ cs)
      = as.flatMap expanded ++ Dialect.expandFrom flags inClass cs := by
  induction as with
  | nil => rfl
  | cons a as ih =>
      rw [List.flatMap_cons, List.append_assoc, h, ih, List.flatMap_cons, List.append_assoc]

-- ── Characters ───────────────────────────────────────────────────────────

/-- The bracket that is not a character of its own, in a class or outside. -/
def bracket : Bool → Char
  | true => ']'
  | false => '['

/-- A character in a class or outside, as it is or behind a backslash. -/
inductive Atom (inClass : Bool) where
  | plain (c : Char) (ordinary : c ≠ '\\' ∧ c ≠ bracket inClass)
  | escape (c : Char)
deriving DecidableEq, Repr

namespace Atom

variable {inClass : Bool}

/-- How a character is written. -/
def source : Atom inClass → List Char
  | plain c _ => [c]
  | escape c => ['\\', c]

/-- What a character is expanded to. -/
def expanded (flags : Flags) : {inClass : Bool} → Atom inClass → List Char
  | false, plain c _ => if c = '$' ∧ flags.multiline = false then ['\\', 'z'] else [c]
  | true, plain c _ => if c = '[' then ['\\', '['] else [c]
  | inClass, escape c => Dialect.escape inClass c

/-- What the engine would read differently. -/
def Rewritten (flags : Flags) : {inClass : Bool} → Atom inClass → Prop
  | false, plain c _ => c = '$' ∧ flags.multiline = false
  | true, plain c _ => c = '['
  | false, escape c => c ∈ ['w', 'W', 'd', 'D', 'b', 'B']
  | true, escape c => c ∈ ['w', 'W', 'd', 'D']

/-- Everything else is copied. -/
theorem expanded_eq_source (a : Atom inClass) (h : ¬ a.Rewritten flags) :
    a.expanded flags = a.source := by
  cases inClass <;> cases a
  case false.plain c ordinary => exact if_neg h
  case true.plain c ordinary => exact if_neg h
  case false.escape c =>
      have h : c ∉ ['w', 'W', 'd', 'D', 'b', 'B'] := h
      show Dialect.escape false c = ['\\', c]
      unfold Dialect.escape
      split <;> first | rfl | exact absurd (by decide) h
  case true.escape c =>
      have h : c ∉ ['w', 'W', 'd', 'D'] := h
      show Dialect.escape true c = ['\\', c]
      unfold Dialect.escape
      split <;> first | rfl | exact absurd (by decide) h

theorem append_inj (a b : Atom inClass) (x y : List Char) (h : a.source ++ x = b.source ++ y) :
    a = b ∧ x = y := by
  cases a with
  | plain c hc =>
      cases b with
      | plain d hd =>
          obtain ⟨rfl, rfl⟩ := List.cons.inj h
          exact ⟨rfl, rfl⟩
      | escape d => exact absurd (List.cons.inj h).1 hc.1
  | escape c =>
      cases b with
      | plain d hd => exact absurd (List.cons.inj h).1.symm hd.1
      | escape d =>
          obtain ⟨rfl, rfl⟩ := List.cons.inj (List.cons.inj h).2
          exact ⟨rfl, rfl⟩

theorem expandFrom (a : Atom inClass) (cs : List Char) :
    Dialect.expandFrom flags inClass (a.source ++ cs)
      = a.expanded flags ++ Dialect.expandFrom flags inClass cs := by
  cases inClass <;> cases a
  case false.plain c ordinary =>
      obtain ⟨hescape, hopen⟩ : c ≠ '\\' ∧ c ≠ '[' := ordinary
      show Dialect.expandFrom flags false (c :: cs)
        = (if c = '$' ∧ flags.multiline = false then ['\\', 'z'] else [c]) ++ _
      rw [Dialect.expandFrom.eq_def]
      split <;> grind
  case true.plain c ordinary =>
      obtain ⟨hescape, hclose⟩ : c ≠ '\\' ∧ c ≠ ']' := ordinary
      show Dialect.expandFrom flags true (c :: cs)
        = (if c = '[' then ['\\', '['] else [c]) ++ _
      rw [Dialect.expandFrom.eq_def]
      split <;> grind
  case false.escape c => rfl
  case true.escape c => rfl

end Atom

-- ── Classes ──────────────────────────────────────────────────────────────

/-- A class up to some place in it. -/
structure Opened where
  negated : Bool
  atoms : List (Atom true)
  /-- A caret in front would negate the class. -/
  caret : negated = false → (atoms.flatMap Atom.source).head? ≠ some '^'
deriving DecidableEq

namespace Opened

/-- How a class begins. -/
def head (o : Opened) : List Char := '[' :: if o.negated then ['^'] else []

def source (o : Opened) : List Char := o.head ++ o.atoms.flatMap Atom.source

def expanded (flags : Flags) (o : Opened) : List Char :=
  o.head ++ o.atoms.flatMap (Atom.expanded flags)

/-- What stands behind the last character of a class. -/
inductive Stops : List Char → Prop where
  | close (cs : List Char) : Stops (']' :: cs)
  | backslash : Stops ['\\']
  | nothing : Stops []

theorem not_stops_atom (a : Atom true) (cs : List Char) : ¬ Stops (a.source ++ cs) := by
  intro h
  cases a with
  | plain c ordinary =>
      obtain ⟨hescape, hclose⟩ : c ≠ '\\' ∧ c ≠ ']' := ordinary
      cases h with
      | close => exact hclose rfl
      | backslash => exact hescape rfl
  | escape c => exact nomatch h

/-- What is behind the head of a class does not look like a part of it. -/
theorem head?_ne_caret {o : Opened} {cs : List Char} (hstops : Stops cs)
    (hnegated : o.negated = false) : (o.atoms.flatMap Atom.source ++ cs).head? ≠ some '^' := by
  rw [List.head?_append]
  cases hatoms : (o.atoms.flatMap Atom.source).head? with
  | some c => exact fun h => o.caret hnegated (hatoms.trans h)
  | none => cases hstops <;> exact fun h => nomatch h

/-- Classes can be read back. -/
theorem append_inj {o o' : Opened} {x y : List Char} (hx : Stops x) (hy : Stops y)
    (h : o.source ++ x = o'.source ++ y) : o = o' ∧ x = y := by
  have hcaret := o.head?_ne_caret hx
  have hcaret' := o'.head?_ne_caret hy
  obtain ⟨negated, atoms, hfirst⟩ := o
  obtain ⟨negated', atoms', hfirst'⟩ := o'
  rw [source, source, List.append_assoc, List.append_assoc] at h
  have hinside : negated = negated' ∧
      atoms.flatMap Atom.source ++ x = atoms'.flatMap Atom.source ++ y := by
    have htail := (List.cons.inj h).2
    cases negated <;> cases negated'
    case false.false => exact ⟨rfl, htail⟩
    case true.true => exact ⟨rfl, (List.cons.inj htail).2⟩
    case false.true => exact absurd (congrArg List.head? htail) (hcaret rfl)
    case true.false => exact absurd (congrArg List.head? htail).symm (hcaret' rfl)
  obtain ⟨rfl, hinside⟩ := hinside
  obtain ⟨rfl, rfl⟩ := flatMap_append_inj Stops Atom.append_inj not_stops_atom hx hy hinside
  exact ⟨rfl, rfl⟩

/-- The characters of a class up to where it stops. -/
theorem exists_row (cs : List Char) :
    ∃ (as : List (Atom true)) (rest : List Char),
      cs = as.flatMap Atom.source ++ rest ∧ Stops rest := by
  match cs with
  | [] => exact ⟨[], [], rfl, .nothing⟩
  | c :: cs =>
      by_cases hescape : c = '\\'
      · subst hescape
        match cs with
        | [] => exact ⟨[], ['\\'], rfl, .backslash⟩
        | d :: cs =>
            obtain ⟨as, rest, rfl, hstops⟩ := exists_row cs
            exact ⟨.escape d :: as, rest, rfl, hstops⟩
      by_cases hclose : c = ']'
      · subst hclose
        exact ⟨[], ']' :: cs, rfl, .close cs⟩
      · obtain ⟨as, rest, rfl, hstops⟩ := exists_row cs
        exact ⟨.plain c ⟨hescape, hclose⟩ :: as, rest, rfl, hstops⟩
termination_by cs.length

/-- A bracket outside of classes opens one. -/
theorem exists_source_eq (cs : List Char) :
    ∃ (o : Opened) (rest : List Char), '[' :: cs = o.source ++ rest ∧ Stops rest := by
  by_cases hcaret : cs.head? = some '^'
  · obtain ⟨cs, rfl⟩ := List.head?_eq_some_iff.mp hcaret
    obtain ⟨as, rest, rfl, hstops⟩ := exists_row cs
    exact ⟨⟨true, as, nofun⟩, rest, rfl, hstops⟩
  · obtain ⟨as, rest, rfl, hstops⟩ := exists_row cs
    refine ⟨⟨false, as, fun _ h => hcaret ?_⟩, rest, rfl, hstops⟩
    rw [List.head?_append, h]
    rfl

/-- Whether a class goes on, and as the same class. -/
def GoesOn (o : Opened) (cs : List Char) : Prop :=
  o.atoms = [] → cs.head? ≠ some ']' ∧ (o.negated = false → cs.head? ≠ some '^')

/-- A class with a character in it goes on, whatever follows. -/
theorem head?_of_atoms {o : Opened} (h : o.atoms ≠ []) (cs : List Char) :
    (o.atoms.flatMap Atom.source ++ cs).head? ≠ some ']' ∧
      (o.negated = false → (o.atoms.flatMap Atom.source ++ cs).head? ≠ some '^') := by
  obtain ⟨negated, atoms, hcaret⟩ := o
  cases atoms with
  | nil => exact absurd rfl h
  | cons a as =>
      cases a with
      | plain c ordinary => exact ⟨fun hc => ordinary.2 (Option.some.inj hc), hcaret⟩
      | escape c => exact ⟨fun hc => (nomatch Option.some.inj hc), hcaret⟩

/-- Where a class goes on, expansion is in it. -/
theorem expandFrom {o : Opened} {cs : List Char} (h : o.GoesOn cs) :
    Dialect.expandFrom flags false (o.source ++ cs)
      = o.expanded flags ++ Dialect.expandFrom flags true cs := by
  have hfirst : (o.atoms.flatMap Atom.source ++ cs).head? ≠ some ']' ∧
      (o.negated = false → (o.atoms.flatMap Atom.source ++ cs).head? ≠ some '^') := by
    by_cases hatoms : o.atoms = []
    · rw [hatoms]
      exact h hatoms
    · exact head?_of_atoms hatoms cs
  rw [source, expanded, List.append_assoc, List.append_assoc,
    ← expandFrom_flatMap Atom.expandFrom]
  exact ClassLiteral.expandFrom_bracket hfirst.1 hfirst.2

/-- Whether a class is the beginning of another. -/
structure Begins (o o' : Opened) : Prop where
  negated : o.negated = o'.negated
  atoms : o.atoms <+: o'.atoms

/-- A class that is begun goes on with the rest of its characters, or stops
    with nothing that would make it another class. -/
theorem Begins.exists_goesOn {o o' : Opened} (h : o.Begins o') (rest : List Char)
    (hrest : o'.atoms = [] → rest.head? ≠ some ']' ∧ rest.head? ≠ some '^') :
    ∃ cs, o'.source ++ rest = o.source ++ cs ∧ o.GoesOn cs := by
  obtain ⟨as, has⟩ := h.atoms
  refine ⟨as.flatMap Atom.source ++ rest, ?_, fun hnil => ?_⟩
  · rw [source, source, head, head, ← has, h.negated, List.flatMap_append, List.append_assoc,
      List.append_assoc, List.append_assoc]
  · have hall : o'.atoms = as := by rw [← has, hnil, List.nil_append]
    rw [← hall, h.negated]
    by_cases hatoms : o'.atoms = []
    · obtain ⟨hclose, hcaret⟩ := hrest hatoms
      rw [hatoms]
      exact ⟨hclose, fun _ => hcaret⟩
    · exact head?_of_atoms hatoms rest

theorem expanded_eq_source {o : Opened} (h : ∀ a ∈ o.atoms, ¬ a.Rewritten flags) :
    o.expanded flags = o.source :=
  congrArg (o.head ++ ·) (List.flatMap_congr fun a ha => a.expanded_eq_source (h a ha))

end Opened

-- ── Elements ─────────────────────────────────────────────────────────────

/-- A character outside of classes, or a class with both of its brackets. -/
inductive Lexeme where
  | atom (a : Atom false)
  | closed (o : Opened)
deriving DecidableEq

namespace Lexeme

/-- How an element is written. -/
def source : Lexeme → List Char
  | atom a => a.source
  | closed o => o.source ++ [']']

/-- What an element is expanded to.  A class with nothing in it has no
    character, or all of them if it is negated. -/
def expanded (flags : Flags) : Lexeme → List Char
  | atom a => a.expanded flags
  | closed o =>
      if o.atoms = [] then
        if o.negated then "[\\s\\S]".toList else "(?!)".toList
      else o.expanded flags ++ [']']

/-- What the engine would read differently, as a whole or in a part. -/
def Rewritten (flags : Flags) : Lexeme → Prop
  | atom a => a.Rewritten flags
  | closed o => o.atoms = [] ∨ ∃ a ∈ o.atoms, a.Rewritten flags

/-- Everything else is copied. -/
theorem expanded_eq_source {e : Lexeme} (h : ¬ e.Rewritten flags) :
    e.expanded flags = e.source := by
  cases e with
  | atom a => exact a.expanded_eq_source h
  | closed o =>
      obtain ⟨hatoms, hplain⟩ := not_or.mp h
      have hbody : o.expanded flags = o.source :=
        Opened.expanded_eq_source fun a ha hr => hplain ⟨a, ha, hr⟩
      rw [expanded, if_neg hatoms, hbody, source]

theorem append_inj (e e' : Lexeme) (x y : List Char) (h : e.source ++ x = e'.source ++ y) :
    e = e' ∧ x = y := by
  cases e with
  | atom a =>
      cases e' with
      | atom a' =>
          obtain ⟨rfl, rfl⟩ := a.append_inj a' x y h
          exact ⟨rfl, rfl⟩
      | closed o' =>
          cases a with
          | plain c ordinary => exact absurd (List.cons.inj h).1 ordinary.2
          | escape c => exact nomatch (List.cons.inj h).1
  | closed o =>
      cases e' with
      | atom a' =>
          cases a' with
          | plain c ordinary => exact absurd (List.cons.inj h).1.symm ordinary.2
          | escape c => exact nomatch (List.cons.inj h).1
      | closed o' =>
          rw [source, source, List.append_assoc, List.append_assoc] at h
          obtain ⟨rfl, hrest⟩ := Opened.append_inj (.close x) (.close y) h
          exact ⟨rfl, (List.cons.inj hrest).2⟩

/-- Expansion is outside of classes behind an element if it was in front. -/
theorem expandFrom (e : Lexeme) (cs : List Char) :
    Dialect.expandFrom flags false (e.source ++ cs)
      = e.expanded flags ++ Dialect.expandFrom flags false cs := by
  cases e with
  | atom a => exact a.expandFrom cs
  | closed o =>
      by_cases hatoms : o.atoms = []
      · obtain ⟨negated, atoms, hcaret⟩ := o
        obtain rfl : atoms = [] := hatoms
        cases negated <;> rfl
      · rw [source, expanded, if_neg hatoms, List.append_assoc, List.append_assoc,
          Opened.expandFrom fun h => absurd h hatoms]
        rfl

end Lexeme

-- ── Places ───────────────────────────────────────────────────────────────

/-- A place in a literal that is not inside an escape: behind some elements
    and, within a class, behind a part of that. -/
structure Place where
  lexemes : List Lexeme
  opened : Option Opened
deriving DecidableEq

namespace Place

/-- Whether a place is within a class. -/
def inClass (p : Place) : Bool := p.opened.isSome

/-- What stands in front of a place. -/
def source (p : Place) : List Char :=
  p.lexemes.flatMap Lexeme.source ++ p.opened.elim [] Opened.source

/-- What is in front of a place is expanded to. -/
def expanded (flags : Flags) (p : Place) : List Char :=
  p.lexemes.flatMap (Lexeme.expanded flags) ++ p.opened.elim [] (Opened.expanded flags)

/-- Whether the class that a place is in goes on there. -/
def GoesOn (p : Place) (cs : List Char) : Prop := ∀ o ∈ p.opened, o.GoesOn cs

/-- At every place expansion is in a class exactly when the place is. -/
theorem expandFrom {p : Place} {cs : List Char} (h : p.GoesOn cs) :
    Dialect.expandFrom flags false (p.source ++ cs)
      = p.expanded flags ++ Dialect.expandFrom flags p.inClass cs := by
  obtain ⟨lexemes, opened⟩ := p
  rw [source, expanded, List.append_assoc, List.append_assoc,
    expandFrom_flatMap Lexeme.expandFrom]
  cases opened with
  | none => rfl
  | some o => exact congrArg (_ ++ ·) (Opened.expandFrom (h o rfl))

end Place

/-- A literal cut into its elements.  At its end a class may be left open,
    and a backslash without a character behind it. -/
structure Lexing where
  place : Place
  dangling : Bool
deriving DecidableEq

namespace Lexing

/-- A backslash that has no character behind it. -/
def backslash (dangling : Bool) : List Char := if dangling then ['\\'] else []

def source (l : Lexing) : List Char := l.place.source ++ backslash l.dangling

/-- The expansions of all elements, one after the other. -/
def expanded (flags : Flags) (l : Lexing) : List Char :=
  l.place.expanded flags ++ backslash l.dangling

theorem stops_backslash (dangling : Bool) : Opened.Stops (backslash dangling) := by
  cases dangling with
  | true => exact .backslash
  | false => exact .nothing

/-- Expansion is that of the elements. -/
theorem expand (l : Lexing) : Dialect.expand flags l.source = l.expanded flags := by
  have hgoes : l.place.GoesOn (backslash l.dangling) := by
    intro o _ _
    cases l.dangling <;> exact ⟨by decide, fun _ => by decide⟩
  have hend (inClass : Bool) :
      Dialect.expandFrom flags inClass (backslash l.dangling) = backslash l.dangling := by
    cases l.dangling <;> cases inClass <;> rfl
  rw [Dialect.expand, source, Place.expandFrom hgoes, hend, expanded]

/-- What is left of a literal behind its last whole element. -/
def ending (opened : Option Opened) (dangling : Bool) : List Char :=
  opened.elim [] Opened.source ++ backslash dangling

theorem source_eq (l : Lexing) :
    l.source = l.place.lexemes.flatMap Lexeme.source ++ ending l.place.opened l.dangling :=
  List.append_assoc _ _ _

theorem ending_inj {opened opened' : Option Opened} {dangling dangling' : Bool}
    (h : ending opened dangling = ending opened' dangling') :
    opened = opened' ∧ dangling = dangling' := by
  have hbackslash : ∀ d d', backslash d = backslash d' → d = d' := by decide
  have hopened : ∀ d o cs, backslash d ≠ Opened.source o ++ cs := by
    intro d o cs hd
    cases d with
    | true => exact nomatch (List.cons.inj hd).1
    | false => exact nomatch hd
  cases opened <;> cases opened'
  case none.none => exact ⟨rfl, hbackslash _ _ h⟩
  case none.some o' => exact absurd h (hopened _ _ _)
  case some.none o => exact absurd h.symm (hopened _ _ _)
  case some.some o o' =>
      obtain ⟨rfl, hrest⟩ := Opened.append_inj (stops_backslash _) (stops_backslash _) h
      exact ⟨rfl, hbackslash _ _ hrest⟩

theorem ending_ne_lexeme (opened : Option Opened) (dangling : Bool) (e : Lexeme)
    (cs : List Char) : ending opened dangling ≠ e.source ++ cs := by
  intro h
  cases opened with
  | none =>
      cases dangling with
      | false => cases e with
        | atom a => cases a <;> exact nomatch h
        | closed o => exact nomatch h
      | true => cases e with
        | atom a =>
          cases a with
          | plain c ordinary => exact ordinary.1 (List.cons.inj h).1.symm
          | escape c => exact nomatch (List.cons.inj h).2
        | closed o => exact nomatch (List.cons.inj h).1
  | some o => cases e with
    | atom a =>
      cases a with
      | plain c ordinary => exact ordinary.2 (List.cons.inj h).1.symm
      | escape c => exact nomatch (List.cons.inj h).1
    | closed o' =>
        rw [Lexeme.source, List.append_assoc] at h
        obtain ⟨-, hrest⟩ := Opened.append_inj (stops_backslash _) (.close cs) h
        cases dangling with
        | true => exact nomatch (List.cons.inj hrest).1
        | false => exact nomatch hrest

/-- A source is cut in one way only. -/
theorem eq_of_source_eq {l l' : Lexing} (h : l.source = l'.source) : l = l' := by
  obtain ⟨⟨lexemes, opened⟩, dangling⟩ := l
  obtain ⟨⟨lexemes', opened'⟩, dangling'⟩ := l'
  rw [source_eq, source_eq] at h
  obtain ⟨hlexemes, hending⟩ := flatMap_append_inj
    (fun cs => ∃ opened dangling, ending opened dangling = cs) Lexeme.append_inj
    (fun e cs ⟨opened, dangling, hcs⟩ => ending_ne_lexeme opened dangling e cs hcs)
    ⟨opened, dangling, rfl⟩ ⟨opened', dangling', rfl⟩ h
  obtain ⟨rfl, rfl⟩ := ending_inj hending
  obtain rfl : lexemes = lexemes' := hlexemes
  rfl

/-- The places in a literal: between its elements, and between the
    characters of its classes. -/
inductive HasPlace (l : Lexing) : Place → Prop where
  | between {es es' : List Lexeme} (h : l.place.lexemes = es ++ es') : HasPlace l ⟨es, none⟩
  | within {es es' : List Lexeme} {o o' : Opened} (h : l.place.lexemes = es ++ .closed o' :: es')
      (hatoms : o'.atoms ≠ []) (hbegins : o.Begins o') : HasPlace l ⟨es, some o⟩
  | open {o o' : Opened} (h : l.place.opened = some o') (hbegins : o.Begins o') :
      HasPlace l ⟨l.place.lexemes, some o⟩

theorem HasPlace.exists_goesOn {l : Lexing} {p : Place} (h : l.HasPlace p) :
    ∃ cs, l.source = p.source ++ cs ∧ p.GoesOn cs := by
  obtain ⟨⟨lexemes, opened⟩, dangling⟩ := l
  cases h with
  | @between es es' h =>
      obtain rfl : lexemes = es ++ es' := h
      refine ⟨es'.flatMap Lexeme.source ++ ending opened dangling, ?_, nofun⟩
      simp only [source_eq, Place.source, List.flatMap_append, List.append_assoc,
        Option.elim_none, List.nil_append]
  | @within es es' o o' h hatoms hbegins =>
      obtain rfl : lexemes = es ++ .closed o' :: es' := h
      obtain ⟨cs, hcs, hgoes⟩ := hbegins.exists_goesOn
        (']' :: (es'.flatMap Lexeme.source ++ ending opened dangling)) fun h => absurd h hatoms
      refine ⟨cs, ?_, fun _ h => Option.some.inj h ▸ hgoes⟩
      simp only [source_eq, Place.source, List.flatMap_append, List.flatMap_cons, Lexeme.source,
        List.append_assoc, Option.elim_some, ← hcs, List.cons_append, List.nil_append]
  | @«open» o o' h hbegins =>
      obtain rfl : opened = some o' := h
      obtain ⟨cs, hcs, hgoes⟩ := hbegins.exists_goesOn (backslash dangling)
        fun _ => by cases dangling <;> decide
      refine ⟨cs, ?_, fun _ h => Option.some.inj h ▸ hgoes⟩
      simp only [source, Place.source, List.append_assoc, Option.elim_some, hcs]

/-- A literal with one element more in front. -/
def cons (e : Lexeme) (l : Lexing) : Lexing :=
  ⟨⟨e :: l.place.lexemes, l.place.opened⟩, l.dangling⟩

theorem source_cons (e : Lexeme) (l : Lexing) : (cons e l).source = e.source ++ l.source := by
  rw [source_eq, source_eq, ← List.append_assoc]
  rfl

/-- Every source is cut into elements. -/
theorem exists_source_eq (cs : List Char) : ∃ l : Lexing, l.source = cs := by
  match cs with
  | [] => exact ⟨⟨⟨[], none⟩, false⟩, rfl⟩
  | c :: cs =>
      by_cases hescape : c = '\\'
      · subst hescape
        match cs with
        | [] => exact ⟨⟨⟨[], none⟩, true⟩, rfl⟩
        | d :: cs =>
            obtain ⟨l, rfl⟩ := exists_source_eq cs
            exact ⟨cons (.atom (.escape d)) l, source_cons _ _⟩
      by_cases hopen : c = '['
      · subst hopen
        obtain ⟨o, rest, hsource, hstops⟩ := Opened.exists_source_eq cs
        rw [hsource]
        cases hstops with
        | close cs' =>
            have hlt : cs'.length < cs.length + 1 := by
              have := congrArg List.length hsource
              simp only [List.length_cons, List.length_append] at this
              omega
            obtain ⟨l, rfl⟩ := exists_source_eq cs'
            refine ⟨cons (.closed o) l, ?_⟩
            rw [source_cons, Lexeme.source, List.append_assoc]
            rfl
        | backslash => exact ⟨⟨⟨[], some o⟩, true⟩, rfl⟩
        | nothing => exact ⟨⟨⟨[], some o⟩, false⟩, rfl⟩
      · obtain ⟨l, rfl⟩ := exists_source_eq cs
        exact ⟨cons (.atom (.plain c ⟨hescape, hopen⟩)) l, source_cons _ _⟩
termination_by cs.length

end Lexing

-- ── Expansion ────────────────────────────────────────────────────────────

/-- How the expansion of a source goes along its elements. -/
structure Elementwise (flags : Flags) (source : List Char) (l : Lexing) : Prop where
  /-- The source is cut into these elements, and into no others. -/
  cut : l.source = source
  only : ∀ l' : Lexing, l'.source = source → l' = l
  /-- It is expanded to what they are expanded to, one after the other. -/
  expand : Dialect.expand flags source = l.expanded flags
  /-- Elements are copied but for what the engine would read differently. -/
  lexemes : ∀ e ∈ l.place.lexemes, ¬ e.Rewritten flags → e.expanded flags = e.source
  opened : ∀ o ∈ l.place.opened, (∀ a ∈ o.atoms, ¬ a.Rewritten flags) →
    o.expanded flags = o.source
  /-- Between the elements, and between the characters of a class, expansion
      is in a class exactly when the place is. -/
  place : ∀ p, l.HasPlace p → ∃ cs, source = p.source ++ cs ∧
    Dialect.expand flags source = p.expanded flags ++ Dialect.expandFrom flags p.inClass cs

/-- Every source is cut into elements in one way, and expanded element by
    element. -/
theorem expand_elementwise (flags : Flags) (source : List Char) :
    ∃ l, Elementwise flags source l := by
  obtain ⟨l, rfl⟩ := Lexing.exists_source_eq source
  refine ⟨l, ?_⟩
  constructor
  case cut => rfl
  case only => exact fun l' h => Lexing.eq_of_source_eq h
  case expand => exact l.expand
  case lexemes => exact fun e _ => Lexeme.expanded_eq_source
  case opened => exact fun o _ => Opened.expanded_eq_source
  case place =>
      intro p hp
      obtain ⟨cs, hsource, hgoes⟩ := hp.exists_goesOn
      refine ⟨cs, hsource, ?_⟩
      rw [Dialect.expand, hsource, Place.expandFrom hgoes]

/-- Shorthands are classes of their own, or members of the class that they
    stand in. -/
example : Dialect.expand {} "\\w\\W\\d\\D[\\w\\W][\\d\\D]".toList
    = ("[a-zA-Z0-9_][^a-zA-Z0-9_][0-9][^0-9]" ++
      "[a-zA-Z0-9_[^a-zA-Z0-9_]][0-9[^0-9]]").toList := by decide +kernel

/-- Boundaries look at both sides, and are no boundaries in a class. -/
example : Dialect.expand {} "\\b\\B[\\b\\B]".toList
    = ("(?:(?<=[a-zA-Z0-9_])(?![a-zA-Z0-9_])|(?<![a-zA-Z0-9_])(?=[a-zA-Z0-9_]))" ++
      "(?:(?<=[a-zA-Z0-9_])(?=[a-zA-Z0-9_])|(?<![a-zA-Z0-9_])(?![a-zA-Z0-9_]))" ++
      "[\\b\\B]").toList := by decide +kernel

end Literal

end Highlighter.Regex
