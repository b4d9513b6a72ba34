import Highlighter.Grammar.Copy

/-! # Catalogs

    All grammars with the languages they belong to.  Grammars are numbered
    in the order in which they come; a name points to a number, and several
    names may share one.

    A grammar document may refer to a language before it is known.  Then an
    empty grammar takes its place and the name is reserved for it; when the
    language comes, the place is filled, or what refers to it is turned to
    where the language is.  Until then the name is missing: it is no
    language, but references to it hold. -/

namespace Highlighter

/-- Grammars and the names of languages. -/
structure Catalog where
  grammars : List Grammar := []
  /-- What grammar a name points to. -/
  names : List (String × GrammarId) := []
  /-- The names that were referred to and never given. -/
  reserved : List String := []
deriving DecidableEq

/-- Texts in ascending order. -/
def sorted (ss : List String) : List String := ss.mergeSort fun a b => !decide (b < a)

/-- The name of the language without tokens. -/
def plainName : String := "plain"

namespace Catalog

/-- What a name points to, reserved or not. -/
def target? (c : Catalog) (name : String) : Option GrammarId := OrderedMap.get? name c.names

/-- The grammar of a language. -/
def grammarId? (c : Catalog) (name : String) : Option GrammarId :=
  if c.reserved.contains name then none else c.target? name

/-- The languages, sorted. -/
def languages (c : Catalog) : List String :=
  sorted ((OrderedMap.names c.names).filter (!c.reserved.contains ·))

/-- The languages that were referred to and never given, sorted. -/
def missing (c : Catalog) : List String := sorted c.reserved

/-- Adds a grammar without a name. -/
def add (c : Catalog) (g : Grammar) : GrammarId × Catalog :=
  (c.grammars.length, { c with grammars := c.grammars ++ [g] })

/-- Turns the references to a grammar to another one, in the grammars that
    are asked for. -/
def redirect (c : Catalog) (concerned : GrammarId → Bool) (old new : GrammarId) : Catalog :=
  { c with
    grammars := c.grammars.mapIdx fun i g =>
      if concerned i then g.mapReferences fun id => if id = old then new else id else g }

/-- Ends the reservation of a name. -/
def release (c : Catalog) (name : String) : Catalog :=
  { c with reserved := c.reserved.filter (· != name) }

/-- Points a name at a grammar. -/
def point (c : Catalog) (name : String) (id : GrammarId) : Catalog :=
  { c with names := OrderedMap.set name id c.names }

/-- Makes a grammar the language of a name.  What refers to the place
    reserved for the name is turned to the grammar. -/
def setLanguage (c : Catalog) (name : String) (id : GrammarId) : Catalog :=
  let redirected :=
    if c.reserved.contains name then
      match c.target? name with
      | some place => if place = id then c else c.redirect (fun _ => true) place id
      | none => c
    else c
  (redirected.release name).point name id

/-- Adds a grammar as the language of a name: in the place reserved for it,
    or at the end. -/
def addLanguage (c : Catalog) (name : String) (g : Grammar) : GrammarId × Catalog :=
  match c.reserved.contains name, c.target? name with
  | true, some place => (place, { c.release name with grammars := c.grammars.set place g })
  | _, _ =>
      let (id, c) := (c.release name).add g
      (id, c.setLanguage name id)

/-- Gives a language another name; an unknown language gets none. -/
def addAlias (c : Catalog) (name other : String) : Catalog :=
  match c.grammarId? name with
  | some id => c.setLanguage other id
  | none => c

/-- Adds the language without tokens, with further names. -/
def addPlain (c : Catalog) (aliases : List String) : GrammarId × Catalog :=
  let (id, c) := c.addLanguage plainName {}
  (id, aliases.foldl (fun c other => c.addAlias plainName other) c)

/-- The grammar a name refers to.  A name that is not known yet is
    reserved. -/
def link (c : Catalog) (name : String) : GrammarId × Catalog :=
  match c.target? name with
  | some id => (id, c)
  | none =>
      let (id, c) := c.add {}
      (id, { c.point name id with reserved := name :: c.reserved })

/-- A name that is not reserved cannot be released. -/
theorem release_of_not_reserved {c : Catalog} {name : String} (h : name ∉ c.reserved) :
    c.release name = c := by
  have hkept : c.reserved.filter (· != name) = c.reserved :=
    List.filter_eq_self.mpr fun n hn => by
      rw [bne_iff_ne]
      rintro rfl
      exact h hn
  rw [release, hkept]

/-- A name that is not reserved is pointed at the grammar. -/
theorem setLanguage_of_not_reserved {c : Catalog} {name : String} (h : name ∉ c.reserved)
    (id : GrammarId) : c.setLanguage name id = c.point name id := by
  have hcontains : c.reserved.contains name = false := by simpa using h
  rw [setLanguage, hcontains]
  exact congrArg (point · name id) (release_of_not_reserved h)

/-- What refers to the place of a reserved name is turned to the grammar. -/
theorem setLanguage_of_reserved {c : Catalog} {name : String} {place : GrammarId}
    (h : name ∈ c.reserved) (hplace : c.target? name = some place) {id : GrammarId}
    (hne : place ≠ id) :
    c.setLanguage name id = ((c.redirect (fun _ => true) place id).release name).point name id := by
  rw [setLanguage, List.contains_iff_mem.mpr h]
  simp only [if_true, hplace, hne, if_false]

/-- The place of a reserved name is filled. -/
theorem addLanguage_of_reserved {c : Catalog} {name : String} {place : GrammarId}
    (h : name ∈ c.reserved) (hplace : c.target? name = some place) (g : Grammar) :
    c.addLanguage name g = (place, { c.release name with grammars := c.grammars.set place g }) := by
  rw [addLanguage, List.contains_iff_mem.mpr h, hplace]

/-- For another name the grammar is new. -/
theorem addLanguage_of_not_reserved {c : Catalog} {name : String} (h : name ∉ c.reserved)
    (g : Grammar) :
    c.addLanguage name g = (c.grammars.length, (c.add g).2.point name c.grammars.length) := by
  have hcontains : c.reserved.contains name = false := by simpa using h
  rw [addLanguage, hcontains, release_of_not_reserved h]
  exact congrArg (Prod.mk c.grammars.length) (setLanguage_of_not_reserved (c := (c.add g).2) h _)

/-- Linking a name that is known changes nothing. -/
theorem link_of_target? {c : Catalog} {name : String} {id : GrammarId}
    (h : c.target? name = some id) : c.link name = (id, c) := by
  rw [link, h]

/-- Linking another name reserves it, for a new grammar without rules. -/
theorem link_of_target?_eq_none {c : Catalog} {name : String} (h : c.target? name = none) :
    c.link name = (c.grammars.length,
      { grammars := c.grammars ++ [{}]
        names := c.names ++ [(name, c.grammars.length)]
        reserved := name :: c.reserved }) := by
  have hnew := OrderedMap.set_of_not_mem (OrderedMap.get?_eq_none_iff.mp h) c.grammars.length
  simp only [link, h, add, point, hnew]

/-- Drops the grammars from a number on, and the names that point there. -/
def discard (c : Catalog) (count : Nat) : Catalog :=
  let dropped := c.names.filter fun n => !decide (n.2 < count)
  { grammars := c.grammars.take count
    names := c.names.filter fun n => decide (n.2 < count)
    reserved := c.reserved.filter (!(OrderedMap.names dropped).contains ·) }

-- ── Deriving grammars ────────────────────────────────────────────────────

/-- Copies a grammar and all it can reach. -/
def copy (c : Catalog) (id : GrammarId) : Except NoSuchGrammar (GrammarId × Catalog) := do
  let (new, grammars) ← deepCopy c.grammars id
  .ok (new, { c with grammars })

/-- The grammars that languages can reach. -/
def live (c : Catalog) : Except NoSuchGrammar (List GrammarId) :=
  reachable c.grammars (c.names.map (·.2))

/-- What a walk from the languages meets, in the order of their names. -/
def walk (c : Catalog) : Except NoSuchGrammar (List Visit) :=
  Highlighter.walk c.grammars (c.names.mergeSort fun a b => !decide (b.1 < a.1))

/-- A grammar with rules inserted in front of one of its own; at the end if
    there is no such rule.  Rules that stand in front of that one already
    are replaced where they are; it and those behind it keep what they
    have, wherever they come to stand. -/
def inserted (g : Grammar) (anchor : Option String) (rules : List (String × Rule)) : Grammar :=
  match anchor with
  | none => g.setAll rules
  | some name =>
      if g.names.contains name then
        (Grammar.setAll ⟨g.rules.takeWhile (·.1 != name)⟩ rules).setAll
          (g.rules.dropWhile (·.1 != name))
      else g.setAll rules

/-- Adds a grammar with rules inserted into it, and puts it in its place:
    for the languages of the grammar and in what languages can reach. -/
def insertBefore (c : Catalog) (id : GrammarId) (anchor : Option String)
    (rules : List (String × Rule)) : Except NoSuchGrammar (GrammarId × Catalog) := do
  let g ← grammarAt c.grammars id
  let live ← c.live
  let (new, c) := c.add (inserted g anchor rules)
  let c := c.redirect (fun i => i == new || live.contains i) id new
  .ok (new, { c with names := c.names.map fun n => (n.1, if n.2 = id then new else n.2) })

end Catalog

end Highlighter
