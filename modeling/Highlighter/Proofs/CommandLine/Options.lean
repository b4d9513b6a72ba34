import Highlighter.CommandLine.Options

/-! # Reading arguments

    A format can be given once, and nothing that is read from the arguments
    depends on which one it was (`Indifferent`).  So the same arguments
    behind either format ask for the same but for the format
    (`exists_ofArguments?_format`). -/

namespace Highlighter.CommandLine

/-- The name of a format. -/
def Format.name : Format → String
  | .html => "html"
  | .tokens => "tokens"

/-- The options with another format. -/
def Options.withFormat (f : Format) (o : Options) : Options := { o with format := some f }

/-- What is asked for, with another format. -/
def Request.withFormat (f : Format) : Request → Request
  | .highlight o => .highlight (o.withFormat f)
  | .about => .about

/-- Reading goes on in the same way whatever format was given before. -/
def Indifferent {α : Type} (withFormat : Format → α → α) (read : Options → Option α) : Prop :=
  ∀ o : Options, ∃ x : Option α, ∀ f, read (o.withFormat f) = x.map (withFormat f)

section Indifferent

variable {α : Type} {withFormat : Format → α → α}

theorem indifferent_none : Indifferent withFormat fun _ => none := fun _ => ⟨none, fun _ => rfl⟩

theorem indifferent_highlight :
    Indifferent Request.withFormat fun o => some (.highlight o) :=
  fun o => ⟨some (.highlight o), fun _ => rfl⟩

theorem indifferent_about : Indifferent Request.withFormat fun _ => some .about :=
  fun _ => ⟨some .about, fun _ => rfl⟩

theorem Indifferent.bind {read : Options → Option Options} {next : Options → Option α}
    (h : Indifferent Options.withFormat read) (h' : Indifferent withFormat next) :
    Indifferent withFormat fun o => (read o).bind next := by
  intro o
  obtain ⟨x, hx⟩ := h o
  simp only [hx]
  cases x with
  | none => exact ⟨none, fun f => rfl⟩
  | some o' => exact h' o'

end Indifferent

theorem indifferent_set? (key : Key) (value : String) :
    Indifferent Options.withFormat (·.set? key value) := by
  intro o
  cases key with
  | language =>
      refine ⟨o.set? .language value, fun f => ?_⟩
      cases h : o.language <;> simp [Options.set?, Options.withFormat, h]
  | directories =>
      refine ⟨o.set? .directories value, fun f => ?_⟩
      cases h : value.isEmpty <;> simp [Options.set?, Options.withFormat, h]
  | format => exact ⟨none, fun _ => rfl⟩

theorem indifferent_setFile? (value : String) :
    Indifferent Options.withFormat (·.setFile? value) := by
  intro o
  refine ⟨o.setFile? value, fun f => ?_⟩
  cases h : value.isEmpty || o.file.isSome <;> simp [Options.setFile?, Options.withFormat, h]

theorem indifferent_setList? : Indifferent Options.withFormat Options.setList? := by
  intro o
  refine ⟨o.setList?, fun f => ?_⟩
  cases h : o.list <;> simp [Options.setList?, Options.withFormat, h]

theorem indifferent_readPlain (args : List String) :
    Indifferent Request.withFormat (readPlain · args) := by
  induction args with
  | nil => exact indifferent_highlight
  | cons s args ih => exact (indifferent_setFile? s).bind ih

theorem indifferent_readArguments : ∀ args, Indifferent Request.withFormat (readArguments · args)
  | [] => indifferent_highlight
  | s :: args => by
      cases hs : Argument.ofString s with
      | option key value =>
          simp only [readArguments, hs]
          match value, args with
          | some value, args =>
              exact (indifferent_set? key value).bind (indifferent_readArguments args)
          | none, [] => exact indifferent_none
          | none, value :: args =>
              cases hv : Argument.ofString value with
              | plain value =>
                  simp only [hv]
                  exact (indifferent_set? key value).bind (indifferent_readArguments args)
              | option _ _ | list | about | dashes | unknown =>
                  simp only [hv]
                  exact indifferent_none
      | list =>
          simp only [readArguments, hs]
          exact indifferent_setList?.bind (indifferent_readArguments args)
      | about =>
          simp only [readArguments, hs]
          exact indifferent_about
      | dashes =>
          simp only [readArguments, hs]
          exact indifferent_readPlain args
      | plain value =>
          simp only [readArguments, hs]
          exact (indifferent_setFile? value).bind (indifferent_readArguments args)
      | unknown =>
          simp only [readArguments, hs]
          exact indifferent_none

/-- The format in front of the arguments does not matter for the rest of
    what is asked for. -/
theorem exists_ofArguments?_format (args : List String) :
    ∃ x : Option Request, ∀ f : Format,
      Request.ofArguments? ("--format" :: f.name :: args) = x.map (Request.withFormat f) := by
  obtain ⟨x, hx⟩ := indifferent_readArguments args {}
  refine ⟨x, fun f => (Eq.trans ?_ (hx f))⟩
  have hformat : Argument.ofString "--format" = .option .format none := by decide +kernel
  have hname : Argument.ofString f.name = .plain f.name := by cases f <;> decide +kernel
  cases f <;> simp only [Request.ofArguments?, readArguments, hformat, hname] <;> rfl

end Highlighter.CommandLine
