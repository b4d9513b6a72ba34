import Highlighter.Builtin.Basic
import Highlighter.Proofs.Registry.Founded

/-! # The builtin documents stand on their own

    No builtin document mentions a language, and its patterns are sound:
    each of them is compiled here, and the two that are stripped of their
    first group begin with it.

    Taking a string apart costs more than compiling what is in it.  So the
    characters of a source are written down first (`Spelled`), piece by
    piece as the source is put together, and computing starts from there. -/

namespace Highlighter

namespace Document

/-- The characters that a text is made of. -/
def Spelled (s : String) (cs : List Char) : Prop := s.toList = cs

theorem spelled_ofList (cs : List Char) : Spelled (String.ofList cs) cs := String.toList_ofList

theorem Spelled.append {s t : String} {cs ds : List Char} (hs : Spelled s cs) (ht : Spelled t ds) :
    Spelled (s ++ t) (cs ++ ds) := by
  rw [Spelled, String.toList_append, hs, ht]

/-- The characters compile, and to what begins with its first group if that
    is to be stripped. -/
def compilesSound (cs : List Char) (flags : Regex.Flags) (lookbehind : Bool) : Bool :=
  match Regex.compileChars cs flags with
  | .ok e => !lookbehind || e.leadsWithGroup
  | .error _ => false

theorem sound_of_spelled {source flags : String} {cs : List Char} {lookbehind greedy : Bool}
    {inside : Option Reference} (hs : Spelled source cs)
    (h : compilesSound cs (Regex.Flags.ofString flags) lookbehind = true) :
    Descriptor.Sound { pattern := source, flags, lookbehind, greedy, inside } where
  program := by
    rw [compilesSound] at h
    split at h
    · next e he =>
        refine ⟨e, ?_, fun hl => ?_⟩
        · show Regex.compile source (Regex.Flags.ofString flags) = .ok e
          rw [Regex.compile, hs]
          exact he
        · obtain rfl : lookbehind = true := hl
          exact h
    · exact nomatch h
  aliases _ ha := absurd ha List.not_mem_nil

theorem selfContained_ofEntries {entries : List (String × PatternsForm Reference)} :
    (Tokens.ofEntries entries).SelfContained ↔ RulesContained entries :=
  ⟨fun h => h.rules, fun h => ⟨h, trivial⟩⟩

end Document

namespace Builtin

open Document

/-- No builtin document mentions a language, and all patterns are sound. -/
theorem selfContained_of_mem_documents : ∀ d ∈ documents, d.tokens.SelfContained := by
  simp only [documents, List.forall_mem_cons, List.not_mem_nil, false_implies, implies_true,
    markup, mermaid, nomnoml, plantuml, http, erd, diag, ascii, json, request, sh, clojure, pikchr,
    source, one, selfContained_ofEntries, Reference.SelfContained, RulesContained,
    PatternsContained, AlternativesContained, PatternContained, InsideContained, and_true]
  and_intros
  -- names are looked through as they are
  all_goals first | decide +kernel | with_reducible apply sound_of_spelled
  -- the transparency keeps a literal from being unfolded to bytes
  all_goals try repeat' with_reducible apply Spelled.append
  any_goals with_reducible exact spelled_ofList _
  -- what is left is to compile the characters
  all_goals decide +kernel

end Builtin

end Highlighter
