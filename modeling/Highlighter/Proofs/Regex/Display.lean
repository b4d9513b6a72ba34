import Highlighter.Regex.Basic

/-! # How regexes are shown

    A regex is shown as a literal, its source between slashes as it stands.
    The source may have slashes of its own and end like flags, but flags
    have none: so what is behind the last slash is the flags, and the rest
    is the source (`shownFlags_toString`, `shownSource_toString`).  Flags
    are shown in one fixed order, whatever letters they were read from.
    Regexes are therefore equal exactly if they are shown alike
    (`toString_identifies`), and a message that names a regex says which one
    it is. -/

namespace Highlighter.Regex

-- ── The last slash ───────────────────────────────────────────────────────

/-- The characters behind the last slash. -/
def behindLastSlash (cs : List Char) : List Char := (cs.reverse.takeWhile (· != '/')).reverse

/-- The characters up to the last slash and with it. -/
def upToLastSlash (cs : List Char) : List Char := (cs.reverse.dropWhile (· != '/')).reverse

section LastSlash

variable (front : List Char) {behind : List Char}

/-- A text in reverse, cut at a slash that is the last one. -/
theorem reverse_append_slash (behind : List Char) :
    (front ++ '/' :: behind).reverse = behind.reverse ++ '/' :: front.reverse := by
  simp

theorem not_slash_of_mem_reverse (h : '/' ∉ behind) : ∀ c ∈ behind.reverse, (c != '/') = true := by
  intro c hc
  rw [bne_iff_ne]
  rintro rfl
  exact h (List.mem_reverse.mp hc)

theorem behindLastSlash_append (h : '/' ∉ behind) :
    behindLastSlash (front ++ '/' :: behind) = behind := by
  rw [behindLastSlash, reverse_append_slash,
    List.takeWhile_append_of_pos (not_slash_of_mem_reverse h), List.takeWhile_cons_of_neg (by simp),
    List.append_nil, List.reverse_reverse]

theorem upToLastSlash_append (h : '/' ∉ behind) :
    upToLastSlash (front ++ '/' :: behind) = front ++ ['/'] := by
  rw [upToLastSlash, reverse_append_slash,
    List.dropWhile_append_of_pos (not_slash_of_mem_reverse h), List.dropWhile_cons_of_neg (by simp)]
  simp

end LastSlash

-- ── Reading what is shown ────────────────────────────────────────────────

/-- The flags that are shown with a regex: the letters behind the last
    slash. -/
def shownFlags (shown : String) : Flags :=
  Flags.ofString (String.ofList (behindLastSlash shown.toList))

/-- The source that is shown with a regex: what is between the first slash
    and the last one. -/
def shownSource (shown : String) : String :=
  String.ofList ((upToLastSlash shown.toList).drop 1).dropLast

theorem toList_toString (r : Regex) :
    r.toString.toList = ('/' :: r.source.toList) ++ '/' :: r.flags.letters := by
  rw [toString, Flags.toString]
  simp

theorem shownFlags_toString (r : Regex) : shownFlags r.toString = r.flags := by
  rw [shownFlags, toList_toString, behindLastSlash_append _ r.flags.slash_not_mem_letters]
  exact r.flags.ofString_toString

theorem shownSource_toString (r : Regex) : shownSource r.toString = r.source := by
  rw [shownSource, toList_toString, upToLastSlash_append _ r.flags.slash_not_mem_letters]
  simp

/-- Regexes with the same source and the same flags are equal, and only
    those. -/
theorem eq_iff_source_flags {a b : Regex} : a = b ↔ a.source = b.source ∧ a.flags = b.flags :=
  ⟨fun h => ⟨congrArg source h, congrArg flags h⟩, fun h => eq_of_source_flags h.1 h.2⟩

/-- Regexes made of any sources and any letters for flags are equal if and
    only if they are shown as the same text.  The letters behind the last
    slash of the text give back the flags, what is between the slashes is
    the source. -/
theorem toString_identifies (source letters source' letters' : String) :
    let a := ofStrings source letters
    let b := ofStrings source' letters'
    ((a == b) = true ↔ a.toString = b.toString) ∧
      ((a == b) = true ↔ source = source' ∧ Flags.ofString letters = Flags.ofString letters') ∧
      shownFlags a.toString = Flags.ofString letters ∧ shownSource a.toString = source := by
  intro a b
  refine ⟨?_, ?_, shownFlags_toString a, shownSource_toString a⟩
  · rw [beq_iff_eq]
    refine ⟨congrArg toString, fun h => eq_of_source_flags ?_ ?_⟩
    · rw [← shownSource_toString a, h, shownSource_toString b]
    · rw [← shownFlags_toString a, h, shownFlags_toString b]
  · rw [beq_iff_eq]
    exact eq_iff_source_flags

/-- A source with slashes that ends like flags, and letters that are no
    flags. -/
example : (ofStrings "/g/i" "yxgig").toString = "//g/i/giy" := by rfl

end Highlighter.Regex
