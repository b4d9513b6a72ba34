import Highlighter.Fragment.Encoding
import Highlighter.Proofs.Json.Writing

/-! # Reading fragments back from JSON

    Neither raw text nor tokens are marked as what they are, and further
    labels are left out when there are none; still the JSON of fragments
    tells them apart at every depth, for raw text is a string, a token an
    object, and the content of a token a string or a list.  What is lost is
    whether the pattern of a token was greedy.

    `decode?` reads a text as a tree and the tree as fragments.  It gives
    back every list of fragments up to that (`decode?_encodeAll`). -/

namespace Highlighter.Fragment

open Json (IsTree PrettyText)

-- ── Fragments without the greedy mark ────────────────────────────────────

mutual

/-- The fragment as if no pattern had been greedy. -/
def plain : Fragment → Fragment
  | .raw text => .raw text
  | .leaf label text => .leaf { label with greedy := false } text
  | .node label inner => .node { label with greedy := false } (plainList inner)

/-- Fragments in a row as if no pattern had been greedy. -/
def plainList : List Fragment → List Fragment
  | [] => []
  | f :: fs => plain f :: plainList fs

end

-- ── Decoding ─────────────────────────────────────────────────────────────

/-- The text of a value that is one. -/
def string? : Json → Option String
  | .string s => some s
  | _ => none

/-- What the members of a token beside its content say of it: its type, its
    further labels if it has any, and its length. -/
def labelOf? : List (String × Json) → Option Label
  | [("type", .string kind), ("length", .number (.integer (.ofNat length)))] =>
      some { kind, length }
  | [("type", .string kind), ("alias", .array aliases),
      ("length", .number (.integer (.ofNat length)))] => do
      let aliases ← aliases.mapM string?
      some { kind, aliases, length }
  | _ => none

mutual

/-- The fragment that a value stands for. -/
def ofTree? : Json → Option Fragment
  | .string text => some (.raw text)
  | .object (kind :: ("content", .string text) :: others) => do
      let label ← labelOf? (kind :: others)
      some (.leaf label text)
  | .object (kind :: ("content", .array inner) :: others) => do
      let label ← labelOf? (kind :: others)
      let inner ← ofTrees? inner
      some (.node label inner)
  | _ => none

/-- The fragments that values in a row stand for. -/
def ofTrees? : List Json → Option (List Fragment)
  | [] => some []
  | v :: vs => do
      let f ← ofTree? v
      let fs ← ofTrees? vs
      some (f :: fs)

end

/-- The fragments that a text in JSON stands for. -/
def decode? (text : String) : Option (List Fragment) :=
  match Json.readTree text.toList.length text.toList with
  | .ok (.array vs, rest) => if (Json.trim rest).isEmpty then ofTrees? vs else none
  | _ => none

-- ── Trees of fragments ───────────────────────────────────────────────────

theorem isTree_encodeToken (label : Label) {content : Json} (h : IsTree content) :
    IsTree (encodeToken label content) := by
  rw [encodeToken]
  refine .object fun m hm => ?_
  simp only [List.mem_append, List.mem_cons, List.not_mem_nil, or_false] at hm
  rcases hm with ((rfl | rfl) | hm) | rfl
  · exact .string _
  · exact h
  · split at hm
    · exact nomatch hm
    · obtain rfl := List.mem_singleton.mp hm
      refine .array fun v hv => ?_
      obtain ⟨s, -, rfl⟩ := List.mem_map.mp hv
      exact .string s
  · exact .ofNat _

mutual

theorem isTree_encode : ∀ f : Fragment, IsTree (encode f)
  | .raw text => by
      rw [encode]
      exact .string text
  | .leaf label text => by
      rw [encode]
      exact isTree_encodeToken label (.string text)
  | .node label inner => by
      rw [encode]
      exact isTree_encodeToken label (.array (isTree_encodeList inner))

theorem isTree_encodeList : ∀ fs : List Fragment, ∀ v ∈ encodeList fs, IsTree v
  | [], v, hv => by
      rw [encodeList] at hv
      exact nomatch hv
  | f :: fs, v, hv => by
      rw [encodeList] at hv
      rcases List.mem_cons.mp hv with rfl | hv
      · exact isTree_encode f
      · exact isTree_encodeList fs v hv

end

theorem mapM_string? (ss : List String) : (ss.map Json.string).mapM string? = some ss := by
  induction ss with
  | nil => rfl
  | cons s ss ih =>
      rw [List.map_cons, List.mapM_cons, ih]
      rfl

/-- The members of a token beside its content. -/
def labelMembers (label : Label) : List (String × Json) :=
  (if label.aliases.isEmpty then [] else [("alias", .array (label.aliases.map .string))]) ++
    [("length", .ofNat label.length)]

theorem encodeToken_eq (label : Label) (content : Json) : encodeToken label content
    = .object (("type", .string label.kind) :: ("content", content) :: labelMembers label) := by
  rw [encodeToken, labelMembers, List.append_assoc]
  rfl

theorem labelOf?_labelMembers (label : Label) :
    labelOf? (("type", .string label.kind) :: labelMembers label)
      = some { label with greedy := false } := by
  obtain ⟨kind, aliases, length, greedy⟩ := label
  cases aliases with
  | nil => rfl
  | cons a as =>
      have hread := mapM_string? (a :: as)
      change (do
        let aliases ← ((a :: as).map Json.string).mapM string?
        some ({ kind, aliases, length } : Label)) = _
      rw [hread]
      rfl

mutual

theorem ofTree?_encode : ∀ f : Fragment, ofTree? (encode f) = some f.plain
  | .raw text => by rw [encode, ofTree?, plain]
  | .leaf label text => by
      rw [encode, encodeToken_eq, ofTree?, labelOf?_labelMembers, plain]
      rfl
  | .node label inner => by
      rw [encode, encodeToken_eq, ofTree?, labelOf?_labelMembers, plain]
      change (do
        let inner ← ofTrees? (encodeList inner)
        some (Fragment.node { label with greedy := false } inner)) = _
      rw [ofTrees?_encodeList]
      rfl

theorem ofTrees?_encodeList : ∀ fs : List Fragment, ofTrees? (encodeList fs) = some (plainList fs)
  | [] => by rw [encodeList, ofTrees?, plainList]
  | f :: fs => by
      rw [encodeList, ofTrees?, ofTree?_encode, ofTrees?_encodeList, plainList]
      rfl

end

mutual

/-- Whether patterns were greedy does not show in JSON. -/
theorem encode_plain : ∀ f : Fragment, encode f.plain = encode f
  | .raw text => by rw [plain]
  | .leaf label text => by
      rw [plain, encode, encode]
      rfl
  | .node label inner => by
      rw [plain, encode, encode, encodeList_plainList]
      rfl

theorem encodeList_plainList : ∀ fs : List Fragment, encodeList (plainList fs) = encodeList fs
  | [] => by rw [plainList]
  | f :: fs => by rw [plainList, encodeList, encodeList, encode_plain, encodeList_plainList]

end

-- ── Texts ────────────────────────────────────────────────────────────────

/-- Fragments are decoded from what is written for them, with blanks behind
    it or not. -/
theorem decode?_of_writing {W : Json → List Char → Prop} (hW : Json.Writing W)
    {fs : List Fragment} {text b : List Char} (h : W (encodeAll fs) text) (hb : Json.Blank b) :
    decode? (String.ofList (text ++ b)) = some (plainList fs) := by
  have htree : IsTree (encodeAll fs) := .array (isTree_encodeList fs)
  have hlength : text.length ≤ (text ++ b).length := by
    rw [List.length_append]
    exact Nat.le_add_right _ _
  have hread := (hW.reads htree h hlength).read [] b Json.blank_nil (Json.ends_of_blank hb)
  have htrim : Json.trim b = [] := by
    rw [← List.append_nil b, Json.trim_blank hb]
    rfl
  rw [List.nil_append] at hread
  rw [decode?, String.toList_ofList, hread, encodeAll]
  simp only [htrim, List.isEmpty_nil, if_true]
  exact ofTrees?_encodeList fs

/-- The JSON of fragments, with blanks or without, and with a line end as
    the command line prints it, decodes to the fragments up to whether their
    patterns were greedy.  So the same JSON is that of the same fragments,
    up to this, and only of those. -/
theorem decode?_encodeAll (fs gs : List Fragment) :
    decode? (String.ofList (encodeAll fs).compact) = some (plainList fs) ∧
      decode? (String.ofList (encodeAll fs).pretty ++ "\n") = some (plainList fs) ∧
      ((encodeAll fs).compact = (encodeAll gs).compact ↔ plainList fs = plainList gs) ∧
      ((encodeAll fs).pretty = (encodeAll gs).pretty ↔ plainList fs = plainList gs) := by
  have hcompact : ∀ fs, decode? (String.ofList (encodeAll fs).compact) = some (plainList fs) := by
    intro fs
    have hwritten : Json.CompactText (encodeAll fs) (encodeAll fs).compact := rfl
    have hdecode := decode?_of_writing Json.writing_compact hwritten Json.blank_nil
    rw [List.append_nil] at hdecode
    exact hdecode
  have hpretty : ∀ fs, decode? (String.ofList (encodeAll fs).pretty ++ "\n")
      = some (plainList fs) := by
    intro fs
    have hwritten : PrettyText (encodeAll fs) (encodeAll fs).pretty := ⟨0, rfl⟩
    have hdecode := decode?_of_writing Json.writing_pretty hwritten (Json.blank_newline 0)
    rw [String.ofList_append] at hdecode
    exact hdecode
  have hplain : plainList fs = plainList gs → encodeAll fs = encodeAll gs := fun h => by
    rw [encodeAll, encodeAll, ← encodeList_plainList fs, h, encodeList_plainList]
  refine ⟨hcompact fs, hpretty fs, ⟨fun h => ?_, fun h => by rw [hplain h]⟩,
    ⟨fun h => ?_, fun h => by rw [hplain h]⟩⟩
  · have hdecode := hcompact fs
    rw [h, hcompact gs] at hdecode
    exact (Option.some.inj hdecode).symm
  · have hdecode := hpretty fs
    rw [h, hpretty gs] at hdecode
    exact (Option.some.inj hdecode).symm

end Highlighter.Fragment
