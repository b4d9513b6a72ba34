/-! # Byte offsets into a text

    Lengths and positions are counted in UTF-8 bytes, texts are lists of
    characters.  A cut at a byte offset exists exactly when no character
    straddles it, so every cutting function is partial and says so in its
    type.  The main statements are the pairs of laws beside each cut: a cut
    at the length of a leading part succeeds, and a cut that succeeds
    splits the text there. -/

namespace Highlighter.Text

/-- The number of bytes the characters take in UTF-8. -/
def byteLength : List Char → Nat
  | [] => 0
  | c :: cs => c.utf8Size + byteLength cs

@[simp] theorem byteLength_nil : byteLength [] = 0 := rfl

@[simp] theorem byteLength_cons (c : Char) (cs : List Char) :
    byteLength (c :: cs) = c.utf8Size + byteLength cs := rfl

@[simp] theorem byteLength_append (a b : List Char) :
    byteLength (a ++ b) = byteLength a + byteLength b := by
  induction a with
  | nil => simp
  | cons c cs ih => simp [ih, Nat.add_assoc]

/-- Every character takes a byte at least. -/
theorem length_le_byteLength (cs : List Char) : cs.length ≤ byteLength cs := by
  induction cs with
  | nil => simp
  | cons c cs ih =>
      have := c.utf8Size_pos
      simp only [byteLength_cons, List.length_cons]
      omega

theorem byteLength_eq_zero {cs : List Char} : byteLength cs = 0 ↔ cs = [] := by
  constructor
  · intro h
    have := length_le_byteLength cs
    exact List.eq_nil_of_length_eq_zero (by omega)
  · rintro rfl
    rfl

/-- The bytes of a string built from characters are the bytes of the
    characters. -/
theorem utf8ByteSize_ofList (cs : List Char) :
    (String.ofList cs).utf8ByteSize = byteLength cs := by
  induction cs with
  | nil => simp [String.ofList_nil]
  | cons c cs ih =>
      rw [← List.singleton_append, String.ofList_append, String.utf8ByteSize_append, ih,
        ← String.singleton_eq_ofList, String.utf8ByteSize_singleton, byteLength_append]
      rfl

@[simp] theorem byteLength_toList (s : String) : byteLength s.toList = s.utf8ByteSize := by
  rw [← utf8ByteSize_ofList, String.ofList_toList]

-- ── Cutting ──────────────────────────────────────────────────────────────

/-- What follows the first `n` bytes, if a character ends there. -/
def dropBytes? : Nat → List Char → Option (List Char)
  | 0, cs => some cs
  | _ + 1, [] => none
  | n + 1, c :: cs =>
      if c.utf8Size ≤ n + 1 then dropBytes? (n + 1 - c.utf8Size) cs else none

/-- The first `n` bytes, if a character ends there. -/
def takeBytes? : Nat → List Char → Option (List Char)
  | 0, _ => some []
  | _ + 1, [] => none
  | n + 1, c :: cs =>
      if c.utf8Size ≤ n + 1 then (takeBytes? (n + 1 - c.utf8Size) cs).map (c :: ·) else none

/-- The bytes from `start` up to `stop`, if both are boundaries in order. -/
def slice? (cs : List Char) (start stop : Nat) : Option (List Char) :=
  if start ≤ stop then (dropBytes? start cs).bind (takeBytes? (stop - start)) else none

theorem dropBytes?_append (a b : List Char) : dropBytes? (byteLength a) (a ++ b) = some b := by
  induction a with
  | nil => cases b <;> rfl
  | cons c cs ih =>
      have hpos := c.utf8Size_pos
      obtain ⟨m, hm⟩ : ∃ m, c.utf8Size + byteLength cs = m + 1 :=
        ⟨c.utf8Size + byteLength cs - 1, by omega⟩
      rw [byteLength_cons, hm, List.cons_append, dropBytes?, if_pos (by omega), ← hm,
        Nat.add_sub_cancel_left, ih]

theorem takeBytes?_append (a b : List Char) : takeBytes? (byteLength a) (a ++ b) = some a := by
  induction a with
  | nil => cases b <;> rfl
  | cons c cs ih =>
      have hpos := c.utf8Size_pos
      obtain ⟨m, hm⟩ : ∃ m, c.utf8Size + byteLength cs = m + 1 :=
        ⟨c.utf8Size + byteLength cs - 1, by omega⟩
      rw [byteLength_cons, hm, List.cons_append, takeBytes?, if_pos (by omega), ← hm,
        Nat.add_sub_cancel_left, ih]
      rfl

theorem append_of_dropBytes? {n : Nat} {cs b : List Char} (h : dropBytes? n cs = some b) :
    ∃ a, cs = a ++ b ∧ byteLength a = n := by
  induction cs generalizing n with
  | nil =>
      cases n with
      | zero => exact ⟨[], by simpa [dropBytes?] using h, rfl⟩
      | succ n => simp [dropBytes?] at h
  | cons c cs ih =>
      cases n with
      | zero => exact ⟨[], by simpa [dropBytes?] using h, rfl⟩
      | succ n =>
          rw [dropBytes?] at h
          split at h
          · obtain ⟨a, ha, hlen⟩ := ih h
            exact ⟨c :: a, by rw [ha, List.cons_append], by rw [byteLength_cons]; omega⟩
          · exact nomatch h

theorem append_of_takeBytes? {n : Nat} {cs a : List Char} (h : takeBytes? n cs = some a) :
    ∃ b, cs = a ++ b ∧ byteLength a = n := by
  induction cs generalizing n a with
  | nil =>
      cases n with
      | zero => exact ⟨[], by simpa [takeBytes?] using h.symm, by simp_all [takeBytes?]⟩
      | succ n => simp [takeBytes?] at h
  | cons c cs ih =>
      cases n with
      | zero =>
          obtain rfl : [] = a := by simpa [takeBytes?] using h
          exact ⟨c :: cs, rfl, rfl⟩
      | succ n =>
          rw [takeBytes?] at h
          split at h
          · obtain ⟨a', ha', rfl⟩ := Option.map_eq_some_iff.mp h
            obtain ⟨b, hb, hlen⟩ := ih ha'
            exact ⟨b, by rw [hb, List.cons_append], by rw [byteLength_cons]; omega⟩
          · exact nomatch h

/-- A slice that exists is the middle of a split of the text at its two
    offsets. -/
theorem append_of_slice? {cs m : List Char} {start stop : Nat}
    (h : slice? cs start stop = some m) :
    ∃ a b, cs = a ++ m ++ b ∧ byteLength a = start ∧ byteLength a + byteLength m = stop := by
  rw [slice?] at h
  split at h
  · obtain ⟨r, hr, hm⟩ := Option.bind_eq_some_iff.mp h
    obtain ⟨a, ha, hla⟩ := append_of_dropBytes? hr
    obtain ⟨b, hb, hlb⟩ := append_of_takeBytes? hm
    exact ⟨a, b, by rw [ha, hb, List.append_assoc], hla, by omega⟩
  · exact nomatch h

theorem infix_of_slice? {cs m : List Char} {start stop : Nat} (h : slice? cs start stop = some m) :
    m <:+: cs := by
  obtain ⟨a, b, hab, -, -⟩ := append_of_slice? h
  exact ⟨a, b, hab.symm⟩

theorem slice?_append (a m b : List Char) :
    slice? (a ++ m ++ b) (byteLength a) (byteLength a + byteLength m) = some m := by
  rw [slice?, if_pos (by omega), List.append_assoc, dropBytes?_append, Option.bind_some,
    Nat.add_sub_cancel_left, takeBytes?_append]

theorem slice?_eq_some_iff {cs m : List Char} {start stop : Nat} :
    slice? cs start stop = some m ↔
      ∃ a b, cs = a ++ m ++ b ∧ byteLength a = start ∧ byteLength a + byteLength m = stop := by
  constructor
  · exact append_of_slice?
  · rintro ⟨a, b, rfl, rfl, rfl⟩
    exact slice?_append a m b

/-- Where a text splits is settled by the number of bytes in front. -/
theorem append_inj_of_byteLength {a b c d : List Char} (h : a ++ b = c ++ d)
    (hl : byteLength a = byteLength c) : a = c ∧ b = d := by
  have ha := takeBytes?_append a b
  have hb := dropBytes?_append a b
  rw [h, hl] at ha hb
  rw [takeBytes?_append] at ha
  rw [dropBytes?_append] at hb
  exact ⟨(Option.some.inj ha).symm, (Option.some.inj hb).symm⟩

/-- There is a slice between two splits of a text. -/
theorem exists_slice? {cs a b c d : List Char} {start stop : Nat} (hle : start ≤ stop)
    (hab : cs = a ++ b) (ha : byteLength a = start) (hcd : cs = c ++ d)
    (hc : byteLength c = stop) : ∃ m, slice? cs start stop = some m := by
  rcases List.append_eq_append_iff.mp (hab.symm.trans hcd) with ⟨m, rfl, rfl⟩ | ⟨m, rfl, rfl⟩
  · refine ⟨m, slice?_eq_some_iff.mpr ⟨a, d, hcd, ha, ?_⟩⟩
    rw [← hc, byteLength_append]
  · -- the first split is behind the second one by nothing
    rw [byteLength_append] at ha
    obtain rfl := byteLength_eq_zero.mp (show byteLength m = 0 by omega)
    refine ⟨[], slice?_eq_some_iff.mpr ⟨c, b, by simpa using hab, ?_, ?_⟩⟩
    · simpa using ha
    · rw [hc]
      rfl

/-- Slices that meet are one slice. -/
theorem slice?_append_slice? {cs l r : List Char} {start middle stop : Nat}
    (hl : slice? cs start middle = some l) (hr : slice? cs middle stop = some r) :
    slice? cs start stop = some (l ++ r) := by
  obtain ⟨a, b, h, ha, hal⟩ := append_of_slice? hl
  obtain ⟨c, d, h', hc, hcr⟩ := append_of_slice? hr
  have hsplit : (a ++ l) ++ b = c ++ (r ++ d) := by
    rw [← h, h', List.append_assoc]
  obtain ⟨-, hb⟩ := append_inj_of_byteLength hsplit (by rw [byteLength_append]; omega)
  refine slice?_eq_some_iff.mpr ⟨a, d, ?_, ha, ?_⟩
  · rw [h, hb]
    simp only [List.append_assoc]
  · rw [byteLength_append]
    omega

end Highlighter.Text
