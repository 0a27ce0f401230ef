import DocTree.Proofs.Text.Words
import Mathlib

/-!
# Where the bytes of a spelling come from

The dashed spelling of a name is made of dashes and of the lower-case forms of the characters of the
name (`Words.exists_of_mem_kebab`), and a character that is read from a text is an ASCII byte of the
text or comes from bytes beyond ASCII (`Utf8.exists_of_mem_decode`). In particular no zero byte
comes in.
-/

namespace DocTree

/-! ## Reading -/

namespace Utf8

/-- The bounds of a second byte, of which one depends on the first byte. -/
theorem second_bounds {b c k l low high : UInt8} (hlow : 0x80 ≤ low) (hhigh : high ≤ 0xBF)
    (h : (if b == k then low else 0x80) ≤ c) (h' : c ≤ if b == l then high else 0xBF) :
    (b.toNat = k.toNat → low.toNat ≤ c.toNat) ∧ (b.toNat = l.toNat → c.toNat ≤ high.toNat) ∧
      0x80 ≤ c.toNat ∧ c.toNat ≤ 0xBF := by
  simp only [UInt8.le_iff_toNat_le, beq_iff_eq, ← UInt8.toNat_inj] at *
  refine ⟨fun hk => ?_, fun hl => ?_, ?_, ?_⟩
  · simpa [hk] using h
  · simpa [hl] using h'
  · split at h
    · exact Nat.le_trans hlow h
    · exact h
  · split at h'
    · exact Nat.le_trans h' hhigh
    · exact h'

/-- The first character of a text is the first byte, if that is ASCII, and otherwise a character
beyond ASCII: no form is overlong, and none gives a number that is no character. -/
theorem head_fst (b : UInt8) (rest : Bytes) :
    (b < 0x80 ∧ (head b rest).1 = Char.ofNat b.toNat) ∨
    (0x80 ≤ b ∧ 0x80 ≤ (head b rest).1.toNat) := by
  -- only a number that is no character would become the character zero
  have hval : ∀ n, 0x80 ≤ n → n < 0xD800 ∨ 0xDFFF < n ∧ n < 0x110000 →
      0x80 ≤ (Char.ofNat n).toNat := by
    intro n hn hvalid
    rwa [Char.toNat_ofNat, if_pos hvalid]
  fun_cases head b rest with
  | case1 _ h => exact .inl ⟨h, rfl⟩
  | case3 h₀ h₁ h₂ c _ hc =>
    refine .inr ⟨UInt8.not_lt.1 h₀, ?_⟩
    have h₁ : 0xC2 ≤ b.toNat := UInt8.not_lt.1 h₁
    have h₂ : b.toNat < 0xE0 := h₂
    apply hval <;> simp only [payload] <;> omega
  | case6 h₀ h₁ h₂ h₃ low high c d _ hcd =>
    refine .inr ⟨UInt8.not_lt.1 h₀, ?_⟩
    have h₂ : 0xE0 ≤ b.toNat := UInt8.not_lt.1 h₂
    have h₃ : b.toNat < 0xF0 := h₃
    simp only [Bool.and_eq_true, decide_eq_true_eq] at hcd
    obtain ⟨hlow, hhigh, hc⟩ := second_bounds (by decide) (by decide) hcd.1.1 hcd.1.2
    simp only [UInt8.reduceToNat] at hlow hhigh
    apply hval <;> simp only [payload] <;> omega
  | case9 h₀ h₁ h₂ h₃ h₄ low high c d e _ hcde =>
    refine .inr ⟨UInt8.not_lt.1 h₀, ?_⟩
    have h₃ : 0xF0 ≤ b.toNat := UInt8.not_lt.1 h₃
    have h₄ : b.toNat < 0xF5 := h₄
    simp only [Bool.and_eq_true, decide_eq_true_eq] at hcde
    obtain ⟨hlow, hhigh, hc⟩ := second_bounds (by decide) (by decide) hcde.1.1.1 hcde.1.1.2
    simp only [UInt8.reduceToNat] at hlow hhigh
    apply hval <;> simp only [payload] <;> omega
  | _ => exact .inr ⟨UInt8.not_lt.1 ‹_›, by decide⟩

/-- A character that was read is an ASCII byte of the text, or is beyond ASCII and comes from bytes
that are. -/
theorem exists_of_mem_decodeFrom {c : Char} {skip : Nat} {s : Bytes} {done : List Char}
    (h : c ∈ decodeFrom skip s done) :
    c ∈ done ∨ ∃ b ∈ s, (b < 0x80 ∧ c = Char.ofNat b.toNat) ∨ (0x80 ≤ b ∧ 0x80 ≤ c.toNat) := by
  fun_induction decodeFrom skip s done with
  | case1 => exact .inl (by simpa using h)
  -- a byte that is skipped adds no character
  | case2 skip x rest done ih =>
    rcases ih h with hdone | ⟨b, hb, hc⟩
    · exact .inl hdone
    · exact .inr ⟨b, List.mem_cons_of_mem x hb, hc⟩
  | case3 x rest done c' used hhead ih =>
    rcases ih h with hdone | ⟨b, hb, hc⟩
    · rcases List.mem_cons.1 hdone with rfl | hdone
      · -- the character that begins with this byte
        refine .inr ⟨x, List.mem_cons_self, ?_⟩
        simpa [hhead] using head_fst x rest
      · exact .inl hdone
    · exact .inr ⟨b, List.mem_cons_of_mem x hb, hc⟩

theorem exists_of_mem_decode {c : Char} {s : Bytes} (h : c ∈ decode s) :
    ∃ b ∈ s, (b < 0x80 ∧ c = Char.ofNat b.toNat) ∨ (0x80 ≤ b ∧ 0x80 ≤ c.toNat) :=
  (exists_of_mem_decodeFrom h).resolve_left (by simp)

end Utf8

/-! ## Words -/

namespace Words

theorem exists_of_mem_push {c : Char} {word w : List Char} {done : List (List Char)}
    (hw : w ∈ push word done) (hc : c ∈ w) : c ∈ word ∨ ∃ w ∈ done, c ∈ w := by
  unfold push at hw
  split at hw
  · exact .inr ⟨w, hw, hc⟩
  · rcases List.mem_cons.1 hw with rfl | hw
    · exact .inl (List.mem_reverse.1 hc)
    · exact .inr ⟨w, hw, hc⟩

/-- The words of a name are made of its characters. -/
theorem exists_of_mem_splitFrom {c prev : Char} {cs word w : List Char} {done : List (List Char)}
    (hw : w ∈ splitFrom prev cs word done) (hc : c ∈ w) :
    c ∈ cs ∨ c ∈ word ∨ ∃ w ∈ done, c ∈ w := by
  induction cs generalizing prev word done with
  | nil => exact .inr (exists_of_mem_push (List.mem_reverse.1 hw) hc)
  | cons curr rest ih =>
    rw [splitFrom] at hw
    split at hw
    · -- the current word grows
      rcases ih hw with h | h | h
      · exact .inl (List.mem_cons_of_mem curr h)
      · rcases List.mem_cons.1 h with rfl | h
        · exact .inl List.mem_cons_self
        · exact .inr (.inl h)
      · exact .inr (.inr h)
    · -- the current character is dropped
      rcases ih hw with h | h | ⟨w', hw', hc'⟩
      · exact .inl (List.mem_cons_of_mem curr h)
      · cases h
      · exact .inr (exists_of_mem_push hw' hc')
    · -- the current character opens a word
      rcases ih hw with h | h | ⟨w', hw', hc'⟩
      · exact .inl (List.mem_cons_of_mem curr h)
      · obtain rfl := List.mem_singleton.1 h
        exact .inl List.mem_cons_self
      · exact .inr (exists_of_mem_push hw' hc')

/-- The dashed spelling is made of dashes and of the lower-case forms of the characters. -/
theorem exists_of_mem_kebab {name : Bytes} {b : UInt8} (h : b ∈ kebab name) :
    b = octet '-' ∨ ∃ c ∈ Utf8.decode name, b ∈ String.utf8EncodeChar (Letter.toLower c) := by
  rcases Bytes.mem_join h with hdash | ⟨part, hpart, hb⟩
  · exact .inl (by simpa [ascii] using hdash)
  · obtain ⟨word, hword, rfl⟩ := List.mem_map.1 hpart
    obtain ⟨c, hc, hb⟩ := List.mem_flatMap.1 hb
    obtain ⟨c', hc', rfl⟩ := List.mem_map.1 hc
    have hdecode : c' ∈ Utf8.decode name := by
      simpa using exists_of_mem_splitFrom hword hc'
    exact .inr ⟨c', hdecode, hb⟩

end Words

/-! ## Zero -/

/-- Shifts that lead from characters to characters. -/
theorem Shift.valid_apply {shifts : List Shift}
    (h : ∀ s ∈ shifts, 0 < s.range.first + s.offset ∧
      (s.range.last + s.offset < 0xD800 ∨
        0xDFFF < s.range.first + s.offset ∧ s.range.last + s.offset < 0x110000)) {n : Nat}
    (hn : 0 < n) (hvalid : n.isValidChar) :
    0 < Shift.apply shifts n ∧ (Shift.apply shifts n).isValidChar := by
  induction shifts with
  | nil => exact ⟨hn, hvalid⟩
  | cons s ss ih =>
    obtain ⟨hpos, hs⟩ := h s List.mem_cons_self
    rw [Shift.apply]
    split
    · exact ⟨hn, hvalid⟩
    · split
      · next hcontains =>
        simp only [Range.contains, Bool.and_eq_true, decide_eq_true_eq] at hcontains
        unfold Nat.isValidChar
        omega
      · exact ih fun t ht => h t (List.mem_cons_of_mem s ht)

/-- The lower-case form of a character other than zero is not zero. -/
theorem Letter.toLower_pos {c : Char} (h : 0 < c.toNat) : 0 < (Letter.toLower c).toNat := by
  have htable : ∀ s ∈ Letter.lowerShifts, 0 < s.range.first + s.offset ∧
      (s.range.last + s.offset < 0xD800 ∨
        0xDFFF < s.range.first + s.offset ∧ s.range.last + s.offset < 0x110000) := by
    decide +kernel
  -- each shift of the table leads from characters to characters
  obtain ⟨hpos, hvalid⟩ := Shift.valid_apply htable h c.valid
  rw [Letter.toLower, Char.toNat_ofNat, if_pos hvalid]
  exact hpos

/-- The dashed spelling brings no zero byte. -/
theorem Words.zero_notMem_kebab {name : Bytes} (h : 0 ∉ name) : 0 ∉ Words.kebab name := by
  intro hmem
  rcases Words.exists_of_mem_kebab hmem with hdash | ⟨c, hc, hb⟩
  · cases hdash
  · have hzero : (Letter.toLower c).toNat = 0 := toNat_eq_of_mem_utf8EncodeChar hb (by decide)
    -- a character of the name is an ASCII byte of it, which is not zero, or beyond ASCII
    have hpos : 0 < c.toNat := by
      obtain ⟨x, hx, ⟨hlt, rfl⟩ | ⟨-, hc⟩⟩ := Utf8.exists_of_mem_decode hc
      · have hvalid : x.toNat.isValidChar := .inl (Nat.lt_of_lt_of_le x.toNat_lt (by decide))
        rw [Char.toNat_ofNat, if_pos hvalid]
        refine Nat.pos_of_ne_zero fun hx0 => h ?_
        rwa [show x = 0 from UInt8.toNat_inj.1 hx0] at hx
      · omega
    have hlower := Letter.toLower_pos hpos
    omega

end DocTree
