import DocTree.Proofs.Text.Bytes
import DocTree.Text.Words

/-!
# What the dashed spelling of a name keeps

The dashed spelling of a name (`Words.kebab`) holds no ASCII capital, whatever the name, and it
keeps every small ASCII letter of the name. The first fact comes from the table of lower-case forms,
the second from the three passes that a letter goes through: reading the bytes, cutting into words,
writing the bytes again.
-/

namespace DocTree

/-! ## Bytes of characters -/

/-- A byte below 0x80 in the encoding of a character is the whole encoding. -/
theorem toNat_eq_of_mem_utf8EncodeChar {c : Char} {b : UInt8}
    (h : b ∈ String.utf8EncodeChar c) (hb : b < 0x80) : c.toNat = b.toNat := by
  have hb : b.toNat < 128 := hb
  rw [← Char.toNat_val]
  simp only [String.utf8EncodeChar] at h
  split at h
  · next hv =>
    have : b = UInt8.ofNat c.val.toNat := by simpa using h
    subst this
    simp only [UInt8.toNat_ofNat']
    omega
  · -- In the longer forms every byte is 0x80 or more.
    exfalso
    split at h
    · rcases (by simpa using h : _ ∨ _) with rfl | rfl <;> simp at hb <;> omega
    · split at h
      · rcases (by simpa using h : _ ∨ _ ∨ _) with rfl | rfl | rfl <;> simp at hb <;> omega
      · rcases (by simpa using h : _ ∨ _ ∨ _ ∨ _) with rfl | rfl | rfl | rfl <;>
          simp at hb <;> omega

/-! ## Lower-case forms -/

/-- Shifts whose ranges stay above a bound keep what is above it there. -/
theorem Shift.lt_apply {bound : Nat} {shifts : List Shift}
    (h : ∀ s ∈ shifts, (bound : Int) < s.range.first + s.offset) {n : Nat} (hn : bound < n) :
    bound < Shift.apply shifts n := by
  induction shifts with
  | nil => exact hn
  | cons s ss ih =>
    have hs := h s List.mem_cons_self
    rw [Shift.apply]
    split
    · exact hn
    · split
      · omega
      · exact ih fun t ht => h t (List.mem_cons_of_mem s ht)

/-- No lower-case form is an ASCII capital. -/
theorem Letter.toLower_not_capital (c : Char) :
    (Letter.toLower c).toNat < 65 ∨ 90 < (Letter.toLower c).toNat := by
  have key : Shift.apply Letter.lowerShifts c.toNat < 65 ∨
      90 < Shift.apply Letter.lowerShifts c.toNat := by
    -- the first shift of the table takes the capitals down; all others lead above them
    have hcons : Letter.lowerShifts = ⟨⟨0x41, 0x5A, 1⟩, 32⟩ :: Letter.lowerShifts.tail := rfl
    rw [hcons, Shift.apply]
    split
    · next h => exact Or.inl h
    · right
      split
      · simp_all [Range.contains]
        omega
      · next h₁ h₂ =>
        have htail : ∀ s ∈ Letter.lowerShifts.tail, ((90 : Nat) : Int) <
            s.range.first + s.offset := by
          decide +kernel
        apply Shift.lt_apply htail
        simp only [Range.contains, Nat.mod_one, beq_self_eq_true, Bool.and_true, Bool.and_eq_true,
          decide_eq_true_eq, not_and] at h₁ h₂
        omega
  by_cases hvalid : (Shift.apply Letter.lowerShifts c.toNat).isValidChar
  · rw [Letter.toLower, Char.ofNat, dif_pos hvalid]
    exact key
  · -- a number that is no character gives the character zero
    rw [Letter.toLower, Char.ofNat, dif_neg hvalid]
    exact Or.inl (by decide)

namespace Words

/-- **The dashed spelling holds no capital.** -/
theorem kebab_no_capital (name : Bytes) {b : UInt8} (h : b ∈ kebab name) :
    ¬ (octet 'A' ≤ b ∧ b ≤ octet 'Z') := by
  rintro ⟨hA, hZ⟩
  have hA : 65 ≤ b.toNat := hA
  have hZ : b.toNat ≤ 90 := hZ
  rcases Bytes.mem_join h with hdash | ⟨part, hpart, hb⟩
  · have : b = 45 := by simpa [ascii, octet] using hdash
    subst this
    simp at hA
  · -- a byte of a word comes from a lower-case form, and an ASCII byte is that form
    obtain ⟨word, -, rfl⟩ := List.mem_map.1 hpart
    obtain ⟨c, hc, hb⟩ := List.mem_flatMap.1 hb
    obtain ⟨c', -, rfl⟩ := List.mem_map.1 hc
    have hlt : b < 0x80 := show b.toNat < 128 by omega
    have := toNat_eq_of_mem_utf8EncodeChar hb hlt
    rcases Letter.toLower_not_capital c' with h | h <;> omega

end Words

/-! ## Letters that stay -/

namespace Utf8

theorem head_of_lt {b : UInt8} (h : b < 0x80) (rest : Bytes) :
    head b rest = (Char.ofNat b.toNat, 0) := by
  simp [head, h]

/-- The bytes that a character takes behind its first one are 0x80 or more. -/
theorem le_of_mem_take_head (b x : UInt8) (rest : Bytes) :
    x ∈ rest.take (head b rest).2 → 0x80 ≤ x := by
  have hcont : ∀ y : UInt8, isContinuation y = true → 0x80 ≤ y := by
    intro y hy
    simp only [isContinuation, Bool.and_eq_true, decide_eq_true_eq] at hy
    exact hy.1
  have hlow : ∀ {p : Bool} {low y : UInt8}, 0x80 ≤ low → (if p then low else 0x80) ≤ y →
      0x80 ≤ y := by
    intro p low y hlow hy
    cases p with
    | false => exact hy
    | true => exact UInt8.le_trans hlow hy
  fun_cases head b rest with
  | case3 _ _ _ c _ hc =>
    intro h
    have hx : x = c := by simpa using h
    exact hx ▸ hcont c hc
  | case6 _ _ _ _ low high c d _ hcd =>
    intro h
    simp only [Bool.and_eq_true, decide_eq_true_eq] at hcd
    have hx : x = c ∨ x = d := by simpa using h
    rcases hx with rfl | rfl
    · exact hlow (by decide) hcd.1.1
    · exact hcont x hcd.2
  | case9 _ _ _ _ _ low high c d e _ hcde =>
    intro h
    simp only [Bool.and_eq_true, decide_eq_true_eq] at hcde
    have hx : x = c ∨ x = d ∨ x = e := by simpa using h
    rcases hx with rfl | rfl | rfl
    · exact hlow (by decide) hcde.1.1.1
    · exact hcont x hcde.1.2
    · exact hcont x hcde.2
  | _ => simp -- the character is the first byte alone

/-- Characters that are read stay. -/
theorem mem_decodeFrom_of_mem_done {c : Char} {skip : Nat} {s : Bytes} {done : List Char}
    (h : c ∈ done) : c ∈ decodeFrom skip s done := by
  fun_induction decodeFrom skip s done with
  | case1 => simpa using h
  | case2 skip _ rest done ih => exact ih h
  | case3 b rest done c' used _ ih => exact ih (List.mem_cons_of_mem c' h)

/-- A byte below 0x80 is a character of its own, wherever it stands. -/
theorem mem_decodeFrom {b : UInt8} (hb : b < 0x80) {skip : Nat} {s : Bytes} {done : List Char}
    (hskip : ∀ x ∈ s.take skip, 0x80 ≤ x) (h : b ∈ s) :
    Char.ofNat b.toNat ∈ decodeFrom skip s done := by
  fun_induction decodeFrom skip s done with
  | case1 => simp at h
  | case2 skip x rest done ih =>
    -- the byte is not one of those that are skipped
    rw [List.take_succ_cons] at hskip
    have hne : b ≠ x := fun hbx => UInt8.not_lt.2 (hskip x List.mem_cons_self) (hbx ▸ hb)
    exact ih (fun y hy => hskip y (List.mem_cons_of_mem x hy)) (List.mem_of_ne_of_mem hne h)
  | case3 x rest done c used hhead ih =>
    rcases List.mem_cons.1 h with rfl | hrest
    · rw [head_of_lt hb] at hhead
      obtain ⟨rfl, rfl⟩ := Prod.mk.inj hhead
      exact mem_decodeFrom_of_mem_done List.mem_cons_self
    · -- the character in front takes only bytes beyond ASCII
      have hused : used = (head x rest).2 := by rw [hhead]
      exact ih (fun y hy => le_of_mem_take_head x y rest (hused ▸ hy)) hrest

end Utf8

namespace Words

/-- Only a separator is dropped between words. -/
theorem boundary_ne_gap {curr : Char} (h : isSeparator curr = false) (prev next : Char) :
    boundary prev curr next ≠ .gap := by
  unfold boundary
  split
  · decide
  split
  · decide
  split
  · next hsep => rw [h] at hsep; cases hsep
  split
  · decide
  split <;> decide

theorem mem_push {c : Char} {word : List Char} {done : List (List Char)}
    (h : c ∈ word ∨ ∃ w ∈ done, c ∈ w) : ∃ w ∈ push word done, c ∈ w := by
  unfold push
  split
  · next hw => simpa [List.isEmpty_iff.1 hw] using h
  · rcases h with hc | ⟨w, hw, hc⟩
    · exact ⟨word.reverse, List.mem_cons_self, List.mem_reverse.2 hc⟩
    · exact ⟨w, List.mem_cons_of_mem _ hw, hc⟩

/-- A character that is in a word, or is still to come and is no separator, ends up in a word. -/
theorem mem_splitFrom {c : Char} (hc : isSeparator c = false) {prev : Char}
    {cs word : List Char} {done : List (List Char)}
    (h : c ∈ cs ∨ c ∈ word ∨ ∃ w ∈ done, c ∈ w) : ∃ w ∈ splitFrom prev cs word done, c ∈ w := by
  induction cs generalizing prev word done with
  | nil =>
    obtain ⟨w, hw, hcw⟩ := mem_push (h.resolve_left (by simp))
    exact ⟨w, List.mem_reverse.2 hw, hcw⟩
  | cons curr rest ih =>
    have hpush : c ∈ word ∨ (∃ w ∈ done, c ∈ w) → ∃ w ∈ push word done, c ∈ w := mem_push
    rw [splitFrom]
    split
    · -- the current word grows
      apply ih
      rcases h with h | h | h
      · rcases List.mem_cons.1 h with rfl | h
        · exact Or.inr (Or.inl List.mem_cons_self)
        · exact Or.inl h
      · exact Or.inr (Or.inl (List.mem_cons_of_mem curr h))
      · exact Or.inr (Or.inr h)
    · next hgap =>
      -- the current character is dropped, so it is not `c`
      apply ih
      rcases h with h | h
      · rcases List.mem_cons.1 h with rfl | h
        · exact absurd hgap (boundary_ne_gap hc prev _)
        · exact Or.inl h
      · exact Or.inr (Or.inr (hpush h))
    · -- the current character opens a word
      apply ih
      rcases h with h | h
      · rcases List.mem_cons.1 h with rfl | h
        · exact Or.inr (Or.inl List.mem_cons_self)
        · exact Or.inl h
      · exact Or.inr (Or.inr (hpush h))

/-- **The dashed spelling keeps the small letters of a name.** -/
theorem mem_kebab_of_small {name : Bytes} {b : UInt8} (ha : octet 'a' ≤ b) (hz : b ≤ octet 'z')
    (h : b ∈ name) : b ∈ kebab name := by
  have ha : 97 ≤ b.toNat := ha
  have hz : b.toNat ≤ 122 := hz
  -- What the three passes do to a small letter is a matter of twenty-six cases.
  have htable : ∀ n < 26, isSeparator (Char.ofNat (97 + n)) = false ∧
      String.utf8EncodeChar (Letter.toLower (Char.ofNat (97 + n))) = [UInt8.ofNat (97 + n)] := by
    decide +kernel
  obtain ⟨hsep, henc⟩ := htable (b.toNat - 97) (by omega)
  rw [show 97 + (b.toNat - 97) = b.toNat by omega] at hsep henc
  have hmem : Char.ofNat b.toNat ∈ Utf8.decode name :=
    Utf8.mem_decodeFrom (show b.toNat < 128 by omega) (by simp) h
  have hsplit : ∃ w ∈ split name, Char.ofNat b.toNat ∈ w := mem_splitFrom hsep (Or.inl hmem)
  obtain ⟨word, hword, hc⟩ := hsplit
  refine Bytes.mem_join_of_mem _ (List.mem_map.2 ⟨word, hword, rfl⟩) ?_
  refine List.mem_flatMap.2 ⟨_, List.mem_map.2 ⟨_, hc, rfl⟩, ?_⟩
  rw [henc]
  simp

end Words

end DocTree
