import DocTree.Text.Utf8

/-!
# Laws of trimming

Trimming takes blank bytes off both ends of a text and nothing else (`exists_eq_trim`), and it takes
off all that can be taken, so that trimming again changes nothing (`trim_trim`).
-/

namespace DocTree.Bytes

/-! ## Words dropped from the front -/

/-- None of the words begins the text. -/
def NoneFirst (words : List Bytes) (s : Bytes) : Prop := ∀ w ∈ words, ¬ w <+: s

/-- Bytes that are skipped are dropped, whatever they are. -/
theorem dropWords_skip (words : List Bytes) (skip : Nat) (s : Bytes) :
    dropWords words skip s = dropWords words 0 (s.drop skip) := by
  induction s generalizing skip with
  | nil => cases skip <;> rfl
  | cons b s ih =>
    cases skip with
    | zero => rfl
    | succ skip => rw [dropWords, ih, List.drop_succ_cons]

/-- Where no word stands in front, nothing is dropped. -/
theorem dropWords_of_noneFirst {words : List Bytes} {s : Bytes} (h : NoneFirst words s) :
    dropWords words 0 s = s := by
  cases s with
  | nil => rfl
  | cons b s =>
    have hfind : words.find? (·.isPrefixOf (b :: s)) = none := by
      rw [List.find?_eq_none]
      exact fun w hw hprefix => h w hw (List.isPrefixOf_iff_prefix.1 hprefix)
    rw [dropWords, hfind]

/-- A word in front is dropped, or there is none. -/
theorem dropWords_cases {words : List Bytes} (hwords : ∀ w ∈ words, w ≠ []) (s : Bytes) :
    NoneFirst words s ∨
      ∃ w ∈ words, ∃ rest, s = w ++ rest ∧ dropWords words 0 s = dropWords words 0 rest := by
  cases s with
  -- every word is longer than nothing
  | nil => exact Or.inl fun w hw hprefix => hwords w hw (List.prefix_nil.1 hprefix)
  | cons b s =>
    cases hfind : words.find? (·.isPrefixOf (b :: s)) with
    | none =>
      rw [List.find?_eq_none] at hfind
      exact Or.inl fun w hw hprefix => hfind w hw (List.isPrefixOf_iff_prefix.2 hprefix)
    | some w =>
      have hmem : w ∈ words := List.mem_of_find?_eq_some hfind
      have hprefix : w.isPrefixOf (b :: s) = true := by simpa using List.find?_some hfind
      obtain ⟨rest, hrest⟩ := List.isPrefixOf_iff_prefix.1 hprefix
      -- the first byte of the word is dropped at once and the others are skipped
      obtain ⟨c, more, rfl⟩ := List.exists_cons_of_ne_nil (hwords w hmem)
      obtain ⟨rfl, rfl⟩ := List.cons.inj hrest
      refine Or.inr ⟨_, hmem, rest, rfl, ?_⟩
      rw [dropWords, hfind]
      simp [dropWords_skip]

/-- What is dropped are words, and what is left begins with none. By induction on the length. -/
theorem exists_eq_dropWords {words : List Bytes} (hwords : ∀ w ∈ words, w ≠ []) (s : Bytes) :
    NoneFirst words (dropWords words 0 s) ∧
      ∃ front, s = front ++ dropWords words 0 s ∧ ∀ b ∈ front, ∃ w ∈ words, b ∈ w := by
  rcases dropWords_cases hwords s with hnone | ⟨w, hw, rest, rfl, hdrop⟩
  · rw [dropWords_of_noneFirst hnone]
    exact ⟨hnone, [], rfl, by simp⟩
  · -- the word is not empty, so what is left is shorter
    have hshorter : rest.length < (w ++ rest).length := by
      have := List.length_pos_iff.2 (hwords w hw)
      rw [List.length_append]
      omega
    obtain ⟨hnone, front, hrest, hfront⟩ := exists_eq_dropWords hwords rest
    rw [hdrop]
    refine ⟨hnone, w ++ front, by rw [List.append_assoc, ← hrest], fun b hb => ?_⟩
    rcases List.mem_append.1 hb with hb | hb
    · exact ⟨w, hw, hb⟩
    · exact hfront b hb
termination_by s.length

/-! ## Trimming -/

/-- Does a byte belong to the text of a white space character? -/
def IsBlankByte (b : UInt8) : Prop := ∃ w ∈ blankTexts, b ∈ w

theorem ne_nil_of_mem_blankTexts : ∀ w ∈ blankTexts, w ≠ [] := by decide +kernel

theorem ne_nil_of_mem_reversed {words : List Bytes} (h : ∀ w ∈ words, w ≠ []) :
    ∀ w ∈ words.map List.reverse, w ≠ [] := by
  intro w hw
  obtain ⟨v, hv, rfl⟩ := List.mem_map.1 hw
  simpa using h v hv

/-- From the left, blank bytes are taken until no blank character is in front. -/
theorem trimLeft_spec (s : Bytes) :
    NoneFirst blankTexts (trimLeft s) ∧
      ∃ front, s = front ++ trimLeft s ∧ ∀ b ∈ front, IsBlankByte b :=
  exists_eq_dropWords ne_nil_of_mem_blankTexts s

/-- From the right, blank bytes are taken until no blank character is at the end. The reversed text
is trimmed from the left, with the reversed words. -/
theorem trimRight_spec (s : Bytes) :
    NoneFirst (blankTexts.map List.reverse) (trimRight s).reverse ∧
      ∃ back, s = trimRight s ++ back ∧ ∀ b ∈ back, IsBlankByte b := by
  obtain ⟨hnone, front, hs, hfront⟩ :=
    exists_eq_dropWords (ne_nil_of_mem_reversed ne_nil_of_mem_blankTexts) s.reverse
  refine ⟨by rwa [trimRight, List.reverse_reverse], front.reverse, ?_, fun b hb => ?_⟩
  · rw [trimRight, ← List.reverse_append, ← hs, List.reverse_reverse]
  · obtain ⟨v, hv, hbv⟩ := hfront b (List.mem_reverse.1 hb)
    obtain ⟨w, hw, rfl⟩ := List.mem_map.1 hv
    exact ⟨w, hw, List.mem_reverse.1 hbv⟩

/-- Trimming takes blank bytes off the two ends. -/
theorem exists_eq_trim (s : Bytes) :
    ∃ front back, s = front ++ (trim s ++ back) ∧
      (∀ b ∈ front, IsBlankByte b) ∧ ∀ b ∈ back, IsBlankByte b := by
  obtain ⟨-, front, hs, hfront⟩ := trimLeft_spec s
  obtain ⟨-, back, hleft, hback⟩ := trimRight_spec (trimLeft s)
  refine ⟨front, back, ?_, hfront, hback⟩
  rw [trim, ← hleft, ← hs]

/-- Trimming again changes nothing. -/
@[simp] theorem trim_trim (s : Bytes) : trim (trim s) = trim s := by
  obtain ⟨hfirst, -⟩ := trimLeft_spec s
  obtain ⟨hlast, back, hleft, -⟩ := trimRight_spec (trimLeft s)
  -- what begins the trimmed text begins the text from which only the end was cut
  have hnone : NoneFirst blankTexts (trim s) := by
    rintro w hw ⟨rest, hrest⟩
    refine hfirst w hw ⟨rest ++ back, ?_⟩
    rw [← List.append_assoc, hrest, trim, ← hleft]
  have htrimLeft : trimLeft (trim s) = trim s := dropWords_of_noneFirst hnone
  -- and its end is that of a text which was trimmed on this side
  have htrimRight : trimRight (trim s) = trim s := by
    rw [trimRight, show (trim s).reverse = (trimRight (trimLeft s)).reverse from rfl,
      dropWords_of_noneFirst hlast, List.reverse_reverse, trim]
  rw [trim, htrimLeft, htrimRight]

end DocTree.Bytes
