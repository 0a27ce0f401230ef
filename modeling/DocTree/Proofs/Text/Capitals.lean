import DocTree.Proofs.Text.Spelling
import Mathlib.Data.List.Chain

/-!
# Words of small letters and their capitals

A name that runs words together, each with a capital in front, is cut in front of its capitals. Two
words that are a single letter each are not told apart: their capitals stand side by side, and no
small letter follows the second one. Where no two neighbours are of this kind the words are found
again (`splitFrom_capitals`), and otherwise too few are found (`length_splitFrom_capitals_lt`).
-/

namespace DocTree

/-! ## Small letters -/

/-- What the tables of characters say of a small ASCII letter and of its capital. -/
structure Letter.Small (c : Char) : Prop where
  isLower : Letter.isLower c = true
  isUpper : Letter.isUpper c = false
  isSeparator : Words.isSeparator c = false
  toLower : Letter.toLower c = c
  ascii : c.toNat < 128
  capital_isLower : Letter.isLower (Letter.toUpper c) = false
  capital_isUpper : Letter.isUpper (Letter.toUpper c) = true
  capital_isSeparator : Words.isSeparator (Letter.toUpper c) = false
  capital_toLower : Letter.toLower (Letter.toUpper c) = c
  capital_ascii : (Letter.toUpper c).toNat < 128

/-- The letters from `a` to `z` are small letters. -/
theorem Letter.small_of_range {n : Nat} (ha : 97 ≤ n) (hz : n ≤ 122) :
    Letter.Small (Char.ofNat n) := by
  have htable : ∀ k < 26, Letter.isLower (Char.ofNat (97 + k)) = true ∧
      Letter.isUpper (Char.ofNat (97 + k)) = false ∧
      Words.isSeparator (Char.ofNat (97 + k)) = false ∧
      Letter.toLower (Char.ofNat (97 + k)) = Char.ofNat (97 + k) ∧
      (Char.ofNat (97 + k)).toNat < 128 ∧
      Letter.isLower (Letter.toUpper (Char.ofNat (97 + k))) = false ∧
      Letter.isUpper (Letter.toUpper (Char.ofNat (97 + k))) = true ∧
      Words.isSeparator (Letter.toUpper (Char.ofNat (97 + k))) = false ∧
      Letter.toLower (Letter.toUpper (Char.ofNat (97 + k))) = Char.ofNat (97 + k) ∧
      (Letter.toUpper (Char.ofNat (97 + k))).toNat < 128 := by
    -- a table of twenty-six rows
    decide +kernel
  obtain ⟨h₁, h₂, h₃, h₄, h₅, h₆, h₇, h₈, h₉, h₁₀⟩ := htable (n - 97) (by omega)
  rw [show 97 + (n - 97) = n by omega] at *
  exact ⟨h₁, h₂, h₃, h₄, h₅, h₆, h₇, h₈, h₉, h₁₀⟩

namespace Words

/-! ## Boundaries -/

/-- What is neither a capital nor a separator begins no word. -/
theorem boundary_inside {curr : Char} (hupper : Letter.isUpper curr = false)
    (hsep : isSeparator curr = false) (prev next : Char) : boundary prev curr next = .inside := by
  simp [boundary, hupper, hsep]

/-- A capital begins a word, unless a capital stands in front of it and no small letter behind. -/
theorem boundary_capital {prev curr next : Char} (hcurr : Letter.Small curr)
    (h : Letter.isUpper prev = false ∨ Letter.Small next) :
    boundary prev (Letter.toUpper curr) next = .start := by
  rcases h with hprev | hnext
  · simp [boundary, hcurr.capital_isLower, hcurr.capital_isUpper, hcurr.capital_isSeparator, hprev]
  · cases hprev : Letter.isUpper prev <;>
      simp [boundary, hcurr.capital_isLower, hcurr.capital_isUpper, hcurr.capital_isSeparator,
        hprev, hnext.isLower, hnext.isUpper]

/-- A capital behind a capital begins no word, if no small letter follows. -/
theorem boundary_capitals {prev curr next : Char} (hcurr : Letter.Small curr)
    (hprev : Letter.isUpper prev = true) (hnext : Letter.isLower next = false) :
    boundary prev (Letter.toUpper curr) next = .inside := by
  simp [boundary, hcurr.capital_isLower, hcurr.capital_isUpper, hcurr.capital_isSeparator, hprev,
    hnext]

/-! ## Splitting -/

/-- Characters that are neither capitals nor separators continue the current word. -/
theorem splitFrom_append {run : List Char}
    (h : ∀ c ∈ run, Letter.isUpper c = false ∧ isSeparator c = false) (prev : Char)
    (rest word : List Char) (done : List (List Char)) :
    splitFrom prev (run ++ rest) word done =
      splitFrom (run.getLastD prev) rest (run.reverse ++ word) done := by
  induction run generalizing prev word with
  | nil => rfl
  | cons c run ih =>
    obtain ⟨⟨hupper, hsep⟩, hrun⟩ := List.forall_mem_cons.1 h
    -- the letter goes to the word that is being read
    rw [List.cons_append, splitFrom, boundary_inside hupper hsep, List.getLastD_cons,
      List.reverse_cons, List.append_assoc]
    exact ih hrun c (c :: word)

/-- A word of small letters. -/
structure SmallWord (w : List Char) : Prop where
  ne_nil : w ≠ []
  small : ∀ c ∈ w, Letter.Small c

theorem lower_of_small {w : List Char} (h : ∀ c ∈ w, Letter.Small c) : lower w = w := by
  rw [lower]
  exact (List.map_congr_left fun c hc => (h c hc).toLower).trans (List.map_id w)

/-- A word is a letter and more letters, and is capitalized in its first letter. -/
theorem SmallWord.exists_cons {w : List Char} (h : SmallWord w) :
    ∃ c t, w = c :: t ∧ Letter.Small c ∧ (∀ d ∈ t, Letter.Small d) ∧
      capitalized w = Letter.toUpper c :: t := by
  obtain ⟨c, t, rfl⟩ := List.exists_cons_of_ne_nil h.ne_nil
  obtain ⟨hc, ht⟩ := List.forall_mem_cons.1 h.small
  exact ⟨c, t, rfl, hc, ht, by rw [capitalized, lower_of_small ht]⟩

/-- Capitalizing a word is undone by making its letters small. -/
theorem SmallWord.lower_capitalized {w : List Char} (h : SmallWord w) :
    lower (capitalized w) = w := by
  obtain ⟨c, t, rfl, hc, ht, hcap⟩ := h.exists_cons
  rw [hcap, lower, List.map_cons, hc.capital_toLower]
  exact congrArg _ (lower_of_small ht)

theorem not_special_of_small {w : List Char} (h : ∀ c ∈ w, Letter.Small c) :
    ∀ c ∈ w, Letter.isUpper c = false ∧ isSeparator c = false :=
  fun c hc => ⟨(h c hc).isUpper, (h c hc).isSeparator⟩

/-- The last character of a capitalized word. -/
def lastOf (w : List Char) : Char := (capitalized w).getLastD (Char.ofNat 0)

/-- It is a capital if and only if the word is a single letter. -/
theorem SmallWord.isUpper_lastOf {w : List Char} (h : SmallWord w) :
    Letter.isUpper (lastOf w) = true ↔ w.length = 1 := by
  obtain ⟨c, t, rfl, hc, ht, hcap⟩ := h.exists_cons
  rw [lastOf, hcap, List.getLastD_cons]
  cases ht' : t.getLast? with
  -- the capital is the whole word
  | none =>
    obtain rfl := List.getLast?_eq_none_iff.1 ht'
    simp [hc.capital_isUpper]
  | some d =>
    -- the last letter is one of the small ones behind it
    have hd : Letter.Small d := ht d (List.mem_of_getLast? ht')
    have hne : t ≠ [] := by
      rintro rfl
      cases ht'
    simp [List.getLastD_eq_getLast?, ht', hd.isUpper, hne]

/-- The last of some small letters is no capital, and neither is the zero that stands in front of a
name. -/
theorem isUpper_getLastD {run : List Char} (h : ∀ c ∈ run, Letter.Small c) :
    Letter.isUpper (run.getLastD (Char.ofNat 0)) ≠ true := by
  rw [List.getLastD_eq_getLast?]
  cases hlast : run.getLast? with
  | none => decide +kernel
  | some c => simp [(h c (List.mem_of_getLast? hlast)).isUpper]

/-- Two words that are a single letter each. -/
def Twins (v w : List Char) : Prop := v.length = 1 ∧ w.length = 1

instance (v w : List Char) : Decidable (Twins v w) := inferInstanceAs (Decidable (_ ∧ _))

/-- A capitalized word begins where its capital does not follow a capital, or is followed by a small
letter. -/
theorem SmallWord.splitFrom_start {w : List Char} (h : SmallWord w) {prev : Char}
    (hprev : Letter.isUpper prev = true → w.length ≠ 1) (rest word : List Char)
    (done : List (List Char)) :
    splitFrom prev (capitalized w ++ rest) word done =
      splitFrom (lastOf w) rest (capitalized w).reverse (push word done) := by
  obtain ⟨c, t, rfl, hc, ht, hcap⟩ := h.exists_cons
  have hstart : boundary prev (Letter.toUpper c) ((t ++ rest).headD (Char.ofNat 0)) = .start := by
    apply boundary_capital hc
    cases hupper : Letter.isUpper prev with
    | false => exact Or.inl rfl
    | true =>
      -- behind a capital the word has a second letter
      cases t with
      | nil => exact absurd rfl (hprev hupper)
      | cons d t => exact Or.inr (ht d List.mem_cons_self)
  rw [lastOf, hcap, List.cons_append, splitFrom, hstart, List.getLastD_cons]
  simp only [splitFrom_append (not_special_of_small ht), List.reverse_cons]

/-- A single letter behind another one is taken for its continuation. -/
theorem SmallWord.splitFrom_inside {w : List Char} (h : SmallWord w) (hw : w.length = 1)
    {prev : Char} (hprev : Letter.isUpper prev = true) {rest : List Char}
    (hrest : Letter.isLower (rest.headD (Char.ofNat 0)) = false) (word : List Char)
    (done : List (List Char)) :
    splitFrom prev (capitalized w ++ rest) word done =
      splitFrom (lastOf w) rest ((capitalized w).reverse ++ word) done := by
  obtain ⟨c, t, rfl, hc, ht, hcap⟩ := h.exists_cons
  obtain rfl : t = [] := by simpa using hw
  rw [lastOf, hcap, List.cons_append, splitFrom, List.nil_append, boundary_capitals hc hprev hrest]
  rfl

/-- Capitalized words do not begin with a small letter. -/
theorem isLower_head_capitals {ws : List (List Char)} (h : ∀ w ∈ ws, SmallWord w) :
    Letter.isLower ((ws.flatMap capitalized).headD (Char.ofNat 0)) = false := by
  cases ws with
  | nil => decide +kernel
  | cons w ws =>
    obtain ⟨c, t, rfl, hc, -, hcap⟩ := (h w List.mem_cons_self).exists_cons
    rw [List.flatMap_cons, hcap]
    exact hc.capital_isLower

/-! ## Words run together -/

theorem push_of_ne_nil {word : List Char} (h : word ≠ []) (done : List (List Char)) :
    push word done = word.reverse :: done := by
  rw [push, if_neg (by simpa using h)]

/-- Taking in a word loses none. -/
theorem length_le_length_push (word : List Char) (done : List (List Char)) :
    done.length ≤ (push word done).length := by
  unfold push
  split <;> simp

theorem SmallWord.capitalized_ne_nil {w : List Char} (h : SmallWord w) : capitalized w ≠ [] := by
  obtain ⟨c, t, rfl, -, -, hcap⟩ := h.exists_cons
  simp [hcap]

theorem SmallWord.push_capitalized {w : List Char} (h : SmallWord w) (done : List (List Char)) :
    push (capitalized w).reverse done = capitalized w :: done := by
  rw [push_of_ne_nil (by simpa using h.capitalized_ne_nil), List.reverse_reverse]

/-- Words are found again where no two neighbours are twins. By induction on the words, with the one
before them as `v`. -/
theorem splitFrom_capitals {v : List Char} {ws : List (List Char)} (hv : SmallWord v)
    (h : ∀ w ∈ ws, SmallWord w) (hchain : (v :: ws).IsChain fun v w => ¬ Twins v w)
    (word : List Char) (done : List (List Char)) :
    splitFrom (lastOf v) (ws.flatMap capitalized) word done =
      (push word done).reverse ++ ws.map capitalized := by
  induction ws generalizing v word done with
  | nil => simp [splitFrom]
  | cons w ws ih =>
    obtain ⟨hw, hws⟩ := List.forall_mem_cons.1 h
    obtain ⟨hapart, hchain⟩ := List.isChain_cons_cons.1 hchain
    -- a capital in front of `w` is all of `v`, and then `w` has a second letter
    rw [List.flatMap_cons,
      hw.splitFrom_start fun hupper hlen => hapart ⟨hv.isUpper_lastOf.1 hupper, hlen⟩,
      ih hw hws hchain, hw.push_capitalized]
    simp

/-- No more words are found than there are. -/
theorem length_splitFrom_capitals_le {ws : List (List Char)} (h : ∀ w ∈ ws, SmallWord w)
    (prev : Char) (word : List Char) (done : List (List Char)) :
    (splitFrom prev (ws.flatMap capitalized) word done).length ≤
    (push word done).length + ws.length := by
  induction ws generalizing prev word done with
  | nil => simp [splitFrom]
  | cons w ws ih =>
    obtain ⟨hw, hws⟩ := List.forall_mem_cons.1 h
    rw [List.flatMap_cons, List.length_cons]
    by_cases hstart : Letter.isUpper prev = true → w.length ≠ 1
    · -- the word is found
      rw [hw.splitFrom_start hstart]
      have hle := ih hws (lastOf w) (capitalized w).reverse (push word done)
      rw [hw.push_capitalized, List.length_cons] at hle
      omega
    · -- the word is added to the one before it
      obtain ⟨hupper, hlen⟩ := Classical.not_imp.1 hstart
      rw [hw.splitFrom_inside (not_not.1 hlen) hupper (isLower_head_capitals hws)]
      have hle := ih hws (lastOf w) ((capitalized w).reverse ++ word) done
      rw [push_of_ne_nil (by simp [hw.capitalized_ne_nil]), List.length_cons] at hle
      have hpush := length_le_length_push word done
      omega

/-- Behind the word `v`, fewer words are found if two neighbours are twins. By induction on the
words. -/
theorem length_splitFrom_capitals_lt {v : List Char} {ws : List (List Char)} (hv : SmallWord v)
    (h : ∀ w ∈ ws, SmallWord w) (hchain : ¬ (v :: ws).IsChain fun v w => ¬ Twins v w)
    {word : List Char} (hword : word ≠ []) (done : List (List Char)) :
    (splitFrom (lastOf v) (ws.flatMap capitalized) word done).length <
      done.length + 1 + ws.length := by
  induction ws generalizing v word done with
  | nil => exact absurd (List.isChain_singleton v) hchain
  | cons w ws ih =>
    obtain ⟨hw, hws⟩ := List.forall_mem_cons.1 h
    rw [List.flatMap_cons, List.length_cons]
    by_cases htwins : Twins v w
    · -- the second twin begins no word of its own
      rw [hw.splitFrom_inside htwins.2 (hv.isUpper_lastOf.2 htwins.1) (isLower_head_capitals hws)]
      have hle := length_splitFrom_capitals_le hws (lastOf w) ((capitalized w).reverse ++ word) done
      rw [push_of_ne_nil (by simp [hword]), List.length_cons] at hle
      omega
    · -- the twins stand further on
      have hrest : ¬ (w :: ws).IsChain fun v w => ¬ Twins v w :=
        fun hrest => hchain (List.isChain_cons_cons.2 ⟨htwins, hrest⟩)
      rw [hw.splitFrom_start fun hupper hlen => htwins ⟨hv.isUpper_lastOf.1 hupper, hlen⟩]
      have hne : (capitalized w).reverse ≠ [] := by simpa using hw.capitalized_ne_nil
      have hlt := ih hw hws hrest hne (push word done)
      rw [push_of_ne_nil hword, List.length_cons] at hlt
      rw [push_of_ne_nil hword]
      omega

/-- The words of a name that begins with small letters and goes on with capitalized words. -/
theorem splitFrom_small_capitals {plain : List Char} {ws : List (List Char)}
    (hplain : ∀ c ∈ plain, Letter.Small c) (h : ∀ w ∈ ws, SmallWord w)
    (hchain : ws.IsChain fun v w => ¬ Twins v w) :
    splitFrom (Char.ofNat 0) (plain ++ ws.flatMap capitalized) [] [] =
      (push plain.reverse []).reverse ++ ws.map capitalized := by
  rw [splitFrom_append (not_special_of_small hplain), List.append_nil]
  cases ws with
  | nil => simp [splitFrom]
  | cons w ws =>
    -- no capital stands in front of the first capitalized word
    obtain ⟨hw, hws⟩ := List.forall_mem_cons.1 h
    rw [List.flatMap_cons, hw.splitFrom_start fun hupper => absurd hupper (isUpper_getLastD hplain),
      splitFrom_capitals hw hws hchain, hw.push_capitalized]
    simp

/-- Fewer words are found if two of the capitalized ones are twins and neighbours. -/
theorem length_splitFrom_small_capitals_lt {plain : List Char} {ws : List (List Char)}
    (hplain : ∀ c ∈ plain, Letter.Small c) (h : ∀ w ∈ ws, SmallWord w)
    (hchain : ¬ ws.IsChain fun v w => ¬ Twins v w) :
    (splitFrom (Char.ofNat 0) (plain ++ ws.flatMap capitalized) [] []).length <
      (push plain.reverse []).length + ws.length := by
  rw [splitFrom_append (not_special_of_small hplain), List.append_nil]
  cases ws with
  | nil => exact absurd List.isChain_nil hchain
  | cons w ws =>
    obtain ⟨hw, hws⟩ := List.forall_mem_cons.1 h
    have hne : (capitalized w).reverse ≠ [] := by simpa using hw.capitalized_ne_nil
    rw [List.flatMap_cons, hw.splitFrom_start fun hupper => absurd hupper (isUpper_getLastD hplain)]
    have hlt := length_splitFrom_capitals_lt hw hws hchain hne (push plain.reverse [])
    rw [List.length_cons]
    omega

/-- Words with dashes between them are found. -/
theorem splitFrom_dashed {w : List Char} {ws : List (List Char)} (h : ∀ v ∈ w :: ws, SmallWord v)
    (prev : Char) (done : List (List Char)) :
    splitFrom prev (['-'].intercalate (w :: ws)) [] done = done.reverse ++ w :: ws := by
  induction ws generalizing w prev done with
  | nil =>
    have hw : SmallWord w := h w List.mem_cons_self
    have hsplit := splitFrom_append (not_special_of_small hw.small) prev [] [] done
    rw [List.append_nil, List.append_nil] at hsplit
    rw [List.intercalate_singleton, hsplit, splitFrom, push_of_ne_nil (by simpa using hw.ne_nil)]
    simp
  | cons v ws ih =>
    obtain ⟨hw, hws⟩ := List.forall_mem_cons.1 h
    -- a dash ends the word and is dropped
    have hdash : ∀ prev next : Char, boundary prev '-' next = .gap := by
      have hclass : Letter.isLower '-' = false ∧ Letter.isUpper '-' = false ∧
          isSeparator '-' = true := by
        decide +kernel
      simp [boundary, hclass]
    rw [List.intercalate_cons_cons, List.append_assoc,
      splitFrom_append (not_special_of_small hw.small), List.append_nil, List.singleton_append,
      splitFrom, hdash]
    simp only [push_of_ne_nil (show w.reverse ≠ [] by simpa using hw.ne_nil), List.reverse_reverse,
      ih hws]
    simp

end Words

/-! ## ASCII text -/

/-- The characters of an ASCII text. -/
def chars (s : Bytes) : List Char := s.map fun b => Char.ofNat b.toNat

theorem chars_append (s t : Bytes) : chars (s ++ t) = chars s ++ chars t := List.map_append

@[simp] theorem length_chars (s : Bytes) : (chars s).length = s.length := List.length_map _

/-- The characters of words with dashes between them. -/
theorem chars_join (words : List Bytes) :
    chars (Bytes.join (ascii "-") words) = ['-'].intercalate (words.map chars) := by
  induction words with
  | nil => rfl
  | cons w ws ih =>
    cases ws with
    | nil => rw [Bytes.join_singleton, List.map_singleton, List.intercalate_singleton]
    | cons v vs =>
      have hdash : chars (ascii "-") = ['-'] := by decide
      rw [Bytes.join_cons_cons, chars_append, chars_append, ih, hdash]
      simp only [List.map_cons, List.intercalate_cons_cons, List.append_assoc]

namespace Utf8

theorem decode_ascii {s : Bytes} (h : ∀ b ∈ s, b < 0x80) : decode s = chars s := by
  have hdecode : ∀ done, decodeFrom 0 s done = done.reverse ++ chars s := by
    induction s with
    | nil => simp [decodeFrom, chars]
    | cons b s ih =>
      intro done
      obtain ⟨hb, hs⟩ := List.forall_mem_cons.1 h
      rw [decodeFrom, head_of_lt hb]
      simp [ih hs, chars]
  exact hdecode []

theorem utf8EncodeChar_ascii {c : Char} (h : c.toNat < 128) :
    String.utf8EncodeChar c = [UInt8.ofNat c.toNat] := by
  have hle : c.toNat ≤ 127 := Nat.le_of_lt_succ h
  simp [String.utf8EncodeChar, hle]

theorem encode_ascii {cs : List Char} (h : ∀ c ∈ cs, c.toNat < 128) :
    encode cs = cs.map fun c => UInt8.ofNat c.toNat := by
  induction cs with
  | nil => rfl
  | cons c cs ih =>
    obtain ⟨hc, hcs⟩ := List.forall_mem_cons.1 h
    rw [encode, List.flatMap_cons, utf8EncodeChar_ascii hc, List.map_cons]
    exact congrArg _ (ih hcs)

theorem toNat_of_mem_chars {s : Bytes} (h : ∀ b ∈ s, b < 0x80) : ∀ c ∈ chars s, c.toNat < 128 := by
  intro c hc
  obtain ⟨b, hb, rfl⟩ := List.mem_map.1 hc
  have hlt : b.toNat < 128 := h b hb
  rwa [Char.toNat_ofNat, if_pos (Or.inl (by omega))]

/-- An ASCII text is written again as it was. -/
theorem encode_chars {s : Bytes} (h : ∀ b ∈ s, b < 0x80) : encode (chars s) = s := by
  rw [encode_ascii (toNat_of_mem_chars h), chars, List.map_map]
  refine (List.map_congr_left fun b hb => ?_).trans (List.map_id s)
  have hlt : b.toNat < 128 := h b hb
  have hvalid : b.toNat.isValidChar := Or.inl (by omega)
  simp [Char.toNat_ofNat, hvalid]

theorem decode_encode_ascii {cs : List Char} (h : ∀ c ∈ cs, c.toNat < 128) :
    decode (encode cs) = cs := by
  have hbytes : ∀ c ∈ cs, (UInt8.ofNat c.toNat).toNat = c.toNat := by
    intro c hc
    exact UInt8.toNat_ofNat_of_lt' (Nat.lt_trans (h c hc) (by decide))
  have hlt : ∀ b ∈ cs.map fun c => UInt8.ofNat c.toNat, b < 0x80 := by
    intro b hb
    obtain ⟨c, hc, rfl⟩ := List.mem_map.1 hb
    exact UInt8.lt_iff_toNat_lt.2 (by rw [hbytes c hc]; exact h c hc)
  rw [encode_ascii h, decode_ascii hlt, chars, List.map_map]
  -- character by character
  refine (List.map_congr_left fun c hc => ?_).trans (List.map_id cs)
  simp only [Function.comp_apply, hbytes c hc, Char.ofNat_toNat, id]

end Utf8

end DocTree
