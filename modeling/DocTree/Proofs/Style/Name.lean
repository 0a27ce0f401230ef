import DocTree.Style
import DocTree.Proofs.Text.Capitals

/-!
# Style sheet names and their keys

A plain name is made of words of small letters with single dashes between them, and perhaps one dash
in front. Its key runs the words together, with capitals in front of some of them (`toKey_text`).
The name is found again from its key but for two kinds of names (`ofKey_toKey_iff`): those that have
two single letters next to each other that become capitals, and those that begin with the word `ms`
without being the name of a vendor.
-/

namespace DocTree

/-- Texts without a dash have one dash less between them than there are texts. -/
theorem Bytes.count_join_dash {parts : List Bytes} (h : ∀ p ∈ parts, octet '-' ∉ p) :
    (join (ascii "-") parts).count (octet '-') = parts.length - 1 := by
  induction parts with
  | nil => rfl
  | cons p parts ih =>
    obtain ⟨hp, hparts⟩ := List.forall_mem_cons.1 h
    cases parts with
    | nil => simpa using List.count_eq_zero.2 hp
    | cons q parts =>
      have hdash : (ascii "-").count (octet '-') = 1 := by decide
      rw [join_cons_cons, List.count_append, List.count_append, ih hparts, List.count_eq_zero.2 hp,
        hdash]
      simp only [List.length_cons]
      omega

namespace Style

/-! ## Words of small letters -/

/-- Is `b` a small ASCII letter? -/
def IsSmall (b : UInt8) : Prop := octet 'a' ≤ b ∧ b ≤ octet 'z'

instance (b : UInt8) : Decidable (IsSmall b) := inferInstanceAs (Decidable (_ ∧ _))

namespace IsSmall

variable {b : UInt8}

theorem toNat_bounds (h : IsSmall b) : 97 ≤ b.toNat ∧ b.toNat ≤ 122 :=
  ⟨UInt8.le_iff_toNat_le.1 h.1, UInt8.le_iff_toNat_le.1 h.2⟩

theorem small (h : IsSmall b) : Letter.Small (Char.ofNat b.toNat) :=
  Letter.small_of_range h.toNat_bounds.1 h.toNat_bounds.2

theorem lt (h : IsSmall b) : b < 0x80 := by
  have hbounds := h.toNat_bounds
  have hlt : b.toNat < 128 := by omega
  exact UInt8.lt_iff_toNat_lt.2 hlt

theorem isCapital (h : IsSmall b) : Style.isCapital b = false := by
  have hbounds := h.toNat_bounds
  have hlt : ¬ b ≤ octet 'Z' := fun hle => by
    have hle : b.toNat ≤ 90 := UInt8.le_iff_toNat_le.1 hle
    omega
  simp [Style.isCapital, hlt]

/-- The capital of a small letter is a capital, by a table of the letters. -/
theorem isCapital_capital (h : IsSmall b) :
    Style.isCapital (UInt8.ofNat (Letter.toUpper (Char.ofNat b.toNat)).toNat) = true := by
  have htable : ∀ k < 26,
      Style.isCapital (UInt8.ofNat (Letter.toUpper (Char.ofNat (97 + k))).toNat) = true := by
    decide +kernel
  have hbounds := h.toNat_bounds
  have hcapital := htable (b.toNat - 97) (by omega)
  rwa [show 97 + (b.toNat - 97) = b.toNat by omega] at hcapital

end IsSmall

theorem small_of_mem_chars {s : Bytes} (h : ∀ b ∈ s, IsSmall b) :
    ∀ c ∈ chars s, Letter.Small c := by
  intro c hc
  obtain ⟨b, hb, rfl⟩ := List.mem_map.1 hc
  exact (h b hb).small

/-- A word of small letters, as it stands in a name. -/
structure IsWord (w : Bytes) : Prop where
  ne_nil : w ≠ []
  small : ∀ b ∈ w, IsSmall b

instance (w : Bytes) : Decidable (IsWord w) :=
  decidable_of_iff (w.isEmpty = false ∧ w.all (fun b => decide (IsSmall b)) = true)
    ⟨fun h => ⟨by simpa using h.1, by simpa using h.2⟩,
      fun h => ⟨by simpa using h.ne_nil, by simpa using h.small⟩⟩

namespace IsWord

variable {w : Bytes}

theorem smallWord (h : IsWord w) : Words.SmallWord (chars w) :=
  ⟨by simpa [chars] using h.ne_nil, small_of_mem_chars h.small⟩

theorem encode_chars (h : IsWord w) : Utf8.encode (chars w) = w :=
  Utf8.encode_chars fun b hb => (h.small b hb).lt

theorem dash_notMem (h : IsWord w) : octet '-' ∉ w :=
  fun hmem => absurd (h.small _ hmem) (by decide)

end IsWord

theorem smallWord_of_mem {words : List Bytes} (h : ∀ w ∈ words, IsWord w) :
    ∀ w ∈ words.map chars, Words.SmallWord w := by
  intro w hw
  obtain ⟨v, hv, rfl⟩ := List.mem_map.1 hw
  exact (h v hv).smallWord

theorem decode_join {words : List Bytes} (h : ∀ w ∈ words, IsWord w) :
    Utf8.decode (Bytes.join (ascii "-") words) = chars (Bytes.join (ascii "-") words) := by
  apply Utf8.decode_ascii
  intro b hb
  rcases Bytes.mem_join hb with hdash | ⟨w, hw, hb⟩
  · have hascii : ascii "-" = [octet '-'] := rfl
    obtain rfl : b = octet '-' := by rwa [hascii, List.mem_singleton] at hdash
    decide
  · exact ((h w hw).small b hb).lt

/-- The words of a name with dashes. -/
theorem split_join {w : Bytes} {ws : List Bytes} (h : ∀ v ∈ w :: ws, IsWord v) :
    Words.split (Bytes.join (ascii "-") (w :: ws)) = (w :: ws).map chars := by
  rw [Words.split, decode_join h, chars_join]
  exact Words.splitFrom_dashed (smallWord_of_mem h) _ []

/-! ## Words run together -/

/-- The key that begins with `first` and goes on with the capitalized words. -/
def runTogether (first : Bytes) (words : List Bytes) : Bytes :=
  Utf8.encode (chars first ++ (words.map chars).flatMap Words.capitalized)

theorem runTogether_nil : runTogether [] [] = [] := rfl

/-- In camel case the first word is as it is, and the others are capitalized. -/
theorem camel_join {w : Bytes} {ws : List Bytes} (h : ∀ v ∈ w :: ws, IsWord v) :
    Words.camel (Bytes.join (ascii "-") (w :: ws)) = runTogether w ws := by
  have hw : IsWord w := h w List.mem_cons_self
  rw [Words.camel, split_join h]
  simp only [List.map_cons, Words.lower_of_small hw.smallWord.small, runTogether]

/-- In Pascal case all words are capitalized. -/
theorem pascal_join {w : Bytes} {ws : List Bytes} (h : ∀ v ∈ w :: ws, IsWord v) :
    Words.pascal (Bytes.join (ascii "-") (w :: ws)) = runTogether [] (w :: ws) := by
  rw [Words.pascal, split_join h]
  rfl

/-- The characters of a key are small letters and their capitals. -/
theorem small_of_mem_run {first : Bytes} {words : List Bytes} (hfirst : ∀ b ∈ first, IsSmall b)
    (h : ∀ w ∈ words, IsWord w) :
    ∀ c ∈ chars first ++ (words.map chars).flatMap Words.capitalized,
      ∃ d, Letter.Small d ∧ (c = d ∨ c = Letter.toUpper d) := by
  intro c hc
  rcases List.mem_append.1 hc with hc | hc
  · exact ⟨c, small_of_mem_chars hfirst c hc, Or.inl rfl⟩
  · obtain ⟨w, hw, hc⟩ := List.mem_flatMap.1 hc
    obtain ⟨d, t, -, hd, ht, hcap⟩ := (smallWord_of_mem h w hw).exists_cons
    rw [hcap] at hc
    rcases List.mem_cons.1 hc with rfl | hc
    · exact ⟨d, hd, Or.inr rfl⟩
    · exact ⟨c, ht c hc, Or.inl rfl⟩

theorem decode_runTogether {first : Bytes} {words : List Bytes} (hfirst : ∀ b ∈ first, IsSmall b)
    (h : ∀ w ∈ words, IsWord w) :
    Utf8.decode (runTogether first words) =
      chars first ++ (words.map chars).flatMap Words.capitalized := by
  apply Utf8.decode_encode_ascii
  intro c hc
  obtain ⟨d, hd, rfl | rfl⟩ := small_of_mem_run hfirst h c hc
  · exact hd.ascii
  · exact hd.capital_ascii

/-- Characters that do not separate words are not written as dashes. -/
theorem dash_notMem_encode {cs : List Char}
    (h : ∀ c ∈ cs, c.toNat < 128 ∧ Words.isSeparator c = false) : octet '-' ∉ Utf8.encode cs := by
  rw [Utf8.encode_ascii fun c hc => (h c hc).1]
  intro hmem
  obtain ⟨c, hc, hb⟩ := List.mem_map.1 hmem
  obtain ⟨hlt, hsep⟩ := h c hc
  have hnat : c.toNat = '-'.toNat := by
    have hval := congrArg UInt8.toNat hb
    rwa [UInt8.toNat_ofNat_of_lt' (Nat.lt_trans hlt (by decide))] at hval
  obtain rfl : c = '-' := Char.toNat_inj.1 hnat
  exact absurd hsep (by decide +kernel)

theorem dash_notMem_runTogether {first : Bytes} {words : List Bytes}
    (hfirst : ∀ b ∈ first, IsSmall b) (h : ∀ w ∈ words, IsWord w) :
    octet '-' ∉ runTogether first words := by
  apply dash_notMem_encode
  intro c hc
  obtain ⟨d, hd, rfl | rfl⟩ := small_of_mem_run hfirst h c hc
  · exact ⟨hd.ascii, hd.isSeparator⟩
  · exact ⟨hd.capital_ascii, hd.capital_isSeparator⟩

/-- No word that is found in a key has a dash in it. -/
theorem dash_notMem_word {first : Bytes} {words : List Bytes} (hfirst : ∀ b ∈ first, IsSmall b)
    (h : ∀ w ∈ words, IsWord w) {w : List Char} (hw : w ∈ Words.split (runTogether first words)) :
    octet '-' ∉ Utf8.encode (Words.lower w) := by
  apply dash_notMem_encode
  intro c hc
  obtain ⟨c', hc', rfl⟩ := List.mem_map.1 hc
  have hmem : c' ∈ Utf8.decode (runTogether first words) := by
    simpa using Words.exists_of_mem_splitFrom hw hc'
  rw [decode_runTogether hfirst h] at hmem
  -- the word is made of letters of the key, put in lower case
  obtain ⟨d, hd, rfl | rfl⟩ := small_of_mem_run hfirst h c' hmem
  · rw [hd.toLower]
    exact ⟨hd.ascii, hd.isSeparator⟩
  · rw [hd.capital_toLower]
    exact ⟨hd.ascii, hd.isSeparator⟩

/-- The words that are run together in a key. -/
def keyWords (first : Bytes) (words : List Bytes) : List Bytes :=
  if first = [] then words else first :: words

/-- Neighbours are not both single letters. -/
def Apart (words : List Bytes) : Prop := words.IsChain fun v w => ¬ (v.length = 1 ∧ w.length = 1)

theorem apart_iff (words : List Bytes) :
    Apart words ↔ (words.map chars).IsChain fun v w => ¬ Words.Twins v w := by
  rw [Apart, List.isChain_map]
  simp only [Words.Twins, length_chars]

/-- Words that are apart are found in the key again. -/
theorem split_runTogether {first : Bytes} {words : List Bytes} (hfirst : ∀ b ∈ first, IsSmall b)
    (h : ∀ w ∈ words, IsWord w) (hapart : Apart words) :
    (Words.split (runTogether first words)).map (fun w => Utf8.encode (Words.lower w)) =
      keyWords first words := by
  have hsplit := Words.splitFrom_small_capitals (small_of_mem_chars hfirst) (smallWord_of_mem h)
    ((apart_iff words).1 hapart)
  -- in lower case each word is what it was
  have hwords : ((words.map chars).map Words.capitalized).map
      (fun w => Utf8.encode (Words.lower w)) = words := by
    rw [List.map_map, List.map_map]
    refine (List.map_congr_left fun w hw => ?_).trans (List.map_id words)
    simp only [Function.comp_apply, (h w hw).smallWord.lower_capitalized, (h w hw).encode_chars, id]
  rw [Words.split, decode_runTogether hfirst h, hsplit, List.map_append, hwords, keyWords]
  split
  next hnil =>
    subst hnil
    rfl
  next hne =>
    have hlower : Utf8.encode (Words.lower (chars first)) = first := by
      rw [Words.lower_of_small (small_of_mem_chars hfirst)]
      exact Utf8.encode_chars fun b hb => (hfirst b hb).lt
    rw [Words.push_of_ne_nil (by simpa [chars] using hne)]
    simp [hlower]

theorem length_keyWords (first : Bytes) (words : List Bytes) :
    (Words.push (chars first).reverse []).length + words.length =
      (keyWords first words).length := by
  by_cases hnil : first = []
  · subst hnil
    simp [keyWords, chars, Words.push]
  · rw [Words.push_of_ne_nil (by simpa [chars] using hnil), keyWords, if_neg hnil]
    simp only [List.length_cons, List.length_nil]
    omega

/-- Of words that are not apart, too few are found. -/
theorem length_split_runTogether_lt {first : Bytes} {words : List Bytes}
    (hfirst : ∀ b ∈ first, IsSmall b) (h : ∀ w ∈ words, IsWord w) (hapart : ¬ Apart words) :
    (Words.split (runTogether first words)).length < (keyWords first words).length := by
  have hlt := Words.length_splitFrom_small_capitals_lt (small_of_mem_chars hfirst)
    (smallWord_of_mem h) (mt (apart_iff words).2 hapart)
  rwa [List.length_map, length_keyWords, ← decode_runTogether hfirst h] at hlt

/-- It takes two words to be neighbours. -/
theorem two_le_length_of_not_apart {words : List Bytes} (h : ¬ Apart words) : 2 ≤ words.length := by
  match words with
  | [] => exact absurd List.isChain_nil h
  | [w] => exact absurd (List.isChain_singleton w) h
  | _ :: _ :: _ => simp

theorem dash_notMem_keyWords {first : Bytes} {words : List Bytes} (hfirst : ∀ b ∈ first, IsSmall b)
    (h : ∀ w ∈ words, IsWord w) : ∀ w ∈ keyWords first words, octet '-' ∉ w := by
  intro w hw
  unfold keyWords at hw
  split at hw
  · exact (h w hw).dash_notMem
  · rcases List.mem_cons.1 hw with rfl | hw
    · exact IsWord.dash_notMem ⟨‹_›, hfirst⟩
    · exact (h w hw).dash_notMem

/-- The words of a key are spelled with dashes again, if and only if they are apart. -/
theorem kebab_runTogether_iff {first : Bytes} {words : List Bytes} (hfirst : ∀ b ∈ first, IsSmall b)
    (h : ∀ w ∈ words, IsWord w) :
    Words.kebab (runTogether first words) =
      Bytes.join (ascii "-") (keyWords first words) ↔ Apart words := by
  constructor
  · intro heq
    by_contra hapart
    -- the two sides do not have the same number of dashes
    have hfound : ∀ p ∈ (Words.split (runTogether first words)).map
        fun w => Utf8.encode (Words.lower w), octet '-' ∉ p := by
      intro p hp
      obtain ⟨w, hw, rfl⟩ := List.mem_map.1 hp
      exact dash_notMem_word hfirst h hw
    have hcount := congrArg (List.count (octet '-')) heq
    rw [Words.kebab, Bytes.count_join_dash hfound,
      Bytes.count_join_dash (dash_notMem_keyWords hfirst h), List.length_map] at hcount
    have hlt := length_split_runTogether_lt hfirst h hapart
    have htwo := two_le_length_of_not_apart hapart
    have hlen := length_keyWords first words
    omega
  · intro hapart
    rw [Words.kebab, split_runTogether hfirst h hapart]

/-! ## Vendors -/

/-- The first word stands in front as it is. -/
theorem runTogether_eq_append {first : Bytes} (hfirst : ∀ b ∈ first, IsSmall b)
    (words : List Bytes) : runTogether first words = first ++ runTogether [] words := by
  have hencode : Utf8.encode (chars first) = first := Utf8.encode_chars fun b hb => (hfirst b hb).lt
  rw [runTogether, Utf8.encode, List.flatMap_append]
  exact congrArg (· ++ _) hencode

/-- A key of capitalized words begins with a capital. -/
theorem exists_capital_runTogether {w : Bytes} (hw : IsWord w) (ws : List Bytes) :
    ∃ b t, runTogether [] (w :: ws) = b :: t ∧ isCapital b = true := by
  obtain ⟨b, t, rfl⟩ := List.exists_cons_of_ne_nil hw.ne_nil
  have hb : IsSmall b := hw.small b List.mem_cons_self
  refine ⟨UInt8.ofNat (Letter.toUpper (Char.ofNat b.toNat)).toNat,
    Utf8.encode (Words.lower (chars t) ++ (ws.map chars).flatMap Words.capitalized), ?_,
    hb.isCapital_capital⟩
  show Utf8.encode (Letter.toUpper (Char.ofNat b.toNat) ::
    (Words.lower (chars t) ++ (ws.map chars).flatMap Words.capitalized)) = _
  rw [Utf8.encode, List.flatMap_cons, Utf8.utf8EncodeChar_ascii hb.small.capital_ascii]
  rfl

/-- A key that begins with a word of small letters belongs to a vendor if that word is `ms` and
another word follows. -/
theorem isVendorKey_runTogether {w : Bytes} (hw : IsWord w) {ws : List Bytes}
    (h : ∀ v ∈ ws, IsWord v) :
    isVendorKey (runTogether w ws) = true ↔ w = ascii "ms" ∧ ws ≠ [] := by
  rw [runTogether_eq_append hw.small]
  have hms : ascii "ms" = [octet 'm', octet 's'] := rfl
  have hsmall : ¬ isCapital (octet 's') = true := by decide
  -- the third byte decides: it is a capital if the first word has two letters and another word
  -- follows
  cases ws with
  | nil =>
    rw [runTogether_nil, List.append_nil]
    match w, hw with
    | [], hw => exact absurd rfl hw.ne_nil
    | [a], hw => simp [isVendorKey, (hw.small a (by simp)).isCapital]
    | [a, b], hw => simp [isVendorKey, (hw.small a (by simp)).isCapital]
    | a :: b :: c :: t, hw =>
      simp [isVendorKey, (hw.small a (by simp)).isCapital, (hw.small c (by simp)).isCapital]
  | cons v vs =>
    obtain ⟨x, t', hrun, hx⟩ := exists_capital_runTogether (h v List.mem_cons_self) vs
    rw [hrun]
    match w, hw with
    | [], hw => exact absurd rfl hw.ne_nil
    | [a], hw =>
      -- the second byte is a capital
      have hne : x ≠ octet 's' := fun heq => hsmall (heq ▸ hx)
      cases t' <;> simp [isVendorKey, (hw.small a (by simp)).isCapital, hne, hms]
    | [a, b], hw => simp [isVendorKey, (hw.small a (by simp)).isCapital, hx, hms]
    | a :: b :: c :: t, hw =>
      -- the third byte is a small letter
      simp [isVendorKey, (hw.small a (by simp)).isCapital, (hw.small c (by simp)).isCapital, hms]

/-! ## Names -/

/-- A style sheet name of words of small letters, with single dashes between them and perhaps one in
front. -/
structure PlainName where
  /-- Does a dash stand in front? -/
  led : Bool
  words : List Bytes
  words_ne_nil : words ≠ []
  isWord : ∀ w ∈ words, IsWord w

namespace PlainName

/-- The words with dashes between them. -/
def body (n : PlainName) : Bytes := Bytes.join (ascii "-") n.words

def text (n : PlainName) : Bytes := if n.led then octet '-' :: n.body else n.body

/-- The words that are capitalized in the key: all of them if a dash stands in front, but for the
vendor `ms`, and otherwise all but the first. -/
def capitals (n : PlainName) : List Bytes :=
  if n.led && !n.text.startsWith (ascii "-ms-") then n.words else n.words.tail

/-- Does the name begin with `ms` as the name of a vendor does, without the dash in front? -/
def LooksVendor (n : PlainName) : Prop :=
  n.led = false ∧ 2 ≤ n.words.length ∧ n.words.head? = some (ascii "ms")

variable (n : PlainName)

theorem exists_words : ∃ w ws, n.words = w :: ws ∧ IsWord w ∧ ∀ v ∈ ws, IsWord v := by
  obtain ⟨w, ws, hwords⟩ := List.exists_cons_of_ne_nil n.words_ne_nil
  have hisWord := n.isWord
  rw [hwords] at hisWord
  obtain ⟨hw, hws⟩ := List.forall_mem_cons.1 hisWord
  exact ⟨w, ws, hwords, hw, hws⟩

/-- A name without the dash in front begins with a small letter. -/
theorem exists_body_eq : ∃ b t, n.body = b :: t ∧ IsSmall b := by
  obtain ⟨w, ws, hwords, hw, -⟩ := n.exists_words
  obtain ⟨b, t, rfl⟩ := List.exists_cons_of_ne_nil hw.ne_nil
  obtain ⟨rest, hrest⟩ := Bytes.join_cons_eq_append (ascii "-") (b :: t) ws
  exact ⟨b, t ++ rest, by rw [body, hwords, hrest, List.cons_append], hw.small b List.mem_cons_self⟩

/-- The body does not begin with a dash. -/
theorem not_dash_prefix_body (s : Bytes) : ¬ octet '-' :: s <+: n.body := by
  obtain ⟨b, t, hbody, hb⟩ := n.exists_body_eq
  rw [hbody, List.cons_prefix_cons]
  rintro ⟨rfl, -⟩
  exact absurd hb (by decide)

/-- A second dash never follows the dash in front. -/
theorem not_startsWith_dashes : ¬ n.text.startsWith (ascii "--") = true := by
  have hascii : ascii "--" = [octet '-', octet '-'] := rfl
  rw [Bytes.startsWith, List.isPrefixOf_iff_prefix, hascii, text]
  split
  · rw [List.cons_prefix_cons]
    exact fun h => n.not_dash_prefix_body [] h.2
  · exact n.not_dash_prefix_body [octet '-']

/-- The name begins as those of the vendor `ms` if that is its first word, and not its only one. -/
theorem startsWith_ms_iff {w : Bytes} {ws : List Bytes} (hwords : n.words = w :: ws)
    (hled : n.led = true) :
    n.text.startsWith (ascii "-ms-") = true ↔ w = ascii "ms" ∧ ws ≠ [] := by
  have hw : IsWord w := n.isWord w (hwords ▸ List.mem_cons_self)
  have hascii : ascii "-ms-" = octet '-' :: (ascii "ms" ++ [octet '-']) := rfl
  rw [text, if_pos hled, Bytes.startsWith, List.isPrefixOf_iff_prefix, hascii,
    List.cons_prefix_cons, body, hwords]
  simp only [true_and]
  cases ws with
  | nil =>
    -- a single word has no dash
    simp only [Bytes.join_singleton, ne_eq, not_true_eq_false, and_false, iff_false]
    intro hms
    exact hw.dash_notMem (hms.subset (by simp))
  | cons v vs =>
    have hdash : ascii "-" = [octet '-'] := rfl
    rw [Bytes.join_cons_cons, hdash, List.singleton_append]
    constructor
    · rintro ⟨rest, hrest⟩
      rw [List.append_assoc, List.singleton_append] at hrest
      exact ⟨(Bytes.append_cons_inj (by decide) hw.dash_notMem hrest).1.symm, by simp⟩
    · rintro ⟨rfl, -⟩
      exact ⟨Bytes.join [octet '-'] (v :: vs), by simp⟩

/-- The name is in lower case. -/
theorem lowerText_body : Letter.lowerText n.body = n.body := by
  have hsmall : ∀ b ∈ n.body, b < 0x80 ∧
      Letter.toLower (Char.ofNat b.toNat) = Char.ofNat b.toNat := by
    intro b hb
    -- a dash or a small letter
    rcases Bytes.mem_join hb with hdash | ⟨w, hw, hb⟩
    · have hall : ∀ b ∈ ascii "-",
          b < 0x80 ∧ Letter.toLower (Char.ofNat b.toNat) = Char.ofNat b.toNat := by decide +kernel
      exact hall b hdash
    · have hb : IsSmall b := (n.isWord w hw).small b hb
      exact ⟨hb.lt, hb.small.toLower⟩
  have hlower : (chars n.body).map Letter.toLower = chars n.body := by
    rw [chars, List.map_map]
    exact List.map_congr_left fun b hb => (hsmall b hb).2
  have hlt : ∀ b ∈ n.body, b < 0x80 := fun b hb => (hsmall b hb).1
  rw [Letter.lowerText, Utf8.decode_ascii hlt, hlower, Utf8.encode_chars hlt]

/-- Without a dash in front all words but the first are capitalized. -/
theorem toKey_text_plain {w : Bytes} {ws : List Bytes} (hwords : n.words = w :: ws)
    (hled : n.led = false) : toKey n.text = runTogether w ws := by
  have hisWord : ∀ v ∈ w :: ws, IsWord v := hwords ▸ n.isWord
  have htext : n.text = n.body := by simp [text, hled]
  have hstarts : ∀ start s, start = octet '-' :: s → ¬ n.text.startsWith start = true := by
    rintro start s rfl
    rw [Bytes.startsWith, List.isPrefixOf_iff_prefix, htext]
    exact n.not_dash_prefix_body s
  rw [toKey, if_neg n.not_startsWith_dashes, if_neg (hstarts (ascii "-ms-") (ascii "ms-") rfl),
    if_neg (hstarts (ascii "-") [] rfl), htext, n.lowerText_body, body, hwords, camel_join hisWord]
  cases ws with
  | nil =>
    -- a single word is its own key
    have hw : IsWord w := hisWord w List.mem_cons_self
    rw [Bytes.join_singleton, runTogether_eq_append hw.small, runTogether_nil, List.append_nil,
      ite_self]
  | cons v vs =>
    -- two words have a dash between them
    have hmem : octet '-' ∈ Bytes.join (ascii "-") (w :: v :: vs) := by
      rw [Bytes.join_cons_cons]
      simp [ascii]
    rw [if_neg (by simp [hmem])]

/-- With a dash in front all words are capitalized, but for the vendor `ms`. -/
theorem toKey_text_led {w : Bytes} {ws : List Bytes} (hwords : n.words = w :: ws)
    (hled : n.led = true) :
    toKey n.text =
      if n.text.startsWith (ascii "-ms-") then runTogether w ws else runTogether [] (w :: ws) := by
  have hisWord : ∀ v ∈ w :: ws, IsWord v := hwords ▸ n.isWord
  have htext : n.text = octet '-' :: n.body := by simp [text, hled]
  have hdash : n.text.startsWith (ascii "-") = true := by
    have hascii : ascii "-" = [octet '-'] := rfl
    simp [htext, Bytes.startsWith, hascii]
  have hdrop : n.text.drop 1 = Bytes.join (ascii "-") (w :: ws) := by
    rw [htext, ← hwords]
    rfl
  rw [toKey, if_neg n.not_startsWith_dashes, if_pos hdash, hdrop, camel_join hisWord,
    pascal_join hisWord]

/-- The key of a name runs its words together. -/
theorem toKey_text : ∃ first, (∀ b ∈ first, IsSmall b) ∧ keyWords first n.capitals = n.words ∧
    toKey n.text = runTogether first n.capitals := by
  obtain ⟨w, ws, hwords, hw, -⟩ := n.exists_words
  have hfirst : keyWords w ws = w :: ws := if_neg hw.ne_nil
  cases hled : n.led with
  | false =>
    have hcapitals : n.capitals = ws := by simp [capitals, hled, hwords]
    rw [hcapitals, hwords]
    exact ⟨w, hw.small, hfirst, n.toKey_text_plain hwords hled⟩
  | true =>
    rw [n.toKey_text_led hwords hled]
    -- only the vendor `ms` keeps its first word small
    cases hms : n.text.startsWith (ascii "-ms-") with
    | true =>
      have hcapitals : n.capitals = ws := by simp [capitals, hled, hms, hwords]
      rw [hcapitals, hwords]
      exact ⟨w, hw.small, hfirst, rfl⟩
    | false =>
      have hcapitals : n.capitals = w :: ws := by simp [capitals, hled, hms, hwords]
      rw [hcapitals, hwords]
      exact ⟨[], by simp, rfl, rfl⟩

/-- The key is taken for that of a vendor if a dash stands in front, or if the name only looks
so. -/
theorem isVendorKey_toKey : isVendorKey (toKey n.text) = true ↔ n.led = true ∨ n.LooksVendor := by
  obtain ⟨w, ws, hwords, hw, hws⟩ := n.exists_words
  cases hled : n.led with
  | false =>
    rw [n.toKey_text_plain hwords hled, isVendorKey_runTogether hw hws, LooksVendor, hled, hwords]
    cases ws <;> simp
  | true =>
    rw [n.toKey_text_led hwords hled]
    simp only [true_or, iff_true]
    -- the vendor `ms`, or a key that begins with a capital
    split
    next hms => exact (isVendorKey_runTogether hw hws).2 ((n.startsWith_ms_iff hwords hled).1 hms)
    next =>
      obtain ⟨b, t, hrun, hb⟩ := exists_capital_runTogether hw ws
      simp [hrun, isVendorKey, hb]

theorem isWord_of_mem_capitals : ∀ w ∈ n.capitals, IsWord w := by
  intro w hw
  apply n.isWord
  unfold capitals at hw
  split at hw
  · exact hw
  · exact List.mem_of_mem_tail hw

/-- The words are found again in the key if those with a capital are apart. -/
theorem kebab_toKey_iff : Words.kebab (toKey n.text) = n.body ↔ Apart n.capitals := by
  obtain ⟨first, hfirst, hkey, hrun⟩ := n.toKey_text
  rw [hrun, body, ← hkey]
  exact kebab_runTogether_iff hfirst n.isWord_of_mem_capitals

/-- A key has no dash in it, so that it is never taken for a name. -/
theorem ofKey_toKey : ofKey (toKey n.text) =
    if isVendorKey (toKey n.text) then octet '-' :: Words.kebab (toKey n.text)
    else Words.kebab (toKey n.text) := by
  obtain ⟨first, hfirst, -, hrun⟩ := n.toKey_text
  have hdashes : ¬ (toKey n.text).startsWith (ascii "--") = true := by
    intro hstarts
    rw [hrun, Bytes.startsWith, List.isPrefixOf_iff_prefix] at hstarts
    exact dash_notMem_runTogether hfirst n.isWord_of_mem_capitals (hstarts.subset (by simp [ascii]))
  rw [ofKey, if_neg hdashes]

end PlainName

/-- The name is found again from its key if and only if it does not look like the name of a vendor,
and no two neighbours of the capitalized words are single letters. -/
theorem ofKey_toKey_iff (n : PlainName) :
    ofKey (toKey n.text) = n.text ↔
      ¬ (n.led = false ∧ 2 ≤ n.words.length ∧ n.words.head? = some (ascii "ms")) ∧
        n.capitals.IsChain fun v w => ¬ (v.length = 1 ∧ w.length = 1) := by
  have hvendor := n.isVendorKey_toKey
  rw [n.ofKey_toKey]
  show _ ↔ ¬ n.LooksVendor ∧ Apart n.capitals
  rw [← n.kebab_toKey_iff]
  cases hled : n.led with
  | true =>
    have hlooks : ¬ n.LooksVendor := fun h => absurd (hled.symm.trans h.1) (by decide)
    rw [if_pos (hvendor.2 (Or.inl hled)), PlainName.text, if_pos hled, List.cons_inj_right]
    exact (and_iff_right hlooks).symm
  | false =>
    have htext : n.text = n.body := by simp [PlainName.text, hled]
    by_cases hlooks : n.LooksVendor
    · -- a dash is put in front that was not there
      rw [if_pos (hvendor.2 (Or.inr hlooks)), htext]
      exact iff_of_false (fun h => n.not_dash_prefix_body _ ⟨[], by rw [List.append_nil, h]⟩)
        fun h => h.1 hlooks
    · have hkey : ¬ isVendorKey (toKey n.text) = true := fun h =>
        (hvendor.1 h).elim (fun h => absurd (hled.symm.trans h) (by decide)) hlooks
      rw [if_neg hkey, htext]
      exact (and_iff_right hlooks).symm

/-- The name `-ms-x-grid`, whose key is `msXGrid`. -/
def PlainName.vendorGrid : PlainName :=
  ⟨true, [ascii "ms", ascii "x", ascii "grid"], by simp, by decide +kernel⟩

/-- The name `-a-b-grid`, whose key `ABGrid` gives `-ab-grid`. -/
def PlainName.lettersGrid : PlainName :=
  ⟨true, [ascii "a", ascii "b", ascii "grid"], by simp, by decide +kernel⟩

/-- The one is found again, the other is not. -/
theorem ofKey_toKey_grids :
    ofKey (toKey PlainName.vendorGrid.text) = PlainName.vendorGrid.text ∧
      ofKey (toKey PlainName.lettersGrid.text) ≠ PlainName.lettersGrid.text :=
  ⟨(ofKey_toKey_iff PlainName.vendorGrid).2 (by decide),
    fun h => absurd ((ofKey_toKey_iff PlainName.lettersGrid).1 h).2 (by decide)⟩

end Style

end DocTree
