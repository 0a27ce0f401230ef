import DocTree.Proofs.Style.Name
import DocTree.Proofs.Tree.Normalize

/-!
# Attribute names of several words

`ariaLabel` and `dataH1Title` run words together behind `aria` or `data`. Such a name is written
with dashes, and no word is lost or cut in two (`writtenName_camel`): a word begins where a capital
follows a small letter or a digit, and the digits of a word stay with the letters around them. The
words are found again in the dashed spelling, so two names are never written alike.
-/

namespace DocTree

/-! ## Bytes behind the first letter of a word -/

/-- What the tables of characters say of a character that goes on with a word: it is no capital, it
separates nothing, and it is its own lower-case form. -/
structure Letter.Steady (c : Char) : Prop where
  isUpper : Letter.isUpper c = false
  isSeparator : Words.isSeparator c = false
  toLower : Letter.toLower c = c

theorem Letter.Small.steady {c : Char} (h : Letter.Small c) : Letter.Steady c :=
  ⟨h.isUpper, h.isSeparator, h.toLower⟩

theorem Letter.steady_of_digit {n : Nat} (h₀ : 48 ≤ n) (h₉ : n ≤ 57) :
    Letter.Steady (Char.ofNat n) := by
  have htable : ∀ k < 10, Letter.isUpper (Char.ofNat (48 + k)) = false ∧
      Words.isSeparator (Char.ofNat (48 + k)) = false ∧
      Letter.toLower (Char.ofNat (48 + k)) = Char.ofNat (48 + k) := by
    decide +kernel
  obtain ⟨hupper, hsep, hlower⟩ := htable (n - 48) (by omega)
  rw [show 48 + (n - 48) = n by omega] at *
  exact ⟨hupper, hsep, hlower⟩

namespace Attribute

/-- Is `b` a small ASCII letter or a digit? -/
def IsPlain (b : UInt8) : Prop := Style.IsSmall b ∨ (octet '0' ≤ b ∧ b ≤ octet '9')

instance (b : UInt8) : Decidable (IsPlain b) := inferInstanceAs (Decidable (_ ∨ _))

namespace IsPlain

variable {b : UInt8}

/-- A small letter or a digit goes on with a word. -/
theorem steady (h : IsPlain b) : Letter.Steady (Char.ofNat b.toNat) := by
  rcases h with hsmall | ⟨h₀, h₉⟩
  · exact hsmall.small.steady
  · apply Letter.steady_of_digit
    · exact UInt8.le_iff_toNat_le.1 h₀
    · exact UInt8.le_iff_toNat_le.1 h₉

theorem lt (h : IsPlain b) : b < 0x80 := by
  rcases h with hsmall | ⟨-, h₉⟩
  · exact hsmall.lt
  · exact UInt8.lt_of_le_of_lt h₉ (by decide)

theorem ne_dash (h : IsPlain b) : b ≠ octet '-' := by
  intro hb
  subst hb
  exact absurd h (by decide)

end IsPlain

/-- The capital of a small ASCII letter. -/
def capital (b : UInt8) : UInt8 := b - 32

theorem toNat_capital {b : UInt8} (h : Style.IsSmall b) : (capital b).toNat = b.toNat - 32 := by
  obtain ⟨ha, -⟩ := h.toNat_bounds
  have hle : (32 : UInt8) ≤ b := by
    apply UInt8.le_iff_toNat_le.2
    show 32 ≤ b.toNat
    omega
  rw [capital, UInt8.toNat_sub_of_le _ _ hle]
  rfl

/-- It is the capital of the tables. -/
theorem ofNat_capital {b : UInt8} (h : Style.IsSmall b) :
    Char.ofNat (capital b).toNat = Letter.toUpper (Char.ofNat b.toNat) := by
  have htable : ∀ k < 26, Char.ofNat (65 + k) = Letter.toUpper (Char.ofNat (97 + k)) := by
    decide +kernel
  obtain ⟨ha, hz⟩ := h.toNat_bounds
  have hcapital := htable (b.toNat - 97) (by omega)
  rwa [show 97 + (b.toNat - 97) = b.toNat by omega,
    show 65 + (b.toNat - 97) = b.toNat - 32 by omega, ← toNat_capital h] at hcapital

theorem isCapital_capital {b : UInt8} (h : Style.IsSmall b) :
    Style.isCapital (capital b) = true := by
  obtain ⟨ha, hz⟩ := h.toNat_bounds
  simp only [Style.isCapital, Bool.and_eq_true, decide_eq_true_eq, UInt8.le_iff_toNat_le,
    toNat_capital h]
  show 65 ≤ b.toNat - 32 ∧ b.toNat - 32 ≤ 90
  omega

/-! ## Words -/

/-- A word of an attribute name: a small letter, and behind it at least one small letter or
digit. -/
structure Word where
  /-- The letter in front, which becomes a capital. -/
  first : UInt8
  rest : Bytes
  first_small : Style.IsSmall first
  rest_ne_nil : rest ≠ []
  rest_plain : ∀ b ∈ rest, IsPlain b

namespace Word

/-- The word in small letters. -/
def text (w : Word) : Bytes := w.first :: w.rest

/-- The word with a capital in front. -/
def capitalized (w : Word) : Bytes := capital w.first :: w.rest

variable (w : Word)

theorem text_injective : Function.Injective text := by
  intro v w h
  obtain ⟨first, rest, _, _, _⟩ := v
  obtain ⟨hfirst, hrest⟩ := List.cons.inj h
  subst hfirst hrest
  rfl

theorem plain_of_mem_text : ∀ b ∈ w.text, IsPlain b := by
  intro b hb
  rcases List.mem_cons.1 hb with rfl | hb
  · exact Or.inl w.first_small
  · exact w.rest_plain b hb

theorem dash_notMem_text : octet '-' ∉ w.text :=
  fun hmem => (w.plain_of_mem_text _ hmem).ne_dash rfl

theorem steady_of_mem_rest : ∀ c ∈ chars w.rest, Letter.Steady c := by
  intro c hc
  obtain ⟨b, hb, rfl⟩ := List.mem_map.1 hc
  exact (w.rest_plain b hb).steady

/-- The characters of a capitalized word. -/
theorem chars_capitalized :
    chars w.capitalized = Letter.toUpper (Char.ofNat w.first.toNat) :: chars w.rest := by
  rw [← ofNat_capital w.first_small]
  rfl

theorem lt_of_mem_capitalized : ∀ b ∈ w.capitalized, b < 0x80 := by
  intro b hb
  rcases List.mem_cons.1 hb with rfl | hb
  · have hcapital := isCapital_capital w.first_small
    simp only [Style.isCapital, Bool.and_eq_true, decide_eq_true_eq] at hcapital
    exact UInt8.lt_of_le_of_lt hcapital.2 (by decide)
  · exact (w.rest_plain b hb).lt

/-- In small letters a capitalized word is the word again. -/
theorem encode_lower_capitalized : Utf8.encode (Words.lower (chars w.capitalized)) = w.text := by
  have hrest : (chars w.rest).map Letter.toLower = chars w.rest :=
    (List.map_congr_left fun c hc => (w.steady_of_mem_rest c hc).toLower).trans (List.map_id _)
  have hlower : Words.lower (chars w.capitalized) = chars w.text := by
    rw [chars_capitalized, Words.lower, List.map_cons, hrest, w.first_small.small.capital_toLower]
    rfl
  rw [hlower]
  exact Utf8.encode_chars fun b hb => (w.plain_of_mem_text b hb).lt

/-- The last character of a word is no capital, since a word is longer than its first letter. -/
theorem isUpper_getLastD (c : Char) : Letter.isUpper ((chars w.rest).getLastD c) = false := by
  have hne : chars w.rest ≠ [] := by simpa [chars] using w.rest_ne_nil
  rw [List.getLastD_eq_getLast?, List.getLast?_eq_some_getLast hne]
  exact (w.steady_of_mem_rest _ (List.getLast_mem hne)).isUpper

/-- Behind anything but a capital, a capitalized word is cut off from what stands in front of it and
is taken as a whole. -/
theorem splitFrom_capitalized {prev : Char} (hprev : Letter.isUpper prev = false)
    (behind word : List Char) (done : List (List Char)) :
    ∃ last, Letter.isUpper last = false ∧
      Words.splitFrom prev (chars w.capitalized ++ behind) word done =
        Words.splitFrom last behind (chars w.capitalized).reverse (Words.push word done) := by
  refine ⟨(chars w.rest).getLastD (Letter.toUpper (Char.ofNat w.first.toNat)),
    w.isUpper_getLastD _, ?_⟩
  have hrest : ∀ c ∈ chars w.rest, Letter.isUpper c = false ∧ Words.isSeparator c = false :=
    fun c hc => ⟨(w.steady_of_mem_rest c hc).isUpper, (w.steady_of_mem_rest c hc).isSeparator⟩
  -- the capital begins a word, and what follows goes on with it
  rw [chars_capitalized, List.cons_append, Words.splitFrom,
    Words.boundary_capital w.first_small.small (Or.inl hprev)]
  simp only [Words.splitFrom_append hrest, List.reverse_cons]

end Word

/-- Capitalized words are cut apart. By induction on the words, with any character but a capital in
front. -/
theorem splitFrom_words {prev : Char} (hprev : Letter.isUpper prev = false) (words : List Word)
    (word : List Char) (done : List (List Char)) :
    Words.splitFrom prev (chars (words.flatMap Word.capitalized)) word done =
      (Words.push word done).reverse ++ words.map fun w => chars w.capitalized := by
  induction words generalizing prev word done with
  | nil => simp [chars, Words.splitFrom]
  | cons w words ih =>
    rw [List.flatMap_cons, chars_append]
    obtain ⟨last, hlast, hsplit⟩ :=
      w.splitFrom_capitalized hprev (chars (words.flatMap Word.capitalized)) word done
    have hne : (chars w.capitalized).reverse ≠ [] := by simp [Word.chars_capitalized]
    -- the word is finished when the next one begins, or the name ends
    rw [hsplit, ih hlast, Words.push_of_ne_nil hne]
    simp

/-! ## Names -/

/-- The two kinds of attributes that have names of several words. -/
inductive Family where
  | aria
  | data

/-- The word that the names of a family begin with. -/
def Family.text : Family → Bytes
  | .aria => ascii "aria"
  | .data => ascii "data"

theorem Family.text_injective : Function.Injective Family.text := by
  intro p q h
  cases p <;> cases q <;> first | rfl | exact absurd h (by decide)

theorem Family.small_of_mem_text (p : Family) : ∀ b ∈ p.text, Style.IsSmall b := by
  cases p <;> decide +kernel

/-- A name of a family with at least one word behind the first. -/
structure CompoundName where
  family : Family
  /-- The words behind the first. -/
  words : List Word
  words_ne_nil : words ≠ []

namespace CompoundName

/-- The name as it stands in a document: `dataFooBar`. -/
def camel (n : CompoundName) : Bytes := n.family.text ++ n.words.flatMap Word.capitalized

/-- The words of the name. -/
def parts (n : CompoundName) : List Bytes := n.family.text :: n.words.map Word.text

/-- The name with dashes: `data-foo-bar`. -/
def dashed (n : CompoundName) : Bytes := Bytes.join (ascii "-") n.parts

variable (n : CompoundName)

theorem dash_notMem_parts : ∀ part ∈ n.parts, octet '-' ∉ part := by
  intro part hpart
  rcases List.mem_cons.1 hpart with rfl | hpart
  · exact fun hmem => absurd (n.family.small_of_mem_text _ hmem) (by decide)
  · obtain ⟨w, -, rfl⟩ := List.mem_map.1 hpart
    exact w.dash_notMem_text

/-- The words are found again between the dashes. -/
theorem dashed_injective : Function.Injective dashed := by
  intro m n h
  -- no part has a dash in it, so cutting at the dashes gives the parts
  have hsplit : ∀ k : CompoundName, (dashed k).splitOn (octet '-') = k.parts :=
    fun k => List.splitOn_intercalate (octet '-') k.dash_notMem_parts (List.cons_ne_nil _ _)
  have hparts : m.parts = n.parts := by rw [← hsplit m, h, hsplit n]
  obtain ⟨family, words, _⟩ := m
  obtain ⟨hfamily, hwords⟩ := List.cons.inj hparts
  have hfamily := Family.text_injective hfamily
  have hwords := List.map_injective_iff.2 Word.text_injective hwords
  subst hfamily hwords
  rfl

/-- A capital stands behind the first word, and so the name is to be written with dashes. -/
theorem isCamel_camel : isCamel n.camel = true := by
  have hbegins : beginsCamel n.family.text n.camel = true := by
    obtain ⟨w, ws, hwords⟩ := List.exists_cons_of_ne_nil n.words_ne_nil
    rw [beginsCamel, camel, Bytes.after?_append, hwords]
    exact isCapital_capital w.first_small
  rw [isCamel, Bool.or_eq_true]
  -- names that begin with `data` are looked for in two ways
  cases hfamily : n.family with
  | aria =>
    rw [hfamily] at hbegins
    exact Or.inl hbegins
  | data =>
    rw [hfamily] at hbegins
    rw [camel, hfamily] at hbegins ⊢
    exact Or.inr (Bool.or_eq_true_iff.2 (Or.inl hbegins))

theorem decode_camel : Utf8.decode n.camel = chars n.camel := by
  apply Utf8.decode_ascii
  intro b hb
  rcases List.mem_append.1 hb with hb | hb
  · exact (n.family.small_of_mem_text b hb).lt
  · obtain ⟨w, -, hb⟩ := List.mem_flatMap.1 hb
    exact w.lt_of_mem_capitalized b hb

/-- The name is cut in front of each capitalized word, and nowhere else. -/
theorem split_camel :
    Words.split n.camel = chars n.family.text :: n.words.map fun w => chars w.capitalized := by
  have hsmall := Style.small_of_mem_chars n.family.small_of_mem_text
  -- the first word does not end with a capital
  have hupper : Letter.isUpper ((chars n.family.text).getLastD (Char.ofNat 0)) = false :=
    Bool.eq_false_iff.2 (Words.isUpper_getLastD hsmall)
  have hne : (chars n.family.text).reverse ≠ [] := by
    cases n.family <;> decide
  rw [Words.split, decode_camel, camel, chars_append,
    Words.splitFrom_append (Words.not_special_of_small hsmall), List.append_nil,
    splitFrom_words hupper, Words.push_of_ne_nil hne]
  simp

/-- With dashes the words are those of the name, in small letters. -/
theorem kebab_camel : Words.kebab n.camel = n.dashed := by
  have hfamily : Utf8.encode (Words.lower (chars n.family.text)) = n.family.text := by
    rw [Words.lower_of_small (Style.small_of_mem_chars n.family.small_of_mem_text)]
    exact Utf8.encode_chars fun b hb => (n.family.small_of_mem_text b hb).lt
  have hwords : (n.words.map fun w => chars w.capitalized).map
      (fun w => Utf8.encode (Words.lower w)) = n.words.map Word.text := by
    simp only [List.map_map, Function.comp_def, Word.encode_lower_capitalized]
  rw [Words.kebab, split_camel, List.map_cons, hfamily, hwords]
  rfl

end CompoundName

/-- **Names of several words are written with dashes between them.** The dashes stand where the
capitals were, and two different names are written differently. -/
theorem writtenName_camel :
    (∀ n : CompoundName,
      writtenName n.camel = Bytes.join (ascii "-") (n.family.text :: n.words.map Word.text)) ∧
      ∀ m n : CompoundName, writtenName m.camel = writtenName n.camel ↔ m = n := by
  have hwritten : ∀ n : CompoundName, writtenName n.camel = n.dashed := by
    intro n
    rw [writtenName, if_pos n.isCamel_camel, n.kebab_camel]
  refine ⟨hwritten, fun m n => ⟨fun h => ?_, fun h => by rw [h]⟩⟩
  rw [hwritten, hwritten] at h
  exact CompoundName.dashed_injective h

/-- The name `dataH1Title`, with a digit at the end of a word. -/
def CompoundName.headingTitle : CompoundName :=
  ⟨.data, [⟨octet 'h', ascii "1", by decide, by decide, by decide +kernel⟩,
    ⟨octet 't', ascii "itle", by decide, by decide, by decide +kernel⟩], by simp⟩

/-- The digit stays with the letter in front of it. -/
theorem writtenName_camel_headingTitle :
    writtenName (ascii "dataH1Title") = ascii "data-h1-title" :=
  writtenName_camel.1 CompoundName.headingTitle

end Attribute

end DocTree
