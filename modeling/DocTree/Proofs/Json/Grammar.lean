import DocTree.Proofs.Json.Pieces

/-!
# The grammar of JSON

`IsValue` is the grammar of JSON texts, over bytes: nothing is asked of the bytes above U+0020 in a
string but that quotes and backslashes are escaped. A text of the grammar is looked at through its
words, the longest runs of bytes outside strings that are neither blanks nor punctuation (`words`).
The words of a well-formed text are numbers and the three names (`IsValue.wellWorded`), so a text
with any other word is not well-formed, wherever the word stands.
-/

namespace DocTree.Json

/-! ## Numbers -/

/-- One or more digits. -/
def IsDigits (s : Bytes) : Prop := s ≠ [] ∧ ∀ b ∈ s, Decimal.isDigit b = true

/-- Digits without leading zeros. -/
structure IsWhole (s : Bytes) : Prop where
  /-- There are digits and nothing else. -/
  digits : IsDigits s
  /-- A zero in front is the only digit. -/
  leading : ∀ rest, s = octet '0' :: rest → rest = []

/-- The fraction of a number; it may be missing. -/
inductive IsFraction : Bytes → Prop where
  | none : IsFraction []
  | point {digits : Bytes} : IsDigits digits → IsFraction (octet '.' :: digits)

/-- The exponent of a number; it may be missing. -/
inductive IsExponent : Bytes → Prop where
  | none : IsExponent []
  | mark {mark : UInt8} {sign digits : Bytes} : mark = octet 'e' ∨ mark = octet 'E' →
      sign = [] ∨ sign = [octet '+'] ∨ sign = [octet '-'] → IsDigits digits →
      IsExponent (mark :: (sign ++ digits))

/-- A number literal: an optional minus sign, an integer without leading zeros, an optional fraction
and an optional exponent. -/
inductive IsNumber : Bytes → Prop where
  | parts {sign whole fraction exponent : Bytes} : sign = [] ∨ sign = [octet '-'] →
      IsWhole whole → IsFraction fraction → IsExponent exponent →
      IsNumber (sign ++ (whole ++ (fraction ++ exponent)))

/-- No digit follows a zero in front. -/
theorem IsNumber.isDigit_behind_zero {b : UInt8} {s : Bytes} (h : IsNumber (octet '0' :: b :: s)) :
    Decimal.isDigit b = false := by
  generalize ht : octet '0' :: b :: s = t at h
  obtain ⟨hsign, hwhole, hfraction, hexponent⟩ := h
  rename_i sign whole fraction exponent
  -- no sign stands in front of the zero
  have hnil : sign = [] := by
    rcases hsign with hsign | rfl
    · exact hsign
    · exact absurd (List.cons.inj ht).1 (by decide)
  rw [hnil, List.nil_append] at ht
  cases whole with
  | nil => exact absurd rfl hwhole.digits.1
  | cons c digits =>
    rw [List.cons_append] at ht
    injection ht with hc ht
    subst hc
    obtain rfl := hwhole.leading digits rfl
    -- what follows the zero is a point, the mark of an exponent, or nothing
    cases hfraction with
    | point =>
      obtain ⟨rfl, -⟩ := List.cons.inj ht
      rfl
    | none =>
      cases hexponent with
      | none => cases ht
      | mark hmark =>
        obtain ⟨rfl, -⟩ := List.cons.inj ht
        rcases hmark with rfl | rfl <;> rfl

/-! ## Values -/

/-- What stands between the quotes of a string. -/
inductive IsStringBody : Bytes → Prop where
  | nil : IsStringBody []
  | plain {b : UInt8} {s : Bytes} : 0x20 ≤ b → b ≠ octet '"' → b ≠ octet '\\' → IsStringBody s →
      IsStringBody (b :: s)
  | escape {b : UInt8} {s : Bytes} : b ∈ ascii "\"\\/bfnrt" → IsStringBody s →
      IsStringBody (octet '\\' :: b :: s)
  | unit {digits s : Bytes} : digits.length = 4 → (∀ b ∈ digits, (Bytes.hexDigit? b).isSome) →
      IsStringBody s → IsStringBody (octet '\\' :: octet 'u' :: (digits ++ s))

/-- A string. -/
inductive IsString : Bytes → Prop where
  | quotes {body : Bytes} : IsStringBody body → IsString (octet '"' :: (body ++ [octet '"']))

/-- The key of a member, with the blanks around it. -/
inductive IsKey : Bytes → Prop where
  | spaced {before key after : Bytes} : Blank before → IsString key → Blank after →
      IsKey (before ++ (key ++ after))

/-- The three names of values. -/
def IsName (s : Bytes) : Prop := s = ascii "true" ∨ s = ascii "false" ∨ s = ascii "null"

/-- A JSON text: a value with the blanks around it. -/
inductive IsValue : Bytes → Prop where
  | string {s : Bytes} : IsString s → IsValue s
  | number {s : Bytes} : IsNumber s → IsValue s
  | name {s : Bytes} : IsName s → IsValue s
  | emptyArray {blanks : Bytes} : Blank blanks → IsValue (octet '[' :: (blanks ++ [octet ']']))
  | array {items : List Bytes} : items ≠ [] → (∀ s ∈ items, IsValue s) →
      IsValue (octet '[' :: (Bytes.join (ascii ",") items ++ [octet ']']))
  | emptyObject {blanks : Bytes} : Blank blanks → IsValue (octet '{' :: (blanks ++ [octet '}']))
  | object {members : List (Bytes × Bytes)} : members ≠ [] → (∀ m ∈ members, IsKey m.1) →
      (∀ m ∈ members, IsValue m.2) →
      IsValue
        (octet '{' ::
          (Bytes.join (ascii ",") (members.map fun m => m.1 ++ octet ':' :: m.2) ++ [octet '}']))
  | spaced {before s after : Bytes} : Blank before → IsValue s → Blank after →
      IsValue (before ++ (s ++ after))

/-- A JSON text that is an object: it begins with a brace. -/
structure IsObject (s : Bytes) : Prop where
  value : IsValue s
  brace : s.head? = some (octet '{')

/-! ## Words -/

/-- Does `b` end a word: a blank, a quote or punctuation? -/
def endsWord (b : UInt8) : Bool :=
  isSpace b || b == octet '"' || b == octet '[' || b == octet ']' || b == octet '{' ||
    b == octet '}' || b == octet ',' || b == octet ':'

/-- Where the search for words stands. -/
inductive WordState where
  /-- Outside strings, behind the beginning of a word. -/
  | outside (word : Bytes)
  /-- In a string. -/
  | quoted
  /-- In a string, behind a backslash. -/
  | escaped

/-- A word, unless there is none. -/
def wordOf (word : Bytes) : List Bytes := if word = [] then [] else [word]

/-- The words from a state on. -/
def wordsFrom : WordState → Bytes → List Bytes
  | .outside word, [] => wordOf word
  | .quoted, [] | .escaped, [] => []
  | .outside word, b :: s =>
    if b = octet '"' then wordOf word ++ wordsFrom .quoted s
    else if endsWord b then wordOf word ++ wordsFrom (.outside []) s
    else wordsFrom (.outside (word ++ [b])) s
  | .quoted, b :: s =>
    if b = octet '"' then wordsFrom (.outside []) s
    else if b = octet '\\' then wordsFrom .escaped s
    else wordsFrom .quoted s
  | .escaped, _ :: s => wordsFrom .quoted s

/-- The words of a text: the longest runs outside strings of bytes that end no word. -/
def words (s : Bytes) : List Bytes := wordsFrom (.outside []) s

/-- What follows a word ends it. -/
def EndsWord (s : Bytes) : Prop := ∀ b ∈ s.head?, endsWord b = true

theorem endsWord_cons {b : UInt8} (h : endsWord b = true) (s : Bytes) : EndsWord (b :: s) := by
  intro c hc
  obtain rfl := Option.some.inj hc
  exact h

/-! ### Parts of a text -/

section Parts

variable {s t : Bytes}

@[simp] theorem words_nil : words [] = [] := rfl

/-- Blanks and punctuation add no word. -/
theorem words_cons {b : UInt8} (hb : endsWord b = true) (hquote : b ≠ octet '"') (s : Bytes) :
    words (b :: s) = words s := by
  simp [words, wordsFrom, hb, hquote, wordOf]

theorem words_blank_append (h : Blank s) (t : Bytes) : words (s ++ t) = words t := by
  induction s with
  | nil => rfl
  | cons b s ih =>
    have hb : isSpace b = true := h b List.mem_cons_self
    have hquote : b ≠ octet '"' := by
      rintro rfl
      cases hb
    rw [List.cons_append, words_cons (by simp [endsWord, hb]) hquote]
    exact ih fun c hc => h c (List.mem_cons_of_mem b hc)

theorem Blank.endsWord_append (h : Blank s) (ht : EndsWord t) : EndsWord (s ++ t) := by
  cases s with
  | nil => exact ht
  | cons b s =>
    have hb : isSpace b = true := h b List.mem_cons_self
    exact endsWord_cons (by simp [endsWord, hb]) _

/-- Bytes that are neither quotes nor backslashes lead on in a string. -/
theorem wordsFrom_quoted_append (h : ∀ b ∈ s, b ≠ octet '"' ∧ b ≠ octet '\\') (t : Bytes) :
    wordsFrom .quoted (s ++ t) = wordsFrom .quoted t := by
  induction s with
  | nil => rfl
  | cons b s ih =>
    obtain ⟨⟨hquote, hslash⟩, hs⟩ := List.forall_mem_cons.1 h
    rw [List.cons_append, wordsFrom, if_neg hquote, if_neg hslash, ih hs]

theorem ne_of_isSome_hexDigit? {b : UInt8} (h : (Bytes.hexDigit? b).isSome = true) :
    b ≠ octet '"' ∧ b ≠ octet '\\' := by
  constructor <;>
  · rintro rfl
    cases h

/-- The first quote that is not escaped ends the string. -/
theorem IsStringBody.wordsFrom (h : IsStringBody s) (t : Bytes) :
    Json.wordsFrom .quoted (s ++ octet '"' :: t) = words t := by
  have hslash : octet '\\' ≠ octet '"' := by decide
  induction h with
  | nil => rfl
  | plain _ hquote hplain _ ih =>
    rw [List.cons_append, Json.wordsFrom, if_neg hquote, if_neg hplain, ih]
  -- the byte behind a backslash is passed over unseen
  | escape _ _ ih =>
    rw [List.cons_append, List.cons_append, Json.wordsFrom, if_neg hslash, if_pos rfl,
      Json.wordsFrom, ih]
  | unit _ hdigits _ ih =>
    rw [List.cons_append, List.cons_append, Json.wordsFrom, if_neg hslash, if_pos rfl,
      Json.wordsFrom, List.append_assoc,
      wordsFrom_quoted_append fun b hb => ne_of_isSome_hexDigit? (hdigits b hb), ih]

/-- A string adds no word, whatever is in it. -/
theorem IsString.words_append (h : IsString s) (t : Bytes) : words (s ++ t) = words t := by
  obtain ⟨hbody⟩ := h
  rw [List.cons_append, List.append_assoc, List.singleton_append, words, wordsFrom, if_pos rfl,
    hbody.wordsFrom]
  rfl

/-- Bytes that end no word go on with the word in front of them. -/
theorem wordsFrom_outside_append (h : ∀ b ∈ s, endsWord b = false) (word t : Bytes) :
    wordsFrom (.outside word) (s ++ t) = wordsFrom (.outside (word ++ s)) t := by
  induction s generalizing word with
  | nil => simp
  | cons b s ih =>
    obtain ⟨hb, hs⟩ := List.forall_mem_cons.1 h
    have hquote : b ≠ octet '"' := by
      rintro rfl
      cases hb
    rw [List.cons_append, wordsFrom, if_neg hquote, if_neg (by simp [hb]), ih hs]
    simp

/-- What ends a word gives it and goes on without it. -/
theorem wordsFrom_outside (word : Bytes) (h : EndsWord t) :
    wordsFrom (.outside word) t = wordOf word ++ words t := by
  cases t with
  | nil => simp [wordsFrom]
  | cons b t =>
    have hb : endsWord b = true := h b rfl
    -- a quote begins a string, anything else another word
    by_cases hquote : b = octet '"'
    · simp [words, wordsFrom, hquote, wordOf]
    · simp [words, wordsFrom, hquote, hb, wordOf]

end Parts

/-! ### The words of a part -/

/-- The words that a text adds to those behind it, as long as what is behind it does not go on with
its last word. -/
def HasWords (s : Bytes) (ws : List Bytes) : Prop :=
  ∀ t, EndsWord t → words (s ++ t) = ws ++ words t

namespace HasWords

variable {s : Bytes} {ws : List Bytes}

/-- With nothing behind it, a text has its own words. -/
theorem words_eq (h : HasWords s ws) : words s = ws := by
  have hnil := h [] (by simp [EndsWord])
  rwa [List.append_nil, words_nil, List.append_nil] at hnil

/-- A run without an end in it is one word. -/
theorem run (hne : s ≠ []) (h : ∀ b ∈ s, endsWord b = false) : HasWords s [s] := by
  intro t ht
  rw [words, wordsFrom_outside_append h, List.nil_append, wordsFrom_outside s ht]
  simp [wordOf, hne]

theorem string (h : IsString s) : HasWords s [] := fun t _ => h.words_append t

theorem blank (h : Blank s) : HasWords s [] := fun t _ => words_blank_append h t

/-- Blanks around a text neither add nor hide a word. -/
theorem spaced {before after : Bytes} (hbefore : Blank before) (hs : HasWords s ws)
    (hafter : Blank after) : HasWords (before ++ (s ++ after)) ws := by
  intro t ht
  rw [List.append_assoc, words_blank_append hbefore, List.append_assoc,
    hs _ (hafter.endsWord_append ht), words_blank_append hafter]

/-- Brackets around a text neither add nor hide a word. -/
theorem bracket (hs : HasWords s ws) {opening closing : UInt8}
    (hopening : endsWord opening = true ∧ opening ≠ octet '"')
    (hclosing : endsWord closing = true ∧ closing ≠ octet '"') :
    HasWords (opening :: (s ++ [closing])) ws := by
  intro t _
  rw [List.cons_append, words_cons hopening.1 hopening.2, List.append_assoc, List.singleton_append,
    hs _ (endsWord_cons hclosing.1 t), words_cons hclosing.1 hclosing.2]

theorem brackets (hs : HasWords s ws) : HasWords (octet '[' :: (s ++ [octet ']'])) ws :=
  hs.bracket (by decide) (by decide)

theorem braces (hs : HasWords s ws) : HasWords (octet '{' :: (s ++ [octet '}'])) ws :=
  hs.bracket (by decide) (by decide)

/-- A key and a colon add no word. -/
theorem member {key : Bytes} (hkey : IsKey key) (hs : HasWords s ws) :
    HasWords (key ++ octet ':' :: s) ws := by
  have hcolon : endsWord (octet ':') = true ∧ octet ':' ≠ octet '"' := by decide
  intro t ht
  cases hkey with
  | spaced hbefore hstring hafter =>
    simp only [List.append_assoc, List.cons_append]
    rw [words_blank_append hbefore, hstring.words_append, words_blank_append hafter,
      words_cons hcolon.1 hcolon.2, hs t ht]

/-- The words of texts with commas between them are those of the texts. -/
theorem join {α : Type} {as : List α} {text : α → Bytes} {wordsOf : α → List Bytes}
    (h : ∀ a ∈ as, HasWords (text a) (wordsOf a)) :
    HasWords (Bytes.join (ascii ",") (as.map text)) (as.flatMap wordsOf) := by
  have hcomma : endsWord (octet ',') = true ∧ octet ',' ≠ octet '"' := by decide
  intro t ht
  induction as with
  | nil => rfl
  | cons a as ih =>
    obtain ⟨ha, has⟩ := List.forall_mem_cons.1 h
    -- a comma stands behind every text but the last
    cases as with
    | nil => simpa using ha t ht
    | cons next as =>
      have hrest := ih has
      simp only [List.map_cons] at hrest ⊢
      rw [Bytes.join_cons_cons, List.append_assoc, List.append_assoc,
        show ascii "," = [octet ','] from rfl, List.singleton_append,
        ha _ (endsWord_cons hcomma.1 _), words_cons hcomma.1 hcomma.2, List.flatMap_cons,
        List.append_assoc, ← hrest]
      rfl

end HasWords

/-! ## The words of a well-formed text -/

/-- A word that a value may be. -/
def IsWord (w : Bytes) : Prop := IsNumber w ∨ IsName w

theorem endsWord_of_isNumberByte {b : UInt8} (h : isNumberByte b = true) : endsWord b = false := by
  cases hb : endsWord b with
  | false => rfl
  | true =>
    have hspace := isSpace_of_isNumberByte h
    simp only [endsWord, hspace, Bool.false_or, Bool.or_eq_true, beq_iff_eq] at hb
    rcases hb with (((((rfl | rfl) | rfl) | rfl) | rfl) | rfl) | rfl <;> cases h

theorem IsDigits.isNumberByte {s : Bytes} (h : IsDigits s) : ∀ b ∈ s, isNumberByte b = true := by
  intro b hb
  simp [Json.isNumberByte, h.2 b hb]

/-- A number literal is made of the bytes of numbers. One case for each of its parts. -/
theorem IsNumber.isNumberByte {s : Bytes} (h : IsNumber s) : ∀ b ∈ s, isNumberByte b = true := by
  obtain ⟨hsign, hwhole, hfraction, hexponent⟩ := h
  intro b hb
  simp only [List.mem_append] at hb
  -- sign, integer, fraction and exponent
  rcases hb with hb | hb | hb | hb
  · rcases hsign with rfl | rfl
    · simp at hb
    · obtain rfl := List.mem_singleton.1 hb
      rfl
  · exact hwhole.digits.isNumberByte b hb
  · cases hfraction with
    | none => simp at hb
    | point hdigits =>
      rcases List.mem_cons.1 hb with rfl | hb
      · rfl
      · exact hdigits.isNumberByte b hb
  · cases hexponent with
    | none => simp at hb
    | mark hmark hsign hdigits =>
      rcases List.mem_cons.1 hb with rfl | hb
      · rcases hmark with rfl | rfl <;> rfl
      · rcases List.mem_append.1 hb with hb | hb
        · rcases hsign with rfl | rfl | rfl
          · simp at hb
          · obtain rfl := List.mem_singleton.1 hb
            rfl
          · obtain rfl := List.mem_singleton.1 hb
            rfl
        · exact hdigits.isNumberByte b hb

theorem IsNumber.ne_nil {s : Bytes} (h : IsNumber s) : s ≠ [] := by
  obtain ⟨-, hwhole, -, -⟩ := h
  simp [hwhole.digits.1]

/-- A number literal is a single word. -/
theorem IsNumber.hasWords {s : Bytes} (h : IsNumber s) : HasWords s [s] :=
  .run h.ne_nil fun b hb => endsWord_of_isNumberByte (h.isNumberByte b hb)

/-- Each of the three names is a single word. -/
theorem IsName.hasWords {s : Bytes} (h : IsName s) : HasWords s [s] := by
  rcases h with rfl | rfl | rfl
  · exact .run (by decide) (by decide +kernel)
  · exact .run (by decide) (by decide +kernel)
  · exact .run (by decide) (by decide +kernel)

/-- A text whose own words are words of values. -/
structure WellWorded (s : Bytes) : Prop where
  hasWords : HasWords s (words s)
  isWord : ∀ w ∈ words s, IsWord w

/-- What a text adds are its own words. -/
theorem HasWords.wellWorded {s : Bytes} {ws : List Bytes} (h : HasWords s ws)
    (hws : ∀ w ∈ ws, IsWord w) : WellWorded s := by
  obtain rfl := h.words_eq
  exact ⟨h, hws⟩

/-- The words of a well-formed text are numbers and names, by induction on the grammar. -/
theorem IsValue.wellWorded {s : Bytes} (h : IsValue s) : WellWorded s := by
  induction h with
  | string hs => exact (HasWords.string hs).wellWorded (by simp)
  | number hs => exact hs.hasWords.wellWorded fun w hw => List.mem_singleton.1 hw ▸ Or.inl hs
  | name hs => exact hs.hasWords.wellWorded fun w hw => List.mem_singleton.1 hw ▸ Or.inr hs
  | emptyArray hblanks => exact (HasWords.blank hblanks).brackets.wellWorded (by simp)
  | emptyObject hblanks => exact (HasWords.blank hblanks).braces.wellWorded (by simp)
  | spaced hbefore _ hafter ih => exact (ih.hasWords.spaced hbefore hafter).wellWorded ih.isWord
  | @array items _ _ ih =>
    -- the words of an array are those of its items
    have hjoin : HasWords (Bytes.join (ascii ",") (items.map id)) (items.flatMap words) :=
      .join fun s hs => (ih s hs).hasWords
    rw [List.map_id] at hjoin
    refine hjoin.brackets.wellWorded fun w hw => ?_
    obtain ⟨s, hs, hw⟩ := List.mem_flatMap.1 hw
    exact (ih s hs).isWord w hw
  | object _ hkeys _ ih =>
    -- the words of an object are those of its values, since keys are strings
    have hjoin := HasWords.join fun m hm => (ih m hm).hasWords.member (hkeys m hm)
    refine hjoin.braces.wellWorded fun w hw => ?_
    obtain ⟨m, hm, hw⟩ := List.mem_flatMap.1 hw
    exact (ih m hm).isWord w hw

end DocTree.Json
