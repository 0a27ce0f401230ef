import DocTree.Proofs.Statement.Shape

/-!
# Names of declarations

An exported declaration is `export`, a keyword and a name, with white space between them. The name
is an identifier, and a dollar sign is a byte of identifiers but not of words. So the name that is
found is the declared one exactly if it holds no dollar sign (`Declaration.name_found_iff`).

The keyword may be left out, and white space with it. A name that begins with a keyword, or is one,
is found nevertheless, since the keyword in front of it is tried first and no keyword begins with
another (`eq_of_prefix_keyword`).
-/

namespace DocTree.Statement

/-! ## Words -/

theorem isWordByte_of_word? {s w : Bytes} (h : word? s = some w) :
    ∀ b ∈ w, isWordByte b = true := by
  intro b hb
  have hw : s.takeWhile isWordByte = w := by
    rw [word?] at h
    split at h
    · cases h
    · exact Option.some.inj h
  rw [← hw] at hb
  exact List.mem_takeWhile_imp hb

/-- A word is found in front of anything that does not go on with it. -/
theorem word?_append {w rest : Bytes} (hne : w ≠ []) (hw : ∀ b ∈ w, isWordByte b = true)
    (hrest : ∀ b ∈ rest.head?, isWordByte b = false) : word? (w ++ rest) = some w := by
  have hstop : rest.takeWhile isWordByte = [] := by
    cases rest with
    | nil => rfl
    | cons b rest => exact List.takeWhile_cons_of_neg (by simp [hrest b rfl])
  have htake : (w ++ rest).takeWhile isWordByte = w := by
    rw [List.takeWhile_append_of_pos hw, hstop, List.append_nil]
  rw [word?, htake, if_neg (by simpa using hne)]

theorem space?_word_append {w : Bytes} (hne : w ≠ []) (hw : ∀ b ∈ w, isWordByte b = true)
    (s : Bytes) : space? (w ++ s) = none := by
  obtain ⟨b, more, rfl⟩ := List.exists_cons_of_ne_nil hne
  have hb := isSpace_of_isWordByte (hw b List.mem_cons_self)
  rw [List.cons_append, space?, if_neg (by simp [hb])]

/-- What is found is found at some place. -/
theorem findSuffix?_eq_some {α : Type} {f : Bytes → Option α} {s : Bytes} {a : α}
    (h : findSuffix? f s = some a) : ∃ t, f t = some a := by
  induction s with
  | nil => exact ⟨[], h⟩
  | cons b s ih =>
    rw [findSuffix?_cons, Option.or_eq_some_iff] at h
    rcases h with hhere | ⟨-, hlater⟩
    · exact ⟨b :: s, hhere⟩
    · exact ih hlater

/-- A name at the front is the one that is found. -/
theorem boundName?_of_nameHere? {s name : Bytes} (h : nameHere? s = some name) :
    boundName? s = some name := by
  cases s with
  | nil => exact h
  | cons b s => rw [boundName?_cons, h, Option.some_or]

/-- Whatever the statement, the name that is found in it is a word. -/
theorem isWordByte_of_boundName? {s name : Bytes} (h : boundName? s = some name) :
    ∀ b ∈ name, isWordByte b = true := by
  obtain ⟨t, ht⟩ := findSuffix?_eq_some h
  rw [nameHere?_eq_bind, Option.bind_eq_some_iff] at ht
  obtain ⟨r, -, hname⟩ := ht
  rw [nameBehind?, Option.or_eq_some_iff] at hname
  rcases hname with hkeyword | ⟨-, hword⟩
  · -- behind a keyword
    obtain ⟨k, -, hk⟩ := List.exists_of_findSome?_eq_some hkeyword
    obtain ⟨u, -, hword⟩ := Option.bind_eq_some_iff.1 hk
    exact isWordByte_of_word? hword
  · exact isWordByte_of_word? hword

/-! ## Keywords -/

/-- No keyword begins with another. -/
theorem eq_of_prefix_keyword :
    ∀ k ∈ bindingKeywords, ∀ k' ∈ bindingKeywords, k' <+: k → k' = k := by
  decide +kernel

/-- In front of a text only one keyword can stand. -/
theorem after?_keyword_append {k k' : Bytes} (hk : k ∈ bindingKeywords) (hk' : k' ∈ bindingKeywords)
    (hne : k' ≠ k) (s : Bytes) : Bytes.after? k' (k ++ s) = none := by
  cases hafter : Bytes.after? k' (k ++ s) with
  | none => rfl
  | some t =>
    have hprefix : k' <+: k ++ s := ⟨t, (Bytes.eq_append_of_after? hafter).symm⟩
    -- two keywords at the front of one text: one begins with the other
    rcases List.prefix_or_prefix_of_prefix hprefix (List.prefix_append k s) with h | h
    · exact absurd (eq_of_prefix_keyword k hk k' hk' h) hne
    · exact absurd (eq_of_prefix_keyword k' hk' k hk h).symm hne

/-- A word behind a keyword and white space is the name. -/
theorem nameBehind?_keyword {k s name : Bytes} (hk : k ∈ bindingKeywords)
    (hname : word? (spaces s) = some name) : nameBehind? (k ++ s) = some name := by
  obtain ⟨before, behind, hsplit, hbefore⟩ := List.eq_append_cons_of_mem hk
  have hfound : (bindingKeywords.findSome? fun k' =>
      (Bytes.after? k' (k ++ s)).bind fun r => word? (spaces r)) = some name := by
    apply List.findSome?_eq_some_iff.2
    refine ⟨before, k, behind, hsplit, ?_, fun k' hk' => ?_⟩
    · rw [Bytes.after?_append, Option.bind_some, hname]
    · -- the keywords that are tried before `k` do not stand in front
      have hmem : k' ∈ bindingKeywords := hsplit ▸ List.mem_append_left _ hk'
      have hne : k' ≠ k := fun heq => hbefore (heq ▸ hk')
      rw [after?_keyword_append hk hmem hne, Option.bind_none]
  rw [nameBehind?, hfound, Option.some_or]

/-! ## Declarations -/

/-- Is `b` a byte of an identifier: an ASCII letter or digit, an underscore or a dollar sign? -/
def isIdentifierByte (b : UInt8) : Bool :=
  let c := Char.ofNat b.toNat
  c.isAlphanum || c == '_' || c == '$'

/-- The dollar sign is the one byte of identifiers that is not part of words. -/
theorem isIdentifierByte_eq (b : UInt8) :
    isIdentifierByte b = (isWordByte b || b == octet '$') := by
  have htable : ∀ n < 256, isIdentifierByte (UInt8.ofNat n) =
      (isWordByte (UInt8.ofNat n) || UInt8.ofNat n == octet '$') := by
    decide +kernel
  simpa using htable b.toNat b.toNat_lt

/-- The text of an exported declaration, `export const name` and whatever follows the name. That an
identifier does not begin with a digit plays no part. -/
structure Declaration where
  /-- The white space behind `export`. -/
  gap : Bytes
  keyword : Bytes
  /-- The white space behind the keyword. -/
  space : Bytes
  name : Bytes
  /-- What follows the name. -/
  rest : Bytes
  gap_mem : gap ∈ blanks
  keyword_mem : keyword ∈ ["var", "const", "let", "class", "function"].map ascii
  space_mem : space ∈ blanks
  name_ne_nil : name ≠ []
  isIdentifierByte_of_mem : ∀ b ∈ name, isIdentifierByte b = true
  /-- The name does not go on in what follows it. -/
  rest_head : ∀ b ∈ rest.head?, isIdentifierByte b = false

namespace Declaration

def text (d : Declaration) : Bytes :=
  ascii "export" ++ d.gap ++ d.keyword ++ d.space ++ d.name ++ d.rest

variable (d : Declaration)

theorem keyword_mem_bindingKeywords : d.keyword ∈ bindingKeywords := d.keyword_mem

/-- A word in the place of the name is found. -/
theorem boundName?_text_of_word (hname : ∀ b ∈ d.name, isWordByte b = true) :
    boundName? d.text = some d.name := by
  have hkeyword := isWordByte_of_mem_keywords d.keyword d.keyword_mem_bindingKeywords
  have hrest : ∀ b ∈ d.rest.head?, isWordByte b = false := by
    intro b hb
    have hb := d.rest_head b hb
    rw [isIdentifierByte_eq, Bool.or_eq_false_iff] at hb
    exact hb.1
  -- behind the keyword: the name ends where `rest` begins
  have hword : word? (spaces (d.space ++ (d.name ++ d.rest))) = some d.name := by
    rw [spaces_blanks_append d.space_mem,
      spaces_eq_self (space?_word_append d.name_ne_nil hname d.rest)]
    exact word?_append d.name_ne_nil hname hrest
  -- behind `export`: the keyword ends the white space
  have hspaces : spaces (d.gap ++ (d.keyword ++ (d.space ++ (d.name ++ d.rest)))) =
      d.keyword ++ (d.space ++ (d.name ++ d.rest)) := by
    rw [spaces_blanks_append d.gap_mem]
    exact spaces_eq_self (space?_word_append hkeyword.1 hkeyword.2 _)
  apply boundName?_of_nameHere?
  simp only [text, List.append_assoc]
  rw [nameHere?_eq_bind, Bytes.after?_append, Option.bind_some, hspaces]
  exact nameBehind?_keyword d.keyword_mem_bindingKeywords hword

/-- **Which declared names are found.** The name that is found in a declaration is the declared one
exactly if that holds no dollar sign. -/
theorem name_found_iff : boundName? d.text = some d.name ↔ octet '$' ∉ d.name := by
  constructor
  · intro h hdollar
    exact absurd (isWordByte_of_boundName? h _ hdollar) (by decide)
  · intro hdollar
    apply d.boundName?_text_of_word
    intro b hb
    have hidentifier := d.isIdentifierByte_of_mem b hb
    rw [isIdentifierByte_eq, Bool.or_eq_true, beq_iff_eq] at hidentifier
    -- the byte of an identifier that is not part of a word is the dollar sign
    exact hidentifier.resolve_right fun heq => hdollar (heq ▸ hb)

/-- A name that begins with its keyword is found. One with a dollar sign behind the keyword is
not. -/
theorem name_found_let :
    boundName? (ascii "export\tlet\n let_2= 1") = some (ascii "let_2") ∧
      boundName? (ascii "export\tlet\n let$= 1") ≠ some (ascii "let$") := by
  have hgap : ascii "\t" ∈ blanks := mem_blanks.2 (by decide +kernel)
  have hspace : ascii "\n " ∈ blanks := mem_blanks.2 (by decide +kernel)
  have hfound : octet '$' ∉ ascii "let_2" := by decide
  have hmissed : octet '$' ∈ ascii "let$" := by decide
  let found : Declaration :=
    ⟨ascii "\t", ascii "let", ascii "\n ", ascii "let_2", ascii "= 1", hgap, by decide,
    hspace, by decide, by decide +kernel, by decide +kernel⟩
  let missed : Declaration :=
    ⟨ascii "\t", ascii "let", ascii "\n ", ascii "let$", ascii "= 1", hgap, by decide,
    hspace, by decide, by decide +kernel, by decide +kernel⟩
  exact ⟨found.name_found_iff.2 hfound, fun h => missed.name_found_iff.1 h hmissed⟩

end Declaration

end DocTree.Statement
