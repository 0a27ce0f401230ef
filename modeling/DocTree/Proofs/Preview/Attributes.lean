import DocTree.Preview
import DocTree.Proofs.Number.Decimal
import DocTree.Proofs.Preview.Tokens
import DocTree.Proofs.Style.Parse
import DocTree.Proofs.Text.Spelling
import DocTree.Proofs.Tree.Normalize

/-!
# Attributes of the preview

The attributes of an element are its properties in normal form, without those that have no HTML
form, each under its HTML name (`Properties.attributes`). If the names of the properties are made of
letters, digits and hyphens, and no value holds a zero byte, then the same is true of the attributes
(`isPlain_of_mem_attributes`): renaming stays in the alphabet, and style text that is read and
written again gains no bytes of its own but separators.
-/

namespace DocTree

open Html (isNameByte isAttributeName IsPlain)

/-! ## The attributes of an element -/

namespace Value

/-- Is a property with this value left out? -/
def isLeftOut : Value → Bool
  | .bool b => !b
  | .style decls => decls.isEmpty
  | .other _ => true
  | _ => false

/-- The value as an attribute has it; a truth value has none. -/
def attributeText? : Value → Option Bytes
  | .string s => some s
  | .number x => some x.attributeText
  | .list tokens => some (Bytes.join (ascii " ") tokens)
  | .style decls => some (Style.format decls)
  | _ => none

/-- No text of the value holds a zero byte. -/
def ZeroFree : Value → Prop
  | .string s => 0 ∉ s
  | .list tokens => ∀ t ∈ tokens, 0 ∉ t
  | .style decls => ∀ d ∈ decls, 0 ∉ d.name ∧ 0 ∉ d.key ∧ 0 ∉ d.value
  | _ => True

instance : DecidablePred ZeroFree
  | .string s => inferInstanceAs (Decidable (0 ∉ s))
  | .list tokens => inferInstanceAs (Decidable (∀ t ∈ tokens, 0 ∉ t))
  | .style decls => inferInstanceAs (Decidable (∀ d ∈ decls, 0 ∉ d.name ∧ 0 ∉ d.key ∧ 0 ∉ d.value))
  | .bool _ => inferInstanceAs (Decidable True)
  | .number _ => inferInstanceAs (Decidable True)
  | .other _ => inferInstanceAs (Decidable True)

end Value

/-- The attributes of an element with some properties. -/
def Properties.attributes (props : Properties) : List (Bytes × Option Bytes) :=
  (props.normalize.filter (!·.value.isLeftOut)).map fun p =>
    (Attribute.htmlName p.name, p.value.attributeText?)

/-- A property is an attribute unless it is left out. -/
theorem Property.htmlAttribute?_eq (p : Property) :
    p.htmlAttribute? =
      if p.value.isLeftOut then none
      else some (Attribute.htmlName p.name, p.value.attributeText?) := by
  obtain ⟨name, value⟩ := p
  cases value with
  | bool b => cases b <;> rfl
  | style decls => cases decls <;> rfl
  | _ => rfl

/-- The attributes that are written are the attributes of the element. -/
theorem Properties.filterMap_htmlAttribute? (props : Properties) :
    props.normalize.filterMap Property.htmlAttribute? = props.attributes := by
  unfold Properties.attributes
  induction props.normalize with
  | nil => rfl
  | cons p ps ih =>
    rw [List.filterMap_cons, Property.htmlAttribute?_eq, ih]
    cases h : p.value.isLeftOut <;> simp [h]

/-! ## Names -/

/-- An attribute name is not empty and made of letters, digits and hyphens. -/
theorem isAttributeName_iff {name : Bytes} :
    isAttributeName name = true ↔ name ≠ [] ∧ ∀ b ∈ name, isNameByte b = true := by
  cases name <;> simp [isAttributeName]

theorem lt_of_isNameByte {b : UInt8} (h : isNameByte b = true) : b < 0x80 := by
  simp only [isNameByte, Html.isLetter, Bool.or_eq_true, Bool.and_eq_true, decide_eq_true_eq,
    beq_iff_eq] at h
  have hz : ∀ c : UInt8, c < 0x80 → b ≤ c → b < 0x80 := fun c hc hb => UInt8.lt_of_le_of_lt hb hc
  -- the ends of the ranges are ASCII
  rcases h with ((⟨-, h⟩ | ⟨-, h⟩) | ⟨-, h⟩) | rfl
  · exact hz _ (by decide) h
  · exact hz _ (by decide) h
  · exact hz _ (by decide) h
  · decide

/-- The dashed spelling stays within letters, digits and hyphens. -/
theorem isNameByte_of_mem_kebab {name : Bytes} (h : ∀ b ∈ name, isNameByte b = true) {b : UInt8}
    (hb : b ∈ Words.kebab name) : isNameByte b = true := by
  have htable : ∀ n < 128, isNameByte (UInt8.ofNat n) = true →
      ∀ b ∈ String.utf8EncodeChar (Letter.toLower (Char.ofNat n)), isNameByte b = true := by
    decide +kernel
  -- a hyphen, or a byte of a letter in lower case
  rcases Words.exists_of_mem_kebab hb with rfl | ⟨c, hc, hb⟩
  · rfl
  · obtain ⟨x, hx, ⟨hlt, rfl⟩ | ⟨hge, -⟩⟩ := Utf8.exists_of_mem_decode hc
    · refine htable x.toNat hlt ?_ b hb
      rw [UInt8.ofNat_toNat]
      exact h x hx
    · exact absurd (lt_of_isNameByte (h x hx)) (UInt8.not_lt.2 hge)

/-- A name that is renamed is one still. -/
theorem isAttributeName_writtenName {name : Bytes} (h : isAttributeName name = true) :
    isAttributeName (Attribute.writtenName name) = true := by
  obtain ⟨-, hname⟩ := isAttributeName_iff.1 h
  by_cases hcamel : Attribute.isCamel name
  · rw [Attribute.writtenName, if_pos hcamel]
    refine isAttributeName_iff.2 ⟨?_, fun b hb => isNameByte_of_mem_kebab hname hb⟩
    -- the letter `a` of a name in camel case is still there
    have ha : octet 'a' ∈ Words.kebab name :=
      Words.mem_kebab_of_small (by decide) (by decide) (Attribute.mem_a_of_isCamel hcamel)
    exact List.ne_nil_of_mem ha
  · rwa [Attribute.writtenName, if_neg hcamel]

theorem isAttributeName_htmlName {name : Bytes} (h : isAttributeName name = true) :
    isAttributeName (Attribute.htmlName name) = true := by
  unfold Attribute.htmlName
  split
  · rfl
  split
  · rfl
  split
  · rfl
  split
  · rfl
  · exact h

/-! ## Values -/

theorem zero_notMem_join {separator : Bytes} (hseparator : 0 ∉ separator) {parts : List Bytes}
    (hparts : ∀ part ∈ parts, 0 ∉ part) : 0 ∉ Bytes.join separator parts := by
  intro h
  rcases Bytes.mem_join h with h | ⟨part, hpart, h⟩
  · exact hseparator h
  · exact hparts part hpart h

/-- A style is written without zero bytes if its declarations have none. -/
theorem Style.zero_notMem_format {decls : List Style.Declaration}
    (h : ∀ d ∈ decls, 0 ∉ d.writtenName ∧ 0 ∉ d.value) : 0 ∉ Style.format decls := by
  refine zero_notMem_join (by decide) fun part hpart => ?_
  obtain ⟨d, hd, rfl⟩ := List.mem_map.1 hpart
  obtain ⟨hname, hvalue⟩ := h d hd
  simp [hname, hvalue, octet]

theorem Style.zero_notMem_writtenName {d : Style.Declaration} (hname : 0 ∉ d.name)
    (hkey : 0 ∉ d.key) : 0 ∉ d.writtenName := by
  have hkebab : 0 ∉ Words.kebab d.key := Words.zero_notMem_kebab hkey
  unfold Style.Declaration.writtenName
  -- a name that was given, or one that is made of the key
  split
  · unfold Style.ofKey
    split
    · exact hkey
    · split
      · simp [hkebab, octet]
      · exact hkebab
  · exact hname

/-- Style text that is read and written again gains no zero byte. -/
theorem Style.zero_notMem_format_parse {css : Bytes} (h : 0 ∉ css) :
    0 ∉ Style.format (Style.parse css) := by
  have hcss : ∀ b ∈ css, b ≠ 0 := by
    rintro b hb rfl
    exact h hb
  refine Style.zero_notMem_format fun d hd => ?_
  have htaken := Style.taken_of_mem_parse hcss hd
  refine ⟨fun hzero => ?_, fun hzero => htaken.value 0 hzero rfl⟩
  -- a declaration of a style text is written under its own name
  rw [Style.Declaration.writtenName, if_neg (by simpa using htaken.named)] at hzero
  exact htaken.name 0 hzero rfl

/-- A decimal is made of digits, a point and a sign. -/
theorem Decimal.zero_notMem_plain (d : Decimal) : 0 ∉ d.plain := by
  have hdigits : 0 ∉ Bytes.ofNat d.coefficient := fun h => by
    cases Bytes.isDigit_of_mem_ofNat h
  have htake : ∀ n, 0 ∉ (Bytes.ofNat d.coefficient).take n :=
    fun n h => hdigits (List.mem_of_mem_take h)
  have hdrop : ∀ n, 0 ∉ (Bytes.ofNat d.coefficient).drop n :=
    fun n h => hdigits (List.mem_of_mem_drop h)
  have hzeros : ∀ n, 0 ∉ zeros n := fun n h => by
    cases List.eq_of_mem_replicate h
  have hsigned : ∀ {s : Bytes}, 0 ∉ s → 0 ∉ signed d.negative s := by
    intro s hs
    unfold signed
    split
    · simp [hs, octet]
    · exact hs
  apply hsigned
  simp only
  -- no point is needed, it stands among the digits, or zeros come first
  split
  · simp [hdigits, hzeros]
  · split
    · simp [htake, hdrop, octet]
    · simp [hdigits, hzeros, ascii, octet]

theorem Double.zero_notMem_attributeText (x : Double) : 0 ∉ x.attributeText := by
  unfold Double.attributeText
  split
  · exact Decimal.zero_notMem_plain _
  split
  · decide
  split <;> decide

/-- A value without zero bytes gives an attribute without them. One case for each kind of value. -/
theorem Value.zero_notMem_of_zeroFree {v : Value} (h : v.ZeroFree) :
    ∀ t ∈ v.attributeText?, 0 ∉ t := by
  cases v with
  | string s =>
    have hs : 0 ∉ s := h
    simpa [attributeText?] using hs
  | bool b => simp [attributeText?]
  | number x => simpa [attributeText?] using Double.zero_notMem_attributeText x
  | list tokens => simpa [attributeText?] using zero_notMem_join (by decide) h
  | style decls =>
    have hformat : 0 ∉ Style.format decls := Style.zero_notMem_format fun d hd =>
      ⟨Style.zero_notMem_writtenName (h d hd).1 (h d hd).2.1, (h d hd).2.2⟩
    simpa [attributeText?] using hformat
  | other kind => simp [attributeText?]

/-! ## Normal form -/

/-- A property that has an attribute name and gives an attribute value without a zero byte. -/
def Property.IsPlain (p : Property) : Prop := Html.IsPlain (p.name, p.value.attributeText?)

namespace Properties

variable {props : Properties}

theorem isPlain_parseStyle (h : ∀ p ∈ props, p.IsPlain) : ∀ p ∈ props.parseStyle, p.IsPlain := by
  unfold parseStyle
  split
  · next css hcss =>
    -- the new value is made of the text of the old one
    obtain ⟨p, hp, hvalue⟩ := exists_mem_of_get? hcss
    have htext := (h p hp).2
    rw [hvalue] at htext
    refine forall_mem_set h ⟨rfl, fun t ht => ?_⟩
    obtain rfl := Option.some.inj ht
    exact Style.zero_notMem_format_parse (htext css rfl)
  · exact h

theorem isPlain_rename (h : ∀ p ∈ props, p.IsPlain) : ∀ p ∈ props.rename, p.IsPlain :=
  forall_mem_rename (fun _ hp => ⟨isAttributeName_writtenName hp.1, hp.2⟩) h

theorem isPlain_joinClasses (h : ∀ p ∈ props, p.IsPlain) : ∀ p ∈ props.joinClasses, p.IsPlain := by
  unfold joinClasses
  split
  · next tokens htokens =>
    obtain ⟨p, hp, hvalue⟩ := exists_mem_of_get? htokens
    have htext := (h p hp).2
    rw [hvalue] at htext
    -- the text of the list and the list have the same attribute value
    exact forall_mem_set h ⟨rfl, htext⟩
  · exact h

/-- **The attributes of plain properties come back as they were.** -/
theorem isPlain_of_mem_attributes
    (h : ∀ p ∈ props, isAttributeName p.name = true ∧ p.value.ZeroFree) :
    ∀ a ∈ props.attributes, IsPlain a := by
  have hprops : ∀ p ∈ props, p.IsPlain := by
    intro p hp
    exact ⟨(h p hp).1, Value.zero_notMem_of_zeroFree (h p hp).2⟩
  -- the three steps of the normal form, one after the other
  have hnormal : ∀ p ∈ props.normalize, p.IsPlain :=
    isPlain_joinClasses (isPlain_rename (isPlain_parseStyle hprops))
  intro a ha
  obtain ⟨p, hp, rfl⟩ := List.mem_map.1 ha
  have hp := hnormal p (List.mem_filter.1 hp).1
  exact ⟨isAttributeName_htmlName hp.1, hp.2⟩

end Properties

end DocTree
