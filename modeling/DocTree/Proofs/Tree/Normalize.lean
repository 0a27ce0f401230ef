import DocTree.Proofs.Text.Words
import DocTree.Proofs.Tree.Properties
import DocTree.Tree.Normalize

/-!
# Normal form of properties

Bringing properties into normal form gives a list that is in normal form (`normal_normalize`), and
changes nothing in a list that is (`normalize_of_normal`). So doing it twice is doing it once,
provided that no name stands in the list twice (`normalize_normalize`).
-/

namespace DocTree

/-! ## Written names -/

namespace Attribute

/-- A name begins in camel case if a capital follows the word. -/
theorem eq_of_beginsCamel {word s : Bytes} (h : beginsCamel word s = true) :
    ∃ b rest, s = word ++ b :: rest ∧ Style.isCapital b = true := by
  unfold beginsCamel at h
  split at h
  · next b rest hafter => exact ⟨b, rest, Bytes.eq_append_of_after? hafter, h⟩
  · cases h

/-- The word may also stand further behind. By induction on the name. -/
theorem eq_of_hasCamel {word s : Bytes} (h : hasCamel word s = true) :
    ∃ front b rest, s = front ++ (word ++ b :: rest) ∧ Style.isCapital b = true := by
  induction s with
  | nil => cases h
  | cons c s ih =>
    rw [hasCamel, Bool.or_eq_true] at h
    rcases h with h | h
    · obtain ⟨b, rest, hs, hb⟩ := eq_of_beginsCamel h
      exact ⟨[], b, rest, hs, hb⟩
    · obtain ⟨front, b, rest, hs, hb⟩ := ih h
      exact ⟨c :: front, b, rest, by rw [hs, List.cons_append], hb⟩

/-- A name spelled in camel case holds a word with the letter `a`, and a capital behind that
word. -/
theorem eq_of_isCamel {name : Bytes} (h : isCamel name = true) :
    ∃ front word b rest, name = front ++ (word ++ b :: rest) ∧ octet 'a' ∈ word ∧
      Style.isCapital b = true := by
  rw [isCamel, Bool.or_eq_true] at h
  rcases h with h | h
  · obtain ⟨b, rest, hs, hb⟩ := eq_of_beginsCamel h
    exact ⟨[], ascii "aria", b, rest, hs, by decide, hb⟩
  · obtain ⟨front, b, rest, hs, hb⟩ := eq_of_hasCamel h
    exact ⟨front, ascii "data", b, rest, hs, by decide, hb⟩

theorem mem_a_of_isCamel {name : Bytes} (h : isCamel name = true) : octet 'a' ∈ name := by
  obtain ⟨front, word, b, rest, rfl, ha, -⟩ := eq_of_isCamel h
  simp [ha]

/-- With dashes no capital is left, so the name is not in camel case. -/
theorem isCamel_kebab (name : Bytes) : isCamel (Words.kebab name) = false := by
  rw [Bool.eq_false_iff]
  intro h
  -- there would be a capital
  obtain ⟨front, word, b, rest, hname, -, hcap⟩ := eq_of_isCamel h
  simp only [Style.isCapital, Bool.and_eq_true, decide_eq_true_eq] at hcap
  exact Words.kebab_no_capital name (by simp [hname]) hcap

/-- A written name is written as it is. -/
@[simp] theorem writtenName_writtenName (name : Bytes) :
    writtenName (writtenName name) = writtenName name := by
  by_cases h : isCamel name
  · simp [writtenName, h, isCamel_kebab]
  · simp [writtenName, h]

/-- A name without the letter `a` is written for itself alone. -/
theorem writtenName_eq_iff {name m : Bytes} (hm : octet 'a' ∉ m) :
    writtenName name = m ↔ name = m := by
  have hcamel : ∀ n : Bytes, octet 'a' ∉ n → writtenName n = n := by
    intro n hn
    have : isCamel n = false := Bool.eq_false_iff.2 fun h => hn (mem_a_of_isCamel h)
    simp [writtenName, this]
  constructor
  · intro h
    by_cases hc : isCamel name
    · -- the `a` of a camel case name would be left in `m`
      exfalso
      rw [writtenName, if_pos hc] at h
      apply hm
      rw [← h]
      exact Words.mem_kebab_of_small (by decide) (by decide) (mem_a_of_isCamel hc)
    · rwa [writtenName, if_neg hc] at h
  · rintro rfl
    exact hcamel name hm

/-- Only `style` is written as `style`. -/
theorem writtenName_eq_style_iff {name : Bytes} :
    writtenName name = ascii "style" ↔ name = ascii "style" :=
  writtenName_eq_iff (by decide)

end Attribute

/-! ## The three steps -/

namespace Properties

/-- A property under the name that it is written with. -/
def written (p : Property) : Property := ⟨Attribute.writtenName p.name, p.value⟩

/-- Renaming writes the properties under their written names, one after another. -/
theorem rename_eq_setAll (props : Properties) : props.rename = setAll [] (props.map written) := by
  rw [rename, setAll_eq_foldl, List.foldl_map]
  rfl

/-- What does not go by the name is left as it is. -/
theorem forall_mem_rename {P : Property → Prop} (hwritten : ∀ p, P p → P (written p))
    {props : Properties} (h : ∀ p ∈ props, P p) : ∀ p ∈ props.rename, P p := by
  rw [rename_eq_setAll]
  refine forall_mem_setAll (by simp) fun q hq => ?_
  obtain ⟨p, hp, rfl⟩ := List.mem_map.1 hq
  exact hwritten p (h p hp)

theorem distinct_rename (props : Properties) : props.rename.Distinct := by
  rw [rename_eq_setAll]
  exact distinct_nil.setAll _

/-- The names after renaming are the written ones. -/
theorem mem_names_rename {m : Bytes} {props : Properties} :
    m ∈ names props.rename ↔ ∃ p ∈ props, Attribute.writtenName p.name = m := by
  rw [rename_eq_setAll, mem_names_setAll]
  simp [names, written]

/-- Under `style` renaming leaves what stood there last. -/
theorem get?_style_rename (props : Properties) :
    get? (ascii "style") props.rename = get? (ascii "style") props.reverse := by
  rw [rename_eq_setAll, get?_setAll, ← List.map_reverse]
  -- from the last property on; only `style` is written as `style`
  induction props.reverse with
  | nil => rfl
  | cons p ps ih =>
    rw [List.map_cons, get?_cons, get?_cons]
    by_cases h : p.name = ascii "style"
    · simp [written, Attribute.writtenName_eq_style_iff, h]
    · simpa [written, Attribute.writtenName_eq_style_iff, h] using ih

/-- Joining the classes changes nothing under other names. -/
theorem get?_joinClasses {m : Bytes} (hm : m ≠ ascii "className") (props : Properties) :
    get? m props.joinClasses = get? m props := by
  unfold joinClasses
  split
  · rw [get?_set, if_neg hm.symm]
  · rfl

theorem names_joinClasses (props : Properties) : names props.joinClasses = names props := by
  unfold joinClasses
  split
  · next h => exact names_set_of_mem (mem_names_of_get? h) _
  · rfl

/-! ## Normal lists -/

/-- Properties in normal form. -/
structure Normal (props : Properties) : Prop where
  /-- No name stands twice. -/
  distinct : props.Distinct
  /-- Every name is a written one. -/
  written : ∀ n ∈ props.names, Attribute.writtenName n = n
  /-- A style is not text. -/
  style : ∀ css, props.get? (ascii "style") ≠ some (.string css)
  /-- The classes are not a list. -/
  classes : ∀ tokens, props.get? (ascii "className") ≠ some (.list tokens)

theorem parseStyle_of_normal {props : Properties} (h : props.Normal) :
    props.parseStyle = props := by
  unfold parseStyle
  split
  · next css hcss => exact absurd hcss (h.style css)
  · rfl

theorem rename_of_normal {props : Properties} (h : props.Normal) : props.rename = props := by
  have hwritten : ∀ p ∈ props, written p = id p := by
    intro p hp
    have hname : Attribute.writtenName p.name = p.name := h.written _ (List.mem_map.2 ⟨p, hp, rfl⟩)
    simp [written, hname]
  rw [rename_eq_setAll, List.map_congr_left hwritten, List.map_id,
    setAll_nil_of_distinct h.distinct]

theorem joinClasses_of_normal {props : Properties} (h : props.Normal) :
    props.joinClasses = props := by
  unfold joinClasses
  split
  · next tokens htokens => exact absurd htokens (h.classes tokens)
  · rfl

/-- Nothing is left to do in a list in normal form. -/
theorem normalize_of_normal {props : Properties} (h : props.Normal) : props.normalize = props := by
  rw [normalize, parseStyle_of_normal h, rename_of_normal h, joinClasses_of_normal h]

/-- No name stands twice in normal form. -/
theorem distinct_normalize (props : Properties) : props.normalize.Distinct := by
  rw [normalize, Distinct, names_joinClasses]
  exact distinct_rename _

theorem Distinct.parseStyle {props : Properties} (h : props.Distinct) :
    props.parseStyle.Distinct := by
  unfold Properties.parseStyle
  split
  · exact h.set _ _
  · exact h

/-- The first style is no text when it has been parsed. -/
theorem get?_style_parseStyle (props : Properties) (css : Bytes) :
    get? (ascii "style") props.parseStyle ≠ some (.string css) := by
  unfold parseStyle
  split
  · simp [get?_set]
  · -- it was no text before
    next h => exact h css

/-- What comes out is in normal form, but for a style that may still be text. -/
theorem normal_normalize_of_style {props : Properties}
    (h : ∀ css, get? (ascii "style") props.normalize ≠ some (.string css)) :
    props.normalize.Normal where
  distinct := distinct_normalize props
  written n hn := by
    rw [normalize, names_joinClasses, mem_names_rename] at hn
    obtain ⟨p, -, rfl⟩ := hn
    exact Attribute.writtenName_writtenName p.name
  style := h
  classes tokens := by
    rw [normalize]
    unfold joinClasses
    split
    · simp [get?_set]
    · next hno => exact hno tokens

/-- The style in normal form is the last one. -/
theorem get?_style_normalize (props : Properties) :
    get? (ascii "style") props.normalize = get? (ascii "style") props.parseStyle.reverse := by
  rw [normalize, get?_joinClasses (by decide), get?_style_rename]

/-- **What comes out is in normal form.** Of names that stand twice the last value counts, and it
may be a style that is still text; so the names have to be distinct. -/
theorem normal_normalize {props : Properties} (h : props.Distinct) : props.normalize.Normal := by
  refine normal_normalize_of_style fun css => ?_
  rw [get?_style_normalize, get?_reverse h.parseStyle]
  exact get?_style_parseStyle props css

/-- **Bringing properties with distinct names into normal form twice is doing it once.** -/
theorem normalize_normalize {props : Properties} (h : props.Distinct) :
    props.normalize.normalize = props.normalize :=
  normalize_of_normal (normal_normalize h)

end Properties

end DocTree
