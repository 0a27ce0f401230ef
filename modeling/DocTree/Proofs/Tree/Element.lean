import DocTree.Proofs.Tree.Decode
import DocTree.Proofs.Tree.Normalize

/-!
# Elements in normal form

Bringing an element into normal form twice is doing it once, unless a style that is text comes last
behind another style (`normalizeOwn_twice_iff`): the first style is parsed, and the last one is
kept.

Where the names are distinct, the three steps come to one: every property is written, under the name
that it is written with, as the value that it settles to (`normalize_eq_setAll`). From this one
reads off the names, the values and what is lost (`normalizeOwn_keeps`).
-/

namespace DocTree

/-! ## Doing it twice -/

namespace Properties

/-- Only the first style is parsed. -/
theorem valuesOf_style_parseStyle (props : Properties) :
    valuesOf (ascii "style") props.parseStyle =
      match valuesOf (ascii "style") props with
      | .string css :: rest => .style (Style.parse css) :: rest
      | values => values := by
  unfold parseStyle
  rw [get?_eq_head?]
  cases hvalues : valuesOf (ascii "style") props with
  | nil => exact hvalues
  | cons v rest =>
    cases v with
    | string css => simp [valuesOf_set, hvalues]
    | _ => simp [hvalues]

/-- Style text is left exactly if it comes last behind another style. -/
theorem get?_style_normalize_eq_string_iff {props : Properties} {css : Bytes} :
    get? (ascii "style") props.normalize = some (.string css) ↔
      2 ≤ (valuesOf (ascii "style") props).length ∧
        (valuesOf (ascii "style") props).getLast? = some (.string css) := by
  rw [get?_style_normalize, get?_reverse_eq_getLast?, valuesOf_style_parseStyle]
  -- a single style is the first and the last; of two or more, parsing leaves the last as it is
  rcases valuesOf (ascii "style") props with _ | ⟨v, _ | ⟨w, rest⟩⟩
  · simp
  · cases v <;> simp
  · cases v <;> simp [List.getLast?_cons_cons]

/-- Doing it twice is doing it once exactly if no style is left as text. -/
theorem normalize_normalize_eq_iff {props : Properties} :
    props.normalize.normalize = props.normalize ↔
      ∀ css, get? (ascii "style") props.normalize ≠ some (.string css) := by
  constructor
  · intro h css hcss
    -- the names are distinct after the first time, so the second time no text is left
    have hnormal : props.normalize.normalize.Normal := normal_normalize (distinct_normalize props)
    rw [h] at hnormal
    exact hnormal.style css hcss
  · intro h
    exact normalize_of_normal (normal_normalize_of_style h)

end Properties

namespace Node

@[simp] theorem normalizeOwn_element (tag : Bytes) (props : Properties) (children : List Node) :
    (element tag props children).normalizeOwn = element tag props.normalize children := rfl

/-- **Exactly when bringing an element into normal form twice is doing it once.** It is not if two
or more of the properties are styles and the last of them is text. It always is for the elements of
a decoded document. A written name is written as it is. -/
theorem normalizeOwn_twice_iff :
    (∀ tag props children,
      (element tag props children).normalizeOwn.normalizeOwn =
        (element tag props children).normalizeOwn ↔
        ¬ (2 ≤ (props.valuesOf (ascii "style")).length ∧
          ∃ css, (props.valuesOf (ascii "style")).getLast? = some (.string css))) ∧
      (∀ src d, Document.decode src = .ok d → ∀ n ∈ d.children, ∀ k tag props children,
        Occurs (element tag props children) k n →
          (element tag props children).normalizeOwn.normalizeOwn =
            (element tag props children).normalizeOwn) ∧
      ∀ name, Attribute.writtenName (Attribute.writtenName name) = Attribute.writtenName name := by
  refine ⟨fun tag props children => ?_, fun src d h n hn k tag props children hocc => ?_,
    Attribute.writtenName_writtenName⟩
  · simp only [normalizeOwn_element, element.injEq, true_and, and_true,
      Properties.normalize_normalize_eq_iff, ne_eq, Properties.get?_style_normalize_eq_string_iff]
    simp only [not_and, not_exists]
    exact ⟨fun h hlen css => h css hlen, fun h css hlen => h hlen css⟩
  · have hdistinct : props.Distinct := distinct_of_decode h n hn k tag props children hocc
    simp only [normalizeOwn_element, Properties.normalize_normalize hdistinct]

/-- An element with two styles, the last of them text. -/
def twoStyles : Node :=
  element (ascii "p") [⟨ascii "style", .bool true⟩, ⟨ascii "style", .string (ascii "top:0")⟩] []

/-- A document with an element in which a style stands twice. -/
def repeatedStyle : Bytes :=
  ascii ("\x7b\"type\":\"root\",\"children\":[\x7b\"type\":\"element\",\"properties\":" ++
    "\x7b\"style\":\"left:0\",\"ariaLabel\":true,\"style\":\"top:0\"\x7d\x7d]\x7d")

/-- The properties of that element. -/
def repeatedStyleProps : Properties :=
  [⟨ascii "style", .string (ascii "top:0")⟩, ⟨ascii "ariaLabel", .bool true⟩]

/-- The second of two styles is parsed the second time. Decoding leaves one. -/
theorem normalizeOwn_twice_iff_styles :
    twoStyles.normalizeOwn.normalizeOwn ≠ twoStyles.normalizeOwn ∧
      ∃ d tag children, Document.decode repeatedStyle = .ok d ∧
        element tag repeatedStyleProps children ∈ d.children ∧
        (element tag repeatedStyleProps children).normalizeOwn.normalizeOwn =
          (element tag repeatedStyleProps children).normalizeOwn := by
  have htext : (Properties.valuesOf (ascii "style") twoStyles.props).getLast? =
      some (.string (ascii "top:0")) := by decide +kernel
  have hread : (Document.decode repeatedStyle).toOption.map (fun d => d.children.map Node.props) =
      some [repeatedStyleProps] := by decide +kernel
  refine ⟨fun h => (normalizeOwn_twice_iff.1 _ _ _).1 h ⟨by decide +kernel, _, htext⟩, ?_⟩
  obtain ⟨d, tag, children, hd, hmem⟩ := Document.exists_element_of_props (by decide +kernel) hread
  exact ⟨d, tag, children, hd, hmem,
    normalizeOwn_twice_iff.2.1 repeatedStyle d hd _ hmem 0 tag repeatedStyleProps children .here⟩

end Node

/-! ## What is kept -/

namespace Value

/-- Style text as its declarations. -/
def parsed : Value → Value
  | .string css => .style (Style.parse css)
  | v => v

/-- A list of classes as one text. -/
def classText : Value → Value
  | .list tokens => .string (Bytes.join (ascii " ") tokens)
  | v => v

/-- The value that is written under a name. -/
def settled (name : Bytes) (v : Value) : Value :=
  if name = ascii "style" then v.parsed else if name = ascii "className" then v.classText else v

/-- A style is known by its own name, classes by the name that they are written with. -/
theorem settled_writtenName (name : Bytes) (v : Value) :
    v.settled (Attribute.writtenName name) =
      if Attribute.writtenName name = ascii "className" then
        (if name = ascii "style" then v.parsed else v).classText
      else if name = ascii "style" then v.parsed else v := by
  rw [settled]
  -- a style is written under its own name, so it is not taken for classes
  by_cases hstyle : name = ascii "style"
  · have hname : Attribute.writtenName name = ascii "style" :=
      Attribute.writtenName_eq_style_iff.2 hstyle
    have hne : Attribute.writtenName name ≠ ascii "className" := by rw [hname]; decide
    rw [if_pos hname, if_neg hne, if_pos hstyle]
  · have hname : Attribute.writtenName name ≠ ascii "style" :=
      mt Attribute.writtenName_eq_style_iff.1 hstyle
    rw [if_neg hname, if_neg hstyle]

end Value

namespace Properties

/-- A property under the name that it is written with, as the value that is written under that
name. -/
def settled (p : Property) : Property :=
  ⟨Attribute.writtenName p.name, p.value.settled (Attribute.writtenName p.name)⟩

/-- A step that rewrites the value under one name, if there is one, changes all values under it:
there is no second one where names are distinct. -/
theorem eq_mapValues_of_rewrites {props result : Properties} (h : props.Distinct) {name : Bytes}
    {f : Value → Value} (hsome : ∀ v, get? name props = some v → result = props.set name (f v))
    (hnone : get? name props = none → result = props) :
    result = mapValues (fun n v => if n = name then f v else v) props := by
  -- the only value under the name
  have hvalue : ∀ p ∈ props, p.name = name → get? name props = some p.value := by
    rintro p hp rfl
    exact get?_of_mem h hp
  cases hget : get? name props with
  | none =>
    rw [hnone hget, mapValues_of_forall]
    intro p hp
    refine if_neg fun hname => ?_
    simp [hvalue p hp hname] at hget
  | some v =>
    rw [hsome v hget, set_eq_mapValues h (mem_names_of_get? hget)]
    refine mapValues_congr fun p hp => ?_
    by_cases hname : p.name = name
    · have hv : p.value = v := Option.some.inj ((hvalue p hp hname).symm.trans hget)
      rw [if_pos hname, if_pos hname, hv]
    · rw [if_neg hname, if_neg hname]

/-- Parsing the style changes the values under `style` alone. -/
theorem parseStyle_eq_mapValues {props : Properties} (h : props.Distinct) :
    props.parseStyle = mapValues (fun n v => if n = ascii "style" then v.parsed else v) props := by
  refine eq_mapValues_of_rewrites h (fun v hv => ?_) fun hnone => ?_
  · unfold parseStyle
    rw [hv]
    cases v with
    | string css => rfl
    | _ => exact (set_of_get? hv).symm
  · unfold parseStyle
    rw [hnone]

/-- Joining the classes changes the values under `className` alone. -/
theorem joinClasses_eq_mapValues {props : Properties} (h : props.Distinct) :
    props.joinClasses =
      mapValues (fun n v => if n = ascii "className" then v.classText else v) props := by
  refine eq_mapValues_of_rewrites h (fun v hv => ?_) fun hnone => ?_
  · unfold joinClasses
    rw [hv]
    cases v with
    | list tokens => rfl
    | _ => exact (set_of_get? hv).symm
  · unfold joinClasses
    rw [hnone]

/-- The three steps in one. -/
theorem normalize_eq_setAll {props : Properties} (h : props.Distinct) :
    props.normalize = setAll [] (props.map settled) := by
  rw [normalize, joinClasses_eq_mapValues (distinct_rename _), rename_eq_setAll, mapValues_setAll,
    mapValues_nil, parseStyle_eq_mapValues h, mapValues, mapValues, List.map_map, List.map_map]
  -- both steps on a property, in one
  congr 1
  refine List.map_congr_left fun p _ => ?_
  rw [settled, Value.settled_writtenName]
  rfl

/-- The names in normal form are the written ones, each once. -/
theorem names_normalize {props : Properties} (h : props.Distinct) :
    names props.normalize = (props.names.map Attribute.writtenName).eraseDups := by
  rw [normalize_eq_setAll h, names_setAll_nil, names, names, List.map_map, List.map_map]
  rfl

/-- The last property that is written with a name gives the value. -/
theorem get?_normalize {props : Properties} (h : props.Distinct) (m : Bytes) :
    get? m props.normalize =
      (props.reverse.find? fun p => Attribute.writtenName p.name == m).map fun p =>
        p.value.settled m := by
  rw [normalize_eq_setAll h, get?_setAll, ← List.map_reverse, get?, Keyed.find?, List.find?_map,
    Option.map_map]
  change (Option.map _ (props.reverse.find? fun p => Attribute.writtenName p.name == m)).or none = _
  rw [Option.or_none]
  -- the last one that is written so, or none
  cases hfind : props.reverse.find? fun p => Attribute.writtenName p.name == m with
  | none => rfl
  | some p =>
    have hname : Attribute.writtenName p.name = m := by simpa using List.find?_some hfind
    simp [settled, hname]

/-- A property is lost only to a later one that is written with the same name. -/
theorem settled_mem_normalize {props front rest : Properties} {p : Property} (h : props.Distinct)
    (hprops : props = front ++ p :: rest)
    (hrest : ∀ q ∈ rest, Attribute.writtenName q.name ≠ Attribute.writtenName p.name) :
    settled p ∈ props.normalize := by
  apply mem_of_get?
  -- from the end, `p` is the first to be written with its name
  have hnone : rest.reverse.find?
      (fun q => Attribute.writtenName q.name == Attribute.writtenName p.name) = none := by
    simpa using hrest
  rw [get?_normalize h, hprops, List.reverse_append, List.reverse_cons, List.append_assoc,
    List.find?_append, hnone]
  simp

end Properties

namespace Node

/-- **What bringing an element with distinct names into normal form keeps.** The tag and the
children are as they were. The names are the written ones, each once and in the order in which they
come first. Under each stands what the last property that is written with it settles to, and a
property is lost only to a later one that is written with the same name. -/
theorem normalizeOwn_keeps {tag : Bytes} {props : Properties} {children : List Node}
    (h : props.Distinct) :
    ∃ normal : Properties, (element tag props children).normalizeOwn = element tag normal children ∧
      normal.Distinct ∧
      normal.names = (props.names.map Attribute.writtenName).eraseDups ∧
      (∀ m, normal.get? m =
        (props.reverse.find? fun p => Attribute.writtenName p.name == m).map fun p =>
          p.value.settled m) ∧
      ∀ front p rest, props = front ++ p :: rest →
        (⟨Attribute.writtenName p.name, p.value.settled (Attribute.writtenName p.name)⟩ :
          Property) ∈ normal ∨
          ∃ q ∈ rest, Attribute.writtenName q.name = Attribute.writtenName p.name := by
  refine ⟨props.normalize, rfl, Properties.distinct_normalize props, Properties.names_normalize h,
    Properties.get?_normalize h, fun front p rest hprops => ?_⟩
  by_cases hrest : ∃ q ∈ rest, Attribute.writtenName q.name = Attribute.writtenName p.name
  · exact Or.inr hrest
  · refine Or.inl (Properties.settled_mem_normalize h hprops fun q hq hname => ?_)
    exact hrest ⟨q, hq, hname⟩

/-- Properties of which three are written with one name. -/
def meetingProps : Properties :=
  [⟨ascii "dataFoo", .bool true⟩, ⟨ascii "style", .string (ascii "top:0")⟩,
    ⟨ascii "data-foo", .bool false⟩,
    ⟨ascii "className", .list [ascii "a", ascii "b"]⟩, ⟨ascii "dataFOO", .list [ascii "c"]⟩]

/-- Of the three the first gives the place and the last the value. -/
theorem normalizeOwn_keeps_meeting :
    meetingProps.Distinct ∧
      ∃ normal : Properties,
        (element (ascii "p") meetingProps [.text (ascii "x")]).normalizeOwn =
          element (ascii "p") normal [.text (ascii "x")] ∧
        normal.Distinct ∧
        normal.names = [ascii "data-foo", ascii "style", ascii "className"] ∧
        normal.get? (ascii "data-foo") = some (.list [ascii "c"]) ∧
        normal.get? (ascii "style") = some (.style (Style.parse (ascii "top:0"))) ∧
        normal.get? (ascii "className") = some (.string (ascii "a b")) := by
  have hmeeting : meetingProps.Distinct := by decide +kernel
  obtain ⟨normal, hown, hdistinct, hnames, hvalues, -⟩ := normalizeOwn_keeps hmeeting
  refine ⟨hmeeting, normal, hown, hdistinct, ?_, ?_, ?_, ?_⟩
  · rw [hnames]
    decide +kernel
  · rw [hvalues]
    decide +kernel
  · rw [hvalues]
    decide +kernel
  · rw [hvalues]
    decide +kernel

end Node

end DocTree
