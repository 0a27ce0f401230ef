import DocTree.Proofs.Text.Order
import DocTree.Proofs.Tree.Source

/-!
# Properties as ordered maps

The properties of an element are those of the last member `properties` in its text. Each of the
members there that has a value other than `null` is written into the list in front of it, so the
list has the names in the order in which they come first with a value, each with the value that
comes last (`Records`). This holds at every place of a decoded document
(`Document.decode_orderedMaps`). A member `properties` that is `null` takes the place of an object
in front of it, and leaves nothing (`Document.decode_nullProperties`).
-/

namespace DocTree.Decode

open Json (Blank wholly wholly_eq_some)

/-! ## What is written -/

/-- The members of the properties of a node: those of the last member with the name `properties`,
and none if that is no object. -/
def writtenProperties (text : Bytes) : List Member :=
  match (named (ascii "properties") (membersOf text)).getLast? with
  | some m => membersOf m.text
  | none => []

/-- Has a member a value other than `null`? -/
def Member.isGiven (m : Member) : Bool := Json.nextKind m.text ≠ .null

/-- The members with a value other than `null`. -/
def given (ms : List Member) : List Member := ms.filter Member.isGiven

/-- The value of a member as that of a property. -/
def Member.value? (m : Member) : Option Value := (wholly (value Json.maxNesting) m.text).join

theorem given_append (ms ms' : List Member) : given (ms ++ ms') = given ms ++ given ms' :=
  List.filter_append ..

/-! ## One value -/

/-- More room for nesting does not change a token. -/
theorem token_mono {room room' : Nat} (h : room ≤ room') {acc : List Bytes} {s : Bytes}
    {r : List Bytes × Bytes} (hread : token room acc s = .ok r) : token room' acc s = .ok r := by
  unfold token at hread ⊢
  split at hread
  · exact hread
  · exact hread
  · exact Json.map_skip_mono h hread

theorem declaration_mono {room room' : Nat} (h : room ≤ room') {acc : List Style.Declaration}
    {key s : Bytes} {r : List Style.Declaration × Bytes}
    (hread : declaration room acc key s = .ok r) : declaration room' acc key s = .ok r := by
  unfold declaration at hread ⊢
  split at hread
  · exact hread
  · exact hread
  · exact Json.map_skip_mono h hread

/-- More room for nesting does not change a value. -/
theorem value_mono {room room' : Nat} (h : room ≤ room') {s : Bytes} {r : Option Value × Bytes}
    (hread : value room s = .ok r) : value room' s = .ok r := by
  unfold value at hread ⊢
  split at hread
  · exact hread
  · exact hread
  · exact hread
  · -- an array takes one from the room, and its tokens have the rest
    split at hread
    · cases hread
    · next room =>
      obtain ⟨room', rfl⟩ : ∃ k, room' = k + 1 := ⟨room' - 1, by omega⟩
      have htoken : ∀ acc s r, token room acc s = .ok r → token room' acc s = .ok r :=
        fun _ _ _ => token_mono (Nat.le_of_succ_le_succ h)
      exact map_eq_ok_mono (fun _ => Json.items_mono htoken) hread
  · -- so does a style object
    split at hread
    · cases hread
    · next room =>
      obtain ⟨room', rfl⟩ : ∃ k, room' = k + 1 := ⟨room' - 1, by omega⟩
      have hdeclaration : ∀ acc key s r, declaration room acc key s = .ok r →
          declaration room' acc key s = .ok r :=
        fun _ _ _ _ => declaration_mono (Nat.le_of_succ_le_succ h)
      exact map_eq_ok_mono (fun _ => Json.members_mono hdeclaration) hread
  · exact Json.map_skip_mono h hread

/-- Only `null` gives no value. -/
theorem value_eq_none_iff {room : Nat} {s rest : Bytes} {v : Option Value}
    (h : value room s = .ok (v, rest)) : v = none ↔ Json.nextKind s = .null := by
  rcases value_eq_ok h with ⟨rfl, hkind⟩ | ⟨_, _, rfl, hkind, -⟩ | ⟨w, rfl, hkind, -⟩
  · simp [hkind]
  · simp [hkind]
  · simp [hkind]

/-- The declarations of a style object have keys and no names. -/
theorem value_style_name {room : Nat} {s rest : Bytes} {decls : List Style.Declaration}
    (h : value room s = .ok (some (.style decls), rest)) : ∀ d ∈ decls, d.name = [] := by
  rcases value_eq_ok h with ⟨hnone, -⟩ | ⟨room, acc, hstyle, -, hmembers⟩ | ⟨w, hw, -, hother⟩
  · cases hnone
  · -- every declaration is made without a name
    have hacc : ∀ d ∈ acc, d.name = [] := by
      refine Json.members_preserves (P := fun acc => ∀ d ∈ acc, d.name = []) ?_ (by simp) hmembers
      intro acc key s acc' rest hacc hread
      unfold declaration at hread
      split at hread
      · obtain ⟨_, -, heq⟩ := map_eq_ok_iff.1 hread
        obtain ⟨rfl, -⟩ := Prod.mk.inj heq
        exact List.forall_mem_cons.2 ⟨rfl, hacc⟩
      · obtain ⟨rfl, -⟩ := Prod.mk.inj (Except.ok.inj hread)
        exact List.forall_mem_cons.2 ⟨rfl, hacc⟩
      · obtain ⟨_, -, heq⟩ := map_eq_ok_iff.1 hread
        obtain ⟨rfl, -⟩ := Prod.mk.inj heq
        exact hacc
    obtain rfl : decls = acc.reverse := by simpa using hstyle
    exact fun d hd => hacc d (List.mem_reverse.1 hd)
  · exact absurd (Option.some.inj hw).symm (hother decls)

/-- The value is read to its end, and white space may follow. -/
theorem Member.value?_eq_some {m : Member} {v : Value} :
    m.value? = some v ↔ ∃ rest, value Json.maxNesting m.text = .ok (some v, rest) ∧ Blank rest := by
  rw [Member.value?, Option.join_eq_some_iff, wholly_eq_some]

/-! ## One member after another -/

/-- The ordered map that members make: the names that have a value other than `null`, in the order
in which they come first with one, and under each name the last one of its values. -/
structure Records (ms : List Member) (props : Properties) : Prop where
  names : props.names = ((given ms).map (·.name)).eraseDups
  values : ∀ name, props.get? name = ((given ms).reverse.find? (·.name == name)).bind Member.value?

theorem records_nil : Records [] [] := ⟨rfl, fun _ => rfl⟩

theorem Records.distinct {ms : List Member} {props : Properties} (h : Records ms props) :
    props.Distinct := by
  rw [Properties.Distinct, h.names]
  exact Bytes.nodup_eraseDups _

/-- A property has the value of the last member with its name. -/
theorem Records.exists_member {ms : List Member} {props : Properties} (h : Records ms props)
    {p : Property} (hp : p ∈ props) :
    ∃ m, (given ms).reverse.find? (·.name == p.name) = some m ∧ m.value? = some p.value := by
  have hget := Properties.get?_of_mem h.distinct hp
  rw [h.values] at hget
  exact Option.bind_eq_some_iff.1 hget

/-- One more member with a value. -/
theorem Records.set {ms : List Member} {props : Properties} (h : Records ms props) {m : Member}
    (hm : m.isGiven = true) {v : Value} (hv : m.value? = some v) :
    Records (ms ++ [m]) (props.set m.name v) := by
  have hgiven : given (ms ++ [m]) = given ms ++ [m] := by
    rw [given_append]
    exact congrArg (given ms ++ ·) (List.filter_cons_of_pos hm)
  constructor
  · rw [hgiven, List.map_append, List.map_singleton, Bytes.eraseDups_concat, Properties.names_set,
      h.names]
    simp only [List.mem_eraseDups]
  · intro name
    rw [Properties.get?_set, h.values, hgiven, List.reverse_append, List.reverse_singleton,
      List.singleton_append]
    -- from the end, the new member is the first one
    by_cases hname : m.name = name
    · rw [if_pos hname, List.find?_cons_of_pos (by simpa using hname), Option.bind_some, hv]
    · rw [if_neg hname, List.find?_cons_of_neg (by simpa using hname)]

/-- One more member: what it brings to the properties is what it adds to the map. -/
theorem Records.property {ms : List Member} {props props' : Properties} (h : Records ms props)
    {m : Member} {room : Nat} (hroom : room ≤ Json.maxNesting)
    (hread : wholly (property room props m.name) m.text = some props') :
    Records (ms ++ [m]) props' := by
  obtain ⟨rest, hread, hrest⟩ := wholly_eq_some.1 hread
  obtain ⟨⟨v, rest₁⟩, hvalue, heq⟩ := map_eq_ok_iff.1 hread
  have hnull := value_eq_none_iff hvalue
  cases v with
  | none =>
    -- `null` is not given, and nothing is written
    obtain ⟨rfl, -⟩ := Prod.mk.inj heq
    have hgiven : given (ms ++ [m]) = given ms := by
      have hm : given [m] = [] := List.filter_cons_of_neg (by simp [Member.isGiven, hnull.1 rfl])
      rw [given_append, hm, List.append_nil]
    exact ⟨hgiven ▸ h.names, hgiven ▸ h.values⟩
  | some v =>
    obtain ⟨rfl, rfl⟩ := Prod.mk.inj heq
    have hm : m.isGiven = true := by
      rw [Member.isGiven, decide_eq_true_eq]
      exact fun hkind => by cases hnull.2 hkind
    -- the value was read with the room that is left so deep in the text; `value?` has all of it
    exact h.set hm (Member.value?_eq_some.2 ⟨rest₁, value_mono hroom hvalue, hrest⟩)

/-- By induction on the members, from the first one on. -/
theorem records_of_foldlM {room : Nat} (hroom : room ≤ Json.maxNesting) {ms : List Member}
    {props : Properties}
    (h : ms.foldlM (fun props m => wholly (property room props m.name) m.text) [] = some props) :
    Records ms props := by
  induction ms using List.reverseRecOn generalizing props with
  | nil =>
    obtain rfl := Option.some.inj h
    exact records_nil
  | append_singleton ms m ih =>
    rw [List.foldlM_append] at h
    obtain ⟨props₁, hms, hm⟩ := Option.bind_eq_some_iff.1 h
    have hm : wholly (property room props₁ m.name) m.text = some props := by simpa using hm
    exact (ih hms).property hroom hm

/-- The properties of an element are the map that its members make. -/
theorem records_of_properties {room : Nat} (hroom : room ≤ Json.maxNesting) {text : Bytes}
    {props : Properties} (h : wholly (properties room) text = some props) :
    Records (membersOf text) props := by
  obtain ⟨rest, hread, -⟩ := wholly_eq_some.1 h
  unfold properties at hread
  split at hread
  · -- `null` has no members, and leaves no properties
    next hkind =>
    obtain ⟨_, -, heq⟩ := map_eq_ok_iff.1 hread
    obtain ⟨rfl, -⟩ := Prod.mk.inj heq
    have hmembers : membersOf text = [] := if_neg (by simp [hkind])
    exact hmembers ▸ records_nil
  · next hkind =>
    split at hread
    · cases hread
    · next room =>
      exact records_of_foldlM (by omega) (foldlM_membersOf (property_local room) hkind hread)
  · cases hread

/-! ## The node at a place -/

/-- The types that nodes with a meaning have. -/
def knownTypes : List Bytes :=
  [ascii "root", ascii "import", ascii "export", ascii "element", ascii "text", ascii "comment",
    ascii "jsx"]

/-- What describes an element describes its properties. -/
theorem Describes.records {text tag : Bytes} {props : Properties} {children : List Node}
    (h : Describes text (.element tag props children)) :
    Records (writtenProperties text) props := by
  obtain ⟨child, room, f, hroom, hfields, hnode⟩ := h
  -- only an element has properties
  obtain rfl : f.props = props := by
    rcases Fields.toNode_eq_ok hnode with heq | heq | hleaf
    · cases heq
    · exact (Node.element.inj heq).2.1.symm
    · exact hleaf.elim
  have hprops := intoAll?_props hfields
  unfold writtenProperties
  cases hlast : (named (ascii "properties") (membersOf text)).getLast? with
  | none =>
    simp only [hlast] at hprops
    exact hprops ▸ records_nil
  | some m =>
    simp only [hlast] at hprops
    exact records_of_properties hroom hprops

/-- A type that is left over is none of the others. -/
theorem Fields.toNode_unknown {f : Fields} {type : Bytes} (h : f.toNode = .ok (.unknown type)) :
    type ≠ [] ∧ type ∉ knownTypes := by
  unfold Fields.toNode at h
  -- every branch but the last one gives another node, or none
  split_ifs at h <;> cases h
  simp_all [knownTypes]

theorem Describes.unknown {text type : Bytes} (h : Describes text (.unknown type)) :
    type ≠ [] ∧ type ∉ knownTypes := by
  obtain ⟨child, room, f, -, -, hnode⟩ := h
  exact Fields.toNode_unknown hnode

end DocTree.Decode

namespace DocTree

open Decode (Records membersOf named sourceAt? writtenProperties given knownTypes)

/-- Only an element has properties. -/
theorem Node.exists_element_of_mem_props {n : Node} {p : Property} (hp : p ∈ n.props) :
    ∃ tag children, n = .element tag n.props children := by
  cases n with
  | element tag props children => exact ⟨tag, children, rfl⟩
  | root | importing | exporting | text | comment | jsx | unknown => cases hp

namespace Document

/-- The properties of the element at a place are the map that the text at that place writes. -/
theorem exists_records {src : Bytes} {d : Document} (h : decode src = .ok d) {path : List Nat}
    {tag : Bytes} {props : Properties} {children : List Node}
    (hn : d.at? path = some (.element tag props children)) :
    ∃ text, sourceAt? path src = some text ∧ Records (writtenProperties text) props := by
  obtain ⟨text, hsource, hdescribes⟩ := exists_sourceAt h hn
  exact ⟨text, hsource, hdescribes.records⟩

/-- **Decoded properties are ordered maps.** At every place of a decoded document no name stands
twice among the properties, and those of an element are read from the last `properties` in the text
at that place: they have the names with a value other than `null`, in the order in which they come
first with one, and each has the value that comes last. A node of unknown type has a type, and none
of the known ones, and the declarations of a style have no names. -/
theorem decode_orderedMaps {src : Bytes} {d : Document} (h : decode src = .ok d) {path : List Nat}
    {n : Node} (hn : d.at? path = some n) :
    n.props.Distinct ∧
      (∀ tag props children, n = .element tag props children → ∃ text,
        sourceAt? path src = some text ∧
        props.names = ((given (writtenProperties text)).map (·.name)).eraseDups ∧
        ∀ p ∈ props, ∃ m,
          (given (writtenProperties text)).reverse.find? (·.name == p.name) = some m ∧
          m.value? = some p.value) ∧
      (∀ type, n = .unknown type → type ≠ [] ∧ type ∉ knownTypes) ∧
      ∀ p ∈ n.props, ∀ decls, p.value = .style decls → ∀ decl ∈ decls, decl.name = [] := by
  have hrecords : ∀ {tag props children}, n = .element tag props children →
      ∃ text, sourceAt? path src = some text ∧ Records (writtenProperties text) props :=
    fun heq => exists_records h (heq ▸ hn)
  refine ⟨?_, fun tag props children heq => ?_, fun type heq => ?_, fun p hp decls hstyle => ?_⟩
  · cases n with
    | element tag props children =>
      obtain ⟨text, -, hprops⟩ := hrecords rfl
      exact hprops.distinct
    | root | importing | exporting | text | comment | jsx | unknown => exact Properties.distinct_nil
  · obtain ⟨text, hsource, hprops⟩ := hrecords heq
    exact ⟨text, hsource, hprops.names, fun p hp => hprops.exists_member hp⟩
  · obtain ⟨text, -, hdescribes⟩ := exists_sourceAt h hn
    exact (heq ▸ hdescribes : Decode.Describes text (.unknown type)).unknown
  · obtain ⟨tag, children, heq⟩ := Node.exists_element_of_mem_props hp
    obtain ⟨text, -, hprops⟩ := hrecords heq
    -- the style was read as the value of a member
    obtain ⟨m, -, hvalue⟩ := hprops.exists_member hp
    obtain ⟨rest, hread, -⟩ := Decode.Member.value?_eq_some.1 hvalue
    exact Decode.value_style_name (hstyle ▸ hread)

end Document

/-! ## Repeated members -/

/-- The tag and the properties of an element. -/
def Node.tagAndProps? : Node → Option (Bytes × Properties)
  | .element tag props _ => some (tag, props)
  | _ => none

/-- An element that is found by its tag and properties. -/
theorem Document.exists_element_at (src : Bytes) (path : List Nat) (tag : Bytes)
    (props : Properties)
    (h : ((decode src).toOption.bind fun d => (d.at? path).bind Node.tagAndProps?) =
      some (tag, props)) :
    ∃ d children, decode src = .ok d ∧ d.at? path = some (.element tag props children) := by
  obtain ⟨d, hd, hat⟩ := Option.bind_eq_some_iff.1 h
  obtain ⟨n, hn, htag⟩ := Option.bind_eq_some_iff.1 hat
  have hdecode : decode src = .ok d := by
    cases hsrc : decode src with
    | error e => simp [hsrc, Except.toOption] at hd
    | ok d' => simpa [hsrc, Except.toOption] using hd
  cases n with
  | element tag' props' children =>
    obtain ⟨rfl, rfl⟩ := Prod.mk.inj (Option.some.inj htag)
    exact ⟨d, children, hdecode, hn⟩
  | root | importing | exporting | text | comment | jsx | unknown => cases htag

/-- The text of a document with one node. -/
def documentOf (text : Bytes) : Bytes :=
  ascii "\x7b\"type\":\"root\",\"children\":[" ++ text ++ ascii "]\x7d"

/-- An element with two members `properties`. In the second one a name is written in two spellings,
and another one is `null` in front of its value and behind it. -/
def repeatedMembers : Bytes :=
  ascii ("\x7b\"properties\":\x7b\"c\":true\x7d,\"type\":\"element\",\"properties\":" ++
    "\x7b\"b\":null,\"a\":\"1\",\"b\":\"2\",\"\\u0061\":\"3\",\"b\":null\x7d\x7d")

/-- The name in two spellings is one name, in its first place and with its last value. -/
theorem Document.decode_orderedMaps_repeated : ∃ d children props,
    decode (documentOf repeatedMembers) = .ok d ∧ d.at? [0] = some (.element [] props children) ∧
    props = [⟨ascii "a", .string (ascii "3")⟩, ⟨ascii "b", .string (ascii "2")⟩] ∧ props.Distinct ∧
    ∃ text, sourceAt? [0] (documentOf repeatedMembers) = some text ∧ text = repeatedMembers ∧
      (given (writtenProperties text)).map (·.name) = [ascii "a", ascii "b", ascii "a"] ∧
      props.names = ((given (writtenProperties text)).map (·.name)).eraseDups := by
  obtain ⟨d, children, hd, hn⟩ := exists_element_at (documentOf repeatedMembers) [0] []
    [⟨ascii "a", .string (ascii "3")⟩, ⟨ascii "b", .string (ascii "2")⟩] (by decide +kernel)
  have hplace : sourceAt? [0] (documentOf repeatedMembers) = some repeatedMembers := by
    decide +kernel
  obtain ⟨hdistinct, helement, -⟩ := decode_orderedMaps hd hn
  obtain ⟨text, hsource, hnames, -⟩ := helement _ _ _ rfl
  obtain rfl : text = repeatedMembers := Option.some.inj (hsource.symm.trans hplace)
  exact ⟨d, children, _, hd, hn, rfl, hdistinct, _, hsource, rfl, by decide +kernel, hnames⟩

/-- An element with an object as `properties`, and `null` as `properties` behind it. -/
def nullBehindObject : Bytes :=
  ascii "\x7b\"type\":\"element\",\"properties\":\x7b\"a\":\"1\"\x7d,\"properties\":null\x7d"

/-- It is the last `properties` that counts and not the last object: `null` leaves nothing of an
object in front of it. -/
theorem Document.decode_nullProperties : ∃ d children m,
    decode (documentOf nullBehindObject) = .ok d ∧ d.at? [0] = some (.element [] [] children) ∧
    sourceAt? [0] (documentOf nullBehindObject) = some nullBehindObject ∧
    ((named (ascii "properties") (membersOf nullBehindObject)).filter
      (Json.nextKind ·.text = .object)).getLast? = some m ∧
    (given (membersOf m.text)).map (·.name) = [ascii "a"] ∧
    Properties.names [] ≠ ((given (membersOf m.text)).map (·.name)).eraseDups := by
  obtain ⟨d, children, hd, hn⟩ := exists_element_at (documentOf nullBehindObject) [0] [] []
    (by decide +kernel)
  have hgiven : (given (membersOf (ascii "\x7b\"a\":\"1\"\x7d"))).map (·.name) = [ascii "a"] := by
    decide +kernel
  refine ⟨d, children, ⟨ascii "properties", ascii "\x7b\"a\":\"1\"\x7d"⟩, hd, hn, by decide +kernel,
    by decide +kernel, hgiven, ?_⟩
  rw [hgiven]
  decide +kernel

end DocTree
