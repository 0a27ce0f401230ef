import DocTree.Proofs.Json.Contents
import DocTree.Proofs.Tree.Decode
import DocTree.Proofs.Tree.FieldOrder
import Mathlib.Data.List.Forall2
import Mathlib.Data.List.Induction

/-!
# Where a node is written

The text of a node is found without reading it: the members of an object and the items of an array
are cut out by their commas (`membersOf`, `itemsOf`), and the children of a node are the items of
all its arrays with the name `children`, in their order. So a place in a document is a place in its
text as well (`sourceAt?`), and every node of a decoded document is made of the members of the
object that is found there (`Document.exists_sourceAt`).
-/

namespace DocTree.Decode

open Json (Read Local Blank wholly wholly_eq_some wholly_map keyed)

/-! ## Members and items -/

/-- The member in a piece of an object: what follows the colon behind its key. -/
def member? (piece : Bytes) : Option Member :=
  match Json.string piece with
  | .error _ => none
  | .ok (name, s) =>
    match Json.expect (octet ':') s with
    | .error _ => none
    | .ok text => some ⟨name, text⟩

/-- The members of an object; another text has none. -/
def membersOf (text : Bytes) : List Member :=
  if Json.nextKind text = .object then
    ((Json.contents ((Json.skipSpaces text).drop 1)).getD []).filterMap member?
  else []

/-- The items of an array; another text has none. -/
def itemsOf (text : Bytes) : List Bytes :=
  if Json.nextKind text = .array then (Json.contents ((Json.skipSpaces text).drop 1)).getD []
  else []

/-- The members with a name, in their order. -/
def named (name : Bytes) (ms : List Member) : List Member := ms.filter (·.name == name)

/-- The texts of the children of a node. -/
def childTexts (text : Bytes) : List Bytes :=
  (named (ascii "children") (membersOf text)).flatMap (itemsOf ·.text)

/-- The text at a place in the text of a node. -/
def sourceAt? : List Nat → Bytes → Option Bytes
  | [], text => some text
  | i :: path, text => (childTexts text)[i]?.bind (sourceAt? path)

theorem named_append (name : Bytes) (ms ms' : List Member) :
    named name (ms ++ ms') = named name ms ++ named name ms' := List.filter_append ..

theorem named_singleton_of_eq {name : Bytes} {m : Member} (h : m.name = name) :
    named name [m] = [m] := by
  simp [named, h]

theorem named_singleton_of_ne {name : Bytes} {m : Member} (h : m.name ≠ name) :
    named name [m] = [] := by
  simp [named, h]

/-- Reading a piece of an object is reading the member in it. -/
theorem exists_member_of_keyed {σ : Type} {read : σ → Bytes → Bytes → Read σ} {acc acc' : σ}
    {piece : Bytes} (h : wholly (keyed read acc) piece = some acc') :
    ∃ m, member? piece = some m ∧ wholly (read acc m.name) m.text = some acc' := by
  obtain ⟨rest, hread, hrest⟩ := wholly_eq_some.1 h
  obtain ⟨name, s₁, text, hname, hcolon, hread⟩ := Json.keyed_eq_ok_iff.1 hread
  refine ⟨⟨name, text⟩, ?_, wholly_eq_some.2 ⟨rest, hread, hrest⟩⟩
  simp only [member?, hname, hcolon]

/-- So for all pieces of an object, one after another. -/
theorem foldlM_filterMap_member? {σ : Type} {read : σ → Bytes → Bytes → Read σ} {acc acc' : σ}
    {pieces : List Bytes}
    (h : pieces.foldlM (fun acc piece => wholly (keyed read acc) piece) acc = some acc') :
    (pieces.filterMap member?).foldlM (fun acc m => wholly (read acc m.name) m.text) acc =
      some acc' := by
  induction pieces generalizing acc with
  | nil => exact h
  | cons piece pieces ih =>
    rw [List.foldlM_cons] at h
    obtain ⟨acc₁, hpiece, hpieces⟩ := Option.bind_eq_some_iff.1 h
    obtain ⟨m, hm, hread⟩ := exists_member_of_keyed hpiece
    rw [List.filterMap_cons_some hm, List.foldlM_cons, hread]
    exact ih hpieces

/-- An object is read member by member. -/
theorem foldlM_membersOf {σ : Type} {read : σ → Bytes → Bytes → Read σ}
    (hlocal : ∀ acc name, Local True .outer (read acc name)) {acc acc' : σ} {text rest : Bytes}
    (hkind : Json.nextKind text = .object)
    (h : Json.members read acc ((Json.skipSpaces text).drop 1) = .ok (acc', rest)) :
    (membersOf text).foldlM (fun acc m => wholly (read acc m.name) m.text) acc = some acc' := by
  obtain ⟨pieces, hpieces, hfold⟩ := Json.members_contents hlocal h
  rw [membersOf, if_pos hkind, hpieces, Option.getD_some]
  exact foldlM_filterMap_member? hfold

/-! ## The fields of a node -/

section

variable {child : Bytes → Read Node} {room : Nat}

theorem Member.into?_eq_wholly (f : Fields) (m : Member) :
    m.into? child room f = wholly (field child room f m.name) m.text :=
  Option.ext fun g => by rw [Member.into?_eq_some, wholly_eq_some]

theorem intoAll?_eq_foldlM (f : Fields) (ms : List Member) :
    intoAll? child room f ms =
      ms.foldlM (fun f m => wholly (field child room f m.name) m.text) f := by
  induction ms generalizing f with
  | nil => rfl
  | cons m ms ih =>
    rw [intoAll?_cons, List.foldlM_cons, Member.into?_eq_wholly, Option.bind_eq_bind]
    exact Option.bind_congr fun g _ => ih g

/-- A member changes the part of a node that has its name. -/
theorem Member.into?_eq_of_ne {m : Member} {f f' : Fields} (h : m.into? child room f = some f') :
    (m.name ≠ ascii "properties" → f'.props = f.props) ∧
      (m.name ≠ ascii "children" → f'.children = f.children) := by
  rcases Member.into?_brings child room m with hnone | ⟨part, hname, hsome⟩
  · rw [hnone] at h
    cases h
  · rw [hsome] at h
    obtain rfl := Option.some.inj h
    -- each part has a name of its own
    rcases part with _ | part
    · exact ⟨fun _ => rfl, fun _ => rfl⟩
    · have hname : part.name = m.name := hname part rfl
      cases part with
      | props props => exact ⟨fun hne => absurd hname.symm hne, fun _ => rfl⟩
      | children nodes => exact ⟨fun _ => rfl, fun hne => absurd hname.symm hne⟩
      | type | value | isDefault | tag => exact ⟨fun _ => rfl, fun _ => rfl⟩

/-- A member `properties` brings the properties that are read from it. -/
theorem Member.into?_properties {m : Member} (hname : m.name = ascii "properties") {f f' : Fields}
    (h : m.into? child room f = some f') : wholly (properties room) m.text = some f'.props := by
  obtain ⟨rest, hread, hrest⟩ := Member.into?_eq_some.1 h
  rw [hname] at hread
  obtain ⟨⟨props, rest₁⟩, hprops, heq⟩ := (map_eq_ok_iff (x := properties room m.text)).1 hread
  obtain ⟨rfl, rfl⟩ := Prod.mk.inj heq
  exact wholly_eq_some.2 ⟨rest₁, hprops, hrest⟩

/-- The last member with the name `properties` decides. -/
theorem intoAll?_props {f f' : Fields} {ms : List Member} (h : intoAll? child room f ms = some f') :
    match (named (ascii "properties") ms).getLast? with
    | some m => wholly (properties room) m.text = some f'.props
    | none => f'.props = f.props := by
  induction ms using List.reverseRecOn generalizing f' with
  | nil =>
    obtain rfl := Option.some.inj h
    rfl
  | append_singleton ms m ih =>
    rw [intoAll?_append] at h
    obtain ⟨g, hms, hm⟩ := Option.bind_eq_some_iff.1 h
    have hm : m.into? child room g = some f' := hm
    rw [named_append]
    -- the last member decides, or it has another name
    by_cases hname : m.name = ascii "properties"
    · rw [named_singleton_of_eq hname, List.getLast?_concat]
      exact Member.into?_properties hname hm
    · rw [named_singleton_of_ne hname, List.append_nil, (Member.into?_eq_of_ne hm).1 hname]
      exact ih hms

/-- What is used of the reader of a child. -/
structure IsChildReader (child : Bytes → Read Node) : Prop where
  isLocal : Local True .outer child
  spaces : ∀ s, child (Json.skipSpaces s) = child s
  nil : ∀ r, child [] ≠ .ok r

/-- The texts and the nodes that are read from them, one by one. -/
def ReadEach (child : Bytes → Read Node) (texts : List Bytes) (nodes : List Node) : Prop :=
  List.Forall₂ (fun text n => wholly child text = some n) texts nodes

/-- Each node is read from the text in its place. -/
theorem ReadEach.exists_getElem? {texts : List Bytes} {nodes : List Node}
    (h : ReadEach child texts nodes) {i : Nat} {n : Node} (hn : nodes[i]? = some n) :
    ∃ text, texts[i]? = some text ∧ wholly child text = some n := by
  obtain ⟨hi, rfl⟩ := List.getElem?_eq_some_iff.1 hn
  obtain ⟨hlength, hreads⟩ := List.forall₂_iff_get.1 h
  have hi' : i < texts.length := hlength ▸ hi
  exact ⟨texts[i], List.getElem?_eq_getElem hi', hreads i hi' hi⟩

/-- The fields of a node with one more child. -/
def Fields.addChild (f : Fields) (n : Node) : Fields := { f with children := n :: f.children }

/-- Children that are added one after another stand with the last one first. -/
theorem foldlM_addChild {pieces : List Bytes} {f f' : Fields}
    (h : pieces.foldlM (fun f piece => (wholly child piece).map f.addChild) f = some f') :
    ∃ nodes, f'.children = nodes.reverse ++ f.children ∧ ReadEach child pieces nodes := by
  induction pieces generalizing f with
  | nil =>
    obtain rfl := Option.some.inj h
    exact ⟨[], rfl, .nil⟩
  | cons piece pieces ih =>
    rw [List.foldlM_cons] at h
    obtain ⟨g, hpiece, hpieces⟩ := Option.bind_eq_some_iff.1 h
    obtain ⟨n, hn, rfl⟩ := Option.map_eq_some_iff.1 hpiece
    obtain ⟨nodes, hnodes, hreads⟩ := ih hpieces
    refine ⟨n :: nodes, ?_, .cons hn hreads⟩
    rw [hnodes, List.reverse_cons, List.append_assoc, List.singleton_append]
    rfl

/-- Nothing is read from blank text. -/
theorem IsChildReader.not_of_blank (h : IsChildReader child) {s : Bytes} (hs : Blank s)
    (r : Node × Bytes) : child s ≠ .ok r := by
  rw [← h.spaces, Json.blank_iff.1 hs]
  exact h.nil r

/-- An array of children is read child by child, each put in front of those before it. -/
theorem children_readEach (hchild : IsChildReader child) {f f' : Fields} {text : Bytes}
    (h : wholly (children child room f) text = some f') :
    ∃ nodes, f'.children = nodes.reverse ++ f.children ∧ ReadEach child (itemsOf text) nodes := by
  obtain ⟨rest, hread, -⟩ := wholly_eq_some.1 h
  unfold children at hread
  split at hread
  · next hkind =>
    obtain ⟨rest₁, -, heq⟩ := map_eq_ok_iff.1 hread
    obtain ⟨rfl, -⟩ := Prod.mk.inj heq
    -- `null` has no items
    have hitems : itemsOf text = [] := if_neg (by simp [hkind])
    exact ⟨[], rfl, hitems ▸ .nil⟩
  · next hkind =>
    split at hread
    · cases hread
    · obtain ⟨pieces, hpieces, hfold⟩ := Json.items_contents
        (fun f : Fields => hchild.isLocal.map f.addChild) (fun f s => by simp only [hchild.spaces])
        (fun f s r hs hr => by
          obtain ⟨r', hr', -⟩ := map_eq_ok_iff.1 hr
          exact hchild.not_of_blank hs r' hr') hread
      simp only [wholly_map child] at hfold
      have hitems : itemsOf text = pieces := by
        rw [itemsOf, if_pos hkind, hpieces, Option.getD_some]
      rw [hitems]
      exact foldlM_addChild hfold
  · cases hread

/-- A member `children` brings the nodes that are read from its items. -/
theorem Member.into?_children (hchild : IsChildReader child) {m : Member}
    (hname : m.name = ascii "children") {f f' : Fields} (h : m.into? child room f = some f') :
    ∃ nodes, f'.children = nodes.reverse ++ f.children ∧ ReadEach child (itemsOf m.text) nodes := by
  obtain ⟨rest, hread, hrest⟩ := Member.into?_eq_some.1 h
  rw [hname] at hread
  have hread : children child room f m.text = .ok (f', rest) := hread
  exact children_readEach hchild (wholly_eq_some.2 ⟨rest, hread, hrest⟩)

/-- All members with the name `children` bring children, one behind the other. -/
theorem intoAll?_children (hchild : IsChildReader child) {f f' : Fields} {ms : List Member}
    (h : intoAll? child room f ms = some f') :
    ∃ nodes, f'.children = nodes.reverse ++ f.children ∧
      ReadEach child ((named (ascii "children") ms).flatMap (itemsOf ·.text)) nodes := by
  induction ms using List.reverseRecOn generalizing f' with
  | nil =>
    obtain rfl := Option.some.inj h
    exact ⟨[], rfl, .nil⟩
  | append_singleton ms m ih =>
    rw [intoAll?_append] at h
    obtain ⟨g, hms, hm⟩ := Option.bind_eq_some_iff.1 h
    have hm : m.into? child room g = some f' := hm
    obtain ⟨nodes, hnodes, hreads⟩ := ih hms
    rw [named_append]
    -- the last member adds its items, or it has another name
    by_cases hname : m.name = ascii "children"
    · obtain ⟨more, hmore, hreads'⟩ := Member.into?_children hchild hname hm
      refine ⟨nodes ++ more, by rw [hmore, hnodes, List.reverse_append, List.append_assoc], ?_⟩
      rw [named_singleton_of_eq hname, List.flatMap_append, List.flatMap_singleton]
      exact List.rel_append hreads hreads'
    · refine ⟨nodes, by rw [(Member.into?_eq_of_ne hm).2 hname, hnodes], ?_⟩
      rwa [named_singleton_of_ne hname, List.append_nil]

/-! ## The text of each node -/

/-- The members of an object make a node, with a reader for the children and some room for
nesting. -/
def Describes (text : Bytes) (n : Node) : Prop :=
  ∃ child room f, room ≤ Json.maxNesting ∧ intoAll? child room {} (membersOf text) = some f ∧
    f.toNode = .ok n

/-- The nodes that are read are described by the texts at their places. -/
def Located (read : Bytes → Read Node) : Prop :=
  ∀ s n rest, read s = .ok (n, rest) → ∀ path m, n.at? path = some m →
    ∃ text, sourceAt? path s = some text ∧ Describes text m

theorem Located.of_fails {read : Bytes → Read Node} (h : ∀ s r, read s ≠ .ok r) : Located read :=
  fun s _ _ hs => absurd hs (h s _)

/-- A node is made of the members of its object. -/
theorem nodeWith_intoAll? (hchild : IsChildReader child) {s rest : Bytes} {n : Node}
    (h : node.nodeWith child room s = .ok (n, rest)) :
    ∃ f, intoAll? child room {} (membersOf s) = some f ∧ f.toNode = .ok n := by
  unfold node.nodeWith at h
  split at h
  · next hkind =>
    split at h
    · cases h
    · next f rest₁ hmembers =>
      obtain ⟨n', hn, heq⟩ := map_eq_ok_iff.1 h
      obtain ⟨rfl, -⟩ := Prod.mk.inj heq
      refine ⟨f, ?_, hn⟩
      rw [intoAll?_eq_foldlM]
      exact foldlM_membersOf (field_local hchild.isLocal room) hkind hmembers
  · cases h

/-- The children of a node are those among its fields. -/
theorem Fields.getElem?_children_toNode {f : Fields} {n c : Node} (h : f.toNode = .ok n) {i : Nat}
    (hc : n.children[i]? = some c) : f.children.reverse[i]? = some c := by
  rcases toNode_eq_ok h with rfl | rfl | hleaf
  · exact hc
  · exact hc
  · -- a leaf has no children
    cases n with
    | root | element => exact hleaf.elim
    | importing | exporting | text | comment | jsx | unknown => cases hc

/-- One step on the way to a node: the step to a child of the node is the step to its text. -/
theorem nodeWith_located (hchild : IsChildReader child) (hlocated : Located child)
    (hroom : room ≤ Json.maxNesting) : Located (node.nodeWith child room) := by
  intro s n rest hread path m hm
  obtain ⟨f, hfields, hn⟩ := nodeWith_intoAll? hchild hread
  cases path with
  | nil =>
    obtain rfl := Option.some.inj hm
    exact ⟨s, rfl, child, room, f, hroom, hfields, hn⟩
  | cons i path =>
    obtain ⟨c, hc, hm⟩ := Option.bind_eq_some_iff.1 hm
    obtain ⟨nodes, hnodes, hreads⟩ := intoAll?_children hchild hfields
    have hc : nodes[i]? = some c := by
      -- the fields keep the children with the last one first
      have hrev := Fields.getElem?_children_toNode hn hc
      rw [hnodes] at hrev
      simpa using hrev
    -- the text of the child stands in the same place among the items
    obtain ⟨text, htext, hc⟩ := hreads.exists_getElem? hc
    obtain ⟨rest₁, hread, -⟩ := wholly_eq_some.1 hc
    obtain ⟨source, hsource, hdescribes⟩ := hlocated text c rest₁ hread path m hm
    refine ⟨source, ?_, hdescribes⟩
    rw [sourceAt?, childTexts, htext]
    exact hsource

end

/-- A reader that always fails, where there is no room for children. -/
theorem isChildReader_fails : IsChildReader fun _ => .error .malformed where
  isLocal := Local.of_fails fun s r h => by cases h
  spaces _ := rfl
  nil r h := by cases h

theorem isChildReader_node (room : Nat) : IsChildReader (node room) := by
  refine ⟨(node_local room).loosen, node_skipSpaces room, fun r h => ?_⟩
  match room with
  | 0 => cases h
  | 1 => cases h
  | room + 2 => cases h

/-- By induction on the room for nesting: a child has two levels less. -/
theorem node_located : ∀ room, room ≤ Json.maxNesting → Located (node room)
  | 0, _ => Located.of_fails fun s r h => by cases h
  | 1, _ =>
    nodeWith_located isChildReader_fails (Located.of_fails fun s r h => by cases h) (Nat.zero_le _)
  | room + 2, hroom =>
    nodeWith_located (isChildReader_node room) (node_located room (by omega)) (by omega)

end DocTree.Decode

namespace DocTree

/-- Every node of a decoded document is made of the members of the object at its place in the
text. -/
theorem Document.exists_sourceAt {src : Bytes} {d : Document} (h : decode src = .ok d)
    {path : List Nat} {n : Node} (hn : d.at? path = some n) :
    ∃ text, Decode.sourceAt? path src = some text ∧ Decode.Describes text n := by
  obtain ⟨rest, hread⟩ := decode_eq_ok_iff.1 h
  exact Decode.node_located _ le_rfl src _ rest hread path n hn

end DocTree
