import DocTree.Proofs.Json.Ahead
import DocTree.Proofs.Tree.Occurrence
import DocTree.Proofs.Tree.Properties
import DocTree.Proofs.Tree.Truncation
import DocTree.Tree.Basic

/-!
# What decoding builds

A node is made of fields: properties that were read as a property object, if any, and children that
were read as nodes. What is known of the text ahead and lasts is known wherever these are read
(`nodeWith_meets`). So what holds of the property lists that are read holds of all property lists of
a decoded document (`everyProps_of_decode`). In particular their names are distinct: each member of
a property object is written into the list in front of it, and writing keeps the names distinct
(`distinct_of_decode`).
-/

namespace DocTree

namespace Decode

open Json (Read Fault Local Lasting EndsWord)

/-! ## Properties -/

/-- What a value can be: `null`, which gives none, a style with the declarations that are read from
an object, or something else. -/
theorem value_eq_ok {room : Nat} {s rest : Bytes} {v : Option Value}
    (h : value room s = .ok (v, rest)) :
    (v = none ∧ Json.nextKind s = .null) ∨
      (∃ room' acc, v = some (.style acc.reverse) ∧ Json.nextKind s = .object ∧
        Json.members (declaration room') [] ((Json.skipSpaces s).drop 1) = .ok (acc, rest)) ∨
      ∃ w, v = some w ∧ Json.nextKind s ≠ .null ∧ ∀ decls, w ≠ .style decls := by
  cases hkind : Json.nextKind s with
  -- one case per kind of value
  | null =>
    simp only [value, hkind] at h
    obtain ⟨_, -, heq⟩ := map_eq_ok_iff.1 h
    exact Or.inl ⟨(Prod.mk.inj heq).1.symm, rfl⟩
  | object =>
    cases room with
    | zero => simp [value, hkind] at h
    | succ room =>
      simp only [value, hkind] at h
      obtain ⟨⟨acc, rest₁⟩, hmembers, heq⟩ := map_eq_ok_iff.1 h
      obtain ⟨rfl, rfl⟩ := Prod.mk.inj heq
      exact Or.inr (Or.inl ⟨room, acc, rfl, rfl, hmembers⟩)
  | array =>
    cases room with
    | zero => simp [value, hkind] at h
    | succ room =>
      simp only [value, hkind] at h
      obtain ⟨_, -, heq⟩ := map_eq_ok_iff.1 h
      exact Or.inr (Or.inr ⟨_, (Prod.mk.inj heq).1.symm, by decide, by simp⟩)
  | string | bool | number =>
    simp only [value, hkind] at h
    obtain ⟨_, -, heq⟩ := map_eq_ok_iff.1 h
    exact Or.inr (Or.inr ⟨_, (Prod.mk.inj heq).1.symm, by decide, by simp⟩)
  | invalid => simp [value, hkind, Json.skip_of_invalid hkind, Except.map] at h

/-- A member of a property object is written into the list in front of it, or left out. -/
theorem property_distinct {room : Nat} {props props' : Properties} {name s rest : Bytes}
    (h : props.Distinct) (hread : property room props name s = .ok (props', rest)) :
    props'.Distinct := by
  obtain ⟨⟨v, rest₁⟩, -, heq⟩ := map_eq_ok_iff.1 hread
  cases v with
  | none =>
    obtain ⟨rfl, -⟩ := Prod.mk.inj heq
    exact h
  | some v =>
    obtain ⟨rfl, -⟩ := Prod.mk.inj heq
    exact h.set name v

/-- Property lists that are read have distinct names. -/
theorem properties_distinct {room : Nat} {s rest : Bytes} {props : Properties}
    (hread : properties room s = .ok (props, rest)) : props.Distinct := by
  unfold properties at hread
  split at hread
  · -- `null` stands for no properties
    obtain ⟨_, -, heq⟩ := map_eq_ok_iff.1 hread
    obtain ⟨rfl, -⟩ := Prod.mk.inj heq
    exact Properties.distinct_nil
  · split at hread
    · cases hread
    · exact Json.members_preserves (fun _ _ _ _ _ => property_distinct) Properties.distinct_nil
        hread
  · cases hread

/-! ## Nodes -/

/-- What a member of a node object can do: leave properties and children alone, replace the
properties by a list that was read, or add children. -/
theorem field_eq_ok {node : Bytes → Read Node} {room : Nat} {f f' : Fields} {key s rest : Bytes}
    (h : field node room f key s = .ok (f', rest)) :
    (f'.props = f.props ∧ f'.children = f.children) ∨
      (∃ props, properties room s = .ok (props, rest) ∧ f' = { f with props := props }) ∨
      children node room f s = .ok (f', rest) := by
  unfold field at h
  split at h
  · obtain ⟨_, -, heq⟩ := map_eq_ok_iff.1 h
    obtain ⟨rfl, -⟩ := Prod.mk.inj heq
    exact Or.inl ⟨rfl, rfl⟩
  split at h
  · split at h <;>
    · obtain ⟨_, -, heq⟩ := map_eq_ok_iff.1 h
      obtain ⟨rfl, -⟩ := Prod.mk.inj heq
      exact Or.inl ⟨rfl, rfl⟩
  split at h
  · split at h <;>
    · obtain ⟨_, -, heq⟩ := map_eq_ok_iff.1 h
      obtain ⟨rfl, -⟩ := Prod.mk.inj heq
      exact Or.inl ⟨rfl, rfl⟩
  split at h
  · obtain ⟨_, -, heq⟩ := map_eq_ok_iff.1 h
    obtain ⟨rfl, -⟩ := Prod.mk.inj heq
    exact Or.inl ⟨rfl, rfl⟩
  split at h
  · obtain ⟨⟨props, rest₁⟩, hprops, heq⟩ := map_eq_ok_iff.1 h
    obtain ⟨rfl, rfl⟩ := Prod.mk.inj heq
    exact Or.inr (Or.inl ⟨props, hprops, rfl⟩)
  split at h
  · exact Or.inr (Or.inr h)
  · obtain ⟨_, -, heq⟩ := map_eq_ok_iff.1 h
    obtain ⟨rfl, -⟩ := Prod.mk.inj heq
    exact Or.inl ⟨rfl, rfl⟩

/-- The node that fields describe has their properties and children, or none. -/
theorem Fields.toNode_eq_ok {f : Fields} {n : Node} (h : f.toNode = .ok n) :
    n = .root f.children.reverse ∨ n = .element f.tag f.props f.children.reverse ∨ n.IsLeaf := by
  unfold Fields.toNode at h
  split at h
  · exact Or.inl (Except.ok.inj h).symm
  split at h
  · exact Or.inr (Or.inr (Except.ok.inj h ▸ trivial))
  split at h
  · exact Or.inr (Or.inr (Except.ok.inj h ▸ trivial))
  split at h
  · exact Or.inr (Or.inl (Except.ok.inj h).symm)
  split at h
  · exact Or.inr (Or.inr (Except.ok.inj h ▸ trivial))
  split at h
  · exact Or.inr (Or.inr (Except.ok.inj h ▸ trivial))
  split at h
  · exact Or.inr (Or.inr (Except.ok.inj h ▸ trivial))
  split at h
  · cases h
  · exact Or.inr (Or.inr (Except.ok.inj h ▸ trivial))

section Meets

variable {Q : Bytes → Prop} {P : Properties → Prop} {R : Node → Prop}

/-- The properties among the fields of a node satisfy `P`, and its children satisfy `R`. -/
structure Fields.Meets (P : Properties → Prop) (R : Node → Prop) (f : Fields) : Prop where
  /-- The properties of the node. -/
  props : P f.props
  /-- The children of the node. -/
  children : ∀ c ∈ f.children, R c

/-- What holds of the fields holds of the node that they make. -/
theorem Fields.Meets.toNode {f : Fields} (h : f.Meets P (Node.EveryProps P)) {n : Node}
    (hn : f.toNode = .ok n) : n.EveryProps P := by
  have hchildren : ∀ c ∈ f.children.reverse, c.EveryProps P :=
    fun c hc => h.children c (List.mem_reverse.1 hc)
  rcases toNode_eq_ok hn with rfl | rfl | hleaf
  · exact Node.everyProps_root.2 hchildren
  · exact Node.everyProps_element.2 ⟨h.props, hchildren⟩
  · exact Node.everyProps_of_leaf hleaf

/-- From texts that satisfy `Q`, a reader of nodes gives nodes that satisfy `R`. -/
def Reads (Q : Bytes → Prop) (R : Node → Prop) (node : Bytes → Read Node) : Prop :=
  ∀ s n rest, Q s → node s = .ok (n, rest) → R n

theorem Reads.of_fails {node : Bytes → Read Node} (h : ∀ s r, node s ≠ .ok r) : Reads Q R node :=
  fun s _ _ _ hs => absurd hs (h s _)

/-- From texts that satisfy `Q`, property lists are read that satisfy `P`. -/
def PropertiesSatisfy (Q : Bytes → Prop) (P : Properties → Prop) : Prop :=
  ∀ room s props rest, Q s → EndsWord rest → properties room s = .ok (props, rest) → P props

/-- The bytes in front of the first item or member are passed together with the bracket. -/
theorem lasting_drop (hQ : Lasting Q) {s : Bytes} (hs : Q s)
    (hkind : Json.nextKind s = .array ∨ Json.nextKind s = .object) :
    Q ((Json.skipSpaces s).drop 1) := by
  unfold Json.nextKind at hkind
  split at hkind
  · simp at hkind
  · next b rest hskip =>
    -- an opening bracket ends a word, and is no quote
    have hb := Json.firstByte_ofByte b
    rw [hskip]
    refine hQ.next hs hskip ?_
    rcases hkind with hkind | hkind
    · rw [hkind] at hb
      cases hb
      decide
    · rw [hkind] at hb
      cases hb
      decide

/-- Children that are added were read as children. -/
theorem children_meets (hQ : Lasting Q) {node : Bytes → Read Node} (hlocal : Local True .outer node)
    (hnode : Reads Q R node) {room : Nat} {f f' : Fields} {s rest : Bytes} (hs : Q s)
    (h : f.Meets P R) (hread : children node room f s = .ok (f', rest)) : f'.Meets P R := by
  unfold children at hread
  split at hread
  · obtain ⟨_, -, heq⟩ := map_eq_ok_iff.1 hread
    obtain ⟨rfl, -⟩ := Prod.mk.inj heq
    exact h
  · next hkind =>
    split at hread
    · cases hread
    · -- each child is put in front of those that were read before it
      refine hQ.items (fun f => hlocal.map fun n => { f with children := n :: f.children }) ?_ h
        (lasting_drop hQ hs (Or.inl hkind)) hread
      intro g s g' rest hg hs _ hchild
      obtain ⟨⟨n, rest₁⟩, hn, heq⟩ := map_eq_ok_iff.1 hchild
      obtain ⟨rfl, -⟩ := Prod.mk.inj heq
      exact ⟨hg.props, List.forall_mem_cons.2 ⟨hnode _ _ _ hs hn, hg.children⟩⟩
  · cases hread

/-- A node that is read is made of fields that were read as such. -/
theorem nodeWith_meets (hQ : Lasting Q) (hP : PropertiesSatisfy Q P) (hempty : P [])
    {child : Bytes → Read Node} (hlocal : Local True .outer child) (hchild : Reads Q R child)
    {room : Nat} {s rest : Bytes} {n : Node} (hs : Q s)
    (hread : node.nodeWith child room s = .ok (n, rest)) :
    ∃ f : Fields, f.Meets P R ∧ f.toNode = .ok n := by
  unfold node.nodeWith at hread
  split at hread
  · next hkind =>
    split at hread
    · cases hread
    · next f rest₁ hmembers =>
      obtain ⟨n', hn, heq⟩ := map_eq_ok_iff.1 hread
      obtain ⟨rfl, -⟩ := Prod.mk.inj heq
      refine ⟨f, ?_, hn⟩
      -- by the members, from fields that are empty
      refine hQ.members (field_local hlocal room) ?_ ⟨hempty, by simp⟩
        (lasting_drop hQ hs (Or.inr hkind)) hmembers
      intro g key s g' rest hg hs hrest hfield
      rcases field_eq_ok hfield with ⟨hprops, hcs⟩ | ⟨props, hprops, rfl⟩ | hcs
      · exact ⟨hprops ▸ hg.props, hcs ▸ hg.children⟩
      · exact ⟨hP _ _ _ _ hs hrest hprops, hg.children⟩
      · exact children_meets hQ hlocal hchild hs hg hcs
  · cases hread

/-- By induction on the room for nesting: a child has two levels less. -/
theorem node_everyProps (hQ : Lasting Q) (hP : PropertiesSatisfy Q P) (hempty : P []) :
    ∀ room, Reads Q (Node.EveryProps P) (node room)
  | 0 => Reads.of_fails fun s r h => by cases h
  | 1 => fun s n rest hs h => by
    -- there is no room for children
    obtain ⟨f, hf, hn⟩ := nodeWith_meets hQ hP hempty (Local.of_fails fun s r h => by cases h)
      (Reads.of_fails fun s r h => by cases h) hs h
    exact hf.toNode hn
  | room + 2 => fun s n rest hs h => by
    obtain ⟨f, hf, hn⟩ := nodeWith_meets hQ hP hempty (node_local room).loosen
      (node_everyProps hQ hP hempty room) hs h
    exact hf.toNode hn

end Meets

end Decode

/-! ## Documents -/

/-- What holds of the empty list and of all lists that are read holds of every property list of a
decoded document. -/
theorem everyProps_of_decode {Q : Bytes → Prop} (hQ : Json.Lasting Q) {P : Properties → Prop}
    (hP : Decode.PropertiesSatisfy Q P) (hempty : P []) {src : Bytes} (hsrc : Q src) {d : Document}
    (h : Document.decode src = .ok d) : ∀ n ∈ d.children, n.EveryProps P := by
  unfold Document.decode at h
  split at h
  · cases h
  · next children rest hread =>
    obtain rfl := Except.ok.inj h
    exact Node.everyProps_root.1 (Decode.node_everyProps hQ hP hempty _ _ _ _ hsrc hread)
  · cases h

/-- The property lists of a decoded document have distinct names. -/
theorem distinct_of_decode {src : Bytes} {d : Document} (h : Document.decode src = .ok d) :
    ∀ n ∈ d.children, n.EveryProps Properties.Distinct :=
  everyProps_of_decode Json.lasting_true (fun _ _ _ _ _ _ => Decode.properties_distinct)
    Properties.distinct_nil trivial h

/-- A document whose only node has properties has an element. -/
theorem Document.exists_element_of_props {src : Bytes} {props : Properties} (hne : props ≠ [])
    (h : (decode src).toOption.map (fun d => d.children.map Node.props) = some [props]) :
    ∃ d tag children, decode src = .ok d ∧ Node.element tag props children ∈ d.children := by
  cases hd : decode src with
  | error e => simp [hd, Except.toOption] at h
  | ok d =>
    have hmap : d.children.map Node.props = [props] := by simpa [hd, Except.toOption] using h
    obtain ⟨n, hn, hprops⟩ := List.map_eq_singleton_iff.1 hmap
    cases n with
    | element tag props' children =>
      obtain rfl : props' = props := hprops
      exact ⟨d, tag, children, rfl, hn ▸ List.mem_singleton.2 rfl⟩
    | root | importing | exporting | text | comment | jsx | unknown => exact absurd hprops.symm hne

end DocTree
