import DocTree.Proofs.Json.Extent
import DocTree.Tree.Decode

/-!
# Documents that are cut short

The readers of documents are local, one by one and down to any depth. The reader of a node ends with
the brace that closes it, so no shorter text is read as a node, and no longer one as another node.
In this way a document that is cut short is never taken for a smaller document
(`Document.decode_take`).
-/

namespace DocTree

namespace Decode

open Json (Read Fault Local Place isNumberByte isSpace_of_isNumberByte)

variable {loose : Prop}

/-! ## Property values -/

/-- Tokens and declarations are told apart from other values by their kind alone: a string, a number
as it is written, and anything else passed over. -/
theorem entry_local {α : Type} (room : Nat) {read : Bytes → Read α} (ofString ofRun : Bytes → α)
    (a : α) (hread : ∀ s, read s =
      match Json.nextKind s with
      | .string => (Json.string s).map fun r => (ofString r.1, r.2)
      | .number => .ok (ofRun (Json.numberRun s).1, (Json.numberRun s).2)
      | _ => (Json.skip room s).map (a, ·)) :
    Local True .outer read := by
  obtain rfl : read = _ := funext hread
  refine Local.of_kind (fun s => by simp) (fun s hkind r => ?_) ?_ (fun b hb hkind => ?_)
    (fun b hb hrole hkind => ?_) ?_ ?_ ?_
  · simp [hkind, Json.skip_of_invalid hkind, Except.map]
  · exact Json.string_behind.map ofString
  · simp only [Json.nextKind_cons (isSpace_of_isNumberByte hb), hkind]
    exact Json.numberRun_local hb fun run => .ok (ofRun run)
  · simp only [Json.nextKind_cons hb, hkind]
    exact Json.skip_behind (Json.next?_outer_of_other hrole) room a
  · exact Json.skip_behind rfl room a
  · exact Json.skip_behind rfl room a
  · exact Json.skip_behind rfl room a

theorem token_local (room : Nat) (acc : List Bytes) : Local True .outer (token room acc) :=
  entry_local room (· :: acc) (· :: acc) acc fun _ => rfl

theorem declaration_local (room : Nat) (acc : List Style.Declaration) (key : Bytes) :
    Local True .outer (declaration room acc key) :=
  entry_local room (⟨[], key, ·, false⟩ :: acc) (⟨[], key, ·, true⟩ :: acc) acc fun _ => rfl

/-- The reader of values. One case per kind. -/
theorem value_local (room : Nat) : Local True .outer (value room) := by
  refine Local.of_kind (fun s => by simp [value, Json.double]) (fun s hkind r => ?_) ?_
    (fun b hb hkind => ?_) (fun b hb hrole hkind => ?_) ?_ ?_ ?_
  · simp [value, hkind, Json.skip_of_invalid hkind, Except.map]
  · exact Json.string_behind.map fun t => some (Value.string t)
  · simp only [value, Json.nextKind_cons (isSpace_of_isNumberByte hb), hkind]
    exact (Json.double_behind hb).map fun x => some (Value.number x)
  · simp only [value, Json.nextKind_cons hb, hkind]
    exact (Json.bool_behind hrole).map fun b => some (Value.bool b)
  · exact Json.skip_behind rfl room none
  · -- a bracket takes one from the room
    cases room with
    | zero => exact Local.of_fails fun s r h => by cases h
    | succ room =>
      exact ((Json.items_local (token_local room) []).map fun acc =>
        some (Value.list acc.reverse)).loosen
  · cases room with
    | zero => exact Local.of_fails fun s r h => by cases h
    | succ room =>
      have hmembers := Json.members_local (declaration_local room) []
      exact (hmembers.map fun acc => some (Value.style acc.reverse)).loosen

theorem property_local (room : Nat) (props : Properties) (name : Bytes) :
    Local True .outer (property room props name) := by
  let put (v : Option Value) : Properties := v.elim props (props.set name)
  have hread : property room props name = fun s => (value room s).map fun r => (put r.1, r.2) := by
    funext s
    simp only [property]
    congr 1
    funext r
    obtain ⟨v, rest⟩ := r
    cases v <;> rfl
  rw [hread]
  exact (value_local room).map put

theorem properties_local (room : Nat) : Local True .outer (properties room) := by
  refine Local.of_nested (fun s => by simp [properties]) (fun s hnull _ hobject r => ?_) ?_ ?_ ?_
  · unfold properties
    split
    · contradiction
    · contradiction
    · exact fun h => by cases h
  · exact Json.skip_behind rfl room []
  · exact Local.of_fails fun s r h => by cases h
  · cases room with
    | zero => exact Local.of_fails fun s r h => by cases h
    | succ room => exact (Json.members_local (property_local room) []).loosen

/-! ## Nodes -/

section

variable {node : Bytes → Read Node} (hnode : Local True .outer node)
include hnode

/-- The reader of children, if that of a child is local. -/
theorem children_local (room : Nat) (f : Fields) : Local True .outer (children node room f) := by
  have hitem : ∀ f : Fields, Local True .outer fun s =>
      (node s).map fun r => ({ f with children := r.1 :: f.children }, r.2) :=
    fun f => hnode.map fun n => { f with children := n :: f.children }
  refine Local.of_nested (fun s => by simp [children]) (fun s hnull harray _ r => ?_) ?_ ?_ ?_
  · unfold children
    split
    · contradiction
    · contradiction
    · exact fun h => by cases h
  · exact (Json.expectWord_local (ascii "null") (.of_last rfl (by decide)) f).behind (p := .outer)
      (fun r h => by cases h) rfl
  · -- an array of children needs room
    by_cases hroom : room = 0
    · refine Local.of_fails fun s r => ?_
      simp [children, Json.nextKind_bracket, hroom]
    · simp only [children, Json.nextKind_bracket, if_neg hroom]
      exact (Json.items_local hitem f).loosen
  · exact Local.of_fails fun s r h => by cases h

/-- The reader of a field. One case per name. -/
theorem field_local (room : Nat) (f : Fields) (key : Bytes) :
    Local True .outer (field node room f key) := by
  have hskip := Json.skip_local room f
  -- nothing can be passed over at the end of the text
  have hskipNil : ∀ r, (Json.skip room []).map (f, ·) ≠ .ok r := by
    rw [Json.skip_of_invalid rfl]
    exact fun r h => by cases h
  unfold field
  split
  · exact (Json.string_local.map fun t => { f with type := t }).loosen
  split
  · refine Local.ite_kind (Json.string_local.map fun t => { f with value := t }).loosen hskip
      (fun s => by simp) fun r => ⟨fun h => (by cases h), hskipNil r⟩
  split
  · refine Local.ite_kind (Json.bool_local.map fun b => { f with isDefault := b }).loosen hskip
      (fun s => by simp) fun r => ⟨fun h => (by cases h), hskipNil r⟩
  split
  · exact (Json.string_local.map fun t => { f with tag := t }).loosen
  split
  · exact (properties_local room).map fun props => { f with props := props }
  split
  · exact children_local hnode room f
  · exact hskip

end

/-- A node ends with the brace that closes it. -/
theorem nodeWith_local {child : Bytes → Read Node} (hchild : Local True .outer child) (room : Nat) :
    Local False .outer (node.nodeWith child room) := by
  let finish (f : Fields) (rest : Bytes) : Read Node := f.toNode.map (·, rest)
  -- behind the brace nothing more is read
  have hfinish : ∀ f, Local False .outer (finish f) := by
    intro f
    simp only [finish]
    cases f.toNode with
    | error e => exact Local.of_fails fun s r h => by cases h
    | ok n => exact Local.pure n
  have hread : ∀ s, node.nodeWith child room (octet '{' :: s) =
      (Json.members (field child room) {} s).bind fun r => finish r.1 r.2 := by
    intro s
    have hskip : (Json.skipSpaces (octet '{' :: s)).drop 1 = s := rfl
    rw [node.nodeWith, if_pos (Json.nextKind_brace s), hskip]
    cases Json.members (field child room) {} s <;> rfl
  refine Local.of_nested (fun s => by simp [node.nodeWith]) (fun s _ _ hobject r => ?_) ?_ ?_ ?_
  · simp [node.nodeWith, hobject]
  · exact Local.of_fails fun s r h => by cases h
  · exact Local.of_fails fun s r h => by cases h
  · simp only [hread]
    exact Local.bind (Json.members_local (field_local hchild room) {}) hfinish

/-- By induction on the room for nesting: a child has two levels less. -/
theorem node_local : ∀ room, Local False .outer (node room)
  | 0 => Local.of_fails fun s r h => by cases h
  | 1 => nodeWith_local (Local.of_fails fun s r h => by cases h) 0
  | room + 2 => nodeWith_local (node_local room).loosen (room + 1)

end Decode

/-! ## Documents -/

theorem Document.exists_of_isOk {src : Bytes} (h : (Document.decode src).isOk) :
    ∃ d, Document.decode src = .ok d := by
  cases hd : Document.decode src with
  | error e =>
    rw [hd] at h
    cases h
  | ok d => exact ⟨d, rfl⟩

/-- **A document that is cut short is never taken for a smaller one.** There is a length at which
the document ends: nothing shorter is read, and nothing that follows is looked at. -/
theorem Document.decode_take {src : Bytes} {d : Document} (h : Document.decode src = .ok d) :
    ∃ n ≤ src.length, (∀ m < n, ∃ e, Document.decode (src.take m) = .error e) ∧
      ∀ more, Document.decode (src.take n ++ more) = .ok d := by
  unfold Document.decode at h
  split at h
  · cases h
  · next children rest hread =>
    obtain rfl := Except.ok.inj h
    obtain ⟨used, rfl, hused⟩ := Decode.node_local Json.maxNesting _ _ _ hread
    refine ⟨used.length, by simp, fun m hm => ?_, fun more => ?_⟩
    · -- the cut is inside what was used up
      have htake : (used ++ rest).take m = used.take m := List.take_append_of_le_length hm.le
      have hne : used.take m ≠ used := by
        intro heq
        have hlength := congrArg List.length heq
        rw [List.length_take] at hlength
        omega
      rw [htake, Document.decode]
      cases hcut : Decode.node Json.maxNesting (used.take m) with
      | error e => exact ⟨_, rfl⟩
      | ok r => exact (hused.cut _ (List.take_prefix m used) hne r.1 r.2 hcut).1.elim
    · rw [List.take_left, Document.decode, hused.reads more False.elim]
  · cases h

/-- A number that would be read to the end of the text when it is cut there, and a text behind the
last brace. -/
theorem Document.decode_take_number : ∃ src d,
    src = ascii "\x7b\"type\":\"root\",\"level\":12\x7d,12" ∧ Document.decode src = .ok d ∧
    ∃ n ≤ src.length, (∀ m < n, ∃ e, Document.decode (src.take m) = .error e) ∧
      ∀ more, Document.decode (src.take n ++ more) = .ok d := by
  generalize hsrc : ascii _ = src
  have hok : (Document.decode src).isOk := by
    subst hsrc
    decide +kernel
  obtain ⟨d, hd⟩ := exists_of_isOk hok
  exact ⟨src, d, rfl, hd, decode_take hd⟩

end DocTree
