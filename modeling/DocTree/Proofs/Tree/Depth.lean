import DocTree.Proofs.Json.ReadBack
import DocTree.Proofs.Module.Outcome
import DocTree.Proofs.Tree.Decode

/-!
# How deep a decoded document is

Two limits are about depth. The reader of JSON counts the arrays and objects that are open at once,
and a module counts the elements around a node. Each element around a node has two of the former
open, its own object and the array of its children, and so has each root, which counts for nothing
in a module. So the reader gives out first (`occurs_le_of_decode`), and the limit of a module is
never met unless it is set low (`compile_ne_tooDeep`). The bound is met by elements one inside the
other (`compile_ne_tooDeep_tower`).
-/

namespace DocTree

open Json (Read Local lasting_true)

namespace Decode

/-! ## The reader of nodes -/

/-- Each element around a node takes two of the arrays and objects that may be open, and the node
itself one. -/
def FitsIn (room : Nat) (n : Node) : Prop := ∀ x k, Node.Occurs x k n → 2 * k + 1 ≤ room

/-- A node fits in if its children do with two levels less. -/
theorem Fields.toNode_fitsIn {f : Fields} {n : Node} (h : f.toNode = .ok n) {room : Nat}
    (hroom : 1 ≤ room) (hchildren : ∀ c ∈ f.children, ∀ x k, Node.Occurs x k c → 2 * k + 3 ≤ room) :
    FitsIn room n := by
  intro x k hocc
  have hmem : ∀ {c k}, c ∈ f.children.reverse → Node.Occurs x k c → 2 * k + 3 ≤ room :=
    fun hc hocc => hchildren _ (List.mem_reverse.1 hc) x _ hocc
  rcases toNode_eq_ok h with rfl | rfl | hleaf
  · -- a root takes room but does not count
    cases hocc with
    | here => omega
    | inRoot hc hocc =>
      have := hmem hc hocc
      omega
  · -- an element is one more around its children
    cases hocc with
    | here => omega
    | inElement hc hocc => exact hmem hc hocc
  · -- a leaf
    cases hocc with
    | here => omega
    | inRoot | inElement => exact hleaf.elim

/-- A node that is read is made of fields whose children were read as such. -/
theorem nodeWith_forall {R : Node → Prop} {child : Bytes → Read Node}
    (hlocal : Local True .outer child) (hchild : Reads (fun _ => True) R child) {room : Nat}
    {s rest : Bytes} {n : Node} (hread : node.nodeWith child room s = .ok (n, rest)) :
    ∃ f : Fields, (∀ c ∈ f.children, R c) ∧ f.toNode = .ok n := by
  have hprops : PropertiesSatisfy (fun _ => True) fun _ => True := fun _ _ _ _ _ _ _ => trivial
  obtain ⟨f, hf, hn⟩ := nodeWith_meets lasting_true hprops trivial hlocal hchild trivial hread
  exact ⟨f, hf.children, hn⟩

/-- By induction on the room for nesting: a child has two levels less. -/
theorem node_fitsIn : ∀ room, Reads (fun _ => True) (FitsIn room) (node room)
  | 0 => Reads.of_fails fun s r h => by cases h
  | 1 => fun s n rest _ h => by
    -- with room for the node alone, no child is read
    obtain ⟨f, hf, hn⟩ := nodeWith_forall (R := fun _ => False)
      (Local.of_fails fun s r h => by cases h) (Reads.of_fails fun s r h => by cases h) h
    exact f.toNode_fitsIn hn Nat.le.refl fun c hc => (hf c hc).elim
  | room + 2 => fun s n rest _ h => by
    obtain ⟨f, hf, hn⟩ := nodeWith_forall (node_local room).loosen (node_fitsIn room) h
    refine f.toNode_fitsIn hn (by omega) fun c hc x k hocc => ?_
    have := hf c hc x k hocc
    omega

end Decode

/-! ## Documents -/

namespace Document

/-- A node of a decoded document has at most 4998 elements around it: the root has two arrays and
objects open around its children, and leaves room for 9998. -/
theorem occurs_le_of_decode {src : Bytes} {d : Document} (h : decode src = .ok d) {n : Node}
    (hn : n ∈ d.children) {x : Node} {k : Nat} (hocc : Node.Occurs x k n) : k ≤ 4998 := by
  unfold decode at h
  split at h
  · cases h
  · next children rest hread =>
    obtain rfl := Except.ok.inj h
    rw [show Json.maxNesting = 9998 + 2 from rfl, Decode.node] at hread
    obtain ⟨f, hf, hroot⟩ :=
      Decode.nodeWith_forall (Decode.node_local 9998).loosen (Decode.node_fitsIn 9998) hread
    -- the node that was read is the root
    have hmem : n ∈ f.children := by
      rcases Decode.Fields.toNode_eq_ok hroot with heq | heq | hleaf
      · obtain rfl := Node.root.inj heq
        exact List.mem_reverse.1 hn
      · cases heq
      · exact hleaf.elim
    have := hf n hmem x k hocc
    omega
  · cases h

/-- **The limit of a module is not what stops a decoded document**, when it is the default or at
least 4999: every node has at most 4998 elements around it, so its level is at most 4999. -/
theorem compile_ne_tooDeep {src : Bytes} {d : Document} (h : decode src = .ok d)
    {o : CompileOptions} (ho : o.maxDepth ≤ 0 ∨ 4999 ≤ o.maxDepth) :
    (∀ limit, d.compile o ≠ .error (.tooDeep limit)) ∧
      ∀ n ∈ d.children, ∀ x k, Node.Occurs x k n → k ≤ 4998 := by
  refine ⟨fun limit hdeep => ?_, fun n hn x k hocc => occurs_le_of_decode h hn hocc⟩
  obtain ⟨-, hlimit, n, hn, -, k, x, hocc, hbelow⟩ := compile_eq_tooDeep_iff.1 hdeep
  have hk : k ≤ 4998 := occurs_le_of_decode h hn hocc
  -- the limit in force is the default or at least 4999
  have hhigh : 4999 ≤ limit := by
    rw [hlimit, depthLimit_eq]
    split <;> omega
  omega

end Document

/-! ## Elements one inside the other -/

/-- So many elements one inside the other, around an empty text. -/
def tower : Nat → Node
  | 0 => .text []
  | n + 1 => .element [] [] [tower n]

/-- A node object of a type, with one child. -/
def parentText (type child : Bytes) : Bytes :=
  Json.objectOf [(ascii "type", Json.quoted type), (ascii "children", Json.arrayOf [child])]

/-- The text of a tower. -/
def towerText : Nat → Bytes
  | 0 => Json.objectOf [(ascii "type", Json.quoted (ascii "text"))]
  | n + 1 => parentText (ascii "element") (towerText n)

theorem occurs_tower : ∀ n, Node.Occurs (.text []) n (tower n)
  | 0 => .here
  | n + 1 => .inElement (List.mem_singleton_self _) (occurs_tower n)

namespace Decode

variable {child : Bytes → Read Node} {room : Nat}

theorem field_type (f : Fields) (type rest : Bytes) :
    field child room f (ascii "type") (Json.quoted type ++ rest) =
      .ok ({ f with type := type }, rest) := by
  simp [field, Json.string_quoted, Except.map]

/-- An array of one object. -/
theorem items_brace {σ : Type} {item : σ → Bytes → Read σ} {acc acc' : σ} {t rest : Bytes}
    (h : item acc (octet '{' :: t ++ octet ']' :: rest) = .ok (acc', octet ']' :: rest)) :
    Json.items item acc (octet '{' :: t ++ octet ']' :: rest) = .ok (acc', rest) := by
  rw [List.cons_append] at h ⊢
  rw [Json.items, Json.skipSpaces_cons rfl]
  simp only
  rw [if_neg (by decide), Json.itemsFrom.eq_def]
  simp only [h]
  rfl

/-- An array of one child is read as that child. -/
theorem field_children {t : Bytes} {n : Node}
    (hchild : ∀ rest, child (octet '{' :: t ++ rest) = .ok (n, rest)) (f : Fields) (rest : Bytes) :
    field child (room + 1) f (ascii "children") (Json.arrayOf [octet '{' :: t] ++ rest) =
      .ok ({ f with children := n :: f.children }, rest) := by
  have hfield : ∀ s, field child (room + 1) f (ascii "children") s =
      children child (room + 1) f s :=
    fun _ => rfl
  rw [hfield, children, Json.arrayOf_append, Json.nextKind_bracket, Bytes.join_singleton]
  simp only [Json.skipSpaces_cons (b := octet '[') rfl, List.drop_one, List.tail_cons]
  rw [if_neg (Nat.succ_ne_zero room)]
  apply items_brace
  rw [hchild]
  rfl

/-- An object with a type and one child is read as the node that they make. -/
theorem nodeWith_parentText {t : Bytes} {n m : Node}
    (hchild : ∀ rest, child (octet '{' :: t ++ rest) = .ok (n, rest)) {type : Bytes}
    (hnode : Fields.toNode { type := type, children := [n] } = .ok m) (rest : Bytes) :
    node.nodeWith child (room + 1) (parentText type (octet '{' :: t) ++ rest) = .ok (m, rest) := by
  -- the text of the members, from the first key on
  obtain ⟨s, hs⟩ : ∃ s, Json.quoted (ascii "type") ++ octet ':' :: (Json.quoted type ++ octet ',' ::
      (Json.quoted (ascii "children") ++ octet ':' ::
        (Json.arrayOf [octet '{' :: t] ++ octet '}' :: rest))) = octet '"' :: s := ⟨_, rfl⟩
  have hmembers : ∀ round,
      Json.membersFrom (field child (room + 1)) (round :: s) {} (octet '"' :: s) =
        .ok ({ type := type, children := [n] }, rest) := by
    intro round
    rw [← hs, Json.membersFrom_comma (field_type _ _ _),
      Json.membersFrom_close (field_children hchild _ _)]
  have htext : parentText type (octet '{' :: t) ++ rest = octet '{' :: octet '"' :: s := by
    rw [← hs]
    simp [parentText, Json.objectOf, Bytes.join_cons_cons, ascii]
  rw [htext, node.nodeWith, if_pos (Json.nextKind_brace _), Json.skipSpaces_cons rfl]
  simp only [List.drop_one, List.tail_cons, Json.members, Json.skipSpaces_cons (b := octet '"') rfl]
  rw [if_neg (by decide), if_pos (by decide), hmembers]
  simp [hnode, Except.map]

/-- A tower is read back when there is room for it. By induction on its height. -/
theorem node_towerText (n : Nat) {room : Nat} (hroom : 2 * n + 1 ≤ room) (rest : Bytes) :
    node room (towerText n ++ rest) = .ok (tower n, rest) := by
  induction n generalizing room rest with
  | zero =>
    match room, hroom with
    | 1, _ => rfl
    | room + 2, _ => rfl
  | succ n ih =>
    match room, hroom with
    | room + 2, hroom =>
      -- every tower is written as an object
      obtain ⟨t, ht⟩ : ∃ t, towerText n = octet '{' :: t := by
        cases n <;> exact ⟨_, rfl⟩
      rw [towerText, ht]
      refine nodeWith_parentText (fun rest => ?_) rfl rest
      rw [← ht]
      exact ih (by omega) rest

end Decode

/-- The text of a document with a tower in it. -/
def towerDocument (n : Nat) : Bytes := parentText (ascii "root") (towerText n)

/-- A document with a tower is decoded as long as there is room for it. -/
theorem decode_towerDocument {n : Nat} (h : n ≤ 4998) :
    Document.decode (towerDocument n) = .ok ⟨[tower n]⟩ := by
  have hroom : 2 * n + 1 ≤ 9998 := by omega
  have hread : Decode.node (9998 + 2) (towerDocument n ++ []) = .ok (.root [tower n], []) := by
    obtain ⟨t, ht⟩ : ∃ t, towerText n = octet '{' :: t := by
      cases n <;> exact ⟨_, rfl⟩
    rw [towerDocument, ht]
    refine Decode.nodeWith_parentText (fun rest => ?_) rfl []
    rw [← ht]
    exact Decode.node_towerText n hroom rest
  rw [List.append_nil] at hread
  rw [Document.decode, show Json.maxNesting = 9998 + 2 from rfl, hread]

theorem supported_tower (n : Nat) : Document.Supported ⟨[tower n]⟩ := by
  intro source isDefault h
  have heq := List.mem_singleton.1 h
  cases n <;> cases heq

theorem reachesBelow_tower (n : Nat) : Document.ReachesBelow n ⟨[tower n]⟩ := by
  have hcontent : (tower n).isContent = true := by cases n <;> rfl
  exact ⟨tower n, List.mem_singleton_self _, hcontent, n, .text [], occurs_tower n, by omega⟩

/-- A tower of 4998 elements is decoded. Its innermost text is at level 4999, and a lower limit
stops it. -/
theorem Document.compile_ne_tooDeep_tower :
    decode (towerDocument 4998) = .ok ⟨[tower 4998]⟩ ∧
      (∀ limit, compile { maxDepth := 4999 } ⟨[tower 4998]⟩ ≠ .error (.tooDeep limit)) ∧
      (∀ limit, compile {} ⟨[tower 4998]⟩ ≠ .error (.tooDeep limit)) ∧
      compile { maxDepth := 4998 } ⟨[tower 4998]⟩ = .error (.tooDeep 4998) := by
  have hdecode : decode (towerDocument 4998) = .ok ⟨[tower 4998]⟩ :=
    decode_towerDocument (Nat.le_refl _)
  refine ⟨hdecode, (compile_ne_tooDeep hdecode (Or.inr (by decide))).1,
    (compile_ne_tooDeep hdecode (Or.inl (by decide))).1, ?_⟩
  exact compile_eq_tooDeep_iff.2 ⟨supported_tower 4998, rfl, reachesBelow_tower 4998⟩

end DocTree
