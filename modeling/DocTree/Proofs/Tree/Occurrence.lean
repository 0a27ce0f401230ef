import DocTree.Tree.Basic

/-!
# Nodes inside nodes

`Occurs x k n` says that the node `x` stands in the node `n`, inside `k` of the elements of `n`.
Roots below the top do not count: they stand for their children.

What holds of all property lists of a tree is `EveryProps`; its equations follow the constructors.
-/

namespace DocTree.Node

/-! ## Induction -/

/-- A node that has no children by its kind. -/
def IsLeaf : Node → Prop
  | .root _ => False
  | .element _ _ _ => False
  | _ => True

/-- Induction over a node, with the hypothesis for each child. -/
@[elab_as_elim]
theorem inductionOn {motive : Node → Prop}
    (root : ∀ children, (∀ c ∈ children, motive c) → motive (.root children))
    (element : ∀ tag props children, (∀ c ∈ children, motive c) →
      motive (.element tag props children))
    (leaf : ∀ n : Node, n.IsLeaf → motive n) : ∀ n, motive n
  | .root children => root children fun c _ => inductionOn root element leaf c
  | .element tag props children =>
    element tag props children fun c _ => inductionOn root element leaf c
  | .importing source => leaf (.importing source) trivial
  | .exporting source isDefault => leaf (.exporting source isDefault) trivial
  | .text value => leaf (.text value) trivial
  | .comment value => leaf (.comment value) trivial
  | .jsx source => leaf (.jsx source) trivial
  | .unknown type => leaf (.unknown type) trivial

/-! ## Occurrence -/

/-- `x` stands in a node, inside `k` of its elements. -/
inductive Occurs (x : Node) : Nat → Node → Prop where
  /-- A node stands in itself. -/
  | here : Occurs x 0 x
  /-- A root adds nothing to what is around its children. -/
  | inRoot {k : Nat} {c : Node} {children : List Node} :
      c ∈ children → Occurs x k c → Occurs x k (.root children)
  /-- An element is one more around its children. -/
  | inElement {k : Nat} {c : Node} {tag : Bytes} {props : Properties} {children : List Node} :
      c ∈ children → Occurs x k c → Occurs x (k + 1) (.element tag props children)

/-! ## Property lists -/

/-- Every property list in the node satisfies `P`. -/
def EveryProps (P : Properties → Prop) (n : Node) : Prop :=
  ∀ k tag props children, Occurs (.element tag props children) k n → P props

variable {P : Properties → Prop}

/-- The property lists of a root are those of its children. -/
@[simp] theorem everyProps_root {children : List Node} :
    EveryProps P (.root children) ↔ ∀ c ∈ children, EveryProps P c := by
  constructor
  · intro h c hc k tag props cs hocc
    exact h k tag props cs (.inRoot hc hocc)
  · intro h k tag props cs hocc
    cases hocc with
    | inRoot hc hocc => exact h _ hc k tag props cs hocc

/-- Those of an element are its own and those of its children. -/
@[simp] theorem everyProps_element {tag : Bytes} {props : Properties} {children : List Node} :
    EveryProps P (.element tag props children) ↔ P props ∧ ∀ c ∈ children, EveryProps P c := by
  constructor
  · intro h
    refine ⟨h 0 tag props children .here, fun c hc k tag' props' cs hocc => ?_⟩
    exact h (k + 1) tag' props' cs (.inElement hc hocc)
  · rintro ⟨hprops, h⟩ k tag' props' cs hocc
    cases hocc with
    | here => exact hprops
    | inElement hc hocc => exact h _ hc _ tag' props' cs hocc

theorem everyProps_of_leaf {n : Node} (h : n.IsLeaf) : EveryProps P n := by
  intro k tag props children hocc
  cases hocc with
  | here => exact h.elim
  | inRoot => exact h.elim
  | inElement => exact h.elim

end DocTree.Node
