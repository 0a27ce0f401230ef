import DocTree.Proofs.Module.Outcome
import Mathlib.Data.List.FinRange
import Mathlib.Data.List.Sort
import Mathlib.Logic.Equiv.Fin.Rotate

/-!
# How imports, exports and content may be mixed

The nodes at the top of a document are imports, exports and content, in any order. Where the nodes
of one part stand between those of the others has no influence on the module, nor on what is
reported when there is none: only the order within each part counts (`compile_regrouping`). A change
of order is a bijection between the places of the nodes. Within a part it is increasing, so it lines
up the places of that part, and the part is the same list before and after
(`Regrouping.filter_part`).

What leaving out `export default` changes is told at the end: nothing else does.
-/

namespace DocTree

/-! ## Parts -/

/-- The parts of a document. -/
inductive Part where
  | imports
  | exports
  | content
  deriving DecidableEq

/-- The part that a node at the top belongs to. -/
def Node.part : Node → Part
  | .importing _ => .imports
  | .exporting _ _ => .exports
  | _ => .content

namespace Document

variable (d : Document)

/-- The imports come from their part alone. -/
theorem imports_eq_filterMap :
    d.imports = (d.children.filter (·.part = .imports)).filterMap Node.import? := by
  rw [imports, List.filterMap_filter]
  refine List.filterMap_congr fun n _ => ?_
  cases n <;> rfl

/-- The exports come from their part alone. -/
theorem exports_eq_filterMap :
    d.exports = (d.children.filter (·.part = .exports)).filterMap Node.export? := by
  rw [exports, List.filterMap_filter]
  refine List.filterMap_congr fun n _ => ?_
  cases n <;> rfl

theorem content_eq_filter : d.content = d.children.filter (·.part = .content) := by
  refine List.filter_congr fun n _ => ?_
  cases n <;> rfl

end Document

/-! ## Other orders -/

/-- The nodes `ns'` are the nodes `ns` in another order that keeps the order within each part. -/
structure Regrouping (ns ns' : List Node) where
  /-- Where each node goes. -/
  place : Fin ns.length ≃ Fin ns'.length
  get_place : ∀ i, ns'.get (place i) = ns.get i
  place_lt : ∀ i j, i < j → (ns.get i).part = (ns.get j).part → place i < place j

/-- The places of the nodes of a part, in increasing order. -/
def placesOf (ns : List Node) (p : Part) : List (Fin ns.length) :=
  (List.finRange ns.length).filter fun i => (ns.get i).part = p

theorem mem_placesOf {ns : List Node} {p : Part} {i : Fin ns.length} :
    i ∈ placesOf ns p ↔ (ns.get i).part = p := by
  simp [placesOf]

theorem pairwise_placesOf (ns : List Node) (p : Part) : (placesOf ns p).Pairwise (· < ·) :=
  (List.pairwise_lt_finRange ns.length).filter _

/-- The nodes at the places of a part are the part. -/
theorem map_get_placesOf (ns : List Node) (p : Part) :
    (placesOf ns p).map ns.get = ns.filter (·.part = p) := by
  conv_rhs => rw [← List.map_get_finRange ns, List.filter_map]
  rfl

namespace Regrouping

variable {ns ns' : List Node}

/-- The places of a part are lined up with the places it goes to. -/
theorem map_place_placesOf (r : Regrouping ns ns') (p : Part) :
    (placesOf ns p).map r.place = placesOf ns' p := by
  apply List.Subset.antisymm_of_pairwise (r := (· < ·))
  · -- within the part the order is kept
    rw [List.pairwise_map]
    refine (pairwise_placesOf ns p).imp_of_mem fun hi hj hlt => ?_
    exact r.place_lt _ _ hlt ((mem_placesOf.1 hi).trans (mem_placesOf.1 hj).symm)
  · exact pairwise_placesOf ns' p
  · intro j hj
    obtain ⟨i, hi, rfl⟩ := List.mem_map.1 hj
    rw [mem_placesOf, r.get_place]
    exact mem_placesOf.1 hi
  · intro j hj
    -- every place is one that a node goes to
    obtain ⟨i, rfl⟩ := r.place.surjective j
    rw [mem_placesOf, r.get_place] at hj
    exact List.mem_map_of_mem (mem_placesOf.2 hj)

/-- Each part is the same list of nodes before and after. -/
theorem filter_part (r : Regrouping ns ns') (p : Part) :
    ns.filter (·.part = p) = ns'.filter (·.part = p) := by
  have hget : ns'.get ∘ r.place = ns.get := funext r.get_place
  rw [← map_get_placesOf, ← map_get_placesOf, ← r.map_place_placesOf, List.map_map, hget]

end Regrouping

namespace Document

/-! ## The default export of the module -/

/-- What stands in front of the component: imports, exports, and the names that the exports bind. -/
def preamble (d : Document) : Bytes :=
  Bytes.join (ascii "\n") d.imports ++ ascii "\n" ++
    Bytes.join (ascii "\n") (d.exports.map (·.1)) ++ ascii "\n" ++
    ascii "const layoutProps = \x7b\n  " ++ Bytes.join (ascii ",\n") d.boundNames ++
    ascii "\n\x7d;\n"

/-- The words `export default` stand between the preamble and the component. -/
theorem exists_moduleText_eq (o : CompileOptions) (d : Document) (body : List Markup) :
    ∃ component, ∀ skip, d.moduleText { o with skipExport := skip } body =
      d.preamble ++ (if skip then [] else ascii "export default") ++ component := by
  refine ⟨?component, fun skip => ?split⟩
  case split =>
    simp only [moduleText, preamble, List.append_assoc]
    rfl

/-- **Only the order within each part counts.** Documents with the same nodes in another order that
keeps the order of the imports, of the exports and of the content compile to the same module or to
the same error. With and without `export default` a module is the same text around these words. -/
theorem compile_regrouping :
    (∀ d d' : Document, Regrouping d.children d'.children → ∀ o, d.compile o = d'.compile o) ∧
    ∀ (o : CompileOptions) (d : Document) (text : Bytes), d.compile o = .ok text →
      ∃ u v, d.compile { o with skipExport := false } = .ok (u ++ ascii "export default" ++ v) ∧
        d.compile { o with skipExport := true } = .ok (u ++ v) := by
  constructor
  · intro d d' r o
    apply compile_congr
    · rw [imports_eq_filterMap, r.filter_part, ← imports_eq_filterMap]
    · rw [exports_eq_filterMap, r.filter_part, ← exports_eq_filterMap]
    · rw [content_eq_filter, r.filter_part, ← content_eq_filter]
  · intro o d text h
    obtain ⟨hsupported, body, hbody, -⟩ := compile_eq_ok_iff.1 h
    obtain ⟨component, hcomponent⟩ := exists_moduleText_eq o d body
    -- the body does not depend on the option
    have hcompile : ∀ skip, d.compile { o with skipExport := skip } =
        .ok (d.preamble ++ (if skip then [] else ascii "export default") ++ component) :=
      fun skip => compile_eq_ok_iff.2 ⟨hsupported, body, hbody, (hcomponent skip).symm⟩
    refine ⟨d.preamble, component, hcompile false, ?_⟩
    rw [hcompile true, if_pos rfl, List.append_nil]

/-- A document whose content stands in front of its import and its export. -/
def contentFirst : Document :=
  ⟨[.text (ascii "x"), .importing (ascii "import a from 'a'"),
    .exporting (ascii "export const b = a") false]⟩

/-- The same nodes with the content at the end. -/
def contentLast : Document :=
  ⟨[.importing (ascii "import a from 'a'"), .exporting (ascii "export const b = a") false,
    .text (ascii "x")]⟩

/-- The content goes to the end, past the import and the export. -/
theorem compile_regrouping_contentLast :
    (contentFirst.compile {} = contentLast.compile {}) ∧
      ∃ u v, contentFirst.compile { skipExport := false } = .ok (u ++ ascii "export default" ++ v) ∧
        contentFirst.compile { skipExport := true } = .ok (u ++ v) := by
  have hregrouping : Regrouping contentFirst.children contentLast.children :=
    { place := (finRotate 3).symm
      get_place := fun
        | ⟨0, _⟩ => rfl
        | ⟨1, _⟩ => rfl
        | ⟨2, _⟩ => rfl
      place_lt := by decide }
  obtain ⟨text, htext⟩ : ∃ text, contentFirst.compile {} = .ok text := ⟨_, rfl⟩
  exact ⟨compile_regrouping.1 _ _ hregrouping {}, compile_regrouping.2 {} contentFirst text htext⟩

end Document

end DocTree
