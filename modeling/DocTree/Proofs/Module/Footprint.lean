import DocTree.Proofs.Module.Session
import DocTree.Tree.Basic

/-!
# What compiling leaves behind

Compiling a document brings its elements into normal form on the way down and ends at the first node
below the limit. An element has been met by then exactly when its place comes before the places of
all nodes below the limit (`Document.IsMet`), and the elements that have been met are all that has
changed (`Document.afterCompile_footprint`).

Places are compared as lists of numbers: a place comes before the places inside it and before those
behind it, which is the order in which a document is written down.
-/

namespace DocTree

namespace Node

/-! ## Places and levels -/

/-- The level of the children of a node. -/
def inside (level : Nat) : Node → Nat
  | .element _ _ _ => level + 1
  | _ => level

/-- The level of the node at a place, when the outermost node is at `level`. -/
def level? (level : Nat) : List Nat → Node → Option Nat
  | [], _ => some level
  | i :: place, n => (n.children[i]?).bind (level? (n.inside level) place)

/-- The place comes before all nodes below the limit. -/
def IsMet (limit level : Nat) (place : List Nat) (n : Node) : Prop :=
  ∀ q k, n.level? level q = some k → limit < k → place < q

variable {limit level : Nat}

/-- Induction over a node, with the hypothesis for each child, whatever its kind. -/
@[elab_as_elim]
theorem childrenInductionOn {motive : Node → Prop} (n : Node)
    (step : ∀ n : Node, (∀ c ∈ n.children, motive c) → motive n) : motive n := by
  induction n using inductionOn with
  | root children ih => exact step (.root children) ih
  | element tag props children ih => exact step (.element tag props children) ih
  | leaf n h =>
    refine step n fun c hc => ?_
    cases n with
    | root | element => exact h.elim
    | _ => cases hc

/-- Above the limit, a node reaches below it through a child. -/
theorem reachesBelow_iff_children {n : Node} (h : ¬ limit < level) :
    ReachesBelow limit level n ↔ ∃ c ∈ n.children, ReachesBelow limit (n.inside level) c := by
  cases n with
  | root children => exact reachesBelow_root h
  | element tag props children => exact reachesBelow_element h
  | _ =>
    -- a node of another kind has no children
    refine iff_of_false (fun hbelow => h ((reachesBelow_of_leaf ?_).1 hbelow)) ?_
    · trivial
    · rintro ⟨c, hc, -⟩
      cases hc

/-- A node reaches below the limit if one of its places is there. By induction on the node. -/
theorem reachesBelow_iff_level? {n : Node} :
    ReachesBelow limit level n ↔ ∃ q k, n.level? level q = some k ∧ limit < k := by
  induction n using childrenInductionOn generalizing level with
  | step n ih =>
    by_cases hlevel : limit < level
    · exact iff_of_true (reachesBelow_self hlevel) ⟨[], level, rfl, hlevel⟩
    · rw [reachesBelow_iff_children hlevel]
      constructor
      · rintro ⟨c, hc, hbelow⟩
        obtain ⟨q, k, hk, hlt⟩ := (ih c hc).1 hbelow
        -- the place is that of the child and the place in it
        obtain ⟨i, hi⟩ := List.mem_iff_getElem?.1 hc
        exact ⟨i :: q, k, by rw [level?, hi, Option.bind_some, hk], hlt⟩
      · rintro ⟨q, k, hk, hlt⟩
        cases q with
        | nil => exact absurd (Option.some.inj hk ▸ hlt) hlevel
        | cons i q =>
          obtain ⟨c, hi, hk⟩ := Option.bind_eq_some_iff.1 hk
          exact ⟨c, List.mem_of_getElem? hi, (ih c (List.mem_of_getElem? hi)).2 ⟨q, k, hk, hlt⟩⟩

/-- Nothing in a node below the limit is met. -/
theorem not_isMet_of_lt {n : Node} {place : List Nat} (h : limit < level) :
    ¬ n.IsMet limit level place :=
  fun hmet => List.not_lt_nil place (hmet [] level rfl h)

/-- A node is met unless it stands below the limit itself. -/
theorem isMet_nil {n : Node} : n.IsMet limit level [] ↔ ¬ limit < level := by
  constructor
  · intro h hlevel
    exact not_isMet_of_lt hlevel h
  · intro hlevel q k hk hlt
    cases q with
    | nil => exact absurd (Option.some.inj hk ▸ hlt) hlevel
    | cons i q => exact List.nil_lt_cons i q

/-- The nodes in front of a place are those at smaller numbers. -/
theorem mem_take_iff {ns : List Node} {m : Node} {i : Nat} :
    m ∈ ns.take i ↔ ∃ j < i, ns[j]? = some m := by
  simp only [List.mem_iff_getElem?, List.getElem?_take, Option.ite_none_right_eq_some]

/-- A place in a child is met when the node is, no child before it reaches below the limit, and it
is met in the child. -/
theorem isMet_cons {n c : Node} {i : Nat} {place : List Nat} (hi : n.children[i]? = some c) :
    n.IsMet limit level (i :: place) ↔
      ¬ limit < level ∧ (∀ m ∈ n.children.take i, ¬ ReachesBelow limit (n.inside level) m) ∧
        c.IsMet limit (n.inside level) place := by
  constructor
  · intro h
    refine ⟨fun hlevel => not_isMet_of_lt hlevel h, fun m hm hbelow => ?_, fun q k hk hlt => ?_⟩
    · -- a node below the limit in a child before it would come first
      obtain ⟨q, k, hk, hlt⟩ := reachesBelow_iff_level?.1 hbelow
      obtain ⟨j, hji, hj⟩ := mem_take_iff.1 hm
      have hbefore :=
        List.cons_lt_cons_iff.1 (h (j :: q) k (by rw [level?, hj, Option.bind_some, hk]) hlt)
      omega
    · have hbefore :=
        List.cons_lt_cons_iff.1 (h (i :: q) k (by rw [level?, hi, Option.bind_some, hk]) hlt)
      simpa using hbefore
  · rintro ⟨hlevel, hearlier, hplace⟩ q k hk hlt
    cases q with
    | nil => exact absurd (Option.some.inj hk ▸ hlt) hlevel
    | cons j q =>
      obtain ⟨m, hj, hk⟩ := Option.bind_eq_some_iff.1 hk
      rw [List.cons_lt_cons_iff]
      -- the node below the limit stands behind the child, in it, or before it
      rcases Nat.lt_trichotomy i j with hij | rfl | hji
      · exact Or.inl hij
      · obtain rfl := Option.some.inj (hi.symm.trans hj)
        exact Or.inr ⟨rfl, hplace q k hk hlt⟩
      · exact absurd (reachesBelow_iff_level?.2 ⟨q, k, hk, hlt⟩)
          (hearlier m (mem_take_iff.2 ⟨j, hji, hj⟩))

/-! ## The walk, place by place -/

theorem visit_of_lt {n : Node} (h : limit < level) : (visit limit level n).1 = n := by
  cases n <;> simp [visit, h]

/-- Above it, the walk goes on to the children. -/
theorem children_visit {n : Node} (h : ¬ limit < level) :
    (visit limit level n).1.children = (visitAll limit (n.inside level) n.children).1 := by
  cases n with
  | root children | element tag props children =>
    rw [visit, if_neg h]
    rfl
  | _ => rfl

/-- A walk comes through a node above the limit if it comes through the children. -/
theorem through_visit_iff_children {n : Node} : (visit limit level n).2 = true ↔
    ¬ limit < level ∧ (visitAll limit (n.inside level) n.children).2 = true := by
  cases n with
  | root children | element tag props children =>
    rw [visit]
    split <;> simp_all [Node.children, inside]
  | _ => simp [visit, visitAll, Node.children]

/-- A walk comes through nodes side by side if it comes through each of them. -/
theorem through_visitAll {ns : List Node} :
    (visitAll limit level ns).2 = ns.all fun n => (visit limit level n).2 := by
  induction ns with
  | nil => rfl
  | cons n ns ih =>
    rw [visitAll]
    split
    · next n' hvisit => simp [hvisit]
    · next n' hvisit => simp [hvisit, ih]

/-- A walk comes through a node without nodes below the limit. -/
theorem through_visit {n : Node} :
    (visit limit level n).2 = true ↔ ¬ ReachesBelow limit level n := by
  induction n using childrenInductionOn generalizing level with
  | step n ih =>
    rw [through_visit_iff_children, through_visitAll, List.all_eq_true]
    by_cases hlevel : limit < level
    · simp [hlevel, reachesBelow_self]
    · rw [reachesBelow_iff_children hlevel]
      push Not
      exact ⟨fun h c hc => (ih c hc).1 (h.2 c hc),
        fun h => ⟨by omega, fun c hc => (ih c hc).2 (h c hc)⟩⟩

/-- It does so exactly if none of them reaches below the limit. -/
theorem through_visitAll_iff {ns : List Node} :
    (visitAll limit level ns).2 = true ↔ ∀ n ∈ ns, ¬ ReachesBelow limit level n := by
  simp only [through_visitAll, List.all_eq_true, through_visit]

/-- An element that has been met has its properties in normal form, and any other one as they
were. -/
theorem at?_visit {n : Node} {place : List Nat} {tag : Bytes} {props : Properties}
    {children : List Node} (hat : n.at? place = some (.element tag props children)) :
    ∃ props' children', (visit limit level n).1.at? place = some (.element tag props' children') ∧
      (n.IsMet limit level place → props' = props.normalize) ∧
      (¬ n.IsMet limit level place → props' = props) := by
  induction place generalizing n level with
  | nil =>
    obtain rfl := Option.some.inj hat
    -- the element itself is met unless it is below the limit
    by_cases hlevel : limit < level
    · refine ⟨props, children, ?_, fun hmet => absurd hmet (not_isMet_of_lt hlevel), fun _ => rfl⟩
      rw [visit_of_lt hlevel, at?]
    · refine ⟨props.normalize, (visitAll limit (level + 1) children).1, ?_, fun _ => rfl,
        fun hmet => ?_⟩
      · rw [visit, if_neg hlevel, at?]
      · exact absurd (isMet_nil.2 hlevel) hmet
  | cons i place ih =>
    obtain ⟨c, hi, hc⟩ := Option.bind_eq_some_iff.1 hat
    rw [isMet_cons hi]
    by_cases hlevel : limit < level
    · -- the walk ends at a node around the element
      refine ⟨props, children, ?_, fun hmet => absurd hlevel hmet.1, fun _ => rfl⟩
      rw [visit_of_lt hlevel, hat]
    · rw [at?, children_visit hlevel, getElem?_visitAll, hi, Option.map_some, Option.bind_some]
      by_cases hearlier : ∀ m ∈ n.children.take i, ¬ ReachesBelow limit (n.inside level) m
      · -- the walk comes to the child, where the induction goes on
        obtain ⟨props', children', hvisit, hmet, hunmet⟩ := ih hc
        refine ⟨props', children', ?_, fun h => hmet h.2.2, fun h => hunmet fun hplace => ?_⟩
        · rw [if_pos (through_visitAll_iff.2 hearlier), hvisit]
        · exact h ⟨hlevel, hearlier, hplace⟩
      · -- the walk ends in a child before the one that leads to the element
        refine ⟨props, children, ?_, fun h => absurd h.2.1 hearlier, fun _ => rfl⟩
        rw [if_neg (mt through_visitAll_iff.1 hearlier), hc]

/-! ## What stays -/

mutual

/-- The node with no properties anywhere. -/
def bare : Node → Node
  | .root children => .root (bareAll children)
  | .element tag _ children => .element tag [] (bareAll children)
  | n => n

/-- The nodes with no properties anywhere. -/
def bareAll : List Node → List Node
  | [] => []
  | n :: ns => bare n :: bareAll ns

end

theorem bareAll_eq_map (ns : List Node) : bareAll ns = ns.map bare := by
  induction ns with
  | nil => rfl
  | cons n ns ih => rw [bareAll, List.map_cons, ih]

/-- A walk changes nothing but properties. -/
theorem bare_visit (n : Node) : (visit limit level n).1.bare = n.bare := by
  induction n using inductionOn generalizing level with
  | root children ih =>
    rw [visit]
    -- below the limit nothing is changed, above it each child by induction
    split
    · rfl
    · simp only [bare, bareAll_eq_map, map_visitAll fun c hc => ih c hc]
  | element tag props children ih =>
    rw [visit]
    split
    · rfl
    · simp only [bare, bareAll_eq_map, map_visitAll fun c hc => ih c hc]
  | leaf n hn => rw [visit_of_leaf hn]

end Node

/-! ## Documents -/

namespace Document

/-- The document with no properties anywhere. -/
def bare (d : Document) : Document := ⟨Node.bareAll d.children⟩

/-- The place comes before all nodes of the document below the limit. -/
def IsMet (limit : Nat) (place : List Nat) (d : Document) : Prop := d.toNode.IsMet limit 1 place

theorem depthLimit_pos (o : CompileOptions) : 0 < o.depthLimit := by
  rw [depthLimit_eq]
  split <;> omega

/-- Without such an export, compiling is a walk over the whole document. -/
theorem toNode_afterCompile {o : CompileOptions} {d : Document} (h : d.defaultReexport? = none) :
    (d.afterCompile o).toNode = (Node.visit o.depthLimit 1 d.toNode).1 := by
  have hlevel : ¬ o.depthLimit < 1 := by
    have := depthLimit_pos o
    omega
  rw [afterCompile, h, toNode, toNode, Node.visit, if_neg hlevel]

/-- Compiling changes nothing but properties. -/
theorem bare_afterCompile (o : CompileOptions) (d : Document) :
    (d.afterCompile o).bare = d.bare := by
  rw [afterCompile]
  split
  · rfl
  · simp only [bare, Node.bareAll_eq_map, Node.map_visitAll fun n _ => Node.bare_visit n]

/-- **What compiling leaves behind.** Whatever its outcome, it changes nothing but the properties of
elements, and nothing at all when it reports an export in a spelling that is not supported.
Otherwise the elements that it has met are in normal form, and the others are as they were. -/
theorem afterCompile_footprint (o : CompileOptions) (d : Document) :
    (d.afterCompile o).bare = d.bare ∧
    (∀ source, d.compile o = .error (.defaultReexport source) → d.afterCompile o = d) ∧
    ((∀ source, d.compile o ≠ .error (.defaultReexport source)) →
      ∀ place tag props children, d.at? place = some (.element tag props children) →
        ∃ props' children', (d.afterCompile o).at? place = some (.element tag props' children') ∧
          (d.IsMet o.depthLimit place → props' = props.normalize) ∧
          (¬ d.IsMet o.depthLimit place → props' = props)) := by
  refine ⟨bare_afterCompile o d, fun source hsource => ?_,
    fun hsource place tag props children hat => ?_⟩
  · rw [afterCompile, compile_eq_defaultReexport_iff.1 hsource]
  · -- there is no such export, so the walk was made
    have hnone : d.defaultReexport? = none :=
      Option.eq_none_iff_forall_ne_some.2 fun source h =>
        hsource source (compile_eq_defaultReexport_iff.2 h)
    rw [at?, toNode_afterCompile hnone]
    exact Node.at?_visit hat

/-- Properties that are not in normal form. -/
def camelProps : Properties := [⟨ascii "ariaLabel", .string (ascii "x")⟩]

/-- An element at the third level, in a root that adds none, and one behind it at the second
level. -/
def threeLevels : Document :=
  ⟨[.importing (ascii "import a"),
    .root [.element (ascii "div") camelProps
      [.element (ascii "p") camelProps [.element (ascii "b") camelProps []],
        .element (ascii "i") camelProps []]]]⟩

/-- With a limit of two, the paragraph has been met; the element in it, at which the walk ends, has
not, and neither has the one behind. -/
theorem afterCompile_footprint_threeLevels :
    (∃ children, (threeLevels.afterCompile { maxDepth := 2 }).at? [1, 0, 0] =
      some (.element (ascii "p") [⟨ascii "aria-label", .string (ascii "x")⟩] children)) ∧
    (∃ children, (threeLevels.afterCompile { maxDepth := 2 }).at? [1, 0, 0, 0] =
      some (.element (ascii "b") camelProps children)) ∧
    ∃ children, (threeLevels.afterCompile { maxDepth := 2 }).at? [1, 0, 1] =
      some (.element (ascii "i") camelProps children) := by
  have hdeep : threeLevels.toNode.level? 1 [1, 0, 0, 0] = some 3 := rfl
  have hmet : threeLevels.IsMet 2 [1, 0, 0] := by
    have himport : ¬ Node.ReachesBelow 2 1 (.importing (ascii "import a")) :=
      mt (Node.reachesBelow_of_leaf (by trivial)).1 (by decide)
    refine (Node.isMet_cons rfl).2 ⟨by decide, List.forall_mem_singleton.2 himport, ?_⟩
    refine (Node.isMet_cons rfl).2 ⟨by decide, by simp, ?_⟩
    exact (Node.isMet_cons rfl).2 ⟨by decide, by simp, Node.isMet_nil.2 (by decide)⟩
  obtain ⟨-, -, hfootprint⟩ := afterCompile_footprint { maxDepth := 2 } threeLevels
  have hplaces := hfootprint fun source hsource => by
    rw [compile_eq_defaultReexport_iff] at hsource
    cases hsource
  obtain ⟨props₁, children₁, hp, hnormal, -⟩ := hplaces [1, 0, 0] _ _ _ rfl
  obtain ⟨props₂, children₂, hb, -, hsame⟩ := hplaces [1, 0, 0, 0] _ _ _ rfl
  obtain ⟨props₃, children₃, hi, -, hsame'⟩ := hplaces [1, 0, 1] _ _ _ rfl
  have hlabel : Properties.normalize camelProps = [⟨ascii "aria-label", .string (ascii "x")⟩] := by
    decide +kernel
  refine ⟨⟨children₁, by rw [hp, hnormal hmet, hlabel]⟩, ⟨children₂, ?_⟩, ⟨children₃, ?_⟩⟩
  · rw [hb, hsame fun h => absurd (h _ 3 hdeep (by decide)) (by decide)]
  · rw [hi, hsame' fun h => absurd (h _ 3 hdeep (by decide)) (by decide)]

end Document

end DocTree
