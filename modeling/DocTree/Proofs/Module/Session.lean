import DocTree.Module
import DocTree.Preview
import DocTree.Proofs.Module.Outcome
import DocTree.Proofs.Tree.Decode
import DocTree.Proofs.Tree.Normalize

/-!
# Many uses of one document

Compiling and rendering both change the document that they are given: the elements they meet are
brought into normal form and stay so, also when the use ends in an error halfway through. This
module shows that no later use can tell.

The invariant of a sequence of uses is that the document, as it stands, still has the normal form it
had at first, and that its property lists have distinct names. A use depends on the normal form
alone (`Call.answer_normalize`), and a use keeps the invariant (`Call.normalize_after`,
`Call.distinct_after`).
-/

namespace DocTree

/-! ## Normal form of trees -/

namespace Node

theorem normalizeAll_eq_map (ns : List Node) : normalizeAll ns = ns.map normalize := by
  induction ns with
  | nil => rfl
  | cons n ns ih => rw [normalizeAll, List.map_cons, ih]

theorem normalize_of_leaf {n : Node} (h : n.IsLeaf) : n.normalize = n := by
  cases n with
  | root | element => exact h.elim
  | _ => rfl

/-- In normal form all property lists have distinct names. By induction on the node. -/
theorem distinct_normalize (n : Node) : n.normalize.EveryProps Properties.Distinct := by
  induction n using inductionOn with
  | root children ih =>
    simpa [normalize, normalizeAll_eq_map] using ih
  | element tag props children ih =>
    simpa [normalize, normalizeAll_eq_map, Properties.distinct_normalize] using ih
  | leaf n h =>
    rw [normalize_of_leaf h]
    exact everyProps_of_leaf h

/-- The normal form of a normal form is itself. By induction on the node. -/
theorem normalize_normalize {n : Node} (h : n.EveryProps Properties.Distinct) :
    n.normalize.normalize = n.normalize := by
  induction n using inductionOn with
  | root children ih =>
    rw [everyProps_root] at h
    simp only [normalize, normalizeAll_eq_map, List.map_map, root.injEq]
    exact List.map_congr_left fun c hc => ih c hc (h c hc)
  | element tag props children ih =>
    rw [everyProps_element] at h
    simp only [normalize, normalizeAll_eq_map, List.map_map, element.injEq, true_and,
      Properties.normalize_normalize h.1]
    exact List.map_congr_left fun c hc => ih c hc (h.2 c hc)
  | leaf n hn => rw [normalize_of_leaf hn, normalize_of_leaf hn]

/-! ## Writing a tree and its normal form -/

/-- What holds of the markup of each node holds of all together. -/
theorem markups?_normalizeAll {limit : Nat} {c : Context} {ns : List Node}
    (h : ∀ n ∈ ns, markup? limit c n.normalize = markup? limit c n) :
    markups? limit c (normalizeAll ns) = markups? limit c ns := by
  induction ns with
  | nil => rfl
  | cons n ns ih =>
    rw [normalizeAll, markups?, markups?, h n List.mem_cons_self,
      ih fun m hm => h m (List.mem_cons_of_mem n hm)]

/-- The markup of a node is that of its normal form. -/
theorem markup?_normalize {n : Node} (h : n.EveryProps Properties.Distinct) (limit : Nat)
    (c : Context) : markup? limit c n.normalize = markup? limit c n := by
  induction n using inductionOn generalizing c with
  | root children ih =>
    rw [everyProps_root] at h
    rw [normalize, markup?, markup?, markups?_normalizeAll fun m hm => ih m hm (h m hm) c]
  | element tag props children ih =>
    rw [everyProps_element] at h
    rw [normalize, markup?, markup?, Properties.normalize_normalize h.1,
      markups?_normalizeAll fun m hm => ih m hm (h.2 m hm) (c.enter tag)]
  | leaf n hn => rw [normalize_of_leaf hn]

/-- What holds of the HTML of each node holds of all together. -/
theorem htmls_normalizeAll {ns : List Node} (h : ∀ n ∈ ns, html n.normalize = html n) :
    htmls (normalizeAll ns) = htmls ns := by
  induction ns with
  | nil => rfl
  | cons n ns ih =>
    rw [normalizeAll, htmls, htmls, h n List.mem_cons_self,
      ih fun m hm => h m (List.mem_cons_of_mem n hm)]

/-- The HTML of a node is that of its normal form. -/
theorem html_normalize {n : Node} (h : n.EveryProps Properties.Distinct) :
    html n.normalize = html n := by
  induction n using inductionOn with
  | root children ih =>
    rw [everyProps_root] at h
    rw [normalize, html, html, htmls_normalizeAll fun m hm => ih m hm (h m hm)]
  | element tag props children ih =>
    rw [everyProps_element] at h
    rw [normalize, html, html, Properties.normalize_normalize h.1,
      htmls_normalizeAll fun m hm => ih m hm (h.2 m hm)]
  | leaf n hn => rw [normalize_of_leaf hn]

/-! ## Walks -/

theorem visit_of_leaf {n : Node} (h : n.IsLeaf) (limit depth : Nat) :
    (visit limit depth n).1 = n := by
  cases n with
  | root | element => exact h.elim
  | _ => rfl

/-- Of nodes side by side, one is visited when the walk came through those before it. -/
theorem getElem?_visitAll {limit depth : Nat} {ns : List Node} {i : Nat} :
    (visitAll limit depth ns).1[i]? = (ns[i]?).map fun n =>
      if (visitAll limit depth (ns.take i)).2 then (visit limit depth n).1 else n := by
  induction ns generalizing i with
  | nil => rfl
  | cons n ns ih =>
    rw [visitAll]
    -- the walk ends in the first node, or goes on behind it
    split
    · next n' hvisit => cases i <;> simp [visitAll, hvisit]
    · next n' hvisit => cases i <;> simp [visitAll, hvisit, ih]

/-- A walk over nodes side by side leaves each of them as it was or as a walk over it leaves it. -/
theorem mem_visitAll {limit depth : Nat} {ns : List Node} {m : Node}
    (h : m ∈ (visitAll limit depth ns).1) : ∃ n ∈ ns, m = n ∨ m = (visit limit depth n).1 := by
  obtain ⟨i, hi⟩ := List.mem_iff_getElem?.1 h
  rw [getElem?_visitAll, Option.map_eq_some_iff] at hi
  obtain ⟨n, hn, rfl⟩ := hi
  refine ⟨n, List.mem_of_getElem? hn, ?_⟩
  split
  · exact Or.inr rfl
  · exact Or.inl rfl

/-- What a walk does not change in each node, it does not change in a list of them. -/
theorem map_visitAll {α : Type} {limit depth : Nat} {f : Node → α} {ns : List Node}
    (h : ∀ n ∈ ns, f (visit limit depth n).1 = f n) :
    (visitAll limit depth ns).1.map f = ns.map f := by
  apply List.ext_getElem?
  intro i
  rw [List.getElem?_map, List.getElem?_map, getElem?_visitAll, Option.map_map]
  cases hi : ns[i]? with
  | none => rfl
  | some n =>
    simp only [Option.map_some, Function.comp_apply, apply_ite f,
      h n (List.mem_of_getElem? hi), ite_self]

theorem distinct_visit {n : Node} (h : n.EveryProps Properties.Distinct) (limit depth : Nat) :
    (visit limit depth n).1.EveryProps Properties.Distinct := by
  induction n using inductionOn generalizing depth with
  | root children ih =>
    rw [visit]
    split
    · exact h
    · rw [everyProps_root] at h ⊢
      intro m hm
      -- a child that the walk did not come to is as it was
      obtain ⟨c, hc, rfl | rfl⟩ := mem_visitAll hm
      · exact h m hc
      · exact ih c hc (h c hc) depth
  | element tag props children ih =>
    rw [visit]
    split
    · exact h
    · rw [everyProps_element] at h ⊢
      refine ⟨Properties.distinct_normalize props, fun m hm => ?_⟩
      obtain ⟨c, hc, rfl | rfl⟩ := mem_visitAll hm
      · exact h.2 m hc
      · exact ih c hc (h.2 c hc) (depth + 1)
  | leaf n hn =>
    rw [visit_of_leaf hn]
    exact h

/-- Wherever a walk ends, the normal form of the tree is what it was. -/
theorem normalize_visit {n : Node} (h : n.EveryProps Properties.Distinct) (limit depth : Nat) :
    (visit limit depth n).1.normalize = n.normalize := by
  induction n using inductionOn generalizing depth with
  | root children ih =>
    rw [everyProps_root] at h
    rw [visit]
    split
    · rfl
    · -- each child keeps its normal form, whether the walk came to it or not
      simp only [normalize, normalizeAll_eq_map, map_visitAll fun c hc => ih c hc (h c hc) depth]
  | element tag props children ih =>
    rw [everyProps_element] at h
    rw [visit]
    split
    · rfl
    · simp only [normalize, normalizeAll_eq_map, Properties.normalize_normalize h.1,
        map_visitAll fun c hc => ih c hc (h.2 c hc) (depth + 1)]
  | leaf n hn => rw [visit_of_leaf hn]

end Node

/-! ## Documents -/

namespace Document

/-- The property lists of the document have distinct names. -/
def Distinct (d : Document) : Prop := ∀ n ∈ d.children, n.EveryProps Properties.Distinct

theorem import?_normalize (n : Node) : n.normalize.import? = n.import? := by
  cases n <;> rfl

theorem export?_normalize (n : Node) : n.normalize.export? = n.export? := by
  cases n <;> rfl

theorem isContent_normalize (n : Node) : n.normalize.isContent = n.isContent := by
  cases n <;> rfl

theorem imports_normalize (d : Document) : d.normalize.imports = d.imports := by
  simp only [imports, normalize, Node.normalizeAll_eq_map, List.filterMap_map]
  rw [show Node.import? ∘ Node.normalize = Node.import? from funext import?_normalize]

theorem exports_normalize (d : Document) : d.normalize.exports = d.exports := by
  simp only [exports, normalize, Node.normalizeAll_eq_map, List.filterMap_map]
  rw [show Node.export? ∘ Node.normalize = Node.export? from funext export?_normalize]

/-- The content of a normal form is the normal form of the content. -/
theorem content_normalize (d : Document) : d.normalize.content = Node.normalizeAll d.content := by
  simp only [content, normalize, Node.normalizeAll_eq_map, List.filter_map]
  rw [show Node.isContent ∘ Node.normalize = Node.isContent from funext isContent_normalize]

/-- The module of a document is that of its normal form. -/
theorem compile_normalize {d : Document} (h : d.Distinct) (o : CompileOptions) :
    d.normalize.compile o = d.compile o := by
  have hcontent : ∀ n ∈ d.content, Node.markup? o.depthLimit o.context n.normalize =
      Node.markup? o.depthLimit o.context n := by
    intro n hn
    exact Node.markup?_normalize (h n (List.mem_filter.1 hn).1) _ _
  apply compile_congr (imports_normalize d) (exports_normalize d)
  rw [content_normalize, Node.markups?_normalizeAll hcontent]

/-- The preview of a document is that of its normal form. -/
theorem render_normalize {d : Document} (h : d.Distinct) : d.normalize.render = d.render := by
  simp only [render, normalize, Node.htmls_normalizeAll fun n hn => Node.html_normalize (h n hn)]

theorem distinct_normalize (d : Document) : d.normalize.Distinct := by
  intro n hn
  rw [normalize, Node.normalizeAll_eq_map] at hn
  obtain ⟨m, -, rfl⟩ := List.mem_map.1 hn
  exact Node.distinct_normalize m

theorem normalize_normalize {d : Document} (h : d.Distinct) :
    d.normalize.normalize = d.normalize := by
  simp only [normalize, Node.normalizeAll_eq_map, List.map_map, mk.injEq]
  exact List.map_congr_left fun n hn => Node.normalize_normalize (h n hn)

/-- Compiling keeps names distinct, whatever its outcome. -/
theorem distinct_afterCompile {d : Document} (h : d.Distinct) (o : CompileOptions) :
    (d.afterCompile o).Distinct := by
  unfold afterCompile
  split
  · exact h
  · intro m hm
    obtain ⟨n, hn, rfl | rfl⟩ := Node.mem_visitAll hm
    · exact h m hn
    · exact Node.distinct_visit (h n hn) _ _

/-- Compiling leaves a document with the same normal form behind, whatever its outcome. -/
theorem normalize_afterCompile {d : Document} (h : d.Distinct) (o : CompileOptions) :
    (d.afterCompile o).normalize = d.normalize := by
  unfold afterCompile
  split
  · rfl
  · simp only [normalize, Node.normalizeAll_eq_map,
      Node.map_visitAll fun n hn => Node.normalize_visit (h n hn) o.depthLimit 1]

end Document

/-! ## Sequences of uses -/

/-- One use of a document. -/
inductive Call where
  /-- The module of the document is asked for. -/
  | compile (o : CompileOptions)
  /-- The preview of the document is asked for. -/
  | render
  deriving DecidableEq, Repr

/-- What a use gives back. -/
inductive Answer where
  /-- The text of the module, or why there is none. -/
  | module (outcome : Except CompileError Bytes)
  /-- The text of the preview. -/
  | preview (text : Bytes)

namespace Call

/-- What the use gives back of a document. -/
def answer (d : Document) : Call → Answer
  | .compile o => .module (d.compile o)
  | .render => .preview d.render

/-- The document as the use leaves it behind. -/
def after (d : Document) : Call → Document
  | .compile o => d.afterCompile o
  | .render => d.normalize

/-- A use depends on the normal form alone. -/
theorem answer_normalize {d : Document} (h : d.Distinct) (call : Call) :
    call.answer d.normalize = call.answer d := by
  cases call with
  | compile o => rw [answer, answer, Document.compile_normalize h]
  | render => rw [answer, answer, Document.render_normalize h]

/-- A use keeps the normal form. -/
theorem normalize_after {d : Document} (h : d.Distinct) (call : Call) :
    (call.after d).normalize = d.normalize := by
  cases call with
  | compile o => exact Document.normalize_afterCompile h o
  | render => exact Document.normalize_normalize h

theorem distinct_after {d : Document} (h : d.Distinct) (call : Call) :
    (call.after d).Distinct := by
  cases call with
  | compile o => exact Document.distinct_afterCompile h o
  | render => exact Document.distinct_normalize d

/-- The answers to uses one after another, each of the document that the one before left behind. -/
def answers (d : Document) : List Call → List Answer
  | [] => []
  | call :: calls => call.answer d :: answers (call.after d) calls

/-- Documents with one normal form answer alike, now and ever after. -/
theorem answers_eq_of_normalize_eq {d e : Document} (hd : d.Distinct) (he : e.Distinct)
    (h : e.normalize = d.normalize) (calls : List Call) :
    answers e calls = calls.map fun call => call.answer d := by
  -- `e` is the document as the calls so far have left it, `d` the one they started from
  induction calls generalizing e with
  | nil => rfl
  | cons call calls ih =>
    -- the answer is that of the common normal form
    have hanswer : call.answer e = call.answer d := by
      rw [← answer_normalize he, h, answer_normalize hd]
    have hafter : (call.after e).normalize = d.normalize := by
      rw [normalize_after he, h]
    rw [answers, List.map_cons, hanswer, ih (distinct_after he call) hafter]

/-- **No use changes what later uses give.** Of a decoded document, whatever is asked and in
whatever order, every answer is the one that the document gives when it is fresh from the
decoder. -/
theorem answers_of_decode {src : Bytes} {d : Document} (h : Document.decode src = .ok d)
    (calls : List Call) : answers d calls = calls.map fun call => call.answer d :=
  have hd : d.Distinct := distinct_of_decode h
  answers_eq_of_normalize_eq hd hd rfl calls

/-- The document is compiled to a depth at which its text is out of reach, then shown, then compiled
in full. -/
theorem answers_of_decode_halfway : ∃ d,
    Document.decode
      (ascii ("\x7b\"type\":\"root\",\"children\":[\x7b\"type\":\"element\",\"tagName\":\"p\"," ++
        "\"properties\":\x7b\"ariaLabel\":true,\"style\":\"top:1px\"\x7d," ++
        "\"children\":[\x7b\"type\":\"text\",\"value\":\"x\"\x7d]\x7d]\x7d")) = .ok d ∧
    answers d [.compile { maxDepth := 1 }, .render, .compile {}] =
      [.module (d.compile { maxDepth := 1 }), .preview d.render, .module (d.compile {})] := by
  generalize hsrc : ascii _ = src
  have hok : (Document.decode src).isOk := by
    subst hsrc
    decide +kernel
  cases hd : Document.decode src with
  | error e =>
    rw [hd] at hok
    cases hok
  | ok d => exact ⟨d, rfl, answers_of_decode hd _⟩

end Call

end DocTree
