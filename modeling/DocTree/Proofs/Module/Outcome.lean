import DocTree.Module
import DocTree.Proofs.Tree.Occurrence

/-!
# When there is a module

A document has no module for one of two reasons: an export in a spelling that is not supported, or
content below the deepest level that the options allow. This module says exactly when each of the
two is reported and that the limit decides only whether there is a module and never what it says.

The level of a node is a fact about the tree (`Node.Occurs`); the walk that writes the content
compares it with the limit at every node. `Node.markup?_eq_none_iff` joins the two.
-/

namespace DocTree

namespace Node

/-! ## Content below the limit -/

/-- A node of any kind stands below the level `limit` when the outermost one is at `level`. -/
def ReachesBelow (limit level : Nat) (n : Node) : Prop :=
  ∃ k x, Occurs x k n ∧ limit < level + k

variable {limit level : Nat}

theorem reachesBelow_self {n : Node} (h : limit < level) : ReachesBelow limit level n :=
  ⟨0, n, .here, h⟩

/-- A leaf reaches below the limit only by standing there. -/
theorem reachesBelow_of_leaf {n : Node} (hn : n.IsLeaf) :
    ReachesBelow limit level n ↔ limit < level := by
  refine ⟨?_, reachesBelow_self⟩
  rintro ⟨k, x, hocc, h⟩
  cases hocc with
  | here => exact h
  | inRoot | inElement => exact hn.elim

theorem reachesBelow_root {children : List Node} (h : ¬ limit < level) :
    ReachesBelow limit level (.root children) ↔
      ∃ c ∈ children, ReachesBelow limit level c := by
  constructor
  · rintro ⟨k, x, hocc, hk⟩
    cases hocc with
    | here => exact absurd hk h
    | inRoot hc hocc => exact ⟨_, hc, k, x, hocc, hk⟩
  · rintro ⟨c, hc, k, x, hocc, hk⟩
    exact ⟨k, x, .inRoot hc hocc, hk⟩

theorem reachesBelow_element {tag : Bytes} {props : Properties} {children : List Node}
    (h : ¬ limit < level) :
    ReachesBelow limit level (.element tag props children) ↔
      ∃ c ∈ children, ReachesBelow limit (level + 1) c := by
  constructor
  · rintro ⟨k, x, hocc, hk⟩
    cases hocc with
    | here => exact absurd hk h
    | inElement hc hocc => exact ⟨_, hc, _, x, hocc, by omega⟩
  · rintro ⟨c, hc, k, x, hocc, hk⟩
    exact ⟨k + 1, x, .inElement hc hocc, by omega⟩

/-! ## The walk over the content -/

/-- What a leaf is written as does not depend on the limit. -/
theorem markup?_of_leaf {n : Node} (hn : n.IsLeaf) (c : Context) :
    ∃ ms, ∀ limit, markup? limit c n = if limit < c.depth then none else some ms := by
  cases n with
  | root | element => exact hn.elim
  | unknown type => exact ⟨[], fun _ => rfl⟩
  | _ => exact ⟨[_], fun _ => rfl⟩

/-- There is no markup of nodes if there is none of one of them. -/
theorem markups?_eq_none_iff {c : Context} {ns : List Node} :
    markups? limit c ns = none ↔ ∃ n ∈ ns, markup? limit c n = none := by
  induction ns with
  | nil => simp [markups?]
  | cons n ns ih =>
    rw [markups?]
    cases hn : markup? limit c n with
    | none => exact iff_of_true rfl ⟨n, List.mem_cons_self, hn⟩
    | some ms => simp [ih, hn]

/-- There is no markup exactly when a node stands below the limit. -/
theorem markup?_eq_none_iff {c : Context} {n : Node} :
    markup? limit c n = none ↔ ReachesBelow limit c.depth n := by
  induction n using inductionOn generalizing c with
  | root children ih =>
    rw [markup?]
    split
    · next h => exact iff_of_true rfl (reachesBelow_self h)
    · next h =>
      rw [reachesBelow_root h, markups?_eq_none_iff]
      exact exists_congr fun n => and_congr_right fun hn => ih n hn
  | element tag props children ih =>
    rw [markup?]
    split
    · next h => exact iff_of_true rfl (reachesBelow_self h)
    · next h =>
      rw [reachesBelow_element h, Option.map_eq_none_iff, markups?_eq_none_iff]
      -- inside the element the walk is one level down
      exact exists_congr fun n => and_congr_right fun hn => ih n hn
  | leaf n hn =>
    obtain ⟨ms, hms⟩ := markup?_of_leaf hn c
    rw [hms, reachesBelow_of_leaf hn]
    split <;> simp_all

/-- The markup of nodes is that of the first and that of the others. -/
theorem markups?_cons_eq_some {c : Context} {n : Node} {ns : List Node} {ms : List Markup}
    (h : markups? limit c (n :: ns) = some ms) :
    ∃ front back, markup? limit c n = some front ∧ markups? limit c ns = some back ∧
      ms = front ++ back := by
  rw [markups?] at h
  cases hn : markup? limit c n with
  | none => simp [hn] at h
  | some front =>
    rw [hn] at h
    obtain ⟨back, hback, rfl⟩ := Option.map_eq_some_iff.1 h
    exact ⟨front, back, rfl, hback, rfl⟩

/-- What a higher limit leaves of each node, it leaves of all together. -/
theorem markups?_mono {limit' : Nat} {c : Context} {ns : List Node}
    (h : ∀ n ∈ ns, ∀ ms, markup? limit c n = some ms → markup? limit' c n = some ms)
    {ms : List Markup} (hms : markups? limit c ns = some ms) : markups? limit' c ns = some ms := by
  induction ns generalizing ms with
  | nil => exact hms
  | cons n ns ih =>
    obtain ⟨front, back, hfront, hback, rfl⟩ := markups?_cons_eq_some hms
    rw [markups?, h n List.mem_cons_self front hfront,
      ih (fun m hm => h m (List.mem_cons_of_mem n hm)) hback]
    rfl

/-- A higher limit does not change markup that there is. -/
theorem markup?_mono {limit' : Nat} (hle : limit ≤ limit') {c : Context} {n : Node}
    {ms : List Markup} (h : markup? limit c n = some ms) : markup? limit' c n = some ms := by
  induction n using inductionOn generalizing c ms with
  | root children ih =>
    rw [markup?] at h ⊢
    split at h
    · cases h
    · -- the level is allowed under the higher limit as well
      next hdepth =>
      rw [if_neg (by omega)]
      exact markups?_mono (fun m hm _ => ih m hm) h
  | element tag props children ih =>
    rw [markup?] at h ⊢
    split at h
    · cases h
    · next hdepth =>
      obtain ⟨inner, hinner, rfl⟩ := Option.map_eq_some_iff.1 h
      rw [if_neg (by omega), markups?_mono (fun m hm _ => ih m hm) hinner]
      rfl
  | leaf n hn =>
    obtain ⟨ms', hms'⟩ := markup?_of_leaf hn c
    rw [hms'] at h ⊢
    split at h
    · cases h
    · next hdepth => rw [if_neg (by omega), h]

/-- The source of an export in a spelling that is not supported. -/
def reexport? : Node → Option Bytes
  | .exporting source _ => if Statement.reexportsDefault source then some source else none
  | _ => none

/-- The source is that of an export in such a spelling. -/
theorem reexport?_eq_some_iff {n : Node} {source : Bytes} :
    n.reexport? = some source ↔
      (∃ isDefault, n = .exporting source isDefault) ∧
        Statement.reexportsDefault source = true := by
  cases n with
  | exporting s b =>
    by_cases hs : Statement.reexportsDefault s = true <;> simp [reexport?, hs] <;> grind
  | _ => simp [reexport?]

/-- Any other node is supported. -/
theorem reexport?_eq_none_iff {n : Node} :
    n.reexport? = none ↔
      ∀ source isDefault, n = .exporting source isDefault →
        Statement.reexportsDefault source = false := by
  cases n with
  | exporting s b => simp [reexport?]
  | _ => simp [reexport?]

end Node

namespace Document

/-! ## The outcome -/

/-- No export at the top is in a spelling that is not supported. -/
def Supported (d : Document) : Prop :=
  ∀ source isDefault, .exporting source isDefault ∈ d.children →
    Statement.reexportsDefault source = false

/-- The exports are looked through from the first to the last. -/
theorem defaultReexport?_eq_findSome? (d : Document) :
    d.defaultReexport? = d.children.findSome? Node.reexport? := by
  obtain ⟨ns⟩ := d
  simp only [defaultReexport?, exports]
  induction ns with
  | nil => rfl
  | cons n ns ih =>
    rw [List.findSome?_cons, ← ih]
    cases n with
    | exporting source isDefault =>
      cases hs : Statement.reexportsDefault source <;>
        simp [Node.export?, Node.reexport?, hs]
    | _ => rfl

theorem defaultReexport?_eq_none_iff {d : Document} :
    d.defaultReexport? = none ↔ d.Supported := by
  simp only [defaultReexport?_eq_findSome?, List.findSome?_eq_none_iff,
    Node.reexport?_eq_none_iff]
  constructor
  · intro h source isDefault hmem
    exact h _ hmem source isDefault rfl
  · rintro h n hn source isDefault rfl
    exact h source isDefault hn

/-- The one that is found is the first. -/
theorem defaultReexport?_eq_some_iff {d : Document} {source : Bytes} :
    d.defaultReexport? = some source ↔
      ∃ before isDefault behind, d.children = before ++ .exporting source isDefault :: behind ∧
        Statement.reexportsDefault source = true ∧ Supported ⟨before⟩ := by
  rw [defaultReexport?_eq_findSome?, List.findSome?_eq_some_iff]
  constructor
  · rintro ⟨before, n, behind, hsplit, hn, hbefore⟩
    -- everything in front of it is supported, since it was passed by
    obtain ⟨⟨isDefault, rfl⟩, hsource⟩ := Node.reexport?_eq_some_iff.1 hn
    refine ⟨before, isDefault, behind, hsplit, hsource, fun s b hmem => ?_⟩
    exact Node.reexport?_eq_none_iff.1 (hbefore _ hmem) s b rfl
  · rintro ⟨before, isDefault, behind, hsplit, hsource, hbefore⟩
    refine ⟨before, _, behind, hsplit, Node.reexport?_eq_some_iff.2 ⟨⟨isDefault, rfl⟩, hsource⟩, ?_⟩
    rintro n hn
    refine Node.reexport?_eq_none_iff.2 ?_
    rintro s b rfl
    exact hbefore s b hn

/-- A node of any kind stands below the level `limit` of the content. -/
def ReachesBelow (limit : Nat) (d : Document) : Prop :=
  ∃ n ∈ d.children, n.isContent = true ∧ n.ReachesBelow limit 1

/-- There is no markup of the content if it reaches below the limit. -/
theorem markups?_content_eq_none_iff {o : CompileOptions} {d : Document} {limit : Nat} :
    Node.markups? limit o.context d.content = none ↔ d.ReachesBelow limit := by
  rw [Node.markups?_eq_none_iff]
  constructor
  · rintro ⟨n, hn, hnone⟩
    obtain ⟨hmem, hcontent⟩ := List.mem_filter.1 hn
    exact ⟨n, hmem, hcontent, Node.markup?_eq_none_iff.1 hnone⟩
  · rintro ⟨n, hmem, hcontent, hbelow⟩
    exact ⟨n, List.mem_filter.2 ⟨hmem, hcontent⟩, Node.markup?_eq_none_iff.2 hbelow⟩

/-- An export in such a spelling is reported before anything else. -/
theorem compile_eq_defaultReexport_iff {o : CompileOptions} {d : Document} {source : Bytes} :
    d.compile o = .error (.defaultReexport source) ↔ d.defaultReexport? = some source := by
  rw [compile]
  split
  · next s hs => simp [hs]
  · next hnone => split <;> simp [hnone]

/-- The limit is reported if the content reaches below it. -/
theorem compile_eq_tooDeep_iff {o : CompileOptions} {d : Document} {limit : Nat} :
    d.compile o = .error (.tooDeep limit) ↔
      d.Supported ∧ limit = o.depthLimit ∧ d.ReachesBelow limit := by
  rw [compile, ← defaultReexport?_eq_none_iff]
  split
  · next s hs => simp [hs]
  · next hnone =>
    split
    · next hbody => grind [markups?_content_eq_none_iff]
    · next body hbody => grind [markups?_content_eq_none_iff]

/-- What stands around the body of a module comes from the imports and exports. -/
theorem moduleText_congr {d d' : Document} (himports : d.imports = d'.imports)
    (hexports : d.exports = d'.exports) (o : CompileOptions) (body : List Markup) :
    d.moduleText o body = d'.moduleText o body := by
  have hnames : d.boundNames = d'.boundNames := by rw [boundNames, boundNames, hexports]
  have hlayout : d.layout = d'.layout := by rw [layout, layout, hexports]
  rw [moduleText, moduleText, himports, hexports, hnames, hlayout]

/-- A document is compiled from its imports, its exports and the markup of its content. -/
theorem compile_congr {d d' : Document} {o : CompileOptions} (himports : d.imports = d'.imports)
    (hexports : d.exports = d'.exports)
    (hbody : Node.markups? o.depthLimit o.context d.content =
      Node.markups? o.depthLimit o.context d'.content) : d.compile o = d'.compile o := by
  have hreexport : d.defaultReexport? = d'.defaultReexport? := by
    rw [defaultReexport?, defaultReexport?, hexports]
  rw [compile, compile, hreexport, hbody]
  simp only [moduleText_congr himports hexports]

/-- Otherwise there is a module. -/
theorem compile_eq_ok_iff {o : CompileOptions} {d : Document} {text : Bytes} :
    d.compile o = .ok text ↔
      d.Supported ∧ ∃ body, Node.markups? o.depthLimit o.context d.content = some body ∧
        text = d.moduleText o body := by
  rw [compile, ← defaultReexport?_eq_none_iff]
  split
  · next s hs => simp [hs]
  · next hnone => split <;> grind

/-- The limit is the one that is given, if it is positive. -/
theorem depthLimit_eq (o : CompileOptions) :
    o.depthLimit = if 0 < o.maxDepth then o.maxDepth.toNat else 10000 := by
  rw [CompileOptions.depthLimit, defaultMaxDepth]
  by_cases h : 0 < o.maxDepth
  · rw [if_pos h, if_neg (by omega)]
  · rw [if_neg h, if_pos (by omega)]

theorem exists_compile_eq_ok_iff {o : CompileOptions} {d : Document} :
    (∃ text, d.compile o = .ok text) ↔ d.Supported ∧ ¬ d.ReachesBelow o.depthLimit := by
  simp only [compile_eq_ok_iff, ← markups?_content_eq_none_iff (o := o), ← ne_eq,
    Option.ne_none_iff_exists']
  constructor
  · rintro ⟨_, hsupported, body, hbody, -⟩
    exact ⟨hsupported, body, hbody⟩
  · rintro ⟨hsupported, body, hbody⟩
    exact ⟨_, hsupported, body, hbody, rfl⟩

/-- Of two limits under which there is a module, the higher one gives the text of the lower one. -/
theorem compile_maxDepth_mono {o : CompileOptions} {d : Document} {m : Int} {text text' : Bytes}
    (hle : o.depthLimit ≤ { o with maxDepth := m }.depthLimit) (h : d.compile o = .ok text)
    (h' : d.compile { o with maxDepth := m } = .ok text') : text = text' := by
  obtain ⟨-, body, hbody, htext⟩ := compile_eq_ok_iff.1 h
  obtain ⟨-, body', hbody', htext'⟩ := compile_eq_ok_iff.1 h'
  -- the markup under the lower limit is that under the higher one
  have hsame : some body = some body' := by
    rw [← hbody', ← Node.markups?_mono (fun n _ _ => Node.markup?_mono hle) hbody]
    rfl
  rw [htext, htext', Option.some.inj hsame]
  rfl

/-- **The outcome of compiling.** A first export in a spelling that is not supported is what is
reported, whatever else is wrong. Without one, the limit is reported exactly when a node of the
content stands below it, and otherwise there is a module, the same one under all limits that allow
one. -/
theorem compile_outcome (o : CompileOptions) (d : Document) :
    (∀ source, d.compile o = .error (.defaultReexport source) ↔
      ∃ before isDefault behind, d.children = before ++ .exporting source isDefault :: behind ∧
        Statement.reexportsDefault source = true ∧ Supported ⟨before⟩) ∧
    (∀ limit, d.compile o = .error (.tooDeep limit) ↔
      d.Supported ∧ limit = (if 0 < o.maxDepth then o.maxDepth.toNat else 10000) ∧
        d.ReachesBelow limit) ∧
    ((∃ text, d.compile o = .ok text) ↔
      d.Supported ∧ ¬ d.ReachesBelow (if 0 < o.maxDepth then o.maxDepth.toNat else 10000)) ∧
    ∀ m text text', d.compile o = .ok text → d.compile { o with maxDepth := m } = .ok text' →
      text = text' := by
  rw [← depthLimit_eq]
  refine ⟨fun source => ?_, fun limit => compile_eq_tooDeep_iff, exists_compile_eq_ok_iff, ?_⟩
  · rw [compile_eq_defaultReexport_iff, defaultReexport?_eq_some_iff]
  · intro m text text' h h'
    -- one of the two limits is the higher one
    rcases Nat.le_total o.depthLimit { o with maxDepth := m }.depthLimit with hle | hle
    · exact compile_maxDepth_mono hle h h'
    · -- the given options have the higher limit, and differ from the others in it alone
      exact (compile_maxDepth_mono (m := o.maxDepth) hle h' h).symm

/-- A root between an element and its text adds no level; the text is at the second one. -/
theorem compile_outcome_nested_root :
    compile { maxDepth := 1 } ⟨[.element (ascii "p") [] [.root [.text (ascii "x")]]]⟩ =
        .error (.tooDeep 1) ∧
      ∃ text, compile { maxDepth := 2 } ⟨[.element (ascii "p") [] [.root [.text (ascii "x")]]]⟩ =
        .ok text := by
  constructor
  · refine ((compile_outcome _ _).2.1 1).2 ⟨by simp [Supported], rfl, ?_⟩
    exact ⟨_, List.mem_singleton_self _, rfl, 1, .text (ascii "x"),
      .inElement (List.mem_singleton_self _) (.inRoot (List.mem_singleton_self _) .here), by decide⟩
  · refine (compile_outcome _ _).2.2.1.2 ⟨by simp [Supported], ?_⟩
    rintro ⟨n, hn, -, hbelow⟩
    obtain rfl := List.mem_singleton.1 hn
    have htext : Node.ReachesBelow 2 2 (.text (ascii "x")) := by
      simpa [Node.reachesBelow_element, Node.reachesBelow_root] using hbelow
    exact Nat.lt_irrefl 2 ((Node.reachesBelow_of_leaf (n := .text _) trivial).1 htext)

end Document

end DocTree
