import DocTree.Proofs.Module.Unambiguous

/-!
# What keeping newlines changes

A text that is a single newline is layout between elements, and text inside preformatted ones. The
option that keeps newlines makes it text everywhere. This module compares the two compilations of
one document.

Whether there is a module does not depend on the option. The two modules differ exactly if a newline
stands outside of all preformatted elements (`Node.LooseNewline`): without one the markup is the
same (`Node.markup?_keep`), and each such newline takes more room as text than as layout, so that
the two texts do not even have the same length (`Node.widens_markup?`).
-/

namespace DocTree

/-! ## Loose newlines -/

/-- A text that is a single newline stands in the node, and in no preformatted element of it. -/
inductive Node.LooseNewline : Node → Prop where
  /-- The node is such a text. -/
  | here : LooseNewline (.text (ascii "\n"))
  /-- A root stands for its children. -/
  | inRoot {child : Node} {children : List Node} :
      child ∈ children → LooseNewline child → LooseNewline (.root children)
  /-- An element that is not preformatted leaves the newline loose. -/
  | inElement {tag : Bytes} {props : Properties} {child : Node} {children : List Node} :
      tag ≠ ascii "pre" → child ∈ children → LooseNewline child →
        LooseNewline (.element tag props children)

namespace Node

/-- A newline is loose in a root if it is in a child. -/
theorem looseNewline_root {children : List Node} :
    LooseNewline (.root children) ↔ ∃ n ∈ children, LooseNewline n := by
  constructor
  · intro h
    cases h with
    | inRoot hmem hloose => exact ⟨_, hmem, hloose⟩
  · intro ⟨n, hmem, hloose⟩
    exact .inRoot hmem hloose

/-- It is loose in an element if it is in a child, and the element is not preformatted. -/
theorem looseNewline_element {tag : Bytes} {props : Properties} {children : List Node} :
    LooseNewline (.element tag props children) ↔
      tag ≠ ascii "pre" ∧ ∃ n ∈ children, LooseNewline n := by
  constructor
  · intro h
    cases h with
    | inElement htag hmem hloose => exact ⟨htag, _, hmem, hloose⟩
  · intro ⟨htag, n, hmem, hloose⟩
    exact .inElement htag hmem hloose

theorem looseNewline_text {value : Bytes} : LooseNewline (.text value) ↔ value = ascii "\n" := by
  constructor
  · intro h
    cases h with
    | here => rfl
  · intro h
    rw [h]
    exact .here

end Node

/-! ## The context that keeps newlines -/

/-- The context with newlines as text. -/
def Context.keep (c : Context) : Context := { c with preserve := true }

namespace Context

variable (c : Context)

@[simp] theorem keep_depth : c.keep.depth = c.depth := rfl

@[simp] theorem keep_preserve : c.keep.preserve = true := rfl

/-- Entering an element goes on keeping newlines. -/
theorem enter_keep (tag : Bytes) : c.keep.enter tag = (c.enter tag).keep := rfl

/-- Inside a preformatted element newlines are text already. -/
theorem keep_enter_pre : (c.enter (ascii "pre")).keep = c.enter (ascii "pre") := by
  rw [keep, enter, show isPreformatted (ascii "pre") = true from beq_self_eq_true _, Bool.or_true]

/-- Other elements change nothing. -/
theorem preserve_enter {tag : Bytes} (h : tag ≠ ascii "pre") :
    (c.enter tag).preserve = c.preserve := by
  have htag : isPreformatted tag = false := beq_eq_false_iff_ne.2 h
  rw [enter, htag, Bool.or_false]

end Context

/-! ## Markup with and without the option -/

namespace Node

variable {limit : Nat}

/-- Nodes with the same markup each have the same markup together. -/
theorem markups?_congr {c c' : Context} {ns : List Node}
    (h : ∀ n ∈ ns, markup? limit c n = markup? limit c' n) :
    markups? limit c ns = markups? limit c' ns := by
  induction ns with
  | nil => rfl
  | cons n ns ih =>
    rw [markups?, markups?, h n List.mem_cons_self, ih fun m hm => h m (List.mem_cons_of_mem n hm)]

/-- Without a loose newline the markup is the same. -/
theorem markup?_keep {n : Node} (h : ¬ n.LooseNewline) (c : Context) :
    markup? limit c.keep n = markup? limit c n := by
  induction n using inductionOn generalizing c with
  | root children ih =>
    rw [looseNewline_root] at h
    rw [markup?, markup?, Context.keep_depth,
      markups?_congr fun n hn => ih n hn (fun hloose => h ⟨n, hn, hloose⟩) c]
  | element tag props children ih =>
    rw [looseNewline_element] at h
    have hinner : markups? limit (c.keep.enter tag) children =
        markups? limit (c.enter tag) children := by
      rw [Context.enter_keep]
      -- in a preformatted element the option changes nothing, and elsewhere the children hold no
      -- loose newline
      by_cases htag : tag = ascii "pre"
      · rw [htag, Context.keep_enter_pre]
      · exact markups?_congr fun n hn => ih n hn (fun hloose => h ⟨htag, n, hn, hloose⟩) _
    rw [markup?, markup?, hinner]
    rfl
  | leaf n hn =>
    cases n with
    | root | element => exact hn.elim
    | text value =>
      -- what is no newline is text with the option and without it
      rw [looseNewline_text] at h
      have hvalue : (value == ascii "\n") = false := beq_eq_false_iff_ne.2 h
      simp only [markup?, Context.keep_depth, textMarkup, hvalue, Bool.false_and]
    | _ => rfl

/-- `ms'` takes at least the room that `ms` takes, and more if `loose` holds. -/
def Widens (loose : Prop) (ms ms' : List Markup) : Prop :=
  (Markup.texts ms).length ≤ (Markup.texts ms').length ∧
    (loose → (Markup.texts ms).length < (Markup.texts ms').length)

namespace Widens

variable {loose loose' : Prop} {ms ms' front front' back back' : List Markup}

theorem of_eq (hloose : ¬ loose) (h : ms = ms') : Widens loose ms ms' := by
  subst h
  exact ⟨Nat.le_refl _, fun h => absurd h hloose⟩

theorem append (hfront : Widens loose front front') (hback : Widens loose' back back') :
    Widens (loose ∨ loose') (front ++ back) (front' ++ back') := by
  obtain ⟨hle, hlt⟩ := hfront
  obtain ⟨hle', hlt'⟩ := hback
  simp only [Widens, Markup.texts_append, List.length_append]
  refine ⟨by omega, fun h => ?_⟩
  -- one side grows, and the other does not shrink
  rcases h with h | h
  · have := hlt h
    omega
  · have := hlt' h
    omega

/-- A tag grows as its children do. -/
theorem tag (h : Widens loose ms ms') (name parent : Bytes) (props : Properties) :
    Widens loose [.tag name parent props ms] [.tag name parent props ms'] := by
  have hlength : ∀ inner : List Markup, (Markup.texts [.tag name parent props inner]).length =
      (Markup.openTag name parent props).length + (Markup.texts inner).length +
        Markup.closeTag.length := by
    intro inner
    -- the children are written between the opening and the closing tag
    show (Markup.openTag name parent props ++
      Markup.textsBefore inner (Markup.closeTag ++ [])).length = _
    rw [Markup.textsBefore_eq_texts_append]
    simp only [List.length_append, List.append_nil]
    omega
  obtain ⟨hle, hlt⟩ := h
  rw [Widens, hlength, hlength]
  refine ⟨by omega, fun h => ?_⟩
  have := hlt h
  omega

end Widens

/-- Nodes that each take more room do so side by side. -/
theorem widens_markups?_of {c c' : Context} {ns : List Node}
    (h : ∀ n ∈ ns, ∀ ms ms', markup? limit c n = some ms → markup? limit c' n = some ms' →
      Widens n.LooseNewline ms ms') {ms ms' : List Markup} (hms : markups? limit c ns = some ms)
    (hms' : markups? limit c' ns = some ms') : Widens (∃ n ∈ ns, n.LooseNewline) ms ms' := by
  induction ns generalizing ms ms' with
  | nil =>
    cases hms
    cases hms'
    exact .of_eq (by simp) rfl
  | cons n ns ih =>
    obtain ⟨front, back, hfront, hback, rfl⟩ := markups?_cons_eq_some hms
    obtain ⟨front', back', hfront', hback', rfl⟩ := markups?_cons_eq_some hms'
    have hhead := h n List.mem_cons_self front front' hfront hfront'
    have htail := ih (fun m hm => h m (List.mem_cons_of_mem n hm)) hback hback'
    -- the loose newline is in the first node or in one of the others
    simp only [List.mem_cons, exists_eq_or_imp]
    exact hhead.append htail

/-- A loose newline takes more room where newlines are kept, and nothing takes less. By induction on
the node; the context is one that does not keep newlines, which holds down to the preformatted
elements. -/
theorem widens_markup? {n : Node} {c : Context} (hc : c.preserve = false) :
    ∀ ms ms', markup? limit c n = some ms → markup? limit c.keep n = some ms' →
      Widens n.LooseNewline ms ms' := by
  induction n using inductionOn generalizing c with
  | root children ih =>
    intro ms ms' h h'
    rw [markup?] at h h'
    split at h
    · cases h
    · rw [Context.keep_depth, if_neg ‹_›] at h'
      rw [looseNewline_root]
      exact widens_markups?_of (fun n hn => ih n hn hc) h h'
  | element tag props children ih =>
    intro ms ms' h h'
    obtain ⟨inner, hinner, rfl⟩ := markup?_element_eq_some h
    obtain ⟨inner', hinner', rfl⟩ := markup?_element_eq_some h'
    rw [Context.enter_keep] at hinner'
    apply Widens.tag
    rw [looseNewline_element]
    by_cases htag : tag = ascii "pre"
    · -- from here on the two contexts are the same
      rw [htag, Context.keep_enter_pre] at hinner'
      rw [htag, hinner'] at hinner
      exact .of_eq (fun h => h.1 htag) (Option.some.inj hinner).symm
    · have hpreserve : (c.enter tag).preserve = false := by rw [c.preserve_enter htag, hc]
      have hchildren := widens_markups?_of (fun n hn => ih n hn hpreserve) hinner hinner'
      exact ⟨hchildren.1, fun h => hchildren.2 h.2⟩
  | leaf n hn =>
    intro ms ms' h h'
    by_cases hloose : n.LooseNewline
    · cases hloose with
      | inRoot | inElement => exact hn.elim
      | here =>
        -- one byte as layout, five as a template literal
        rw [markup?_text_eq_some h, markup?_text_eq_some h', textMarkup, textMarkup, hc,
          Context.keep_preserve]
        exact ⟨by decide, fun _ => by decide⟩
    · rw [markup?_keep hloose, h] at h'
      exact .of_eq hloose (Option.some.inj h')

end Node

/-! ## Modules with and without the option -/

namespace Document

/-- A newline stands in the content outside of all preformatted elements. -/
def LooseNewline (d : Document) : Prop := ∃ n ∈ d.children, n.isContent = true ∧ n.LooseNewline

/-- A newline is loose in a document if it is in its content. -/
theorem looseNewline_iff (d : Document) : d.LooseNewline ↔ ∃ n ∈ d.content, n.LooseNewline := by
  simp only [LooseNewline, content, List.mem_filter, and_assoc]

/-- Why there is no module does not depend on the option. -/
theorem compile_error_of_preserve {o : CompileOptions} {d : Document} {keep : Bool}
    {e : CompileError} (h : d.compile { o with preserveNewlines := keep } = .error e)
    (keep' : Bool) :
    d.compile { o with preserveNewlines := keep' } = .error e := by
  cases e with
  | noDocument =>
    rw [compile] at h
    split at h
    · cases h
    · split at h <;> cases h
  | defaultReexport source =>
    rw [compile_eq_defaultReexport_iff] at h ⊢
    exact h
  | tooDeep limit =>
    -- the option is no part of the limit
    rw [compile_eq_tooDeep_iff] at h ⊢
    exact h

/-- The bodies of the two modules are the same text exactly if no newline is loose. -/
theorem texts_eq_iff_of_keep {limit : Nat} {c : Context} (hc : c.preserve = false) {d : Document}
    {body body' : List Markup} (h : Node.markups? limit c d.content = some body)
    (h' : Node.markups? limit c.keep d.content = some body') :
    Markup.texts body' = Markup.texts body ↔ ¬ d.LooseNewline := by
  rw [looseNewline_iff]
  constructor
  · intro htexts hloose
    -- with a loose newline the lengths differ
    have hwidens := Node.widens_markups?_of (fun n _ => Node.widens_markup? hc) h h'
    have hlt := hwidens.2 hloose
    rw [htexts] at hlt
    exact Nat.lt_irrefl _ hlt
  · intro hloose
    have hsame : Node.markups? limit c.keep d.content = Node.markups? limit c d.content :=
      Node.markups?_congr fun n hn => Node.markup?_keep (fun hn' => hloose ⟨n, hn, hn'⟩) c
    rw [h, h'] at hsame
    rw [Option.some.inj hsame]

/-- **What keeping newlines changes.** With the option and without it the document has no module for
the same reason, or it has one; then the two are the same exactly if no newline stands in the
content outside of all preformatted elements. -/
theorem compile_preserveNewlines (o : CompileOptions) (d : Document) :
    (∃ e, d.compile { o with preserveNewlines := true } = .error e ∧
      d.compile { o with preserveNewlines := false } = .error e) ∨
    ∃ kept dropped, d.compile { o with preserveNewlines := true } = .ok kept ∧
      d.compile { o with preserveNewlines := false } = .ok dropped ∧
      (kept = dropped ↔ ¬ ∃ n ∈ d.children, n.isContent = true ∧ n.LooseNewline) := by
  cases hkept : d.compile { o with preserveNewlines := true } with
  | error e => exact Or.inl ⟨e, rfl, compile_error_of_preserve hkept false⟩
  | ok kept =>
    cases hdropped : d.compile { o with preserveNewlines := false } with
    | error e =>
      rw [compile_error_of_preserve hdropped true] at hkept
      cases hkept
    | ok dropped =>
      refine Or.inr ⟨kept, dropped, rfl, rfl, ?_⟩
      obtain ⟨-, body', hbody', htext'⟩ := compile_eq_ok_iff.1 hkept
      obtain ⟨-, body, hbody, htext⟩ := compile_eq_ok_iff.1 hdropped
      rw [htext', htext]
      -- around the bodies the two modules are the same
      show d.moduleText o body' = d.moduleText o body ↔ ¬ d.LooseNewline
      rw [← texts_eq_iff_of_keep rfl hbody hbody']
      constructor
      · exact texts_eq_of_moduleText
      · intro htexts
        simp only [moduleText, Markup.textsBefore_eq_texts_append, htexts]

/-- A newline in a preformatted element, and a loose one in a root beside it. -/
def besidePre : Document :=
  ⟨[.element (ascii "pre") [] [.text (ascii "\n")], .root [.text (ascii "\n")]]⟩

/-- The loose one makes the difference. -/
theorem compile_preserveNewlines_besidePre :
    besidePre.compile { preserveNewlines := true } ≠
      besidePre.compile { preserveNewlines := false } := by
  have hloose : ∃ n ∈ besidePre.children, n.isContent = true ∧ n.LooseNewline :=
    ⟨.root [.text (ascii "\n")], by simp [besidePre], rfl,
      .inRoot (List.mem_singleton_self _) .here⟩
  rcases compile_preserveNewlines {} besidePre
    with ⟨e, herror, -⟩ | ⟨kept, dropped, hkept, hdropped, hiff⟩
  · obtain ⟨text, hok⟩ : ∃ text, besidePre.compile { preserveNewlines := true } = .ok text :=
      ⟨_, rfl⟩
    rw [hok] at herror
    cases herror
  · rw [hkept, hdropped]
    exact fun heq => hiff.1 (Except.ok.inj heq) hloose

end Document

end DocTree
