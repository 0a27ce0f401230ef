import DocTree.Proofs.Module.Markup
import DocTree.Proofs.Module.Outcome

/-!
# A module determines its document

No text and no property value can pass itself off as markup: of documents made of elements, texts
and comments, two that compile to the same module are the same (`Document.compile_injective`). The
text of the body determines its markup, and the markup determines the nodes (`Node.markup?_inj`).
-/

namespace DocTree

/-! ## Nodes from their markup -/

namespace Node

/-- Elements, texts and comments, at every depth; comments do not hold their own end, tags hold no
quote, and properties are plain. -/
inductive Plain : Node → Prop where
  | element {tag : Bytes} {props : Properties} {children : List Node}
      (tag_unquoted : octet '"' ∉ tag) (props_plain : props.Plain)
      (children_plain : ∀ c ∈ children, Plain c) : Plain (.element tag props children)
  | text (value : Bytes) : Plain (.text value)
  | comment {value : Bytes} (closed : ¬ ascii "*/" <:+: value) : Plain (.comment value)

variable {limit : Nat}

/-- The markup of an element is one tag. -/
theorem markup?_element_eq_some {c : Context} {tag : Bytes} {props : Properties}
    {children : List Node} {ms : List Markup}
    (h : markup? limit c (.element tag props children) = some ms) :
    ∃ inner, markups? limit (c.enter tag) children = some inner ∧
      ms = [.tag tag c.tag props.normalize inner] := by
  rw [markup?] at h
  split at h
  · cases h
  · obtain ⟨inner, hinner, rfl⟩ := Option.map_eq_some_iff.1 h
    exact ⟨inner, hinner, rfl⟩

theorem markup?_text_eq_some {c : Context} {value : Bytes} {ms : List Markup}
    (h : markup? limit c (.text value) = some ms) : ms = [textMarkup c value] := by
  rw [markup?] at h
  split at h
  · cases h
  · exact (Option.some.inj h).symm

theorem markup?_comment_eq_some {c : Context} {value : Bytes} {ms : List Markup}
    (h : markup? limit c (.comment value) = some ms) : ms = [.comment value] := by
  rw [markup?] at h
  split at h
  · cases h
  · exact (Option.some.inj h).symm

/-- A text is written as a literal, or as it is if it is a newline. -/
theorem textMarkup_cases (c : Context) (value : Bytes) :
    textMarkup c value = .literal value ∨
      value = ascii "\n" ∧ textMarkup c value = .verbatim value := by
  rw [textMarkup]
  split
  · next h =>
    simp only [Bool.and_eq_true, beq_iff_eq] at h
    exact Or.inr ⟨h.1, rfl⟩
  · exact Or.inl rfl

/-- Nodes with plain markup each have plain markup together. -/
theorem markups?_plain_of {c : Context} {ns : List Node}
    (hns : ∀ n ∈ ns, ∀ ms, markup? limit c n = some ms → ∀ m ∈ ms, m.Plain) {ms : List Markup}
    (h : markups? limit c ns = some ms) : ∀ m ∈ ms, m.Plain := by
  induction ns generalizing ms with
  | nil =>
    cases h
    exact fun m hm => absurd hm List.not_mem_nil
  | cons n ns ih =>
    obtain ⟨front, back, hfront, hback, rfl⟩ := markups?_cons_eq_some h
    intro m hm
    rcases List.mem_append.1 hm with hm | hm
    · exact hns n List.mem_cons_self front hfront m hm
    · exact ih (fun k hk => hns k (List.mem_cons_of_mem n hk)) hback m hm

/-- The markup of a plain node is plain. By induction on the node. -/
theorem markup?_plain {n : Node} (hn : n.Plain) {c : Context} (hc : octet '"' ∉ c.tag)
    {ms : List Markup} (h : markup? limit c n = some ms) : ∀ m ∈ ms, m.Plain := by
  induction hn generalizing c ms with
  | element htag hprops hchildren ih =>
    obtain ⟨inner, hinner, rfl⟩ := markup?_element_eq_some h
    intro m hm
    obtain rfl := List.mem_singleton.1 hm
    rw [hprops.normal]
    exact .tag htag hc hprops
      (markups?_plain_of (fun k hk ms hms => ih k hk htag hms) hinner)
  | text value =>
    intro m hm
    rw [markup?_text_eq_some h] at hm
    obtain rfl := List.mem_singleton.1 hm
    rcases textMarkup_cases c value with htext | ⟨rfl, htext⟩
    · exact htext ▸ .literal value
    · exact htext ▸ .newline
  | comment hclosed =>
    intro m hm
    rw [markup?_comment_eq_some h] at hm
    obtain rfl := List.mem_singleton.1 hm
    exact .comment hclosed

/-- A plain node gives one piece of markup. -/
theorem markup?_eq_singleton {n : Node} (hn : n.Plain) {c : Context} {ms : List Markup}
    (h : markup? limit c n = some ms) : ∃ m, ms = [m] := by
  cases hn with
  | element =>
    obtain ⟨inner, -, rfl⟩ := markup?_element_eq_some h
    exact ⟨_, rfl⟩
  | text value => exact ⟨_, markup?_text_eq_some h⟩
  | comment => exact ⟨_, markup?_comment_eq_some h⟩

/-- Nodes that are each determined by their markup are so side by side. -/
theorem markups?_inj_of {c : Context} {ns : List Node}
    (hns : ∀ n ∈ ns, n.Plain ∧ ∀ n' ms, n'.Plain → markup? limit c n = some ms →
      markup? limit c n' = some ms → n = n')
    {ns' : List Node} (hns' : ∀ n ∈ ns', n.Plain) {ms : List Markup}
    (h : markups? limit c ns = some ms) (h' : markups? limit c ns' = some ms) : ns = ns' := by
  induction ns generalizing ns' ms with
  | nil =>
    cases ns' with
    | nil => rfl
    | cons n' ns' =>
      cases h
      obtain ⟨front, back, hfront, -, hms⟩ := markups?_cons_eq_some h'
      obtain ⟨m, rfl⟩ := markup?_eq_singleton (hns' n' List.mem_cons_self) hfront
      cases hms
  | cons n ns ih =>
    obtain ⟨front, back, hfront, hback, rfl⟩ := markups?_cons_eq_some h
    -- each node takes one piece, so the pieces line up with the nodes
    obtain ⟨m, rfl⟩ := markup?_eq_singleton (hns n List.mem_cons_self).1 hfront
    cases ns' with
    | nil => cases h'
    | cons n' ns' =>
      obtain ⟨front', back', hfront', hback', hms⟩ := markups?_cons_eq_some h'
      obtain ⟨m', rfl⟩ := markup?_eq_singleton (hns' n' List.mem_cons_self) hfront'
      obtain ⟨rfl, rfl⟩ := List.cons.inj hms
      rw [(hns n List.mem_cons_self).2 n' _ (hns' n' List.mem_cons_self) hfront hfront',
        ih (fun k hk => hns k (List.mem_cons_of_mem n hk))
          (fun k hk => hns' k (List.mem_cons_of_mem n' hk)) hback hback']

/-- A text is determined by its markup. -/
theorem textMarkup_inj {c : Context} {value value' : Bytes}
    (h : textMarkup c value = textMarkup c value') : value = value' := by
  rcases textMarkup_cases c value with hv | ⟨-, hv⟩ <;>
    rcases textMarkup_cases c value' with hv' | ⟨-, hv'⟩ <;>
    rw [hv, hv'] at h <;> cases h <;> rfl

theorem textMarkup_ne_comment (c : Context) (value value' : Bytes) :
    textMarkup c value ≠ .comment value' := by
  rcases textMarkup_cases c value with hv | ⟨-, hv⟩ <;> rw [hv] <;> nofun

theorem textMarkup_ne_tag (c : Context) (value name parent : Bytes) (props : Properties)
    (children : List Markup) : textMarkup c value ≠ .tag name parent props children := by
  rcases textMarkup_cases c value with hv | ⟨-, hv⟩ <;> rw [hv] <;> nofun

/-- A plain node is determined by its markup. -/
theorem markup?_inj {n : Node} (hn : n.Plain) {c : Context} :
    ∀ n' ms, n'.Plain → markup? limit c n = some ms → markup? limit c n' = some ms → n = n' := by
  induction hn generalizing c with
  | element htag hprops hchildren ih =>
    intro n' ms hn' h h'
    obtain ⟨inner, hinner, rfl⟩ := markup?_element_eq_some h
    cases hn' with
    | element htag' hprops' hchildren' =>
      obtain ⟨inner', hinner', hms⟩ := markup?_element_eq_some h'
      -- the properties are in normal form already, so the tag shows them as they are
      simp only [List.cons.injEq, Markup.tag.injEq, true_and, and_true, hprops.normal,
        hprops'.normal] at hms
      obtain ⟨rfl, rfl, rfl⟩ := hms
      rw [markups?_inj_of (fun k hk => ⟨hchildren k hk, ih k hk⟩) hchildren' hinner hinner']
    | text value =>
      exact absurd (List.cons.inj (markup?_text_eq_some h')).1.symm
        (textMarkup_ne_tag c value _ _ _ _)
    | comment => cases markup?_comment_eq_some h'
  | text value =>
    intro n' ms hn' h h'
    have hms := markup?_text_eq_some h
    cases hn' with
    | element =>
      obtain ⟨inner', -, hms'⟩ := markup?_element_eq_some h'
      exact absurd (List.cons.inj (hms.symm.trans hms')).1 (textMarkup_ne_tag c value _ _ _ _)
    | text value' =>
      rw [textMarkup_inj (List.cons.inj (hms.symm.trans (markup?_text_eq_some h'))).1]
    | comment =>
      exact absurd (List.cons.inj (hms.symm.trans (markup?_comment_eq_some h'))).1
        (textMarkup_ne_comment c value _)
  | comment hclosed =>
    intro n' ms hn' h h'
    have hms := markup?_comment_eq_some h
    cases hn' with
    | element =>
      obtain ⟨inner', -, hms'⟩ := markup?_element_eq_some h'
      cases hms.symm.trans hms'
    | text value' =>
      exact absurd (List.cons.inj (hms.symm.trans (markup?_text_eq_some h'))).1.symm
        (textMarkup_ne_comment c value' _)
    | comment =>
      cases hms.symm.trans (markup?_comment_eq_some h')
      rfl

end Node

/-! ## Documents from their modules -/

namespace Document

/-- A document of elements, texts and comments alone. -/
def Plain (d : Document) : Prop := ∀ n ∈ d.children, n.Plain

theorem Plain.imports_eq {d : Document} (h : d.Plain) : d.imports = [] := by
  refine List.filterMap_eq_nil_iff.2 fun n hn => ?_
  cases h n hn <;> rfl

theorem Plain.exports_eq {d : Document} (h : d.Plain) : d.exports = [] := by
  refine List.filterMap_eq_nil_iff.2 fun n hn => ?_
  cases h n hn <;> rfl

theorem Plain.content_eq {d : Document} (h : d.Plain) : d.content = d.children := by
  refine List.filter_eq_self.2 fun n hn => ?_
  cases h n hn <;> rfl

/-- What stands around the body of a module does not depend on the body. -/
theorem texts_eq_of_moduleText {d : Document} {o : CompileOptions} {body body' : List Markup}
    (h : d.moduleText o body = d.moduleText o body') : Markup.texts body = Markup.texts body' := by
  rw [moduleText, moduleText] at h
  have hbody := List.append_cancel_left h
  -- a body may end in a newline and its end begins with one, so the end is cut off from behind
  rw [Markup.textsBefore_eq_texts_append, Markup.textsBefore_eq_texts_append] at hbody
  exact List.append_cancel_right hbody

/-- Around the bodies of plain documents the module is the same. -/
theorem texts_eq_of_moduleText_eq {d d' : Document} (hd : d.Plain) (hd' : d'.Plain)
    {o : CompileOptions} {body body' : List Markup}
    (h : d.moduleText o body = d'.moduleText o body') : Markup.texts body = Markup.texts body' := by
  have himports : d.imports = d'.imports := by rw [hd.imports_eq, hd'.imports_eq]
  have hexports : d.exports = d'.exports := by rw [hd.exports_eq, hd'.exports_eq]
  rw [moduleText_congr himports hexports] at h
  exact texts_eq_of_moduleText h

/-- **A module determines its document.** Texts hold any bytes, and what is nested is nested to any
depth. -/
theorem compile_injective {o : CompileOptions} {d d' : Document} (hd : d.Plain) (hd' : d'.Plain)
    {text : Bytes} (h : d.compile o = .ok text) (h' : d'.compile o = .ok text) : d = d' := by
  obtain ⟨-, body, hbody, htext⟩ := compile_eq_ok_iff.1 h
  obtain ⟨-, body', hbody', htext'⟩ := compile_eq_ok_iff.1 h'
  have htexts := texts_eq_of_moduleText_eq hd hd' (htext.symm.trans htext')
  rw [hd.content_eq] at hbody
  rw [hd'.content_eq] at hbody'
  -- around the content there is no element
  have htop : octet '"' ∉ o.context.tag := List.not_mem_nil
  have hplain :=
    Node.markups?_plain_of (fun n hn _ hms => Node.markup?_plain (hd n hn) htop hms) hbody
  have hplain' :=
    Node.markups?_plain_of (fun n hn _ hms => Node.markup?_plain (hd' n hn) htop hms) hbody'
  -- one text, so one markup, so one document
  rw [← Markup.texts_inj hplain hplain' htexts] at hbody'
  have hchildren := Node.markups?_inj_of
    (fun n hn => ⟨hd n hn, Node.markup?_inj (hd n hn)⟩) hd' hbody hbody'
  obtain ⟨children⟩ := d
  obtain ⟨children'⟩ := d'
  exact congrArg Document.mk hchildren

/-- A text and a property that look like the end of a tag, and a comment that ends in a star. -/
def disguised : Document :=
  ⟨[.element (ascii "p") [⟨ascii "title", .string (ascii "\"\x7d>")⟩]
    [.text (ascii "`\x7d</MDXTag>"), .comment (ascii "*")]]⟩

/-- The document and its normal form have one module, and so are the same. -/
theorem compile_injective_disguised :
    (∃ text, disguised.compile {} = .ok text ∧ disguised.normalize.compile {} = .ok text) ∧
      disguised = disguised.normalize := by
  have hplain : disguised.Plain := by
    intro n hn
    obtain rfl := List.mem_singleton.1 hn
    refine .element (by decide) ⟨by decide +kernel, by simp [Value.Plain]⟩ fun c hc => ?_
    simp only [List.mem_cons, List.not_mem_nil, or_false] at hc
    rcases hc with rfl | rfl
    · exact .text _
    · exact .comment (by decide)
  have hplain' : disguised.normalize.Plain := hplain
  obtain ⟨text, h⟩ : ∃ text, disguised.compile {} = .ok text := ⟨_, rfl⟩
  have h' : disguised.normalize.compile {} = .ok text := h
  exact ⟨⟨text, h, h'⟩, compile_injective hplain hplain' h h'⟩

end Document

end DocTree
