import DocTree.Proofs.Preview.Attributes

/-!
# The preview as a stream of events

The text of a preview is read as the tree it was made from: tokenizing it gives the start tags,
texts and end tags of the tree in depth-first order (`Document.tokenize_render`). So no text and no
attribute value is ever taken for markup.

The tokenizer is followed through the tree. Between two pieces of HTML it stands in a text, and what
a piece does to it is what its events do (`Tokenizer.feed`); that adjacent texts come out as one
text is a matter of the events alone (`flush_foldl_feed`).
-/

namespace DocTree

open Html (Event Tokenizer isTagName isAttributeName textsBefore)

/-! ## The events of a tree -/

/-- Elements and texts, with tags and property names made of letters, digits and hyphens, and texts
and values of any bytes but zero. -/
inductive Node.Showable : Node → Prop where
  /-- A text. -/
  | text {value : Bytes} : 0 ∉ value → Showable (.text value)
  /-- An element that is not void. -/
  | element {tag : Bytes} {props : Properties} {children : List Node} :
      isTagName tag = true → tag ∉ Html.voidNames →
      (∀ p ∈ props, isAttributeName p.name = true ∧ p.value.ZeroFree) →
      (∀ c ∈ children, Showable c) → Showable (.element tag props children)

namespace Node

mutual

/-- The events of a node: an element, its attributes and its children come in this order. -/
def events : Node → List Event
  | .text value => [.text value]
  | .element tag props children =>
    .opening tag props.attributes :: (eventsAll children ++ [.closing tag])
  | _ => []

/-- The events of nodes that stand side by side. -/
def eventsAll : List Node → List Event
  | [] => []
  | n :: ns => events n ++ eventsAll ns

end

end Node

/-- An event in front of others. A text becomes one with a text behind it, and an empty text is not
seen. -/
def Html.Event.before : Event → List Event → List Event
  | .text [], es => es
  | .text (b :: s), .text t :: es => .text (b :: s ++ t) :: es
  | e, es => e :: es

/-- The events of a document, with adjacent texts as one. -/
def Document.events (d : Document) : List Event :=
  (Node.eventsAll d.children).foldr Event.before []

/-! ## Events and the tokenizer -/

namespace Html

theorem Event.before_opening (tag : Bytes) (attributes : List (Bytes × Option Bytes))
    (es : List Event) :
    (Event.opening tag attributes).before es = .opening tag attributes :: es := by
  cases es <;> rfl

theorem Event.before_closing (tag : Bytes) (es : List Event) :
    (Event.closing tag).before es = .closing tag :: es := by
  cases es <;> rfl

/-- Texts that stand side by side are one text. -/
theorem Event.before_text_append (s t : Bytes) (es : List Event) :
    (Event.text (s ++ t)).before es = (Event.text s).before ((Event.text t).before es) := by
  rcases s with _ | ⟨b, s⟩
  · rfl
  rcases t with _ | ⟨c, t⟩
  · simp [Event.before]
  rcases es with _ | ⟨e, es⟩
  · simp [Event.before]
  cases e <;> simp [Event.before]

namespace Tokenizer

/-- A tokenizer in a text: its events, and the text so far with the last byte first. -/
def inText (state : List Event × Bytes) : Tokenizer := ⟨state.1, .data state.2⟩

/-- What an event does to a tokenizer in a text. -/
def feed (state : List Event × Bytes) : Event → List Event × Bytes
  | .text value => (state.1, value.reverse ++ state.2)
  | e => (e :: flush state.1 state.2, [])

/-- A text that is over goes in front of an event that is no text. -/
theorem reverse_flush (events : List Event) (seen : Bytes) (es : List Event)
    (h : ∀ t rest, es ≠ .text t :: rest) :
    (flush events seen).reverse ++ es = events.reverse ++ (Event.text seen.reverse).before es := by
  cases seen with
  | nil => rfl
  | cons b seen =>
    have hne : (b :: seen).reverse ≠ [] := by simp
    obtain ⟨c, s, hs⟩ := List.exists_cons_of_ne_nil hne
    rw [hs]
    rcases es with _ | ⟨e, es⟩
    · simp [flush, hs, Event.before]
    · cases e with
      | text t => exact absurd rfl (h t es)
      | opening tag attributes => simp [flush, hs, Event.before]
      | closing tag => simp [flush, hs, Event.before]

/-- A tokenizer that is fed events has seen them with adjacent texts as one. By induction on the
events. -/
theorem flush_foldl_feed (es : List Event) (state : List Event × Bytes) :
    (flush (es.foldl feed state).1 (es.foldl feed state).2).reverse =
      state.1.reverse ++ (Event.text state.2.reverse).before (es.foldr Event.before []) := by
  induction es generalizing state with
  | nil => simpa using reverse_flush state.1 state.2 [] (by simp)
  | cons e es ih =>
    rw [List.foldl_cons, ih, List.foldr_cons]
    cases e with
    | text value =>
      -- the text goes on with the one before it
      rw [← Event.before_text_append]
      simp [feed]
    | opening tag attributes =>
      -- a tag ends the text before it
      rw [Event.before_opening,
        ← reverse_flush state.1 state.2 (.opening tag attributes :: es.foldr Event.before [])
          (by simp)]
      simp [feed, Event.before]
    | closing tag =>
      rw [Event.before_closing,
        ← reverse_flush state.1 state.2 (.closing tag :: es.foldr Event.before []) (by simp)]
      simp [feed, Event.before]

end Tokenizer

/-- Pieces side by side are written one behind the other. -/
theorem textsBefore_append (hs hs' : List Html) (rest : Bytes) :
    textsBefore (hs ++ hs') rest = textsBefore hs (textsBefore hs' rest) := by
  induction hs with
  | nil => rfl
  | cons h hs ih => simp [textsBefore, ih]

end Html

/-! ## Following the tree -/

namespace Node

open Html.Tokenizer (inText feed run_append_of)

/-- What holds of each node holds of nodes side by side. -/
theorem run_htmls_of {nodes : List Node}
    (h : ∀ n ∈ nodes, ∀ state rest, (inText state).run (textsBefore n.html rest) =
      (inText (n.events.foldl feed state)).run rest) (state : List Event × Bytes) (rest : Bytes) :
    (inText state).run (textsBefore (htmls nodes) rest) =
      (inText ((eventsAll nodes).foldl feed state)).run rest := by
  induction nodes generalizing state with
  | nil => rfl
  | cons n nodes ih =>
    rw [htmls, Html.textsBefore_append, h n List.mem_cons_self,
      ih fun n hn => h n (List.mem_cons_of_mem _ hn), eventsAll, List.foldl_append]

/-- What the HTML of a node does to the tokenizer is what its events do. By induction on the
tree. -/
theorem Showable.run_html {n : Node} (h : n.Showable) (state : List Event × Bytes) (rest : Bytes) :
    (inText state).run (textsBefore n.html rest) =
      (inText (n.events.foldl feed state)).run rest := by
  induction h generalizing state rest with
  | @text value hvalue =>
    have htext : textsBefore (html (.text value)) rest = Html.escaped value ++ rest := by
      simp [html, textsBefore, Html.textBefore]
    rw [htext, inText, run_append_of (Tokenizer.run_escaped_data hvalue state.2)]
    rfl
  | @element tag props children htag hvoid hprops _ ih =>
    have htext : textsBefore (html (.element tag props children)) rest =
        Html.openTag tag props.attributes ++
          textsBefore (htmls children) (ascii "</" ++ (tag ++ (ascii ">" ++ rest))) := by
      simp [html, textsBefore, Html.textBefore, Properties.filterMap_htmlAttribute?, hvoid]
    -- the opening tag is read whole, the children by induction, and the closing tag whole
    have hopen : (inText state).run (Html.openTag tag props.attributes) =
        some (inText (feed state (.opening tag props.attributes))) :=
      Tokenizer.run_openTag htag (Properties.isPlain_of_mem_attributes hprops)
    rw [htext, run_append_of hopen, run_htmls_of ih, inText, Tokenizer.run_closeTag htag]
    simp only [events, List.foldl_cons, List.foldl_append, List.foldl_nil]
    rfl

end Node

/-- **The preview cannot be broken out of.** Read as HTML, the preview of a forest of elements and
texts is the depth-first stream of its tags and texts, whatever bytes the texts and the attribute
values hold. -/
theorem Document.tokenize_render {d : Document} (h : ∀ n ∈ d.children, n.Showable) :
    Html.tokenize d.render = some d.events := by
  have hrun := Node.run_htmls_of (fun n hn => (h n hn).run_html) ([], []) []
  have hseen := Tokenizer.flush_foldl_feed (Node.eventsAll d.children) ([], [])
  calc Html.tokenize d.render
      = ((Tokenizer.inText ([], [])).run (textsBefore (Node.htmls d.children) [])).bind
          Tokenizer.finish? := rfl
    _ = (Tokenizer.inText ((Node.eventsAll d.children).foldl Tokenizer.feed ([], []))).finish? := by
        rw [hrun]
        rfl
    _ = some d.events := congrArg some hseen

/-- Texts and values that look like markup, and properties that are renamed, joined and left out. -/
theorem Document.tokenize_render_disguised : ∃ d : Document,
    d.children = [.text (ascii "1 <"), .text (ascii " 2"),
      .element (ascii "p")
        [⟨ascii "className", .list [ascii "a\">", ascii "</p>"]⟩, ⟨ascii "ariaHidden", .bool true⟩,
          ⟨ascii "open", .bool false⟩, ⟨ascii "style", .string (ascii "color: \"red\" ;")⟩]
        [.text [], .text (ascii "</p>&lt;")]] ∧
    (∀ n ∈ d.children, n.Showable) ∧
    Html.tokenize d.render = some [.text (ascii "1 < 2"),
      .opening (ascii "p") [(ascii "class", some (ascii "a\"> </p>")), (ascii "aria-hidden", none),
        (ascii "style", some (ascii "color:\"red\""))],
      .text (ascii "</p>&lt;"), .closing (ascii "p")] := by
  refine ⟨⟨_⟩, rfl, ?shown, (Document.tokenize_render ?shown).trans ?_⟩
  case shown =>
    have hchildren : ∀ c ∈ [Node.text [], .text (ascii "</p>&lt;")], c.Showable := by
      simp only [List.forall_mem_cons]
      exact ⟨.text (by decide), .text (by decide), by simp⟩
    simp only [List.forall_mem_cons]
    exact ⟨.text (by decide), .text (by decide),
      .element rfl (by decide) (by decide) hchildren, by simp⟩
  · decide +kernel

end DocTree
