import DocTree.Preview
import Mathlib.Tactic.SplitIfs

/-!
# Reading HTML back

A tokenizer of HTML, as a machine that takes one byte at a time. It knows start tags with bare and
with double-quoted attributes, texts, end tags, and the five character references that stand for
bytes with a meaning; anything else it refuses.

On the texts that `Html` writes the machine goes where it should: a text and an attribute value come
back as they were (`run_escaped_data`, `run_escaped_value`), whatever their bytes, and so do tags
(`run_openTag`, `run_closeTag`). Only the zero byte is lost in writing.
-/

namespace DocTree.Html

/-! ## The tokenizer -/

/-- What a reader of HTML sees. -/
inductive Event where
  /-- A start tag with its attributes. -/
  | opening (tag : Bytes) (attributes : List (Bytes × Option Bytes))
  /-- A text. -/
  | text (value : Bytes)
  /-- An end tag. -/
  | closing (tag : Bytes)
  deriving DecidableEq, Repr

/-- Is `b` an ASCII letter? -/
def isLetter (b : UInt8) : Bool :=
  (octet 'a' ≤ b && b ≤ octet 'z') || (octet 'A' ≤ b && b ≤ octet 'Z')

/-- Is `b` an ASCII letter, a digit or a hyphen? -/
def isNameByte (b : UInt8) : Bool :=
  isLetter b || (octet '0' ≤ b && b ≤ octet '9') || b == octet '-'

/-- The byte that a character reference stands for, by the text between `&` and `;`. -/
def referenced? (name : Bytes) : Option UInt8 :=
  if name == ascii "#34" then some (octet '"')
  else if name == ascii "#39" then some (octet '\'')
  else if name == ascii "amp" then some (octet '&')
  else if name == ascii "lt" then some (octet '<')
  else if name == ascii "gt" then some (octet '>')
  else none

/-- Where a tokenizer stands. Texts and lists that are being read have their last item first. -/
inductive Mode where
  /-- In a text. -/
  | data (seen : Bytes)
  /-- In a character reference of a text. -/
  | dataReference (seen name : Bytes)
  /-- Behind `<`. -/
  | tagOpen
  /-- In the name of a start tag. -/
  | tagName (tag : Bytes)
  /-- Behind a blank in a start tag. -/
  | beforeAttribute (tag : Bytes) (attributes : List (Bytes × Option Bytes))
  /-- In the name of an attribute. -/
  | attributeName (tag : Bytes) (attributes : List (Bytes × Option Bytes)) (name : Bytes)
  /-- Behind the equals sign of an attribute. -/
  | beforeValue (tag : Bytes) (attributes : List (Bytes × Option Bytes)) (name : Bytes)
  /-- In the value of an attribute. -/
  | value (tag : Bytes) (attributes : List (Bytes × Option Bytes)) (name seen : Bytes)
  /-- In a character reference of an attribute value. -/
  | valueReference (tag : Bytes) (attributes : List (Bytes × Option Bytes)) (name seen ref : Bytes)
  /-- Behind the closing quote of an attribute value. -/
  | afterValue (tag : Bytes) (attributes : List (Bytes × Option Bytes))
  /-- Behind `</`. -/
  | endOpen
  /-- In the name of an end tag. -/
  | endName (tag : Bytes)
  deriving DecidableEq, Repr

/-- A tokenizer: what it has seen, the last event first, and where it stands. -/
structure Tokenizer where
  /-- The events. -/
  events : List Event
  /-- The place. -/
  mode : Mode
  deriving DecidableEq, Repr

namespace Tokenizer

/-- The events with a text that is over behind them. An empty text is not seen. -/
def flush (events : List Event) (seen : Bytes) : List Event :=
  if seen.isEmpty then events else .text seen.reverse :: events

/-- The tokenizer behind one more byte. -/
def step (t : Tokenizer) (b : UInt8) : Option Tokenizer :=
  match t.mode with
  | .data seen =>
    if b == octet '<' then some ⟨flush t.events seen, .tagOpen⟩
    else if b == octet '&' then some ⟨t.events, .dataReference seen []⟩
    else some ⟨t.events, .data (b :: seen)⟩
  | .dataReference seen name =>
    if b == octet ';' then
      (referenced? name.reverse).map fun c => ⟨t.events, .data (c :: seen)⟩
    else some ⟨t.events, .dataReference seen (b :: name)⟩
  | .tagOpen =>
    if b == octet '/' then some ⟨t.events, .endOpen⟩
    else if isLetter b then some ⟨t.events, .tagName [b]⟩
    else none
  | .tagName tag =>
    if b == octet ' ' then some ⟨t.events, .beforeAttribute tag []⟩
    else if b == octet '>' then some ⟨.opening tag.reverse [] :: t.events, .data []⟩
    else if isNameByte b then some ⟨t.events, .tagName (b :: tag)⟩
    else none
  | .beforeAttribute tag attributes =>
    if isNameByte b then some ⟨t.events, .attributeName tag attributes [b]⟩ else none
  | .attributeName tag attributes name =>
    if b == octet '=' then some ⟨t.events, .beforeValue tag attributes name⟩
    else if b == octet ' ' then
      some ⟨t.events, .beforeAttribute tag ((name.reverse, none) :: attributes)⟩
    else if b == octet '>' then
      some ⟨.opening tag.reverse ((name.reverse, none) :: attributes).reverse :: t.events, .data []⟩
    else if isNameByte b then some ⟨t.events, .attributeName tag attributes (b :: name)⟩
    else none
  | .beforeValue tag attributes name =>
    if b == octet '"' then some ⟨t.events, .value tag attributes name []⟩ else none
  | .value tag attributes name seen =>
    if b == octet '"' then
      some ⟨t.events, .afterValue tag ((name.reverse, some seen.reverse) :: attributes)⟩
    else if b == octet '&' then some ⟨t.events, .valueReference tag attributes name seen []⟩
    else some ⟨t.events, .value tag attributes name (b :: seen)⟩
  | .valueReference tag attributes name seen ref =>
    if b == octet ';' then
      (referenced? ref.reverse).map fun c => ⟨t.events, .value tag attributes name (c :: seen)⟩
    else some ⟨t.events, .valueReference tag attributes name seen (b :: ref)⟩
  | .afterValue tag attributes =>
    if b == octet ' ' then some ⟨t.events, .beforeAttribute tag attributes⟩
    else if b == octet '>' then some ⟨.opening tag.reverse attributes.reverse :: t.events, .data []⟩
    else none
  | .endOpen => if isLetter b then some ⟨t.events, .endName [b]⟩ else none
  | .endName tag =>
    if b == octet '>' then some ⟨.closing tag.reverse :: t.events, .data []⟩
    else if isNameByte b then some ⟨t.events, .endName (b :: tag)⟩
    else none

/-- The tokenizer behind some more bytes. -/
def run (t : Tokenizer) (s : Bytes) : Option Tokenizer := s.foldlM step t

/-- The events of a text that is over. -/
def finish? (t : Tokenizer) : Option (List Event) :=
  match t.mode with
  | .data seen => some (flush t.events seen).reverse
  | _ => none

end Tokenizer

/-- The events of a text, if it is one that the tokenizer knows. -/
def tokenize (s : Bytes) : Option (List Event) :=
  ((⟨[], .data []⟩ : Tokenizer).run s).bind Tokenizer.finish?

/-! ## Runs -/

namespace Tokenizer

@[simp] theorem run_nil (t : Tokenizer) : t.run [] = some t := rfl

/-- A run goes on where it stopped. -/
theorem run_append_of {t t' : Tokenizer} {s : Bytes} (h : t.run s = some t') (s' : Bytes) :
    t.run (s ++ s') = t'.run s' := by
  simp only [run, List.foldlM_append] at h ⊢
  rw [h]
  rfl

theorem run_cons_of {t t' : Tokenizer} {b : UInt8} (h : t.step b = some t') (s : Bytes) :
    t.run (b :: s) = t'.run s := by
  simp only [run, List.foldlM_cons]
  rw [h]
  rfl

variable {events : List Event}

/-- Bytes that a mode takes in are taken in one after another. -/
theorem run_collect {mode : Bytes → Mode} {p : UInt8 → Prop}
    (hstep : ∀ seen b, p b → step ⟨events, mode seen⟩ b = some ⟨events, mode (b :: seen)⟩)
    {s : Bytes} (hs : ∀ b ∈ s, p b) (seen : Bytes) :
    run ⟨events, mode seen⟩ s = some ⟨events, mode (s.reverse ++ seen)⟩ := by
  induction s generalizing seen with
  | nil => rfl
  | cons b s ih =>
    rw [run_cons_of (hstep seen b (hs b List.mem_cons_self)),
      ih fun c hc => hs c (List.mem_cons_of_mem b hc)]
    simp

/-! ## Escaped texts -/

/-- The bytes that are written as references. -/
theorem escape?_eq_some {b : UInt8} {ref : Bytes} (hb : b ≠ 0) (h : escape? b = some ref) :
    ∃ name, ref = octet '&' :: (name ++ [octet ';']) ∧ referenced? name = some b ∧
      ∀ c ∈ name, c ≠ octet ';' := by
  unfold escape? at h
  -- one case for each byte that is escaped
  split_ifs at h with h₀ h₁ h₂ h₃ h₄ h₅
  · exact absurd (eq_of_beq h₀) hb
  · obtain rfl := eq_of_beq h₁
    exact ⟨ascii "#34", (Option.some.inj h).symm, rfl, List.forall_mem_ne'.2 (by decide)⟩
  · obtain rfl := eq_of_beq h₂
    exact ⟨ascii "#39", (Option.some.inj h).symm, rfl, List.forall_mem_ne'.2 (by decide)⟩
  · obtain rfl := eq_of_beq h₃
    exact ⟨ascii "amp", (Option.some.inj h).symm, rfl, List.forall_mem_ne'.2 (by decide)⟩
  · obtain rfl := eq_of_beq h₄
    exact ⟨ascii "lt", (Option.some.inj h).symm, rfl, List.forall_mem_ne'.2 (by decide)⟩
  · obtain rfl := eq_of_beq h₅
    exact ⟨ascii "gt", (Option.some.inj h).symm, rfl, List.forall_mem_ne'.2 (by decide)⟩

/-- A byte that is written as it is has no meaning in a text or a value. -/
theorem ne_of_escape?_eq_none {b : UInt8} (h : escape? b = none) :
    b ≠ octet '"' ∧ b ≠ octet '&' ∧ b ≠ octet '<' := by
  refine ⟨?_, ?_, ?_⟩ <;> rintro rfl <;> cases h

/-- Escaped bytes come back one by one, in every mode that takes in the bytes without a meaning and
has a mode for references. -/
theorem run_escaped {mode : Bytes → Mode} (inside : Bytes → Bytes → Mode)
    (hself : ∀ seen b, escape? b = none →
      step ⟨events, mode seen⟩ b = some ⟨events, mode (b :: seen)⟩)
    (henter : ∀ seen, step ⟨events, mode seen⟩ (octet '&') = some ⟨events, inside seen []⟩)
    (hinside : ∀ seen name b, b ≠ octet ';' →
      step ⟨events, inside seen name⟩ b = some ⟨events, inside seen (b :: name)⟩)
    (hleave : ∀ seen name b, referenced? name.reverse = some b →
      step ⟨events, inside seen name⟩ (octet ';') = some ⟨events, mode (b :: seen)⟩) {s : Bytes}
    (h : 0 ∉ s) (seen : Bytes) :
    run ⟨events, mode seen⟩ (escaped s) = some ⟨events, mode (s.reverse ++ seen)⟩ := by
  induction s generalizing seen with
  | nil => rfl
  | cons b s ih =>
    obtain ⟨hb, hs⟩ : 0 ≠ b ∧ 0 ∉ s := by simpa using h
    -- one byte comes back, from itself or from its reference
    have hbyte : run ⟨events, mode seen⟩ ((escape? b).getD [b]) =
        some ⟨events, mode (b :: seen)⟩ := by
      cases hescape : escape? b with
      | none => exact (run_cons_of (hself seen b hescape) []).trans rfl
      | some ref =>
        obtain ⟨name, rfl, hname, hsemicolon⟩ := escape?_eq_some hb.symm hescape
        have hcollect := run_collect (hinside seen) hsemicolon []
        rw [Option.getD_some, run_cons_of (henter seen), run_append_of hcollect]
        exact (run_cons_of (hleave seen _ b (by simpa using hname)) []).trans rfl
    have hsplit : escaped (b :: s) = (escape? b).getD [b] ++ escaped s := rfl
    rw [hsplit, run_append_of hbyte, ih hs]
    simp

/-- **A text comes back as it was.** -/
theorem run_escaped_data {s : Bytes} (h : 0 ∉ s) (seen : Bytes) :
    run ⟨events, .data seen⟩ (escaped s) = some ⟨events, .data (s.reverse ++ seen)⟩ := by
  refine run_escaped .dataReference ?_ ?_ ?_ ?_ h seen
  · intro seen b hb
    obtain ⟨-, hamp, hlt⟩ := ne_of_escape?_eq_none hb
    simp [step, hamp, hlt]
  · intro seen
    rfl
  · intro seen name b hb
    simp [step, hb]
  · intro seen name b hname
    simp [step, hname]

/-- **An attribute value comes back as it was.** -/
theorem run_escaped_value {tag name : Bytes} {attributes : List (Bytes × Option Bytes)} {s : Bytes}
    (h : 0 ∉ s) (seen : Bytes) :
    run ⟨events, .value tag attributes name seen⟩ (escaped s) =
      some ⟨events, .value tag attributes name (s.reverse ++ seen)⟩ := by
  refine run_escaped (.valueReference tag attributes name) ?_ ?_ ?_ ?_ h seen
  · intro seen b hb
    obtain ⟨hquote, hamp, -⟩ := ne_of_escape?_eq_none hb
    simp [step, hamp, hquote]
  · intro seen
    rfl
  · intro seen name b hb
    simp [step, hb]
  · intro seen name b hname
    simp [step, hname]

end Tokenizer

/-! ## Tags -/

/-- Is the text the name of a tag: a letter, and then letters, digits and hyphens? -/
def isTagName : Bytes → Bool
  | [] => false
  | b :: rest => isLetter b && rest.all isNameByte

/-- Is the text the name of an attribute: letters, digits and hyphens, at least one of them? -/
def isAttributeName : Bytes → Bool
  | [] => false
  | b :: rest => isNameByte b && rest.all isNameByte

/-- An attribute that comes back as it was. -/
def IsPlain (a : Bytes × Option Bytes) : Prop := isAttributeName a.1 = true ∧ ∀ v ∈ a.2, 0 ∉ v

theorem ne_of_isNameByte {b c : UInt8} (hb : isNameByte b = true) (hc : isNameByte c = false) :
    b ≠ c := by
  rintro rfl
  rw [hb] at hc
  cases hc

namespace Tokenizer

variable {events : List Event}

theorem run_tagName {s : Bytes} (h : ∀ b ∈ s, isNameByte b = true) (tag : Bytes) :
    run ⟨events, .tagName tag⟩ s = some ⟨events, .tagName (s.reverse ++ tag)⟩ := by
  refine run_collect (fun tag b hb => ?_) h tag
  simp [step, hb, ne_of_isNameByte hb (c := octet ' ') rfl,
    ne_of_isNameByte hb (c := octet '>') rfl]

theorem run_attributeName {tag : Bytes} {attributes : List (Bytes × Option Bytes)} {s : Bytes}
    (h : ∀ b ∈ s, isNameByte b = true) (name : Bytes) :
    run ⟨events, .attributeName tag attributes name⟩ s =
      some ⟨events, .attributeName tag attributes (s.reverse ++ name)⟩ := by
  refine run_collect (fun name b hb => ?_) h name
  simp [step, hb, ne_of_isNameByte hb (c := octet ' ') rfl,
    ne_of_isNameByte hb (c := octet '>') rfl, ne_of_isNameByte hb (c := octet '=') rfl]

theorem run_endName {s : Bytes} (h : ∀ b ∈ s, isNameByte b = true) (tag : Bytes) :
    run ⟨events, .endName tag⟩ s = some ⟨events, .endName (s.reverse ++ tag)⟩ := by
  refine run_collect (fun tag b hb => ?_) h tag
  simp [step, hb, ne_of_isNameByte hb (c := octet '>') rfl]

/-- A place in a start tag at which the name and some attributes are complete: a blank or the end of
the tag may follow. -/
inductive Complete (tag : Bytes) : List (Bytes × Option Bytes) → Mode → Prop where
  /-- Behind the name of the tag. -/
  | name : Complete tag [] (.tagName tag)
  /-- Behind the name of an attribute. -/
  | bare {attributes : List (Bytes × Option Bytes)} {name : Bytes} :
      Complete tag ((name.reverse, none) :: attributes) (.attributeName tag attributes name)
  /-- Behind the value of an attribute. -/
  | value {attributes : List (Bytes × Option Bytes)} :
      Complete tag attributes (.afterValue tag attributes)

variable {tag : Bytes} {attributes : List (Bytes × Option Bytes)} {mode : Mode}

theorem Complete.step_blank (h : Complete tag attributes mode) :
    step ⟨events, mode⟩ (octet ' ') = some ⟨events, .beforeAttribute tag attributes⟩ := by
  cases h <;> rfl

/-- The end of the tag is one event. -/
theorem Complete.step_end (h : Complete tag attributes mode) :
    step ⟨events, mode⟩ (octet '>') =
      some ⟨.opening tag.reverse attributes.reverse :: events, .data []⟩ := by
  cases h <;> rfl

/-- One attribute more is read. -/
theorem Complete.run_attribute (h : Complete tag attributes mode) {a : Bytes × Option Bytes}
    (ha : IsPlain a) (events : List Event) :
    ∃ mode', Complete tag (a :: attributes) mode' ∧
      run ⟨events, mode⟩ (attributeText a) = some ⟨events, mode'⟩ := by
  obtain ⟨name, v⟩ := a
  obtain ⟨hname, hv⟩ := ha
  cases name with
  | nil => cases hname
  | cons b name =>
    obtain ⟨hb, hrest⟩ : isNameByte b = true ∧ ∀ c ∈ name, isNameByte c = true := by
      simpa [isAttributeName] using hname
    have hfirst : step ⟨events, .beforeAttribute tag attributes⟩ b =
        some ⟨events, .attributeName tag attributes [b]⟩ := by
      simp [step, hb]
    -- the blank, the first byte of the name and the others
    have hread : run ⟨events, mode⟩ (octet ' ' :: (b :: name)) =
        some ⟨events, .attributeName tag attributes (b :: name).reverse⟩ := by
      rw [run_cons_of h.step_blank, run_cons_of hfirst, run_attributeName hrest]
      simp
    cases v with
    | none =>
      have hcomplete : Complete tag (((b :: name).reverse.reverse, none) :: attributes)
          (.attributeName tag attributes (b :: name).reverse) := .bare
      rw [List.reverse_reverse] at hcomplete
      exact ⟨_, hcomplete, hread⟩
    | some v =>
      refine ⟨_, .value, ?_⟩
      have hopen : run ⟨events, .attributeName tag attributes (b :: name).reverse⟩ (ascii "=\"") =
          some ⟨events, .value tag attributes (b :: name).reverse []⟩ := rfl
      -- the value comes back, and the quote behind it ends it
      have hvalue : run ⟨events, .value tag attributes (b :: name).reverse []⟩ (escaped v) =
          some ⟨events, .value tag attributes (b :: name).reverse (v.reverse ++ [])⟩ :=
        run_escaped_value (hv v rfl) []
      have htext : attributeText (b :: name, some v) =
          (octet ' ' :: (b :: name)) ++ (ascii "=\"" ++ (escaped v ++ ascii "\"")) := by
        simp [attributeText]
      rw [htext, run_append_of hread, run_append_of hopen, run_append_of hvalue]
      simp [run, ascii, octet, step]

/-- By induction on the attributes. -/
theorem Complete.run_attributes (h : Complete tag attributes mode)
    {more : List (Bytes × Option Bytes)} (hmore : ∀ a ∈ more, IsPlain a) (events : List Event) :
    ∃ mode', Complete tag (more.reverse ++ attributes) mode' ∧
      run ⟨events, mode⟩ (more.flatMap attributeText) = some ⟨events, mode'⟩ := by
  induction more generalizing attributes mode with
  | nil => exact ⟨mode, h, rfl⟩
  | cons a more ih =>
    obtain ⟨mode₁, h₁, hrun₁⟩ := h.run_attribute (hmore a List.mem_cons_self) events
    obtain ⟨mode₂, h₂, hrun₂⟩ := ih h₁ fun a ha => hmore a (List.mem_cons_of_mem _ ha)
    refine ⟨mode₂, by simpa using h₂, ?_⟩
    rw [List.flatMap_cons, run_append_of hrun₁, hrun₂]

/-- **A start tag comes back as it was.** -/
theorem run_openTag {name seen : Bytes} (hname : isTagName name = true)
    (hplain : ∀ a ∈ attributes, IsPlain a) :
    run ⟨events, .data seen⟩ (openTag name attributes) =
      some ⟨.opening name attributes :: flush events seen, .data []⟩ := by
  cases name with
  | nil => cases hname
  | cons b name =>
    obtain ⟨hb, hrest⟩ : isLetter b = true ∧ ∀ c ∈ name, isNameByte c = true := by
      simpa [isTagName] using hname
    -- a letter does not begin an end tag
    have hslash : b ≠ octet '/' := by
      rintro rfl
      cases hb
    have hless : step ⟨events, .data seen⟩ (octet '<') = some ⟨flush events seen, .tagOpen⟩ := rfl
    have hfirst : step ⟨flush events seen, .tagOpen⟩ b =
        some ⟨flush events seen, .tagName [b]⟩ := by
      simp [step, hb, hslash]
    have hstart : Complete (name.reverse ++ [b]) [] (.tagName (name.reverse ++ [b])) := .name
    -- behind the name and all attributes the tag may end
    obtain ⟨mode, hcomplete, hrun⟩ := hstart.run_attributes hplain (flush events seen)
    have hsplit : openTag (b :: name) attributes =
        octet '<' :: b :: (name ++ (attributes.flatMap attributeText ++ [octet '>'])) := by
      simp [openTag, ascii]
    rw [hsplit, run_cons_of hless, run_cons_of hfirst, run_append_of (run_tagName hrest [b]),
      run_append_of hrun, run_cons_of hcomplete.step_end]
    simp

/-- **An end tag comes back as it was.** -/
theorem run_closeTag {name seen : Bytes} (hname : isTagName name = true) (rest : Bytes) :
    run ⟨events, .data seen⟩ (ascii "</" ++ (name ++ (ascii ">" ++ rest))) =
      run ⟨.closing name :: flush events seen, .data []⟩ rest := by
  cases name with
  | nil => cases hname
  | cons b name =>
    obtain ⟨hb, hrest⟩ : isLetter b = true ∧ ∀ c ∈ name, isNameByte c = true := by
      simpa [isTagName] using hname
    have hopen : run ⟨events, .data seen⟩ (ascii "</") = some ⟨flush events seen, .endOpen⟩ := rfl
    have hfirst : step ⟨flush events seen, .endOpen⟩ b =
        some ⟨flush events seen, .endName [b]⟩ := by
      simp [step, hb]
    have hclose : run ⟨flush events seen, .endName (name.reverse ++ [b])⟩ (ascii ">") =
        some ⟨.closing (name.reverse ++ [b]).reverse :: flush events seen, .data []⟩ := rfl
    rw [run_append_of hopen, List.cons_append, run_cons_of hfirst,
      run_append_of (run_endName hrest [b]), run_append_of hclose]
    simp

end Tokenizer

end DocTree.Html
