import DocTree.Module
import DocTree.Proofs.Tree.Normalize
import DocTree.Proofs.Tree.ReadBack

/-!
# The text of markup

The text of a body determines its markup (`Markup.texts_inj`): each piece of markup shows its kind
in its first two bytes, its parts end where they say, and children end at a closing tag, with which
no piece begins. Every step is of one form: what is written in front of some rest determines both
itself and the rest.
-/

namespace DocTree

/-! ## Delimiters -/

namespace Markup

/-- The end of a comment ends the texts that do not hold it. -/
theorem commentEnd_inj {s t x y : Bytes} (hs : ¬ [octet '*', octet '/'] <:+: s)
    (ht : ¬ [octet '*', octet '/'] <:+: t)
    (h : s ++ octet '*' :: octet '/' :: x = t ++ octet '*' :: octet '/' :: y) :
    s = t ∧ x = y := by
  -- a star at the end of one text cannot be the star that ends the other
  have hstop : ∀ {u x y : Bytes}, ¬ [octet '*', octet '/'] <:+: u → u ≠ [] →
      octet '*' :: octet '/' :: x ≠ u ++ octet '*' :: octet '/' :: y := by
    intro u x y hu hne heq
    match u with
    | [] => exact hne rfl
    | [a] =>
      obtain ⟨hslash, -⟩ := List.cons.inj (List.cons.inj heq).2
      exact absurd hslash (by decide)
    | a :: b :: u =>
      obtain ⟨hstar, heq⟩ := List.cons.inj heq
      obtain ⟨hslash, -⟩ := List.cons.inj heq
      exact hu ⟨[], u, by rw [hstar, hslash]; rfl⟩
  induction s generalizing t with
  | nil =>
    cases t with
    | nil => exact ⟨rfl, (List.cons.inj (List.cons.inj h).2).2⟩
    | cons b t => exact absurd h (hstop ht (List.cons_ne_nil b t))
  | cons a s ih =>
    cases t with
    | nil => exact absurd h.symm (hstop hs (List.cons_ne_nil a s))
    | cons b t =>
      obtain ⟨rfl, hrest⟩ := List.cons.inj h
      obtain ⟨rfl, rfl⟩ := ih (fun hin => hs (List.infix_cons hin))
        (fun hin => ht (List.infix_cons hin)) hrest
      exact ⟨rfl, rfl⟩

theorem escapeTemplate_cons (b : UInt8) (s : Bytes) :
    escapeTemplate (b :: s) = (templateEscape? b).getD [b] ++ escapeTemplate s := by
  rw [escapeTemplate, Bytes.replaceOctets, List.flatMap_cons]
  rfl

/-- The text of a byte in a template literal begins with a backslash, or is a byte that has no
meaning there. -/
theorem templateEscape?_cases (b : UInt8) :
    (templateEscape? b).getD [b] = [octet '\\', b] ∨
      (templateEscape? b).getD [b] = [b] ∧ b ≠ octet '\\' ∧ b ≠ octet '`' := by
  rw [templateEscape?]
  split
  · exact Or.inl rfl
  · next h =>
    simp only [Bool.or_eq_true, beq_iff_eq, not_or] at h
    exact Or.inr ⟨rfl, h.1.1, h.1.2⟩

/-- A back quote ends the text of a template literal. -/
theorem escapeTemplate_inj {s t x y : Bytes}
    (h : escapeTemplate s ++ octet '`' :: x = escapeTemplate t ++ octet '`' :: y) :
    s = t ∧ x = y := by
  -- the text of a byte does not begin with a back quote
  have hstop : ∀ {b : UInt8} {u x y : Bytes},
      octet '`' :: x ≠ escapeTemplate (b :: u) ++ octet '`' :: y := by
    intro b u x y heq
    rw [escapeTemplate_cons, List.append_assoc] at heq
    rcases templateEscape?_cases b with hb | ⟨hb, -, hquote⟩
    · rw [hb] at heq
      exact absurd (List.cons.inj heq).1 (by decide)
    · rw [hb] at heq
      exact hquote (List.cons.inj heq).1.symm
  induction s generalizing t with
  | nil =>
    cases t with
    | nil => exact ⟨rfl, (List.cons.inj h).2⟩
    | cons b t => exact absurd h hstop
  | cons a s ih =>
    cases t with
    | nil => exact absurd h.symm hstop
    | cons b t =>
      rw [escapeTemplate_cons, escapeTemplate_cons, List.append_assoc, List.append_assoc] at h
      -- a backslash is always escaped, so that either both bytes are or neither is
      have hhead : a = b ∧
          escapeTemplate s ++ octet '`' :: x = escapeTemplate t ++ octet '`' :: y := by
        rcases templateEscape?_cases a with ha | ⟨ha, hback, -⟩ <;>
          rcases templateEscape?_cases b with hb | ⟨hb, hback', -⟩ <;> rw [ha, hb] at h
        · exact List.cons.inj (List.cons.inj h).2
        · exact absurd (List.cons.inj h).1.symm hback'
        · exact absurd (List.cons.inj h).1 hback
        · exact List.cons.inj h
      obtain ⟨rfl, hrest⟩ := hhead
      obtain ⟨rfl, rfl⟩ := ih hrest
      exact ⟨rfl, rfl⟩

end Markup

/-! ## Plain properties -/

/-- A string, a truth value or a list. -/
def Value.Plain : Value → Prop
  | .string _ | .bool _ | .list _ => True
  | _ => False

/-- Plain values are read back as they are written. -/
theorem Value.Plain.readable {v : Value} (h : v.Plain) : v.Readable := by
  cases v with
  | string s => exact .string s
  | bool b => exact .bool b
  | list tokens => exact .list tokens
  | _ => exact h.elim

theorem Value.Plain.unnamed_eq {v : Value} (h : v.Plain) : v.unnamed = v := by
  cases v with
  | style decls => exact h.elim
  | _ => rfl

/-- Properties in normal form with plain values. -/
structure Properties.Plain (props : Properties) : Prop where
  normal : props.normalize = props
  values : ∀ p ∈ props, p.value.Plain

/-- Plain properties are read back as they are: their names are distinct, and no value is a
style. -/
theorem Properties.Plain.setAll_unnamed {props : Properties} (h : props.Plain) :
    setAll [] props.unnamed = props := by
  have hdistinct : props.Distinct := h.normal ▸ distinct_normalize props
  have hunnamed : props.unnamed = props := by
    rw [unnamed]
    refine (List.map_congr_left fun p hp => ?_).trans (List.map_id props)
    rw [(h.values p hp).unnamed_eq]
    rfl
  rw [hunnamed, setAll_nil_of_distinct hdistinct]

/-- The text of plain properties determines them and where it ends. -/
theorem Json.properties_inj {p q : Properties} {x y : Bytes} (hp : p.Plain) (hq : q.Plain)
    (h : Json.properties p ++ x = Json.properties q ++ y) : p = q ∧ x = y := by
  -- what the reader finds in the one text it finds in the other
  have hread := Decode.members_written (fun a ha => (hp.values a ha).readable) 0 x
  have hread' := Decode.members_written (fun a ha => (hq.values a ha).readable) 0 y
  rw [Json.properties, Json.properties, Json.objectOf_append, Json.objectOf_append] at h
  -- both readers give back what was written, and what is left behind it
  rw [(List.cons.inj h).2, hread', hp.setAll_unnamed, hq.setAll_unnamed] at hread
  obtain ⟨hqp, hyx⟩ := Prod.mk.inj (Except.ok.inj hread)
  exact ⟨hqp.symm, hyx.symm⟩

namespace Markup

/-! ## Opening tags -/

/-- The end of an opening tag from its properties on. -/
def propsThen (props : Properties) (x : Bytes) : Bytes :=
  if props.isEmpty then octet '>' :: x
  else ascii " props=\x7b" ++ (Json.properties props ++ octet '}' :: octet '>' :: x)

/-- The name of the element around a tag, in front of what follows it. -/
def parentThen (parent x : Bytes) : Bytes :=
  if parent.isEmpty then x else ascii " parentName=\"" ++ (parent ++ octet '"' :: x)

theorem openTag_append (name parent : Bytes) (props : Properties) (x : Bytes) :
    openTag name parent props ++ x =
      ascii "<MDXTag name=\"" ++ (name ++ octet '"' ::
        (ascii " components=\x7bcomponents\x7d" ++ parentThen parent (propsThen props x))) := by
  rw [openTag, parentThen, propsThen]
  split <;> split <;> simp [ascii]

/-- The rest of an opening tag determines the properties and where it ends. -/
theorem propsThen_inj {p q : Properties} {x y : Bytes} (hp : p.Plain) (hq : q.Plain)
    (h : propsThen p x = propsThen q y) : p = q ∧ x = y := by
  -- without properties the tag ends at once, with them a blank comes first
  cases p with
  | nil =>
    cases q with
    | nil => exact ⟨rfl, (List.cons.inj h).2⟩
    | cons b q => exact absurd (List.cons.inj h).1 (by decide)
  | cons a p =>
    cases q with
    | nil => exact absurd (List.cons.inj h).1 (by decide)
    | cons b q =>
      obtain ⟨hpq, hrest⟩ := Json.properties_inj hp hq (List.append_cancel_left h)
      exact ⟨hpq, (List.cons.inj (List.cons.inj hrest).2).2⟩

/-- Properties do not begin as the name of the element around does. -/
theorem propsThen_ne_parent (p : Properties) (x y : Bytes) :
    propsThen p x ≠ ascii " parentName=\"" ++ y := by
  intro h
  cases p with
  | nil => exact absurd (List.cons.inj h).1 (by decide)
  | cons a p =>
    -- the third byte tells them apart
    obtain ⟨-, h⟩ := List.cons.inj h
    obtain ⟨-, h⟩ := List.cons.inj h
    exact absurd (List.cons.inj h).1 (by decide)

/-- The name of the element around is there or not, and determined if it is. -/
theorem parentThen_inj {parent parent' : Bytes} {p q : Properties} {x y : Bytes}
    (hparent : octet '"' ∉ parent) (hparent' : octet '"' ∉ parent')
    (h : parentThen parent (propsThen p x) = parentThen parent' (propsThen q y)) :
    parent = parent' ∧ propsThen p x = propsThen q y := by
  cases parent with
  | nil =>
    cases parent' with
    | nil => exact ⟨rfl, h⟩
    | cons b parent' => exact absurd h (propsThen_ne_parent p x _)
  | cons a parent =>
    cases parent' with
    | nil => exact absurd h.symm (propsThen_ne_parent q y _)
    | cons b parent' => exact Bytes.append_cons_inj hparent hparent' (List.append_cancel_left h)

/-- An opening tag determines its parts and where it ends. -/
theorem openTag_inj {name name' parent parent' : Bytes} {p q : Properties} {x y : Bytes}
    (hname : octet '"' ∉ name) (hname' : octet '"' ∉ name') (hparent : octet '"' ∉ parent)
    (hparent' : octet '"' ∉ parent') (hp : p.Plain) (hq : q.Plain)
    (h : openTag name parent p ++ x = openTag name' parent' q ++ y) :
    name = name' ∧ parent = parent' ∧ p = q ∧ x = y := by
  rw [openTag_append, openTag_append] at h
  obtain ⟨rfl, hattributes⟩ := Bytes.append_cons_inj hname hname' (List.append_cancel_left h)
  obtain ⟨rfl, hprops⟩ := parentThen_inj hparent hparent' (List.append_cancel_left hattributes)
  obtain ⟨rfl, rfl⟩ := propsThen_inj hp hq hprops
  exact ⟨rfl, rfl, rfl, rfl⟩

/-! ## Markup from its text -/

/-- Markup of elements, texts and comments that has one reading. -/
inductive Plain : Markup → Prop where
  | tag {name parent : Bytes} {props : Properties} {children : List Markup}
      (name_unquoted : octet '"' ∉ name) (parent_unquoted : octet '"' ∉ parent)
      (props_plain : props.Plain) (children_plain : ∀ m ∈ children, Plain m) :
      Plain (.tag name parent props children)
  | literal (value : Bytes) : Plain (.literal value)
  | comment {value : Bytes} (closed : ¬ ascii "*/" <:+: value) : Plain (.comment value)
  | newline : Plain (.verbatim (ascii "\n"))

/-- The bytes that tell what a text begins with: a newline alone, and else the first two. -/
def opening (s : Bytes) : Bytes := if s.head? = some (octet '\n') then s.take 1 else s.take 2

/-- The bytes that a piece of markup begins with. -/
def opener : Markup → Bytes
  | .tag _ _ _ _ => ascii "<M"
  | .literal _ => ascii "\x7b`"
  | .comment _ => ascii "\x7b/"
  | .verbatim _ => ascii "\n"

/-- The text of a piece of markup shows its kind. -/
theorem opening_textBefore {m : Markup} (h : m.Plain) (x : Bytes) :
    opening (textBefore m x) = opener m := by
  cases h with
  | tag =>
    rw [textBefore, openTag_append]
    rfl
  | _ => rfl

/-- The markup of children ends at the closing tag or at the end of the text. -/
def Ends (rest : Bytes) : Prop := rest = [] ∨ ∃ x, rest = closeTag ++ x

/-- No piece of markup begins as a closing tag does. -/
theorem not_ends_textBefore {m : Markup} (h : m.Plain) (x : Bytes) : ¬ Ends (textBefore m x) := by
  have hopening := opening_textBefore h x
  rintro (hnil | ⟨y, hclose⟩)
  · rw [hnil] at hopening
    cases h <;> simp [opening, opener, ascii] at hopening
  · rw [hclose] at hopening
    have hclosing : opening (closeTag ++ y) = ascii "</" := rfl
    rw [hclosing] at hopening
    cases h <;> simp [opener, ascii, octet] at hopening

/-- Pieces with one text are of one kind. -/
theorem opener_eq_of_textBefore_eq {m m' : Markup} (hm : m.Plain) (hm' : m'.Plain) {x y : Bytes}
    (h : textBefore m x = textBefore m' y) : opener m = opener m' := by
  rw [← opening_textBefore hm x, h, opening_textBefore hm' y]

/-- Pieces that are each determined by their text are so side by side. -/
theorem textsBefore_inj_of {ms : List Markup}
    (hms : ∀ m ∈ ms, m.Plain ∧ ∀ m' x y, m'.Plain → textBefore m x = textBefore m' y →
      m = m' ∧ x = y)
    {ms' : List Markup} (hms' : ∀ m ∈ ms', m.Plain) {x y : Bytes} (hx : Ends x) (hy : Ends y)
    (h : textsBefore ms x = textsBefore ms' y) : ms = ms' ∧ x = y := by
  induction ms generalizing ms' with
  | nil =>
    cases ms' with
    | nil => exact ⟨rfl, h⟩
    | cons m' ms' =>
      rw [textsBefore, textsBefore] at h
      exact absurd (h ▸ hx) (not_ends_textBefore (hms' m' List.mem_cons_self) _)
  | cons m ms ih =>
    cases ms' with
    | nil =>
      rw [textsBefore, textsBefore] at h
      exact absurd (h ▸ hy) (not_ends_textBefore (hms m List.mem_cons_self).1 _)
    | cons m' ms' =>
      rw [textsBefore, textsBefore] at h
      -- the first pieces are the same, and so are the texts behind them
      obtain ⟨rfl, hrest⟩ :=
        (hms m List.mem_cons_self).2 m' _ _ (hms' m' List.mem_cons_self) h
      obtain ⟨rfl, rfl⟩ := ih (fun n hn => hms n (List.mem_cons_of_mem m hn))
        (fun n hn => hms' n (List.mem_cons_of_mem m hn)) hrest
      exact ⟨rfl, rfl⟩

/-- A piece of markup is determined by its text, whatever follows. -/
theorem textBefore_inj {m : Markup} (hm : m.Plain) :
    ∀ m' x y, m'.Plain → textBefore m x = textBefore m' y → m = m' ∧ x = y := by
  induction hm with
  | tag hname hparent hprops hchildren ih =>
    intro m' x y hm' h
    have hopener := opener_eq_of_textBefore_eq (.tag hname hparent hprops hchildren) hm' h
    cases hm' with
    | tag hname' hparent' hprops' hchildren' =>
      rw [textBefore, textBefore] at h
      obtain ⟨rfl, rfl, rfl, hinner⟩ :=
        openTag_inj hname hname' hparent hparent' hprops hprops' h
      -- inside, both texts go on to a closing tag
      obtain ⟨rfl, hclose⟩ := textsBefore_inj_of
        (fun c hc => ⟨hchildren c hc, ih c hc⟩) hchildren' (Or.inr ⟨x, rfl⟩) (Or.inr ⟨y, rfl⟩)
          hinner
      exact ⟨rfl, List.append_cancel_left hclose⟩
    | _ => simp [opener, ascii, octet] at hopener
  | literal value =>
    intro m' x y hm' h
    have hopener := opener_eq_of_textBefore_eq (.literal value) hm' h
    cases hm' with
    | literal value' =>
      obtain ⟨rfl, hrest⟩ := escapeTemplate_inj (List.append_cancel_left h)
      exact ⟨rfl, (List.cons.inj hrest).2⟩
    | _ => simp [opener, ascii, octet] at hopener
  | comment hclosed =>
    intro m' x y hm' h
    have hopener := opener_eq_of_textBefore_eq (.comment hclosed) hm' h
    cases hm' with
    | comment hclosed' =>
      obtain ⟨rfl, hrest⟩ := commentEnd_inj hclosed hclosed' (List.append_cancel_left h)
      exact ⟨rfl, (List.cons.inj hrest).2⟩
    | _ => simp [opener, ascii, octet] at hopener
  | newline =>
    intro m' x y hm' h
    have hopener := opener_eq_of_textBefore_eq .newline hm' h
    cases hm' with
    | newline => exact ⟨rfl, List.append_cancel_left h⟩
    | _ => simp [opener, ascii, octet] at hopener

/-- **The text of a body determines its markup.** -/
theorem texts_inj {ms ms' : List Markup} (hms : ∀ m ∈ ms, m.Plain) (hms' : ∀ m ∈ ms', m.Plain)
    (h : texts ms = texts ms') : ms = ms' :=
  (textsBefore_inj_of (fun m hm => ⟨hms m hm, textBefore_inj (hms m hm)⟩) hms' (Or.inl rfl)
    (Or.inl rfl) h).1

mutual

/-- The text of a piece does not depend on what follows it. -/
theorem textBefore_append (m : Markup) (x y : Bytes) :
    textBefore m (x ++ y) = textBefore m x ++ y := by
  cases m with
  | tag name parent props children =>
    simp only [textBefore, ← textsBefore_append, List.append_assoc]
  | _ => simp only [textBefore, List.append_assoc]

theorem textsBefore_append (ms : List Markup) (x y : Bytes) :
    textsBefore ms (x ++ y) = textsBefore ms x ++ y := by
  cases ms with
  | nil => rfl
  | cons m ms => rw [textsBefore, textsBefore, textsBefore_append ms, textBefore_append m]

end

/-- What follows pieces stands behind their text. -/
theorem textsBefore_eq_texts_append (ms : List Markup) (x : Bytes) :
    textsBefore ms x = texts ms ++ x :=
  textsBefore_append ms [] x

/-- Pieces side by side are written one behind the other. -/
theorem texts_append (ms ms' : List Markup) : texts (ms ++ ms') = texts ms ++ texts ms' := by
  induction ms with
  | nil => rfl
  | cons m ms ih =>
    have hcons : ∀ rest, texts (m :: rest) = textBefore m [] ++ texts rest :=
      fun rest => textBefore_append m [] (texts rest)
    rw [List.cons_append, hcons, hcons, ih, List.append_assoc]

end Markup

end DocTree
