import DocTree.Json.Read

/-!
# Brackets and quotes

Where a value ends can be told without reading it: at the first comma or closing bracket that stands
outside all strings and inside no bracket that was opened after the beginning. `Place` keeps what
has to be known for that, and `Balanced` texts are those that a walk over them leaves at the place
where it began. The kinds of the brackets are not compared.
-/

namespace DocTree.Json

/-- What a byte means outside strings. -/
inductive Role where
  /-- It begins a string. -/
  | quote
  /-- It opens an array or an object. -/
  | opening
  /-- It closes an array or an object. -/
  | closing
  /-- It divides items or members. -/
  | comma
  /-- It has no meaning for the extent of values. -/
  | other
  deriving DecidableEq, Repr

/-- The meaning of the byte `b` outside strings. -/
def Role.ofByte (b : UInt8) : Role :=
  if b == octet '"' then .quote
  else if b == octet '[' || b == octet '{' then .opening
  else if b == octet ']' || b == octet '}' then .closing
  else if b == octet ',' then .comma
  else .other

/-- What a place is to a string. -/
inductive Mode where
  /-- Outside strings. -/
  | plain
  /-- In a string. -/
  | quoted
  /-- In a string, behind a backslash. -/
  | escaped
  deriving DecidableEq, Repr

/-- A place in a text. -/
structure Place where
  /-- The number of open brackets. -/
  depth : Nat
  /-- Is it in a string? -/
  mode : Mode
  deriving DecidableEq, Repr

namespace Place

/-- The beginning of a value. -/
def outer : Place := ⟨0, .plain⟩

/-- The place behind the byte `b` of a string. -/
def nextQuoted (depth : Nat) (b : UInt8) : Place :=
  if b == octet '\\' then ⟨depth, .escaped⟩
  else if b == octet '"' then ⟨depth, .plain⟩
  else ⟨depth, .quoted⟩

/-- The place behind a byte with a role outside strings. There is none behind a comma or a closing
bracket that belongs to something around the text. -/
def nextPlain? : Nat → Role → Option Place
  | depth, .quote => some ⟨depth, .quoted⟩
  | depth, .opening => some ⟨depth + 1, .plain⟩
  | 0, .closing => none
  | depth + 1, .closing => some ⟨depth, .plain⟩
  | 0, .comma => none
  | depth + 1, .comma => some ⟨depth + 1, .plain⟩
  | depth, .other => some ⟨depth, .plain⟩

/-- The place behind the byte `b`, if the text may go on there. -/
def next? : Place → UInt8 → Option Place
  | ⟨depth, .plain⟩, b => nextPlain? depth (.ofByte b)
  | ⟨depth, .quoted⟩, b => some (nextQuoted depth b)
  | ⟨depth, .escaped⟩, _ => some ⟨depth, .quoted⟩

/-- The place behind a text. -/
def after? (p : Place) (s : Bytes) : Option Place := s.foldlM next? p

/-- The same place with some more brackets around it. -/
def deepen (p : Place) (more : Nat) : Place := ⟨p.depth + more, p.mode⟩

@[simp] theorem after?_nil (p : Place) : p.after? [] = some p := rfl

theorem after?_cons (p : Place) (b : UInt8) (s : Bytes) :
    p.after? (b :: s) = (p.next? b).bind fun q => q.after? s := rfl

theorem after?_append (p : Place) (s t : Bytes) :
    p.after? (s ++ t) = (p.after? s).bind fun q => q.after? t :=
  List.foldlM_append

/-- Outside strings, brackets around a place do not matter to where a byte leads from it. -/
theorem nextPlain?_deepen {depth : Nat} {role : Role} {q : Place}
    (h : nextPlain? depth role = some q) (more : Nat) :
    nextPlain? (depth + more) role = some (q.deepen more) := by
  cases role with
  | quote | other =>
    obtain rfl : _ = q := by simpa [nextPlain?] using h
    simp [nextPlain?, deepen]
  | opening =>
    obtain rfl : _ = q := by simpa [nextPlain?] using h
    simp [nextPlain?, deepen, Nat.add_right_comm]
  | closing | comma =>
    -- these ask for a bracket around them, and there are only more of those
    cases depth with
    | zero => cases h
    | succ depth =>
      obtain rfl := Option.some.inj h
      rw [Nat.add_right_comm]
      simp [nextPlain?, deepen, Nat.add_right_comm]

/-- Brackets around a place do not matter to where a byte leads from it. -/
theorem next?_deepen {p q : Place} {b : UInt8} (h : p.next? b = some q) (more : Nat) :
    (p.deepen more).next? b = some (q.deepen more) := by
  obtain ⟨depth, mode⟩ := p
  cases mode with
  | plain => exact nextPlain?_deepen h more
  | quoted =>
    obtain rfl := Option.some.inj h
    -- a backslash, the quote at the end, or another byte of the string
    simp only [next?, deepen, nextQuoted]
    split
    · rfl
    · split <;> rfl
  | escaped =>
    obtain rfl := Option.some.inj h
    rfl

/-- Brackets around a text do not matter to it. -/
theorem after?_deepen {p q : Place} {s : Bytes} (h : p.after? s = some q) (more : Nat) :
    (p.deepen more).after? s = some (q.deepen more) := by
  induction s generalizing p with
  | nil =>
    obtain rfl := Option.some.inj h
    rfl
  | cons b s ih =>
    rw [after?_cons] at h ⊢
    obtain ⟨p₁, hnext, hrest⟩ := Option.bind_eq_some_iff.1 h
    rw [next?_deepen hnext]
    exact ih hrest

end Place

/-- A text whose brackets and strings are all closed, with no comma outside them. -/
def Balanced (s : Bytes) : Prop := Place.outer.after? s = some .outer

instance (s : Bytes) : Decidable (Balanced s) := inferInstanceAs (Decidable (_ = _))

/-- Does `b` end a value that it stands behind? -/
def isStop (b : UInt8) : Bool := Role.ofByte b = .comma || Role.ofByte b = .closing

namespace Balanced

variable {s t : Bytes}

theorem nil : Balanced [] := rfl

/-- Balanced texts side by side are balanced. -/
theorem append (hs : Balanced s) (ht : Balanced t) : Balanced (s ++ t) := by
  rw [Balanced, Place.after?_append, hs]
  exact ht

/-- What is left of a balanced text behind a balanced beginning is balanced. -/
theorem of_append (hs : Balanced s) (h : Balanced (s ++ t)) : Balanced t := by
  rw [Balanced, Place.after?_append, hs] at h
  exact h

/-- A text without quotes, brackets and commas is balanced. -/
theorem of_other (h : ∀ b ∈ s, Role.ofByte b = .other) : Balanced s := by
  induction s with
  | nil => exact nil
  | cons b s ih =>
    have hnext : Place.outer.next? b = some .outer := by
      rw [Place.outer, Place.next?, h b List.mem_cons_self, Place.nextPlain?]
    rw [Balanced, Place.after?_cons, hnext]
    exact ih fun c hc => h c (List.mem_cons_of_mem b hc)

/-- A balanced text does not begin with a comma or a closing bracket. -/
theorem isStop_head {b : UInt8} (h : Balanced (b :: s)) : isStop b = false := by
  obtain ⟨p, hnext, -⟩ := Option.bind_eq_some_iff.1 h
  rw [Place.outer, Place.next?] at hnext
  unfold isStop
  cases hrole : Role.ofByte b with
  | comma | closing =>
    rw [hrole] at hnext
    cases hnext
  | _ => rfl

/-- Of two balanced beginnings of one text, the one with a stop behind it is the longer one. -/
theorem eq_append_of_stop {b : UInt8} {x y : Bytes} (hs : Balanced s) (ht : Balanced t)
    (hb : isStop b = true) (h : s ++ x = t ++ b :: y) :
    ∃ u, t = s ++ u ∧ x = u ++ b :: y ∧ Balanced u := by
  -- one of the two beginnings goes on where the other ends
  rcases List.append_eq_append_iff.1 h with ⟨u, htu, hxu⟩ | ⟨u, hsu, hyu⟩
  · exact ⟨u, htu, hxu, of_append hs (htu ▸ ht)⟩
  · cases u with
    | nil => exact ⟨[], by simp_all, by simp_all, nil⟩
    | cons c u =>
      -- otherwise the stop would stand inside a balanced text
      obtain ⟨rfl, -⟩ := List.cons.inj hyu
      have hu : Balanced (b :: u) := of_append ht (hsu ▸ hs)
      rw [hu.isStop_head] at hb
      cases hb

end Balanced

/-- A text that leads from a place to the end of a value, with no white space at its end. -/
structure Whole (p : Place) (s : Bytes) : Prop where
  balanced : p.after? s = some .outer
  solid : ∀ b ∈ s.getLast?, isSpace b = false

namespace Whole

variable {p q : Place} {b : UInt8} {s t : Bytes}

theorem nil : Whole .outer [] := ⟨rfl, by simp⟩

theorem of_last (h : p.after? s = some .outer) (hlast : s.getLast?.any isSpace = false) :
    Whole p s := by
  refine ⟨h, fun b hb => ?_⟩
  rw [Option.mem_def.1 hb] at hlast
  exact hlast

/-- A whole text may have another one behind it. -/
theorem append (hs : Whole p s) (ht : Whole .outer t) : Whole p (s ++ t) := by
  refine ⟨?_, fun b hb => ?_⟩
  · rw [Place.after?_append, hs.balanced]
    exact ht.balanced
  · rw [List.getLast?_append, Option.mem_def, Option.or_eq_some_iff] at hb
    rcases hb with hb | ⟨-, hb⟩
    · exact ht.solid b hb
    · exact hs.solid b hb

/-- A whole text that is not empty may have any text in front that leads to its beginning: only its
own end counts. -/
theorem append_of_ne (hs : p.after? s = some q) (ht : Whole q t) (hne : t ≠ []) :
    Whole p (s ++ t) := by
  refine ⟨?_, fun b hb => ht.solid b ?_⟩
  · rw [Place.after?_append, hs]
    exact ht.balanced
  · rw [List.getLast?_append, Option.mem_def, Option.or_eq_some_iff] at hb
    -- the last byte is one of the second text
    rcases hb with hb | ⟨hnone, -⟩
    · exact hb
    · exact absurd (List.getLast?_eq_none_iff.1 hnone) hne

/-- A byte in front of a whole text, which must not be white space if it is all there is. -/
theorem cons (hb : p.next? b = some q) (hs : Whole q s) (hlast : s = [] → isSpace b = false) :
    Whole p (b :: s) := by
  have hbyte : p.after? [b] = some q := by rw [Place.after?_cons, hb]; rfl
  cases s with
  | nil =>
    refine ⟨hbyte.trans hs.balanced, ?_⟩
    -- the byte is the last one
    rintro c ⟨⟩
    exact hlast rfl
  | cons c s => exact append_of_ne hbyte hs (by simp)

/-- What is left of a whole text behind its first byte is whole. -/
theorem tail (hb : p.next? b = some q) (h : Whole p (b :: s)) : Whole q s := by
  have hbalanced := h.balanced
  rw [Place.after?_cons, hb] at hbalanced
  refine ⟨hbalanced, fun c hc => h.solid c ?_⟩
  cases s with
  | nil => cases hc
  | cons d s => rwa [List.getLast?_cons_cons]

end Whole

end DocTree.Json
