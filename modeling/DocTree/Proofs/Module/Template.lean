import DocTree.Proofs.Module.Markup

/-!
# Template literals read back

A text stands in the generated module inside a template literal. Here such a literal is read the way
a script engine reads it (`Template.read`): a backslash takes the meaning from the byte behind it, a
back quote ends the literal, a dollar sign may begin an interpolation, and every line end counts as
a line feed. What the engine makes of an escaped text is the text with its line ends made alike
(`Markup.escapeTemplate_readsBack`).
-/

namespace DocTree

/-! ## Line ends -/

namespace Bytes

/-- The text with every CR LF, and then every CR that is left, replaced by LF. -/
def unixLines (s : Bytes) : Bytes :=
  replaceAll (ascii "\r") (ascii "\n") (replaceAll (ascii "\r\n") (ascii "\n") s)

theorem unixLines_crlf (s : Bytes) :
    unixLines (octet '\r' :: octet '\n' :: s) = octet '\n' :: unixLines s := by
  have hne : ascii "\r\n" ≠ [] := by decide
  have hpair : replaceAll (ascii "\r\n") (ascii "\n") (octet '\r' :: octet '\n' :: s) =
      octet '\n' :: replaceAll (ascii "\r\n") (ascii "\n") s := replaceAll_append hne (ascii "\n") s
  rw [unixLines, hpair, replaceAll_cons (by simp [ascii, octet])]
  rfl

/-- A CR without LF is a line end of its own. -/
theorem unixLines_cr {s : Bytes} (h : s.head? ≠ some (octet '\n')) :
    unixLines (octet '\r' :: s) = octet '\n' :: unixLines s := by
  -- the pair is not there to be replaced
  have hlone : ¬ ascii "\r\n" <+: octet '\r' :: s := by
    rintro ⟨t, ht⟩
    obtain ⟨-, rfl⟩ := List.cons.inj ht
    exact h rfl
  have hne : ascii "\r" ≠ [] := by decide
  rw [unixLines, replaceAll_cons hlone]
  exact replaceAll_append hne (ascii "\n") _

theorem unixLines_cons {b : UInt8} (h : b ≠ octet '\r') (s : Bytes) :
    unixLines (b :: s) = b :: unixLines s := by
  rw [unixLines, replaceAll_cons_of_ne rfl h, replaceAll_cons_of_ne rfl h]
  rfl

/-- Behind a CR, the rest of the text counts from its second byte on if that is LF. -/
theorem tail_unixLines_cr {b : UInt8} (h : b ≠ octet '\n') (s : Bytes) :
    (unixLines (octet '\r' :: b :: s)).tail = unixLines (b :: s) := by
  rw [unixLines_cr (by simpa using h)]
  rfl

/-- A CR begins a line end, whatever follows. -/
theorem unixLines_cr_eq_cons (s : Bytes) :
    unixLines (octet '\r' :: s) = octet '\n' :: (unixLines (octet '\r' :: s)).tail := by
  by_cases h : s.head? = some (octet '\n')
  · obtain ⟨t, rfl⟩ := List.head?_eq_some_iff.1 h
    rw [unixLines_crlf]
    rfl
  · rw [unixLines_cr h]
    rfl

/-- A text keeps its line ends if and only if it holds no CR. -/
theorem unixLines_eq_self_iff (s : Bytes) : unixLines s = s ↔ octet '\r' ∉ s := by
  constructor
  · intro h
    rw [← h]
    intro hmem
    -- the second replacement leaves no CR behind
    rw [unixLines, show ascii "\r" = [octet '\r'] from rfl, replaceAll_singleton] at hmem
    obtain ⟨b, -, hb⟩ := List.mem_flatMap.1 hmem
    split at hb
    · exact absurd hb (by decide)
    · next hne => exact hne (List.mem_singleton.1 hb).symm
  · intro h
    rw [unixLines, replaceAll_of_notMem rfl h, replaceAll_of_notMem rfl h]

end Bytes

/-! ## Reading a template literal -/

namespace Template

/-- Where a reader stands inside a template literal. -/
inductive Place where
  /-- In the text. -/
  | text
  /-- Behind a backslash. -/
  | escaped
  /-- Behind a CR, whose second half may follow. -/
  | afterReturn
  deriving DecidableEq, Repr

/-- How reading the inside of a template literal ends. -/
inductive Reading where
  /-- At a back quote, which closes the literal. -/
  | closed (value rest : Bytes)
  /-- At a dollar sign, with which an interpolation may begin. -/
  | dollar (value rest : Bytes)
  /-- At the end of the text, behind a backslash that nothing follows. -/
  | dangling (value : Bytes)
  /-- At the end of the text. -/
  | unclosed (value : Bytes)
  deriving DecidableEq, Repr

/-- Reads on behind `value`, what was read so far. -/
def readFrom : Place → Bytes → Bytes → Reading
  | .escaped, [], value => .dangling value
  | _, [], value => .unclosed value
  | place, b :: rest, value =>
    if place = .escaped then readFrom .text rest (value ++ [b])
    else if place = .afterReturn ∧ b = octet '\n' then readFrom .text rest value
    else if b = octet '`' then .closed value rest
    else if b = octet '$' then .dollar value rest
    else if b = octet '\\' then readFrom .escaped rest value
    else if b = octet '\r' then readFrom .afterReturn rest (value ++ [octet '\n'])
    else readFrom .text rest (value ++ [b])

/-- Reads what stands behind the opening back quote of a template literal. -/
def read (s : Bytes) : Reading := readFrom .text s []

/-- Where a reader stands behind the escaped form of a byte. -/
def Place.behind (b : UInt8) : Place := if b = octet '\r' then .afterReturn else .text

/-- What a byte, in its escaped form, adds to the value. -/
def Place.adds (place : Place) (b : UInt8) : Bytes :=
  if place = .afterReturn ∧ b = octet '\n' then [] else if b = octet '\r' then [octet '\n'] else [b]

/-- The value of an escaped text. -/
def Place.valueOf (place : Place) (s : Bytes) : Bytes :=
  if place = .afterReturn then (Bytes.unixLines (octet '\r' :: s)).tail else Bytes.unixLines s

/-- No escaped form ends in a backslash that is still to be used. -/
theorem Place.behind_ne_escaped (b : UInt8) : behind b ≠ .escaped := by
  unfold behind
  split <;> decide

/-- One byte of the text, read in its escaped form. -/
theorem readFrom_escape {place : Place} (h : place ≠ .escaped) (b : UInt8) (rest value : Bytes) :
    readFrom place ((Markup.templateEscape? b).getD [b] ++ rest) value =
      readFrom (.behind b) rest (value ++ place.adds b) := by
  rw [Markup.templateEscape?]
  split
  · next hb =>
    -- two bytes: a backslash, and the byte it takes the meaning from
    simp only [Bool.or_eq_true, beq_iff_eq] at hb
    rcases hb with (rfl | rfl) | rfl <;> simp [readFrom, Place.behind, Place.adds, h, octet]
  · next hb =>
    simp only [Bool.or_eq_true, beq_iff_eq, not_or] at hb
    obtain ⟨⟨hback, hquote⟩, hdollar⟩ := hb
    -- the second half of a line end, a CR, or any other byte
    by_cases hfeed : place = .afterReturn ∧ b = octet '\n'
    · obtain ⟨rfl, rfl⟩ := hfeed
      simp [readFrom, Place.behind, Place.adds, octet]
    · by_cases hreturn : b = octet '\r'
      · subst hreturn
        simp [readFrom, Place.behind, Place.adds, h, octet]
      · simp [readFrom, Place.behind, Place.adds, h, hfeed, hback, hquote, hdollar, hreturn]

/-- What that byte adds is what it adds to the text with its line ends made alike. -/
theorem Place.valueOf_cons (place : Place) (b : UInt8) (s : Bytes) :
    place.valueOf (b :: s) = place.adds b ++ (behind b).valueOf s := by
  by_cases hfeed : place = .afterReturn ∧ b = octet '\n'
  · obtain ⟨rfl, rfl⟩ := hfeed
    rw [valueOf, if_pos rfl, Bytes.unixLines_crlf]
    rfl
  · -- behind a CR or not, a byte other than LF begins a text of its own
    have hplain : place.valueOf (b :: s) = Bytes.unixLines (b :: s) := by
      unfold valueOf
      split
      · next hplace => exact Bytes.tail_unixLines_cr (fun hb => hfeed ⟨hplace, hb⟩) s
      · rfl
    rw [hplain, adds, if_neg hfeed]
    by_cases hreturn : b = octet '\r'
    · subst hreturn
      exact Bytes.unixLines_cr_eq_cons s
    · rw [Bytes.unixLines_cons hreturn, if_neg hreturn, behind, if_neg hreturn]
      rfl

/-- An escaped text is read to its end, whatever follows. By induction on the text. -/
theorem readFrom_escapeTemplate (s : Bytes) {place : Place} (h : place ≠ .escaped)
    (rest value : Bytes) :
    ∃ last : Place, last ≠ .escaped ∧
      readFrom place (Markup.escapeTemplate s ++ rest) value =
        readFrom last rest (value ++ place.valueOf s) := by
  induction s generalizing place value with
  | nil =>
    -- nothing is left to be added
    have hnil : place.valueOf [] = [] := by cases place <;> rfl
    refine ⟨place, h, ?_⟩
    rw [hnil, List.append_nil]
    rfl
  | cons b s ih =>
    obtain ⟨last, hlast, hread⟩ := ih (Place.behind_ne_escaped b) (value ++ place.adds b)
    refine ⟨last, hlast, ?_⟩
    rw [Markup.escapeTemplate_cons, List.append_assoc, readFrom_escape h, hread, Place.valueOf_cons,
      List.append_assoc]

theorem Place.text_ne_escaped : Place.text ≠ .escaped := by decide

/-- An escaped text alone has no end. -/
theorem read_escapeTemplate (s : Bytes) :
    read (Markup.escapeTemplate s) = .unclosed (Bytes.unixLines s) := by
  obtain ⟨last, hlast, hread⟩ := readFrom_escapeTemplate s Place.text_ne_escaped [] []
  rw [List.append_nil] at hread
  rw [read, hread]
  cases last with
  | escaped => exact absurd rfl hlast
  | _ => rfl

/-- An escaped text ends at the back quote behind it. -/
theorem read_escapeTemplate_append (s rest : Bytes) :
    read (Markup.escapeTemplate s ++ octet '`' :: rest) = .closed (Bytes.unixLines s) rest := by
  obtain ⟨last, hlast, hread⟩ :=
    readFrom_escapeTemplate s Place.text_ne_escaped (octet '`' :: rest) []
  rw [read, hread]
  cases last with
  | escaped => exact absurd rfl hlast
  | _ => rfl

end Template

namespace Markup

/-! ## Escaping -/

/-- Escaping byte by byte is replacing backslashes, then back quotes, then dollar signs: the
backslashes that the later replacements put in come too late to be doubled. -/
theorem escapeTemplate_eq_replaceAll (s : Bytes) :
    escapeTemplate s =
      Bytes.replaceAll [octet '$'] [octet '\\', octet '$']
        (Bytes.replaceAll [octet '`'] [octet '\\', octet '`']
          (Bytes.replaceAll [octet '\\'] [octet '\\', octet '\\'] s)) := by
  rw [Bytes.replaceAll_singleton, Bytes.replaceAll_singleton, Bytes.replaceAll_singleton,
    List.flatMap_assoc, List.flatMap_assoc, escapeTemplate, Bytes.replaceOctets]
  congr 1
  funext b
  -- each of the three bytes meets its own replacement, and what that puts in meets no later one
  by_cases hb : b = octet '\\' ∨ b = octet '`' ∨ b = octet '$'
  · rcases hb with rfl | rfl | rfl <;> rfl
  · simp only [not_or] at hb
    simp [templateEscape?, hb]

/-- **An escaped text is read back up to its line ends.** Escaping is three replacements one after
another. Inside the escaped text a reader of the template literal meets no bare back quote, no bare
dollar sign and no backslash at the end; the literal ends at the back quote that is written behind
it, and its value is the text with every CR LF and every lone CR made LF. So the value is the text
itself if and only if the text holds no CR. -/
theorem escapeTemplate_readsBack (s rest : Bytes) :
    escapeTemplate s =
        Bytes.replaceAll [octet '$'] [octet '\\', octet '$']
          (Bytes.replaceAll [octet '`'] [octet '\\', octet '`']
            (Bytes.replaceAll [octet '\\'] [octet '\\', octet '\\'] s)) ∧
      Template.read (escapeTemplate s) = .unclosed (Bytes.unixLines s) ∧
      textBefore (.literal s) rest =
        ascii "\x7b`" ++ (escapeTemplate s ++ octet '`' :: octet '}' :: rest) ∧
      Template.read (escapeTemplate s ++ octet '`' :: octet '}' :: rest) =
        .closed (Bytes.unixLines s) (octet '}' :: rest) ∧
      (Template.read (escapeTemplate s ++ octet '`' :: octet '}' :: rest) =
        .closed s (octet '}' :: rest) ↔
        octet '\r' ∉ s) := by
  refine ⟨escapeTemplate_eq_replaceAll s, Template.read_escapeTemplate s, rfl,
    Template.read_escapeTemplate_append s _, ?_⟩
  rw [Template.read_escapeTemplate_append, ← Bytes.unixLines_eq_self_iff,
    Template.Reading.closed.injEq]
  exact and_iff_left rfl

example : Template.read (escapeTemplate (ascii "\\`$\r\n$") ++ ascii "`$") =
    .closed (ascii "\\`$\n$") (ascii "$") := by decide +kernel

end Markup

end DocTree
