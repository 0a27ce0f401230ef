import DocTree.Proofs.Statement.BoundName
import Mathlib.Computability.Language

/-!
# Shapes of statements

A shape that is looked for in a statement is a set of texts. It is built from literal texts and from
white space by putting texts one behind the other (`*`), by choice (`+`) and by repetition (`∗`),
and it says nothing about how it is looked for.

A function that looks for a shape at the front of a text returns what follows it. `CutsOff` relates
the two: whatever the function takes off has the shape, and it takes off every text of that shape.
Functions that run one after the other cut off the product of their shapes (`CutsOff.bind`), so the
shape of a whole pattern is read off from its steps.
-/

namespace DocTree.Statement

open scoped Computability

/-! ## Literal texts and white space -/

/-- The one text that is written as a literal. -/
def literal (s : String) : Language UInt8 := {ascii s}

/-- The bytes of white space: blank, tab, line feed, carriage return and form feed. -/
def whiteSpace : Bytes := ascii " \t\n\r\x0c"

/-- The texts of one white space byte. -/
def blank : Language UInt8 := {t | ∃ b ∈ whiteSpace, t = [b]}

/-- White space of length one or more. -/
def blanks : Language UInt8 := blank * blank∗

/-- The white space bytes are those that are passed over. -/
theorem mem_whiteSpace_iff {b : UInt8} : b ∈ whiteSpace ↔ isSpace b = true := by
  have hbytes : whiteSpace = [32, 9, 10, 13, 12] := rfl
  rw [hbytes, isSpace]
  simp only [List.mem_cons, List.not_mem_nil, Bool.or_eq_true, beq_iff_eq]
  tauto

/-- Repeated white space is a text of white space bytes only. -/
theorem mem_kstar_blank {t : Bytes} : t ∈ blank∗ ↔ ∀ b ∈ t, b ∈ whiteSpace := by
  rw [Language.mem_kstar]
  constructor
  · intro ⟨parts, ht, hparts⟩ b hb
    rw [ht, List.mem_flatten] at hb
    obtain ⟨part, hpart, hb⟩ := hb
    obtain ⟨c, hc, rfl⟩ := hparts part hpart
    rwa [List.mem_singleton.1 hb]
  · -- every byte is a part of its own
    intro ht
    refine ⟨t.map fun b => [b], (List.flatMap_singleton' t).symm, fun part hpart => ?_⟩
    obtain ⟨b, hb, rfl⟩ := List.mem_map.1 hpart
    exact ⟨b, ht b hb, rfl⟩

theorem mem_kstar_of_mem_blank {t : Bytes} (h : t ∈ blank) : t ∈ blank∗ :=
  (le_kstar : blank ≤ blank∗) h

theorem isSpace_of_mem_kstar {t : Bytes} (h : t ∈ blank∗) : ∀ b ∈ t, isSpace b = true :=
  fun b hb => mem_whiteSpace_iff.1 (mem_kstar_blank.1 h b hb)

/-- White space of length one or more is a text of white space bytes that is not empty. -/
theorem mem_blanks {t : Bytes} : t ∈ blanks ↔ t ≠ [] ∧ ∀ b ∈ t, b ∈ whiteSpace := by
  constructor
  · rintro ⟨_, ⟨b, hb, rfl⟩, more, hmore, rfl⟩
    exact ⟨List.cons_ne_nil b more, List.forall_mem_cons.2 ⟨hb, mem_kstar_blank.1 hmore⟩⟩
  · rintro ⟨hne, ht⟩
    obtain ⟨b, more, rfl⟩ := List.exists_cons_of_ne_nil hne
    obtain ⟨hb, hmore⟩ := List.forall_mem_cons.1 ht
    exact ⟨[b], ⟨b, hb, rfl⟩, more, mem_kstar_blank.2 hmore, rfl⟩

theorem spaces_blanks_append {w : Bytes} (hw : w ∈ blanks) (s : Bytes) :
    spaces (w ++ s) = spaces s :=
  spaces_append (fun b hb => mem_whiteSpace_iff.1 ((mem_blanks.1 hw).2 b hb)) s

/-- A text that does not begin with white space stays as it is. -/
theorem spaces_eq_self {s : Bytes} (h : space? s = none) : spaces s = s := by
  cases s with
  | nil => rfl
  | cons b s =>
    have hb : isSpace b = false := by simpa [space?] using h
    rw [spaces, List.dropWhile_cons_of_neg (by simp [hb])]

/-- White space of length one or more is passed over as a whole. -/
theorem spaces?_append {w : Bytes} (hw : w ∈ blanks) (s : Bytes) :
    spaces? (w ++ s) = some (spaces s) := by
  obtain ⟨_, ⟨b, hb, rfl⟩, more, hmore, rfl⟩ := hw
  have hspace : space? (b :: (more ++ s)) = some (more ++ s) := if_pos (mem_whiteSpace_iff.1 hb)
  show (space? (b :: (more ++ s))).map spaces = some (spaces s)
  rw [hspace, Option.map_some, spaces_append (isSpace_of_mem_kstar hmore)]

/-! ## Shapes that lack a byte -/

/-- No text of the shape holds the byte `x`. -/
def Lacks (x : UInt8) (L : Language UInt8) : Prop := ∀ t ∈ L, x ∉ t

namespace Lacks

variable {x : UInt8} {L M : Language UInt8}

/-- One shape behind the other. -/
theorem mul (hL : Lacks x L) (hM : Lacks x M) : Lacks x (L * M) := by
  rintro _ ⟨p, hp, q, hq, rfl⟩
  exact List.not_mem_append (hL p hp) (hM q hq)

/-- A shape that may be left out. -/
theorem optional (hL : Lacks x L) : Lacks x (1 + L) := by
  rintro t (ht | ht)
  · rw [(Language.mem_one t).1 ht]
    exact List.not_mem_nil
  · exact hL t ht

theorem of_literal {s : String} (h : x ∉ ascii s) : Lacks x (literal s) := by
  rintro t rfl
  exact h

theorem of_blank (h : x ∉ whiteSpace) : Lacks x blank := by
  rintro t ⟨b, hb, rfl⟩ hx
  rw [List.mem_singleton.1 hx] at h
  exact h hb

end Lacks

/-! ## Cutting a shape off -/

/-- The function `f` cuts a text of the shape `L` off the front: it returns a rest exactly if a text
of that shape stands in front of it. So the front is determined by the text. -/
def CutsOff (f : Bytes → Option Bytes) (L : Language UInt8) : Prop :=
  ∀ s rest, f s = some rest ↔ ∃ p ∈ L, p ++ rest = s

namespace CutsOff

variable {f g : Bytes → Option Bytes} {L M : Language UInt8}

/-- One shape behind the other is cut off in two steps. -/
theorem bind (hf : CutsOff f L) (hg : CutsOff g M) : CutsOff (fun s => (f s).bind g) (L * M) := by
  intro s rest
  rw [Option.bind_eq_some_iff]
  constructor
  · intro ⟨t, ht, hrest⟩
    obtain ⟨p, hp, rfl⟩ := (hf s t).1 ht
    obtain ⟨q, hq, rfl⟩ := (hg t rest).1 hrest
    exact ⟨p ++ q, Language.append_mem_mul hp hq, List.append_assoc p q rest⟩
  · rintro ⟨_, ⟨p, hp, q, hq, rfl⟩, rfl⟩
    refine ⟨q ++ rest, (hf _ _).2 ⟨p, hp, (List.append_assoc p q rest).symm⟩, ?_⟩
    exact (hg _ _).2 ⟨q, hq, rfl⟩

/-- The function succeeds exactly if the text begins with the shape. -/
theorem isSome_iff (hf : CutsOff f L) {s : Bytes} : (f s).isSome = true ↔ ∃ p ∈ L, p <+: s := by
  rw [Option.isSome_iff_exists]
  constructor
  · intro ⟨rest, hrest⟩
    obtain ⟨p, hp, hs⟩ := (hf s rest).1 hrest
    exact ⟨p, hp, rest, hs⟩
  · intro ⟨p, hp, rest, hs⟩
    exact ⟨rest, (hf s rest).2 ⟨p, hp, hs⟩⟩

/-- A text begins with one shape behind the other exactly if the second one stands in front of what
follows the first one. -/
theorem prefix_mul_iff (hf : CutsOff f L) {s : Bytes} :
    (∃ p ∈ L * M, p <+: s) ↔ ∃ rest, f s = some rest ∧ ∃ q ∈ M, q <+: rest := by
  constructor
  · rintro ⟨_, ⟨p, hp, q, hq, rfl⟩, rest, rfl⟩
    exact ⟨q ++ rest, (hf _ _).2 ⟨p, hp, (List.append_assoc p q rest).symm⟩, q, hq, rest, rfl⟩
  · rintro ⟨_, hrest, q, hq, rest, rfl⟩
    obtain ⟨p, hp, rfl⟩ := (hf _ _).1 hrest
    exact ⟨p ++ q, Language.append_mem_mul hp hq, rest, List.append_assoc p q rest⟩

/-- Nothing is left of a text exactly if the whole of it has the shape. -/
theorem eq_some_nil_iff (hf : CutsOff f L) {s : Bytes} : f s = some [] ↔ s ∈ L := by
  rw [hf s []]
  simp only [List.append_nil, exists_eq_right]

end CutsOff

theorem cutsOff_after? (w : String) : CutsOff (Bytes.after? (ascii w)) (literal w) := by
  intro s rest
  constructor
  · intro h
    exact ⟨ascii w, rfl, (Bytes.eq_append_of_after? h).symm⟩
  · rintro ⟨_, rfl, rfl⟩
    exact Bytes.after?_append (ascii w) rest

/-- A white space byte is the first byte. -/
theorem space?_eq_some_iff {s rest : Bytes} :
    space? s = some rest ↔ ∃ b, isSpace b = true ∧ s = b :: rest := by
  cases s with
  | nil => simp [space?]
  | cons b s => cases hb : isSpace b <;> grind [space?]

/-- A white space byte is cut off. -/
theorem cutsOff_space? : CutsOff space? blank := by
  intro s rest
  rw [space?_eq_some_iff]
  constructor
  · rintro ⟨b, hb, rfl⟩
    exact ⟨[b], ⟨b, mem_whiteSpace_iff.2 hb, rfl⟩, rfl⟩
  · rintro ⟨_, ⟨b, hb, rfl⟩, rfl⟩
    exact ⟨b, mem_whiteSpace_iff.1 hb, rfl⟩

variable {w : String}

/-- An optional white space byte is taken whenever there is one. Nothing is lost by that in front of
a literal that begins with another byte. -/
theorem cutsOff_optionalSpace (hw : ∀ rest, space? (ascii w ++ rest) = none) :
    CutsOff (fun s => Bytes.after? (ascii w) (optionalSpace s)) ((1 + blank) * literal w) := by
  intro s rest
  constructor
  · intro h
    have hspace := Bytes.eq_append_of_after? h
    rw [optionalSpace] at hspace
    -- white space is taken if there is any
    cases hs : space? s with
    | none =>
      rw [hs, Option.getD_none] at hspace
      exact ⟨[] ++ ascii w, Language.append_mem_mul (Or.inl rfl) rfl, hspace.symm⟩
    | some t =>
      rw [hs, Option.getD_some] at hspace
      obtain ⟨p, hp, rfl⟩ := (cutsOff_space? s t).1 hs
      refine ⟨p ++ ascii w, Language.append_mem_mul (Or.inr hp) rfl, ?_⟩
      rw [List.append_assoc, hspace]
  · rintro ⟨_, ⟨p, hp, _, rfl, rfl⟩, rfl⟩
    have hspace : optionalSpace (p ++ (ascii w ++ rest)) = ascii w ++ rest := by
      rw [optionalSpace]
      rcases hp with hp | hp
      · -- without white space the literal is in front, and its first byte is not taken for any
        rw [(Language.mem_one p).1 hp, List.nil_append, hw, Option.getD_none]
      · rw [(cutsOff_space? _ _).2 ⟨p, hp, rfl⟩, Option.getD_some]
    show Bytes.after? _ (optionalSpace (p ++ ascii w ++ rest)) = some rest
    rw [List.append_assoc, hspace]
    exact Bytes.after?_append (ascii w) rest

/-- The same for white space of any length. -/
theorem cutsOff_spaces (hw : ∀ rest, space? (ascii w ++ rest) = none) :
    CutsOff (fun s => Bytes.after? (ascii w) (spaces s)) (blank∗ * literal w) := by
  intro s rest
  constructor
  · intro h
    refine ⟨s.takeWhile isSpace ++ ascii w, Language.append_mem_mul ?_ rfl, ?_⟩
    · exact mem_kstar_blank.2 fun b hb => mem_whiteSpace_iff.2 (List.mem_takeWhile_imp hb)
    · rw [List.append_assoc, ← Bytes.eq_append_of_after? h]
      exact List.takeWhile_append_dropWhile
  · -- the white space ends at the literal, however long it is
    rintro ⟨_, ⟨p, hp, _, rfl, rfl⟩, rfl⟩
    show Bytes.after? _ (spaces (p ++ ascii w ++ rest)) = some rest
    rw [List.append_assoc, spaces_append (isSpace_of_mem_kstar hp), spaces_eq_self (hw rest)]
    exact Bytes.after?_append (ascii w) rest

/-! ## Finding a shape -/

/-- Something is found if it is found at some place. -/
theorem findSuffix?_isSome_iff {α : Type} {f : Bytes → Option α} {s : Bytes} :
    (findSuffix? f s).isSome = true ↔ ∃ t, t <:+ s ∧ (f t).isSome = true := by
  rw [← not_iff_not, Option.not_isSome_iff_eq_none, findSuffix?_eq_none_iff]
  simp only [not_exists, not_and, Option.not_isSome_iff_eq_none]

/-- A search from every place finds a shape exactly if it stands anywhere. -/
theorem CutsOff.findSuffix?_isSome_iff {f : Bytes → Option Bytes} {L : Language UInt8}
    (hf : CutsOff f L) {s : Bytes} :
    (findSuffix? f s).isSome = true ↔ ∃ p ∈ L, p <:+: s := by
  rw [Statement.findSuffix?_isSome_iff]
  constructor
  · intro ⟨t, hts, ht⟩
    obtain ⟨p, hp, hpt⟩ := hf.isSome_iff.1 ht
    exact ⟨p, hp, List.infix_iff_prefix_suffix.2 ⟨t, hpt, hts⟩⟩
  · intro ⟨p, hp, hps⟩
    obtain ⟨t, hpt, hts⟩ := List.infix_iff_prefix_suffix.1 hps
    exact ⟨t, hts, hf.isSome_iff.2 ⟨p, hp, hpt⟩⟩

end DocTree.Statement
