import DocTree.Module
import DocTree.Proofs.Text.Bytes
import Mathlib.Data.List.Basic
import Mathlib.Data.List.TakeWhile

/-!
# Names that an export statement binds

The name that a statement binds is looked for behind every `export` in its text, the first one
first. It is found exactly if a word follows one of them, with or without white space between
(`HoldsExport`, `boundName?_eq_none_iff`). A byte that is neither white space nor part of a word
cuts the search in two (`boundName?_append_cons`): what is found is found on one side of it.

A re-export `export { a } from 'b'` binds nothing, yet the search goes on behind its first brace,
through the specifiers and the path of the module. `reexport_binds_nothing_iff` says for which
re-exports a name is found there.
-/

namespace DocTree

namespace Statement

/-! ## Searching -/

/-- The front is tried first, and then what is behind its first byte. -/
theorem findSuffix?_cons {α : Type} (f : Bytes → Option α) (b : UInt8) (s : Bytes) :
    findSuffix? f (b :: s) = (f (b :: s)).or (findSuffix? f s) := by
  rw [findSuffix?]
  cases f (b :: s) <;> rfl

/-- Nothing is found if nothing is found at any place. -/
theorem findSuffix?_eq_none_iff {α : Type} {f : Bytes → Option α} {s : Bytes} :
    findSuffix? f s = none ↔ ∀ t, t <:+ s → f t = none := by
  induction s with
  | nil => simp [findSuffix?]
  | cons b s ih => simp [findSuffix?_cons, ih, List.suffix_cons_iff]

/-! ## White space and words -/

theorem isSpace_of_isWordByte {b : UInt8} (h : isWordByte b = true) : isSpace b = false := by
  cases hspace : isSpace b with
  | false => rfl
  | true =>
    simp only [isSpace, Bool.or_eq_true, beq_iff_eq] at hspace
    rcases hspace with (((rfl | rfl) | rfl) | rfl) | rfl <;> exact absurd h (by decide)

/-- A word is there if its first byte is. -/
theorem word?_isSome_iff {s : Bytes} :
    (word? s).isSome = true ↔ ∃ b rest, s = b :: rest ∧ isWordByte b = true := by
  cases s with
  | nil => simp [word?]
  | cons b s => cases hb : isWordByte b <;> simp [word?, hb]

/-- A byte that ends words is not looked at. -/
theorem word?_append_cons {b : UInt8} (h : isWordByte b = false) (s t : Bytes) :
    word? (s ++ b :: t) = word? s := by
  have htake : (s ++ b :: t).takeWhile isWordByte = s.takeWhile isWordByte := by
    induction s with
    | nil => simp [h]
    | cons c s ih => simp only [List.cons_append, List.takeWhile_cons, ih]
  rw [word?, word?, htake]

/-- White space ends at a byte that is none. -/
theorem spaces_append_cons {b : UInt8} (h : isSpace b = false) (s t : Bytes) :
    spaces (s ++ b :: t) = spaces s ++ b :: t := by
  rw [spaces, spaces]
  induction s with
  | nil => simp [h]
  | cons c s ih =>
    rw [List.cons_append, List.dropWhile_cons, List.dropWhile_cons]
    split
    · exact ih
    · rfl

/-- White space in front is passed over. -/
theorem spaces_append {space : Bytes} (h : ∀ x ∈ space, isSpace x = true) (s : Bytes) :
    spaces (space ++ s) = spaces s :=
  List.dropWhile_append_of_pos h

/-! ## The name behind one `export` -/

/-- The name behind `export` and white space. -/
def nameBehind? (s : Bytes) : Option Bytes :=
  (bindingKeywords.findSome? fun k =>
    (Bytes.after? k s).bind fun r => word? (spaces r)).or (word? s)

/-- The name is looked for behind `export` and white space. -/
theorem nameHere?_eq_bind (s : Bytes) :
    nameHere? s = (Bytes.after? (ascii "export") s).bind fun r => nameBehind? (spaces r) := by
  unfold nameHere? nameBehind?
  refine congrArg _ (funext fun r => ?_)
  dsimp only
  split
  next name hname =>
    rw [hname]
    rfl
  next hname =>
    rw [hname]
    rfl

/-- Keywords are words. -/
theorem isWordByte_of_mem_keywords :
    ∀ k ∈ bindingKeywords, k ≠ [] ∧ ∀ b ∈ k, isWordByte b = true := by
  decide +kernel

/-- There is a name behind `export` and white space exactly if a word begins there: a keyword that
is not followed by a word is itself the name. -/
theorem nameBehind?_isSome_iff {s : Bytes} :
    (nameBehind? s).isSome = true ↔ ∃ b rest, s = b :: rest ∧ isWordByte b = true := by
  rw [nameBehind?, Option.isSome_or, Bool.or_eq_true, word?_isSome_iff]
  refine ⟨fun h => h.elim (fun hkeyword => ?_) id, Or.inr⟩
  obtain ⟨k, hk, hname⟩ := List.findSome?_isSome_iff.1 hkeyword
  obtain ⟨name, hname⟩ := Option.isSome_iff_exists.1 hname
  obtain ⟨r, hafter, -⟩ := Option.bind_eq_some_iff.1 hname
  obtain ⟨hne, hword⟩ := isWordByte_of_mem_keywords k hk
  obtain ⟨b, more, rfl⟩ := List.exists_cons_of_ne_nil hne
  exact ⟨b, more ++ r, Bytes.eq_append_of_after? hafter, hword b List.mem_cons_self⟩

variable {b : UInt8}

/-- A byte that ends words and white space ends the search for a name. -/
theorem nameBehind?_append_cons (hspace : isSpace b = false) (hword : isWordByte b = false)
    (s t : Bytes) : nameBehind? (s ++ b :: t) = nameBehind? s := by
  have hkeyword : ∀ k ∈ bindingKeywords,
      ((Bytes.after? k (s ++ b :: t)).bind fun r => word? (spaces r)) =
        (Bytes.after? k s).bind fun r => word? (spaces r) := by
    intro k hk
    -- keywords are made of word bytes
    have hb : b ∉ k := fun hmem => by
      rw [(isWordByte_of_mem_keywords k hk).2 b hmem] at hword
      cases hword
    rw [Bytes.after?_append_cons hb, Option.bind_map]
    refine congrArg _ (funext fun r => ?_)
    rw [Function.comp_apply, spaces_append_cons hspace, word?_append_cons hword]
  rw [nameBehind?, nameBehind?, word?_append_cons hword, ← List.head?_filterMap,
    ← List.head?_filterMap, List.filterMap_congr hkeyword]

/-- What follows a byte that is neither white space nor part of a word has no part in a name in
front of it. -/
theorem nameHere?_append_cons (hspace : isSpace b = false) (hword : isWordByte b = false)
    (s t : Bytes) : nameHere? (s ++ b :: t) = nameHere? s := by
  have hb : b ∉ ascii "export" := by
    intro hmem
    have hletters : ∀ c ∈ ascii "export", isWordByte c = true := by decide +kernel
    rw [hletters b hmem] at hword
    cases hword
  rw [nameHere?_eq_bind, nameHere?_eq_bind, Bytes.after?_append_cons hb, Option.bind_map]
  refine congrArg _ (funext fun r => ?_)
  rw [Function.comp_apply, spaces_append_cons hspace, nameBehind?_append_cons hspace hword]

/-- The text begins with `export`, and a word follows, with or without white space between. -/
theorem nameHere?_isSome_iff {s : Bytes} :
    (nameHere? s).isSome = true ↔
      ∃ space b rest, s = ascii "export" ++ (space ++ b :: rest) ∧ (∀ x ∈ space, isSpace x = true) ∧
        isWordByte b = true := by
  rw [nameHere?_eq_bind]
  constructor
  · intro h
    obtain ⟨name, hname⟩ := Option.isSome_iff_exists.1 h
    obtain ⟨r, hafter, hname⟩ := Option.bind_eq_some_iff.1 hname
    obtain ⟨b, rest, hspaces, hb⟩ :=
      nameBehind?_isSome_iff.1 (Option.isSome_iff_exists.2 ⟨name, hname⟩)
    -- the white space is what was passed over
    refine ⟨r.takeWhile isSpace, b, rest, ?_, fun x hx => List.mem_takeWhile_imp hx, hb⟩
    rw [Bytes.eq_append_of_after? hafter, ← hspaces, spaces, List.takeWhile_append_dropWhile]
  · intro ⟨space, b, rest, hs, hspace, hb⟩
    have hspaces : spaces (space ++ b :: rest) = b :: rest := by
      rw [spaces_append hspace]
      exact spaces_append_cons (isSpace_of_isWordByte hb) [] rest
    rw [hs, Bytes.after?_append, Option.bind_some, hspaces]
    exact nameBehind?_isSome_iff.2 ⟨b, rest, rfl, hb⟩

/-! ## The name behind any `export` -/

/-- The word `export` stands in the text, be it inside of another word, and a word byte stands
behind it or behind white space that follows it. -/
def HoldsExport (s : Bytes) : Prop :=
  ∃ front space b rest, s = front ++ (ascii "export" ++ (space ++ b :: rest)) ∧
    (∀ x ∈ space, isSpace x = true) ∧ isWordByte b = true

/-- No name is found exactly if none is there. -/
theorem boundName?_eq_none_iff {s : Bytes} : boundName? s = none ↔ ¬ HoldsExport s := by
  rw [boundName?, findSuffix?_eq_none_iff]
  constructor
  · intro h ⟨front, space, b, rest, hs, hspace, hb⟩
    have hnone := h _ ⟨front, hs.symm⟩
    have hsome := nameHere?_isSome_iff.2 ⟨space, b, rest, rfl, hspace, hb⟩
    rw [hnone] at hsome
    cases hsome
  · intro h t ⟨front, hs⟩
    -- a name at any place would be one that the text holds
    apply Option.not_isSome_iff_eq_none.1
    intro hsome
    obtain ⟨space, b, rest, ht, hspace, hb⟩ := nameHere?_isSome_iff.1 hsome
    exact h ⟨front, space, b, rest, by rw [← ht, hs], hspace, hb⟩

theorem boundName?_cons (b : UInt8) (s : Bytes) :
    boundName? (b :: s) = (nameHere? (b :: s)).or (boundName? s) :=
  findSuffix?_cons nameHere? b s

/-- A byte that is neither white space nor part of a word cuts the search in two. By induction on
what stands in front of it. -/
theorem boundName?_append_cons (hspace : isSpace b = false) (hword : isWordByte b = false)
    (s t : Bytes) : boundName? (s ++ b :: t) = (boundName? s).or (boundName? t) := by
  induction s with
  | nil =>
    -- no export begins with the byte itself
    have hnone : nameHere? (b :: t) = none := nameHere?_append_cons hspace hword [] t
    rw [List.nil_append, boundName?_cons, hnone]
    rfl
  | cons c s ih =>
    rw [List.cons_append, boundName?_cons, ih, ← List.cons_append,
      nameHere?_append_cons hspace hword, boundName?_cons, Option.or_assoc]

/-- No `export` begins in a text without the letter `e`. -/
theorem boundName?_append_of_notMem {front : Bytes} (h : octet 'e' ∉ front) (s : Bytes) :
    boundName? (front ++ s) = boundName? s := by
  induction front with
  | nil => rfl
  | cons c front ih =>
    rw [List.mem_cons, not_or] at h
    have hnone : nameHere? (c :: (front ++ s)) = none := by
      have hexport : ascii "export" = octet 'e' :: ascii "xport" := rfl
      rw [nameHere?_eq_bind, hexport, Bytes.after?, if_neg (by simpa using Ne.symm h.1)]
      rfl
    rw [List.cons_append, boundName?_cons, hnone, Option.none_or]
    exact ih h.2

/-! ## Re-exports -/

/-- A statement that passes on what another module exports: `export { a, b as c } from 'd'` and
`export * from 'd'`. What stands between the braces, white space included, and the path are any
texts. -/
inductive Reexport where
  | named (specifiers path : Bytes)
  | whole (path : Bytes)

namespace Reexport

/-- The source of the statement. -/
def text : Reexport → Bytes
  | .named specifiers path => ascii "export \x7b" ++ specifiers ++ ascii "\x7d from " ++ path
  | .whole path => ascii "export * from " ++ path

/-- The parts of the statement that are not fixed. -/
def parts : Reexport → List Bytes
  | .named specifiers path => [specifiers, path]
  | .whole path => [path]

/-- The name is looked for in the specifiers, and then in the path. -/
theorem boundName?_text (r : Reexport) : boundName? r.text = r.parts.findSome? boundName? := by
  have hexport : boundName? (ascii "export ") = none := by decide
  have hfrom : ∀ path, boundName? (ascii " from " ++ path) = boundName? path :=
    boundName?_append_of_notMem (by decide)
  cases r with
  | named specifiers path =>
    have htext : text (.named specifiers path) =
        ascii "export " ++ octet '{' :: (specifiers ++ octet '}' :: (ascii " from " ++ path)) := by
      simp [text, ascii]
    rw [htext, boundName?_append_cons (by decide) (by decide), hexport,
      boundName?_append_cons (by decide) (by decide), hfrom, parts, List.findSome?_cons]
    cases boundName? specifiers <;> simp
  | whole path =>
    have htext : text (.whole path) = ascii "export " ++ octet '*' :: (ascii " from " ++ path) :=
      rfl
    rw [htext, boundName?_append_cons (by decide) (by decide), hexport, hfrom]
    simp [parts]

end Reexport

end Statement

namespace Document

theorem boundNames_append (ns ns' : List Node) :
    boundNames ⟨ns ++ ns'⟩ = boundNames ⟨ns⟩ ++ boundNames ⟨ns'⟩ := by
  simp only [boundNames, exports, List.filterMap_append]

/-- An export adds the name that it binds. -/
theorem boundNames_exporting (source : Bytes) (ns : List Node) :
    boundNames ⟨.exporting source false :: ns⟩ =
      (Statement.boundName? source).toList ++ boundNames ⟨ns⟩ := by
  simp only [boundNames, exports, List.filterMap_cons, Node.export?]
  cases Statement.boundName? source <;> rfl

end Document

namespace Statement

/-- **When a re-export binds nothing.** No name is found in it, and none is added to those of a
document, exactly if neither its specifiers nor its path hold `export` with a word behind it. -/
theorem reexport_binds_nothing_iff (r : Reexport) :
    (boundName? r.text = none ↔ ∀ part ∈ r.parts, ¬ HoldsExport part) ∧
      ∀ before behind,
        Document.boundNames ⟨before ++ .exporting r.text false :: behind⟩ =
            Document.boundNames ⟨before ++ behind⟩ ↔
          ∀ part ∈ r.parts, ¬ HoldsExport part := by
  have hnone : boundName? r.text = none ↔ ∀ part ∈ r.parts, ¬ HoldsExport part := by
    simp only [r.boundName?_text, List.findSome?_eq_none_iff, boundName?_eq_none_iff]
  refine ⟨hnone, fun before behind => ?_⟩
  -- the names of the others are there in both documents
  rw [← hnone, Document.boundNames_append, Document.boundNames_append,
    Document.boundNames_exporting, List.append_cancel_left_eq]
  cases boundName? r.text <;> simp

/-- The path of the module holds `export` with a letter behind it, and that letter is taken for a
name. -/
theorem reexport_binds_exports :
    (Reexport.whole (ascii "'./exports'")).text = ascii "export * from './exports'" ∧
      boundName? (ascii "export * from './exports'") = some (ascii "s") ∧
      Document.boundNames ⟨[.exporting (ascii "export * from './exports'") false]⟩ =
        [ascii "s"] := by
  decide

end Statement

end DocTree
