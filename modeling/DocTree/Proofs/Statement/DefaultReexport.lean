import DocTree.Module
import DocTree.Proofs.Module.Outcome
import DocTree.Proofs.Statement.Shape

/-!
# Re-exports as the default

Two spellings of a re-export as the default are not supported, `export { default } from` and `export
{ x as default }`. Each is a shape that a statement begins with, and a `from` clause is a shape that
stands anywhere in it. `reexportsDefault_spellings` says that exactly these are found. The second
spelling may end at any `as default }` of its line, so all of them are tried
(`hasAsDefault_iff_exists`).

The first spelling ends in `from`, but a `from` clause wants white space behind that word. So a
statement in the first spelling may lack a `from` clause, and the complaint about it then shows the
example for the other spelling. `defaultFrom_example_iff` says when.
-/

namespace DocTree

namespace Statement

open scoped Computability

/-! ## The shapes -/

/-- The texts without a line feed. -/
def oneLine : Language UInt8 := {t | octet '\n' ∉ t}

/-- `export { default } from`: one white space byte behind `export` and behind the closing brace,
and at most one on the inner side of each brace. -/
def defaultFrom : Language UInt8 :=
  literal "export" * blank * literal "\x7b" * (1 + blank) * literal "default" * (1 + blank) *
    literal "\x7d" * blank * literal "from"

/-- `export { x as default }`, with any text in place of `x` that stays on the line. -/
def asDefault : Language UInt8 :=
  literal "export" * blank * literal "\x7b" * oneLine * literal "as" * blank * literal "default" *
    (1 + blank) * literal "\x7d"

/-- A closing brace, `from` and a white space byte, with any white space between the first two. -/
def fromClause : Language UInt8 := literal "\x7d" * blank∗ * literal "from" * blank

/-! ## The first spelling -/

theorem cutsOff_exportBrace? :
    CutsOff exportBrace? (literal "export" * (blank * literal "\x7b")) :=
  (cutsOff_after? _).bind (cutsOff_space?.bind (cutsOff_after? _))

/-- The steps of the first spelling cut off its shape. -/
theorem cutsOff_defaultFrom? : CutsOff defaultFrom? defaultFrom := by
  have hshape : defaultFrom = literal "export" * (blank * literal "\x7b") *
      ((1 + blank) * literal "default" *
        ((1 + blank) * literal "\x7d" * (blank * literal "from"))) := by
    simp only [defaultFrom, mul_assoc]
  rw [hshape]
  apply cutsOff_exportBrace?.bind
  apply (cutsOff_optionalSpace fun _ => rfl).bind
  apply (cutsOff_optionalSpace fun _ => rfl).bind
  exact cutsOff_space?.bind (cutsOff_after? _)

/-- The first spelling is found exactly if the statement begins with it. -/
theorem beginsDefaultFrom_iff {s : Bytes} :
    beginsDefaultFrom s = true ↔ ∃ p ∈ defaultFrom, p <+: s :=
  cutsOff_defaultFrom?.isSome_iff

/-! ## The second spelling -/

/-- `as default }`, the part of the second spelling that is looked for behind its first brace. -/
def asDefaultEnd : Language UInt8 :=
  literal "as" * blank * literal "default" * (1 + blank) * literal "\x7d"

theorem cutsOff_asDefaultEnd? : CutsOff asDefaultEnd? asDefaultEnd := by
  have hshape : asDefaultEnd =
      literal "as" * (blank * (literal "default" * ((1 + blank) * literal "\x7d"))) := by
    simp only [asDefaultEnd, mul_assoc]
  rw [hshape]
  apply (cutsOff_after? _).bind
  apply cutsOff_space?.bind
  exact (cutsOff_after? _).bind (cutsOff_optionalSpace fun _ => rfl)

theorem beginsAsDefault_iff {s : Bytes} :
    beginsAsDefault s = true ↔ ∃ p ∈ asDefaultEnd, p <+: s :=
  cutsOff_asDefaultEnd?.isSome_iff

/-- One place is tried, and then the next one on the line. -/
theorem hasAsDefault_cons {b : UInt8} {s : Bytes} :
    hasAsDefault (b :: s) = true ↔
      beginsAsDefault (b :: s) = true ∨ b ≠ octet '\n' ∧ hasAsDefault s = true := by
  have hline : (b == 10) = true ↔ b = octet '\n' := beq_iff_eq
  rw [hasAsDefault]
  split
  · next hhere => exact iff_of_true rfl (Or.inl hhere)
  · next hhere =>
    rw [or_iff_right hhere]
    -- the end of the line ends the search
    split
    · next hb => exact iff_of_false Bool.false_ne_true fun h => h.1 (hline.1 hb)
    · next hb => exact (and_iff_right (mt hline.2 hb)).symm

/-- All places up to the end of the line are tried. By induction on the text: the end stands in
front of it, or its first byte is one of those that are passed over. -/
theorem hasAsDefault_iff_exists {s : Bytes} :
    hasAsDefault s = true ↔
      ∃ passed rest, octet '\n' ∉ passed ∧ passed ++ rest = s ∧ beginsAsDefault rest = true := by
  induction s with
  | nil =>
    refine iff_of_false Bool.false_ne_true ?_
    rintro ⟨passed, rest, -, happend, hrest⟩
    rw [(List.append_eq_nil_iff.1 happend).2] at hrest
    cases hrest
  | cons b s ih =>
    rw [hasAsDefault_cons, ih]
    constructor
    · rintro (hhere | ⟨hb, passed, rest, hline, rfl, hrest⟩)
      · -- nothing is passed over
        exact ⟨[], b :: s, List.not_mem_nil, rfl, hhere⟩
      · exact ⟨b :: passed, rest, List.not_mem_cons_of_ne_of_not_mem (Ne.symm hb) hline, rfl, hrest⟩
    · rintro ⟨passed, rest, hline, happend, hrest⟩
      cases passed with
      | nil =>
        rw [List.nil_append] at happend
        exact Or.inl (happend ▸ hrest)
      | cons c passed =>
        obtain ⟨rfl, rfl⟩ := List.cons.inj happend
        rw [List.mem_cons, not_or] at hline
        exact Or.inr ⟨Ne.symm hline.1, passed, rest, hline.2, rfl, hrest⟩

/-- In terms of shapes: some text on the line, and `as default }` behind it. -/
theorem hasAsDefault_iff {s : Bytes} :
    hasAsDefault s = true ↔ ∃ p ∈ oneLine * asDefaultEnd, p <+: s := by
  rw [hasAsDefault_iff_exists]
  simp only [beginsAsDefault_iff]
  constructor
  · rintro ⟨passed, _, hline, rfl, p, hp, rest, rfl⟩
    exact ⟨passed ++ p, Language.append_mem_mul hline hp, rest, List.append_assoc passed p rest⟩
  · rintro ⟨_, ⟨passed, hline, p, hp, rfl⟩, rest, rfl⟩
    exact ⟨passed, p ++ rest, hline, (List.append_assoc passed p rest).symm, p, hp, rest, rfl⟩

/-- Both spellings together. -/
theorem reexportsDefault_iff {s : Bytes} :
    reexportsDefault s = true ↔ (∃ p ∈ defaultFrom, p <+: s) ∨ ∃ p ∈ asDefault, p <+: s := by
  have hshape : asDefault =
      literal "export" * (blank * literal "\x7b") * (oneLine * asDefaultEnd) := by
    simp only [asDefault, asDefaultEnd, mul_assoc]
  rw [reexportsDefault, Bool.or_eq_true, beginsDefaultFrom_iff, hshape,
    cutsOff_exportBrace?.prefix_mul_iff]
  -- the second spelling has the front of the first one, up to the brace
  apply or_congr_right
  cases exportBrace? s with
  | none => simp
  | some rest => simp [hasAsDefault_iff]

/-! ## The `from` clause -/

theorem cutsOff_fromClause? : CutsOff fromClause? fromClause := by
  have hshape : fromClause = literal "\x7d" * (blank∗ * literal "from" * blank) := by
    simp only [fromClause, mul_assoc]
  rw [hshape]
  apply (cutsOff_after? _).bind
  exact (cutsOff_spaces fun _ => rfl).bind cutsOff_space?

theorem hasFromClause_iff {s : Bytes} : hasFromClause s = true ↔ ∃ p ∈ fromClause, p <:+: s :=
  cutsOff_fromClause?.findSuffix?_isSome_iff

/-- **The spellings of a re-export as the default.** A statement is taken for one exactly if it
begins with one of the two spellings, and it has a `from` clause exactly if one stands anywhere in
it. -/
theorem reexportsDefault_spellings (s : Bytes) :
    (reexportsDefault s = true ↔ (∃ p ∈ defaultFrom, p <+: s) ∨ ∃ p ∈ asDefault, p <+: s) ∧
      (hasFromClause s = true ↔ ∃ p ∈ fromClause, p <:+: s) :=
  ⟨reexportsDefault_iff, hasFromClause_iff⟩

/-! ## The complaint about the first spelling -/

/-- A `from` clause begins here, or stands further behind. -/
theorem hasFromClause_cons (b : UInt8) (s : Bytes) :
    hasFromClause (b :: s) = ((fromClause? (b :: s)).isSome || hasFromClause s) := by
  rw [hasFromClause, findSuffix?_cons, Option.isSome_or, hasFromClause]

/-- A `from` clause begins with a closing brace. -/
theorem hasFromClause_cons_of_ne {b : UInt8} (h : b ≠ octet '}') (s : Bytes) :
    hasFromClause (b :: s) = hasFromClause s := by
  have hbrace : ascii "\x7d" = [octet '}'] := rfl
  have hnone : fromClause? (b :: s) = none := by
    rw [fromClause?, hbrace, Bytes.after?, if_neg (by simpa using h)]
    rfl
  rw [hasFromClause_cons, hnone, Option.isSome_none, Bool.false_or]

/-- No `from` clause begins in a text without a closing brace. -/
theorem hasFromClause_append_of_notMem {front : Bytes} (h : octet '}' ∉ front) (s : Bytes) :
    hasFromClause (front ++ s) = hasFromClause s := by
  induction front with
  | nil => rfl
  | cons b front ih =>
    rw [List.mem_cons, not_or] at h
    rw [List.cons_append, hasFromClause_cons_of_ne (Ne.symm h.1)]
    exact ih h.2

/-- Behind a closing brace, white space and `from`, all that is left to look for is white space. -/
theorem fromClause?_append {w : Bytes} (hw : w ∈ blank∗) (rest : Bytes) :
    fromClause? (ascii "\x7d" ++ (w ++ (ascii "from" ++ rest))) = space? rest := by
  have hspaces : spaces (w ++ (ascii "from" ++ rest)) = ascii "from" ++ rest := by
    rw [spaces_append (isSpace_of_mem_kstar hw)]
    exact spaces_eq_self rfl
  rw [fromClause?, Bytes.after?_append, Option.bind_eq_bind, Option.bind_some, hspaces,
    Bytes.after?_append, Option.bind_some]

/-- The first spelling up to its closing brace. -/
def defaultFront : Language UInt8 :=
  literal "export" * blank * literal "\x7b" * (1 + blank) * literal "default" * (1 + blank)

theorem lacks_brace_blank : Lacks (octet '}') blank := .of_blank (by decide)

theorem lacks_brace_defaultFront : Lacks (octet '}') defaultFront := by
  have hexport : Lacks (octet '}') (literal "export") := .of_literal (by decide)
  have hopen : Lacks (octet '}') (literal "\x7b") := .of_literal (by decide)
  have hdefault : Lacks (octet '}') (literal "default") := .of_literal (by decide)
  have hspace := lacks_brace_blank
  exact ((((hexport.mul hspace).mul hopen).mul hspace.optional).mul hdefault).mul hspace.optional

/-- Behind the first spelling, a `from` clause is there at once if white space follows. Otherwise it
has to stand further behind. -/
theorem hasFromClause_defaultFrom {p : Bytes} (hp : p ∈ defaultFrom) (rest : Bytes) :
    hasFromClause (p ++ rest) = ((space? rest).isSome || hasFromClause rest) := by
  have hshape : defaultFrom = defaultFront * (literal "\x7d" * (blank * literal "from")) := by
    simp only [defaultFrom, defaultFront, mul_assoc]
  rw [hshape] at hp
  obtain ⟨front, hfront, _, ⟨_, rfl, _, ⟨w, hw, _, rfl, rfl⟩, rfl⟩, rfl⟩ := hp
  have hhere : fromClause? (ascii "\x7d" ++ (w ++ ascii "from" ++ rest)) = space? rest := by
    rw [List.append_assoc]
    exact fromClause?_append (mem_kstar_of_mem_blank hw) rest
  -- the only closing brace of the spelling stands in front of `from`
  have hbehind : hasFromClause (w ++ ascii "from" ++ rest) = hasFromClause rest := by
    apply hasFromClause_append_of_notMem
    exact lacks_brace_blank.mul (.of_literal (by decide)) _ (Language.append_mem_mul hw rfl)
  calc hasFromClause (front ++ (ascii "\x7d" ++ (w ++ ascii "from")) ++ rest)
      = hasFromClause (ascii "\x7d" ++ (w ++ ascii "from" ++ rest)) := by
        rw [List.append_assoc,
          hasFromClause_append_of_notMem (lacks_brace_defaultFront front hfront), List.append_assoc]
    _ = ((space? rest).isSome || hasFromClause (w ++ ascii "from" ++ rest)) := by
        rw [← hhere]
        exact hasFromClause_cons _ _
    _ = ((space? rest).isSome || hasFromClause rest) := by rw [hbehind]

end Statement

/-- The complaint ends in the example with a `from` clause exactly if the statement has one. -/
theorem CompileError.fromExample_suffix_iff {source : Bytes} :
    reexportExample true <:+ (CompileError.defaultReexport source).message ↔
      Statement.hasFromClause source = true := by
  rw [CompileError.message]
  cases Statement.hasFromClause source with
  | true => exact iff_of_true (List.suffix_append _ _) rfl
  | false =>
    -- both examples end in the same line, and differ in the one above it
    exact iff_of_false (by decide +kernel) Bool.false_ne_true

namespace Statement

/-- **When the complaint about the first spelling shows the example for it.** A statement in the
first spelling is refused, whatever follows `from`. It counts as one with a `from` clause, and the
complaint shows the example with one, exactly if white space follows `from` or a `from` clause
stands further behind. -/
theorem defaultFrom_example_iff {p : Bytes} (hp : p ∈ defaultFrom) (rest : Bytes) :
    (hasFromClause (p ++ rest) = true ↔
      (∃ q ∈ blank, q <+: rest) ∨ ∃ q ∈ fromClause, q <:+: rest) ∧
    ∀ (o : CompileOptions) (before behind : List Node) (isDefault : Bool),
      Document.Supported ⟨before⟩ →
      Document.compile o ⟨before ++ .exporting (p ++ rest) isDefault :: behind⟩ =
          .error (.defaultReexport (p ++ rest)) ∧
        (reexportExample true <:+ (CompileError.defaultReexport (p ++ rest)).message ↔
          (∃ q ∈ blank, q <+: rest) ∨ ∃ q ∈ fromClause, q <:+: rest) := by
  have hclause : hasFromClause (p ++ rest) = true ↔
      (∃ q ∈ blank, q <+: rest) ∨ ∃ q ∈ fromClause, q <:+: rest := by
    rw [hasFromClause_defaultFrom hp, Bool.or_eq_true, cutsOff_space?.isSome_iff, hasFromClause_iff]
  have hrefused : reexportsDefault (p ++ rest) = true :=
    reexportsDefault_iff.2 (Or.inl ⟨p, hp, List.prefix_append p rest⟩)
  refine ⟨hclause, fun o before behind isDefault hbefore => ⟨?_, ?_⟩⟩
  · -- it is the first statement that is refused, since those before it are supported
    rw [Document.compile_eq_defaultReexport_iff, Document.defaultReexport?_eq_some_iff]
    exact ⟨before, isDefault, behind, rfl, hrefused, hbefore⟩
  · rw [CompileError.fromExample_suffix_iff, hclause]

/-- White space follows `from`, and the complaint shows the example for the spelling. -/
theorem defaultFrom_example_tab :
    ascii "export\t\x7bdefault \x7d from" ∈ defaultFrom ∧
      hasFromClause (ascii "export\t\x7bdefault \x7d from" ++ ascii "\t'./Layout'") = true ∧
      reexportExample true <:+
        (CompileError.defaultReexport
          (ascii "export\t\x7bdefault \x7d from" ++ ascii "\t'./Layout'")).message := by
  have hp : ascii "export\t\x7bdefault \x7d from" ∈ defaultFrom :=
    cutsOff_defaultFrom?.eq_some_nil_iff.1 rfl
  have hspace : ∃ q ∈ blank, q <+: ascii "\t'./Layout'" :=
    ⟨ascii "\t", ⟨octet '\t', by decide, rfl⟩, List.prefix_append (ascii "\t") (ascii "'./Layout'")⟩
  have h := defaultFrom_example_iff hp (ascii "\t'./Layout'")
  refine ⟨hp, h.1.2 (Or.inl hspace), ?_⟩
  exact ((h.2 {} [] [] true fun _ _ hmem => nomatch hmem).2).2 (Or.inl hspace)

/-- A quote follows `from`. The statement is refused in the first spelling, and the complaint shows
the example for the second one. -/
theorem defaultFrom_example_quote :
    ascii "export \x7b default \x7d from" ∈ defaultFrom ∧
      ascii "export \x7b default \x7d from" <+: ascii "export \x7b default \x7d from'./Layout'" ∧
      hasFromClause (ascii "export \x7b default \x7d from'./Layout'") = false ∧
      Document.compile {} ⟨[.exporting (ascii "export \x7b default \x7d from'./Layout'") false]⟩ =
        .error (.defaultReexport (ascii "export \x7b default \x7d from'./Layout'")) ∧
      reexportExample false <:+
        (CompileError.defaultReexport (ascii "export \x7b default \x7d from'./Layout'")).message ∧
      ¬ reexportExample true <:+
        (CompileError.defaultReexport
          (ascii "export \x7b default \x7d from'./Layout'")).message := by
  have hclause : hasFromClause (ascii "export \x7b default \x7d from'./Layout'") = false := rfl
  refine ⟨cutsOff_defaultFrom?.eq_some_nil_iff.1 rfl, ⟨ascii "'./Layout'", rfl⟩,
    hclause, rfl, ?_, ?_⟩
  · rw [CompileError.message, hclause]
    exact List.suffix_append _ _
  · rw [CompileError.fromExample_suffix_iff, hclause]
    exact Bool.false_ne_true

end Statement

end DocTree
