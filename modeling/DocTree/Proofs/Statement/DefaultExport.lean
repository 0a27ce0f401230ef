import DocTree.Proofs.Statement.Shape

/-!
# Expressions of default exports

A default export is `export default` and an expression, with or without a semicolon at the end. The
expression is what is left when `export default` is taken off the front and one semicolon off the
end, with the white space behind it. Each is taken off once: an expression may itself begin with
`export default`, hold semicolons and end in more of them, and it is found as it was written
(`DefaultExport.defaultExpression_text`).
-/

namespace DocTree.Statement

open scoped Computability

/-! ## The end -/

/-- A semicolon and white space of any length. -/
def semicolonEnd : Language UInt8 := literal ";" * blank∗

/-- A semicolon, and white space bytes behind it. -/
theorem mem_semicolonEnd {q : Bytes} :
    q ∈ semicolonEnd ↔ ∃ w, (∀ b ∈ w, isSpace b = true) ∧ q = octet ';' :: w := by
  constructor
  · rintro ⟨_, rfl, w, hw, rfl⟩
    exact ⟨w, isSpace_of_mem_kstar hw, rfl⟩
  · rintro ⟨w, hw, rfl⟩
    refine ⟨ascii ";", rfl, w, mem_kstar_blank.2 fun b hb => ?_, rfl⟩
    exact mem_whiteSpace_iff.2 (hw b hb)

/-- What stands in front of the last semicolon is kept, whatever it ends in. -/
theorem dropSemicolon_append {q : Bytes} (hq : q ∈ semicolonEnd) (s : Bytes) :
    dropSemicolon (s ++ q) = s := by
  obtain ⟨w, hw, rfl⟩ := mem_semicolonEnd.1 hq
  -- read from the end, the white space is dropped and the semicolon comes next
  have hreverse : (s ++ octet ';' :: w).reverse.dropWhile isSpace = octet ';' :: s.reverse := by
    rw [List.reverse_append, List.reverse_cons, List.append_assoc, List.singleton_append,
      List.dropWhile_append_of_pos fun b hb => hw b (List.mem_reverse.1 hb)]
    exact List.dropWhile_cons_of_neg (by decide)
  rw [dropSemicolon, hreverse]
  show (if (octet ';' == octet ';') = true then s.reverse.reverse else _) = s
  rw [if_pos (beq_self_eq_true _), List.reverse_reverse]

/-- A text without a semicolon at its end stays as it is. -/
theorem dropSemicolon_eq_self {s : Bytes} (h : ¬ ∃ q ∈ semicolonEnd, q <:+ s) :
    dropSemicolon s = s := by
  rw [dropSemicolon]
  split
  · next b rest hrest =>
    have hb : (b == octet ';') ≠ true := by
      intro hb
      -- the white space at the end, and the semicolon in front of it, have the shape
      apply h
      refine ⟨octet ';' :: (s.reverse.takeWhile isSpace).reverse, ?_, rest.reverse, ?_⟩
      · refine mem_semicolonEnd.2 ⟨_, fun c hc => ?_, rfl⟩
        exact List.mem_takeWhile_imp (List.mem_reverse.1 hc)
      · calc rest.reverse ++ octet ';' :: (s.reverse.takeWhile isSpace).reverse
            = (s.reverse.takeWhile isSpace ++ octet ';' :: rest).reverse := by simp
          _ = (s.reverse.takeWhile isSpace ++ s.reverse.dropWhile isSpace).reverse := by
              rw [hrest, beq_iff_eq.1 hb]
          _ = s := by rw [List.takeWhile_append_dropWhile, List.reverse_reverse]
    rw [if_neg hb]
  · rfl

/-- A text stays as it is exactly if it has no semicolon at its end. -/
theorem dropSemicolon_eq_self_iff {s : Bytes} :
    dropSemicolon s = s ↔ ¬ ∃ q ∈ semicolonEnd, q <:+ s := by
  refine ⟨?_, dropSemicolon_eq_self⟩
  rintro h ⟨q, hq, front, rfl⟩
  rw [dropSemicolon_append hq, List.self_eq_append_right] at h
  obtain ⟨w, -, hw⟩ := mem_semicolonEnd.1 hq
  exact absurd (hw.symm.trans h) (List.cons_ne_nil _ w)

/-! ## The front -/

/-- A default export: what stands behind `export default` begins where the white space ends. -/
structure DefaultExport where
  /-- The white space behind `export`. -/
  gap : Bytes
  /-- The white space behind `default`. -/
  space : Bytes
  expression : Bytes
  gap_mem : gap ∈ blanks
  space_mem : space ∈ blanks
  expression_head : ∀ b ∈ expression.head?, b ∉ whiteSpace

namespace DefaultExport

variable (d : DefaultExport)

def text : Bytes := ascii "export" ++ d.gap ++ ascii "default" ++ d.space ++ d.expression

/-- `export default` is taken off, and nothing of what follows. The expression may be empty, so what
follows it must not begin with white space either. -/
theorem dropExportDefault_text (rest : Bytes) (hrest : space? rest = none) :
    dropExportDefault (d.text ++ rest) = d.expression ++ rest := by
  have hexpression : spaces (d.expression ++ rest) = d.expression ++ rest := by
    apply spaces_eq_self
    -- the white space ends at the expression, or at what follows it
    cases hexpr : d.expression with
    | nil => exact hrest
    | cons b more =>
      have hb : isSpace b ≠ true := fun h =>
        d.expression_head b (by rw [hexpr]; rfl) (mem_whiteSpace_iff.2 h)
      rw [List.cons_append, space?, if_neg hb]
  have hdefault : spaces (ascii "default" ++ (d.space ++ (d.expression ++ rest))) =
      ascii "default" ++ (d.space ++ (d.expression ++ rest)) := spaces_eq_self rfl
  simp only [text, List.append_assoc]
  rw [dropExportDefault, Bytes.after?_append, Option.bind_eq_bind, Option.bind_some,
    spaces?_append d.gap_mem, hdefault, Option.bind_some, Bytes.after?_append, Option.bind_some,
    spaces?_append d.space_mem, hexpression, Option.getD_some]

/-- **The expression of a default export is found.** With a semicolon at the end of the export, the
expression is found as it was written. Without one, it is found exactly if it does not itself end in
a semicolon. -/
theorem defaultExpression_text :
    (∀ q ∈ semicolonEnd, defaultExpression (d.text ++ q) = d.expression) ∧
      (defaultExpression d.text = d.expression ↔ ¬ ∃ q ∈ semicolonEnd, q <:+ d.expression) := by
  constructor
  · intro q hq
    obtain ⟨w, -, rfl⟩ := mem_semicolonEnd.1 hq
    rw [defaultExpression, d.dropExportDefault_text _ rfl]
    exact dropSemicolon_append hq d.expression
  · have hfront : dropExportDefault d.text = d.expression := by
      simpa only [List.append_nil] using d.dropExportDefault_text [] rfl
    rw [defaultExpression, hfront, dropSemicolon_eq_self_iff]

/-- An expression that begins with `export default` and ends in semicolons. -/
theorem defaultExpression_text_nested :
    octet ';' :: ascii "\n" ∈ semicolonEnd ∧
      defaultExpression (ascii "export  default\texport default a;\n; ;\n") =
        ascii "export default a;\n; " := by
  have hend : octet ';' :: ascii "\n" ∈ semicolonEnd :=
    mem_semicolonEnd.2 ⟨ascii "\n", by decide +kernel, rfl⟩
  let d : DefaultExport :=
    ⟨ascii "  ", ascii "\t", ascii "export default a;\n; ", mem_blanks.2 (by decide +kernel),
    mem_blanks.2 (by decide +kernel), by decide +kernel⟩
  exact ⟨hend, d.defaultExpression_text.1 _ hend⟩

end DefaultExport

end DocTree.Statement
