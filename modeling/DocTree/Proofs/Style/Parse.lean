import DocTree.Style

/-!
# What style text gives away

The declarations of a style text have names and values that are pieces of the text, and no name is
empty (`Declaration.Taken`, `taken_of_mem_parse`). So whatever holds of every byte of the text holds
of every byte of a declaration.
-/

namespace DocTree

variable {P : UInt8 → Prop}

/-! ## Cutting and trimming -/

namespace Bytes

theorem mem_of_mem_dropWords {words : List Bytes} {skip : Nat} {s : Bytes} {b : UInt8}
    (h : b ∈ dropWords words skip s) : b ∈ s := by
  fun_induction dropWords words skip s with
  | case1 => cases h
  | case2 skip c rest ih => exact List.mem_cons_of_mem c (ih h)
  | case3 c rest w _ ih => exact List.mem_cons_of_mem c (ih h)
  | case4 c rest _ => exact h

theorem mem_of_mem_trim {s : Bytes} {b : UInt8} (h : b ∈ trim s) : b ∈ s :=
  mem_of_mem_dropWords (List.mem_reverse.1 (mem_of_mem_dropWords (List.mem_reverse.1 h)))

end Bytes

namespace Style

/-- The pieces of a text are made of its bytes. -/
theorem forall_mem_splitFrom {separator : UInt8} {p : Position} {s piece : Bytes}
    {done : List Bytes} (hs : ∀ b ∈ s, P b) (hpiece : ∀ b ∈ piece, P b)
    (hdone : ∀ q ∈ done, ∀ b ∈ q, P b) :
    ∀ q ∈ splitFrom separator p s piece done, ∀ b ∈ q, P b := by
  -- a piece that is done with goes to the others
  have hclosed : ∀ {piece : Bytes}, (∀ b ∈ piece, P b) → ∀ {done : List Bytes},
      (∀ q ∈ done, ∀ b ∈ q, P b) → ∀ q ∈ piece.reverse :: done, ∀ b ∈ q, P b := by
    intro piece hpiece done hdone q hq b hb
    rcases List.mem_cons.1 hq with rfl | hq
    · exact hpiece b (List.mem_reverse.1 hb)
    · exact hdone q hq b hb
  induction s generalizing p piece done with
  | nil => exact fun q hq => hclosed hpiece hdone q (List.mem_reverse.1 hq)
  | cons c s ih =>
    have hrest : ∀ b ∈ s, P b := fun b hb => hs b (List.mem_cons_of_mem c hb)
    rw [splitFrom]
    split
    · exact ih hrest (by simp) (hclosed hpiece hdone)
    · refine ih hrest (fun b hb => ?_) hdone
      rcases List.mem_cons.1 hb with rfl | hb
      · exact hs b List.mem_cons_self
      · exact hpiece b hb

/-- So are the pieces of a whole text. -/
theorem forall_mem_split {separator : UInt8} {s : Bytes} (hs : ∀ b ∈ s, P b) :
    ∀ q ∈ split separator s, ∀ b ∈ q, P b :=
  forall_mem_splitFrom hs (by simp) (by simp)

/-! ## Declarations -/

/-- A declaration with a name, whose name and value are made of bytes with a property. -/
structure Declaration.Taken (P : UInt8 → Prop) (d : Declaration) : Prop where
  /-- The name is not empty. -/
  named : d.name ≠ []
  /-- The bytes of the name. -/
  name : ∀ b ∈ d.name, P b
  /-- The bytes of the value. -/
  value : ∀ b ∈ d.value, P b

/-- What a piece declares: its sides are taken from the piece, and neither is empty. -/
theorem declaration?_eq_some {piece : Bytes} {d : Declaration} (h : declaration? piece = some d) :
    ∃ first ∈ split (octet ':') piece, d.name = Bytes.trim first ∧
      d.value = Bytes.trim (piece.drop (first.length + 1)) ∧ d.name ≠ [] ∧ d.value ≠ [] ∧
      d.key = toKey d.name ∧ d.numeric = false := by
  unfold declaration? at h
  split at h
  · next first _ _ hsplit =>
    simp only at h
    split at h
    · cases h
    · next hempty =>
      obtain rfl := Option.some.inj h
      simp only [Bool.or_eq_true, List.isEmpty_iff, not_or] at hempty
      exact ⟨first, hsplit ▸ List.mem_cons_self, rfl, rfl, hempty.1, hempty.2, rfl, rfl⟩
  · cases h

theorem key_of_declaration? {piece : Bytes} {d : Declaration} (h : declaration? piece = some d) :
    d.key = toKey d.name := by
  obtain ⟨-, -, -, -, -, -, hkey, -⟩ := declaration?_eq_some h
  exact hkey

/-- The values in style text are strings. -/
theorem numeric_of_declaration? {piece : Bytes} {d : Declaration}
    (h : declaration? piece = some d) : d.numeric = false := by
  obtain ⟨-, -, -, -, -, -, -, hnumeric⟩ := declaration?_eq_some h
  exact hnumeric

/-- The declaration in a piece is taken from it. -/
theorem taken_of_declaration? {piece : Bytes} (hpiece : ∀ b ∈ piece, P b) {d : Declaration}
    (h : declaration? piece = some d) : d.Taken P := by
  obtain ⟨first, hmem, hname, hvalue, hnamed, -, -, -⟩ := declaration?_eq_some h
  have hfirst : ∀ b ∈ first, P b := forall_mem_split hpiece first hmem
  refine ⟨hnamed, fun b hb => ?_, fun b hb => ?_⟩
  · exact hfirst b (Bytes.mem_of_mem_trim (hname ▸ hb))
  · exact hpiece b (List.mem_of_mem_drop (Bytes.mem_of_mem_trim (hvalue ▸ hb)))

/-- The first declaration with a key keeps its place, and the last one gives the value. -/
theorem mergeable_revalue : Keyed.Mergeable Declaration.key Declaration.revalue where
  key_merge _ := rfl
  merge_self _ := rfl
  merge_merge _ _ _ := rfl

/-- What holds of the declaration in each piece, and is kept when one takes the value of another,
holds of all declarations. -/
theorem forall_mem_parse {D : Declaration → Prop} {css : Bytes}
    (hpiece : ∀ piece ∈ split (octet ';') css, ∀ d, declaration? piece = some d → D d)
    (hput : ∀ e d, D e → D d → D (e.revalue d)) : ∀ d ∈ parse css, D d := by
  refine Keyed.forall_mem_putAll (by simp) (fun e he => ?_) hput
  obtain ⟨piece, hmem, hdecl⟩ := List.mem_filterMap.1 he
  exact hpiece piece hmem e hdecl

/-- The declarations of a text are taken from it. -/
theorem taken_of_mem_parse {css : Bytes} (hcss : ∀ b ∈ css, P b) {d : Declaration}
    (h : d ∈ parse css) : d.Taken P := by
  refine forall_mem_parse (fun piece hmem e hdecl => ?_) (fun e d he hd => ?_) d h
  · exact taken_of_declaration? (forall_mem_split hcss piece hmem) hdecl
  · exact ⟨he.named, he.name, hd.value⟩

/-- So are all values of a style text. -/
theorem numeric_of_mem_parse {css : Bytes} {d : Declaration} (h : d ∈ parse css) :
    d.numeric = false :=
  forall_mem_parse (fun _ _ _ => numeric_of_declaration?) (fun _ _ he _ => he) d h

end Style

end DocTree
