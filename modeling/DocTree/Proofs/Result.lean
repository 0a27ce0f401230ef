/-!
# Results

Facts about results that are either a value or an error: when a changed result is a value, and when
a list of results is one.
-/

namespace DocTree

/-! ## One result -/

section

variable {ε ε' α β γ : Type}

/-- A result is a value after a change exactly if it was one before. -/
theorem map_eq_ok_iff {x : Except ε α} {f : α → β} {b : β} :
    x.map f = .ok b ↔ ∃ a, x = .ok a ∧ f a = b := by
  cases x <;> simp [Except.map]

/-- What a change leaves a value, it leaves one for a result with more values. -/
theorem map_eq_ok_mono {x y : Except ε α} (hxy : ∀ a, x = .ok a → y = .ok a) {f : α → β} {b : β}
    (h : x.map f = .ok b) : y.map f = .ok b := by
  obtain ⟨a, ha, rfl⟩ := map_eq_ok_iff.1 h
  exact map_eq_ok_iff.2 ⟨a, hxy a ha, rfl⟩

theorem map_map (f : β → γ) (g : α → β) (x : Except ε α) : (x.map g).map f = x.map (f ∘ g) := by
  cases x <;> rfl

/-- Changing the error makes no value of it. -/
theorem mapError_eq_ok_iff {x : Except ε α} {f : ε → ε'} {a : α} :
    x.mapError f = .ok a ↔ x = .ok a := by
  cases x with
  | error e => constructor <;> (intro h; cases h)
  | ok b => constructor <;> (intro h; cases h; rfl)

end

/-! ## Lists of results -/

section

variable {ε α β : Type} {f g : α → Except ε β} {a : α} {as : List α} {b : β} {bs : List β}

/-- The first member has a value, and so have the others. -/
theorem mapM_cons_eq_ok_iff :
    (a :: as).mapM f = .ok bs ↔ ∃ b rest, f a = .ok b ∧ as.mapM f = .ok rest ∧ b :: rest = bs := by
  rw [List.mapM_cons]
  cases f a <;> cases as.mapM f <;> simp [bind, Except.bind, pure, Except.pure]

/-- Only what is asked of the members counts. -/
theorem mapM_congr (h : ∀ a ∈ as, f a = g a) : as.mapM f = as.mapM g := by
  induction as with
  | nil => rfl
  | cons a as ih =>
    obtain ⟨ha, has⟩ := List.forall_mem_cons.1 h
    rw [List.mapM_cons, List.mapM_cons, ha, ih has]

/-- There are values for a list exactly if there is one for each of its members. -/
theorem exists_mapM_eq_ok_iff : (∃ bs, as.mapM f = .ok bs) ↔ ∀ a ∈ as, ∃ b, f a = .ok b := by
  induction as with
  | nil => exact ⟨fun _ => by simp, fun _ => ⟨[], rfl⟩⟩
  | cons a as ih =>
    rw [List.forall_mem_cons, ← ih]
    constructor
    · rintro ⟨bs, h⟩
      obtain ⟨b, rest, hb, hrest, -⟩ := mapM_cons_eq_ok_iff.1 h
      exact ⟨⟨b, hb⟩, rest, hrest⟩
    · rintro ⟨⟨b, hb⟩, rest, hrest⟩
      exact ⟨b :: rest, mapM_cons_eq_ok_iff.2 ⟨b, rest, hb, hrest, rfl⟩⟩

/-- The values for a list are those of its members. -/
theorem mem_of_mapM_eq_ok (h : as.mapM f = .ok bs) : b ∈ bs ↔ ∃ a ∈ as, f a = .ok b := by
  induction as generalizing bs with
  | nil =>
    obtain rfl := Except.ok.inj h
    simp
  | cons a as ih =>
    obtain ⟨first, rest, hfirst, hrest, rfl⟩ := mapM_cons_eq_ok_iff.1 h
    simp [ih hrest, hfirst, eq_comm]

end

end DocTree
