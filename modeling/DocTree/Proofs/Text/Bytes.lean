import DocTree.Text.Bytes

/-!
# Laws of byte strings

Cutting a beginning off undoes putting it in front, a byte that two texts do not hold marks where
they end, the bytes of joined texts are those of the texts and of the separator, and replacing goes
through a text from its front.
-/

namespace DocTree.Bytes

/-! ## Beginnings -/

/-- A beginning that was put in front is cut off again. -/
@[simp] theorem after?_append (start rest : Bytes) : after? start (start ++ rest) = some rest := by
  induction start with
  | nil => cases rest <;> rfl
  | cons b start ih => simpa [after?] using ih

/-- What is left once a beginning is cut off has it in front in the text. -/
theorem eq_append_of_after? {start s rest : Bytes} (h : after? start s = some rest) :
    s = start ++ rest := by
  fun_induction after? start s with
  | case1 s => simpa using h
  | case2 => cases h
  | case3 p ps b rest' hb ih =>
    have hbp : b = p := by simpa using hb
    rw [hbp, ih h, List.cons_append]
  | case4 => cases h

/-- A byte that is no part of a beginning is not looked at, nor what follows it. -/
theorem after?_append_cons {start : Bytes} {b : UInt8} (h : b ∉ start) (s t : Bytes) :
    after? start (s ++ b :: t) = (after? start s).map (· ++ b :: t) := by
  induction start generalizing s with
  | nil => cases s <;> rfl
  | cons p start ih =>
    rw [List.mem_cons, not_or] at h
    cases s with
    -- the beginning would have to go on with the byte
    | nil => simp [after?, h.1]
    | cons c s =>
      rw [List.cons_append, after?, after?]
      split
      · exact ih h.2 s
      · rfl

/-! ## Ends -/

/-- A byte that stands in neither text ends both. -/
theorem append_cons_inj {b : UInt8} {s t x y : Bytes} (hs : b ∉ s) (ht : b ∉ t)
    (h : s ++ b :: x = t ++ b :: y) : s = t ∧ x = y := by
  induction s generalizing t with
  | nil =>
    cases t with
    | nil => exact ⟨rfl, (List.cons.inj h).2⟩
    | cons c t =>
      obtain ⟨rfl, -⟩ := List.cons.inj h
      -- the second text would begin with the byte that ends the first
      exact absurd List.mem_cons_self ht
  | cons a s ih =>
    cases t with
    | nil =>
      obtain ⟨rfl, -⟩ := List.cons.inj h
      exact absurd List.mem_cons_self hs
    | cons c t =>
      obtain ⟨rfl, hrest⟩ := List.cons.inj h
      obtain ⟨rfl, rfl⟩ :=
        ih (List.not_mem_of_not_mem_cons hs) (List.not_mem_of_not_mem_cons ht) hrest
      exact ⟨rfl, rfl⟩

/-! ## Joined texts -/

@[simp] theorem join_nil (separator : Bytes) : join separator [] = [] := rfl

@[simp] theorem join_singleton (separator part : Bytes) : join separator [part] = part := by
  simp [join]

theorem join_cons_cons (separator part next : Bytes) (parts : List Bytes) :
    join separator (part :: next :: parts) =
      part ++ (separator ++ join separator (next :: parts)) := by
  simp [join, List.intercalate_cons_cons]

theorem join_cons_of_ne {parts : List Bytes} (h : parts ≠ []) (separator part : Bytes) :
    join separator (part :: parts) = part ++ (separator ++ join separator parts) := by
  obtain ⟨next, parts, rfl⟩ := List.exists_cons_of_ne_nil h
  exact join_cons_cons separator part next parts

/-- Joined texts begin with the first of them. -/
theorem join_cons_eq_append (separator part : Bytes) (parts : List Bytes) :
    ∃ rest, join separator (part :: parts) = part ++ rest := by
  cases parts with
  | nil => exact ⟨[], by simp⟩
  | cons next parts => exact ⟨_, join_cons_cons separator part next parts⟩

/-- Of texts that are joined by something there are at most as many as there are bytes, and one. -/
theorem length_le_length_join (separator : Bytes) (h : separator ≠ []) (parts : List Bytes) :
    parts.length ≤ (join separator parts).length + 1 := by
  induction parts with
  | nil => simp
  | cons part parts ih =>
    cases parts with
    | nil => simp
    | cons next parts =>
      have := List.length_pos_iff.2 h
      simp only [join_cons_cons, List.length_append, List.length_cons] at ih ⊢
      omega

/-- The bytes of joined texts are those of the separator and of the texts. -/
theorem mem_join {b : UInt8} {separator : Bytes} {parts : List Bytes}
    (h : b ∈ join separator parts) : b ∈ separator ∨ ∃ part ∈ parts, b ∈ part := by
  induction parts with
  | nil => simp [join] at h
  | cons part parts ih =>
    cases parts with
    | nil => exact Or.inr ⟨part, by simp, by simpa [join] using h⟩
    | cons next parts =>
      rw [join_cons_cons, List.mem_append, List.mem_append] at h
      -- in the first text, in the separator behind it, or in what is joined behind that
      rcases h with hpart | hsep | hrest
      · exact Or.inr ⟨part, by simp, hpart⟩
      · exact Or.inl hsep
      · rcases ih hrest with hsep | ⟨p, hp, hb⟩
        · exact Or.inl hsep
        · exact Or.inr ⟨p, List.mem_cons_of_mem _ hp, hb⟩

theorem mem_join_of_mem {b : UInt8} {part : Bytes} {parts : List Bytes} (separator : Bytes)
    (hp : part ∈ parts) (hb : b ∈ part) : b ∈ join separator parts := by
  induction parts with
  | nil => simp at hp
  | cons first parts ih =>
    cases parts with
    | nil =>
      have : part = first := by simpa using hp
      simpa [join, ← this] using hb
    | cons next parts =>
      rw [join_cons_cons, List.mem_append, List.mem_append]
      rcases List.mem_cons.1 hp with rfl | hp
      · exact Or.inl hb
      · exact Or.inr (Or.inr (ih hp))

/-! ## Replacing -/

/-- What is done already is put in front of the result as it is. -/
theorem replaceFrom_eq_append (target replacement : Bytes) (skip : Nat) (s done : Bytes) :
    replaceFrom target replacement skip s done =
      done.reverse ++ replaceFrom target replacement skip s [] := by
  induction s generalizing skip done with
  | nil => simp [replaceFrom]
  | cons b s ih =>
    cases skip with
    | succ skip => rw [replaceFrom, replaceFrom, ih]
    | zero =>
      rw [replaceFrom, replaceFrom]
      -- the target begins here, or the byte stays; either way the rest is done from a longer front
      split
      · rw [ih, ih _ (replacement.reverse ++ [])]
        simp
      · rw [ih, ih _ [b]]
        simp

/-- The bytes that are skipped, which belong to the target that was just replaced, are dropped. -/
theorem replaceFrom_skip (target replacement : Bytes) (skip : Nat) (s : Bytes) :
    replaceFrom target replacement skip s [] = replaceAll target replacement (s.drop skip) := by
  induction s generalizing skip with
  | nil => cases skip <;> rfl
  | cons b s ih =>
    cases skip with
    | zero => rfl
    | succ skip => rw [replaceFrom, ih, List.drop_succ_cons]

/-- A text that does not begin with the target keeps its first byte. -/
theorem replaceAll_cons {target : Bytes} {b : UInt8} {s : Bytes} (h : ¬ target <+: b :: s)
    (replacement : Bytes) :
    replaceAll target replacement (b :: s) = b :: replaceAll target replacement s := by
  rw [replaceAll, replaceFrom, if_neg (by simpa using h), replaceFrom_eq_append]
  rfl

/-- A target in front is replaced, and replacing goes on behind it. -/
theorem replaceAll_append {target : Bytes} (h : target ≠ []) (replacement s : Bytes) :
    replaceAll target replacement (target ++ s) =
      replacement ++ replaceAll target replacement s := by
  obtain ⟨b, more, rfl⟩ := List.exists_cons_of_ne_nil h
  -- the first byte makes the replacement, and the others of the target are skipped
  rw [List.cons_append, replaceAll, replaceFrom, if_pos (by simp), replaceFrom_eq_append,
    replaceFrom_skip]
  simp

/-- A byte other than the first one of the target stays. -/
theorem replaceAll_cons_of_ne {target : Bytes} {t b : UInt8} (htarget : target.head? = some t)
    (h : b ≠ t) (replacement s : Bytes) :
    replaceAll target replacement (b :: s) = b :: replaceAll target replacement s := by
  obtain ⟨more, rfl⟩ := List.head?_eq_some_iff.1 htarget
  -- a target in front would have this byte as its first
  refine replaceAll_cons (fun hprefix => h ?_) replacement
  obtain ⟨u, hu⟩ := hprefix
  exact (List.cons.inj hu).1.symm

/-- A text without the first byte of the target stays. -/
theorem replaceAll_of_notMem {target : Bytes} {t : UInt8} (htarget : target.head? = some t)
    {s : Bytes} (h : t ∉ s) (replacement : Bytes) : replaceAll target replacement s = s := by
  induction s with
  | nil => rfl
  | cons b s ih =>
    rw [List.mem_cons, not_or] at h
    rw [replaceAll_cons_of_ne htarget (Ne.symm h.1), ih h.2]

/-- A single byte is replaced wherever it stands. -/
theorem replaceAll_singleton (t : UInt8) (replacement s : Bytes) :
    replaceAll [t] replacement s = s.flatMap fun b => if b = t then replacement else [b] := by
  induction s with
  | nil => rfl
  | cons b s ih =>
    rw [List.flatMap_cons, ← ih]
    split
    · next h =>
      subst h
      exact replaceAll_append (List.cons_ne_nil b []) replacement s
    · next h => exact replaceAll_cons_of_ne rfl h replacement s

end DocTree.Bytes
