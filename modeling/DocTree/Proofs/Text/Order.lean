import DocTree.Text.Bytes
import Mathlib.Data.List.Nodup

/-!
# The order of byte strings

Byte strings are in a total order. A list of texts that increases all the way is determined by its
members (`Increasing.ext`), whatever order they were found in before they were sorted.
-/

namespace DocTree.Bytes

/-- Of two texts one comes first or they are the same. By induction on the first text, since the
order looks at the bytes from the front. -/
theorem le_total (a b : Bytes) : (le a b || le b a) = true := by
  induction a generalizing b with
  | nil => simp [le]
  | cons x a ih =>
    cases b with
    | nil => simp [le]
    | cons y b =>
      by_cases hxy : x = y
      · subst hxy
        simpa [le] using ih b
      · -- the first bytes decide
        simp only [le, beq_iff_eq, if_neg hxy, if_neg (Ne.symm hxy), Bool.or_eq_true,
          decide_eq_true_eq]
        exact UInt8.lt_or_lt_of_ne hxy

/-- Texts that come before each other are the same. -/
theorem le_antisymm {a b : Bytes} (h : le a b = true) (h' : le b a = true) : a = b := by
  induction a generalizing b with
  | nil =>
    cases b with
    | nil => rfl
    | cons y b => cases h'
  | cons x a ih =>
    cases b with
    | nil => cases h
    | cons y b =>
      by_cases hxy : x = y
      · subst hxy
        rw [ih (by simpa [le] using h) (by simpa [le] using h')]
      · -- the first bytes decide, and both ways they cannot
        simp only [le, beq_iff_eq, if_neg hxy, if_neg (Ne.symm hxy), decide_eq_true_eq] at h h'
        exact absurd h' (UInt8.lt_asymm h)

theorem le_trans {a b c : Bytes} (h : le a b = true) (h' : le b c = true) : le a c = true := by
  induction a generalizing b c with
  | nil => rfl
  | cons x a ih =>
    cases b with
    | nil => cases h
    | cons y b =>
      cases c with
      | nil => cases h'
      | cons z c =>
        -- the first pair of bytes that differ decides
        by_cases hxy : x = y <;> by_cases hyz : y = z
        · subst hxy hyz
          simp only [le, beq_self_eq_true, if_true] at h h' ⊢
          exact ih h h'
        · subst hxy
          simpa [le, hyz] using h'
        · subst hyz
          simpa [le, hxy] using h
        · simp only [le, beq_iff_eq, if_neg hxy, if_neg hyz, decide_eq_true_eq] at h h'
          have hxz := UInt8.lt_trans h h'
          simpa [le, UInt8.ne_of_lt hxz] using hxz

/-! ## Increasing lists -/

/-- Each text comes before those behind it. -/
def Increasing (texts : List Bytes) : Prop := texts.Pairwise fun a b => le a b = true ∧ a ≠ b

instance (texts : List Bytes) : Decidable (Increasing texts) :=
  inferInstanceAs (Decidable (texts.Pairwise fun a b => le a b = true ∧ a ≠ b))

theorem Increasing.nodup {texts : List Bytes} (h : Increasing texts) : texts.Nodup :=
  h.imp fun hab => hab.2

/-- An increasing list is determined by its members. -/
theorem Increasing.ext {texts texts' : List Bytes} (h : Increasing texts) (h' : Increasing texts')
    (hmem : ∀ x, x ∈ texts ↔ x ∈ texts') : texts = texts' := by
  -- two orderings of the same members, both in the order of the texts
  apply List.Perm.eq_of_pairwise _ h h'
  · exact (List.perm_ext_iff_of_nodup h.nodup h'.nodup).2 hmem
  · exact fun a b _ _ hab hba => le_antisymm hab.1 hba.1

theorem mem_sort {text : Bytes} {texts : List Bytes} : text ∈ sort texts ↔ text ∈ texts :=
  (List.mergeSort_perm texts le).mem_iff

/-- Sorting texts of which none stands twice gives an increasing list. -/
theorem increasing_sort {texts : List Bytes} (h : texts.Nodup) : Increasing (sort texts) := by
  have hsorted : (sort texts).Pairwise fun a b => le a b = true :=
    @List.pairwise_mergeSort _ le (fun _ _ _ => le_trans) le_total texts
  have hnodup : (sort texts).Nodup := (List.mergeSort_perm texts le).nodup_iff.2 h
  exact hsorted.and hnodup

/-- An increasing list is what sorting makes of its members, whatever order they are in. -/
theorem sort_eq_of_perm {texts texts' : List Bytes} (h : texts.Perm texts')
    (h' : Increasing texts') : sort texts = texts' := by
  refine (increasing_sort (h.nodup_iff.2 h'.nodup)).ext h' fun x => ?_
  rw [mem_sort, h.mem_iff]

/-- No text stands twice among those that are left. By induction on the number of texts, because the
recursion goes on with a filtered list and not with the tail. -/
theorem nodup_eraseDups (texts : List Bytes) : texts.eraseDups.Nodup := by
  induction hlength : texts.length using Nat.strongRecOn generalizing texts with
  | ind n ih =>
    cases texts with
    | nil => simp
    | cons text texts =>
      subst hlength
      -- what follows the first text is filtered, and so shorter
      rw [List.eraseDups_cons, List.nodup_cons]
      constructor
      · -- the first text is not among what passes the filter
        intro hmem
        simpa using (List.mem_filter.1 (List.mem_eraseDups.1 hmem)).2
      · exact ih _ (Nat.lt_succ_of_le (List.length_filter_le _ _)) _ rfl

/-- A text at the end is new, or it was there before. -/
theorem eraseDups_concat (texts : List Bytes) (text : Bytes) :
    (texts ++ [text]).eraseDups =
      if text ∈ texts then texts.eraseDups else texts.eraseDups ++ [text] := by
  rw [List.eraseDups_append]
  by_cases h : text ∈ texts
  · simp [List.removeAll, h]
  · simp [List.removeAll, h, List.eraseDups_cons]

end DocTree.Bytes
