import DocTree.Json.Read
import DocTree.Proofs.Result

/-!
# Runs over items and members

A successful pass over an array or an object is a sequence of rounds: an item or a member, and a
comma or the closing bracket behind it. `ItemsRun` and `MembersRun` are these sequences, without the
bound on the number of rounds. What each round keeps is then kept by the whole pass, by induction on
the run (`members_preserves`).

More room for nesting never changes what is read (`skip_mono`).
-/

namespace DocTree.Json

variable {σ : Type}

/-! ## Arrays -/

/-- The rounds from an item to the closing bracket. -/
inductive ItemsRun (item : σ → Bytes → Read σ) : σ → Bytes → σ → Bytes → Prop where
  /-- The last item has the bracket behind it. -/
  | last {acc acc' : σ} {s s' rest : Bytes} :
      item acc s = .ok (acc', s') → skipSpaces s' = octet ']' :: rest →
      ItemsRun item acc s acc' rest
  /-- Each other item has a comma behind it. -/
  | more {acc acc₁ acc' : σ} {s s₁ s₂ rest : Bytes} :
      item acc s = .ok (acc₁, s₁) → skipSpaces s₁ = octet ',' :: s₂ →
      ItemsRun item acc₁ s₂ acc' rest → ItemsRun item acc s acc' rest

/-- What the loop over items gives is the result of a run. One case for each way out of a round. -/
theorem itemsRun_of_itemsFrom {item : σ → Bytes → Read σ} {rounds : Bytes} {acc acc' : σ}
    {s rest : Bytes} (h : itemsFrom item rounds acc s = .ok (acc', rest)) :
    ItemsRun item acc s acc' rest := by
  fun_induction itemsFrom item rounds acc s with
  -- the rounds that fail
  | case1 | case2 | case4 | case6 => cases h
  | case3 rounds acc s acc₁ s₁ hitem b rest₁ hskip hb =>
    obtain ⟨rfl, rfl⟩ := Prod.mk.inj (Except.ok.inj h)
    have hb : b = octet ']' := by simpa using hb
    exact .last hitem (hb ▸ hskip)
  | case5 acc s acc₁ s₁ hitem b rest₁ hskip _ hb _ rounds ih =>
    have hb : b = octet ',' := by simpa using hb
    exact .more hitem (hb ▸ hskip) (ih h)

/-- An array is empty, or its items are a run. -/
theorem items_eq_ok {item : σ → Bytes → Read σ} {acc acc' : σ} {s rest : Bytes}
    (h : items item acc s = .ok (acc', rest)) :
    (acc' = acc ∧ skipSpaces s = octet ']' :: rest) ∨
      ItemsRun item acc (skipSpaces s) acc' rest := by
  unfold items at h
  split at h
  · next hs => exact Or.inr (hs ▸ itemsRun_of_itemsFrom h)
  · next b rest₁ hs =>
    split at h
    · next hb =>
      obtain ⟨rfl, rfl⟩ := Prod.mk.inj (Except.ok.inj h)
      have hb : b = octet ']' := by simpa using hb
      exact Or.inl ⟨rfl, hb ▸ hs⟩
    · exact Or.inr (hs ▸ itemsRun_of_itemsFrom h)

/-! ## Objects -/

/-- The rounds from a key to the closing brace. -/
inductive MembersRun (member : σ → Bytes → Bytes → Read σ) : σ → Bytes → σ → Bytes → Prop where
  /-- The last member has the brace behind it. -/
  | last {acc acc' : σ} {s key s₁ s₂ s₃ rest : Bytes} :
      string s = .ok (key, s₁) → expect (octet ':') s₁ = .ok s₂ →
      member acc key s₂ = .ok (acc', s₃) → skipSpaces s₃ = octet '}' :: rest →
      MembersRun member acc s acc' rest
  /-- Each other member has a comma behind it. -/
  | more {acc acc₁ acc' : σ} {s key s₁ s₂ s₃ s₄ rest : Bytes} :
      string s = .ok (key, s₁) → expect (octet ':') s₁ = .ok s₂ →
      member acc key s₂ = .ok (acc₁, s₃) → skipSpaces s₃ = octet ',' :: s₄ →
      MembersRun member acc₁ s₄ acc' rest → MembersRun member acc s acc' rest

/-- What the loop over members gives is the result of a run. -/
theorem membersRun_of_membersFrom {member : σ → Bytes → Bytes → Read σ} {rounds : Bytes}
    {acc acc' : σ} {s rest : Bytes} (h : membersFrom member rounds acc s = .ok (acc', rest)) :
    MembersRun member acc s acc' rest := by
  fun_induction membersFrom member rounds acc s with
  | case1 | case2 | case3 | case4 | case6 | case8 => cases h
  | case5 rounds acc s key s₁ hkey s₂ hcolon acc₁ s₃ hmember b rest₁ hskip hb =>
    obtain ⟨rfl, rfl⟩ := Prod.mk.inj (Except.ok.inj h)
    have hb : b = octet '}' := by simpa using hb
    exact .last hkey hcolon hmember (hb ▸ hskip)
  | case7 acc s key s₁ hkey s₂ hcolon acc₁ s₃ hmember b rest₁ hskip _ hb _ rounds ih =>
    have hb : b = octet ',' := by simpa using hb
    exact .more hkey hcolon hmember (hb ▸ hskip) (ih h)

/-- An object is empty, or its members are a run. -/
theorem members_eq_ok {member : σ → Bytes → Bytes → Read σ} {acc acc' : σ} {s rest : Bytes}
    (h : members member acc s = .ok (acc', rest)) :
    (acc' = acc ∧ skipSpaces s = octet '}' :: rest) ∨
      MembersRun member acc (skipSpaces s) acc' rest := by
  unfold members at h
  split at h
  · cases h
  · next b rest₁ hs =>
    split at h
    · next hb =>
      obtain ⟨rfl, rfl⟩ := Prod.mk.inj (Except.ok.inj h)
      have hb : b = octet '}' := by simpa using hb
      exact Or.inl ⟨rfl, hb ▸ hs⟩
    · split at h
      · exact Or.inr (hs ▸ membersRun_of_membersFrom h)
      · cases h

/-- What every member keeps, an object keeps. -/
theorem members_preserves {P : σ → Prop} {member : σ → Bytes → Bytes → Read σ}
    (hmember : ∀ acc key s acc' rest, P acc → member acc key s = .ok (acc', rest) → P acc')
    {acc acc' : σ} {s rest : Bytes} (hacc : P acc) (h : members member acc s = .ok (acc', rest)) :
    P acc' := by
  rcases members_eq_ok h with ⟨rfl, -⟩ | hrun
  · exact hacc
  · generalize skipSpaces s = t at hrun
    clear h
    -- by induction on the run; where it begins does not matter
    induction hrun with
    | last _ _ hread _ => exact hmember _ _ _ _ _ hacc hread
    | more _ _ hread _ _ ih => exact ih (hmember _ _ _ _ _ hacc hread)

/-! ## More room -/

/-- A reader of items that gives more gives more in each round of the loop. -/
theorem itemsFrom_mono {item item' : σ → Bytes → Read σ}
    (h : ∀ acc s r, item acc s = .ok r → item' acc s = .ok r) {rounds : Bytes} {acc : σ} {s : Bytes}
    {r : σ × Bytes} (hread : itemsFrom item rounds acc s = .ok r) :
    itemsFrom item' rounds acc s = .ok r := by
  fun_induction itemsFrom item rounds acc s with
  | case1 | case2 | case4 | case6 => cases hread
  | case3 rounds acc s acc₁ s₁ hitem b rest hskip hb =>
    rw [itemsFrom.eq_def]
    simp only [h _ _ _ hitem, hskip, hb, if_true]
    exact hread
  | case5 acc s acc₁ s₁ hitem b rest hskip hclose hcomma _ rounds ih =>
    rw [itemsFrom.eq_def]
    simp only [h _ _ _ hitem, hskip, hclose, hcomma, if_true]
    exact ih hread

/-- A reader of items that gives more gives more of arrays. -/
theorem items_mono {item item' : σ → Bytes → Read σ}
    (h : ∀ acc s r, item acc s = .ok r → item' acc s = .ok r) {acc : σ} {s : Bytes} {r : σ × Bytes}
    (hread : items item acc s = .ok r) : items item' acc s = .ok r := by
  unfold items at hread ⊢
  split at hread
  · exact itemsFrom_mono h hread
  · split at hread
    · next hb => rw [if_pos hb]; exact hread
    · next hb => rw [if_neg hb]; exact itemsFrom_mono h hread

/-- A reader of members that gives more gives more in each round of the loop. -/
theorem membersFrom_mono {member member' : σ → Bytes → Bytes → Read σ}
    (h : ∀ acc key s r, member acc key s = .ok r → member' acc key s = .ok r) {rounds : Bytes}
    {acc : σ} {s : Bytes} {r : σ × Bytes} (hread : membersFrom member rounds acc s = .ok r) :
    membersFrom member' rounds acc s = .ok r := by
  fun_induction membersFrom member rounds acc s with
  | case1 | case2 | case3 | case4 | case6 | case8 => cases hread
  | case5 rounds acc s key s₁ hkey s₂ hcolon acc₁ s₃ hmember b rest hskip hb =>
    rw [membersFrom.eq_def]
    simp only [hkey, hcolon, h _ _ _ _ hmember, hskip, hb, if_true]
    exact hread
  | case7 acc s key s₁ hkey s₂ hcolon acc₁ s₃ hmember b rest hskip hclose hcomma _ rounds ih =>
    rw [membersFrom.eq_def]
    simp only [hkey, hcolon, h _ _ _ _ hmember, hskip, hclose, hcomma, if_true]
    exact ih hread

/-- A reader of members that gives more gives more of objects. -/
theorem members_mono {member member' : σ → Bytes → Bytes → Read σ}
    (h : ∀ acc key s r, member acc key s = .ok r → member' acc key s = .ok r) {acc : σ} {s : Bytes}
    {r : σ × Bytes} (hread : members member acc s = .ok r) : members member' acc s = .ok r := by
  unfold members at hread ⊢
  split at hread
  · cases hread
  · split at hread
    · next hb => rw [if_pos hb]; exact hread
    · next hb =>
      rw [if_neg hb]
      split at hread
      · next hquote => rw [if_pos hquote]; exact membersFrom_mono h hread
      · cases hread

/-- A scalar can be passed over with any room. -/
theorem skip_of_skipScalar {s rest : Bytes} (h : skipScalar s = .ok rest) (room : Nat) :
    skip room s = .ok rest := by
  cases room with
  | zero => exact h
  | succ room =>
    unfold skip
    split
    · -- an array or an object is no scalar
      next hkind => simp [skipScalar, hkind] at h
    · next hkind => simp [skipScalar, hkind] at h
    · exact h

/-- What can be passed over can be passed over with more room for nesting. By induction on the
room. -/
theorem skip_mono {room room' : Nat} (h : room ≤ room') {s rest : Bytes}
    (hread : skip room s = .ok rest) : skip room' s = .ok rest := by
  induction room generalizing room' s rest with
  | zero => exact skip_of_skipScalar hread room'
  | succ room ih =>
    obtain ⟨room', rfl⟩ : ∃ k, room' = k + 1 := ⟨room' - 1, by omega⟩
    -- what stands in an array or an object is passed over with one level less
    have hskip : ∀ s r, (skip room s).map ((), ·) = .ok r → (skip room' s).map ((), ·) = .ok r :=
      fun s r => map_eq_ok_mono fun _ => ih (Nat.le_of_succ_le_succ h)
    unfold skip at hread ⊢
    split at hread
    · exact map_eq_ok_mono (fun _ => items_mono fun _ => hskip) hread
    · exact map_eq_ok_mono (fun _ => members_mono fun _ _ => hskip) hread
    · exact hread

theorem map_skip_mono {α : Type} {room room' : Nat} (h : room ≤ room') {s : Bytes} {a : α}
    {r : α × Bytes} (hread : (skip room s).map (a, ·) = .ok r) :
    (skip room' s).map (a, ·) = .ok r :=
  map_eq_ok_mono (fun _ => skip_mono h) hread

end DocTree.Json
