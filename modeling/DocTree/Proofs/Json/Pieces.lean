import DocTree.Proofs.Json.Extent

/-!
# Pieces of arrays and objects

Cut at its commas outside strings and brackets, the inside of an array or an object falls into
pieces. A reader that gets through a piece at all gets exactly to its end
(`exists_extent_of_piece`): the text of an item or a member alone decides what is read from it, and
what stands behind it has no say. So two texts with the same pieces in front agree if they agree
behind them (`Rounds.of_pieces`).
-/

namespace DocTree.Json

variable {α σ : Type}

/-! ## White space -/

/-- There is nothing but white space. -/
def Blank (s : Bytes) : Prop := ∀ b ∈ s, isSpace b = true

theorem Blank.nil : Blank [] := by simp [Blank]

theorem Blank.append {s t : Bytes} (hs : Blank s) (ht : Blank t) : Blank (s ++ t) := by
  intro b hb
  rcases List.mem_append.1 hb with hb | hb
  · exact hs b hb
  · exact ht b hb

theorem Blank.balanced {s : Bytes} (h : Blank s) : Balanced s := after?_spaces h 0

theorem Blank.skipSpaces_append {s : Bytes} (h : Blank s) (t : Bytes) :
    skipSpaces (s ++ t) = skipSpaces t :=
  Json.skipSpaces_append h t

/-- Of white space nothing is left when it is passed over. -/
theorem blank_iff {s : Bytes} : Blank s ↔ skipSpaces s = [] := by
  simp [Blank, skipSpaces]

/-- Passing over white space does not go past the first text, if that is more than white space. -/
theorem skipSpaces_append_of_ne {s : Bytes} (h : skipSpaces s ≠ []) (t : Bytes) :
    skipSpaces (s ++ t) = skipSpaces s ++ t := by
  obtain ⟨spaces, hspaces, hsplit⟩ := exists_spaces s
  cases hs : skipSpaces s with
  | nil => exact absurd hs h
  | cons b rest =>
    rw [hsplit, hs, List.append_assoc, skipSpaces_append hspaces, List.cons_append]
    exact skipSpaces_cons (isSpace_head_skipSpaces hs) _

theorem Blank.head_append {s : Bytes} (h : Blank s) {b : UInt8} (hb : isSpace b = false)
    (t : Bytes) : (skipSpaces (s ++ b :: t)).head? = some b := by
  rw [h.skipSpaces_append, skipSpaces_cons hb]
  rfl

/-! ## Stops -/

theorem isNumberByte_of_isStop {b : UInt8} (h : isStop b = true) : isNumberByte b = false := by
  cases hb : isNumberByte b with
  | false => rfl
  | true =>
    rw [isStop, role_of_isNumberByte hb] at h
    cases h

theorem isSpace_of_isStop {b : UInt8} (h : isStop b = true) : isSpace b = false := by
  cases hb : isSpace b with
  | false => rfl
  | true =>
    rw [isStop, role_of_isSpace hb] at h
    cases h

/-- A balanced text is balanced without the white space in front. -/
theorem Balanced.skipSpaces {s : Bytes} (h : Balanced s) : Balanced (Json.skipSpaces s) := by
  obtain ⟨spaces, hspaces, hsplit⟩ := exists_spaces s
  have hblank : Balanced spaces := Blank.balanced hspaces
  exact hblank.of_append (hsplit ▸ h)

/-- A piece with a stop behind it, read by a reader after which a stop comes next, is read to its
end. -/
theorem exists_extent_of_piece {read : Bytes → Read α} (hread : Local True .outer read) {a : α}
    {piece t rest t' : Bytes} {b b' : UInt8} (hpiece : Balanced piece) (hb : isStop b = true)
    (h : read (piece ++ b :: t) = .ok (a, rest)) (hskip : skipSpaces rest = b' :: t')
    (hb' : isStop b' = true) :
    b' = b ∧ t' = t ∧
      ∃ used spaces, piece = used ++ spaces ∧ Blank spaces ∧ Extent True .outer read used a := by
  obtain ⟨used, hsplit, hused⟩ := hread _ _ _ h
  obtain ⟨left, rfl, rfl, hleft⟩ :=
    Balanced.eq_append_of_stop hused.whole.balanced hpiece hb hsplit.symm
  by_cases hblank : Blank left
  · rw [hblank.skipSpaces_append, skipSpaces_cons (isSpace_of_isStop hb)] at hskip
    -- only white space is left of the piece, so the next stop is the one behind it
    obtain ⟨rfl, rfl⟩ := List.cons.inj hskip
    exact ⟨rfl, rfl, used, left, rfl, hblank, hused⟩
  · -- something is left of the piece, and it does not begin with a stop
    rw [blank_iff] at hblank
    rw [skipSpaces_append_of_ne hblank] at hskip
    have hleft := hleft.skipSpaces
    cases hs : skipSpaces left with
    | nil => exact absurd hs hblank
    | cons c more =>
      rw [hs] at hskip hleft
      obtain ⟨rfl, -⟩ := List.cons.inj hskip
      rw [hleft.isStop_head] at hb'
      cases hb'

/-- In front of another stop the same is read, and the reader gets to the stop. -/
theorem Extent.reads_stop {read : Bytes → Read α} {used spaces : Bytes} {a : α}
    (h : Extent True .outer read used a) (hspaces : Blank spaces) {b : UInt8} (hb : isStop b = true)
    (t : Bytes) : read (used ++ spaces ++ b :: t) = .ok (a, spaces ++ b :: t) ∧
      skipSpaces (spaces ++ b :: t) = b :: t := by
  constructor
  · rw [List.append_assoc]
    exact h.reads _ fun _ => endsNumber_spaces hspaces
      (endsNumber_cons (isNumberByte_of_isStop hb) t)
  · rw [hspaces.skipSpaces_append, skipSpaces_cons (isSpace_of_isStop hb)]

/-! ## Pieces in front -/

/-- Pieces with a comma behind each. -/
inductive Pieces : Bytes → Prop where
  | nil : Pieces []
  | cons {piece rest : Bytes} :
      Balanced piece → Pieces rest → Pieces (piece ++ octet ',' :: rest)

/-- A piece that is not blank begins with a byte that closes nothing. -/
theorem Balanced.head {piece : Bytes} (hpiece : Balanced piece) (hblank : ¬ Blank piece) :
    ∃ b, Role.ofByte b ≠ .closing ∧ ∀ s, (Json.skipSpaces (piece ++ s)).head? = some b := by
  rw [blank_iff] at hblank
  have hbalanced := hpiece.skipSpaces
  cases hs : Json.skipSpaces piece with
  | nil => exact absurd hs hblank
  | cons b more =>
    rw [hs] at hbalanced
    refine ⟨b, fun hclosing => ?_, fun s => ?_⟩
    · have hstop := hbalanced.isStop_head
      rw [isStop, hclosing] at hstop
      cases hstop
    · rw [skipSpaces_append_of_ne hblank, hs]
      rfl

/-- With pieces in front, a text does not begin with a closing bracket unless it did before. -/
theorem Pieces.head {lead : Bytes} (h : Pieces lead) {b : UInt8} (hb : Role.ofByte b ≠ .closing) :
    ∃ c, Role.ofByte c ≠ .closing ∧
      ∀ s, (skipSpaces s).head? = some b → (skipSpaces (lead ++ s)).head? = some c := by
  cases h with
  | nil => exact ⟨b, hb, fun s hs => hs⟩
  | @cons piece rest hpiece _ =>
    by_cases hblank : Blank piece
    · -- behind a blank piece the comma comes next
      refine ⟨octet ',', by decide, fun s _ => ?_⟩
      rw [List.append_assoc, hblank.skipSpaces_append, List.cons_append, skipSpaces_cons rfl]
      rfl
    · obtain ⟨c, hc, hhead⟩ := hpiece.head hblank
      refine ⟨c, hc, fun s _ => ?_⟩
      rw [List.append_assoc]
      exact hhead _

section

variable {close : UInt8} {round : σ → Bytes → Read σ}

/-- What is read behind some pieces does not depend on them: by induction on the pieces. -/
theorem Rounds.of_pieces (hround : ∀ acc, Local True .outer (round acc))
    (hclose : Role.ofByte close = .closing) {s s' : Bytes}
    (h : ∀ acc acc' rest, Rounds close round acc s acc' rest → Rounds close round acc s' acc' rest)
    {lead : Bytes} (hlead : Pieces lead) {acc acc' : σ} {rest : Bytes}
    (hrun : Rounds close round acc (lead ++ s) acc' rest) :
    Rounds close round acc (lead ++ s') acc' rest := by
  have hstop : isStop close = true := by rw [isStop, hclose]; rfl
  induction hlead generalizing acc with
  | nil => exact h _ _ _ hrun
  | @cons piece more hpiece _ ih =>
    rw [List.append_assoc, List.cons_append] at hrun ⊢
    cases hrun with
    | last hread hskip =>
      -- the loop cannot end at a comma
      obtain ⟨rfl, -⟩ := exists_extent_of_piece (hround acc) hpiece rfl hread hskip hstop
      cases hclose
    | more hread hskip hrun =>
      -- the round reads the piece and nothing else, so it reads it in the other text as well
      obtain ⟨-, rfl, used, spaces, rfl, hblank, hused⟩ :=
        exists_extent_of_piece (hround acc) hpiece rfl hread hskip rfl
      obtain ⟨hread', hskip'⟩ := hused.reads_stop hblank (b := octet ',') rfl (more ++ s')
      exact .more hread' hskip' (ih hrun)

/-- White space in front of the rounds does not matter, if it does not matter to a round. -/
theorem Rounds.skipSpaces_iff (hspaces : ∀ acc s, round acc (skipSpaces s) = round acc s)
    {acc acc' : σ} {s rest : Bytes} :
    Rounds close round acc (skipSpaces s) acc' rest ↔ Rounds close round acc s acc' rest := by
  constructor
  · intro h
    cases h with
    | last hread hskip => exact .last (hspaces acc s ▸ hread) hskip
    | more hread hskip hrun => exact .more (hspaces acc s ▸ hread) hskip hrun
  · intro h
    cases h with
    | last hread hskip => exact .last ((hspaces acc s).trans hread) hskip
    | more hread hskip hrun => exact .more ((hspaces acc s).trans hread) hskip hrun

end

/-! ## Agreement -/

/-- Two readings that give the same whenever one of them gives anything. -/
def Agree (x y : Read α) : Prop := ∀ r, x = .ok r ↔ y = .ok r

theorem Agree.symm {x y : Read α} (h : Agree x y) : Agree y x := fun r => (h r).symm

/-- Readings that agree still do after a change of what is read. -/
theorem Agree.map {β : Type} {x y : Read α} (h : Agree x y) (f : α × Bytes → β × Bytes) :
    Agree (x.map f) (y.map f) := by
  intro r
  constructor
  · intro hr
    obtain ⟨a, ha, rfl⟩ := map_eq_ok_iff.1 hr
    rw [(h a).1 ha]
    rfl
  · intro hr
    obtain ⟨a, ha, rfl⟩ := map_eq_ok_iff.1 hr
    rw [(h a).2 ha]
    rfl

/-- Rounds over texts on which the first round agrees end alike. -/
theorem Rounds.of_agree {close : UInt8} {round : σ → Bytes → Read σ} {s s' : Bytes}
    (h : ∀ acc, Agree (round acc s) (round acc s')) {acc acc' : σ} {rest : Bytes}
    (hrun : Rounds close round acc s acc' rest) : Rounds close round acc s' acc' rest := by
  cases hrun with
  | last hread hskip => exact .last ((h acc _).1 hread) hskip
  | more hread hskip hrun => exact .more ((h acc _).1 hread) hskip hrun

/-- The items of an array that does not close at once are rounds. -/
theorem items_eq_ok_iff_of_head {item : σ → Bytes → Read σ}
    (hitem : ∀ acc, Local True .outer (item acc))
    (hspaces : ∀ acc s, item acc (skipSpaces s) = item acc s) {s rest : Bytes} {b : UInt8}
    (hb : (skipSpaces s).head? = some b) (hne : b ≠ octet ']') {acc acc' : σ} :
    items item acc s = .ok (acc', rest) ↔ Rounds (octet ']') item acc s acc' rest := by
  rw [items, ← Rounds.skipSpaces_iff hspaces]
  cases hs : skipSpaces s with
  | nil => simp [hs] at hb
  | cons c more =>
    obtain rfl : c = b := by simpa [hs] using hb
    simp only [beq_iff_eq, if_neg hne]
    exact itemsFrom_eq_ok_iff hitem le_rfl

theorem keyed_skipSpaces (member : σ → Bytes → Bytes → Read σ) (acc : σ) (s : Bytes) :
    keyed member acc (skipSpaces s) = keyed member acc s := by
  simp [keyed]

/-- The members of an object that does not close at once are rounds, and begin with a quote. -/
theorem members_eq_ok_iff_of_head {member : σ → Bytes → Bytes → Read σ}
    (hmember : ∀ acc key, Local True .outer (member acc key)) {s rest : Bytes} {b : UInt8}
    (hb : (skipSpaces s).head? = some b) (hne : b ≠ octet '}') {acc acc' : σ} :
    members member acc s = .ok (acc', rest) ↔
      b = octet '"' ∧ Rounds (octet '}') (keyed member) acc s acc' rest := by
  rw [members, ← Rounds.skipSpaces_iff (keyed_skipSpaces member)]
  cases hs : skipSpaces s with
  | nil => simp [hs] at hb
  | cons c more =>
    obtain rfl : c = b := by simpa [hs] using hb
    simp only [beq_iff_eq, if_neg hne]
    -- a key is a string
    by_cases hquote : c = octet '"'
    · rw [if_pos hquote, membersFrom_eq_ok_iff hmember le_rfl]
      simp [hquote]
    · rw [if_neg hquote]
      simp [hquote]

section

variable {lead s s' : Bytes} {b : UInt8}

/-- Arrays with the same pieces in front are read alike, if the items behind the pieces are. -/
theorem items_agree {item : σ → Bytes → Read σ} (hitem : ∀ acc, Local True .outer (item acc))
    (hspaces : ∀ acc s, item acc (skipSpaces s) = item acc s) (hlead : Pieces lead)
    (hb : Role.ofByte b ≠ .closing) (hs : (skipSpaces s).head? = some b)
    (hs' : (skipSpaces s').head? = some b) (h : ∀ acc, Agree (item acc s) (item acc s')) (acc : σ) :
    Agree (items item acc (lead ++ s)) (items item acc (lead ++ s')) := by
  obtain ⟨c, hc, hhead⟩ := hlead.head hb
  have hne : c ≠ octet ']' := by
    rintro rfl
    exact hc rfl
  rintro ⟨acc', rest⟩
  rw [items_eq_ok_iff_of_head hitem hspaces (hhead s hs) hne,
    items_eq_ok_iff_of_head hitem hspaces (hhead s' hs') hne]
  exact ⟨.of_pieces hitem rfl (fun _ _ _ => .of_agree h) hlead,
    .of_pieces hitem rfl (fun _ _ _ => .of_agree fun acc => (h acc).symm) hlead⟩

/-- Objects with the same pieces in front are read alike, if the members behind the pieces are. -/
theorem members_agree {member : σ → Bytes → Bytes → Read σ}
    (hmember : ∀ acc key, Local True .outer (member acc key)) (hlead : Pieces lead)
    (hb : Role.ofByte b ≠ .closing) (hs : (skipSpaces s).head? = some b)
    (hs' : (skipSpaces s').head? = some b)
    (h : ∀ acc, Agree (keyed member acc s) (keyed member acc s')) (acc : σ) :
    Agree (members member acc (lead ++ s)) (members member acc (lead ++ s')) := by
  obtain ⟨c, hc, hhead⟩ := hlead.head hb
  have hne : c ≠ octet '}' := by
    rintro rfl
    exact hc rfl
  rintro ⟨acc', rest⟩
  rw [members_eq_ok_iff_of_head hmember (hhead s hs) hne,
    members_eq_ok_iff_of_head hmember (hhead s' hs') hne]
  have hkeyed : ∀ acc, Local True .outer (keyed member acc) := keyed_local hmember
  exact and_congr_right fun _ =>
    ⟨.of_pieces hkeyed rfl (fun _ _ _ => .of_agree h) hlead,
      .of_pieces hkeyed rfl (fun _ _ _ => .of_agree fun acc => (h acc).symm) hlead⟩

end

end DocTree.Json
