import DocTree.Proofs.Json.Pieces

/-!
# The contents of arrays and objects

What stands in an array or an object can be told without reading it: the text behind the opening
bracket is cut at the commas outside strings and inner brackets, up to the bracket that closes it
(`contents`). A reader that gets through an array or an object reads exactly these pieces, each by
itself and to its end (`items_contents`, `members_contents`).
-/

namespace DocTree.Json

variable {α β σ : Type}

/-! ## Cutting -/

/-- Cuts on from a place, where `piece` is the piece so far, the last byte first. -/
def contentsFrom : Place → Bytes → Bytes → Option (List Bytes)
  | _, _, [] => none
  | p, piece, b :: rest =>
    match p.next? b with
    | some q => contentsFrom q (b :: piece) rest
    | none =>
      -- a comma or a closing bracket that belongs to what is around the piece
      if b = octet ',' then (contentsFrom .outer [] rest).map (piece.reverse :: ·)
      else some [piece.reverse]

/-- The pieces of an array or an object, from the text behind its opening bracket. What is nothing
but white space is no piece. -/
def contents (s : Bytes) : Option (List Bytes) :=
  (contentsFrom .outer [] s).map (·.filter (skipSpaces · ≠ []))

/-- A stretch in which nothing ends goes to the current piece. -/
theorem contentsFrom_append {p q : Place} {s : Bytes} (h : p.after? s = some q) (piece t : Bytes) :
    contentsFrom p piece (s ++ t) = contentsFrom q (s.reverse ++ piece) t := by
  induction s generalizing p piece with
  | nil =>
    obtain rfl := Option.some.inj h
    rfl
  | cons b s ih =>
    rw [Place.after?_cons] at h
    obtain ⟨p₁, hnext, hrest⟩ := Option.bind_eq_some_iff.1 h
    rw [List.cons_append, contentsFrom, hnext]
    simp only
    rw [ih hrest, List.reverse_cons, List.append_assoc, List.singleton_append]

/-- A stop belongs to what is around a value. -/
theorem next?_of_isStop {b : UInt8} (h : isStop b = true) : Place.outer.next? b = none := by
  rw [Place.outer, Place.next?]
  cases hrole : Role.ofByte b with
  | comma | closing => rfl
  | quote | opening | other =>
    rw [isStop, hrole] at h
    cases h

/-- A piece with a comma behind it, and the pieces behind the comma. -/
theorem contentsFrom_comma {piece : Bytes} (h : Balanced piece) (t : Bytes) :
    contentsFrom .outer [] (piece ++ octet ',' :: t) =
      (contentsFrom .outer [] t).map (piece :: ·) := by
  rw [contentsFrom_append h, contentsFrom, next?_of_isStop rfl]
  simp

/-- The last piece has the closing bracket behind it. -/
theorem contentsFrom_close {piece : Bytes} (h : Balanced piece) {b : UInt8}
    (hb : Role.ofByte b = .closing) (t : Bytes) :
    contentsFrom .outer [] (piece ++ b :: t) = some [piece] := by
  have hstop : isStop b = true := by rw [isStop, hb]; rfl
  have hcomma : b ≠ octet ',' := by
    rintro rfl
    cases hb
  rw [contentsFrom_append h, contentsFrom, next?_of_isStop hstop]
  simp [hcomma]

/-! ## Reading to the end -/

/-- What a reader reads from a text, if nothing but white space is left. -/
def wholly (read : Bytes → Read α) (s : Bytes) : Option α :=
  match read s with
  | .ok (a, rest) => if skipSpaces rest = [] then some a else none
  | .error _ => none

theorem wholly_eq_some {read : Bytes → Read α} {s : Bytes} {a : α} :
    wholly read s = some a ↔ ∃ rest, read s = .ok (a, rest) ∧ Blank rest := by
  unfold wholly
  cases read s with
  | error e => simp
  | ok r =>
    obtain ⟨b, rest⟩ := r
    by_cases hrest : skipSpaces rest = []
    · simp [hrest, blank_iff]
    · simp [hrest, blank_iff]

/-- A change of what is read makes no difference to whether it is read to the end. -/
theorem wholly_map (read : Bytes → Read α) (f : α → β) (s : Bytes) :
    wholly (fun s => (read s).map fun r => (f r.1, r.2)) s = (wholly read s).map f := by
  simp only [wholly]
  cases read s with
  | error e => rfl
  | ok r => by_cases hrest : skipSpaces r.2 = [] <;> simp [Except.map, hrest]

/-- A round and the stop behind it: the text in front of the stop is a piece, and is read to its
end. -/
theorem exists_piece_of_round {round : σ → Bytes → Read σ}
    (hround : ∀ acc, Local True .outer (round acc)) {acc acc' : σ} {s s₁ t : Bytes} {b : UInt8}
    (hread : round acc s = .ok (acc', s₁)) (hskip : skipSpaces s₁ = b :: t) :
    ∃ piece, s = piece ++ b :: t ∧ Balanced piece ∧ wholly (round acc) piece = some acc' := by
  obtain ⟨used, rfl, hused⟩ := hround acc _ _ _ hread
  obtain ⟨spaces, hblank, hsplit⟩ := exists_spaces s₁
  have hspaces : Blank spaces := hblank
  -- the piece is what the round uses up, with the white space behind it
  refine ⟨used ++ spaces, by rw [hsplit, hskip, List.append_assoc], ?_, ?_⟩
  · exact Balanced.append hused.whole.balanced hspaces.balanced
  · refine wholly_eq_some.2 ⟨spaces, hused.reads spaces fun _ => ?_, hspaces⟩
    simpa using endsNumber_spaces hblank endsNumber_nil

/-- The rounds of a loop read the pieces one after another. By induction on the rounds. -/
theorem Rounds.exists_contentsFrom {close : UInt8} {round : σ → Bytes → Read σ}
    (hround : ∀ acc, Local True .outer (round acc)) (hclose : Role.ofByte close = .closing)
    {acc acc' : σ} {s rest : Bytes} (h : Rounds close round acc s acc' rest) :
    ∃ pieces, contentsFrom .outer [] s = some pieces ∧
      pieces.foldlM (fun acc piece => wholly (round acc) piece) acc = some acc' := by
  induction h with
  | @last acc acc' s s₁ rest hread hskip =>
    obtain ⟨piece, rfl, hpiece, hwhole⟩ := exists_piece_of_round hround hread hskip
    exact ⟨[piece], contentsFrom_close hpiece hclose rest, by simp [hwhole]⟩
  | @more acc acc₁ acc' s s₁ s₂ rest hread hskip _ ih =>
    obtain ⟨piece, rfl, hpiece, hwhole⟩ := exists_piece_of_round hround hread hskip
    -- the first piece ends at the comma, and the others are read by the other rounds
    obtain ⟨pieces, hpieces, hfold⟩ := ih
    refine ⟨piece :: pieces, ?_, ?_⟩
    · rw [contentsFrom_comma hpiece, hpieces]
      rfl
    · rw [List.foldlM_cons, hwhole]
      exact hfold

/-- Pieces that are read are not blank, if nothing is read from blank text. -/
theorem filter_of_foldlM {round : σ → Bytes → Read σ}
    (hblank : ∀ acc s r, Blank s → round acc s ≠ .ok r) {pieces : List Bytes} {acc acc' : σ}
    (h : pieces.foldlM (fun acc piece => wholly (round acc) piece) acc = some acc') :
    pieces.filter (skipSpaces · ≠ []) = pieces := by
  induction pieces generalizing acc with
  | nil => rfl
  | cons piece pieces ih =>
    rw [List.foldlM_cons] at h
    obtain ⟨acc₁, hpiece, hpieces⟩ := Option.bind_eq_some_iff.1 h
    obtain ⟨rest, hread, -⟩ := wholly_eq_some.1 hpiece
    -- a blank piece would not have been read
    have hne : skipSpaces piece ≠ [] := fun hs => hblank acc piece _ (blank_iff.2 hs) hread
    rw [List.filter_cons_of_pos (by simpa using hne), ih hpieces]

/-- Nothing stands in front of a bracket that closes at once. -/
theorem contents_of_close {s rest : Bytes} {b : UInt8} (hb : Role.ofByte b = .closing)
    (h : skipSpaces s = b :: rest) : contents s = some [] := by
  obtain ⟨spaces, hblank, hsplit⟩ := exists_spaces s
  have hspaces : Blank spaces := hblank
  rw [contents, hsplit, h, contentsFrom_close hspaces.balanced hb]
  simp [blank_iff.1 hspaces]

/-- The rounds behind an opening bracket read its contents. -/
theorem Rounds.exists_contents {close : UInt8} {round : σ → Bytes → Read σ}
    (hround : ∀ acc, Local True .outer (round acc)) (hclose : Role.ofByte close = .closing)
    (hspaces : ∀ acc s, round acc (skipSpaces s) = round acc s)
    (hblank : ∀ acc s r, Blank s → round acc s ≠ .ok r) {acc acc' : σ} {s rest : Bytes}
    (h : Rounds close round acc (skipSpaces s) acc' rest) :
    ∃ pieces, contents s = some pieces ∧
      pieces.foldlM (fun acc piece => wholly (round acc) piece) acc = some acc' := by
  obtain ⟨pieces, hpieces, hfold⟩ :=
    ((Rounds.skipSpaces_iff hspaces).1 h).exists_contentsFrom hround hclose
  refine ⟨pieces, ?_, hfold⟩
  rw [contents, hpieces, Option.map_some, filter_of_foldlM hblank hfold]

/-- An array is read piece by piece. -/
theorem items_contents {item : σ → Bytes → Read σ} (hitem : ∀ acc, Local True .outer (item acc))
    (hspaces : ∀ acc s, item acc (skipSpaces s) = item acc s)
    (hblank : ∀ acc s r, Blank s → item acc s ≠ .ok r) {acc acc' : σ} {s rest : Bytes}
    (h : items item acc s = .ok (acc', rest)) :
    ∃ pieces, contents s = some pieces ∧
      pieces.foldlM (fun acc piece => wholly (item acc) piece) acc = some acc' := by
  rcases items_eq_ok h with ⟨rfl, hs⟩ | hrun
  · exact ⟨[], contents_of_close rfl hs, rfl⟩
  · exact hrun.rounds.exists_contents hitem rfl hspaces hblank

theorem keyed_of_blank (member : σ → Bytes → Bytes → Read σ) (acc : σ) {s : Bytes} (h : Blank s)
    (r : σ × Bytes) : keyed member acc s ≠ .ok r := by
  rw [← keyed_skipSpaces, blank_iff.1 h]
  exact fun h => by cases h

/-- An object is read piece by piece. -/
theorem members_contents {member : σ → Bytes → Bytes → Read σ}
    (hmember : ∀ acc key, Local True .outer (member acc key)) {acc acc' : σ} {s rest : Bytes}
    (h : members member acc s = .ok (acc', rest)) :
    ∃ pieces, contents s = some pieces ∧
      pieces.foldlM (fun acc piece => wholly (keyed member acc) piece) acc = some acc' := by
  rcases members_eq_ok h with ⟨rfl, hs⟩ | hrun
  · exact ⟨[], contents_of_close rfl hs, rfl⟩
  · exact hrun.rounds.exists_contents (keyed_local hmember) rfl (keyed_skipSpaces member)
      fun acc s r hs => keyed_of_blank member acc hs r

end DocTree.Json
