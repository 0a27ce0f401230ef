import DocTree.Proofs.Style.Declarations
import DocTree.Proofs.Style.Parse
import DocTree.Proofs.Text.Blank

/-!
# Style text written and read again

A declaration that was read leaves nothing open in its name, and nothing in its value unless the
text ended there. So declarations are read back from their text as long as an open value stands at
the end (`parse_format`). An open value can only leave the end if its key was declared before
(`parse_format_parse`).
-/

namespace DocTree.Style

/-! ## Trimmed text -/

/-- Blank bytes are neither quotes nor parentheses. -/
theorem plain_of_isBlankByte {b : UInt8} (h : Bytes.IsBlankByte b) :
    isQuote b = false ∧ b ≠ octet '(' ∧ b ≠ octet ')' := by
  have htable : ∀ w ∈ Bytes.blankTexts, ∀ b ∈ w, isQuote b = false ∧ b ≠ octet '(' ∧
      b ≠ octet ')' := by
    decide +kernel
  obtain ⟨w, hw, hb⟩ := h
  exact htable w hw b hb

/-- Blanks lead neither out nor in. -/
theorem Position.Sound.isOutside_scan_blank {p : Position} (hp : p.Sound) {s : Bytes}
    (h : ∀ b ∈ s, Bytes.IsBlankByte b) : (p.scan s).isOutside = p.isOutside := by
  induction s generalizing p with
  | nil => rfl
  | cons b s ih =>
    obtain ⟨hb, hs⟩ := List.forall_mem_cons.1 h
    obtain ⟨hquote, hopen, hclose⟩ := plain_of_isBlankByte hb
    rw [Position.scan_cons, ih (hp.next b) hs, hp.isOutside_next hquote hopen hclose]

theorem closed_of_blank {s : Bytes} (h : ∀ b ∈ s, Bytes.IsBlankByte b) : Closed true s := by
  rw [← isOutside_scan_iff, Position.sound_start.isOutside_scan_blank h]
  rfl

/-- Trimming neither opens nor closes anything. -/
theorem closed_trim_iff (s : Bytes) : Closed true (Bytes.trim s) ↔ Closed true s := by
  obtain ⟨front, back, hs, hfront, hback⟩ := Bytes.exists_eq_trim s
  -- the blanks behind do not lead out or in, and those in front are closed
  have hscan := (Position.sound_start.scan (Bytes.trim s)).isOutside_scan_blank hback
  rw [← Position.scan_append] at hscan
  rw [← isOutside_scan_iff, ← hscan, isOutside_scan_iff, ← (closed_of_blank hfront).append_iff,
    ← hs]

/-- Trimming does not bring in a cut. -/
theorem Uncut.trim {separator : UInt8} {s : Bytes} (h : Uncut separator .start s) :
    Uncut separator .start (Bytes.trim s) := by
  obtain ⟨front, back, hs, hfront, -⟩ := Bytes.exists_eq_trim s
  rw [hs, uncut_append, (closed_of_blank hfront).scan_eq, uncut_append] at h
  exact h.2.1

/-! ## Declarations in their text -/

/-- A declaration as style text has it: trimmed, with its name closed, and without a separator that
would cut its name or its value. -/
structure Declaration.Tidy (d : Declaration) : Prop where
  key : d.key = toKey d.name
  numeric : d.numeric = false
  named : d.name ≠ []
  valued : d.value ≠ []
  name_trim : Bytes.trim d.name = d.name
  value_trim : Bytes.trim d.value = d.value
  name_closed : Closed true d.name
  name_colon : Uncut (octet ':') .start d.name
  name_semicolon : Uncut (octet ';') .start d.name
  value_semicolon : Uncut (octet ';') .start d.value

/-- The value of one declaration under the name of another. -/
theorem Declaration.Tidy.revalue {e d : Declaration} (he : e.Tidy) (hd : d.Tidy) :
    (e.revalue d).Tidy :=
  { he with
    valued := hd.valued, value_trim := hd.value_trim, value_semicolon := hd.value_semicolon }

/-- The text of a declaration. -/
def Declaration.text (d : Declaration) : Bytes := d.writtenName ++ octet ':' :: d.value

/-- A tidy declaration is written under its own name. -/
theorem Declaration.Tidy.text_eq {d : Declaration} (h : d.Tidy) :
    d.text = d.name ++ octet ':' :: d.value := by
  rw [text, writtenName, if_neg (by simpa using h.named)]

/-- Behind the colon of a declaration all is as at the start. -/
theorem scan_colon {name : Bytes} (h : Closed true name) :
    (Position.start.scan name).next (octet ':') = .start := by
  rw [h.scan_eq]
  rfl

/-- A declaration leaves open what its value leaves open. -/
theorem closed_declaration_iff {name : Bytes} (h : Closed true name) (value : Bytes) :
    Closed true (name ++ octet ':' :: value) ↔ Closed true value := by
  rw [← isOutside_scan_iff, Position.scan_append, Position.scan_cons, scan_colon h,
    isOutside_scan_iff]

/-- A declaration is not cut if neither of its sides is. -/
theorem uncut_declaration_iff {name : Bytes} (h : Closed true name) (value : Bytes) :
    Uncut (octet ';') .start (name ++ octet ':' :: value) ↔
      Uncut (octet ';') .start name ∧ Uncut (octet ';') .start value := by
  have hcolon : octet ':' ≠ octet ';' := by decide
  rw [uncut_append, Uncut, scan_colon h]
  simp [hcolon]

/-- The declaration in a piece is tidy, and leaves open what the piece leaves open. -/
theorem tidy_of_declaration? {piece : Bytes} (huncut : Uncut (octet ';') .start piece)
    {d : Declaration} (h : declaration? piece = some d) :
    d.Tidy ∧ (Closed true d.value ↔ Closed true piece) := by
  rcases uncut_or_exists_cut (octet ':') .start piece with hnone | ⟨name, value, rfl, hname, hout⟩
  · rw [declaration?_of_uncut hnone] at h
    cases h
  -- the name ends at a cut, so nothing is open behind it
  have hclosed : Closed true name := (isOutside_scan_iff name).1 hout
  rw [declaration?_cut hname hclosed] at h
  split at h
  · cases h
  next hempty =>
  obtain rfl := Option.some.inj h
  obtain ⟨hnamed, hvalued⟩ := not_or.1 hempty
  obtain ⟨hsemicolon, hvalue⟩ := (uncut_declaration_iff hclosed value).1 huncut
  refine ⟨⟨rfl, rfl, hnamed, hvalued, Bytes.trim_trim name, Bytes.trim_trim value,
    (closed_trim_iff name).2 hclosed, hname.trim, hsemicolon.trim, hvalue.trim⟩, ?_⟩
  rw [closed_trim_iff, closed_declaration_iff hclosed]

namespace Declaration.Tidy

variable {d : Declaration}

theorem declaration?_text (h : d.Tidy) : declaration? d.text = some d := by
  rw [h.text_eq, declaration?_cut h.name_colon h.name_closed, h.name_trim, h.value_trim,
    if_neg (not_or.2 ⟨h.named, h.valued⟩), ← h.key, ← h.numeric]

theorem uncut_text (h : d.Tidy) : Uncut (octet ';') .start d.text := by
  rw [h.text_eq, uncut_declaration_iff h.name_closed]
  exact ⟨h.name_semicolon, h.value_semicolon⟩

theorem closed_text (h : d.Tidy) (hvalue : Closed true d.value) : Closed true d.text := by
  rwa [h.text_eq, closed_declaration_iff h.name_closed]

end Declaration.Tidy

/-! ## Declarations written and read -/

theorem format_singleton (d : Declaration) : format [d] = d.text := Bytes.join_singleton _ _

theorem format_cons_cons (d e : Declaration) (decls : List Declaration) :
    format (d :: e :: decls) = d.text ++ octet ';' :: format (e :: decls) :=
  Bytes.join_cons_cons _ _ _ _

/-- The text of declarations is cut between them, if only the last one leaves something open. -/
theorem split_format {d : Declaration} {decls : List Declaration} (htidy : ∀ e ∈ d :: decls, e.Tidy)
    (hclosed : ∀ e ∈ (d :: decls).dropLast, Closed true e.value) :
    split (octet ';') (format (d :: decls)) = (d :: decls).map Declaration.text := by
  induction decls generalizing d with
  | nil =>
    rw [format_singleton, split_of_uncut (htidy d List.mem_cons_self).uncut_text]
    rfl
  | cons e decls ih =>
    have hd : d.Tidy := htidy d List.mem_cons_self
    -- the first declaration is closed, so the semicolon behind it is a cut
    rw [format_cons_cons,
      split_append_cut hd.uncut_text (hd.closed_text (hclosed d List.mem_cons_self)),
      ih (fun f hf => htidy f (List.mem_cons_of_mem d hf))
        (fun f hf => hclosed f (List.mem_cons_of_mem d hf))]
    rfl

/-- Tidy declarations are read back one by one. -/
theorem filterMap_text {decls : List Declaration} (htidy : ∀ d ∈ decls, d.Tidy) :
    (decls.map Declaration.text).filterMap declaration? = decls := by
  induction decls with
  | nil => rfl
  | cons d decls ih =>
    obtain ⟨hd, hdecls⟩ := List.forall_mem_cons.1 htidy
    rw [List.map_cons, List.filterMap_cons_some hd.declaration?_text, ih hdecls]

/-- Tidy declarations are read back from their text, if only the last one leaves something open. -/
theorem parse_format {decls : List Declaration} (htidy : ∀ d ∈ decls, d.Tidy)
    (hclosed : ∀ d ∈ decls.dropLast, Closed true d.value) (hkeys : (keys decls).Nodup) :
    parse (format decls) = decls := by
  cases decls with
  | nil => rfl
  | cons d decls =>
    rw [parse, declared, split_format htidy hclosed, filterMap_text htidy]
    exact Keyed.putAll_eq_append hkeys

/-- Tidy declarations that leave nothing open are read back. -/
theorem parse_format_of_closed {decls : List Declaration}
    (h : ∀ d ∈ decls, d.Tidy ∧ Closed true d.value) (hkeys : (keys decls).Nodup) :
    parse (format decls) = decls :=
  parse_format (fun d hd => (h d hd).1)
    (fun d hd => (h d ((List.dropLast_sublist decls).subset hd)).2) hkeys

/-! ## Style text read, written and read -/

/-- The chunk with which style text ends declares something, and its key is declared before. -/
def EndRepeats (css : Bytes) : Prop :=
  ∃ front piece d, split (octet ';') css = front ++ [piece] ∧ declaration? piece = some d ∧
    d.key ∈ keys (front.filterMap declaration?)

/-- **Reading what was written of style text changes nothing**, unless the text ends inside a quote
or a parenthesis and the declaration that is left open there repeats the key of an earlier one. -/
theorem parse_format_parse (css : Bytes) :
    parse (format (parse css)) = parse css ∨
      (Position.start.scan css).isOutside = false ∧ EndRepeats css := by
  obtain ⟨front, last, hsplit, hfront, hlast, hopen⟩ := exists_split closed_semicolon css
  -- the pieces in front of the last one give declarations that leave nothing open
  let before := Keyed.putAll Declaration.key Declaration.revalue [] (front.filterMap declaration?)
  have hbefore : ∀ d ∈ before, d.Tidy ∧ Closed true d.value := by
    refine Keyed.forall_mem_putAll (by simp) (fun d hd => ?_) fun e d he hd =>
      ⟨he.1.revalue hd.1, hd.2⟩
    obtain ⟨piece, hmem, hpiece⟩ := List.mem_filterMap.1 hd
    obtain ⟨htidy, hiff⟩ := tidy_of_declaration? (hfront piece hmem).1 hpiece
    exact ⟨htidy, hiff.2 (hfront piece hmem).2⟩
  have hkeys := nodup_keys_parse css
  cases hpiece : declaration? last with
  | none =>
    -- an open last piece that declares nothing is not written
    have hparse : parse css = before := by simp [before, parse, declared, hsplit, hpiece]
    rw [hparse] at hkeys ⊢
    exact Or.inl (parse_format_of_closed hbefore hkeys)
  | some d =>
    have hparse : parse css = Keyed.put Declaration.key Declaration.revalue d before := by
      simp [before, parse, declared, Keyed.putAll, hsplit, hpiece]
    obtain ⟨htidy, hiff⟩ := tidy_of_declaration? hlast hpiece
    rw [hparse] at hkeys ⊢
    by_cases hkey : d.key ∈ keys (front.filterMap declaration?)
    · -- the value goes to an earlier place, which is safe if it leaves nothing open
      by_cases hclosed : Closed true css
      · have hd : d.Tidy ∧ Closed true d.value := ⟨htidy, hiff.2 (hopen.2 hclosed)⟩
        refine Or.inl (parse_format_of_closed ?_ hkeys)
        exact Keyed.forall_mem_put hbefore hd fun e he _ => ⟨he.1.revalue hd.1, hd.2⟩
      · rw [← isOutside_scan_iff, Bool.not_eq_true] at hclosed
        exact Or.inr ⟨hclosed, front, last, d, hsplit, hpiece, hkey⟩
    · -- with a new key the open declaration stays at the end
      have hnew : d.key ∉ keys before := by
        rw [keys, Keyed.mem_map_putAll mergeable_revalue]
        simpa [keys] using hkey
      rw [Keyed.put_of_notMem hnew] at hkeys ⊢
      refine Or.inl (parse_format ?_ ?_ hkeys)
      · exact List.forall_mem_append.2 ⟨fun e he => (hbefore e he).1, by simpa using htidy⟩
      · rw [List.dropLast_concat]
        exact fun e he => (hbefore e he).2

/-- An open value that goes to an earlier place takes in what is written behind it. -/
example : parse (format (parse (ascii "a:1;b:2;a:'x"))) ≠ parse (ascii "a:1;b:2;a:'x") := by
  decide +kernel

end DocTree.Style
