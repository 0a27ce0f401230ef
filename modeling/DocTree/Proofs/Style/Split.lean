import DocTree.Proofs.Text.Bytes
import DocTree.Style

/-!
# Where style text is cut

A separator counts where every quote and parenthesis in front of it is closed. `Closed` says this as
a grammar, without a reader: text in which plain bytes, quoted text and text in parentheses stand
side by side. The reader's position agrees with it (`isOutside_scan_iff`), and at a cut the reader
stands as it stood at the start, so that it does not matter whether a piece is read by itself or as
part of the whole text.

Cutting is then described by its first cut (`split_of_uncut`, `split_append_cut`), and what holds of
the pieces follows by induction on the cuts (`cutInduction`). Nothing is lost, and the pieces are
not cut any further (`split_pieces_stable`).
-/

namespace DocTree.Style

/-! ## Positions -/

/-- Is `b` a quote? -/
def isQuote (b : UInt8) : Bool := b == octet '"' || b == octet '\''

namespace Position

/-- The position behind a text. -/
def scan (p : Position) (s : Bytes) : Position := s.foldl next p

@[simp] theorem scan_nil (p : Position) : p.scan [] = p := rfl

@[simp] theorem scan_cons (p : Position) (b : UInt8) (s : Bytes) :
    p.scan (b :: s) = (p.next b).scan s := rfl

theorem scan_append (p : Position) (s t : Bytes) : p.scan (s ++ t) = (p.scan s).scan t :=
  List.foldl_append

/-- A position outside quotes, with a number of open parentheses. -/
def unquoted (depth : Nat) : Position := ⟨none, false, depth⟩

/-- A position inside quotes, behind a byte that is no backslash. -/
def inQuote (quote : UInt8) (depth : Nat) : Position := ⟨some quote, false, depth⟩

/-- What every position has that a reader comes to: outside quotes no byte has lost its meaning, and
what is open is a quote. -/
structure Sound (p : Position) : Prop where
  unescaped : p.quote = none → p.escaped = false
  quote : ∀ b, p.quote = some b → isQuote b = true

/-- Every byte leads to such a position. One case per branch of the reader. -/
theorem Sound.next {p : Position} (h : p.Sound) (b : UInt8) : (p.next b).Sound := by
  obtain ⟨hescaped, hquote⟩ := h
  fun_cases Position.next p b with
  | case5 _ hb => exact ⟨by simp, fun c hc => Option.some.inj hc ▸ hb⟩
  | _ => exact ⟨by simp_all, by simp_all⟩

/-- So does every text, by induction. -/
theorem Sound.scan {p : Position} (h : p.Sound) (s : Bytes) : (p.scan s).Sound := by
  induction s generalizing p with
  | nil => exact h
  | cons b s ih => exact ih (h.next b)

theorem sound_start : start.Sound := ⟨fun _ => rfl, by simp [start]⟩

/-- There is one position outside quotes and parentheses. -/
theorem Sound.eq_start {p : Position} (h : p.Sound) (hout : p.isOutside = true) : p = start := by
  obtain ⟨quote, escaped, depth⟩ := p
  simp only [isOutside, Bool.and_eq_true, Option.isNone_iff_eq_none, beq_iff_eq] at hout
  obtain ⟨rfl, rfl⟩ := hout
  obtain rfl : escaped = false := h.unescaped rfl
  rfl

@[simp] theorem isOutside_start : start.isOutside = true := rfl

/-- Outside quotes and parentheses the reader stands as at the start. -/
theorem scan_eq_start {s : Bytes} (h : (start.scan s).isOutside = true) : start.scan s = start :=
  (sound_start.scan s).eq_start h

end Position

/-! ## Closed text -/

/-- The inside of a quoted text: bytes other than the quote and the backslash, and backslashes, each
with the byte behind it. -/
inductive InQuotes (quote : UInt8) : Bytes → Prop where
  | nil : InQuotes quote []
  | plain {b : UInt8} {s : Bytes} (hquote : b ≠ quote) (hback : b ≠ octet '\\')
      (rest : InQuotes quote s) : InQuotes quote (b :: s)
  | escaped (b : UInt8) {s : Bytes} (rest : InQuotes quote s) :
      InQuotes quote (octet '\\' :: b :: s)

/-- Text in which every quote and every parenthesis is closed. Where it is `loose`, a closing
parenthesis that closes nothing is plain text; inside parentheses there is none. -/
inductive Closed : (loose : Bool) → Bytes → Prop where
  | nil (loose : Bool) : Closed loose []
  | plain {loose : Bool} {b : UInt8} {s : Bytes} (hquote : isQuote b = false)
      (hopen : b ≠ octet '(') (hclose : b = octet ')' → loose = true) (rest : Closed loose s) :
      Closed loose (b :: s)
  | quoted {loose : Bool} {quote : UInt8} {inside s : Bytes} (hquote : isQuote quote = true)
      (hinside : InQuotes quote inside) (rest : Closed loose s) :
      Closed loose (quote :: (inside ++ quote :: s))
  | parenthesized {loose : Bool} {inside s : Bytes} (hinside : Closed false inside)
      (rest : Closed loose s) : Closed loose (octet '(' :: (inside ++ octet ')' :: s))

namespace Position

theorem next_quote {b : UInt8} (h : isQuote b = true) (depth : Nat) :
    (unquoted depth).next b = inQuote b depth := by
  rw [unquoted, next]
  exact if_pos h

theorem next_inQuote_end {quote : UInt8} (h : quote ≠ octet '\\') (depth : Nat) :
    (inQuote quote depth).next quote = unquoted depth := by
  simp [inQuote, next, h, unquoted]

theorem next_inQuote_plain {quote b : UInt8} (hquote : b ≠ quote) (hback : b ≠ octet '\\')
    (depth : Nat) : (inQuote quote depth).next b = inQuote quote depth := by
  simp [inQuote, next, hquote, hback]

theorem ne_backslash_of_isQuote {b : UInt8} (h : isQuote b = true) : b ≠ octet '\\' := by
  rintro rfl
  exact absurd h (by decide)

theorem next_plain {b : UInt8} (hquote : isQuote b = false) (hopen : b ≠ octet '(')
    (hclose : b ≠ octet ')') (depth : Nat) : (unquoted depth).next b = unquoted depth := by
  have hquote : (b == octet '"' || b == octet '\'') = false := hquote
  simp [unquoted, next, hquote, hopen, hclose]

/-- A byte that is neither quote nor parenthesis does not lead out or in. -/
theorem Sound.isOutside_next {p : Position} (h : p.Sound) {b : UInt8} (hquote : isQuote b = false)
    (hopen : b ≠ octet '(') (hclose : b ≠ octet ')') : (p.next b).isOutside = p.isOutside := by
  obtain ⟨quote, escaped, depth⟩ := p
  cases quote with
  | none =>
    obtain rfl : escaped = false := h.unescaped rfl
    exact congrArg isOutside (next_plain hquote hopen hclose depth)
  | some quote =>
    -- it is no quote, so it does not close one
    have hne : b ≠ quote := by
      rintro rfl
      rw [h.quote b rfl] at hquote
      cases hquote
    cases escaped with
    | true => rfl
    | false =>
      by_cases hback : b = octet '\\'
      · subst hback
        rfl
      · exact congrArg isOutside (next_inQuote_plain hne hback depth)

/-- The inside of a quoted text stays in quotes. -/
theorem scan_inQuotes {quote : UInt8} {s : Bytes} (h : InQuotes quote s) (depth : Nat) :
    (inQuote quote depth).scan s = inQuote quote depth := by
  induction h with
  | nil => rfl
  | plain hquote hback _ ih => rwa [scan_cons, next_inQuote_plain hquote hback]
  | escaped b _ ih => exact ih

/-- Behind closed text the reader stands where it stood before. -/
theorem scan_closed {loose : Bool} {s : Bytes} (h : Closed loose s) {depth : Nat}
    (hdepth : loose = true → depth = 0) : (unquoted depth).scan s = unquoted depth := by
  induction h generalizing depth with
  | nil => rfl
  | @plain loose b s hquote hopen hclose _ ih =>
    rw [scan_cons]
    by_cases hb : b = octet ')'
    · -- it closes nothing, since no parenthesis is open
      obtain rfl := hdepth (hclose hb)
      rw [hb]
      exact ih fun _ => rfl
    · rw [next_plain hquote hopen hb]
      exact ih hdepth
  | @quoted loose quote inside s hquote hinside _ ih =>
    rw [scan_cons, next_quote hquote, scan_append, scan_inQuotes hinside, scan_cons]
    -- the quote is closed by its own end
    rw [next_inQuote_end (ne_backslash_of_isQuote hquote)]
    exact ih hdepth
  | parenthesized _ _ ihinside ih =>
    rw [scan_cons, scan_append]
    have hopened : (unquoted depth).next (octet '(') = unquoted (depth + 1) := rfl
    rw [hopened, ihinside (by simp), scan_cons]
    exact ih hdepth

/-- Text that closes a number of open parentheses, and all that it opens itself. -/
def Closes : Nat → Bytes → Prop
  | 0, s => Closed true s
  | depth + 1, s => ∃ t u, s = t ++ octet ')' :: u ∧ Closed false t ∧ Closes depth u

/-- Text that closes all that is open at a position. -/
def Completes (p : Position) (s : Bytes) : Prop :=
  match p.quote, p.escaped with
  | none, _ => Closes p.depth s
  | some quote, false => ∃ t u, s = t ++ quote :: u ∧ InQuotes quote t ∧ Closes p.depth u
  | some quote, true => ∃ b t u, s = b :: (t ++ quote :: u) ∧ InQuotes quote t ∧ Closes p.depth u

/-- Closed text in front of what closes parentheses. -/
theorem Closes.prepend {x : Bytes} (hx : ∀ loose s, Closed loose s → Closed loose (x ++ s))
    {depth : Nat} {s : Bytes} (h : Closes depth s) : Closes depth (x ++ s) := by
  cases depth with
  | zero => exact hx true s h
  | succ depth =>
    obtain ⟨t, u, rfl, ht, hu⟩ := h
    exact ⟨x ++ t, u, by rw [List.append_assoc], hx false t ht, hu⟩

/-- A byte in front of text that closes all that is open behind it. One case per branch of the
reader. -/
theorem Completes.cons {p : Position} (hp : p.Sound) {b : UInt8} {s : Bytes}
    (h : (p.next b).Completes s) : p.Completes (b :: s) := by
  obtain ⟨quote, escaped, depth⟩ := p
  cases quote with
  | some quote =>
    cases escaped with
    | true =>
      -- behind a backslash any byte is passed over
      obtain ⟨t, u, rfl, ht, hu⟩ := h
      exact ⟨b, t, u, rfl, ht, hu⟩
    | false =>
      by_cases hback : b = octet '\\'
      · subst hback
        obtain ⟨c, t, u, rfl, ht, hu⟩ := h
        exact ⟨octet '\\' :: c :: t, u, rfl, .escaped c ht, hu⟩
      · by_cases hquote : b = quote
        · -- the quote ends here
          subst hquote
          change ((inQuote b depth).next b).Completes s at h
          rw [next_inQuote_end hback] at h
          exact ⟨[], s, rfl, .nil, h⟩
        · change ((inQuote quote depth).next b).Completes s at h
          rw [next_inQuote_plain hquote hback] at h
          obtain ⟨t, u, rfl, ht, hu⟩ := h
          exact ⟨b :: t, u, rfl, .plain hquote hback ht, hu⟩
  | none =>
    obtain rfl : escaped = false := hp.unescaped rfl
    change ((unquoted depth).next b).Completes s at h
    change Closes depth (b :: s)
    by_cases hquote : isQuote b = true
    · -- quoted text begins here, and is put in front of what closes the parentheses
      rw [next_quote hquote] at h
      obtain ⟨t, u, rfl, ht, hu⟩ := h
      have hclosed : Closes depth (b :: (t ++ [b]) ++ u) := hu.prepend fun loose s hs => by
        simpa using Closed.quoted hquote ht hs
      simpa using hclosed
    rw [Bool.not_eq_true] at hquote
    by_cases hopen : b = octet '('
    · -- one parenthesis more is open behind the byte than in front of it
      subst hopen
      obtain ⟨t, u, rfl, ht, hu⟩ := h
      have hclosed : Closes depth (octet '(' :: (t ++ [octet ')']) ++ u) :=
        Closes.prepend (fun loose s hs => by simpa using Closed.parenthesized ht hs) hu
      simpa using hclosed
    by_cases hclose : b = octet ')'
    · subst hclose
      -- the parenthesis closes one that is open, or nothing
      cases depth with
      | zero => exact Closed.plain hquote hopen (fun _ => rfl) h
      | succ depth => exact ⟨[], s, rfl, .nil false, h⟩
    · rw [next_plain hquote hopen hclose] at h
      exact Closes.prepend (x := [b])
        (fun loose s hs => .plain hquote hopen (fun hb => absurd hb hclose) hs) h

theorem completes_nil {p : Position} (h : p.isOutside = true) : p.Completes [] := by
  obtain ⟨quote, escaped, depth⟩ := p
  simp only [isOutside, Bool.and_eq_true, Option.isNone_iff_eq_none, beq_iff_eq] at h
  obtain ⟨rfl, rfl⟩ := h
  exact Closed.nil true

/-- A text that leads outside closes all that was open. By induction on the text. -/
theorem completes_of_scan {p : Position} (hp : p.Sound) {s : Bytes}
    (h : (p.scan s).isOutside = true) : p.Completes s := by
  induction s generalizing p with
  | nil => exact completes_nil h
  | cons b s ih => exact Completes.cons hp (ih (hp.next b) h)

end Position

/-- **Positions and closed text.** A reader stands outside quotes and parentheses exactly behind
closed text. -/
theorem isOutside_scan_iff (s : Bytes) :
    (Position.start.scan s).isOutside = true ↔ Closed true s := by
  constructor
  · exact Position.completes_of_scan Position.sound_start
  · intro h
    rw [show Position.start.scan s = .start from Position.scan_closed h fun _ => rfl]
    rfl

instance (s : Bytes) : Decidable (Closed true s) :=
  decidable_of_iff _ (isOutside_scan_iff s)

/-- Behind closed text the reader stands as at the start. -/
theorem Closed.scan_eq {s : Bytes} (h : Closed true s) : Position.start.scan s = .start :=
  Position.scan_eq_start ((isOutside_scan_iff s).2 h)

/-- Behind closed text everything is as at the start. -/
theorem Closed.append_iff {s : Bytes} (h : Closed true s) (t : Bytes) :
    Closed true (s ++ t) ↔ Closed true t := by
  rw [← isOutside_scan_iff, Position.scan_append, h.scan_eq, isOutside_scan_iff]

/-! ## Cuts -/

/-- No separator in the text counts when the text is read from a position. -/
def Uncut (separator : UInt8) : Position → Bytes → Prop
  | _, [] => True
  | p, b :: s => ¬ (p.isOutside = true ∧ b = separator) ∧ Uncut separator (p.next b) s

variable {separator : UInt8}

/-- A text is without a cut if both parts are, the second one read from the end of the first. -/
theorem uncut_append {p : Position} {s t : Bytes} :
    Uncut separator p (s ++ t) ↔ Uncut separator p s ∧ Uncut separator (p.scan s) t := by
  induction s generalizing p with
  | nil => simp [Uncut]
  | cons b s ih => rw [List.cons_append, Uncut, Uncut, ih, and_assoc, Position.scan_cons]

/-- A text has no cut, or a first one. -/
theorem uncut_or_exists_cut (separator : UInt8) (p : Position) (s : Bytes) :
    Uncut separator p s ∨
      ∃ front rest, s = front ++ separator :: rest ∧ Uncut separator p front ∧
        (p.scan front).isOutside = true := by
  induction s generalizing p with
  | nil => exact Or.inl trivial
  | cons b s ih =>
    by_cases hcut : p.isOutside = true ∧ b = separator
    · obtain ⟨hout, rfl⟩ := hcut
      exact Or.inr ⟨[], s, rfl, trivial, hout⟩
    · rcases ih (p.next b) with huncut | ⟨front, rest, rfl, hfront, hout⟩
      · exact Or.inl ⟨hcut, huncut⟩
      · exact Or.inr ⟨b :: front, rest, rfl, ⟨hcut, hfront⟩, hout⟩

/-- Text without a cut goes to the piece. -/
theorem splitFrom_uncut {p : Position} {s : Bytes} (h : Uncut separator p s) (rest piece : Bytes)
    (done : List Bytes) :
    splitFrom separator p (s ++ rest) piece done =
      splitFrom separator (p.scan s) rest (s.reverse ++ piece) done := by
  induction s generalizing p piece with
  | nil => rfl
  | cons b s ih =>
    rw [List.cons_append, splitFrom, if_neg (by simpa using h.1), ih h.2]
    simp

theorem splitFrom_done (p : Position) (s piece : Bytes) (done : List Bytes) :
    splitFrom separator p s piece done = done.reverse ++ splitFrom separator p s piece [] := by
  induction s generalizing p piece done with
  | nil => simp [splitFrom]
  | cons b s ih =>
    rw [splitFrom, splitFrom]
    split
    · rw [ih, ih p [] [piece.reverse]]
      simp
    · exact ih (p.next b) (b :: piece) done

/-- Text without a cut is one piece. -/
theorem split_of_uncut {s : Bytes} (h : Uncut separator .start s) : split separator s = [s] := by
  have hread := splitFrom_uncut h [] [] []
  rw [List.append_nil, List.append_nil] at hread
  rw [split, hread, splitFrom]
  simp

/-- The first cut, behind which the text is cut as if it began there. -/
theorem split_append_cut {front : Bytes} (h : Uncut separator .start front)
    (hclosed : Closed true front) (rest : Bytes) :
    split separator (front ++ separator :: rest) = front :: split separator rest := by
  -- `hclosed` puts the reader back to the start at the cut
  rw [split, splitFrom_uncut h, hclosed.scan_eq, splitFrom, if_pos (by simp), splitFrom_done, split]
  simp

/-- Induction on the cuts of a text. -/
theorem cutInduction {motive : Bytes → Prop} (separator : UInt8)
    (last : ∀ s, Uncut separator .start s → motive s)
    (cut : ∀ front rest, Uncut separator .start front → Closed true front → motive rest →
      motive (front ++ separator :: rest)) (s : Bytes) : motive s := by
  rcases uncut_or_exists_cut separator .start s with huncut | ⟨front, rest, rfl, hfront, hout⟩
  · exact last s huncut
  · have hshorter : rest.length < (front ++ separator :: rest).length := by
      rw [List.length_append, List.length_cons]
      omega
    exact cut front rest hfront ((isOutside_scan_iff front).1 hout)
      (cutInduction separator last cut rest)
termination_by s.length

/-- Every piece is without a cut, every piece but the last is closed, and the last one is closed if
and only if the text is. -/
theorem exists_split (hplain : Closed true [separator]) (s : Bytes) :
    ∃ front last, split separator s = front ++ [last] ∧
      (∀ piece ∈ front, Uncut separator .start piece ∧ Closed true piece) ∧
      Uncut separator .start last ∧ (Closed true last ↔ Closed true s) := by
  induction s using cutInduction separator with
  | last s huncut => exact ⟨[], s, split_of_uncut huncut, by simp, huncut, Iff.rfl⟩
  | cut front rest huncut hclosed ih =>
    obtain ⟨pieces, last, hsplit, hpieces, hlast, hiff⟩ := ih
    -- in front of the rest all is closed, the separator included
    have hsep : Closed true (front ++ [separator]) := (hclosed.append_iff _).2 hplain
    refine ⟨front :: pieces, last, ?_, ?_, hlast, ?_⟩
    · rw [split_append_cut huncut hclosed, hsplit, List.cons_append]
    · exact List.forall_mem_cons.2 ⟨⟨huncut, hclosed⟩, hpieces⟩
    · rw [hiff, ← hsep.append_iff rest, List.append_assoc, List.singleton_append]

/-! ## The pieces -/

theorem split_ne_nil (separator : UInt8) (s : Bytes) : split separator s ≠ [] := by
  induction s using cutInduction separator with
  | last s huncut => rw [split_of_uncut huncut]; exact List.cons_ne_nil s []
  | cut front rest huncut hclosed _ =>
    rw [split_append_cut huncut hclosed]
    exact List.cons_ne_nil front _

/-- With the separator between them, the pieces are the text. -/
theorem join_split_self (separator : UInt8) (s : Bytes) :
    Bytes.join [separator] (split separator s) = s := by
  induction s using cutInduction separator with
  | last s huncut => rw [split_of_uncut huncut, Bytes.join_singleton]
  | cut front rest huncut hclosed ih =>
    rw [split_append_cut huncut hclosed, Bytes.join_cons_of_ne (split_ne_nil separator rest), ih]
    rfl

/-- The pieces are without a cut. -/
theorem uncut_of_mem_split (hplain : Closed true [separator]) {s piece : Bytes}
    (h : piece ∈ split separator s) : Uncut separator .start piece := by
  obtain ⟨front, last, hsplit, hfront, hlast, -⟩ := exists_split hplain s
  rw [hsplit, List.mem_append, List.mem_singleton] at h
  rcases h with hmem | rfl
  · exact (hfront piece hmem).1
  · exact hlast

/-- All pieces but the last are closed. -/
theorem closed_of_mem_dropLast_split (hplain : Closed true [separator]) {s piece : Bytes}
    (h : piece ∈ (split separator s).dropLast) : Closed true piece := by
  obtain ⟨front, last, hsplit, hfront, -⟩ := exists_split hplain s
  rw [hsplit, List.dropLast_concat] at h
  exact (hfront piece h).2

/-- Behind closed pieces and the separators between them, a text is read as if it began there. -/
theorem scan_join (hplain : Closed true [separator]) {front : List Bytes}
    (hfront : ∀ piece ∈ front, Closed true piece) (s : Bytes) :
    Position.start.scan (Bytes.join [separator] (front ++ [s])) = Position.start.scan s := by
  induction front with
  | nil => rw [List.nil_append, Bytes.join_singleton]
  | cons piece front ih =>
    obtain ⟨hpiece, hfront⟩ := List.forall_mem_cons.1 hfront
    rw [List.cons_append, Bytes.join_cons_of_ne (by simp), Position.scan_append, hpiece.scan_eq,
      Position.scan_append, hplain.scan_eq]
    exact ih hfront

/-- The bytes that have a meaning of their own in style text: quotes, parentheses and the
backslash. -/
def marks : Bytes := ascii "\"'()\\"

/-- A separator without a meaning of its own is closed. -/
theorem closed_of_notMem_marks (h : separator ∉ marks) : Closed true [separator] := by
  have hne : ∀ b ∈ marks, separator ≠ b := fun b hb heq => h (heq ▸ hb)
  have hquote : isQuote separator = false := by
    simp [isQuote, hne (octet '"') (by decide), hne (octet '\'') (by decide)]
  exact .plain hquote (hne (octet '(') (by decide)) (fun _ => rfl) (.nil true)

/-- **Cutting loses nothing, and the pieces are stable.** With the separator between them the pieces
are the text, each of them is one piece when it is cut again, and every piece but the last is left
outside quotes and parentheses. Nor is a cut missing: where a separator stands in a piece, something
is open in front of it, as the whole text is read. -/
theorem split_pieces_stable (hseparator : separator ∉ marks) (s : Bytes) :
    Bytes.join [separator] (split separator s) = s ∧
      (∀ piece ∈ split separator s, split separator piece = [piece]) ∧
      (∀ piece ∈ (split separator s).dropLast,
        (Position.start.scan piece).quote = none ∧ (Position.start.scan piece).depth = 0) ∧
      ∀ front piece back before after, split separator s = front ++ piece :: back →
        piece = before ++ separator :: after →
        (Position.start.scan (Bytes.join [separator] (front ++ [before]))).isOutside = false := by
  have hplain : Closed true [separator] := closed_of_notMem_marks hseparator
  refine ⟨join_split_self separator s, fun piece hpiece => ?_, fun piece hpiece => ?_, ?_⟩
  · exact split_of_uncut (uncut_of_mem_split hplain hpiece)
  · rw [(closed_of_mem_dropLast_split hplain hpiece).scan_eq]
    exact ⟨rfl, rfl⟩
  · intro front piece back before after hsplit hpiece
    -- the pieces in front are not the last one
    have hfront : ∀ p ∈ front, Closed true p := by
      intro p hp
      refine closed_of_mem_dropLast_split hplain (s := s) ?_
      rw [hsplit, List.dropLast_append_of_ne_nil (List.cons_ne_nil piece back)]
      exact List.mem_append_left _ hp
    have huncut : Uncut separator .start piece :=
      uncut_of_mem_split hplain (s := s) (by rw [hsplit]; simp)
    rw [hpiece, uncut_append] at huncut
    -- in front of the piece all is closed, so what is open there is open in the piece itself
    rw [scan_join hplain hfront]
    simpa using huncut.2.1

/-- A quote that does not end where it seems to, a parenthesis that closes nothing, and at the end a
parenthesis and a quote that are never closed. -/
theorem split_pieces_stable_open : ∃ text, text = ascii "a;'\\';';b);(c;\"d" ∧ octet ';' ∉ marks ∧
    split (octet ';') text = [ascii "a", ascii "'\\';'", ascii "b)", ascii "(c;\"d"] ∧
    Bytes.join [octet ';'] (split (octet ';') text) = text ∧
    (∀ piece ∈ split (octet ';') text, split (octet ';') piece = [piece]) ∧
    ∀ piece ∈ (split (octet ';') text).dropLast,
      (Position.start.scan piece).quote = none ∧ (Position.start.scan piece).depth = 0 := by
  have hseparator : octet ';' ∉ marks := by decide
  obtain ⟨hjoin, hstable, hclosed, -⟩ := split_pieces_stable hseparator (ascii "a;'\\';';b);(c;\"d")
  exact ⟨_, rfl, hseparator, by decide, hjoin, hstable, hclosed⟩

end DocTree.Style
