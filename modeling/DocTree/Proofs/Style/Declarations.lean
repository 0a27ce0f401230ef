import DocTree.Proofs.Style.Parse
import DocTree.Proofs.Style.Split
import Mathlib.Data.List.Basic

/-!
# The declarations of style text

What style text declares is said here of the text as a whole: it is cut at each semicolon that has
nothing open in front of it, counted from the start of the text (`chunks`), and a chunk declares
something if it has such a colon with text on both sides (`Chunk.sides?`). The reader starts anew in
each piece and agrees with this (`sidesOf_eq_map`).

Of the declarations, the first one with a key gives the place and the name, and the last one the
value (`parse_firstPlace_lastValue`).
-/

namespace DocTree.Style

/-! ## Chunks of the whole text -/

/-- A stretch of a text, with all that stands in front of it. -/
structure Chunk where
  /-- The text in front. -/
  front : Bytes
  /-- The stretch itself. -/
  text : Bytes
  deriving DecidableEq, Repr

/-- Cuts on in a text of which `front` is done with and `chunk` is read: at each separator in front
of which all is closed, from the start of the text on. -/
def chunksFrom (separator : UInt8) (front chunk : Bytes) : Bytes → List Chunk
  | [] => [⟨front, chunk⟩]
  | b :: rest =>
    if b = separator ∧ Closed true (front ++ chunk) then
      ⟨front, chunk⟩ :: chunksFrom separator (front ++ chunk ++ [b]) [] rest
    else
      chunksFrom separator front (chunk ++ [b]) rest

/-- The chunks of style text. -/
def chunks (css : Bytes) : List Chunk := chunksFrom (octet ';') [] [] css

/-- The two sides of a declaration. -/
structure Sides where
  /-- The name. -/
  name : Bytes
  /-- The value. -/
  value : Bytes
  deriving DecidableEq, Repr

namespace Chunk

/-- Where the first colon of a chunk stands that has nothing open in front of it in the whole
text. -/
def colon? (c : Chunk) : Option Nat :=
  (List.range c.text.length).find? fun k =>
    c.text[k]? = some (octet ':') ∧ Closed true (c.front ++ c.text.take k)

/-- What a chunk declares: it has such a colon, and text on both sides of it. -/
def sides? (c : Chunk) : Option Sides :=
  c.colon?.bind fun k =>
    let name := Bytes.trim (c.text.take k)
    let value := Bytes.trim (c.text.drop (k + 1))
    if name = [] ∨ value = [] then none else some ⟨name, value⟩

end Chunk

/-- What style text declares, in the order of the text. -/
def sidesOf (css : Bytes) : List Sides := (chunks css).filterMap Chunk.sides?

/-! ## Pieces and chunks -/

theorem closed_semicolon : Closed true [octet ';'] := by decide

/-- The pieces are the texts of the chunks, and what stands in front of a chunk is closed. -/
theorem chunksFrom_spec {separator : UInt8} (hplain : Closed true [separator]) {front : Bytes}
    (hfront : Closed true front) (chunk s : Bytes) :
    (chunksFrom separator front chunk s).map Chunk.text =
        splitFrom separator (Position.start.scan chunk) s chunk.reverse [] ∧
      ∀ c ∈ chunksFrom separator front chunk s, Closed true c.front := by
  induction s generalizing front chunk with
  | nil => simp [chunksFrom, splitFrom, hfront]
  | cons b s ih =>
    rw [chunksFrom, splitFrom]
    -- what is closed in front of the chunk does not matter for what counts inside it
    have hcut : ((Position.start.scan chunk).isOutside && b == separator) = true ↔
        b = separator ∧ Closed true (front ++ chunk) := by
      rw [hfront.append_iff, ← isOutside_scan_iff, Bool.and_eq_true, beq_iff_eq, and_comm]
    by_cases h : b = separator ∧ Closed true (front ++ chunk)
    · rw [if_pos h, if_pos (hcut.2 h), splitFrom_done]
      obtain ⟨rfl, hclosed⟩ := h
      have hchunk : Closed true chunk := (hfront.append_iff chunk).1 hclosed
      obtain ⟨htexts, hfronts⟩ := ih ((hclosed.append_iff [b]).2 hplain) []
      rw [hchunk.scan_eq]
      refine ⟨?_, List.forall_mem_cons.2 ⟨hfront, hfronts⟩⟩
      rw [List.map_cons, htexts]
      simp
    · rw [if_neg h, if_neg (mt hcut.1 h)]
      obtain ⟨htexts, hfronts⟩ := ih hfront (chunk ++ [b])
      rw [Position.scan_append, List.reverse_append] at htexts
      exact ⟨htexts, hfronts⟩

/-- The pieces that the reader cuts are the texts of the chunks. -/
theorem map_text_chunks (css : Bytes) : (chunks css).map Chunk.text = split (octet ';') css :=
  (chunksFrom_spec closed_semicolon (.nil true) [] css).1

/-- What stands in front of a chunk is closed. -/
theorem closed_front_of_mem_chunks {css : Bytes} {c : Chunk} (h : c ∈ chunks css) :
    Closed true c.front :=
  (chunksFrom_spec closed_semicolon (.nil true) [] css).2 c h

/-! ## The declaration in a piece -/

/-- A piece without a colon that counts declares nothing. -/
theorem declaration?_of_uncut {piece : Bytes} (h : Uncut (octet ':') .start piece) :
    declaration? piece = none := by
  rw [declaration?, split_of_uncut h]

/-- The first colon that counts divides a piece. -/
theorem declaration?_cut {front : Bytes} (h : Uncut (octet ':') .start front)
    (hclosed : Closed true front) (rest : Bytes) :
    declaration? (front ++ octet ':' :: rest) =
      if Bytes.trim front = [] ∨ Bytes.trim rest = [] then none
      else some ⟨Bytes.trim front, toKey (Bytes.trim front), Bytes.trim rest, false⟩ := by
  obtain ⟨piece, pieces, hpieces⟩ : ∃ piece pieces, split (octet ':') rest = piece :: pieces :=
    List.exists_cons_of_ne_nil (split_ne_nil (octet ':') rest)
  -- the value goes on to the end of the piece, colons and all
  have hdrop : (front ++ octet ':' :: rest).drop (front.length + 1) = rest := by simp
  rw [declaration?, split_append_cut h hclosed, hpieces]
  simp only [hdrop, Bool.or_eq_true, List.isEmpty_iff]

/-- A separator that counts cuts. -/
theorem Uncut.not_isOutside {separator : UInt8} {p : Position} {s : Bytes} (h : Uncut separator p s)
    {k : Nat} (hk : s[k]? = some separator) : (p.scan (s.take k)).isOutside = false := by
  obtain ⟨hlt, hget⟩ := List.getElem?_eq_some_iff.1 hk
  have hsplit : s = s.take k ++ separator :: s.drop (k + 1) := by
    rw [← hget, List.getElem_cons_drop, List.take_append_drop]
  rw [hsplit, uncut_append] at h
  simpa using h.2.1

/-- A chunk declares what the piece of the same text declares. -/
theorem Chunk.sides?_eq {c : Chunk} (hfront : Closed true c.front) :
    c.sides? = (declaration? c.text).map fun d => ⟨d.name, d.value⟩ := by
  obtain ⟨front, text⟩ := c
  -- counted from the start of the text or of the chunk, the same is open
  have hclosed : ∀ k, Closed true (front ++ text.take k) ↔
      (Position.start.scan (text.take k)).isOutside = true := by
    intro k
    rw [hfront.append_iff, isOutside_scan_iff]
  rcases uncut_or_exists_cut (octet ':') .start text with huncut | ⟨name, value, rfl, hname, hout⟩
  · -- a colon that counts would be a cut
    have hnone : (Chunk.mk front text).colon? = none := by
      rw [colon?, List.find?_eq_none]
      intro k _ hcolon
      obtain ⟨hk, hk'⟩ := of_decide_eq_true hcolon
      rw [hclosed, huncut.not_isOutside hk] at hk'
      cases hk'
    rw [sides?, hnone, declaration?_of_uncut huncut]
    rfl
  · have hclosedName : Closed true name := (isOutside_scan_iff name).1 hout
    have hcolon : (Chunk.mk front (name ++ octet ':' :: value)).colon? = some name.length := by
      rw [colon?, List.find?_range_eq_some]
      refine ⟨by simp [(hfront.append_iff name).2 hclosedName], by simp, fun j hj => ?_⟩
      -- a colon in front of this one would be a cut in the name
      simp only [Bool.not_eq_true', decide_eq_false_iff_not]
      rintro ⟨hget, hopen⟩
      rw [List.getElem?_append_left hj] at hget
      rw [hclosed, List.take_append_of_le_length (Nat.le_of_lt hj),
        hname.not_isOutside hget] at hopen
      cases hopen
    have hdrop : (name ++ octet ':' :: value).drop (name.length + 1) = value := by simp
    rw [sides?, hcolon, declaration?_cut hname hclosedName]
    simp only [Option.bind_some, List.take_left, hdrop]
    split <;> rfl

/-! ## One place for each key -/

/-- The keys of declarations, in their order. -/
def keys (decls : List Declaration) : List Bytes := decls.map (·.key)

/-- The two sides of a declaration. -/
def Declaration.sides (d : Declaration) : Sides := ⟨d.name, d.value⟩

@[simp] theorem Declaration.sides_name (d : Declaration) : d.sides.name = d.name := rfl

/-- The sides are those of the declarations that the reader finds. -/
theorem sidesOf_eq_map (css : Bytes) : sidesOf css = (declared css).map Declaration.sides := by
  rw [sidesOf, declared, ← map_text_chunks, List.filterMap_map, List.map_filterMap]
  exact List.filterMap_congr fun c hc => Chunk.sides?_eq (closed_front_of_mem_chunks hc)

theorem key_of_mem_declared {css : Bytes} {d : Declaration} (h : d ∈ declared css) :
    d.key = toKey d.name := by
  obtain ⟨piece, -, hpiece⟩ := List.mem_filterMap.1 h
  exact key_of_declaration? hpiece

/-- The keys stand in the order in which they are declared first. -/
theorem keys_parse (css : Bytes) : keys (parse css) = (keys (declared css)).eraseDups :=
  Keyed.map_putAll_nil mergeable_revalue (declared css)

theorem nodup_keys_parse (css : Bytes) : (keys (parse css)).Nodup := by
  have hnil : (keys []).Nodup := List.nodup_nil
  exact Keyed.nodup_map_putAll mergeable_revalue hnil (declared css)

/-- Looking for a key among declarations or among their sides is the same. -/
theorem find?_sides {decls : List Declaration} (h : ∀ d ∈ decls, d.key = toKey d.name)
    (key : Bytes) :
    (decls.map Declaration.sides).find? (fun c => toKey c.name == key) =
      (Keyed.find? Declaration.key key decls).map Declaration.sides := by
  induction decls with
  | nil => rfl
  | cons d decls ih =>
    obtain ⟨hd, hdecls⟩ := List.forall_mem_cons.1 h
    rw [List.map_cons, Keyed.find?_cons, hd]
    -- the first one has the key, or it is looked for among the others
    by_cases hkey : toKey d.name = key
    · rw [if_pos hkey, List.find?_cons_of_pos (by simpa using hkey)]
      rfl
    · rw [if_neg hkey, List.find?_cons_of_neg (by simpa using hkey), ih hdecls]

/-- **The first place and the last value.** No key stands twice among the declarations of style
text, and the keys are those that the text declares, in the order in which they come first. A
declaration has the name that is declared first with its key and the value that is declared last
with it, and this is not the text of a number. -/
theorem parse_firstPlace_lastValue (css : Bytes) :
    (keys (parse css)).Nodup ∧
      keys (parse css) = ((sidesOf css).map fun c => toKey c.name).eraseDups ∧
      ∀ d ∈ parse css, ∃ first last,
        (sidesOf css).find? (fun c => toKey c.name == d.key) = some first ∧
        (sidesOf css).reverse.find? (fun c => toKey c.name == d.key) = some last ∧
        d = ⟨first.name, d.key, last.value, false⟩ := by
  have hkey : ∀ d ∈ declared css, d.key = toKey d.name := fun d => key_of_mem_declared
  refine ⟨nodup_keys_parse css, ?_, fun d hd => ?_⟩
  · rw [keys_parse, sidesOf_eq_map, List.map_map]
    congr 1
    exact List.map_congr_left fun d hd => hkey d hd
  · have hnumeric : d.numeric = false := numeric_of_mem_parse hd
    have hfind : Keyed.find? Declaration.key d.key (parse css) = some d :=
      Keyed.find?_of_mem (nodup_keys_parse css) hd
    rw [parse, Keyed.find?_putAll mergeable_revalue] at hfind
    obtain ⟨first, hfirst, hd⟩ := Option.map_eq_some_iff.1 hfind
    change Keyed.find? Declaration.key d.key (declared css) = some first at hfirst
    -- a key that is declared is declared last somewhere
    obtain ⟨last, hlast⟩ : ∃ e,
        Keyed.find? Declaration.key d.key (declared css).reverse = some e := by
      rw [← Option.isSome_iff_exists, Keyed.find?_reverse_isSome, hfirst, Option.isSome_some]
    -- the first and the last declaration with the key are found among the sides as well
    refine ⟨first.sides, last.sides, ?_, ?_, ?_⟩
    · rw [sidesOf_eq_map, find?_sides hkey, hfirst]
      rfl
    · rw [sidesOf_eq_map, ← List.map_reverse, find?_sides (by simpa using hkey), hlast]
      rfl
    · rw [hlast] at hd
      subst hd
      rw [← hnumeric]
      rfl

/-- Style text with two spellings of one key, a quote that does not end where it seems to, a
parenthesis that closes nothing and a chunk without a colon. -/
def respelled : Bytes := ascii "font-size: 1; content: '\\';:' ); nothing; Font-Size: 2px"

/-- The first spelling stays, with the value of the second. -/
theorem parse_firstPlace_lastValue_respelled :
    keys (parse respelled) = [ascii "fontSize", ascii "content"] ∧
      (⟨ascii "font-size", ascii "fontSize", ascii "2px", false⟩ : Declaration) ∈ parse respelled ∧
      ∃ first last,
        (sidesOf respelled).find? (fun c => toKey c.name == ascii "fontSize") = some first ∧
        (sidesOf respelled).reverse.find? (fun c => toKey c.name == ascii "fontSize") = some last ∧
        (⟨ascii "font-size", ascii "fontSize", ascii "2px", false⟩ : Declaration) =
          ⟨first.name, ascii "fontSize", last.value, false⟩ := by
  obtain ⟨-, hkeys, hdecls⟩ := parse_firstPlace_lastValue respelled
  have hmem : (⟨ascii "font-size", ascii "fontSize", ascii "2px", false⟩ : Declaration) ∈ parse
      respelled := by
    decide +kernel
  refine ⟨?_, hmem, hdecls _ hmem⟩
  rw [hkeys]
  decide +kernel

end DocTree.Style
