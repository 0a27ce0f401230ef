import DocTree.Json.Read
import DocTree.Json.Write
import DocTree.Proofs.Number.Decimal
import DocTree.Proofs.Number.Double
import DocTree.Proofs.Text.Bytes

/-!
# Reading back what was written

Strings, small integers, arrays of strings and objects are read back from their text, whatever
follows it; only a number must not be followed by a byte that could be part of it (`EndsNumber`). A
string is read byte by byte: past the text of one byte the reader has that byte and goes on
(`stringFrom_escape`). Arrays and objects are read with any reader that reads their items back.
-/

namespace DocTree.Json

/-! ## Tokens -/

theorem skipSpaces_cons {b : UInt8} (h : isSpace b = false) (s : Bytes) :
    skipSpaces (b :: s) = b :: s := by
  rw [skipSpaces, List.dropWhile_cons, if_neg (by simp [h])]

theorem nextKind_cons {b : UInt8} (h : isSpace b = false) (s : Bytes) :
    nextKind (b :: s) = .ofByte b := by
  rw [nextKind, skipSpaces_cons h]

theorem nextKind_bracket (s : Bytes) : nextKind (octet '[' :: s) = .array := rfl

theorem nextKind_brace (s : Bytes) : nextKind (octet '{' :: s) = .object := rfl

/-! ## Strings -/

theorem hexDigit?_hexDigit : ∀ n < 16, Bytes.hexDigit? (Bytes.hexDigit n) = some n := by
  decide

/-- A control character is written as one byte. -/
theorem codePoint_of_lt_space {b : UInt8} (h : b < 0x20) : codePoint b.toNat = [b] := by
  have hall : ∀ n < 32, codePoint n = [UInt8.ofNat n] := by decide
  rw [hall b.toNat (UInt8.lt_iff_toNat_lt.1 h), UInt8.ofNat_toNat]

/-- A control character that is written as four digits is read back. -/
theorem stringFrom_unit {b : UInt8} (h : b < 0x20) (rest done : Bytes) :
    stringFrom (.unit none 0 0)
        (ascii "00" ++ [Bytes.hexDigit (b.toNat / 16), Bytes.hexDigit (b.toNat % 16)] ++ rest)
        done =
      stringFrom (.text false) rest (b :: done) := by
  have hb : b.toNat < 32 := UInt8.lt_iff_toNat_lt.1 h
  have hhigh := hexDigit?_hexDigit (b.toNat / 16) (by omega)
  have hlow := hexDigit?_hexDigit (b.toNat % 16) (by omega)
  have hvalue : b.toNat / 16 * 16 + b.toNat % 16 = b.toNat := by omega
  have hsur : isSurrogate b.toNat = false := by simp [isSurrogate]; omega
  have hzero : Bytes.hexDigit? (octet '0') = some 0 := rfl
  simp [ascii, stringFrom, StringState.step, hhigh, hlow, hzero, hvalue, hsur,
    codePoint_of_lt_space h]

/-- Reading past the text of one byte adds that byte. -/
theorem stringFrom_escape (b : UInt8) (strict : Bool) (rest done : Bytes) :
    stringFrom (.text strict) ((escape? b).getD [b] ++ rest) done =
      stringFrom (.text (strict && (escape? b).isNone)) rest (b :: done) := by
  fun_cases escape? b with
  | case1 h =>
    have hb : b = octet '"' ∨ b = octet '\\' := by simpa using h
    simp only [Option.getD_some, Option.isNone_some, Bool.and_false]
    rcases hb with rfl | rfl <;> rfl
  | case2 _ h | case3 _ _ h | case4 _ _ _ h =>
    -- the control characters that have a letter of their own
    obtain rfl := eq_of_beq h
    simp only [Option.getD_some, Option.isNone_some, Bool.and_false]
    rfl
  | case5 _ _ _ _ h =>
    simp only [Option.getD_some, Option.isNone_some, Bool.and_false]
    exact stringFrom_unit h rest done
  | case6 hquote _ _ _ h =>
    -- all other bytes stand for themselves, in a strict reader too
    have hne : b ≠ octet '"' ∧ b ≠ octet '\\' := by simpa using hquote
    simp [stringFrom, StringState.step, textStep, hne, h]

/-- The text between the quotes of a string is read back as the string. -/
theorem stringFrom_escaped (strict : Bool) (s rest done : Bytes) :
    stringFrom (.text strict) (Bytes.replaceOctets escape? s ++ octet '"' :: rest) done =
      .ok (done.reverse ++ s, rest) := by
  induction s generalizing strict done with
  | nil => simp [Bytes.replaceOctets, stringFrom, StringState.step, textStep]
  | cons b s ih =>
    have hsplit : Bytes.replaceOctets escape? (b :: s) =
        (escape? b).getD [b] ++ Bytes.replaceOctets escape? s := List.flatMap_cons ..
    rw [hsplit, List.append_assoc, stringFrom_escape, ih, List.reverse_cons, List.append_assoc,
      List.singleton_append]

theorem quoted_append (s rest : Bytes) :
    quoted s ++ rest = octet '"' :: (Bytes.replaceOctets escape? s ++ octet '"' :: rest) := by
  simp [quoted]

/-- A string is read back. -/
theorem string_quoted (s rest : Bytes) : string (quoted s ++ rest) = .ok (s, rest) := by
  rw [quoted_append, string, skipSpaces_cons rfl]
  exact stringFrom_escaped true s rest []

theorem nextKind_quoted (s rest : Bytes) : nextKind (quoted s ++ rest) = .string := by
  rw [quoted_append, nextKind_cons rfl]
  rfl

/-! ## Numbers -/

/-- Digits have no point that could stand in a wrong place. -/
theorem pointWell_of_digits {digits : Bytes} (h : ∀ b ∈ digits, Decimal.isDigit b = true) :
    pointWell digits = true := by
  have hdrop : digits.dropWhile (· != octet '.') = [] := by
    refine List.dropWhile_eq_nil_iff.2 fun b hb => ?_
    simpa using Decimal.ne_of_isDigit (h b hb) (c := octet '.') rfl
  rw [pointWell, hdrop]

/-- A number that is written begins as numbers do. -/
theorem beginsWell_ofNat (n : Nat) : beginsWell (Bytes.ofNat n) = true := by
  obtain ⟨b, rest, hs, hb⟩ := Bytes.ofNat_eq_cons n
  have hzero : b = octet '0' → rest = [] := by
    rintro rfl
    exact Bytes.eq_nil_of_ofNat_eq_zero_cons hs
  rw [hs]
  simp only [beginsWell, Bool.and_eq_true, bne_iff_ne, Bool.not_eq_true', Bool.and_eq_false_imp,
    beq_iff_eq]
  refine ⟨⟨Decimal.ne_of_isDigit hb rfl, Decimal.ne_of_isDigit hb rfl⟩, fun h => ?_⟩
  -- a zero stands alone, so no digit follows it
  rw [hzero h]
  rfl

theorem decimal?_ofNat (n : Nat) : decimal? (Bytes.ofNat n) = some ⟨false, n, 0⟩ := by
  have hdigits : ∀ b ∈ Bytes.ofNat n, Decimal.isDigit b = true := fun _ =>
    Bytes.isDigit_of_mem_ofNat
  have hne : Bytes.ofNat n ≠ [] := by
    obtain ⟨b, rest, hs, -⟩ := Bytes.ofNat_eq_cons n
    simp [hs]
  rw [decimal?, beginsWell_ofNat, pointWell_of_digits hdigits,
    Decimal.parse?_of_digits hne hdigits, Bytes.ofDigits_ofNat]
  rfl

/-- What follows a number does not go on with it. -/
def EndsNumber (rest : Bytes) : Prop := ∀ b ∈ rest.head?, isNumberByte b = false

theorem isSpace_of_isNumberByte {b : UInt8} (h : isNumberByte b = true) : isSpace b = false := by
  cases hs : isSpace b with
  | false => rfl
  | true =>
    have hb : b = 0x20 ∨ b = 0x0A ∨ b = 0x09 ∨ b = 0x0D := by simpa [isSpace, or_assoc] using hs
    rcases hb with rfl | rfl | rfl | rfl <;> cases h

/-- A run of number bytes is read as it stands. -/
theorem numberRun_append {run rest : Bytes} (hne : run ≠ [])
    (hrun : ∀ b ∈ run, isNumberByte b = true) (hrest : EndsNumber rest) :
    numberRun (run ++ rest) = (run, rest) := by
  have hspaces : skipSpaces (run ++ rest) = run ++ rest := by
    cases run with
    | nil => exact absurd rfl hne
    | cons b run =>
      have hb := isSpace_of_isNumberByte (hrun b List.mem_cons_self)
      exact skipSpaces_cons hb (run ++ rest)
  have hstop : rest.takeWhile isNumberByte = [] ∧ rest.dropWhile isNumberByte = rest := by
    cases rest with
    | nil => exact ⟨rfl, rfl⟩
    | cons b rest =>
      have hb : isNumberByte b = false := hrest b rfl
      simp [hb]
  rw [numberRun, hspaces, List.span_eq_takeWhile_dropWhile, List.takeWhile_append_of_pos hrun,
    List.dropWhile_append_of_pos hrun, hstop.1, hstop.2, List.append_nil]

theorem after?_minus_ofNat (n : Nat) : Bytes.after? (ascii "-") (Bytes.ofNat n) = none := by
  obtain ⟨b, rest, hs, hb⟩ := Bytes.ofNat_eq_cons n
  have hne : b ≠ octet '-' := Decimal.ne_of_isDigit hb rfl
  simp [hs, ascii, Bytes.after?, hne]

/-- The text of a small integer denotes the double that equals it. -/
theorem double?_ofInt {x : Double} {n : Int} (h : x.integer? = some n) (hlt : n.natAbs < 2 ^ 52)
    (hzero : x.isNegative = true → n ≠ 0) : double? (Bytes.ofInt n) = some x := by
  have hsign := Double.isNegative_iff_of_integer? h hzero
  have hsize := Double.ofDecimal?_of_integer? h hlt
  have hhigh := x.bits.toNat_lt
  rw [Double.isNegative_iff] at hsign
  cases n with
  | ofNat n =>
    -- a natural number has no sign, and its double has no sign bit
    have hpos : x.bits.toNat < 2 ^ 63 :=
      Nat.not_le.1 fun hneg => Int.not_lt.2 (Int.natCast_nonneg n) (hsign.1 hneg)
    rw [Int.natAbs_ofNat', Nat.mod_eq_of_lt hpos, UInt64.ofNat_toNat] at hsize
    simp only [Bytes.ofInt, double?, after?_minus_ofNat, decimal?_ofNat, Option.bind_some, hsize]
  | negSucc n =>
    -- the minus sign is read by itself, and sets the sign bit
    have hneg := hsign.2 (Int.negSucc_lt_zero n)
    have hmod : x.bits.toNat % 2 ^ 63 = x.bits.toNat - 2 ^ 63 := by omega
    have hafter : Bytes.after? (ascii "-") (octet '-' :: Bytes.ofNat (n + 1)) =
        some (Bytes.ofNat (n + 1)) := Bytes.after?_append (ascii "-") _
    have hdecimal : (decimal? (Bytes.ofNat (n + 1))).bind Double.ofDecimal? =
        some ⟨UInt64.ofNat (x.bits.toNat - 2 ^ 63)⟩ := by
      rw [decimal?_ofNat, Option.bind_some, ← hmod]
      exact hsize
    simp only [Bytes.ofInt, double?, hafter, hdecimal, Option.map_some,
      Double.neg_of_bits_sub hneg]

/-! ## Arrays and objects -/

section

variable {σ : Type}

/-- The loop reads strings with commas between them, one in each round. By induction on the strings
behind the first. -/
theorem itemsFrom_quoted {item : σ → Bytes → Read σ} {step : σ → Bytes → σ}
    (hitem : ∀ acc token rest, item acc (quoted token ++ rest) = .ok (step acc token, rest))
    (first : Bytes) (tokens : List Bytes) (rounds : Bytes) (hrounds : tokens.length ≤ rounds.length)
    (acc : σ) (rest : Bytes) :
    itemsFrom item rounds acc
        (Bytes.join (ascii ",") ((first :: tokens).map quoted) ++ octet ']' :: rest) =
      .ok ((first :: tokens).foldl step acc, rest) := by
  induction tokens generalizing first rounds acc with
  | nil =>
    rw [itemsFrom.eq_def]
    simp only [List.map_cons, List.map_nil, Bytes.join_singleton, hitem]
    rfl
  | cons second tokens ih =>
    cases rounds with
    | nil => simp at hrounds
    | cons round rounds =>
      rw [itemsFrom.eq_def]
      simp only [List.map_cons, Bytes.join_cons_cons, List.append_assoc, hitem]
      exact ih second rounds (by simpa using hrounds) (step acc first)

theorem arrayOf_append (texts : List Bytes) (rest : Bytes) :
    arrayOf texts ++ rest =
      octet '[' :: (Bytes.join (ascii ",") texts ++ octet ']' :: rest) := by
  simp [arrayOf]

/-- An array of strings is read item by item. -/
theorem items_quoted {item : σ → Bytes → Read σ} {step : σ → Bytes → σ}
    (hitem : ∀ acc token rest, item acc (quoted token ++ rest) = .ok (step acc token, rest))
    (tokens : List Bytes) (acc : σ) (rest : Bytes) :
    items item acc (Bytes.join (ascii ",") (tokens.map quoted) ++ octet ']' :: rest) =
      .ok (tokens.foldl step acc, rest) := by
  cases tokens with
  | nil => rfl
  | cons first tokens =>
    have hrounds := Bytes.length_le_length_join (ascii ",") (by decide)
      ((first :: tokens).map quoted)
    have hloop := fun rounds hrounds =>
      itemsFrom_quoted hitem first tokens rounds hrounds acc rest
    obtain ⟨s, hs⟩ := Bytes.join_cons_eq_append (ascii ",") (quoted first) (tokens.map quoted)
    rw [List.map_cons, hs, List.append_assoc, quoted_append] at hloop ⊢
    rw [items, skipSpaces_cons rfl]
    -- every item but the first has a comma in front of it, so there are rounds enough
    apply hloop
    rw [List.map_cons, hs] at hrounds
    simp [quoted] at hrounds ⊢
    omega

theorem endsNumber_brace {rest : Bytes} : EndsNumber (octet '}' :: rest) := by
  rintro b ⟨⟩
  rfl

theorem endsNumber_comma {rest : Bytes} : EndsNumber (octet ',' :: rest) := by
  rintro b ⟨⟩
  rfl

variable {member : σ → Bytes → Bytes → Read σ}

/-- The last member of an object, with the brace behind it. -/
theorem membersFrom_close {acc acc' : σ} {key text rest : Bytes}
    (h : member acc key (text ++ octet '}' :: rest) = .ok (acc', octet '}' :: rest))
    (rounds : Bytes) :
    membersFrom member rounds acc (quoted key ++ octet ':' :: (text ++ octet '}' :: rest)) =
      .ok (acc', rest) := by
  rw [membersFrom.eq_def]
  simp only [string_quoted, expect, skipSpaces_cons (b := octet ':') rfl, beq_self_eq_true,
    if_true, h]
  rfl

/-- A member with a comma behind it; the loop goes on behind the comma. -/
theorem membersFrom_comma {acc acc' : σ} {key text rest : Bytes}
    (h : member acc key (text ++ octet ',' :: rest) = .ok (acc', octet ',' :: rest))
    (round : UInt8) (rounds : Bytes) :
    membersFrom member (round :: rounds) acc
        (quoted key ++ octet ':' :: (text ++ octet ',' :: rest)) =
      membersFrom member rounds acc' rest := by
  rw [membersFrom.eq_def]
  simp only [string_quoted, expect, skipSpaces_cons (b := octet ':') rfl, beq_self_eq_true,
    if_true, h]
  rfl

variable {α : Type} {key text : α → Bytes} {step : σ → α → σ}

/-- The loop reads members with commas between them, one in each round. By induction on the members
behind the first. -/
theorem membersFrom_join (first : α) (others : List α)
    (hmember : ∀ a ∈ first :: others, ∀ acc rest, EndsNumber rest →
      member acc (key a) (text a ++ rest) = .ok (step acc a, rest))
    (rounds : Bytes) (hrounds : others.length ≤ rounds.length) (acc : σ) (rest : Bytes) :
    membersFrom member rounds acc
        (Bytes.join (ascii ",")
          ((first :: others).map fun a => quoted (key a) ++ octet ':' :: text a) ++
            octet '}' :: rest) =
      .ok ((first :: others).foldl step acc, rest) := by
  induction others generalizing first rounds acc with
  | nil =>
    have hfirst := hmember first List.mem_cons_self acc (octet '}' :: rest) endsNumber_brace
    simpa using membersFrom_close hfirst rounds
  | cons second others ih =>
    cases rounds with
    | nil => simp at hrounds
    | cons round rounds =>
      -- the comma ends a number, so the first member is read back
      have hfirst := fun tail =>
        hmember first List.mem_cons_self acc (octet ',' :: tail) endsNumber_comma
      have hothers := ih second (fun a ha => hmember a (List.mem_cons_of_mem first ha)) rounds
        (by simpa using hrounds) (step acc first)
      rw [List.foldl_cons, ← hothers, List.map_cons, List.map_cons, Bytes.join_cons_cons]
      simpa [ascii] using membersFrom_comma (hfirst _) round rounds

theorem objectOf_append (as : List α) (rest : Bytes) :
    objectOf (as.map fun a => (key a, text a)) ++ rest =
      octet '{' ::
        (Bytes.join (ascii ",") (as.map fun a => quoted (key a) ++ octet ':' :: text a) ++
          octet '}' :: rest) := by
  simp [objectOf, Function.comp_def]

/-- An object is read member by member. -/
theorem members_join {as : List α}
    (hmember : ∀ a ∈ as, ∀ acc rest, EndsNumber rest →
      member acc (key a) (text a ++ rest) = .ok (step acc a, rest)) (acc : σ) (rest : Bytes) :
    members member acc
        (Bytes.join (ascii ",") (as.map fun a => quoted (key a) ++ octet ':' :: text a) ++
          octet '}' :: rest) =
      .ok (as.foldl step acc, rest) := by
  cases as with
  | nil => rfl
  | cons first others =>
    have hrounds := Bytes.length_le_length_join (ascii ",") (by decide)
      ((first :: others).map fun a => quoted (key a) ++ octet ':' :: text a)
    have hloop :=
      fun rounds hrounds => membersFrom_join first others hmember rounds hrounds acc rest
    obtain ⟨s, hs⟩ := Bytes.join_cons_eq_append (ascii ",")
      (quoted (key first) ++ octet ':' :: text first)
      (others.map fun a => quoted (key a) ++ octet ':' :: text a)
    rw [List.map_cons, hs, List.append_assoc, List.append_assoc, quoted_append] at hloop ⊢
    rw [members, skipSpaces_cons rfl]
    -- as for arrays
    apply hloop
    rw [List.map_cons, hs] at hrounds
    simp [quoted] at hrounds ⊢
    omega

end

end DocTree.Json
