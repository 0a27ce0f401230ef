import DocTree.Json.Write
import DocTree.Proofs.Json.Grammar
import DocTree.Proofs.Tree.ReadBack

/-!
# Is the written text well-formed?

All that is written as JSON follows the grammar, with one exception: the value of a style
declaration that is marked as a number is written as it stands. So the text of properties is
well-formed exactly if these values are number literals (`isObject_properties_iff`).
-/

namespace DocTree

/-! ## Numbers -/

namespace Json

theorem isDigits_ofNat (n : Nat) : IsDigits (Bytes.ofNat n) := by
  obtain ⟨b, rest, hs, -⟩ := Bytes.ofNat_eq_cons n
  exact ⟨by simp [hs], fun b hb => Bytes.isDigit_of_mem_ofNat hb⟩

theorem isWhole_ofNat (n : Nat) : IsWhole (Bytes.ofNat n) :=
  ⟨isDigits_ofNat n, fun _ => Bytes.eq_nil_of_ofNat_eq_zero_cons⟩

theorem isWhole_zero : IsWhole [octet '0'] := isWhole_ofNat 0

/-- The first digits of a number have no leading zero either. -/
theorem IsWhole.take {s : Bytes} (h : IsWhole s) {k : Nat} (hk : 0 < k) : IsWhole (s.take k) := by
  refine ⟨⟨?_, fun b hb => h.digits.2 b (List.mem_of_mem_take hb)⟩, fun rest hrest => ?_⟩
  · simp [h.digits.1, Nat.ne_of_gt hk]
  · -- a zero in front is in front of the whole, too
    obtain ⟨j, rfl⟩ := Nat.exists_eq_succ_of_ne_zero (Nat.ne_of_gt hk)
    cases s with
    | nil => simp at hrest
    | cons b s =>
      obtain ⟨rfl, rfl⟩ := List.cons.inj hrest
      simp [h.leading s rfl]

theorem isDigits_drop {s : Bytes} (h : IsDigits s) {k : Nat} (hk : k < s.length) :
    IsDigits (s.drop k) :=
  ⟨by simpa using hk, fun b hb => h.2 b (List.mem_of_mem_drop hb)⟩

theorem isDigits_append_zeros {s : Bytes} (h : IsDigits s) (n : Nat) :
    IsDigits (s ++ Decimal.zeros n) := by
  refine ⟨by simp [h.1], fun b hb => ?_⟩
  rcases List.mem_append.1 hb with hb | hb
  · exact h.2 b hb
  · rw [List.eq_of_mem_replicate hb]
    rfl

theorem isDigits_zeros_append {s : Bytes} (h : IsDigits s) (n : Nat) :
    IsDigits (Decimal.zeros n ++ s) := by
  refine ⟨by simp [h.1], fun b hb => ?_⟩
  rcases List.mem_append.1 hb with hb | hb
  · rw [List.eq_of_mem_replicate hb]
    rfl
  · exact h.2 b hb

/-- A sign, an integer, a fraction and an exponent make a number literal. -/
theorem isNumber_signed {whole fraction exponent : Bytes} (negative : Bool)
    (hwhole : IsWhole whole) (hfraction : IsFraction fraction) (hexponent : IsExponent exponent) :
    IsNumber (Decimal.signed negative (whole ++ (fraction ++ exponent))) := by
  cases negative with
  | false => exact .parts (Or.inl rfl) hwhole hfraction hexponent
  | true => exact .parts (Or.inr rfl) hwhole hfraction hexponent

theorem IsWhole.isNumber_signed {whole : Bytes} (h : IsWhole whole) (negative : Bool) :
    IsNumber (Decimal.signed negative whole) := by
  simpa using Json.isNumber_signed negative h .none .none

theorem isNumber_ofInt (n : Int) : IsNumber (Bytes.ofInt n) := by
  cases n with
  | ofNat n => exact (isWhole_ofNat n).isNumber_signed false
  | negSucc n => exact (isWhole_ofNat (n + 1)).isNumber_signed true

end Json

namespace Decimal

open Json

/-- A coefficient with zeros behind it does not begin with a zero, unless it is zero. -/
theorem isWhole_append_zeros {c n : Nat} (h : c = 0 → n = 0) :
    IsWhole (Bytes.ofNat c ++ zeros n) := by
  refine ⟨isDigits_append_zeros (isDigits_ofNat c) n, fun rest hrest => ?_⟩
  obtain ⟨b, digits, hdigits, -⟩ := Bytes.ofNat_eq_cons c
  rw [hdigits, List.cons_append] at hrest
  -- a leading zero is one of the coefficient, and so all of it
  obtain ⟨rfl, rfl⟩ := List.cons.inj hrest
  obtain rfl := Bytes.eq_nil_of_ofNat_eq_zero_cons hdigits
  have hzero : c = 0 := by
    rw [← Bytes.ofDigits_ofNat c, hdigits]
    rfl
  simp [h hzero, zeros]

/-- Positional notation, but for a zero with zeros behind it. -/
theorem isNumber_plain {d : Decimal} (h : d.coefficient = 0 → d.exponent = 0) :
    IsNumber d.plain := by
  have hdigits := isDigits_ofNat d.coefficient
  rw [plain]
  simp only
  split
  · -- zeros behind the digits
    have hzeros : d.coefficient = 0 → d.exponent.toNat = 0 := fun hzero => by simp [h hzero]
    exact (isWhole_append_zeros hzeros).isNumber_signed d.negative
  · split
    · next hplaces =>
      -- a point among the digits
      have hwhole := (isWhole_ofNat d.coefficient).take (Nat.sub_pos_of_lt hplaces)
      have hfraction := isDigits_drop hdigits
        (k := (Bytes.ofNat d.coefficient).length - (-d.exponent).toNat) (by omega)
      simpa using isNumber_signed d.negative hwhole (.point hfraction) .none
    · -- zeros in front of them
      have hfraction := isDigits_zeros_append hdigits
        ((-d.exponent).toNat - (Bytes.ofNat d.coefficient).length)
      simpa [ascii] using isNumber_signed d.negative isWhole_zero (.point hfraction) .none

/-- The digits behind the first one, with a point in front of them if there are any. -/
theorem isFraction_tail {s : Bytes} (h : IsDigits s) :
    IsFraction ((if s.length = 1 then [] else [octet '.']) ++ s.drop 1) := by
  split
  · next hone =>
    rw [List.nil_append, List.drop_eq_nil_of_le (Nat.le_of_eq hone)]
    exact .none
  · next hmore =>
    have hpos := List.length_pos_iff.2 h.1
    exact .point (isDigits_drop h (by omega))

theorem isNumber_scientific (d : Decimal) : IsNumber d.scientific := by
  have hdigits := isDigits_ofNat d.coefficient
  have hwhole := (isWhole_ofNat d.coefficient).take Nat.one_pos
  rw [scientific]
  generalize hsize : d.exponent + ((Bytes.ofNat d.coefficient).length : Int) - 1 = e
  -- a sign always stands in front of the exponent
  have hexponent : IsExponent (octet 'e' :: ([if e < 0 then octet '-' else octet '+'] ++
      (zeros (2 - (Bytes.ofNat e.natAbs).length) ++ Bytes.ofNat e.natAbs))) := by
    refine .mark (Or.inl rfl) ?_ (isDigits_zeros_append (isDigits_ofNat e.natAbs) _)
    split
    · exact Or.inr (Or.inr rfl)
    · exact Or.inr (Or.inl rfl)
  simpa using isNumber_signed d.negative hwhole (isFraction_tail hdigits) hexponent

end Decimal

namespace Double

/-- Zero is not between the ends of the interval of a double other than zero. -/
theorem contains_zero {x : Double} (h : x.significand ≠ 0) (e : Int) :
    x.interval.contains 0 e = false := by
  have hlow : 0 < x.interval.low := by
    simp only [interval]
    split <;> omega
  have hunit : 0 < x.interval.unit.1 := by
    simp only [interval]
    split
    · exact Nat.pow_pos (by decide)
    · exact Nat.one_pos
  -- the lower end is above zero, and scaling keeps it there
  have hscale :
      0 < if 0 ≤ e then x.interval.unit.1 else x.interval.unit.1 * Nat.pow 10 (-e).toNat := by
    split
    · exact hunit
    · exact Nat.mul_pos hunit (Nat.pow_pos (by decide))
  rw [Interval.contains]
  simp only [Nat.zero_mul, ite_self]
  generalize (if 0 ≤ e then _ else _) = scale at hscale ⊢
  have hne : x.interval.low * scale ≠ 0 := Nat.ne_of_gt (Nat.mul_pos hlow hscale)
  split <;> simp [hne]

/-- What a grid gives for a double other than zero is not zero. -/
theorem onGrid?_ne_zero {x : Double} (h : x.significand ≠ 0) {e : Int} {c : Nat}
    (hc : x.interval.onGrid? e = some c) : c ≠ 0 := by
  simp only [Interval.onGrid?] at hc
  split at hc
  · next hin =>
    split at hc
    · simp [← Option.some.inj hc]
    · -- the lower neighbour is taken only if it is in the interval
      obtain rfl := Option.some.inj hc
      intro hzero
      rw [hzero, contains_zero h] at hin
      cases hin
  · split at hc
    · simp [← Option.some.inj hc]
    · cases hc

/-- Dropping zeros at the end does not make a number zero. -/
theorem dropZeros_ne_zero {fuel c : Nat} (h : c ≠ 0) (e : Int) : (dropZeros fuel c e).1 ≠ 0 := by
  induction fuel generalizing c e with
  | zero => exact h
  | succ fuel ih =>
    rw [dropZeros]
    split
    · exact ih (by omega) _
    · exact h

/-- The grids give a coefficient other than zero, or nothing at all. -/
theorem searchGrids_eq_zero {x : Double} (h : x.significand ≠ 0) {point : Int} {fuel digits : Nat}
    (hzero : (searchGrids x.interval point fuel digits).1 = 0) :
    (searchGrids x.interval point fuel digits).2 = 0 := by
  induction fuel generalizing digits with
  | zero => rfl
  | succ fuel ih =>
    rw [searchGrids] at hzero ⊢
    split at hzero
    · next c hc => exact absurd hzero (dropZeros_ne_zero (onGrid?_ne_zero h hc) _)
    · next hc => exact ih hzero

/-- The shortest decimal of a double is zero only with no power of ten. -/
theorem shortest_exponent {x : Double} (h : x.shortest.coefficient = 0) :
    x.shortest.exponent = 0 := by
  rw [shortest] at h ⊢
  split at h
  · next hzero => simp [hzero]
  · next hne =>
    rw [if_neg hne]
    exact searchGrids_eq_zero hne h

end Double

/-! ## Texts of the writer -/

namespace Json

/-- Every double is written as a value: those that are no number as a name. -/
theorem isValue_number (x : Double) : IsValue (number x) := by
  have hfloating : IsValue (number.floating x.shortest) := by
    rw [number.floating]
    split
    · exact .number (Decimal.isNumber_scientific _)
    · exact .number (Decimal.isNumber_plain Double.shortest_exponent)
  rw [number]
  split
  · exact .name (Or.inr (Or.inr rfl))
  · split
    · next n _ =>
      split
      · exact .number (isNumber_ofInt n)
      · exact hfloating
    · exact hfloating

/-- Each byte is written as a byte or an escape of the grammar. One case for each branch of the
writer. -/
theorem isStringBody_escape (b : UInt8) {s : Bytes} (h : IsStringBody s) :
    IsStringBody ((escape? b).getD [b] ++ s) := by
  fun_cases escape? b with
  | case1 hb =>
    have hb : b = octet '"' ∨ b = octet '\\' := by simpa using hb
    rcases hb with rfl | rfl
    · exact .escape (by decide) h
    · exact .escape (by decide) h
  | case2 => exact .escape (b := octet 'n') (by decide) h
  | case3 => exact .escape (b := octet 'r') (by decide) h
  | case4 => exact .escape (b := octet 't') (by decide) h
  | case5 _ _ _ _ hb =>
    have hlt : b.toNat < 32 := UInt8.lt_iff_toNat_lt.1 hb
    have hhigh := hexDigit?_hexDigit (b.toNat / 16) (by omega)
    have hlow := hexDigit?_hexDigit (b.toNat % 16) (by omega)
    -- four hexadecimal digits, of which the first two are zeros
    have hdigits :
        ∀ c ∈ ascii "00" ++ [Bytes.hexDigit (b.toNat / 16), Bytes.hexDigit (b.toNat % 16)],
          (Bytes.hexDigit? c).isSome = true := by
      intro c hc
      simp only [List.mem_append, List.mem_cons, List.not_mem_nil, or_false] at hc
      rcases hc with hc | rfl | rfl
      · revert c
        decide +kernel
      · simp [hhigh]
      · simp [hlow]
    exact .unit rfl hdigits h
  | case6 hquote _ _ _ hb =>
    have hne : b ≠ octet '"' ∧ b ≠ octet '\\' := by simpa using hquote
    exact .plain (UInt8.not_lt.1 hb) hne.1 hne.2 h

theorem isString_quoted (s : Bytes) : IsString (quoted s) := by
  refine .quotes ?_
  induction s with
  | nil => exact .nil
  | cons b s ih => exact isStringBody_escape b ih

theorem isKey_quoted (s : Bytes) : IsKey (quoted s) := by
  simpa using IsKey.spaced Blank.nil (isString_quoted s) Blank.nil

/-- Values with commas and brackets around them are a value. -/
theorem isValue_arrayOf {items : List Bytes} (h : ∀ s ∈ items, IsValue s) :
    IsValue (arrayOf items) := by
  cases items with
  | nil => exact .emptyArray Blank.nil
  | cons s items => exact .array (List.cons_ne_nil s items) h

section Members

variable {α : Type} {as : List α} {key text : α → Bytes}

theorem objectOf_map (as : List α) (key text : α → Bytes) :
    objectOf (as.map fun a => (key a, text a)) =
      octet '{' ::
        (Bytes.join (ascii ",") (as.map fun a => quoted (key a) ++ octet ':' :: text a) ++
          [octet '}']) := by
  rw [objectOf, List.map_map]
  rfl

/-- Members with well-formed values are written as an object. -/
theorem isValue_objectOf (h : ∀ a ∈ as, IsValue (text a)) :
    IsValue (objectOf (as.map fun a => (key a, text a))) := by
  cases as with
  | nil => exact .emptyObject Blank.nil
  | cons a as =>
    have hkeys : ∀ m ∈ (a :: as).map fun a => (quoted (key a), text a), IsKey m.1 := by
      simpa using ⟨isKey_quoted (key a), fun b _ => isKey_quoted (key b)⟩
    have hvalues : ∀ m ∈ (a :: as).map fun a => (quoted (key a), text a), IsValue m.2 := by
      simpa using h
    -- the same members as in the grammar, with quoted keys
    have hobject := IsValue.object (by simp) hkeys hvalues
    rw [List.map_map] at hobject
    rw [objectOf_map]
    exact hobject

/-- The words of an object are those of its values. -/
theorem hasWords_objectOf {wordsOf : α → List Bytes} (h : ∀ a ∈ as, HasWords (text a) (wordsOf a)) :
    HasWords (objectOf (as.map fun a => (key a, text a))) (as.flatMap wordsOf) := by
  rw [objectOf_map]
  exact (HasWords.join fun a ha => (h a ha).member (isKey_quoted (key a))).braces

end Members

end Json

/-! ## Numerals -/

/-- The texts of the declarations of a value that are marked as numbers. -/
def Value.numerals : Value → List Bytes
  | .style decls => (decls.filter (·.numeric)).map (·.value)
  | _ => []

/-- The texts that are marked as numbers in the styles among properties. -/
def Properties.numerals (props : Properties) : List Bytes := props.flatMap (·.value.numerals)

theorem NumberText.hasWords {s : Bytes} (h : NumberText s) : Json.HasWords s [s] := by
  obtain ⟨b, rest, hs, -⟩ := h.begins
  exact .run (by simp [hs]) fun b hb => Json.endsWord_of_isNumberByte (h.bytes b hb)

namespace Json

/-- A value is written as one of the grammar, if its numerals are number literals. One case for each
kind of value. -/
theorem isValue_value {v : Value} (h : ∀ n ∈ v.numerals, IsNumber n) : IsValue (value v) := by
  cases v with
  | string s => exact .string (isString_quoted s)
  | bool b =>
    cases b with
    | false => exact .name (Or.inr (Or.inl rfl))
    | true => exact .name (Or.inl rfl)
  | number x => exact isValue_number x
  | list tokens =>
    refine isValue_arrayOf fun s hs => ?_
    obtain ⟨token, -, rfl⟩ := List.mem_map.1 hs
    exact .string (isString_quoted token)
  | style decls =>
    refine isValue_objectOf fun d hd => ?_
    rw [declarationValue]
    split
    · next hnumeric =>
      exact .number (h d.value (List.mem_map_of_mem (List.mem_filter.2 ⟨hd, hnumeric⟩)))
    · exact .string (isString_quoted d.value)
  | other kind => exact .name (Or.inr (Or.inr rfl))

/-- The words of a style are its numerals. -/
theorem hasWords_style {decls : List Style.Declaration} (h : ∀ d ∈ decls, d.Readable) :
    HasWords (value (.style decls)) (Value.style decls).numerals := by
  have hnumerals : (Value.style decls).numerals =
      decls.flatMap fun d => if d.numeric then [d.value] else [] := by
    rw [Value.numerals]
    clear h
    induction decls with
    | nil => rfl
    | cons d decls ih => cases hd : d.numeric <;> simp [hd, ih]
  rw [hnumerals]
  refine hasWords_objectOf fun d hd => ?_
  rw [declarationValue]
  split
  · next hnumeric => exact (h d hd hnumeric).hasWords
  · exact .string (isString_quoted d.value)

/-- Each numeral is a word of the text. -/
theorem hasWords_value {v : Value} (h : ∀ n ∈ v.numerals, NumberText n) :
    HasWords (value v) (words (value v)) ∧ ∀ n ∈ v.numerals, n ∈ words (value v) := by
  cases v with
  | style decls =>
    have hreadable : ∀ d ∈ decls, d.Readable := fun d hd hnumeric =>
      h d.value (List.mem_map_of_mem (List.mem_filter.2 ⟨hd, hnumeric⟩))
    have hwords := hasWords_style hreadable
    rw [hwords.words_eq]
    exact ⟨hwords, fun n hn => hn⟩
  | string | bool | number | list | other =>
    -- the other values have no numerals and follow the grammar
    exact ⟨(isValue_value (by simp [Value.numerals])).wellWorded.hasWords, by simp [Value.numerals]⟩

/-- A numeral among properties is a word of their text. -/
theorem mem_words_properties {props : Properties} (h : ∀ n ∈ props.numerals, NumberText n)
    {n : Bytes} (hn : n ∈ props.numerals) : n ∈ words (properties props) := by
  have hvalue : ∀ p ∈ props, ∀ n ∈ p.value.numerals, NumberText n :=
    fun p hp n hn => h n (List.mem_flatMap.2 ⟨p, hp, hn⟩)
  have hwords : HasWords (properties props) (props.flatMap fun p => words (value p.value)) :=
    hasWords_objectOf fun p hp => (hasWords_value (hvalue p hp)).1
  obtain ⟨p, hp, hn⟩ := List.mem_flatMap.1 hn
  rw [hwords.words_eq]
  exact List.mem_flatMap.2 ⟨p, hp, (hasWords_value (hvalue p hp)).2 n hn⟩

theorem isObject_properties {props : Properties} (h : ∀ n ∈ props.numerals, IsNumber n) :
    IsObject (properties props) :=
  ⟨isValue_objectOf fun p hp => isValue_value fun n hn => h n (List.mem_flatMap.2 ⟨p, hp, hn⟩), rfl⟩

end Json

/-- Among the words that a value may be, those that begin as a number are numbers. -/
theorem NumberText.isNumber {s : Bytes} (h : NumberText s) (hword : Json.IsWord s) :
    Json.IsNumber s := by
  rcases hword with hnumber | hname
  · exact hnumber
  · obtain ⟨b, rest, rfl, hb⟩ := h.begins
    have hletter : b = octet 't' ∨ b = octet 'f' ∨ b = octet 'n' :=
      hname.imp (fun h => (List.cons.inj h).1)
        (Or.imp (fun h => (List.cons.inj h).1) fun h => (List.cons.inj h).1)
    rcases hletter with rfl | rfl | rfl <;> exact absurd hb (by decide)

/-- The text of properties whose numerals are runs of number bytes is well-formed exactly if the
numerals are number literals. -/
theorem Json.isObject_properties_iff {props : Properties}
    (h : ∀ n ∈ props.numerals, NumberText n) :
    IsObject (properties props) ↔ ∀ n ∈ props.numerals, IsNumber n := by
  refine ⟨fun hobject n hn => ?_, isObject_properties⟩
  exact (h n hn).isNumber (hobject.value.wellWorded.isWord n (mem_words_properties h hn))

end DocTree
