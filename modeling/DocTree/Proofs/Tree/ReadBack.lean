import DocTree.Proofs.Json.ReadBack
import DocTree.Proofs.Tree.Properties
import DocTree.Tree.Decode

/-!
# Properties from their own text

Properties with distinct names are read back from the object that they are written as, in their
order (`Decode.properties_written`). What is lost is what the text does not hold: the names that
style declarations had in a style sheet. Values that the text does not determine are left out:
numbers that are not small integers, negative zero, and declarations that are marked as numbers and
are none.
-/

namespace DocTree

/-! ## Values that can be read back -/

/-- A text that begins as a number does and holds only bytes that numbers have. -/
structure NumberText (s : Bytes) : Prop where
  begins : ∃ b rest, s = b :: rest ∧ (Decimal.isDigit b = true ∨ b = octet '-')
  bytes : ∀ b ∈ s, Json.isNumberByte b = true

/-- A declaration whose text determines it, its name apart. -/
def Style.Declaration.Readable (d : Style.Declaration) : Prop :=
  d.numeric = true → NumberText d.value

namespace Value

/-- A value whose text determines it, the names of style declarations apart. -/
inductive Readable : Value → Prop where
  | string (s : Bytes) : Readable (.string s)
  | bool (b : Bool) : Readable (.bool b)
  | list (tokens : List Bytes) : Readable (.list tokens)
  /-- An integer below 10¹⁵ other than negative zero. -/
  | integer {x : Double} {n : Int} (integer : x.integer? = some n) (small : n.natAbs < 10 ^ 15)
      (nonzero : x.isNegative = true → n ≠ 0) : Readable (.number x)
  | style {decls : List Style.Declaration} (readable : ∀ d ∈ decls, d.Readable) :
      Readable (.style decls)

/-- The value without the names of its declarations. -/
def unnamed : Value → Value
  | .style decls => .style (decls.map fun d => { d with name := [] })
  | v => v

end Value

/-- The properties without the names of style declarations. -/
def Properties.unnamed (props : Properties) : Properties :=
  props.map fun p => ⟨p.name, p.value.unnamed⟩

/-- The names of properties are left as they are. -/
theorem Properties.Distinct.unnamed {props : Properties} (h : props.Distinct) :
    props.unnamed.Distinct := by
  have hnames : props.unnamed.names = props.names := by simp [Properties.unnamed, names]
  rw [Distinct, hnames]
  exact h

/-! ## Numbers -/

namespace NumberText

variable {s rest : Bytes}

theorem nextKind_append (h : NumberText s) : Json.nextKind (s ++ rest) = .number := by
  obtain ⟨⟨b, tail, rfl, hb⟩, hbytes⟩ := h
  have hspace := Json.isSpace_of_isNumberByte (hbytes b List.mem_cons_self)
  rw [List.cons_append, Json.nextKind_cons hspace]
  rcases hb with hdigit | rfl
  · have hquote : b ≠ octet '"' := Decimal.ne_of_isDigit hdigit rfl
    simp [Json.Kind.ofByte, hquote, hdigit]
  · rfl

/-- A number is read up to its end. -/
theorem numberRun_append (h : NumberText s) (hrest : Json.EndsNumber rest) :
    Json.numberRun (s ++ rest) = (s, rest) := by
  obtain ⟨b, tail, hs, -⟩ := h.begins
  exact Json.numberRun_append (by simp [hs]) h.bytes hrest

theorem ofNat (n : Nat) : NumberText (Bytes.ofNat n) := by
  obtain ⟨b, rest, hs, hb⟩ := Bytes.ofNat_eq_cons n
  refine ⟨⟨b, rest, hs, Or.inl hb⟩, fun c hc => ?_⟩
  simp [Json.isNumberByte, Bytes.isDigit_of_mem_ofNat hc]

theorem ofInt (n : Int) : NumberText (Bytes.ofInt n) := by
  cases n with
  | ofNat n => exact ofNat n
  | negSucc n =>
    refine ⟨⟨octet '-', Bytes.ofNat (n + 1), rfl, Or.inr rfl⟩, fun b hb => ?_⟩
    rcases List.mem_cons.1 hb with rfl | hb
    · rfl
    · exact (ofNat (n + 1)).bytes b hb

end NumberText

/-- A small integer is written as its digits. -/
theorem Json.number_eq_ofInt {x : Double} {n : Int} (h : x.integer? = some n)
    (hlt : n.natAbs < 10 ^ 15) : Json.number x = Bytes.ofInt n := by
  have hfinite : x.isFinite = true := Double.isFinite_of_integer? h (by omega)
  simp only [Json.number, hfinite, h]
  exact if_pos hlt

namespace Decode

variable {rest : Bytes}

/-! ## Values -/

theorem token_quoted (room : Nat) (acc : List Bytes) (t rest : Bytes) :
    token room acc (Json.quoted t ++ rest) = .ok (t :: acc, rest) := by
  rw [token, Json.nextKind_quoted]
  simp [Json.string_quoted, Except.map]

/-- A declaration is read back from its value, which is a string or a number. -/
theorem declaration_written {d : Style.Declaration} (h : d.Readable) (room : Nat)
    (acc : List Style.Declaration) (hrest : Json.EndsNumber rest) :
    declaration room acc d.key (Json.declarationValue d ++ rest) =
      .ok ({ d with name := [] } :: acc, rest) := by
  obtain ⟨name, key, value, numeric⟩ := d
  -- a string is quoted, a number stands as it is
  cases numeric with
  | false =>
    have hvalue : Json.declarationValue ⟨name, key, value, false⟩ = Json.quoted value := rfl
    rw [hvalue, declaration, Json.nextKind_quoted]
    simp [Json.string_quoted, Except.map]
  | true =>
    have hvalue : Json.declarationValue ⟨name, key, value, true⟩ = value := rfl
    have hnumber : NumberText value := h rfl
    rw [hvalue, declaration, hnumber.nextKind_append]
    simp [hnumber.numberRun_append hrest]

/-- A value is read back from its text, the names of its declarations apart. -/
theorem value_written {v : Value} (h : v.Readable) (room : Nat) (hrest : Json.EndsNumber rest) :
    value (room + 1) (Json.value v ++ rest) = .ok (some v.unnamed, rest) := by
  cases h with
  | string s =>
    rw [Json.value, value, Json.nextKind_quoted]
    simp [Json.string_quoted, Except.map, Value.unnamed]
  | bool b => cases b <;> rfl
  | list tokens =>
    -- tokens are collected with the last one first
    have hitems := Json.items_quoted (token_quoted room) tokens [] rest
    rw [List.foldl_flip_cons_eq_append, List.map_id', List.append_nil] at hitems
    rw [Json.value, Json.arrayOf_append, value, Json.nextKind_bracket]
    simp [Json.skipSpaces_cons (b := octet '[') rfl, hitems, Except.map, Value.unnamed]
  | integer hint hsmall hzero =>
    rw [Json.value, Json.number_eq_ofInt hint hsmall, value, (NumberText.ofInt _).nextKind_append]
    simp [Json.double, (NumberText.ofInt _).numberRun_append hrest,
      Json.double?_ofInt hint (by omega) hzero, Except.map, Value.unnamed]
  | @style decls hdecls =>
    -- and so are declarations
    have hmembers := Json.members_join
      (fun d hd acc _ hrest => declaration_written (hdecls d hd) room acc hrest) [] rest
    rw [List.foldl_flip_cons_eq_append, List.append_nil] at hmembers
    rw [Json.value, Json.objectOf_append, value, Json.nextKind_brace]
    simp [Json.skipSpaces_cons (b := octet '{') rfl, hmembers, Except.map, Value.unnamed]

/-- A property is read back into the list in front of it. -/
theorem property_written {p : Property} (h : p.value.Readable) (room : Nat) (acc : Properties)
    (hrest : Json.EndsNumber rest) :
    property (room + 1) acc p.name (Json.value p.value ++ rest) =
      .ok (acc.set p.name p.value.unnamed, rest) := by
  rw [property, value_written h room hrest]
  rfl

/-! ## Properties -/

/-- The members of a property object are set one after another. -/
theorem members_written {props : Properties} (hvalues : ∀ p ∈ props, p.value.Readable) (room : Nat)
    (rest : Bytes) :
    Json.members (property (room + 1)) []
        (Bytes.join (ascii ",")
          (props.map fun p => Json.quoted p.name ++ octet ':' :: Json.value p.value) ++
            octet '}' :: rest) =
      .ok (Properties.setAll [] props.unnamed, rest) := by
  rw [Properties.setAll_eq_foldl, Properties.unnamed, List.foldl_map]
  exact Json.members_join
    (fun p hp acc _ hrest => property_written (hvalues p hp) room acc hrest) [] rest

/-- **Properties are read back from their text**, in their order and with nothing lost but the names
of style declarations. Whatever follows the text is left as it stands. -/
theorem properties_written {props : Properties} (hdistinct : props.Distinct)
    (hvalues : ∀ p ∈ props, p.value.Readable) (room : Nat) (rest : Bytes) :
    properties (room + 2) (Json.properties props ++ rest) = .ok (props.unnamed, rest) := by
  rw [Json.properties, Json.objectOf_append, properties, Json.nextKind_brace]
  simp only [Json.skipSpaces_cons (b := octet '{') rfl, List.drop_one, List.tail_cons]
  rw [members_written hvalues, Properties.setAll_nil_of_distinct hdistinct.unnamed]

/-- A name with a quote, bytes that are not UTF-8, minus 42, and a style. -/
theorem properties_written_mixed :
    properties 2
        (Json.properties
          [⟨ascii "a\"b", .list [[255, 10], ascii "\\"]⟩, ⟨[], .number ⟨0xC045000000000000⟩⟩,
            ⟨ascii "style", .style [⟨ascii "z-index", ascii "zIndex", ascii "-1e3", true⟩]⟩] ++
          ascii "]") =
      .ok
        ([⟨ascii "a\"b", .list [[255, 10], ascii "\\"]⟩, ⟨[], .number ⟨0xC045000000000000⟩⟩,
          ⟨ascii "style", .style [⟨[], ascii "zIndex", ascii "-1e3", true⟩]⟩], ascii "]") := by
  have hinteger : Double.integer? ⟨0xC045000000000000⟩ = some (-42) := by decide +kernel
  have hnumber : NumberText (ascii "-1e3") :=
    ⟨⟨octet '-', ascii "1e3", rfl, Or.inr rfl⟩, by decide +kernel⟩
  refine properties_written (by decide) (fun p hp => ?_) 0 (ascii "]")
  simp only [List.mem_cons, List.not_mem_nil, or_false] at hp
  rcases hp with rfl | rfl | rfl
  · exact .list _
  · exact .integer hinteger (by decide) (by decide)
  · refine .style fun d hd _ => ?_
    obtain rfl := List.mem_singleton.1 hd
    exact hnumber

end Decode

end DocTree
