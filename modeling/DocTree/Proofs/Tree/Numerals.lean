import DocTree.Proofs.Json.WellFormed
import DocTree.Proofs.Style.Parse
import DocTree.Proofs.Tree.Decode
import DocTree.Proofs.Tree.Normalize
import DocTree.Tree.Basic

/-!
# Numbers in styles

A number in a style object is read as the run of bytes that stands there, and nothing checks the
run. So the text that decoded properties are written as is well-formed exactly if the runs are
number literals, before and after normalization, which adds no run. Each run is a word of the
document, so the text is well-formed if the document is (`Document.properties_wellFormed_iff`). A
document that is not may be accepted all the same (`Document.properties_malformed_zeros`).
-/

namespace DocTree

open Json (Read Local Lasting EndsWord IsNumber)

/-- A run of number bytes that stands as a word in a text. -/
structure Json.RunIn (text run : Bytes) : Prop where
  number : NumberText run
  word : run ∈ words text

/-- The numerals of a property are runs of a text. -/
def Property.RunsIn (text : Bytes) (p : Property) : Prop :=
  ∀ n ∈ p.value.numerals, Json.RunIn text n

/-! ## Decoding -/

namespace Decode

variable {text : Bytes}

/-- The text ahead holds only words of `text`. -/
def WordsIn (text s : Bytes) : Prop := ∀ w ∈ Json.words s, w ∈ Json.words text

theorem lasting_wordsIn (text : Bytes) : Lasting (WordsIn text) := Json.lasting_words text

/-- A number begins with a digit or a minus. -/
theorem first_of_number {b : UInt8} (h : Json.Kind.ofByte b = .number) :
    Decimal.isDigit b = true ∨ b = octet '-' := by
  unfold Json.Kind.ofByte at h
  split at h
  · cases h
  split at h
  · next hb =>
    rw [Bool.or_eq_true, beq_iff_eq] at hb
    exact hb.symm
  · -- the other kinds
    exfalso
    revert h
    repeat' split
    all_goals exact fun h => by cases h

/-- The run that is read as a number begins as one and has its bytes. -/
theorem numberText_numberRun {s : Bytes} (h : Json.nextKind s = .number) :
    NumberText (Json.numberRun s).1 := by
  have hbytes : ∀ b ∈ (Json.numberRun s).1, Json.isNumberByte b = true := by
    rw [Json.numberRun, List.span_eq_takeWhile_dropWhile]
    exact fun b hb => List.mem_takeWhile_imp hb
  refine ⟨?_, hbytes⟩
  unfold Json.nextKind at h
  split at h
  · cases h
  · next b rest hskip =>
    have hb := first_of_number h
    -- the first byte belongs to the run
    have hnumber : Json.isNumberByte b = true := by
      rcases hb with hdigit | rfl
      · simp [Json.isNumberByte, hdigit]
      · rfl
    rw [Json.numberRun, hskip, List.span_eq_takeWhile_dropWhile, List.takeWhile_cons_of_pos hnumber]
    exact ⟨b, _, rfl, hb⟩

/-- What is read as a number in a style is a word of the text. -/
theorem runIn_numberRun {s : Bytes} (hkind : Json.nextKind s = .number) (hs : WordsIn text s)
    (hrest : EndsWord (Json.numberRun s).2) : Json.RunIn text (Json.numberRun s).1 := by
  have hnumber := numberText_numberRun hkind
  refine ⟨hnumber, (lasting_wordsIn text).skipSpaces hs _ ?_⟩
  -- the run stands in front, and what follows it ends a word
  have hsplit : Json.skipSpaces s = (Json.numberRun s).1 ++ (Json.numberRun s).2 := by
    rw [Json.numberRun, List.span_eq_takeWhile_dropWhile]
    exact (List.takeWhile_append_dropWhile ..).symm
  rw [hsplit, hnumber.hasWords _ hrest]
  exact List.mem_append_left _ (List.mem_singleton.2 rfl)

/-- The values that are marked as numbers are runs of the text. -/
def Numerals (text : Bytes) (decls : List Style.Declaration) : Prop :=
  ∀ d ∈ decls, d.numeric = true → Json.RunIn text d.value

/-- One declaration more. One case per kind of its value. -/
theorem declaration_numerals {room : Nat} {acc acc' : List Style.Declaration} {key s rest : Bytes}
    (hacc : Numerals text acc) (hs : WordsIn text s) (hrest : EndsWord rest)
    (hread : declaration room acc key s = .ok (acc', rest)) : Numerals text acc' := by
  unfold declaration at hread
  split at hread
  · -- a string is not marked as a number
    obtain ⟨_, -, heq⟩ := map_eq_ok_iff.1 hread
    obtain ⟨rfl, -⟩ := Prod.mk.inj heq
    refine List.forall_mem_cons.2 ⟨?_, hacc⟩
    intro hnumeric
    cases hnumeric
  · next hkind =>
    -- a number is taken over as its run
    obtain ⟨rfl, rfl⟩ := Prod.mk.inj (Except.ok.inj hread)
    exact List.forall_mem_cons.2 ⟨fun _ => runIn_numberRun hkind hs hrest, hacc⟩
  · -- anything else is passed over
    obtain ⟨_, -, heq⟩ := map_eq_ok_iff.1 hread
    obtain ⟨rfl, -⟩ := Prod.mk.inj heq
    exact hacc

/-- The numerals of a value are runs of the text. -/
theorem value_numerals {room : Nat} {s rest : Bytes} {v : Value} (hs : WordsIn text s)
    (hread : value room s = .ok (some v, rest)) : ∀ n ∈ v.numerals, Json.RunIn text n := by
  rcases value_eq_ok hread with ⟨hnone, -⟩ | ⟨room, acc, hstyle, hkind, hmembers⟩
    | ⟨w, hw, -, hother⟩
  · cases hnone
  · -- a style has those of its declarations
    obtain rfl := Option.some.inj hstyle
    have hQ := lasting_wordsIn text
    have hacc : Numerals text acc :=
      hQ.members (declaration_local room)
        (fun _ _ _ _ _ hacc hs hrest hread => declaration_numerals hacc hs hrest hread)
        (by simp [Numerals]) (lasting_drop hQ hs (Or.inr hkind)) hmembers
    intro n hn
    obtain ⟨d, hd, rfl⟩ := List.mem_map.1 hn
    obtain ⟨hd, hnumeric⟩ := List.mem_filter.1 hd
    exact hacc d (List.mem_reverse.1 hd) hnumeric
  · -- the other values have no numerals
    obtain rfl := Option.some.inj hw
    cases v with
    | style decls => exact absurd rfl (hother decls)
    | string | bool | number | list | other => simp [Value.numerals]

theorem property_runsIn {room : Nat} {props props' : Properties} {name s rest : Bytes}
    (hprops : ∀ p ∈ props, p.RunsIn text) (hs : WordsIn text s)
    (hread : property room props name s = .ok (props', rest)) : ∀ p ∈ props', p.RunsIn text := by
  obtain ⟨⟨v, rest₁⟩, hvalue, heq⟩ := map_eq_ok_iff.1 hread
  cases v with
  | none =>
    obtain ⟨rfl, -⟩ := Prod.mk.inj heq
    exact hprops
  | some v =>
    obtain ⟨rfl, -⟩ := Prod.mk.inj heq
    exact Properties.forall_mem_set hprops (value_numerals hs hvalue)

/-- The numerals of a property object are runs of the text. -/
theorem properties_runsIn (text : Bytes) :
    PropertiesSatisfy (WordsIn text) fun props => ∀ p ∈ props, p.RunsIn text := by
  intro room s props rest hs _ hread
  have hQ := lasting_wordsIn text
  unfold properties at hread
  split at hread
  · obtain ⟨_, -, heq⟩ := map_eq_ok_iff.1 hread
    obtain ⟨rfl, -⟩ := Prod.mk.inj heq
    simp
  · next hkind =>
    split at hread
    · cases hread
    · next room =>
      exact hQ.members (property_local room)
        (fun _ _ _ _ _ hprops hs _ hread => property_runsIn hprops hs hread) (by simp)
        (lasting_drop hQ hs (Or.inr hkind)) hread
  · cases hread

end Decode

/-- The numerals of a decoded document are runs of its text. -/
theorem runsIn_of_decode {src : Bytes} {d : Document} (h : Document.decode src = .ok d) :
    ∀ n ∈ d.children, n.EveryProps fun props => ∀ p ∈ props, p.RunsIn src :=
  everyProps_of_decode (Decode.lasting_wordsIn src) (Decode.properties_runsIn src) (by simp)
    (fun _ hw => hw) h

/-! ## Normalization -/

namespace Properties

/-- Style text has no numerals when it is parsed. -/
theorem numerals_parse (css : Bytes) : (Value.style (Style.parse css)).numerals = [] := by
  have hnone : (Style.parse css).filter (·.numeric) = [] := by
    rw [List.filter_eq_nil_iff]
    exact fun d hd => by simp [Style.numeric_of_mem_parse hd]
  rw [Value.numerals, hnone, List.map_nil]

/-- Normalization adds no numerals: it makes texts and declarations of texts, and moves the rest. -/
theorem forall_numerals_normalize {N : Bytes → Prop} {props : Properties}
    (h : ∀ p ∈ props, ∀ n ∈ p.value.numerals, N n) :
    ∀ p ∈ props.normalize, ∀ n ∈ p.value.numerals, N n := by
  -- the three steps one after another
  have hstyle : ∀ p ∈ props.parseStyle, ∀ n ∈ p.value.numerals, N n := by
    unfold parseStyle
    split
    · exact forall_mem_set h (by simp [numerals_parse])
    · exact h
  have hrename : ∀ p ∈ props.parseStyle.rename, ∀ n ∈ p.value.numerals, N n :=
    forall_mem_rename (P := fun p => ∀ n ∈ p.value.numerals, N n) (fun _ hp => hp) hstyle
  rw [normalize]
  unfold joinClasses
  split
  · exact forall_mem_set hrename (by simp [Value.numerals])
  · exact hrename

end Properties

/-! ## The text of decoded properties -/

/-- Properties whose numerals are runs of a text are written as an object exactly if the runs are
number literals, and in any case if the text is well-formed. -/
theorem Json.isObject_of_runsIn {text : Bytes} {props : Properties}
    (h : ∀ p ∈ props, p.RunsIn text) :
    (∀ t ∈ props.numerals, NumberText t ∧ t ∈ words text) ∧
      (IsObject (properties props) ↔ ∀ t ∈ props.numerals, IsNumber t) ∧
      (IsValue text → IsObject (properties props)) := by
  have hruns : ∀ t ∈ props.numerals, RunIn text t := by
    intro t ht
    obtain ⟨p, hp, ht⟩ := List.mem_flatMap.1 ht
    exact h p hp t ht
  have hiff := isObject_properties_iff fun t ht => (hruns t ht).number
  refine ⟨fun t ht => ⟨(hruns t ht).number, (hruns t ht).word⟩, hiff, fun htext =>
    hiff.2 fun t ht => ?_⟩
  exact (hruns t ht).number.isNumber (htext.wellWorded.isWord t (hruns t ht).word)

/-- **The text of decoded properties is well-formed exactly if the numbers in styles are.** For
every element of a decoded document, before and after normalization: the texts of the declarations
that are marked as numbers are runs of number bytes that stand as words in the document, the
properties are written as a well-formed object exactly if these runs are number literals, and they
are if the document itself is well-formed. -/
theorem Document.properties_wellFormed_iff {src : Bytes} {d : Document} (h : decode src = .ok d) :
    ∀ n ∈ d.children, n.EveryProps fun props => ∀ q, q = props ∨ q = props.normalize →
      (∀ t ∈ q.numerals, NumberText t ∧ t ∈ Json.words src) ∧
        (Json.IsObject (Json.properties q) ↔ ∀ t ∈ q.numerals, Json.IsNumber t) ∧
        (Json.IsValue src → Json.IsObject (Json.properties q)) := by
  intro n hn k tag props children hocc q hq
  have hruns : ∀ p ∈ props, p.RunsIn src := runsIn_of_decode h n hn k tag props children hocc
  rcases hq with rfl | rfl
  · exact Json.isObject_of_runsIn hruns
  · exact Json.isObject_of_runsIn (Properties.forall_numerals_normalize hruns)

/-- A fraction with an exponent, a negative zero, and an attribute that is renamed. -/
theorem Document.properties_wellFormed_iff_mixed : ∃ d tag props children,
    decode
        (ascii ("\x7b\"type\":\"root\",\"children\":[\x7b\"type\":\"element\",\"properties\":" ++
          "\x7b\"ariaLabel\":1e21,\"style\":\x7b\"a\":1.5e-03,\"b\":-0\x7d\x7d\x7d]\x7d")) =
      .ok d ∧
    Node.element tag props children ∈ d.children ∧
    props.normalize.numerals = [ascii "1.5e-03", ascii "-0"] ∧
    Json.IsObject (Json.properties props.normalize) := by
  generalize hsrc : ascii _ = src
  obtain ⟨props, hne, hnumerals, hread⟩ : ∃ props : Properties, props ≠ [] ∧
      props.normalize.numerals = [ascii "1.5e-03", ascii "-0"] ∧
      (decode src).toOption.map (fun d => d.children.map Node.props) = some [props] := by
    subst hsrc
    exact ⟨[⟨ascii "ariaLabel", .number ⟨0x444B1AE4D6E2EF50⟩⟩,
      ⟨ascii "style", .style [⟨[], ascii "a", ascii "1.5e-03", true⟩,
        ⟨[], ascii "b", ascii "-0", true⟩]⟩], by simp, by decide +kernel, by decide +kernel⟩
  obtain ⟨d, tag, children, hd, hmem⟩ := exists_element_of_props hne hread
  refine ⟨d, tag, props, children, hd, hmem, hnumerals, ?_⟩
  refine (properties_wellFormed_iff hd _ hmem 0 tag props children .here _ (Or.inr rfl)).2.1.2 ?_
  rw [hnumerals]
  intro t ht
  have hscientific : ascii "1.5e-03" = Decimal.scientific ⟨false, 15, -4⟩ := by decide +kernel
  have hplain : ascii "-0" = Decimal.plain ⟨true, 0, 0⟩ := by decide +kernel
  rw [hscientific, hplain, List.mem_cons, List.mem_singleton] at ht
  rcases ht with rfl | rfl
  · exact Decimal.isNumber_scientific _
  · exact Decimal.isNumber_plain fun _ => rfl

/-- A zero in front of a digit is read in a style, and written as it stands. -/
theorem Document.properties_malformed_zeros : ∃ d tag props children,
    decode
        (ascii ("\x7b\"type\":\"root\",\"children\":[\x7b\"type\":\"element\",\"tagName\":\"p\"," ++
          "\"properties\":\x7b\"style\":\x7b\"zIndex\":01\x7d\x7d\x7d]\x7d")) =
      .ok d ∧
    Node.element tag props children ∈ d.children ∧
    props = [⟨ascii "style", .style [⟨[], ascii "zIndex", ascii "01", true⟩]⟩] ∧
    ¬ Json.IsNumber (ascii "01") ∧ ¬ Json.IsObject (Json.properties props) := by
  generalize hsrc : ascii _ = src
  have hread : (decode src).toOption.map (fun d => d.children.map Node.props) =
      some [[⟨ascii "style", .style [⟨[], ascii "zIndex", ascii "01", true⟩]⟩]] := by
    subst hsrc
    decide +kernel
  obtain ⟨d, tag, children, hd, hmem⟩ := exists_element_of_props (by simp) hread
  have hliteral : ¬ Json.IsNumber (ascii "01") := fun h => by cases h.isDigit_behind_zero
  refine ⟨d, tag, _, children, hd, hmem, rfl, hliteral, fun hobject => hliteral ?_⟩
  have hnumeral : NumberText (ascii "01") :=
    ⟨⟨octet '0', ascii "1", rfl, Or.inl rfl⟩, by decide +kernel⟩
  exact (Json.isObject_properties_iff
    (by simpa [Properties.numerals, Value.numerals] using hnumeral)).1
    hobject _ (by simp [Properties.numerals, Value.numerals])

end DocTree
