import DocTree.Proofs.Json.Balance
import DocTree.Proofs.Json.Nest
import DocTree.Proofs.Json.ReadBack

/-!
# What a reader uses up

A reader uses up a beginning of the text in front of it, and nothing behind that beginning has a say
in what it reads (`Extent.reads`). Cut short, the same beginning is not read at all. Numbers are the
exception: they end where something else begins, so a number that is cut short may be read as
another number, which then reaches to the end of the text (`Extent.cut`). Readers of which all this
holds are `Local`; the ones for which it holds without the exception are `Local False`.

The parts of a reader are local one by one, and locality is kept when they are put together: one
reader behind another (`Local.bind`), a choice by the first byte (`Local.of_head`), and the rounds
of a loop up to its closing bracket (`items_local`, `members_local`).
-/

namespace DocTree.Json

variable {α β σ : Type} {loose : Prop} {p q : Place}

/-! ## Extents -/

/-- The beginning `used` of a text, from the place `p` on, is what a reader reads `a` from. -/
structure Extent (loose : Prop) (p : Place) (read : Bytes → Read α) (used : Bytes) (a : α) :
    Prop where
  /-- All its brackets and strings are closed, and there is no white space behind it. -/
  whole : Whole p used
  /-- Whatever follows, the same is read and nothing more is used up. -/
  reads : ∀ t, (loose → EndsNumber t) → read (used ++ t) = .ok (a, t)
  /-- When it is cut short, what is left of it can at most be read to the end. -/
  cut : ∀ s, s <+: used → s ≠ used → ∀ b rest, read s = .ok (b, rest) → loose ∧ rest = []

/-- What the reader uses up has an extent, whenever it reads something. -/
def Local (loose : Prop) (p : Place) (read : Bytes → Read α) : Prop :=
  ∀ s a rest, read s = .ok (a, rest) → ∃ used, s = used ++ rest ∧ Extent loose p read used a

theorem endsNumber_nil : EndsNumber [] := by
  rintro b ⟨⟩

theorem endsNumber_cons {b : UInt8} (h : isNumberByte b = false) (t : Bytes) :
    EndsNumber (b :: t) := by
  rintro c ⟨⟩
  exact h

/-- White space in front of a text that ends a number ends it as well. -/
theorem endsNumber_spaces {spaces t : Bytes} (h : ∀ b ∈ spaces, isSpace b = true)
    (ht : EndsNumber t) : EndsNumber (spaces ++ t) := by
  cases spaces with
  | nil => exact ht
  | cons b spaces =>
    refine endsNumber_cons ?_ _
    cases hb : isNumberByte b with
    | false => rfl
    | true =>
      have hspace := h b List.mem_cons_self
      rw [isSpace_of_isNumberByte hb] at hspace
      cases hspace

theorem Local.of_fails {read : Bytes → Read α} (h : ∀ s r, read s ≠ .ok r) :
    Local loose p read :=
  fun s _ _ hs => absurd hs (h s _)

/-- A reader that uses up nothing. -/
theorem Local.pure (a : α) : Local loose .outer fun s => .ok (a, s) := by
  intro s a' rest hs
  obtain ⟨rfl, rfl⟩ := Prod.mk.inj (Except.ok.inj hs)
  refine ⟨[], rfl, .nil, fun t _ => rfl, fun s hs hne => ?_⟩
  exact absurd (List.prefix_nil.1 hs) hne

/-- A reader without the exception for numbers may be used where there is one. -/
theorem Local.loosen {read : Bytes → Read α} (h : Local False p read) : Local loose p read := by
  intro s a rest hs
  obtain ⟨used, rfl, hused⟩ := h s a rest hs
  refine ⟨used, rfl, hused.whole, fun t _ => hused.reads t False.elim, fun s hs hne b rest hb => ?_⟩
  exact (hused.cut s hs hne b rest hb).1.elim

/-- A local reader leaves no more than there was. -/
theorem Local.length_le {read : Bytes → Read α} (h : Local loose p read) {s rest : Bytes} {a : α}
    (hs : read s = .ok (a, rest)) : rest.length ≤ s.length := by
  obtain ⟨used, rfl, -⟩ := h s a rest hs
  simp

/-- What is made of the result does not matter. -/
theorem Local.map {read : Bytes → Read α} (h : Local loose p read) (f : α → β) :
    Local loose p fun s => (read s).map fun r => (f r.1, r.2) := by
  intro s b rest hs
  obtain ⟨⟨a, rest₁⟩, ha, hb⟩ := map_eq_ok_iff.1 hs
  obtain ⟨rfl, rfl⟩ := Prod.mk.inj hb
  obtain ⟨used, rfl, hused⟩ := h _ _ _ ha
  refine ⟨used, rfl, hused.whole, fun t ht => ?_, fun s hs hne c rest hc => ?_⟩
  · simp only [hused.reads t ht, Except.map]
  · -- cut short, the reader itself reads what is left to the end
    obtain ⟨⟨a', rest'⟩, ha', hc⟩ := map_eq_ok_iff.1 hc
    obtain ⟨-, rfl⟩ := Prod.mk.inj hc
    exact hused.cut s hs hne a' rest' ha'

/-! ## Beginnings -/

/-- A beginning of two texts ends within the first one, or has all of it and a beginning of the
second. -/
theorem prefix_append {s x y : Bytes} (h : s <+: x ++ y) :
    (s <+: x ∧ s ≠ x) ∨ ∃ t, s = x ++ t ∧ t <+: y := by
  rcases List.prefix_or_prefix_of_prefix h (List.prefix_append x y) with hs | ⟨t, rfl⟩
  · by_cases hx : s = x
    · exact Or.inr ⟨[], by simp [hx], List.nil_prefix⟩
    · exact Or.inl ⟨hs, hx⟩
  · exact Or.inr ⟨t, rfl, (List.prefix_append_right_inj x).1 h⟩

/-- One reader behind another. -/
theorem Local.bind {first : Bytes → Read α} {second : α → Bytes → Read β}
    (hfirst : Local False p first) (hsecond : ∀ a, Local loose .outer (second a)) :
    Local loose p fun s => (first s).bind fun r => second r.1 r.2 := by
  intro s b rest hs
  cases hread : first s with
  | error e => simp [hread, Except.bind] at hs
  | ok r =>
    obtain ⟨a, s₁⟩ := r
    simp only [hread, Except.bind] at hs
    obtain ⟨used, rfl, hused⟩ := hfirst _ _ _ hread
    obtain ⟨used', rfl, hused'⟩ := hsecond a _ _ _ hs
    have hfst : ∀ t, first (used ++ t) = .ok (a, t) := fun t => hused.reads t False.elim
    refine ⟨used ++ used', by simp, hused.whole.append hused'.whole, fun t ht => ?_,
      fun s hs hne c rest hc => ?_⟩
    · simp only [List.append_assoc, hfst, Except.bind, hused'.reads t ht]
    · rcases prefix_append hs with ⟨hs, hne⟩ | ⟨t, rfl, ht⟩
      · -- cut inside the first part
        cases hcut : first s with
        | error e => simp [hcut, Except.bind] at hc
        | ok r => exact (hused.cut s hs hne r.1 r.2 hcut).1.elim
      · -- cut inside the second part: the first reader does not notice
        simp only [hfst, Except.bind] at hc
        exact hused'.cut t ht (fun h => hne (h ▸ rfl)) c rest hc

/-- The same reader behind its first byte. -/
theorem Local.behind {read : Bytes → Read α} {b : UInt8} (h : Local loose p read)
    (hnil : ∀ r, read [] ≠ .ok r) (hb : p.next? b = some q) :
    Local loose q fun s => read (b :: s) := by
  intro s a rest hs
  obtain ⟨used, heq, hused⟩ := h _ _ _ hs
  cases used with
  | nil => exact absurd (hused.reads [] fun _ => endsNumber_nil) (hnil _)
  | cons c used =>
    obtain ⟨rfl, rfl⟩ := List.cons.inj heq
    refine ⟨used, rfl, hused.whole.tail hb, fun t ht => hused.reads t ht,
      fun s hs hne c rest hc => ?_⟩
    refine hused.cut (b :: s) ?_ (by simpa using hne) c rest hc
    exact (List.prefix_cons_inj b).2 hs

theorem role_of_isSpace {b : UInt8} (h : isSpace b = true) : Role.ofByte b = .other := by
  have hb : b = 0x20 ∨ b = 0x0A ∨ b = 0x09 ∨ b = 0x0D := by simpa [isSpace, or_assoc] using h
  rcases hb with rfl | rfl | rfl | rfl <;> rfl

theorem skipSpaces_append {spaces : Bytes} (h : ∀ b ∈ spaces, isSpace b = true) (s : Bytes) :
    skipSpaces (spaces ++ s) = skipSpaces s :=
  List.dropWhile_append_of_pos h

/-- White space, and what is left when it is passed over. -/
theorem exists_spaces (s : Bytes) :
    ∃ spaces, (∀ b ∈ spaces, isSpace b = true) ∧ s = spaces ++ skipSpaces s :=
  ⟨s.takeWhile isSpace, fun _ hb => List.mem_takeWhile_imp hb,
    (List.takeWhile_append_dropWhile (p := isSpace)).symm⟩

theorem isSpace_head_skipSpaces {s rest : Bytes} {b : UInt8} (h : skipSpaces s = b :: rest) :
    isSpace b = false := by
  have hhead := List.head?_dropWhile_not isSpace s
  rw [skipSpaces] at h
  rw [h] at hhead
  simpa using hhead

/-- White space leads nowhere else. -/
theorem after?_spaces {spaces : Bytes} (h : ∀ b ∈ spaces, isSpace b = true) (depth : Nat) :
    Place.after? ⟨depth, .plain⟩ spaces = some ⟨depth, .plain⟩ := by
  have hbalanced : Balanced spaces := Balanced.of_other fun b hb => role_of_isSpace (h b hb)
  simpa [Place.outer, Place.deepen] using Place.after?_deepen hbalanced depth

@[simp] theorem skipSpaces_skipSpaces (s : Bytes) : skipSpaces (skipSpaces s) = skipSpaces s := by
  cases h : skipSpaces s with
  | nil => rfl
  | cons b rest => exact skipSpaces_cons (isSpace_head_skipSpaces h) rest

@[simp] theorem nextKind_skipSpaces (s : Bytes) : nextKind (skipSpaces s) = nextKind s := by
  simp [nextKind]

@[simp] theorem string_skipSpaces (s : Bytes) : string (skipSpaces s) = string s := by
  simp [string]

@[simp] theorem bool_skipSpaces (s : Bytes) : bool (skipSpaces s) = bool s := by
  simp [bool]

@[simp] theorem numberRun_skipSpaces (s : Bytes) : numberRun (skipSpaces s) = numberRun s := by
  simp [numberRun]

/-- A reader that passes over white space and then goes by the next byte. -/
theorem Local.of_head {read : Bytes → Read α} {depth : Nat}
    (hspaces : ∀ s, read (skipSpaces s) = read s) (hnil : ∀ r, read [] ≠ .ok r)
    (hhead : ∀ b, isSpace b = false → (∀ s r, read (b :: s) ≠ .ok r) ∨
      ∃ q, Place.next? ⟨depth, .plain⟩ b = some q ∧ Local loose q fun s => read (b :: s)) :
    Local loose ⟨depth, .plain⟩ read := by
  intro s a rest hs
  obtain ⟨spaces, hblank, hsplit⟩ := exists_spaces s
  have hskip : ∀ t, read (spaces ++ t) = read t := fun t => by
    rw [← hspaces, skipSpaces_append hblank, hspaces]
  cases hbody : skipSpaces s with
  | nil =>
    rw [← hspaces, hbody] at hs
    exact absurd hs (hnil _)
  | cons b body =>
    rw [← hspaces, hbody] at hs
    have hb := isSpace_head_skipSpaces hbody
    rcases hhead b hb with hfails | ⟨q, hq, hlocal⟩
    · exact absurd hs (hfails body _)
    · obtain ⟨used, rfl, hused⟩ := hlocal body a rest hs
      refine ⟨spaces ++ b :: used, by rw [hsplit, hbody]; simp, ?_, fun t ht => ?_,
        fun s hs hne c rest hc => ?_⟩
      · -- white space, a byte that is none, and what the reader uses up behind it
        exact Whole.append_of_ne (after?_spaces hblank depth) (hused.whole.cons hq fun _ => hb)
          (by simp)
      · rw [List.append_assoc, hskip]
        exact hused.reads t ht
      · rcases prefix_append hs with ⟨hs, -⟩ | ⟨t, rfl, ht⟩
        · -- nothing but white space is left
          have hblank : ∀ b ∈ s, isSpace b = true := fun b hb => hblank b (hs.subset hb)
          have hempty : skipSpaces s = [] := by simpa [skipSpaces] using hblank
          rw [← hspaces, hempty] at hc
          exact absurd hc (hnil _)
        · -- cut behind the white space
          rw [hskip] at hc
          cases t with
          | nil => exact absurd hc (hnil _)
          | cons c' t =>
            obtain ⟨rfl, ht'⟩ := List.cons_prefix_cons.1 ht
            exact hused.cut t ht' (fun h => hne (h ▸ rfl)) c rest hc

/-! ## Scalars -/

/-- A word that is expected is used up, and nothing else. -/
theorem expectWord_local (word : Bytes) (hword : Whole p word) (a : α) :
    Local loose p fun s => (expectWord word s).map (a, ·) := by
  refine Local.loosen fun s a' rest hs => ?_
  have hread : ∀ t, expectWord word (word ++ t) = .ok t := fun t => by simp [expectWord]
  obtain ⟨rest₁, hrest, heq⟩ := map_eq_ok_iff.1 hs
  obtain ⟨rfl, rfl⟩ := Prod.mk.inj heq
  have hsplit : ∀ {s t}, expectWord word s = .ok t → s = word ++ t := by
    intro s t h
    unfold expectWord at h
    split at h
    · next rest hafter => exact Except.ok.inj h ▸ Bytes.eq_append_of_after? hafter
    · cases h
  refine ⟨word, hsplit hrest, hword, fun t _ => by simp [hread, Except.map],
    fun s hs hne b rest hb => ?_⟩
  -- a text with the word in front is no shorter than the word
  obtain ⟨t, ht, -⟩ := map_eq_ok_iff.1 hb
  rw [hsplit ht] at hs hne
  have hlength := hs.length_le
  rw [List.length_append] at hlength
  have hnil : t = [] := List.length_eq_zero_iff.1 (by omega)
  exact absurd (by simp [hnil]) hne

/-- A byte without a meaning for the extent of values, such as the colon, is used up with the white
space in front of it. -/
theorem expect_local {b : UInt8} (hb : Role.ofByte b = .other) :
    Local False .outer fun s => (expect b s).map ((), ·) := by
  refine Local.of_head (fun s => by simp [expect]) (fun r h => by cases h) fun c hc => ?_
  -- the next byte is the one that is expected, or reading fails
  by_cases hcb : c = b
  · subst hcb
    have hread : (fun s => (expect c (c :: s)).map ((), ·)) = fun s => .ok ((), s) := by
      funext s
      simp [expect, skipSpaces_cons hc, Except.map]
    rw [hread]
    refine Or.inr ⟨.outer, ?_, Local.pure ()⟩
    simp [Place.next?, hb, Place.nextPlain?, Place.outer]
  · refine Or.inl fun s r => ?_
    simp [expect, skipSpaces_cons hc, hcb, Except.map]

/-! ### Strings -/

/-- Where the reader of a string stands. -/
def StringState.place : StringState → Place
  | .escape _ => ⟨0, .escaped⟩
  | _ => ⟨0, .quoted⟩

/-- What one byte of a string does, seen from its place alone. -/
inductive StepPlaces (state : StringState) (b : UInt8) : StringStep → Prop where
  | next {state' : StringState} {out : Bytes} :
      state.place.next? b = some state'.place → StepPlaces state b (.next state' out)
  | close {out : Bytes} :
      b = octet '"' → state.place.next? b = some .outer → StepPlaces state b (.close out)
  | refuse : StepPlaces state b .refuse

/-- A byte of plain text in a string closes the string, begins an escape or stays in it. -/
theorem textStep_places {state : StringState} (hplace : state.place = ⟨0, .quoted⟩) (strict : Bool)
    (out : Bytes) (b : UInt8) : StepPlaces state b (textStep strict out b) := by
  have hnext : state.place.next? b = some (Place.nextQuoted 0 b) := by rw [hplace]; rfl
  unfold textStep
  split
  · next hb =>
    obtain rfl := eq_of_beq hb
    exact .close rfl (hplace ▸ rfl)
  · next hquote =>
    split
    · next hb => exact .next (by rw [hnext, Place.nextQuoted, if_pos hb]; rfl)
    · next hslash =>
      split
      · exact .refuse
      · exact .next (by rw [hnext, Place.nextQuoted, if_neg hslash, if_neg hquote]; rfl)

theorem hexDigit?_quoted {b : UInt8} {d : Nat} (h : Bytes.hexDigit? b = some d) :
    Place.next? ⟨0, .quoted⟩ b = some ⟨0, .quoted⟩ := by
  have hne : b ≠ octet '\\' ∧ b ≠ octet '"' := by
    constructor <;> rintro rfl <;> cases h
  simp [Place.next?, Place.nextQuoted, hne]

/-- The reader of a string and the walk over its text agree on where each byte leads. One case for
each state of the reader. -/
theorem step_places (state : StringState) (b : UInt8) : StepPlaces state b (state.step b) := by
  cases state with
  | text strict => exact textStep_places rfl strict [] b
  -- behind half of a pair, a backslash may begin the other half
  | surrogate n =>
    simp only [StringState.step]
    split
    · next hb =>
      obtain rfl := eq_of_beq hb
      exact .next rfl
    · exact textStep_places rfl false (codePoint n) b
  | escape pending =>
    simp only [StringState.step]
    split
    · exact .next rfl
    · split
      · exact .next rfl
      · exact .refuse
  | unit pending count value =>
    simp only [StringState.step]
    split
    · exact .refuse
    · next d hd =>
      have hnext := hexDigit?_quoted hd
      split
      · exact .next hnext
      · split
        · exact .next hnext
        · split <;> exact .next hnext

/-- By induction on the text: a string ends at the first quote that counts. -/
theorem stringFrom_local (state : StringState) (done : Bytes) :
    Local False state.place fun s => stringFrom state s done := by
  intro s
  induction s generalizing state done with
  | nil => intro a rest h; cases h
  | cons b s ih =>
    intro a rest hs
    -- a text that is cut short keeps its first byte, or nothing is read
    have hcut : ∀ {used : Bytes}, (∀ t, t <+: used → t ≠ used → ∀ c rest,
        stringFrom state (b :: t) done = .ok (c, rest) → False ∧ rest = []) →
        ∀ t, t <+: b :: used → t ≠ b :: used → ∀ c rest,
          stringFrom state t done = .ok (c, rest) → False ∧ rest = [] := by
      intro used h t ht hne c rest hc
      cases t with
      | nil => cases hc
      | cons b' t =>
        obtain ⟨rfl, ht'⟩ := List.cons_prefix_cons.1 ht
        exact h t ht' (fun h => hne (h ▸ rfl)) c rest hc
    have hplaces := step_places state b
    simp only [stringFrom] at hs
    cases hstep : state.step b with
    | refuse =>
      rw [hstep] at hs
      cases hs
    | close out =>
      rw [hstep] at hs hplaces
      obtain ⟨rfl, rfl⟩ := Prod.mk.inj (Except.ok.inj hs)
      cases hplaces with
      | close hb hnext =>
        -- the closing quote is the last byte that is used up
        refine ⟨[b], rfl, Whole.nil.cons hnext fun _ => hb ▸ rfl,
          fun t _ => by simp [stringFrom, hstep], hcut fun t ht hne => ?_⟩
        exact absurd (List.prefix_nil.1 ht) hne
    | next state' out =>
      rw [hstep] at hs hplaces
      obtain ⟨used, rfl, hused⟩ := ih state' _ a rest hs
      cases hplaces with
      | next hnext =>
        refine ⟨b :: used, rfl, hused.whole.cons hnext fun hnil => ?_, fun t ht => ?_,
          hcut fun t ht hne c rest hc => ?_⟩
        · -- the closing quote is still to come
          subst hnil
          cases hused.reads [] False.elim
        · simp only [List.cons_append, stringFrom, hstep]
          exact hused.reads t ht
        · simp only [stringFrom, hstep] at hc
          exact hused.cut t ht hne c rest hc

/-- A string, or `null` in its place, is used up. -/
theorem string_local : Local False .outer string := by
  refine Local.of_head (fun s => by simp [string]) (fun r h => by cases h) fun b hb => ?_
  have hread : ∀ s, string (b :: s) = if b == octet '"' then stringFrom (.text true) s []
      else if b == octet 'n' then (expectWord (ascii "ull") s).map ([], ·)
      else .error .malformed := fun s => by simp only [string, skipSpaces_cons hb]
  simp only [hread]
  by_cases hquote : b = octet '"'
  · subst hquote
    exact Or.inr ⟨_, rfl, stringFrom_local (.text true) []⟩
  · by_cases hn : b = octet 'n'
    · subst hn
      exact Or.inr ⟨.outer, rfl, expectWord_local _ (.of_last (by decide) (by decide)) []⟩
    · exact Or.inl fun s r => by simp [hquote, hn]

/-- The first byte of a truth value decides which one it is. -/
theorem bool_cons {b : UInt8} (hb : isSpace b = false) (s : Bytes) :
    bool (b :: s) = if b = octet 't' then (expectWord (ascii "rue") s).map (true, ·)
      else if b = octet 'f' then (expectWord (ascii "alse") s).map (false, ·)
      else .error .malformed := by
  rw [bool, skipSpaces_cons hb]
  by_cases ht : b = octet 't'
  · -- the word `false` is out, and of `true` the rest is left
    subst ht
    have htrue : Bytes.after? (ascii "true") (octet 't' :: s) = Bytes.after? (ascii "rue") s := rfl
    have hfalse : Bytes.after? (ascii "false") (octet 't' :: s) = none := rfl
    simp only [htrue, hfalse, if_true, expectWord]
    cases Bytes.after? (ascii "rue") s <;> rfl
  · have htrue : Bytes.after? (ascii "true") (b :: s) = none := by simp [ascii, Bytes.after?, ht]
    rw [if_neg ht]
    by_cases hf : b = octet 'f'
    · subst hf
      have hfalse : Bytes.after? (ascii "false") (octet 'f' :: s) =
          Bytes.after? (ascii "alse") s := rfl
      simp only [htrue, hfalse, if_true, expectWord]
      cases Bytes.after? (ascii "alse") s <;> rfl
    · have hfalse : Bytes.after? (ascii "false") (b :: s) = none := by
        simp [ascii, Bytes.after?, hf]
      simp only [htrue, hfalse, if_neg hf]

theorem bool_local : Local False .outer bool := by
  refine Local.of_head (fun s => by simp [bool]) (fun r h => by cases h) fun b hb => ?_
  simp only [bool_cons hb]
  by_cases ht : b = octet 't'
  · subst ht
    exact Or.inr ⟨.outer, rfl, expectWord_local _ (.of_last (by decide) (by decide)) true⟩
  · by_cases hf : b = octet 'f'
    · subst hf
      exact Or.inr ⟨.outer, rfl, expectWord_local _ (.of_last (by decide) (by decide)) false⟩
    · exact Or.inl fun s r => by simp [ht, hf]

/-! ### Numbers -/

theorem role_of_isNumberByte {b : UInt8} (h : isNumberByte b = true) : Role.ofByte b = .other := by
  have hne : ∀ c, isNumberByte c = false → b ≠ c := by
    rintro c hc rfl
    rw [h] at hc
    cases hc
  simp [Role.ofByte, hne (octet '"') rfl, hne (octet '[') rfl, hne (octet '{') rfl,
    hne (octet ']') rfl, hne (octet '}') rfl, hne (octet ',') rfl]

/-- A number is the longest run of its bytes, whatever is made of the run. -/
theorem numberRun_local {b : UInt8} (hb : isNumberByte b = true) (f : Bytes → Except Fault α) :
    Local True .outer fun s =>
      (f (numberRun (b :: s)).1).map (·, (numberRun (b :: s)).2) := by
  have hrun : ∀ s, numberRun (b :: s) =
      (b :: s.takeWhile isNumberByte, s.dropWhile isNumberByte) := by
    intro s
    rw [numberRun, skipSpaces_cons (isSpace_of_isNumberByte hb), List.span_eq_takeWhile_dropWhile,
      List.takeWhile_cons_of_pos hb, List.dropWhile_cons_of_pos hb]
  have hall : ∀ {s t : Bytes}, s <+: t.takeWhile isNumberByte → ∀ b ∈ s, isNumberByte b = true :=
    fun h b hb => List.mem_takeWhile_imp (h.subset hb)
  intro s a rest hs
  simp only [hrun] at hs ⊢
  obtain ⟨a', ha, heq⟩ := map_eq_ok_iff.1 hs
  obtain ⟨rfl, rfl⟩ := Prod.mk.inj heq
  refine ⟨s.takeWhile isNumberByte, List.takeWhile_append_dropWhile.symm, ?_, fun t ht => ?_,
    fun t ht hne b rest hb => ?_⟩
  · refine ⟨Balanced.of_other fun b hb => role_of_isNumberByte (List.mem_takeWhile_imp hb),
      fun c hc => ?_⟩
    exact isSpace_of_isNumberByte (List.mem_takeWhile_imp (List.mem_of_getLast? hc))
  · -- what follows ends the number, so the run is the same
    have hbytes : ∀ c ∈ b :: s.takeWhile isNumberByte, isNumberByte c = true := by
      simpa [hb] using hall List.prefix_rfl
    have hstop := numberRun_append (by simp) hbytes (ht trivial)
    rw [List.cons_append, hrun] at hstop
    obtain ⟨htake, hdrop⟩ := Prod.mk.inj hstop
    simp only [htake, hdrop, ha, Except.map]
  · -- all that is left of the run is still a run
    obtain ⟨a', -, heq⟩ := map_eq_ok_iff.1 hb
    obtain ⟨-, rfl⟩ := Prod.mk.inj heq
    exact ⟨trivial, List.dropWhile_eq_nil_iff.2 (hall ht)⟩

/-! ## Loops -/

/-- The rounds of a loop over items or members: each has a comma behind it, the last one the closing
bracket. -/
inductive Rounds (close : UInt8) (round : σ → Bytes → Read σ) : σ → Bytes → σ → Bytes → Prop where
  | last {acc acc' : σ} {s s₁ rest : Bytes} :
      round acc s = .ok (acc', s₁) → skipSpaces s₁ = close :: rest →
      Rounds close round acc s acc' rest
  | more {acc acc₁ acc' : σ} {s s₁ s₂ rest : Bytes} :
      round acc s = .ok (acc₁, s₁) → skipSpaces s₁ = octet ',' :: s₂ →
      Rounds close round acc₁ s₂ acc' rest → Rounds close round acc s acc' rest

namespace Rounds

variable {close : UInt8} {round : σ → Bytes → Read σ}

/-- There are no rounds if nothing stands behind the first one: a comma or the closing bracket is
missing. -/
theorem not_of_end {acc acc' : σ} {s rest : Bytes}
    (h : ∀ acc₁ s₁, round acc s = .ok (acc₁, s₁) → skipSpaces s₁ = []) :
    ¬ Rounds close round acc s acc' rest := by
  intro hrun
  cases hrun with
  | last hread hskip | more hread hskip _ => simp [h _ _ hread] at hskip

/-- Behind a comma the rounds go on. -/
theorem comma_iff (hclose : close ≠ octet ',') {acc acc₁ acc' : σ} {s s₁ s₂ rest : Bytes}
    (hread : round acc s = .ok (acc₁, s₁)) (hskip : skipSpaces s₁ = octet ',' :: s₂) :
    Rounds close round acc s acc' rest ↔ Rounds close round acc₁ s₂ acc' rest := by
  refine ⟨fun hrun => ?_, .more hread hskip⟩
  cases hrun with
  | last hread' hskip' =>
    rw [hread] at hread'
    obtain ⟨-, rfl⟩ := Prod.mk.inj (Except.ok.inj hread')
    rw [hskip] at hskip'
    exact absurd (List.cons.inj hskip').1.symm hclose
  | more hread' hskip' hrun =>
    rw [hread] at hread'
    obtain ⟨rfl, rfl⟩ := Prod.mk.inj (Except.ok.inj hread')
    rw [hskip] at hskip'
    obtain ⟨-, rfl⟩ := List.cons.inj hskip'
    exact hrun

/-- A round and the byte behind it, as a reader that leaves that byte in its place. -/
theorem extent_round (hround : ∀ acc, Local True .outer (round acc)) {acc acc' : σ}
    {s s₁ rest : Bytes} {b : UInt8} (hread : round acc s = .ok (acc', s₁))
    (hskip : skipSpaces s₁ = b :: rest) (hb : isNumberByte b = false) :
    ∃ used, s = used ++ b :: rest ∧ Balanced used ∧
      (∀ t, ∃ s₁, round acc (used ++ b :: t) = .ok (acc', s₁) ∧ skipSpaces s₁ = b :: t) ∧
      ∀ cut, cut <+: used → ∀ acc₁ s₁, round acc cut = .ok (acc₁, s₁) → skipSpaces s₁ = [] := by
  obtain ⟨used, rfl, hused⟩ := hround acc _ _ _ hread
  obtain ⟨spaces, hblank, hsplit⟩ := exists_spaces s₁
  have hspaces : ∀ t, skipSpaces (spaces ++ b :: t) = b :: t := fun t => by
    rw [skipSpaces_append hblank, skipSpaces_cons (isSpace_head_skipSpaces hskip)]
  refine ⟨used ++ spaces, by rw [hsplit, hskip]; simp, ?_, fun t => ?_,
    fun cut hcut acc₁ s₁ hs₁ => ?_⟩
  · exact Balanced.append hused.whole.balanced (after?_spaces hblank 0)
  · refine ⟨spaces ++ b :: t, ?_, hspaces t⟩
    rw [List.append_assoc]
    exact hused.reads _ fun _ => endsNumber_spaces hblank (endsNumber_cons hb t)
  · rcases prefix_append hcut with ⟨hcut, hne⟩ | ⟨t, rfl, ht⟩
    · -- cut inside the round, it is read to the end of the text at most
      rw [(hused.cut cut hcut hne acc₁ s₁ hs₁).2]
      rfl
    · -- the round is whole, and nothing but white space is behind it
      have ht : ∀ b ∈ t, isSpace b = true := fun b hb => hblank b (ht.subset hb)
      have hend : EndsNumber t := by simpa using endsNumber_spaces ht endsNumber_nil
      rw [hused.reads t fun _ => hend] at hs₁
      obtain ⟨-, rfl⟩ := Prod.mk.inj (Except.ok.inj hs₁)
      simpa [skipSpaces] using ht

/-- The rounds use up a text up to the closing bracket. By induction on the rounds. -/
theorem extent (hround : ∀ acc, Local True .outer (round acc)) (hclose : isNumberByte close = false)
    (hspace : isSpace close = false) (hrole : Role.ofByte close = .closing) {acc acc' : σ}
    {s rest : Bytes} (h : Rounds close round acc s acc' rest) :
    ∃ used, s = used ++ rest ∧ Whole ⟨1, .plain⟩ used ∧
      (∀ t, Rounds close round acc (used ++ t) acc' t) ∧
      ∀ cut, cut <+: used → cut ≠ used → ∀ acc₁ rest₁, ¬ Rounds close round acc cut acc₁ rest₁ := by
  have hinner : ∀ {used : Bytes}, Balanced used →
      Place.after? ⟨1, .plain⟩ used = some ⟨1, .plain⟩ :=
    fun h => Place.after?_deepen h 1
  induction h with
  | @last acc acc' s s₁ rest hread hskip =>
    -- the last round, with the closing bracket behind it
    obtain ⟨used, rfl, hbalanced, hreads, hcut⟩ := extent_round hround hread hskip hclose
    refine ⟨used ++ [close], by simp, ?_, fun t => ?_, fun cut hinit hne acc₁ rest₁ hrun => ?_⟩
    · refine Whole.append_of_ne (hinner hbalanced) (Whole.nil.cons ?_ fun _ => hspace) (by simp)
      rw [Place.next?, hrole]
      rfl
    · obtain ⟨s₁, hread, hskip⟩ := hreads t
      exact .last (by simpa using hread) hskip
    · have hinit : cut <+: used := by
        rcases List.prefix_concat_iff.1 hinit with h | h
        · exact absurd h hne
        · exact h
      exact not_of_end (hcut cut hinit) hrun
  | @more acc acc₁ acc' s s₁ s₂ rest hread hskip _ ih =>
    -- a round with a comma behind it, and what the other rounds use up
    obtain ⟨used, rfl, hbalanced, hreads, hcut⟩ := extent_round hround hread hskip rfl
    obtain ⟨used₂, rfl, hwhole₂, hreads₂, hcut₂⟩ := ih
    refine ⟨used ++ octet ',' :: used₂, by simp, ?_, fun t => ?_,
      fun cut hinit hne acc₃ rest₃ hrun => ?_⟩
    · exact Whole.append_of_ne (hinner hbalanced) (hwhole₂.cons rfl fun _ => rfl) (by simp)
    · obtain ⟨s₁, hread, hskip⟩ := hreads (used₂ ++ t)
      exact .more (by simpa using hread) hskip (hreads₂ t)
    · rcases prefix_append hinit with ⟨hinit, -⟩ | ⟨t, rfl, ht⟩
      · exact not_of_end (hcut cut hinit) hrun
      · cases t with
        | nil =>
          -- the comma is gone
          rw [List.append_nil] at hrun
          exact not_of_end (hcut used List.prefix_rfl) hrun
        | cons c t =>
          obtain ⟨rfl, ht'⟩ := List.cons_prefix_cons.1 ht
          obtain ⟨s₃, hread₃, hskip₃⟩ := hreads t
          refine hcut₂ t ht' (fun h => hne (h ▸ rfl)) acc₃ rest₃ ?_
          exact (comma_iff (by rintro rfl; cases hrole) hread₃ hskip₃).1 hrun

end Rounds

/-! ### Arrays and objects -/

theorem next?_inner (b : UInt8) : ∃ q, Place.next? ⟨1, .plain⟩ b = some q := by
  rw [Place.next?]
  cases Role.ofByte b <;> exact ⟨_, rfl⟩

/-- A comma is passed in every round but the last, so there are never more rounds than bytes. -/
theorem length_lt_of_round {round : σ → Bytes → Read σ}
    (hround : ∀ acc, Local True .outer (round acc)) {acc acc' : σ} {s s₁ rest : Bytes} {b : UInt8}
    (hread : round acc s = .ok (acc', s₁)) (hskip : skipSpaces s₁ = b :: rest) :
    rest.length < s.length := by
  have hlength := (hround acc).length_le hread
  have hsuffix : (skipSpaces s₁).length ≤ s₁.length := (List.dropWhile_suffix isSpace).length_le
  rw [hskip, List.length_cons] at hsuffix
  omega

/-- A reader that goes through rounds is local. -/
theorem Rounds.local {close : UInt8} {round : σ → Bytes → Read σ}
    (hround : ∀ acc, Local True .outer (round acc)) (hclose : isNumberByte close = false)
    (hspace : isSpace close = false) (hrole : Role.ofByte close = .closing) {acc : σ}
    {read : Bytes → Read σ}
    (hread : ∀ s acc' rest, read s = .ok (acc', rest) ↔ Rounds close round acc s acc' rest) :
    Local False ⟨1, .plain⟩ read := by
  intro s acc' rest hs
  obtain ⟨used, rfl, hwhole, hreads, hcut⟩ :=
    extent hround hclose hspace hrole ((hread _ _ _).1 hs)
  refine ⟨used, rfl, hwhole, fun t _ => (hread _ _ _).2 (hreads t), fun s hs hne b rest hb => ?_⟩
  exact absurd ((hread _ _ _).1 hb) (hcut s hs hne b rest)

section Items

variable {item : σ → Bytes → Read σ}

theorem ItemsRun.rounds {acc acc' : σ} {s rest : Bytes} (h : ItemsRun item acc s acc' rest) :
    Rounds (octet ']') item acc s acc' rest := by
  induction h with
  | last hread hskip => exact .last hread hskip
  | more hread hskip _ ih => exact .more hread hskip ih

/-- The loop over items gives the result of the rounds, if it may go through as many as there are
bytes. -/
theorem itemsFrom_eq_ok_iff (hitem : ∀ acc, Local True .outer (item acc)) {rounds s : Bytes}
    (hrounds : s.length ≤ rounds.length) {acc acc' : σ} {rest : Bytes} :
    itemsFrom item rounds acc s = .ok (acc', rest) ↔ Rounds (octet ']') item acc s acc' rest := by
  constructor
  · exact fun h => (itemsRun_of_itemsFrom h).rounds
  · intro h
    induction h generalizing rounds with
    | last hread hskip =>
      rw [itemsFrom.eq_def]
      simp [hread, hskip]
    | more hread hskip _ ih =>
      -- a round uses up a comma, so the bound on the rounds goes down with the bytes
      have hlength := length_lt_of_round hitem hread hskip
      cases rounds with
      | nil => rw [List.length_nil] at hrounds; omega
      | cons round rounds =>
        rw [List.length_cons] at hrounds
        have hrest := @ih rounds (by omega)
        rw [itemsFrom.eq_def]
        simp [hread, hskip, hrest, show octet ',' ≠ octet ']' by decide]

/-- The items of an array are used up with the closing bracket. -/
theorem items_local (hitem : ∀ acc, Local True .outer (item acc)) (acc : σ) :
    Local False ⟨1, .plain⟩ (items item acc) := by
  have hloop : Local False ⟨1, .plain⟩ fun s => itemsFrom item s acc s :=
    Rounds.local hitem rfl rfl rfl fun _ _ _ => itemsFrom_eq_ok_iff hitem le_rfl
  have hnil : ∀ r, itemsFrom item [] acc [] ≠ .ok r := by
    rintro ⟨acc', rest⟩ h
    refine Rounds.not_of_end (fun acc₁ s₁ hread => ?_) ((itemsFrom_eq_ok_iff hitem le_rfl).1 h)
    rw [List.length_eq_zero_iff.1 (Nat.le_zero.1 ((hitem acc).length_le hread))]
    rfl
  refine Local.of_head (fun s => by simp [items]) hnil fun b hb => ?_
  right
  by_cases hclose : b = octet ']'
  · subst hclose
    -- the array is empty
    exact ⟨.outer, rfl, Local.pure acc⟩
  · have hread : (fun s => items item acc (b :: s)) =
        fun s => itemsFrom item (b :: s) acc (b :: s) := by
      funext s
      simp [items, skipSpaces_cons hb, hclose]
    obtain ⟨q, hq⟩ := next?_inner b
    rw [hread]
    exact ⟨q, hq, hloop.behind hnil hq⟩

end Items

section Members

variable {member : σ → Bytes → Bytes → Read σ}

/-- A member: its key, the colon, and its value. -/
def keyed (member : σ → Bytes → Bytes → Read σ) (acc : σ) (s : Bytes) : Read σ :=
  (string s).bind fun (key, s) =>
    ((expect (octet ':') s).map ((), ·)).bind fun (_, s) => member acc key s

/-- A member is read if its key, the colon and its value are. -/
theorem keyed_eq_ok_iff {acc acc' : σ} {s rest : Bytes} :
    keyed member acc s = .ok (acc', rest) ↔ ∃ key s₁ s₂, string s = .ok (key, s₁) ∧
      expect (octet ':') s₁ = .ok s₂ ∧ member acc key s₂ = .ok (acc', rest) := by
  unfold keyed
  cases hkey : string s with
  | error e => simp [Except.bind]
  | ok r =>
    obtain ⟨key, s₁⟩ := r
    cases hcolon : expect (octet ':') s₁ with
    | error e => simp [Except.bind, Except.map, hcolon]
    | ok s₂ => simp [Except.bind, Except.map, hcolon]

theorem keyed_local (hmember : ∀ acc key, Local True .outer (member acc key)) (acc : σ) :
    Local True .outer (keyed member acc) :=
  string_local.bind fun key => (expect_local rfl).bind fun _ => hmember acc key

theorem MembersRun.rounds {acc acc' : σ} {s rest : Bytes} (h : MembersRun member acc s acc' rest) :
    Rounds (octet '}') (keyed member) acc s acc' rest := by
  induction h with
  | last hkey hcolon hread hskip =>
    exact .last (keyed_eq_ok_iff.2 ⟨_, _, _, hkey, hcolon, hread⟩) hskip
  | more hkey hcolon hread hskip _ ih =>
    exact .more (keyed_eq_ok_iff.2 ⟨_, _, _, hkey, hcolon, hread⟩) hskip ih

/-- The loop over members gives the result of the rounds, if it may go through as many as there are
bytes. -/
theorem membersFrom_eq_ok_iff (hmember : ∀ acc key, Local True .outer (member acc key))
    {rounds s : Bytes} (hrounds : s.length ≤ rounds.length) {acc acc' : σ} {rest : Bytes} :
    membersFrom member rounds acc s = .ok (acc', rest) ↔
      Rounds (octet '}') (keyed member) acc s acc' rest := by
  constructor
  · exact fun h => (membersRun_of_membersFrom h).rounds
  · intro h
    induction h generalizing rounds with
    | last hread hskip =>
      obtain ⟨key, s₁, s₂, hkey, hcolon, hread⟩ := keyed_eq_ok_iff.1 hread
      rw [membersFrom.eq_def]
      simp [hkey, hcolon, hread, hskip]
    | more hread hskip _ ih =>
      have hlength := length_lt_of_round (keyed_local hmember) hread hskip
      obtain ⟨key, s₁, s₂, hkey, hcolon, hread⟩ := keyed_eq_ok_iff.1 hread
      cases rounds with
      | nil => rw [List.length_nil] at hrounds; omega
      | cons round rounds =>
        rw [List.length_cons] at hrounds
        have hrest := @ih rounds (by omega)
        rw [membersFrom.eq_def]
        simp [hkey, hcolon, hread, hskip, hrest, show octet ',' ≠ octet '}' by decide]

/-- The members of an object are used up with the closing brace. -/
theorem members_local (hmember : ∀ acc key, Local True .outer (member acc key)) (acc : σ) :
    Local False ⟨1, .plain⟩ (members member acc) := by
  have hloop : Local False ⟨1, .plain⟩ fun s => membersFrom member s acc s :=
    Rounds.local (keyed_local hmember) rfl rfl rfl fun _ _ _ => membersFrom_eq_ok_iff hmember le_rfl
  refine Local.of_head (fun s => by simp [members]) (fun r h => by cases h) fun b hb => ?_
  by_cases hclose : b = octet '}'
  · subst hclose
    -- the object is empty
    exact Or.inr ⟨.outer, rfl, Local.pure acc⟩
  · by_cases hquote : b = octet '"'
    · subst hquote
      refine Or.inr ⟨_, rfl, hloop.behind (fun r h => ?_) rfl⟩
      rw [membersFrom.eq_def] at h
      cases h
    · exact Or.inl fun s r => by simp [members, skipSpaces_cons hb, hclose, hquote]

end Members

/-! ## Values by kind -/

/-- What the kind of a value tells about its first byte. -/
inductive FirstByte : UInt8 → Kind → Prop where
  | string : FirstByte (octet '"') .string
  | number {b : UInt8} : isNumberByte b = true → FirstByte b .number
  | bool {b : UInt8} : Role.ofByte b = .other → FirstByte b .bool
  | null : FirstByte (octet 'n') .null
  | array : FirstByte (octet '[') .array
  | object : FirstByte (octet '{') .object
  | invalid {b : UInt8} : FirstByte b .invalid

/-- One case for each branch of the definition. -/
theorem firstByte_ofByte (b : UInt8) : FirstByte b (.ofByte b) := by
  fun_cases Kind.ofByte b with
  | case1 h => exact eq_of_beq h ▸ .string
  | case2 _ h =>
    have hb : b = octet '-' ∨ Decimal.isDigit b = true := by simpa using h
    refine .number ?_
    rcases hb with rfl | hdigit
    · rfl
    · simp [isNumberByte, hdigit]
  | case3 _ _ h =>
    have hb : b = octet 't' ∨ b = octet 'f' := by simpa using h
    rcases hb with rfl | rfl <;> exact .bool rfl
  | case4 _ _ _ h => exact eq_of_beq h ▸ .null
  | case5 _ _ _ _ h => exact eq_of_beq h ▸ .array
  | case6 _ _ _ _ _ h => exact eq_of_beq h ▸ .object
  | case7 => exact .invalid

theorem nextKind_quote (s : Bytes) : nextKind (octet '"' :: s) = .string := rfl

theorem next?_outer_of_other {b : UInt8} (h : Role.ofByte b = .other) :
    Place.outer.next? b = some .outer := by
  simp [Place.outer, Place.next?, h, Place.nextPlain?]

/-- A reader that passes over white space and then goes by the kind of the value. -/
theorem Local.of_kind {read : Bytes → Read α} (hspaces : ∀ s, read (skipSpaces s) = read s)
    (hinvalid : ∀ s, nextKind s = .invalid → ∀ r, read s ≠ .ok r)
    (hstring : Local loose ⟨0, .quoted⟩ fun s => read (octet '"' :: s))
    (hnumber : ∀ b, isNumberByte b = true → Kind.ofByte b = .number →
      Local loose .outer fun s => read (b :: s))
    (hbool : ∀ b, isSpace b = false → Role.ofByte b = .other → Kind.ofByte b = .bool →
      Local loose .outer fun s => read (b :: s))
    (hnull : Local loose .outer fun s => read (octet 'n' :: s))
    (harray : Local loose ⟨1, .plain⟩ fun s => read (octet '[' :: s))
    (hobject : Local loose ⟨1, .plain⟩ fun s => read (octet '{' :: s)) :
    Local loose .outer read := by
  refine Local.of_head hspaces (hinvalid [] rfl) fun b hb => ?_
  have hfirst := firstByte_ofByte b
  generalize hkind : Kind.ofByte b = kind at hfirst
  cases hfirst with
  | string => exact Or.inr ⟨_, rfl, hstring⟩
  | number hnum =>
    exact Or.inr ⟨_, next?_outer_of_other (role_of_isNumberByte hnum), hnumber b hnum hkind⟩
  | bool hrole => exact Or.inr ⟨_, next?_outer_of_other hrole, hbool b hb hrole hkind⟩
  | null => exact Or.inr ⟨_, rfl, hnull⟩
  | array => exact Or.inr ⟨_, rfl, harray⟩
  | object => exact Or.inr ⟨_, rfl, hobject⟩
  | invalid => exact Or.inl fun s => hinvalid _ (by rw [nextKind_cons hb, hkind])

/-- A reader that takes `null` and one or both of arrays and objects. -/
theorem Local.of_nested {read : Bytes → Read α} (hspaces : ∀ s, read (skipSpaces s) = read s)
    (hother : ∀ s, nextKind s ≠ .null → nextKind s ≠ .array → nextKind s ≠ .object →
      ∀ r, read s ≠ .ok r)
    (hnull : Local loose .outer fun s => read (octet 'n' :: s))
    (harray : Local loose ⟨1, .plain⟩ fun s => read (octet '[' :: s))
    (hobject : Local loose ⟨1, .plain⟩ fun s => read (octet '{' :: s)) :
    Local loose .outer read := by
  have hfails : ∀ {b kind} {p : Place}, isSpace b = false → Kind.ofByte b = kind → kind ≠ .null →
      kind ≠ .array → kind ≠ .object → Local loose p fun s => read (b :: s) := by
    rintro b kind p hb rfl hnull harray hobject
    exact Local.of_fails fun s => hother _ (by rwa [nextKind_cons hb]) (by rwa [nextKind_cons hb])
      (by rwa [nextKind_cons hb])
  -- strings, numbers and truth values are refused
  refine Local.of_kind hspaces (fun s hkind => hother s ?_ ?_ ?_) ?_ ?_ ?_ hnull harray hobject
  · simp [hkind]
  · simp [hkind]
  · simp [hkind]
  · exact hfails rfl rfl (by decide) (by decide) (by decide)
  · intro b hb hkind
    exact hfails (isSpace_of_isNumberByte hb) hkind (by decide) (by decide) (by decide)
  · intro b hb _ hkind
    exact hfails hb hkind (by decide) (by decide) (by decide)

/-- What a local reader does behind its first byte. -/
theorem Local.head {read : Bytes → Read α} (h : Local loose .outer read)
    (hnil : ∀ r, read [] ≠ .ok r) (b : UInt8) : (∀ s r, read (b :: s) ≠ .ok r) ∨
      ∃ q, Place.outer.next? b = some q ∧ Local loose q fun s => read (b :: s) := by
  cases hq : Place.outer.next? b with
  | some q => exact Or.inr ⟨q, rfl, h.behind hnil hq⟩
  | none =>
    refine Or.inl fun s r hs => ?_
    obtain ⟨used, heq, hused⟩ := h _ _ _ hs
    cases used with
    | nil => exact hnil _ (hused.reads [] fun _ => endsNumber_nil)
    | cons c used =>
      -- no value begins with a byte that only ends values
      obtain ⟨rfl, -⟩ := List.cons.inj heq
      have hbalanced := hused.whole.balanced
      rw [Place.after?_cons, hq] at hbalanced
      cases hbalanced

/-- A choice between two readers by the kind of the value. -/
theorem Local.ite_kind {first second : Bytes → Read α} {kind : Kind}
    (hfirst : Local loose .outer first) (hsecond : Local loose .outer second)
    (hspaces : ∀ s, first (skipSpaces s) = first s ∧ second (skipSpaces s) = second s)
    (hnil : ∀ r, first [] ≠ .ok r ∧ second [] ≠ .ok r) :
    Local loose .outer fun s => if nextKind s = kind then first s else second s := by
  refine Local.of_head (fun s => by simp [hspaces]) (fun r => ?_) fun b hb => ?_
  · split
    · exact (hnil r).1
    · exact (hnil r).2
  · simp only [nextKind_cons hb]
    split
    · exact hfirst.head (fun r => (hnil r).1) b
    · exact hsecond.head (fun r => (hnil r).2) b

theorem string_behind : Local loose ⟨0, .quoted⟩ fun s => string (octet '"' :: s) :=
  Local.loosen (string_local.behind (fun r h => by cases h) rfl)

theorem bool_behind {b : UInt8} (h : Role.ofByte b = .other) :
    Local loose .outer fun s => bool (b :: s) :=
  Local.loosen (bool_local.behind (fun r h => by cases h) (next?_outer_of_other h))

theorem double_behind {b : UInt8} (h : isNumberByte b = true) :
    Local True .outer fun s => double (b :: s) := by
  let ofRun (run : Bytes) : Except Fault Double := (double? run).elim (.error .malformed) .ok
  have hread : (fun s => double (b :: s)) =
      fun s => (ofRun (numberRun (b :: s)).1).map (·, (numberRun (b :: s)).2) := by
    funext s
    simp only [double, ofRun]
    cases double? (numberRun (b :: s)).1 <;> rfl
  rw [hread]
  exact numberRun_local h ofRun

/-! ## Values that are passed over -/

theorem skipScalar_local (a : α) : Local True .outer fun s => (skipScalar s).map (a, ·) := by
  refine Local.of_kind (fun s => by simp [skipScalar]) ?_ ?_ ?_ ?_ ?_ ?_ ?_
  · intro s hkind r
    simp [skipScalar, hkind, Except.map]
  · simp only [skipScalar, nextKind_quote, map_map]
    exact string_behind.map fun _ => a
  · intro b hb hkind
    -- a number is passed over if its run of bytes will do
    let ofRun (run : Bytes) : Except Fault α := if isSkippable run then .ok a else .error .malformed
    have hread : (fun s => (skipScalar (b :: s)).map (a, ·)) =
        fun s => (ofRun (numberRun (b :: s)).1).map (·, (numberRun (b :: s)).2) := by
      funext s
      simp only [skipScalar, nextKind_cons (isSpace_of_isNumberByte hb), hkind, ofRun]
      split <;> rfl
    rw [hread]
    exact numberRun_local hb ofRun
  · intro b hb hrole hkind
    simp only [skipScalar, nextKind_cons hb, hkind, map_map]
    exact (bool_behind hrole).map fun _ => a
  · exact Local.behind (p := .outer)
      (expectWord_local (ascii "null") (.of_last (by decide) (by decide)) a)
      (fun r h => by cases h) rfl
  · exact Local.of_fails fun s r h => by cases h
  · exact Local.of_fails fun s r h => by cases h

/-- By induction on the room for nesting. -/
theorem skip_local (room : Nat) (a : α) : Local True .outer fun s => (skip room s).map (a, ·) := by
  induction room generalizing α with
  | zero => exact skipScalar_local a
  | succ room ih =>
    -- scalars need no room
    have hscalar : ∀ {b q}, isSpace b = false → Kind.ofByte b ≠ .array → Kind.ofByte b ≠ .object →
        Place.outer.next? b = some q →
        Local True q fun s => (skip (room + 1) (b :: s)).map (a, ·) := by
      intro b q hb harray hobject hq
      have hread : (fun s => (skip (room + 1) (b :: s)).map (a, ·)) =
          fun s => (skipScalar (b :: s)).map (a, ·) := by
        funext s
        rw [skip, nextKind_cons hb]
        split
        · contradiction
        · contradiction
        · rfl
      rw [hread]
      exact (skipScalar_local a).behind (fun r h => by cases h) hq
    refine Local.of_kind (fun s => by simp [skip, skipScalar]) ?_ ?_ ?_ ?_ ?_ ?_ ?_
    · intro s hkind r
      simp [skip, skipScalar, hkind, Except.map]
    · exact hscalar rfl (by decide) (by decide) rfl
    · intro b hb hkind
      exact hscalar (isSpace_of_isNumberByte hb) (by simp [hkind]) (by simp [hkind])
        (next?_outer_of_other (role_of_isNumberByte hb))
    · intro b hb hrole hkind
      exact hscalar hb (by simp [hkind]) (by simp [hkind]) (next?_outer_of_other hrole)
    · exact hscalar rfl (by decide) (by decide) rfl
    · simp only [skip, nextKind_bracket, map_map]
      exact ((items_local (fun _ => ih ()) ()).map fun _ => a).loosen
    · simp only [skip, nextKind_brace, map_map]
      exact ((members_local (fun _ _ => ih ()) ()).map fun _ => a).loosen

@[simp] theorem skip_skipSpaces (room : Nat) (s : Bytes) :
    skip room (skipSpaces s) = skip room s := by
  cases room <;> simp [skip, skipScalar]

theorem skip_of_invalid {s : Bytes} (h : nextKind s = .invalid) (room : Nat) :
    skip room s = .error .malformed := by
  cases room <;> simp [skip, skipScalar, h]

theorem skip_behind {b : UInt8} (hq : Place.outer.next? b = some q) (room : Nat) (a : α) :
    Local True q fun s => (skip room (b :: s)).map (a, ·) := by
  refine (skip_local room a).behind (fun r h => ?_) hq
  rw [skip_of_invalid rfl] at h
  cases h

end DocTree.Json
