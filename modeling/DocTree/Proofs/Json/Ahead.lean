import DocTree.Proofs.Json.Grammar

/-!
# What lies ahead of a reader

A property of the text in front of a reader is `Lasting` if it stays true while the reader moves on:
past punctuation and blanks, and past any part whose brackets and strings are closed, as long as no
word is cut in two. Then an item or a member may assume the property of the text that it is read
from (`Lasting.items`, `Lasting.members`). That all words ahead are among those of a given text is
such a property (`lasting_words`).
-/

namespace DocTree.Json

variable {σ : Type}

/-! ## Lasting properties -/

/-- A property of the text ahead that stays true as a reader moves on. -/
structure Lasting (Q : Bytes → Prop) : Prop where
  /-- Past blanks and punctuation. -/
  cons : ∀ b s, endsWord b = true → b ≠ octet '"' → Q (b :: s) → Q s
  /-- Past a part without open brackets and strings that does not end inside a word. -/
  append : ∀ s t, Balanced s → EndsWord t → Q (s ++ t) → Q t

theorem lasting_true : Lasting fun _ => True := ⟨fun _ _ _ _ _ => trivial, fun _ _ _ _ _ => trivial⟩

/-- Blanks do not go on with a word, and neither does what ends one behind them. -/
theorem endsWord_of_skipSpaces {s rest : Bytes} {b : UInt8} (h : skipSpaces s = b :: rest)
    (hb : endsWord b = true) : EndsWord s := by
  obtain ⟨spaces, hspaces, hs⟩ := exists_spaces s
  rw [hs, h]
  exact Blank.endsWord_append hspaces (endsWord_cons hb rest)

/-- A byte that is expected comes next, behind white space. -/
theorem skipSpaces_of_expect {b : UInt8} {s rest : Bytes} (h : expect b s = .ok rest) :
    skipSpaces s = b :: rest := by
  unfold expect at h
  split at h
  · next c rest' hs =>
    split at h
    · next hc =>
      obtain rfl := Except.ok.inj h
      rw [hs, eq_of_beq hc]
    · cases h
  · cases h

namespace Lasting

variable {Q : Bytes → Prop}

/-- Past white space. -/
theorem skipSpaces (hQ : Lasting Q) {s : Bytes} (h : Q s) : Q (skipSpaces s) := by
  obtain ⟨spaces, hspaces, hs⟩ := exists_spaces s
  rw [hs] at h
  generalize Json.skipSpaces s = t at h
  clear hs
  induction spaces with
  | nil => exact h
  | cons b spaces ih =>
    obtain ⟨hb, hspaces⟩ := List.forall_mem_cons.1 hspaces
    have hquote : b ≠ octet '"' := by
      rintro rfl
      cases hb
    exact ih hspaces (hQ.cons b _ (by simp [endsWord, hb]) hquote h)

/-- Past the next byte, when it is punctuation. -/
theorem next (hQ : Lasting Q) {s rest : Bytes} {b : UInt8} (h : Q s)
    (hs : Json.skipSpaces s = b :: rest) (hb : endsWord b = true ∧ b ≠ octet '"') : Q rest :=
  hQ.cons b rest hb.1 hb.2 (hs ▸ hQ.skipSpaces h)

/-- Past what a reader uses up. -/
theorem read (hQ : Lasting Q) {α : Type} {loose : Prop} {read : Bytes → Read α}
    (hlocal : Local loose .outer read) {s rest : Bytes} {a : α} (hread : read s = .ok (a, rest))
    (hrest : EndsWord rest) (h : Q s) : Q rest := by
  obtain ⟨used, rfl, hused⟩ := hlocal s a rest hread
  exact hQ.append used rest hused.whole.1 hrest h

/-- What every item keeps, an array keeps. -/
theorem items (hQ : Lasting Q) {P : σ → Prop} {item : σ → Bytes → Read σ}
    (hlocal : ∀ acc, Local True .outer (item acc))
    (hitem : ∀ acc s acc' rest, P acc → Q s → EndsWord rest →
      item acc s = .ok (acc', rest) → P acc')
    {acc acc' : σ} {s rest : Bytes} (hacc : P acc) (hs : Q s)
    (h : Json.items item acc s = .ok (acc', rest)) : P acc' := by
  have hbracket : endsWord (octet ']') = true := rfl
  have hcomma : endsWord (octet ',') = true ∧ octet ',' ≠ octet '"' := by decide
  rcases items_eq_ok h with ⟨rfl, -⟩ | hrun
  · exact hacc
  · have hs := hQ.skipSpaces hs
    generalize Json.skipSpaces s = t at hrun hs
    clear h
    -- by induction on the run; the property is carried from one item to the next
    induction hrun with
    | last hread hclose =>
      exact hitem _ _ _ _ hacc hs (endsWord_of_skipSpaces hclose hbracket) hread
    | more hread hskip _ ih =>
      have hends := endsWord_of_skipSpaces hskip hcomma.1
      -- past the item, the white space behind it and the comma
      refine ih (hitem _ _ _ _ hacc hs hends hread) ?_
      exact hQ.next (hQ.read (hlocal _) hread hends hs) hskip hcomma

/-- What every member keeps, an object keeps. -/
theorem members (hQ : Lasting Q) {P : σ → Prop} {member : σ → Bytes → Bytes → Read σ}
    (hlocal : ∀ acc key, Local True .outer (member acc key))
    (hmember : ∀ acc key s acc' rest, P acc → Q s → EndsWord rest →
      member acc key s = .ok (acc', rest) → P acc')
    {acc acc' : σ} {s rest : Bytes} (hacc : P acc) (hs : Q s)
    (h : Json.members member acc s = .ok (acc', rest)) : P acc' := by
  have hbrace : endsWord (octet '}') = true := rfl
  have hcomma : endsWord (octet ',') = true ∧ octet ',' ≠ octet '"' := by decide
  have hcolon : endsWord (octet ':') = true ∧ octet ':' ≠ octet '"' := by decide
  -- past the key and the colon
  have hkeyed : ∀ {s key s₁ s₂}, string s = .ok (key, s₁) → expect (octet ':') s₁ = .ok s₂ → Q s →
      Q s₂ := by
    intro s key s₁ s₂ hkey hexpect hs
    have hskip := skipSpaces_of_expect hexpect
    exact hQ.next (hQ.read string_local hkey (endsWord_of_skipSpaces hskip hcolon.1) hs) hskip
      hcolon
  rcases members_eq_ok h with ⟨rfl, -⟩ | hrun
  · exact hacc
  · have hs := hQ.skipSpaces hs
    generalize Json.skipSpaces s = t at hrun hs
    clear h
    induction hrun with
    | last hkey hexpect hread hclose =>
      exact hmember _ _ _ _ _ hacc (hkeyed hkey hexpect hs) (endsWord_of_skipSpaces hclose hbrace)
        hread
    | more hkey hexpect hread hskip _ ih =>
      have hs₂ := hkeyed hkey hexpect hs
      have hends := endsWord_of_skipSpaces hskip hcomma.1
      refine ih (hmember _ _ _ _ _ hacc hs₂ hends hread) ?_
      exact hQ.next (hQ.read (hlocal _ _) hread hends hs₂) hskip hcomma

end Lasting

/-! ## The words ahead -/

/-- Is a search for words inside a string? -/
def WordState.mode : WordState → Mode
  | .outside _ => .plain
  | .quoted => .quoted
  | .escaped => .escaped

/-- Outside strings, only a quote leads into one. -/
theorem mode_of_nextPlain? {depth : Nat} {role : Role} {q : Place}
    (h : Place.nextPlain? depth role = some q) :
    q.mode = if role = .quote then .quoted else .plain := by
  fun_cases Place.nextPlain? depth role <;> cases h <;> rfl

theorem role_eq_quote_iff {b : UInt8} : Role.ofByte b = .quote ↔ b = octet '"' := by
  fun_cases Role.ofByte b <;> simp_all

/-- One byte leads the search and the place to the same side of a quote. -/
theorem exists_wordsFrom_cons {p q : Place} {b : UInt8} (h : p.next? b = some q)
    {state : WordState} (hstate : state.mode = p.mode) :
    ∃ found state', state'.mode = q.mode ∧
      ∀ t, wordsFrom state (b :: t) = found ++ wordsFrom state' t := by
  obtain ⟨depth, mode⟩ := p
  cases state with
  | outside word =>
    obtain rfl : mode = .plain := hstate.symm
    have hmode := mode_of_nextPlain? h
    by_cases hquote : b = octet '"'
    · rw [if_pos (role_eq_quote_iff.2 hquote)] at hmode
      exact ⟨wordOf word, .quoted, hmode.symm, fun t => by simp [wordsFrom, hquote]⟩
    · rw [if_neg fun hrole => hquote (role_eq_quote_iff.1 hrole)] at hmode
      -- a byte that ends the word, or one that goes on with it
      by_cases hb : endsWord b = true
      · exact ⟨wordOf word, .outside [], hmode.symm, fun t => by simp [wordsFrom, hquote, hb]⟩
      · exact ⟨[], .outside (word ++ [b]), hmode.symm, fun t => by simp [wordsFrom, hquote, hb]⟩
  | quoted =>
    obtain rfl : mode = .quoted := hstate.symm
    obtain rfl := Option.some.inj h
    by_cases hquote : b = octet '"'
    · obtain rfl := hquote
      exact ⟨[], .outside [], rfl, fun t => rfl⟩
    · by_cases hslash : b = octet '\\'
      · obtain rfl := hslash
        exact ⟨[], .escaped, rfl, fun t => rfl⟩
      · refine ⟨[], .quoted, ?_, fun t => by simp [wordsFrom, hquote, hslash]⟩
        simp [Place.nextQuoted, hquote, hslash, WordState.mode]
  -- whatever is behind a backslash stays in the string
  | escaped =>
    obtain rfl : mode = .escaped := hstate.symm
    obtain rfl := Option.some.inj h
    exact ⟨[], .quoted, rfl, fun t => rfl⟩

/-- Up to the end of a part the search goes by the part alone. By induction on the part. -/
theorem exists_wordsFrom_append {p q : Place} {s : Bytes} (h : p.after? s = some q)
    {state : WordState} (hstate : state.mode = p.mode) :
    ∃ found state', state'.mode = q.mode ∧
      ∀ t, wordsFrom state (s ++ t) = found ++ wordsFrom state' t := by
  induction s generalizing p state with
  | nil =>
    obtain rfl := Option.some.inj h
    exact ⟨[], state, hstate, fun t => rfl⟩
  | cons b s ih =>
    rw [Place.after?_cons] at h
    obtain ⟨p₁, hnext, hs⟩ := Option.bind_eq_some_iff.1 h
    obtain ⟨found, state₁, hstate₁, hcons⟩ := exists_wordsFrom_cons hnext hstate
    obtain ⟨found', state', hstate', happend⟩ := ih hs hstate₁
    refine ⟨found ++ found', state', hstate', fun t => ?_⟩
    rw [List.cons_append, hcons, happend, List.append_assoc]

/-- A balanced text has words of its own, whatever follows it. -/
theorem Balanced.exists_hasWords {s : Bytes} (h : Balanced s) : ∃ ws, HasWords s ws := by
  have hstate : (WordState.outside []).mode = Place.outer.mode := rfl
  obtain ⟨found, state, hmode, happend⟩ := exists_wordsFrom_append h hstate
  cases state with
  | outside word =>
    refine ⟨found ++ wordOf word, fun t ht => ?_⟩
    rw [words, happend t, wordsFrom_outside word ht, List.append_assoc]
  -- the search ends outside strings, as the text does
  | quoted | escaped => cases hmode

/-- That the words ahead are among those of a text lasts. -/
theorem lasting_words (text : Bytes) : Lasting fun s => ∀ w ∈ words s, w ∈ words text := by
  refine ⟨fun b s hb hquote hs => ?_, fun s t hs ht hwords w hw => ?_⟩
  · rwa [words_cons hb hquote] at hs
  · obtain ⟨ws, hws⟩ := hs.exists_hasWords
    exact hwords w (hws t ht ▸ List.mem_append_right ws hw)

end DocTree.Json
