import DocTree.Preview
import DocTree.Proofs.Text.Bytes

/-!
# Comments of the preview

An HTML tokenizer ends a comment at `-->`, but also at `--!>`, and at a `>` or `->` right behind the
opening `<!--`. The text of a comment is written with `-->` broken up and nothing else, so a comment
can end before its time. This module says exactly when (`comment_isWhole_iff`).

The tokenizer is the machine of the HTML standard with all its states. Away from the start it does
nothing but look for the first end (`seeksEnd`), and this search is followed through the text of a
comment byte by byte (`cutAtEnd_commentText`).
-/

namespace DocTree.Html

/-! ## The tokenizer -/

/-- Where a tokenizer stands in a comment. -/
inductive CommentState where
  /-- Behind the opening `<!--`. -/
  | start
  /-- Behind a dash at the start. -/
  | startDash
  /-- In the text. -/
  | text
  /-- Behind `<` in the text. -/
  | lessThan
  /-- Behind `<!` in the text. -/
  | lessThanBang
  /-- Behind `<!-` in the text. -/
  | lessThanBangDash
  /-- Behind `<!--` in the text. -/
  | lessThanBangDashDash
  /-- Behind a dash that may belong to the end. -/
  | endDash
  /-- Behind two dashes that may belong to the end. -/
  | ending
  /-- Behind `--!`. -/
  | endBang
  deriving DecidableEq, Repr

/-- What a byte does in a comment. -/
inductive CommentStep where
  /-- It leads on and adds some bytes to the comment. -/
  | next (state : CommentState) (data : Bytes)
  /-- It ends the comment. -/
  | close
  deriving DecidableEq, Repr

/-- The bytes that a byte of a comment is seen as: a zero byte is seen as U+FFFD. -/
def seenAs (b : UInt8) : Bytes := if b == 0 then [0xEF, 0xBF, 0xBD] else [b]

namespace CommentState

/-- A byte in the text, behind bytes that did not belong to an end after all. -/
def inText (held : Bytes) (b : UInt8) : CommentStep :=
  if b == octet '<' then .next .lessThan (held ++ [b])
  else if b == octet '-' then .next .endDash held
  else .next .text (held ++ seenAs b)

/-- A byte behind one dash. -/
def atEndDash (b : UInt8) : CommentStep :=
  if b == octet '-' then .next .ending [] else inText (ascii "-") b

/-- A byte behind two dashes. -/
def atEnding (b : UInt8) : CommentStep :=
  if b == octet '>' then .close
  else if b == octet '!' then .next .endBang []
  else if b == octet '-' then .next .ending (ascii "-")
  else inText (ascii "--") b

/-- What a byte does in a state. -/
def step : CommentState → UInt8 → CommentStep
  | .start, b =>
    if b == octet '-' then .next .startDash []
    else if b == octet '>' then .close
    else inText [] b
  | .startDash, b =>
    if b == octet '-' then .next .ending []
    else if b == octet '>' then .close
    else inText (ascii "-") b
  | .text, b => inText [] b
  | .lessThan, b =>
    if b == octet '!' then .next .lessThanBang [b]
    else if b == octet '<' then .next .lessThan [b]
    else inText [] b
  | .lessThanBang, b => if b == octet '-' then .next .lessThanBangDash [] else inText [] b
  | .lessThanBangDash, b =>
    if b == octet '-' then .next .lessThanBangDashDash [] else atEndDash b
  | .lessThanBangDashDash, b => atEnding b
  | .endDash, b => atEndDash b
  | .ending, b => atEnding b
  | .endBang, b =>
    if b == octet '-' then .next .endDash (ascii "--!")
    else if b == octet '>' then .close
    else inText (ascii "--!") b

/-- The bytes that are read and not yet part of the comment or of its end. -/
def held : CommentState → Bytes
  | .start | .text | .lessThan | .lessThanBang => []
  | .startDash | .lessThanBangDash | .endDash => ascii "-"
  | .lessThanBangDashDash | .ending => ascii "--"
  | .endBang => ascii "--!"

end CommentState

/-- Reads on in a comment: the comment, and what is left behind its end. A text that runs out first
has none. -/
def commentFrom : CommentState → Bytes → Bytes → Option (Bytes × Bytes)
  | _, [], _ => none
  | state, b :: rest, data =>
    match state.step b with
    | .next state more => commentFrom state rest (data ++ more)
    | .close => some (data, rest)

/-- The comment that a text begins with, and what is left behind it. -/
def comment? (s : Bytes) : Option (Bytes × Bytes) :=
  (Bytes.after? (ascii "<!--") s).bind fun rest => commentFrom .start rest []

/-! ## Ends of comments -/

/-- What stands behind the end of a comment, if the text begins with one. -/
def behindEnd? (s : Bytes) : Option Bytes :=
  (Bytes.after? (ascii "-->") s).or (Bytes.after? (ascii "--!>") s)

/-- The text in front of the first end of a comment, and what stands behind that end. -/
def cutAtEnd : Bytes → Option (Bytes × Bytes)
  | [] => none
  | b :: s =>
    match behindEnd? (b :: s) with
    | some rest => some ([], rest)
    | none => (cutAtEnd s).map fun (front, rest) => (b :: front, rest)

/-- A text as a comment shows it. -/
def seen (s : Bytes) : Bytes := s.flatMap seenAs

/-- Where no end begins, the first one is further behind. -/
theorem cutAtEnd_cons_of_none {b : UInt8} {s : Bytes} (h : behindEnd? (b :: s) = none) :
    cutAtEnd (b :: s) = (cutAtEnd s).map fun (front, rest) => (b :: front, rest) := by
  rw [cutAtEnd, h]

/-- An end begins with a dash. -/
theorem behindEnd?_of_ne {b : UInt8} (h : b ≠ octet '-') (s : Bytes) :
    behindEnd? (b :: s) = none := by
  simp [behindEnd?, ascii, Bytes.after?, h]

/-- A second dash has to follow. -/
theorem behindEnd?_dash_of_ne {b : UInt8} (h : b ≠ octet '-') (s : Bytes) :
    behindEnd? (octet '-' :: b :: s) = none := by
  simp [behindEnd?, ascii, Bytes.after?, h]

/-- Behind two dashes the end closes, or a mark follows. -/
theorem behindEnd?_dashes_of_ne {b : UInt8} (hend : b ≠ octet '>') (hbang : b ≠ octet '!')
    (s : Bytes) : behindEnd? (octet '-' :: octet '-' :: b :: s) = none := by
  simp [behindEnd?, ascii, Bytes.after?, hend, hbang]

/-- Behind the mark the end closes. -/
theorem behindEnd?_bang_of_ne {b : UInt8} (h : b ≠ octet '>') (s : Bytes) :
    behindEnd? (octet '-' :: octet '-' :: octet '!' :: b :: s) = none := by
  have hbang : octet '!' ≠ octet '>' := by decide
  simp [behindEnd?, ascii, Bytes.after?, h, hbang]

/-! ## The search for the end -/

/-- Some bytes with no end that begins in them, in front of others. -/
def Unended (held s : Bytes) : Prop :=
  cutAtEnd (held ++ s) = (cutAtEnd s).map fun (front, rest) => (held ++ front, rest)

theorem unended_nil (s : Bytes) : Unended [] s := by
  simp [Unended]

/-- One more byte in front, with no end at it. -/
theorem unended_cons {b : UInt8} {held s : Bytes} (hb : behindEnd? (b :: (held ++ s)) = none)
    (h : Unended held s) : Unended (b :: held) s := by
  rw [Unended, List.cons_append, cutAtEnd_cons_of_none hb, h, Option.map_map]
  rfl

/-- A dash is held back for nothing if another byte than a dash follows. -/
theorem unended_dash {b : UInt8} (h : b ≠ octet '-') (s : Bytes) : Unended (ascii "-") (b :: s) :=
  unended_cons (behindEnd?_dash_of_ne h s) (unended_nil _)

/-- Two dashes are held back for nothing if neither the end nor a mark nor a dash follows. -/
theorem unended_dashes {b : UInt8} (hend : b ≠ octet '>') (hbang : b ≠ octet '!')
    (h : b ≠ octet '-') (s : Bytes) : Unended (ascii "--") (b :: s) :=
  unended_cons (behindEnd?_dashes_of_ne hend hbang s) (unended_dash h s)

/-- Two dashes and a mark are held back for nothing if the end does not follow. -/
theorem unended_bang {b : UInt8} (hend : b ≠ octet '>') (s : Bytes) :
    Unended (ascii "--!") (b :: s) := by
  have hbang : octet '!' ≠ octet '-' := by decide
  exact unended_cons (behindEnd?_bang_of_ne hend s)
    (unended_cons (behindEnd?_dash_of_ne hbang _)
      (unended_cons (behindEnd?_of_ne hbang _) (unended_nil _)))

/-- Reads on behind a byte. -/
def CommentStep.follow (s data : Bytes) : CommentStep → Option (Bytes × Bytes)
  | .next state more => commentFrom state s (data ++ more)
  | .close => some (data, s)

theorem commentFrom_cons (state : CommentState) (b : UInt8) (s data : Bytes) :
    commentFrom state (b :: s) data = (state.step b).follow s data := by
  rw [commentFrom, CommentStep.follow.eq_def]

/-- The comment up to the first end in a text. -/
def upToEnd (s data : Bytes) : Option (Bytes × Bytes) :=
  (cutAtEnd s).map fun (front, rest) => (data ++ seen front, rest)

/-- Bytes held back for nothing belong to the comment. -/
theorem upToEnd_append {held s : Bytes} (hheld : seen held = held) (h : Unended held s)
    (data : Bytes) : upToEnd (held ++ s) data = upToEnd s (data ++ held) := by
  rw [upToEnd, h, upToEnd, Option.map_map]
  congr 1
  funext ⟨front, rest⟩
  simp only [Function.comp, seen, List.flatMap_append, List.append_assoc]
  rw [← seen, hheld]

/-- A byte other than a dash belongs to the comment. -/
theorem upToEnd_cons_of_ne {b : UInt8} (h : b ≠ octet '-') (s data : Bytes) :
    upToEnd (b :: s) data = upToEnd s (data ++ seenAs b) := by
  rw [upToEnd, cutAtEnd_cons_of_none (behindEnd?_of_ne h s), upToEnd, Option.map_map]
  congr 1
  funext ⟨front, rest⟩
  simp [seen]

/-- From a state on, and with so much text left, the comment goes up to the first end. -/
def SeeksEnd (state : CommentState) (s : Bytes) : Prop :=
  ∀ data, commentFrom state s data = upToEnd (state.held ++ s) data

/-- A byte that is held back, and adds nothing yet. -/
theorem SeeksEnd.follow_nil {state : CommentState} {s : Bytes} (h : SeeksEnd state s)
    (data : Bytes) :
    (CommentStep.next state []).follow s data = upToEnd (state.held ++ s) data := by
  rw [CommentStep.follow, List.append_nil]
  exact h data

section

variable {s : Bytes} (htext : SeeksEnd .text s) (hless : SeeksEnd .lessThan s)
  (hdash : SeeksEnd .endDash s)

include htext hless hdash

/-- A byte of the text, behind bytes that were held back for nothing. -/
theorem follow_inText {b : UInt8} {held : Bytes} (hheld : seen held = held)
    (h : Unended held (b :: s)) (data : Bytes) :
    (CommentState.inText held b).follow s data = upToEnd (held ++ b :: s) data := by
  rw [upToEnd_append hheld h]
  -- the byte may begin an opening or an end, and is text otherwise
  by_cases hb : b = octet '<'
  · subst hb
    rw [upToEnd_cons_of_ne (by decide), List.append_assoc]
    exact hless _
  by_cases hb' : b = octet '-'
  · subst hb'
    exact hdash _
  · have hstep : CommentState.inText held b = .next .text (held ++ seenAs b) := by
      simp [CommentState.inText, hb, hb']
    rw [upToEnd_cons_of_ne hb', List.append_assoc, hstep]
    exact htext _

/-- A byte of the text that nothing is held back in front of. -/
theorem follow_text (b : UInt8) (data : Bytes) :
    (CommentState.inText [] b).follow s data = upToEnd (b :: s) data :=
  follow_inText htext hless hdash rfl (unended_nil _) data

/-- A byte behind `<`. -/
theorem follow_lessThan (hmark : SeeksEnd .lessThanBang s) (b : UInt8) (data : Bytes) :
    (CommentState.step .lessThan b).follow s data = upToEnd (b :: s) data := by
  by_cases hb : b = octet '!'
  · subst hb
    rw [upToEnd_cons_of_ne (by decide)]
    exact hmark _
  by_cases hb' : b = octet '<'
  · subst hb'
    rw [upToEnd_cons_of_ne (by decide)]
    exact hless _
  · have hstep : CommentState.step .lessThan b = CommentState.inText [] b := by
      simp [CommentState.step, hb, hb']
    rw [hstep]
    exact follow_text htext hless hdash b data

/-- A byte behind `<!`. -/
theorem follow_lessThanBang (hheld : SeeksEnd .lessThanBangDash s) (b : UInt8) (data : Bytes) :
    (CommentState.step .lessThanBang b).follow s data = upToEnd (b :: s) data := by
  by_cases hb : b = octet '-'
  · subst hb
    exact hheld.follow_nil data
  · have hstep : CommentState.step .lessThanBang b = CommentState.inText [] b := by
      simp [CommentState.step, hb]
    rw [hstep]
    exact follow_text htext hless hdash b data

/-- A byte behind `--!`. -/
theorem follow_endBang (b : UInt8) (data : Bytes) :
    (CommentState.step .endBang b).follow s data = upToEnd (ascii "--!" ++ b :: s) data := by
  by_cases hb : b = octet '-'
  · -- the mark is text, and the dash may belong to an end again
    subst hb
    rw [upToEnd_append (by decide) (unended_bang (by decide) s)]
    exact hdash _
  by_cases hend : b = octet '>'
  · subst hend
    exact (congrArg (fun d => some (d, s)) (List.append_nil data)).symm
  · have hstep : CommentState.step .endBang b = CommentState.inText (ascii "--!") b := by
      simp [CommentState.step, hb, hend]
    rw [hstep]
    exact follow_inText htext hless hdash (by decide) (unended_bang hend s) data

/-- A byte behind one dash. -/
theorem follow_atEndDash (hending : SeeksEnd .ending s) (b : UInt8) (data : Bytes) :
    (CommentState.atEndDash b).follow s data = upToEnd (ascii "-" ++ b :: s) data := by
  by_cases hb : b = octet '-'
  · subst hb
    exact hending.follow_nil data
  · rw [CommentState.atEndDash, if_neg (by simpa using hb)]
    exact follow_inText htext hless hdash (by decide) (unended_dash hb s) data

/-- A byte behind two dashes. -/
theorem follow_atEnding (hending : SeeksEnd .ending s) (hbang : SeeksEnd .endBang s) (b : UInt8)
    (data : Bytes) :
    (CommentState.atEnding b).follow s data = upToEnd (ascii "--" ++ b :: s) data := by
  by_cases hend : b = octet '>'
  · subst hend
    exact (congrArg (fun d => some (d, s)) (List.append_nil data)).symm
  by_cases hmark : b = octet '!'
  · subst hmark
    exact hbang.follow_nil data
  by_cases hb : b = octet '-'
  · -- of three dashes the first one is text
    subst hb
    have hfirst : Unended (ascii "-") (octet '-' :: octet '-' :: s) :=
      unended_cons (behindEnd?_dashes_of_ne (by decide) (by decide) s) (unended_nil _)
    exact (hending _).trans (upToEnd_append (by decide) hfirst data).symm
  · have hstep : CommentState.atEnding b = CommentState.inText (ascii "--") b := by
      simp [CommentState.atEnding, hend, hmark, hb]
    rw [hstep]
    exact follow_inText htext hless hdash (by decide) (unended_dashes hend hmark hb s) data

end

/-- Away from the start, a comment goes up to the first end. By induction on the text, for all
states together. -/
theorem seeksEnd (s : Bytes) : ∀ state : CommentState, state ≠ .start → state ≠ .startDash →
    SeeksEnd state s := by
  induction s with
  | nil =>
    intro state hstart hdash data
    cases state with
    | start => exact absurd rfl hstart
    | startDash => exact absurd rfl hdash
    | _ => rfl
  | cons b s ih =>
    have htext : SeeksEnd .text s := ih _ (by decide) (by decide)
    have hless : SeeksEnd .lessThan s := ih _ (by decide) (by decide)
    have hdash : SeeksEnd .endDash s := ih _ (by decide) (by decide)
    have hending : SeeksEnd .ending s := ih _ (by decide) (by decide)
    have hbang : SeeksEnd .endBang s := ih _ (by decide) (by decide)
    intro state hstart hstartDash data
    rw [commentFrom_cons]
    cases state with
    | start => exact absurd rfl hstart
    | startDash => exact absurd rfl hstartDash
    | text => exact follow_text htext hless hdash b data
    | lessThan => exact follow_lessThan htext hless hdash (ih _ (by decide) (by decide)) b data
    | lessThanBang =>
      exact follow_lessThanBang htext hless hdash (ih _ (by decide) (by decide)) b data
    | lessThanBangDash =>
      -- a second dash keeps the opening in mind, which makes no difference for the end
      by_cases hb : b = octet '-'
      · subst hb
        exact (ih .lessThanBangDashDash (by decide) (by decide)).follow_nil data
      · have hstep : CommentState.step .lessThanBangDash b = CommentState.atEndDash b := by
          simp [CommentState.step, hb]
        rw [hstep]
        exact follow_atEndDash htext hless hdash hending b data
    | lessThanBangDashDash => exact follow_atEnding htext hless hdash hending hbang b data
    | endDash => exact follow_atEndDash htext hless hdash hending b data
    | ending => exact follow_atEnding htext hless hdash hending hbang b data
    | endBang => exact follow_endBang htext hless hdash b data

/-- At the start, a comment is over at once behind `>` or `->`; otherwise it goes up to the first
end. -/
theorem commentFrom_start {s : Bytes} (hend : ¬ ascii ">" <+: s) (hdash : ¬ ascii "->" <+: s)
    (data : Bytes) : commentFrom .start s data = upToEnd s data := by
  refine Eq.trans ?_ (seeksEnd s .text (by decide) (by decide) data)
  cases s with
  | nil => rfl
  | cons b s =>
    have hb : b ≠ octet '>' := by
      rintro rfl
      exact hend ⟨s, rfl⟩
    by_cases hdashed : b = octet '-'
    · subst hdashed
      -- behind a dash at the start, only `>` is taken differently
      cases s with
      | nil => rfl
      | cons c s =>
        have hc : c ≠ octet '>' := by
          rintro rfl
          exact hdash ⟨s, rfl⟩
        have hstep : CommentState.step .startDash c = CommentState.step .endDash c := by
          simp [CommentState.step, CommentState.atEndDash, hc]
        calc commentFrom .start (octet '-' :: c :: s) data
            = (CommentState.step .startDash c).follow s (data ++ []) :=
              commentFrom_cons .startDash c s _
          _ = (CommentState.step .endDash c).follow s (data ++ []) := by rw [hstep]
          _ = commentFrom .text (octet '-' :: c :: s) data := (commentFrom_cons .endDash c s _).symm
    · have hstep : CommentState.step .start b = CommentState.step .text b := by
        simp [CommentState.step, hb, hdashed]
      rw [commentFrom_cons, commentFrom_cons, hstep]

/-! ## The text of a comment -/

theorem commentText_cons {b : UInt8} {v : Bytes} (h : ¬ ascii "-->" <+: b :: v) :
    commentText (b :: v) = b :: commentText v :=
  Bytes.replaceAll_cons h _

/-- An end in the value is broken up. -/
theorem commentText_end (v : Bytes) :
    commentText (ascii "-->" ++ v) = ascii "--&gt;" ++ commentText v :=
  Bytes.replaceAll_append (by decide) _ v

/-- Induction over a text, with what is replaced taken as one. -/
@[elab_as_elim]
theorem commentInduction {motive : Bytes → Prop} (nil : motive [])
    (ending : ∀ v, motive v → motive (ascii "-->" ++ v))
    (cons : ∀ b v, ¬ ascii "-->" <+: b :: v → motive v → motive (b :: v)) (v : Bytes) :
    motive v := by
  induction hn : v.length using Nat.strongRecOn generalizing v with
  | ind n ih =>
    cases v with
    | nil => exact nil
    | cons b v =>
      -- what is replaced is three bytes long, so the rest is shorter in either case
      by_cases h : ascii "-->" <+: b :: v
      · obtain ⟨w, hw⟩ := h
        rw [← hw] at hn ⊢
        refine ending w (ih w.length ?_ w rfl)
        simp [ascii] at hn
        omega
      · exact cons b v h (ih v.length (by simp at hn; omega) v rfl)

/-- In front of the end of a comment, its text begins with the first byte of the value, or there is
only the end. -/
theorem exists_head_commentText (v rest : Bytes) :
    ∃ c s, commentText v ++ (ascii "-->" ++ rest) = c :: s ∧
      (c = octet '-' ∧ v = [] ∨ ∃ v', v = c :: v') := by
  cases v using commentInduction with
  | nil => exact ⟨_, _, rfl, Or.inl ⟨rfl, rfl⟩⟩
  | ending v =>
    rw [commentText_end]
    exact ⟨_, _, rfl, Or.inr ⟨_, rfl⟩⟩
  | cons b v h =>
    rw [commentText_cons h]
    exact ⟨_, _, rfl, Or.inr ⟨_, rfl⟩⟩

/-- Where the value has no end, its text in front of the end of the comment has none. -/
theorem behindEnd?_commentText {b : UInt8} {v : Bytes} (hend : ¬ ascii "-->" <+: b :: v)
    (hbang : ¬ ascii "--!>" <+: b :: v) (rest : Bytes) :
    behindEnd? (b :: (commentText v ++ (ascii "-->" ++ rest))) = none := by
  by_cases hb : b = octet '-'
  case neg => exact behindEnd?_of_ne hb _
  subst hb
  cases v using commentInduction with
  | nil => exact behindEnd?_dashes_of_ne (by decide) (by decide) _
  | ending v =>
    rw [commentText_end]
    exact behindEnd?_dashes_of_ne (by decide) (by decide) _
  | cons c v hc =>
    rw [commentText_cons hc]
    by_cases hdash : c = octet '-'
    case neg => exact behindEnd?_dash_of_ne hdash _
    subst hdash
    -- behind two dashes, what follows is the first byte of the value or the end of the comment
    obtain ⟨d, s, hs, hd⟩ := exists_head_commentText v rest
    have hne : d ≠ octet '>' := by
      rintro rfl
      rcases hd with ⟨hd, -⟩ | ⟨v', rfl⟩
      · exact absurd hd (by decide)
      · exact hend ⟨v', rfl⟩
    by_cases hmark : d = octet '!'
    case neg =>
      rw [List.cons_append, hs]
      exact behindEnd?_dashes_of_ne hne hmark s
    -- behind `--!` it is the byte behind the mark that decides
    subst hmark
    obtain ⟨v', rfl⟩ := hd.resolve_left fun h => absurd h.1 (by decide)
    have hplain : ¬ ascii "-->" <+: octet '!' :: v' := by
      rintro ⟨w, hw⟩
      exact absurd (List.cons.inj hw).1 (by decide)
    obtain ⟨e, s', hs', he⟩ := exists_head_commentText v' rest
    have hne' : e ≠ octet '>' := by
      rintro rfl
      rcases he with ⟨he, -⟩ | ⟨v'', rfl⟩
      · exact absurd he (by decide)
      · exact hbang ⟨v'', rfl⟩
    rw [commentText_cons hplain, List.cons_append, List.cons_append, hs']
    exact behindEnd?_bang_of_ne hne' s'

/-- An end with a mark is left as it is. -/
theorem commentText_bang (w : Bytes) :
    commentText (ascii "--!>" ++ w) = ascii "--!>" ++ commentText w := by
  simp [ascii, commentText_cons, octet]

/-- An end without a mark is no part of one with a mark. -/
theorem bang_infix_end_iff {v : Bytes} :
    ascii "--!>" <:+: ascii "-->" ++ v ↔ ascii "--!>" <:+: v := by
  simp [ascii, List.infix_cons_iff, octet]

/-- What an end is replaced by holds no end. -/
theorem unended_escaped (s : Bytes) : Unended (ascii "--&gt;") s :=
  unended_cons rfl (unended_cons rfl (unended_cons rfl (unended_cons rfl (unended_cons rfl
    (unended_cons rfl (unended_nil s))))))

/-- The first end behind the beginning of a comment is that of the comment, unless its value has
`--!>` in it. By induction on the value. -/
theorem cutAtEnd_commentText (v rest : Bytes) :
    (¬ ascii "--!>" <:+: v →
      cutAtEnd (commentText v ++ (ascii "-->" ++ rest)) = some (commentText v, rest)) ∧
    (ascii "--!>" <:+: v → ∃ front part, part <:+ commentText v ∧
      cutAtEnd (commentText v ++ (ascii "-->" ++ rest)) =
        some (front, part ++ (ascii "-->" ++ rest))) := by
  induction v using commentInduction with
  | nil => exact ⟨fun _ => rfl, fun h => absurd h (by decide)⟩
  | ending v ih =>
    -- what stands for the end of the value holds none
    rw [bang_infix_end_iff, commentText_end, List.append_assoc, unended_escaped]
    refine ⟨fun h => ?_, fun h => ?_⟩
    · rw [ih.1 h]
      rfl
    · obtain ⟨front, part, hpart, hcut⟩ := ih.2 h
      rw [hcut]
      exact ⟨_, part, hpart.trans (List.suffix_append _ _), rfl⟩
  | cons b v hb ih =>
    by_cases hbang : ascii "--!>" <+: b :: v
    · -- the value has an end here, and what follows it is left over
      refine ⟨fun h => absurd hbang.isInfix h, fun _ => ?_⟩
      obtain ⟨w, hw⟩ := hbang
      rw [← hw, commentText_bang]
      exact ⟨[], commentText w, List.suffix_append _ _, rfl⟩
    · rw [commentText_cons hb, List.cons_append,
        cutAtEnd_cons_of_none (behindEnd?_commentText hb hbang rest), List.infix_cons_iff]
      refine ⟨fun h => ?_, fun h => ?_⟩
      · rw [ih.1 fun hin => h (Or.inr hin)]
        rfl
      · obtain ⟨front, part, hpart, hcut⟩ := ih.2 (h.resolve_left hbang)
        rw [hcut]
        exact ⟨_, part, hpart.trans (List.suffix_cons b _), rfl⟩

/-! ## Comments as a whole -/

/-- A value that a comment does not hold together: it begins as a comment may end that has just
begun, or has an end of a comment in it that is not broken up. -/
def EndsEarly (v : Bytes) : Prop := ascii ">" <+: v ∨ ascii "->" <+: v ∨ ascii "--!>" <:+: v

instance : DecidablePred EndsEarly := fun v =>
  inferInstanceAs (Decidable (ascii ">" <+: v ∨ ascii "->" <+: v ∨ ascii "--!>" <:+: v))

theorem textsBefore_html_comment (v rest : Bytes) :
    textsBefore (Node.html (.comment v)) rest =
      ascii "<!--" ++ (commentText v ++ (ascii "-->" ++ rest)) := by
  simp [Node.html, textsBefore, textBefore]

/-- A comment of the preview is read from behind its opening. -/
theorem comment?_html (v rest : Bytes) :
    comment? (textsBefore (Node.html (.comment v)) rest) =
      commentFrom .start (commentText v ++ (ascii "-->" ++ rest)) [] := by
  rw [textsBefore_html_comment, comment?, Bytes.after?_append, Option.bind_some]

/-- What a comment begins with is what its value begins with, the end apart. -/
theorem prefix_commentText_iff (v rest : Bytes) :
    (ascii ">" <+: commentText v ++ (ascii "-->" ++ rest) ↔ ascii ">" <+: v) ∧
      (ascii "->" <+: commentText v ++ (ascii "-->" ++ rest) ↔ ascii "->" <+: v) := by
  cases v using commentInduction with
  | nil => simp [ascii, commentText, Bytes.replaceAll, Bytes.replaceFrom, octet]
  | ending v =>
    rw [commentText_end]
    simp [ascii, octet]
  | cons b v h =>
    obtain ⟨c, s, hs, hc⟩ := exists_head_commentText v rest
    rw [commentText_cons h, List.cons_append, hs]
    rcases hc with ⟨rfl, rfl⟩ | ⟨v', rfl⟩
    · simp [ascii, octet]
    · simp [ascii]

/-- A value that ends early has a part that is left over. -/
theorem comment?_of_endsEarly {v : Bytes} (h : EndsEarly v) (rest : Bytes) :
    ∃ data part, part <:+ commentText v ∧
      comment? (textsBefore (Node.html (.comment v)) rest) =
        some (data, part ++ (ascii "-->" ++ rest)) := by
  rw [comment?_html]
  by_cases hend : ascii ">" <+: v
  · obtain ⟨w, rfl⟩ := hend
    have htext : commentText (ascii ">" ++ w) = ascii ">" ++ commentText w := by
      simp [ascii, commentText_cons, octet]
    rw [htext]
    exact ⟨[], commentText w, List.suffix_append _ _, rfl⟩
  by_cases hdash : ascii "->" <+: v
  · obtain ⟨w, rfl⟩ := hdash
    have htext : commentText (ascii "->" ++ w) = ascii "->" ++ commentText w := by
      simp [ascii, commentText_cons, octet]
    rw [htext]
    exact ⟨[], commentText w, List.suffix_append _ _, rfl⟩
  · -- the comment does not end at once, so it goes up to the first end, which is that of the value
    obtain ⟨hfirst, hsecond⟩ := prefix_commentText_iff v rest
    have hbang : ascii "--!>" <:+: v := (h.resolve_left hend).resolve_left hdash
    obtain ⟨front, part, hpart, hcut⟩ := (cutAtEnd_commentText v rest).2 hbang
    rw [commentFrom_start (mt hfirst.1 hend) (mt hsecond.1 hdash), upToEnd, hcut]
    exact ⟨_, part, hpart, rfl⟩

/-- **When a comment is one comment.** Read as HTML, a comment of the preview ends where it should
exactly when its value neither begins with `>` or `->` nor has `--!>` in it; nothing of its text is
lost then. Otherwise the comment ends inside its own text, and the rest of that text is read as
markup. -/
theorem comment_isWhole_iff (v rest : Bytes) :
    (comment? (textsBefore (Node.html (.comment v)) rest) = some (seen (commentText v), rest) ↔
      ¬ EndsEarly v) ∧
    (EndsEarly v → ∃ data part, part <:+ commentText v ∧
      comment? (textsBefore (Node.html (.comment v)) rest) =
        some (data, part ++ (ascii "-->" ++ rest))) := by
  refine ⟨⟨fun h hends => ?_, fun h => ?_⟩, fun h => comment?_of_endsEarly h rest⟩
  · -- what is left behind an early end is longer than what follows the comment
    obtain ⟨data, part, -, hleft⟩ := comment?_of_endsEarly hends rest
    rw [h] at hleft
    have hlength := congrArg List.length (Prod.mk.inj (Option.some.inj hleft)).2
    simp [ascii] at hlength
    omega
  · obtain ⟨hend, hdash, hbang⟩ : ¬ ascii ">" <+: v ∧ ¬ ascii "->" <+: v ∧
      ¬ ascii "--!>" <:+: v := by
      simpa [EndsEarly] using h
    obtain ⟨hfirst, hsecond⟩ := prefix_commentText_iff v rest
    rw [comment?_html, commentFrom_start (mt hfirst.1 hend) (mt hsecond.1 hdash), upToEnd,
      (cutAtEnd_commentText v rest).1 hbang]
    rfl

/-- An end with an exclamation mark is not broken up: behind it the value is text of the page. -/
theorem comment_endsEarly_bang :
    comment? (Document.render ⟨[.comment (ascii "a --!> b")]⟩) = some (ascii "a ", ascii " b-->") ∧
      comment? (Document.render ⟨[.comment (ascii "a --> b")]⟩) =
        some (ascii "a --&gt; b", []) := by
  decide +kernel

end DocTree.Html
