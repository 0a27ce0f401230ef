import DocTree.Files.Path
import DocTree.Proofs.Text.Bytes

/-!
# Clean paths

An absolute path and the way of names from the root determine each other: `ofWay` writes a way as a
path, and `Path.names` reads it back (`names_ofWay`). The operations on paths are operations on
ways: `child` adds a name at the end, `parent` drops it and `base` gives it. Cleaning an absolute
path leaves a path of this form (`clean_eq_ofWay`).

A relative path may begin with `..`, which no cleaning removes. Cleaning any path leaves its names
(`names_clean`), so cleaning twice is cleaning once (`clean_clean`).
-/

namespace DocTree.Path

/-! ## Ways -/

/-- A text that can be the name of an entry in a directory. -/
structure IsName (name : Bytes) : Prop where
  ne_nil : name ≠ []
  slash_notMem : slash ∉ name
  ne_dot : name ≠ dot
  ne_dotDot : name ≠ dotDot

instance (name : Bytes) : Decidable (IsName name) :=
  decidable_of_iff (name ≠ [] ∧ slash ∉ name ∧ name ≠ dot ∧ name ≠ dotDot)
    ⟨fun ⟨h₁, h₂, h₃, h₄⟩ => ⟨h₁, h₂, h₃, h₄⟩, fun ⟨h₁, h₂, h₃, h₄⟩ => ⟨h₁, h₂, h₃, h₄⟩⟩

/-- A list of names, each of which can be the name of an entry. -/
def IsWay (way : List Bytes) : Prop := ∀ name ∈ way, IsName name

instance (way : List Bytes) : Decidable (IsWay way) :=
  inferInstanceAs (Decidable (∀ name ∈ way, IsName name))

theorem IsWay.nil : IsWay [] := by simp [IsWay]

theorem isWay_append {way way' : List Bytes} : IsWay (way ++ way') ↔ IsWay way ∧ IsWay way' := by
  simp only [IsWay, List.mem_append]
  constructor
  · intro h
    exact ⟨fun n hn => h n (.inl hn), fun n hn => h n (.inr hn)⟩
  · rintro ⟨h, h'⟩ n (hn | hn)
    · exact h n hn
    · exact h' n hn

theorem isWay_singleton {name : Bytes} : IsWay [name] ↔ IsName name := by simp [IsWay]

/-- The absolute path of a way from the root. -/
def ofWay (way : List Bytes) : Bytes := ofNames way.reverse

/-- The path of a way is a slash and the names with slashes between them. -/
theorem ofWay_eq (way : List Bytes) : ofWay way = slash :: Bytes.join [slash] way := by
  simp [ofWay, ofNames]

@[simp] theorem isAbsolute_cons_slash (rest : Bytes) : isAbsolute (slash :: rest) = true := by
  simp [isAbsolute]

@[simp] theorem isAbsolute_ofWay (way : List Bytes) : isAbsolute (ofWay way) = true := by
  simp [ofWay_eq]

theorem ofWay_ne_nil (way : List Bytes) : ofWay way ≠ [] := by simp [ofWay_eq]

/-- Every name of a way stands behind a slash. -/
theorem ofWay_concat (way : List Bytes) (name : Bytes) :
    ofWay (way ++ [name]) = way.flatMap (slash :: ·) ++ slash :: name := by
  -- the slash in front goes to the first name, and each slash between to the name behind it
  have hjoin : ∀ way : List Bytes, way ≠ [] →
      slash :: Bytes.join [slash] way = way.flatMap (slash :: ·) := by
    intro way hne
    induction way with
    | nil => exact absurd rfl hne
    | cons part way ih =>
      cases way with
      | nil => simp
      | cons next way =>
        rw [Bytes.join_cons_cons, List.flatMap_cons, ← ih (by simp)]
        simp
  rw [ofWay_eq, hjoin _ (by simp)]
  simp

/-! ## Parts -/

/-- The parts of a path are what stands between its slashes. By induction on the path. -/
theorem slash_notMem_of_mem_parts {path part : Bytes} (h : part ∈ parts path) : slash ∉ part := by
  unfold parts at h
  induction path generalizing part with
  | nil =>
    obtain rfl : part = [] := by simpa using h
    simp
  | cons b path ih =>
    rw [List.splitOn_cons_eq_if_modifyHead] at h
    split at h
    · -- a slash ends an empty part
      rcases List.mem_cons.1 h with rfl | h
      · simp
      · exact ih h
    · next hb =>
      -- any other byte goes to the first part
      cases hs : path.splitOn slash with
      | nil => exact absurd hs (List.splitOn_ne_nil slash path)
      | cons first others =>
        rw [hs] at h ih
        rcases List.mem_cons.1 h with rfl | h
        · have hfirst : slash ∉ first := ih List.mem_cons_self
          have hne : slash ≠ b := by
            rintro rfl
            simp at hb
          simp [hfirst, hne]
        · exact ih (List.mem_cons_of_mem first h)

/-- A path has a last part, which may be empty. -/
theorem exists_parts_eq_concat (path : Bytes) : ∃ front last, parts path = front ++ [last] := by
  rcases List.eq_nil_or_concat (parts path) with hnil | ⟨front, last, hparts⟩
  · exact absurd hnil (List.splitOn_ne_nil slash path)
  · exact ⟨front, last, hparts.trans List.concat_eq_append⟩

/-- A slash divides the parts in front of it from those behind it. -/
theorem parts_append_slash (path path' : Bytes) :
    parts (path ++ slash :: path') = parts path ++ parts path' :=
  List.splitOn_append_cons_self path path'

@[simp] theorem parts_nil : parts [] = [[]] := rfl

theorem parts_of_isName {name : Bytes} (h : IsName name) : parts name = [name] :=
  List.splitOn_eq_singleton h.slash_notMem

/-- Names with a slash in front of each are the parts behind an empty first one. -/
theorem parts_flatMap {way : List Bytes} (h : IsWay way) :
    parts (way.flatMap (slash :: ·)) = [] :: way := by
  induction way with
  | nil => rfl
  | cons name way ih =>
    have hname : IsName name := h name List.mem_cons_self
    have hway : IsWay way := fun n hn => h n (List.mem_cons_of_mem name hn)
    have hsplit : (name :: way).flatMap (slash :: ·) =
        [] ++ slash :: (name ++ way.flatMap (slash :: ·)) := by
      simp
    rw [hsplit, parts_append_slash]
    cases way with
    | nil => simp [parts_of_isName hname]
    | cons next way =>
      -- the first name ends at the slash of the next one
      have hnext := ih hway
      rw [List.flatMap_cons, List.cons_append, show slash :: (next ++ way.flatMap (slash :: ·)) =
        [] ++ slash :: (next ++ way.flatMap (slash :: ·)) from rfl, parts_append_slash] at hnext
      rw [List.flatMap_cons, List.cons_append, parts_append_slash, parts_of_isName hname]
      simpa using hnext

/-! ## Names -/

/-- A name is added to the names. -/
theorem push_of_isName {name : Bytes} (h : IsName name) (absolute : Bool) (names : List Bytes) :
    push absolute names name = name :: names := by
  simp [push, h.ne_nil, h.ne_dot, h.ne_dotDot]

/-- An empty part or a dot adds nothing. -/
theorem push_of_skipped {part : Bytes} (h : (part.isEmpty || part == dot) = true) (absolute : Bool)
    (names : List Bytes) : push absolute names part = names := by
  simp only [push, h, if_true]

theorem push_nil (absolute : Bool) (names : List Bytes) : push absolute names [] = names :=
  push_of_skipped rfl absolute names

/-- Going up drops a name. Above the root there is nothing. -/
theorem push_dotDot {names : List Bytes} (h : IsWay names) :
    push true names dotDot = names.tail := by
  have hskip : ¬ (dotDot.isEmpty || dotDot == dot) = true := by decide
  cases names with
  | nil => rfl
  | cons last before =>
    have hlast : IsName last := h last List.mem_cons_self
    rw [push.eq_def, if_neg hskip, if_pos (by decide)]
    simp [hlast.ne_dotDot]

/-- A part that is neither empty nor made of dots is a name. -/
theorem isName_of_not_skipped {part : Bytes} (hslash : slash ∉ part)
    (hskip : ¬ (part.isEmpty || part == dot) = true) (hdots : ¬ (part == dotDot) = true) :
    IsName part := by
  simp only [Bool.or_eq_true, List.isEmpty_iff, beq_iff_eq, not_or] at hskip hdots
  exact ⟨hskip.1, hslash, hskip.2, hdots⟩

/-- Names are added one by one, and the last one comes to stand first. -/
theorem foldl_push {way : List Bytes} (h : IsWay way) (absolute : Bool) (names : List Bytes) :
    way.foldl (push absolute) names = way.reverse ++ names := by
  induction way generalizing names with
  | nil => rfl
  | cons name way ih =>
    have hway : IsWay way := fun n hn => h n (List.mem_cons_of_mem name hn)
    rw [List.foldl_cons, push_of_isName (h name List.mem_cons_self), ih hway]
    simp

/-- Cleaning a way of parts from the root leaves only names. -/
theorem isWay_push {names : List Bytes} (h : IsWay names) {part : Bytes} (hpart : slash ∉ part) :
    IsWay (push true names part) := by
  by_cases hskip : (part.isEmpty || part == dot) = true
  · rwa [push_of_skipped hskip]
  by_cases hdots : (part == dotDot) = true
  · -- going up leaves names that were there
    rw [eq_of_beq hdots, push_dotDot h]
    exact fun n hn => h n (List.mem_of_mem_tail hn)
  · have hname := isName_of_not_skipped hpart hskip hdots
    rw [push_of_isName hname]
    exact List.forall_mem_cons.2 ⟨hname, h⟩

/-- What holds of one part (`isWay_push`) holds of all parts, by induction on them. -/
theorem isWay_foldl_push {parts names : List Bytes} (h : IsWay names)
    (hparts : ∀ part ∈ parts, slash ∉ part) : IsWay (parts.foldl (push true) names) := by
  induction parts generalizing names with
  | nil => exact h
  | cons part parts ih =>
    obtain ⟨hpart, hparts⟩ := List.forall_mem_cons.1 hparts
    exact ih (isWay_push h hpart) hparts

theorem isWay_reverse {way : List Bytes} : IsWay way.reverse ↔ IsWay way := by simp [IsWay]

/-- The names of an absolute path are a way. -/
theorem isWay_names {path : Bytes} (h : isAbsolute path = true) : IsWay (names path).reverse := by
  rw [isWay_reverse, names, h]
  exact isWay_foldl_push .nil fun part => slash_notMem_of_mem_parts

/-- The parts of the path of a way are its names, behind an empty part for the leading slash. -/
theorem parts_ofWay {way : List Bytes} (h : IsWay way) (hne : way ≠ []) :
    parts (ofWay way) = [] :: way := by
  obtain ⟨way, name, rfl⟩ := (List.eq_nil_or_concat way).resolve_left hne
  rw [List.concat_eq_append] at h ⊢
  rw [ofWay_concat, ← parts_flatMap h]
  simp

/-- A way is read back from its path. -/
@[simp] theorem names_ofWay {way : List Bytes} (h : IsWay way) :
    names (ofWay way) = way.reverse := by
  rw [names, isAbsolute_ofWay]
  by_cases hne : way = []
  · subst hne
    rfl
  · rw [parts_ofWay h hne, List.foldl_cons, push_nil, foldl_push h]
    simp

/-- Different ways have different paths. -/
theorem ofWay_injective {way way' : List Bytes} (h : IsWay way) (h' : IsWay way')
    (heq : ofWay way = ofWay way') : way = way' := by
  have hnames := congrArg names heq
  rwa [names_ofWay h, names_ofWay h', List.reverse_inj] at hnames

/-! ## Operations -/

/-- A clean absolute path is the path of a way. -/
theorem clean_eq_ofWay {path : Bytes} (h : isAbsolute path = true) :
    clean path = ofWay (names path).reverse := by
  simp [clean, h, ofWay]

theorem clean_ofWay {way : List Bytes} (h : IsWay way) : clean (ofWay way) = ofWay way := by
  rw [clean_eq_ofWay (isAbsolute_ofWay way), names_ofWay h, List.reverse_reverse]

theorem ne_nil_of_isAbsolute {path : Bytes} (h : isAbsolute path = true) : path ≠ [] := by
  rintro rfl
  cases h

/-- The first byte of a path tells whether it is absolute. -/
theorem isAbsolute_append_of_ne_nil {path : Bytes} (h : path ≠ []) (rest : Bytes) :
    isAbsolute (path ++ rest) = isAbsolute path := by
  cases path with
  | nil => exact absurd rfl h
  | cons b path => rfl

theorem isAbsolute_append {path : Bytes} (h : isAbsolute path = true) (rest : Bytes) :
    isAbsolute (path ++ rest) = true := by
  rw [isAbsolute_append_of_ne_nil (ne_nil_of_isAbsolute h), h]

/-- The path of a child is the path of the directory, a slash and the name, made clean. -/
theorem child_eq_clean {directory name : Bytes} (hdirectory : directory ≠ []) (hname : name ≠ []) :
    child directory name = clean (directory ++ slash :: name) := by
  simp [child, join, hdirectory, hname, Bytes.join_cons_cons]

/-- What is named from an absolute directory is an absolute path made clean. -/
theorem exists_child_eq_clean {directory : Bytes} (h : isAbsolute directory = true) (path : Bytes) :
    ∃ p, isAbsolute p = true ∧ child directory path = clean p := by
  by_cases hpath : path = []
  · subst hpath
    exact ⟨directory, h, by simp [child, join, ne_nil_of_isAbsolute h]⟩
  · exact ⟨_, isAbsolute_append h _, child_eq_clean (ne_nil_of_isAbsolute h) hpath⟩

/-- A name behind a path is added to the names of the path. -/
theorem names_append_name {path : Bytes} (h : path ≠ []) {name : Bytes} (hname : IsName name) :
    names (path ++ slash :: name) = name :: names path := by
  rw [names, isAbsolute_append_of_ne_nil h, parts_append_slash, List.foldl_append,
    parts_of_isName hname, List.foldl_cons, List.foldl_nil, push_of_isName hname, names]

/-- Names behind an absolute path lead on from where it leads. -/
theorem join_of_isAbsolute {path : Bytes} (h : isAbsolute path = true) {way : List Bytes}
    (hway : IsWay way) : join (path :: way) = ofWay ((names path).reverse ++ way) := by
  have hnames : ∀ path, isAbsolute path = true →
      isAbsolute (Bytes.join [slash] (path :: way)) = true ∧
        names (Bytes.join [slash] (path :: way)) = way.reverse ++ names path := by
    induction way with
    | nil => simp
    | cons name way ih =>
      intro path hpath
      obtain ⟨hname, hway⟩ := List.forall_mem_cons.1 hway
      -- the first name goes to the path, and the induction to the rest
      have hjoin : Bytes.join [slash] (path :: name :: way) =
          Bytes.join [slash] ((path ++ slash :: name) :: way) := by
        cases way with
        | nil => simp [Bytes.join_cons_cons]
        | cons next way => simp [Bytes.join_cons_cons]
      obtain ⟨habs, hrest⟩ := ih hway (path ++ slash :: name) (isAbsolute_append hpath _)
      rw [hjoin]
      exact ⟨habs, by rw [hrest, names_append_name (ne_nil_of_isAbsolute hpath) hname]; simp⟩
  have hfilter : (path :: way).filter (!·.isEmpty) = path :: way := by
    refine List.filter_eq_self.2 fun part hpart => ?_
    rcases List.mem_cons.1 hpart with rfl | hpart
    · simp [ne_nil_of_isAbsolute h]
    · simp [(hway part hpart).ne_nil]
  obtain ⟨habs, hall⟩ := hnames path h
  rw [join, hfilter]
  simp only
  rw [clean_eq_ofWay habs, hall]
  simp

/-- A name is added to the way of an absolute path. -/
theorem child_of_isAbsolute {path : Bytes} (h : isAbsolute path = true) {name : Bytes}
    (hname : IsName name) : child path name = ofWay ((names path).reverse ++ [name]) :=
  join_of_isAbsolute h (isWay_singleton.2 hname)

theorem child_ofWay {way : List Bytes} (h : IsWay way) {name : Bytes} (hname : IsName name) :
    child (ofWay way) name = ofWay (way ++ [name]) := by
  rw [child_of_isAbsolute (isAbsolute_ofWay way) hname, names_ofWay h, List.reverse_reverse]

theorem IsName.bne_slash {name : Bytes} (h : IsName name) :
    ∀ b ∈ name.reverse, (b != slash) = true := by
  intro b hb
  rw [bne_iff_ne]
  rintro rfl
  exact h.slash_notMem (List.mem_reverse.1 hb)

/-- The path of a way other than the root does not end in a slash. -/
theorem getLast?_ofWay_concat {way : List Bytes} {name : Bytes} (hname : IsName name) :
    (ofWay (way ++ [name])).getLast? ≠ some slash := by
  obtain ⟨front, last, rfl⟩ := (List.eq_nil_or_concat name).resolve_left hname.ne_nil
  rw [List.concat_eq_append] at hname ⊢
  rw [ofWay_concat, List.append_cons, ← List.append_assoc, List.getLast?_concat]
  intro heq
  exact hname.slash_notMem (by simp [Option.some.inj heq])

/-- Behind a clean absolute path a name is written as it is found. -/
theorem beneath_ofWay {way : List Bytes} (h : IsWay way) {name : Bytes} (hname : IsName name) :
    beneath (ofWay way) name = child (ofWay way) name := by
  rw [child_ofWay h hname, beneath]
  rcases List.eq_nil_or_concat way with rfl | ⟨front, last, rfl⟩
  · -- the root ends in a slash of its own
    rw [ofWay_concat]
    rfl
  · rw [List.concat_eq_append] at h ⊢
    have hlast := isWay_singleton.1 (isWay_append.1 h).2
    rw [if_neg (by simpa using getLast?_ofWay_concat hlast), ofWay_concat, ofWay_concat]
    simp

/-- What stands in front of the last name of a path: nothing, or a text that ends in a slash. -/
def IsFront (front : Bytes) : Prop := front = [] ∨ ∃ f, front = f ++ [slash]

/-- The last name of a path, read from its end, goes up to the slash in front of it. -/
theorem reverse_cut {front : Bytes} (hfront : IsFront front) {name : Bytes} (hname : IsName name) :
    (front ++ name).reverse.takeWhile (· != slash) = name.reverse ∧
      (front ++ name).reverse.dropWhile (· != slash) = front.reverse := by
  rw [List.reverse_append, List.takeWhile_append_of_pos hname.bne_slash,
    List.dropWhile_append_of_pos hname.bne_slash]
  rcases hfront with rfl | ⟨f, rfl⟩ <;> simp

theorem base_append {front : Bytes} (hfront : IsFront front) {name : Bytes} (hname : IsName name) :
    base (front ++ name) = name := by
  obtain ⟨b, rest, hb⟩ := List.exists_cons_of_ne_nil (List.reverse_ne_nil_iff.2 hname.ne_nil)
  -- no slash is to be dropped from the end, since the path ends in a name
  have hslash : (b == slash) = false := by
    simpa using hname.bne_slash b (by simp [hb])
  have hdrop : (front ++ name).reverse.dropWhile (· == slash) = (front ++ name).reverse := by
    rw [List.reverse_append, hb, List.cons_append, List.dropWhile_cons, hslash]
    rfl
  unfold base
  rw [hdrop]
  cases hpath : (front ++ name).reverse with
  | nil =>
    rw [List.reverse_append, hb] at hpath
    cases hpath
  | cons c path =>
    simp only
    rw [← hpath, (reverse_cut hfront hname).1, List.reverse_reverse]

/-- What stands in front of the last name, made clean, is the parent. -/
theorem parent_append {front : Bytes} (hfront : IsFront front) {name : Bytes}
    (hname : IsName name) : parent (front ++ name) = clean front := by
  rw [parent, (reverse_cut hfront hname).2, List.reverse_reverse]

theorem ofWay_concat_eq_append (way : List Bytes) (name : Bytes) :
    ofWay (way ++ [name]) = (way.flatMap (slash :: ·) ++ [slash]) ++ name := by
  simp [ofWay_concat]

/-- The base of a way is its last name. -/
theorem base_ofWay {way : List Bytes} {name : Bytes} (hname : IsName name) :
    base (ofWay (way ++ [name])) = name := by
  rw [ofWay_concat_eq_append, base_append (Or.inr ⟨_, rfl⟩) hname]

/-- The parent of a way is the way without its last name. -/
theorem parent_ofWay {way : List Bytes} (h : IsWay way) {name : Bytes} (hname : IsName name) :
    parent (ofWay (way ++ [name])) = ofWay way := by
  have habs : isAbsolute (way.flatMap (slash :: ·) ++ [slash]) = true := by
    cases way <;> simp
  have hnames : names (way.flatMap (slash :: ·) ++ [slash]) = way.reverse := by
    rw [names, habs, parts_append_slash, parts_flatMap h, List.foldl_append, List.foldl_cons,
      push_nil, foldl_push h]
    simp [push_nil]
  rw [ofWay_concat_eq_append, parent_append (Or.inr ⟨_, rfl⟩) hname, clean_eq_ofWay habs, hnames,
    List.reverse_reverse]

/-! ## Cleaning again -/

/-- Is the part kept when a path is cleaned, or does it stay where it is? -/
def isKept (part : Bytes) : Bool := !(part.isEmpty || part == dot)

/-- The parts that are skipped do not matter to the names. -/
theorem foldl_push_filter (absolute : Bool) (parts names : List Bytes) :
    (parts.filter isKept).foldl (push absolute) names = parts.foldl (push absolute) names := by
  induction parts generalizing names with
  | nil => rfl
  | cons part parts ih =>
    by_cases hskip : (part.isEmpty || part == dot) = true
    · rw [List.filter_cons_of_neg (by simp [isKept, hskip]), List.foldl_cons,
        push_of_skipped hskip, ih]
    · rw [List.filter_cons_of_pos (by simpa [isKept] using hskip), List.foldl_cons,
        List.foldl_cons, ih]

/-- Names as cleaning leaves them, the last one first: reading them once more gives them again. -/
structure Settled (absolute : Bool) (names : List Bytes) : Prop where
  again : names.reverse.foldl (push absolute) [] = names
  kept : ∀ part ∈ names, isKept part = true
  slash_notMem : ∀ part ∈ names, slash ∉ part

namespace Settled

variable {absolute : Bool} {names : List Bytes} {part : Bytes}

theorem nil : Settled absolute [] := ⟨rfl, by simp, by simp⟩

/-- A part that is added as it is leaves settled names. -/
theorem cons (h : Settled absolute names) (hpush : Path.push absolute names part = part :: names)
    (hkept : isKept part = true) (hslash : slash ∉ part) : Settled absolute (part :: names) where
  again := by
    rw [List.reverse_cons, List.foldl_append, h.again, List.foldl_cons, List.foldl_nil, hpush]
  kept := List.forall_mem_cons.2 ⟨hkept, h.kept⟩
  slash_notMem := List.forall_mem_cons.2 ⟨hslash, h.slash_notMem⟩

/-- A name that `..` takes back leaves the names in front of it. -/
theorem tail (h : Settled absolute (part :: names)) (hdots : part ≠ dotDot) :
    Settled absolute names where
  again := by
    obtain ⟨hslash, -⟩ := List.forall_mem_cons.1 h.slash_notMem
    obtain ⟨hkept, -⟩ := List.forall_mem_cons.1 h.kept
    have hname : IsName part :=
      isName_of_not_skipped hslash (by simpa [isKept] using hkept) (by simpa using hdots)
    -- the name is the last that was read, so what was read before it are the names in front
    have hagain := h.again
    rw [List.reverse_cons, List.foldl_append, List.foldl_cons, List.foldl_nil,
      push_of_isName hname] at hagain
    exact (List.cons.inj hagain).2
  kept := (List.forall_mem_cons.1 h.kept).2
  slash_notMem := (List.forall_mem_cons.1 h.slash_notMem).2

/-- Adding a part keeps names settled. Its cases are those of the definition: a part that is
skipped, two dots, or a name. -/
theorem push (h : Settled absolute names) (hslash : slash ∉ part) :
    Settled absolute (push absolute names part) := by
  by_cases hskip : (part.isEmpty || part == dot) = true
  · rwa [push_of_skipped hskip]
  have hkept : isKept part = true := by simpa [isKept] using hskip
  by_cases hdots : (part == dotDot) = true
  · obtain rfl := eq_of_beq hdots
    -- two dots go up by one name, or stay behind other dots and at the start of a relative path
    cases names with
    | nil =>
      cases absolute with
      | true => exact nil
      | false => exact nil.cons rfl hkept hslash
    | cons last before =>
      have hpush : Path.push absolute (last :: before) dotDot =
          if last == dotDot then dotDot :: last :: before else before := by
        rw [Path.push.eq_def, if_neg hskip, if_pos hdots]
      by_cases hlast : (last == dotDot) = true
      · rw [if_pos hlast] at hpush
        rw [hpush]
        exact h.cons hpush hkept hslash
      · rw [if_neg hlast] at hpush
        rw [hpush]
        exact h.tail (by simpa using hlast)
  · have hpush := push_of_isName (isName_of_not_skipped hslash hskip hdots) absolute names
    rw [hpush]
    exact h.cons hpush hkept hslash

/-- Adding parts keeps names settled, by induction on the parts. -/
theorem foldl_push (h : Settled absolute names) {parts : List Bytes}
    (hparts : ∀ part ∈ parts, slash ∉ part) :
    Settled absolute (parts.foldl (Path.push absolute) names) := by
  induction parts generalizing names with
  | nil => exact h
  | cons part parts ih =>
    obtain ⟨hpart, hparts⟩ := List.forall_mem_cons.1 hparts
    exact ih (h.push hpart) hparts

end Settled

/-- The names of every path are settled, relative or absolute. -/
theorem settled_names (path : Bytes) : Settled (isAbsolute path) (names path) :=
  Settled.nil.foldl_push fun _ => slash_notMem_of_mem_parts

/-- The parts that count in names with slashes between them are the names. -/
theorem filter_parts_join {way : List Bytes} (hkept : ∀ part ∈ way, isKept part = true)
    (hslash : ∀ part ∈ way, slash ∉ part) :
    (parts (Bytes.join [slash] way)).filter isKept = way := by
  by_cases hne : way = []
  · subst hne
    rfl
  · rw [parts, Bytes.join, List.splitOn_intercalate slash hslash hne, List.filter_eq_self.2 hkept]

/-- The parts of a clean path are its names, and the parts in front of a leading slash or for a path
without names. -/
theorem filter_parts_clean (path : Bytes) :
    (parts (clean path)).filter isKept = (names path).reverse := by
  have hsettled := settled_names path
  have hjoin : (parts (Bytes.join [slash] (names path).reverse)).filter isKept =
      (names path).reverse :=
    filter_parts_join (by simpa using hsettled.kept) (by simpa using hsettled.slash_notMem)
  rw [clean]
  split
  · -- the leading slash adds an empty part, which does not count
    rw [ofNames, ← List.nil_append (slash :: _), parts_append_slash, List.filter_append, hjoin]
    rfl
  · split
    · next hnone =>
      rw [List.isEmpty_iff.1 hnone]
      rfl
    · exact hjoin

/-- Cleaning neither adds a leading slash nor takes it away. -/
theorem isAbsolute_clean (path : Bytes) : isAbsolute (clean path) = isAbsolute path := by
  rw [clean]
  split
  · next h => rw [h, ofNames, isAbsolute_cons_slash]
  · next h =>
    split
    · rw [Bool.eq_false_iff.2 h]
      rfl
    · next hsome =>
      -- the first name is not empty and begins with another byte
      rw [Bool.eq_false_iff.2 h]
      obtain ⟨first, others, hnames⟩ : ∃ first others, (names path).reverse = first :: others :=
        List.exists_cons_of_ne_nil (by simpa using hsome)
      have hmem : first ∈ names path := List.mem_reverse.1 (hnames ▸ List.mem_cons_self)
      have hkept := (settled_names path).kept first hmem
      have hslash := (settled_names path).slash_notMem first hmem
      obtain ⟨rest, hrest⟩ := Bytes.join_cons_eq_append [slash] first others
      rw [hnames, hrest]
      cases first with
      | nil => cases hkept
      | cons b first =>
        have hb : b ≠ slash := fun heq => hslash (heq ▸ List.mem_cons_self)
        simpa [isAbsolute] using hb

/-- **A clean path has the names of the path.** -/
theorem names_clean (path : Bytes) : names (clean path) = names path := by
  rw [names, isAbsolute_clean, ← foldl_push_filter, filter_parts_clean]
  exact (settled_names path).again

/-- Cleaning twice is cleaning once. -/
theorem clean_clean (path : Bytes) : clean (clean path) = clean path := by
  rw [clean, isAbsolute_clean, names_clean, ← clean]

section

variable {path name : Bytes} (h : path ≠ []) (hname : IsName name)

include h hname

/-- The names of a child are its own and those of the directory. -/
theorem names_child : names (child path name) = name :: names path := by
  rw [child_eq_clean h hname.ne_nil, names_clean, names_append_name h hname]

theorem filter_parts_child :
    (parts (child path name)).filter isKept = (names path).reverse ++ [name] := by
  rw [child_eq_clean h hname.ne_nil, filter_parts_clean, names_append_name h hname,
    List.reverse_cons]

theorem isAbsolute_child : isAbsolute (child path name) = isAbsolute path := by
  rw [child_eq_clean h hname.ne_nil, isAbsolute_clean, isAbsolute_append_of_ne_nil h]

theorem clean_child : clean (child path name) = child path name := by
  rw [child_eq_clean h hname.ne_nil, clean_clean]

theorem child_ne_nil : child path name ≠ [] := by
  intro hnil
  have hnames := names_child h hname
  rw [hnil] at hnames
  cases hnames

end

/-! ## The last name -/

/-- A clean path with a name at its end: it is neither the root nor a path of dots. -/
structure Named (path name : Bytes) : Prop where
  clean : Path.clean path = path
  isName : IsName name
  names : ∃ before, Path.names path = name :: before

/-- A way other than the root has a last name. -/
theorem named_ofWay {way : List Bytes} (h : IsWay way) {name : Bytes} (hname : IsName name) :
    Named (ofWay (way ++ [name])) name where
  clean := clean_ofWay (isWay_append.2 ⟨h, isWay_singleton.2 hname⟩)
  isName := hname
  names := ⟨way.reverse, by rw [names_ofWay (isWay_append.2 ⟨h, isWay_singleton.2 hname⟩)]; simp⟩

/-- Names with slashes between them end in the last name, behind a slash if there are others. -/
theorem join_concat (way : List Bytes) (name : Bytes) :
    ∃ front, IsFront front ∧ Bytes.join [slash] (way ++ [name]) = front ++ name := by
  induction way with
  | nil => exact ⟨[], Or.inl rfl, by simp⟩
  | cons first way ih =>
    obtain ⟨front, hfront, hjoin⟩ := ih
    refine ⟨first ++ slash :: front, Or.inr ?_, ?_⟩
    · rcases hfront with rfl | ⟨f, rfl⟩
      · exact ⟨first, rfl⟩
      · exact ⟨first ++ slash :: f, by simp⟩
    · obtain ⟨next, others, hnext⟩ : ∃ next others, way ++ [name] = next :: others :=
        List.exists_cons_of_ne_nil (by simp)
      rw [List.cons_append, hnext, Bytes.join_cons_cons, ← hnext, hjoin]
      simp

/-- A clean path is not empty: without names it is a slash or a dot. -/
theorem clean_ne_nil (path : Bytes) : clean path ≠ [] := by
  intro hnil
  have hkept := filter_parts_clean path
  rw [hnil] at hkept
  have hnames : names path = [] := by simpa [isKept] using hkept.symm
  rw [clean, hnames] at hnil
  split at hnil <;> cases hnil

theorem isAbsolute_of_isName {name : Bytes} (h : IsName name) : isAbsolute name = false := by
  obtain ⟨b, rest, rfl⟩ := List.exists_cons_of_ne_nil h.ne_nil
  have hslash : b ≠ slash := fun heq => h.slash_notMem (by simp [heq])
  simpa [isAbsolute] using hslash

namespace Named

variable {path name : Bytes}

/-- A path that ends in a name has it at its end, behind nothing or a slash. -/
theorem exists_front (h : Named path name) : ∃ front, IsFront front ∧ path = front ++ name := by
  obtain ⟨before, hnames⟩ := h.names
  obtain ⟨front, hfront, hjoin⟩ := join_concat before.reverse name
  rw [← h.clean, Path.clean, hnames, ofNames, List.reverse_cons, hjoin]
  split
  · -- the slash of the root may be the one in front of the name
    refine ⟨slash :: front, Or.inr ?_, rfl⟩
    rcases hfront with rfl | ⟨f, rfl⟩
    · exact ⟨[], rfl⟩
    · exact ⟨slash :: f, rfl⟩
  · exact ⟨front, hfront, by simp⟩

theorem base (h : Named path name) : Path.base path = name := by
  obtain ⟨front, hfront, rfl⟩ := h.exists_front
  exact base_append hfront h.isName

/-- The parts in front of the name, and the path of the directory that the name is in. -/
theorem exists_parts (h : Named path name) :
    ∃ front, parts path = front ++ [name] ∧
      front.filter isKept = (parts (parent path)).filter isKept ∧
      isAbsolute (parent path) = isAbsolute path := by
  obtain ⟨before, hnames⟩ := h.names
  obtain ⟨front, hfront, hpath⟩ := h.exists_front
  have hparts := parts_of_isName h.isName
  have hkept : (parts path).filter isKept = before.reverse ++ [name] := by
    rw [← h.clean, filter_parts_clean, hnames, List.reverse_cons]
  have hname : isKept name = true := by simp [isKept, h.isName.ne_nil, h.isName.ne_dot]
  rw [hpath, parent_append hfront h.isName, isAbsolute_clean, filter_parts_clean, ← hpath]
  rcases hfront with rfl | ⟨f, rfl⟩
  · -- the path is the name alone, and its directory is the current one
    rw [List.nil_append] at hpath
    subst hpath
    exact ⟨[], hparts, rfl, (isAbsolute_of_isName h.isName).symm⟩
  · -- the directory is the text up to the slash in front of the name
    have hsplit : parts path = parts f ++ [name] := by
      rw [hpath, List.append_assoc, List.singleton_append, parts_append_slash, hparts]
    have habs : isAbsolute (f ++ [slash]) = isAbsolute path := by
      have hne : f ++ [slash] ≠ [] := by simp
      rw [hpath, isAbsolute_append_of_ne_nil hne]
    refine ⟨parts f, hsplit, ?_, habs⟩
    rw [hsplit, List.filter_append, List.filter_cons_of_pos hname, List.filter_nil] at hkept
    have hfirst : Path.names (f ++ [slash]) = before := by
      have hall := hnames
      rw [Path.names, hsplit, List.foldl_append, List.foldl_cons, List.foldl_nil,
        push_of_isName h.isName] at hall
      rw [Path.names, habs, parts_append_slash, List.foldl_append, parts_nil, List.foldl_cons,
        List.foldl_nil, push_nil]
      exact (List.cons.inj hall).2
    rw [hfirst]
    exact List.append_cancel_right hkept

end Named

end DocTree.Path
