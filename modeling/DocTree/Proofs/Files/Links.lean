import DocTree.Proofs.Files.Entry

/-!
# Ways with links on them

What the first part of a way does is said once (`FirstPart`), and every result about ways goes from
part to part by it. In plain trees a way of names is found where it leads (`resolve_of_isWay`), and
a path with dots in it, when it is found at all, where the cleaned path leads (`place_of_resolve`).

A `Walk` goes through the parts of a way, into directories and through links, and counts the links
that may still be followed. Ways that end in a directory are walks (`exists_walk_of_resolve`), and
what stands behind a walk is looked for from its end (`Walk.resolve_append`).

Where a walk goes depends only on the directories and links that it meets. So it goes the same way
in a tree in which one place is changed, unless it goes through that place (`Walk.transfer`). It
does not go through a link beside its end unless the link leads to a directory, or too far
(`Walk.through`).
-/

namespace DocTree.Entry

/-- A part of a way that names something: it is not empty and not made of dots. -/
structure IsStep (part : Bytes) : Prop where
  not_stay : ¬(part.isEmpty || part == Path.dot) = true
  not_up : ¬(part == Path.dotDot) = true

theorem isStep_of_isName {name : Bytes} (h : Path.IsName name) : IsStep name :=
  ⟨by simp [h.ne_nil, h.ne_dot], by simp [h.ne_dotDot]⟩

/-- The directory that a link is followed from: the root, or the directory that it is in. -/
def linkBase (target : Bytes) (here : List Bytes) : List Bytes :=
  if Path.isAbsolute target then [] else here

/-- A walk from a directory through the parts of a way, with the number of links that may be
followed at its beginning and at its end. -/
inductive Walk (tree : Entry) : Nat → List Bytes → List Bytes → Nat → List Bytes → Prop where
  /-- There are no parts left. -/
  | done {links : Nat} {here : List Bytes} : Walk tree links here [] links here
  /-- An empty part or a dot stays. -/
  | stay {links left : Nat} {here rest place : List Bytes} {part : Bytes} :
      (part.isEmpty || part == Path.dot) = true → Walk tree links here rest left place →
      Walk tree links here (part :: rest) left place
  /-- Two dots go up. -/
  | up {links left : Nat} {here rest place : List Bytes} {part : Bytes} :
      ¬(part.isEmpty || part == Path.dot) = true → (part == Path.dotDot) = true →
      Walk tree links here.dropLast rest left place → Walk tree links here (part :: rest) left place
  /-- A directory is gone into. -/
  | enter {links left : Nat} {here rest place : List Bytes} {part : Bytes}
      {entries : List (Bytes × Entry)} :
      IsStep part → tree.at? (here ++ [part]) = some (.directory entries) →
      Walk tree links (here ++ [part]) rest left place →
        Walk tree links here (part :: rest) left place
  /-- A link is followed. -/
  | follow {links left : Nat} {here rest place : List Bytes} {part target : Bytes} :
      IsStep part → tree.at? (here ++ [part]) = some (.link target) →
      Walk tree links (linkBase target here) (Path.parts target ++ rest) left place →
      Walk tree (links + 1) here (part :: rest) left place

section

variable {tree : Entry} {followLast : Bool} {links left : Nat} {here place parts more : List Bytes}
  {part : Bytes}

/-! ## One part -/

/-- At the end of the way there is what stands there. -/
theorem resolve_nil : tree.resolve followLast links here [] = .ok (here, tree.at? here) := by
  cases links <;> rfl

theorem resolve_stay (hstay : (part.isEmpty || part == Path.dot) = true) :
    tree.resolve followLast links here (part :: parts) =
      tree.resolve followLast links here parts := by
  cases links <;> rw [resolve, resolveWith, if_pos hstay]

/-- Two dots go up, and stay at the root. -/
theorem resolve_up (hstay : ¬(part.isEmpty || part == Path.dot) = true)
    (hup : (part == Path.dotDot) = true) :
    tree.resolve followLast links here (part :: parts) =
      tree.resolve followLast links here.dropLast parts := by
  cases links <;> rw [resolve, resolveWith, if_neg hstay, if_pos hup]

theorem resolve_enter (hstep : IsStep part) {entries : List (Bytes × Entry)}
    (hat : tree.at? (here ++ [part]) = some (.directory entries)) :
    tree.resolve followLast links here (part :: parts) =
      tree.resolve followLast links (here ++ [part]) parts := by
  cases links <;> simp only [resolve, resolveWith, if_neg hstep.not_stay, if_neg hstep.not_up, hat]

/-- A link is followed when it is not at the end, or when links at the end are. -/
theorem not_last_of_followed (hlast : parts ≠ [] ∨ followLast = true) :
    ¬(parts.isEmpty && !followLast) = true := by
  rcases hlast with hne | rfl
  · simp [hne]
  · simp

/-- A link is followed: its parts come in front of the others. -/
theorem resolve_follow (hstep : IsStep part) {target : Bytes}
    (hat : tree.at? (here ++ [part]) = some (.link target))
    (hlast : parts ≠ [] ∨ followLast = true) :
    tree.resolve followLast (links + 1) here (part :: parts) =
      tree.resolve followLast links (linkBase target here) (Path.parts target ++ parts) := by
  simp only [resolve, resolveWith, if_neg hstep.not_stay, if_neg hstep.not_up, hat,
    if_neg (not_last_of_followed hlast)]
  rfl

/-- A link cannot be followed when no more links may be. -/
theorem resolve_follow_zero (hstep : IsStep part) {target : Bytes}
    (hat : tree.at? (here ++ [part]) = some (.link target))
    (hlast : parts ≠ [] ∨ followLast = true) :
    tree.resolve followLast 0 here (part :: parts) = .error .tooManyLinks := by
  simp only [resolve, resolveWith, if_neg hstep.not_stay, if_neg hstep.not_up, hat,
    if_neg (not_last_of_followed hlast)]

/-- The last part leads to its place, unless there is a link to be followed. -/
theorem resolve_last (hstep : IsStep part)
    (hlink : followLast = true → ∀ target, tree.at? (here ++ [part]) ≠ some (.link target)) :
    tree.resolve followLast links here [part] =
      .ok (here ++ [part], tree.at? (here ++ [part])) := by
  rcases hat : tree.at? (here ++ [part]) with _ | ⟨content | target | entries⟩
  · cases links <;>
      simp only [resolve, resolveWith, if_neg hstep.not_stay, if_neg hstep.not_up, hat] <;> rfl
  · cases links <;>
      simp only [resolve, resolveWith, if_neg hstep.not_stay, if_neg hstep.not_up, hat] <;> rfl
  · -- a link is found as it is, if it is not to be followed
    cases followLast with
    | true => exact absurd hat (hlink rfl target)
    | false =>
      cases links <;>
        simp only [resolve, resolveWith, if_neg hstep.not_stay, if_neg hstep.not_up, hat] <;> rfl
  · rw [resolve_enter hstep hat, resolve_nil, hat]

/-- What the first part of a way does, if the way leads anywhere. -/
inductive FirstPart (tree : Entry) (followLast : Bool) (links : Nat) (here : List Bytes)
    (part : Bytes) (parts : List Bytes) (r : Place) : Prop where
  /-- It stays. -/
  | stay : (part.isEmpty || part == Path.dot) = true →
    tree.resolve followLast links here parts = .ok r →
      FirstPart tree followLast links here part parts r
  /-- It goes up. -/
  | up : ¬(part.isEmpty || part == Path.dot) = true → (part == Path.dotDot) = true →
      tree.resolve followLast links here.dropLast parts = .ok r →
      FirstPart tree followLast links here part parts r
  /-- It goes into a directory. -/
  | enter {entries : List (Bytes × Entry)} : IsStep part →
      tree.at? (here ++ [part]) = some (.directory entries) →
      tree.resolve followLast links (here ++ [part]) parts = .ok r →
      FirstPart tree followLast links here part parts r
  /-- It follows a link, and so there is one link less to be followed. -/
  | follow {n : Nat} {target : Bytes} : IsStep part → links = n + 1 →
      tree.at? (here ++ [part]) = some (.link target) →
      tree.resolve followLast n (linkBase target here) (Path.parts target ++ parts) = .ok r →
      FirstPart tree followLast links here part parts r
  /-- It is the last part, and its place is no directory. -/
  | last : IsStep part → parts = [] → (∀ es, tree.at? (here ++ [part]) ≠ some (.directory es)) →
      r = (here ++ [part], tree.at? (here ++ [part])) →
      FirstPart tree followLast links here part parts r

/-- Where there is neither a directory nor a link, a way ends, or leads nowhere if it goes on. -/
theorem firstPart_of_resolve_end (hstep : IsStep part)
    (hdirectory : ∀ es, tree.at? (here ++ [part]) ≠ some (.directory es))
    (hlink : ∀ target, tree.at? (here ++ [part]) ≠ some (.link target)) {r : Place}
    (h : tree.resolve followLast links here (part :: parts) = .ok r) :
    FirstPart tree followLast links here part parts r := by
  -- the way ends here, or something is missing
  have hend : ∃ reason, tree.resolve followLast links here (part :: parts) =
      if parts.isEmpty then .ok (here ++ [part], tree.at? (here ++ [part])) else .error reason := by
    rcases hat : tree.at? (here ++ [part]) with _ | ⟨content | target | es⟩
    · exact ⟨.notFound, by
        cases links <;>
          simp only [resolve, resolveWith, if_neg hstep.not_stay, if_neg hstep.not_up, hat]⟩
    · exact ⟨.notDirectory, by
        cases links <;>
          simp only [resolve, resolveWith, if_neg hstep.not_stay, if_neg hstep.not_up, hat]⟩
    · exact absurd hat (hlink target)
    · exact absurd hat (hdirectory es)
  obtain ⟨reason, hresolve⟩ := hend
  rw [hresolve] at h
  split at h
  · next hnil => exact .last hstep (List.isEmpty_iff.1 hnil) hdirectory (Except.ok.inj h).symm
  · cases h

/-- A way that leads anywhere begins with one of these. -/
theorem firstPart_of_resolve {r : Place}
    (h : tree.resolve followLast links here (part :: parts) = .ok r) :
    FirstPart tree followLast links here part parts r := by
  by_cases hstay : (part.isEmpty || part == Path.dot) = true
  · rw [resolve_stay hstay] at h
    exact .stay hstay h
  by_cases hup : (part == Path.dotDot) = true
  · rw [resolve_up hstay hup] at h
    exact .up hstay hup h
  have hstep : IsStep part := ⟨hstay, hup⟩
  -- what stands there decides about the rest
  rcases hat : tree.at? (here ++ [part]) with _ | ⟨content | target | es⟩
  · exact firstPart_of_resolve_end hstep (by simp [hat]) (by simp [hat]) h
  · exact firstPart_of_resolve_end hstep (by simp [hat]) (by simp [hat]) h
  · by_cases hlast : parts ≠ [] ∨ followLast = true
    · cases links with
      | zero =>
        rw [resolve_follow_zero hstep hat hlast] at h
        cases h
      | succ n =>
        rw [resolve_follow hstep hat hlast] at h
        exact .follow hstep rfl hat h
    · -- a link at the end that is not followed is found as what it is
      obtain ⟨hnil, hfollowed⟩ := not_or.1 hlast
      obtain rfl := Decidable.not_not.1 hnil
      rw [resolve_last hstep (fun htrue => absurd htrue hfollowed)] at h
      exact .last hstep rfl (by simp [hat]) (Except.ok.inj h).symm
  · rw [resolve_enter hstep hat] at h
    exact .enter hstep hat h

/-! ## Walks and ways -/

namespace Walk

/-- What stands behind a walk is looked for from its end. -/
theorem resolve_append (h : Walk tree links here parts left place)
    (hmore : more ≠ [] ∨ followLast = true) :
    tree.resolve followLast links here (parts ++ more) =
      tree.resolve followLast left place more := by
  -- a link on the way is followed, since more comes behind it
  have hlast : ∀ rest : List Bytes, rest ++ more ≠ [] ∨ followLast = true := by
    intro rest
    exact hmore.imp_left fun hne happend => hne (List.append_eq_nil_iff.1 happend).2
  induction h with
  | done => rfl
  | stay hstay _ ih => rw [List.cons_append, resolve_stay hstay, ih]
  | up hstay hup _ ih => rw [List.cons_append, resolve_up hstay hup, ih]
  | enter hstep hat _ ih => rw [List.cons_append, resolve_enter hstep hat, ih]
  | follow hstep hat _ ih =>
    rw [List.cons_append, resolve_follow hstep hat (hlast _), ← List.append_assoc, ih]

/-- A walk leads to what stands at its end. -/
theorem resolve (h : Walk tree links here parts left place) :
    tree.resolve true links here parts = .ok (place, tree.at? place) := by
  have happend : tree.resolve true links here (parts ++ []) = tree.resolve true left place [] :=
    h.resolve_append (Or.inr rfl)
  rwa [List.append_nil, resolve_nil] at happend

end Walk

/-- A way that ends in a directory is a walk. By induction on the links that may be followed, and on
the parts. -/
theorem exists_walk_of_resolve {entries : List (Bytes × Entry)} :
    ∀ {links here parts}, tree.resolve followLast links here parts =
      .ok (place, some (.directory entries)) →
      ∃ left, Walk tree links here parts left place ∧ tree.at? place = some (.directory entries)
  | links, here, [], h => by
    rw [resolve_nil] at h
    obtain ⟨rfl, hat⟩ := Prod.mk.inj (Except.ok.inj h)
    exact ⟨links, .done, hat⟩
  | links, here, part :: parts, h => by
    cases firstPart_of_resolve h with
    | stay hstay h => exact (exists_walk_of_resolve h).imp fun _ => And.imp_left (.stay hstay)
    | up hstay hup h => exact (exists_walk_of_resolve h).imp fun _ => And.imp_left (.up hstay hup)
    | enter hstep hat h =>
      exact (exists_walk_of_resolve h).imp fun _ => And.imp_left (.enter hstep hat)
    | @follow n _ hstep hlinks hat hrest =>
      subst hlinks
      exact (exists_walk_of_resolve hrest).imp fun _ => And.imp_left (.follow hstep hat)
    | last _ _ hdirectory heq =>
      -- what stands at the end would be a directory
      exact absurd (Prod.mk.inj heq).2.symm (hdirectory entries)
termination_by links _ parts => (links, parts.length)

/-- What is found behind some parts is found by a walk through them. By induction on the links that
may be followed, and on the parts. -/
theorem exists_walk_of_resolve_append (hmore : more ≠ []) {r : Place} :
    ∀ links here parts, tree.resolve followLast links here (parts ++ more) = .ok r →
      ∃ left there, Walk tree links here parts left there
  | links, here, [], _ => ⟨links, here, .done⟩
  | links, here, part :: parts, h => by
    cases firstPart_of_resolve h with
    | stay hstay h =>
      obtain ⟨left, there, hwalk⟩ := exists_walk_of_resolve_append hmore links here parts h
      exact ⟨left, there, .stay hstay hwalk⟩
    | up hstay hup h =>
      obtain ⟨left, there, hwalk⟩ := exists_walk_of_resolve_append hmore links _ parts h
      exact ⟨left, there, .up hstay hup hwalk⟩
    | enter hstep hat h =>
      obtain ⟨left, there, hwalk⟩ := exists_walk_of_resolve_append hmore links _ parts h
      exact ⟨left, there, .enter hstep hat hwalk⟩
    | @follow n target hstep hlinks hat hrest =>
      subst hlinks
      -- the parts of the target come in front of those that are left
      have hrest : tree.resolve followLast n (linkBase target here)
          (Path.parts target ++ parts ++ more) = .ok r := by
        rw [List.append_assoc]
        exact hrest
      obtain ⟨left, there, hwalk⟩ := exists_walk_of_resolve_append hmore n _ _ hrest
      exact ⟨left, there, .follow hstep hat hwalk⟩
    | last _ hnil =>
      -- there is more to come
      exact absurd (List.append_eq_nil_iff.1 hnil).2 hmore
termination_by links _ parts => (links, parts.length)

/-! ## Plain trees -/

/-- A way of names whose directories are there is found where it leads. -/
theorem resolve_of_isWay (htree : tree.Plain) {way : List Bytes} (hway : Path.IsWay way)
    (hdir : way ≠ [] → ∃ entries, tree.at? (here ++ way.dropLast) = some (.directory entries)) :
    tree.resolve followLast links here way = .ok (here ++ way, tree.at? (here ++ way)) := by
  induction way generalizing here with
  | nil => rw [resolve_nil, List.append_nil]
  | cons name way ih =>
    obtain ⟨hname, hway⟩ := List.forall_mem_cons.1 hway
    have hstep : IsStep name := isStep_of_isName hname
    by_cases hlast : way = []
    · subst hlast
      exact resolve_last hstep fun _ target => htree.not_link _ target
    · -- there is more to come, so this is a directory
      obtain ⟨entries, hentries⟩ := hdir (List.cons_ne_nil name way)
      rw [List.dropLast_cons_of_ne_nil hlast, List.append_cons] at hentries
      obtain ⟨es, hes⟩ := exists_directory_of_at?_append hentries
      rw [resolve_enter hstep hes, ih hway fun _ => ⟨entries, hentries⟩, ← List.append_cons]

/-- What is found at all is found where the cleaned way leads. By induction on the parts. -/
theorem place_of_resolve (htree : tree.Plain) (hhere : Path.IsWay here)
    (hparts : ∀ part ∈ parts, Path.slash ∉ part) {x : Option Entry}
    (h : tree.resolve followLast links here parts = .ok (place, x)) :
    place = (parts.foldl (Path.push true) here.reverse).reverse ∧ x = tree.at? place := by
  induction parts generalizing here with
  | nil =>
    rw [resolve_nil] at h
    obtain ⟨rfl, rfl⟩ := Prod.mk.inj (Except.ok.inj h)
    simp
  | cons part parts ih =>
    obtain ⟨hpart, hparts⟩ := List.forall_mem_cons.1 hparts
    -- a name is added to the way, cleaned or not
    have hthere : IsStep part → Path.IsWay (here ++ [part]) ∧
        Path.push true here.reverse part = (here ++ [part]).reverse := by
      intro hstep
      have hname := Path.isName_of_not_skipped hpart hstep.not_stay hstep.not_up
      refine ⟨Path.isWay_append.2 ⟨hhere, Path.isWay_singleton.2 hname⟩, ?_⟩
      rw [Path.push_of_isName hname]
      simp
    rw [List.foldl_cons]
    cases firstPart_of_resolve h with
    | stay hstay h =>
      rw [Path.push_of_skipped hstay]
      exact ih hhere hparts h
    | up hstay hup h =>
      -- one name up: the last name goes, if there is one
      rw [eq_of_beq hup, Path.push_dotDot (Path.isWay_reverse.2 hhere), List.tail_reverse]
      exact ih (fun n hn => hhere n (List.dropLast_subset here hn)) hparts h
    | enter hstep hat h =>
      rw [(hthere hstep).2]
      exact ih (hthere hstep).1 hparts h
    | follow _ _ hat => exact absurd hat (htree.not_link _ _)
    | last hstep hnil _ heq =>
      obtain ⟨rfl, rfl⟩ := Prod.mk.inj heq
      rw [(hthere hstep).2, hnil]
      simp

/-- What is found in a tree is found in every tree that has its directories. -/
theorem resolve_of_directories {tree' : Entry} (htree : tree.Plain) (htree' : tree'.Plain)
    (hdirs : ∀ way, view (tree.at? way) = .directory → view (tree'.at? way) = .directory)
    {x : Option Entry} (h : tree.resolve followLast links here parts = .ok (place, x)) :
    tree'.resolve followLast links here parts = .ok (place, tree'.at? place) := by
  induction parts generalizing here with
  | nil =>
    rw [resolve_nil] at h
    obtain ⟨rfl, -⟩ := Prod.mk.inj (Except.ok.inj h)
    exact resolve_nil
  | cons part parts ih =>
    cases firstPart_of_resolve h with
    | stay hstay h =>
      rw [resolve_stay hstay]
      exact ih h
    | up hstay hup h =>
      rw [resolve_up hstay hup]
      exact ih h
    | @enter entries hstep hat h =>
      obtain ⟨entries', hat'⟩ := view_eq_directory_iff.1
        (hdirs (here ++ [part]) (view_eq_directory_iff.2 ⟨entries, hat⟩))
      rw [resolve_enter hstep hat']
      exact ih h
    | follow _ _ hat => exact absurd hat (htree.not_link _ _)
    | last hstep hnil _ heq =>
      -- at the end of the way it does not matter what stands there
      obtain ⟨rfl, -⟩ := Prod.mk.inj heq
      rw [hnil]
      exact resolve_last hstep fun _ target => htree'.not_link _ target

/-! ## Laws of walks -/

/-- Above a directory there is a directory, and the root is above itself. -/
theorem exists_directory_dropLast {entries : List (Bytes × Entry)}
    (h : tree.at? here = some (.directory entries)) :
    ∃ es, tree.at? here.dropLast = some (.directory es) := by
  rcases List.eq_nil_or_concat here with rfl | ⟨front, last, rfl⟩
  · exact ⟨entries, h⟩
  · rw [List.concat_eq_append] at h ⊢
    rw [List.dropLast_concat]
    exact exists_directory_of_at? h

theorem exists_directory_nil {entries : List (Bytes × Entry)}
    (h : tree.at? here = some (.directory entries)) : ∃ es, tree.at? [] = some (.directory es) := by
  cases here with
  | nil => exact ⟨entries, h⟩
  | cons name names =>
    obtain ⟨es, -, rfl, -⟩ := at?_cons_directory h
    exact ⟨es, rfl⟩

/-- A link is followed from a directory. -/
theorem exists_directory_linkBase {entries : List (Bytes × Entry)}
    (h : tree.at? here = some (.directory entries)) (target : Bytes) :
    ∃ es, tree.at? (linkBase target here) = some (.directory es) := by
  rw [linkBase]
  split
  · exact exists_directory_nil h
  · exact ⟨entries, h⟩

namespace Walk

/-- A walk that begins in a directory ends in one. -/
theorem directory (h : Walk tree links here parts left place)
    (hhere : ∃ es, tree.at? here = some (.directory es)) :
    ∃ es, tree.at? place = some (.directory es) := by
  induction h with
  | done => exact hhere
  | stay _ _ ih => exact ih hhere
  | up _ _ _ ih =>
    obtain ⟨es, hes⟩ := hhere
    exact ih (exists_directory_dropLast hes)
  | enter _ hat _ ih => exact ih ⟨_, hat⟩
  | follow _ _ _ ih =>
    obtain ⟨es, hes⟩ := hhere
    exact ih (exists_directory_linkBase hes _)

/-- A walk does not give links back. -/
theorem left_le (h : Walk tree links here parts left place) : left ≤ links := by
  induction h with
  | done => exact Nat.le_refl _
  | stay _ _ ih | up _ _ _ ih | enter _ _ _ ih => exact ih
  | follow _ _ _ ih => exact Nat.le_succ_of_le ih

/-- A walk through some parts and others behind them goes through the first ones first. -/
theorem split {rest : List Bytes} (h : Walk tree links here (parts ++ rest) left place) :
    ∃ mid there, Walk tree links here parts mid there ∧ Walk tree mid there rest left place := by
  generalize hall : parts ++ rest = all at h
  -- the next step of the walk belongs to the first parts, unless there are none left of them
  induction h generalizing parts with
  | done =>
    obtain ⟨rfl, rfl⟩ := List.append_eq_nil_iff.1 hall
    exact ⟨_, _, .done, .done⟩
  | stay hstay hwalk ih =>
    rcases List.append_eq_cons_iff.1 hall with ⟨rfl, rfl⟩ | ⟨parts, rfl, rfl⟩
    · exact ⟨_, _, .done, .stay hstay hwalk⟩
    · obtain ⟨mid, there, hfirst, hsecond⟩ := ih rfl
      exact ⟨mid, there, .stay hstay hfirst, hsecond⟩
  | up hstay hup hwalk ih =>
    rcases List.append_eq_cons_iff.1 hall with ⟨rfl, rfl⟩ | ⟨parts, rfl, rfl⟩
    · exact ⟨_, _, .done, .up hstay hup hwalk⟩
    · obtain ⟨mid, there, hfirst, hsecond⟩ := ih rfl
      exact ⟨mid, there, .up hstay hup hfirst, hsecond⟩
  | enter hstep hat hwalk ih =>
    rcases List.append_eq_cons_iff.1 hall with ⟨rfl, rfl⟩ | ⟨parts, rfl, rfl⟩
    · exact ⟨_, _, .done, .enter hstep hat hwalk⟩
    · obtain ⟨mid, there, hfirst, hsecond⟩ := ih rfl
      exact ⟨mid, there, .enter hstep hat hfirst, hsecond⟩
  | follow hstep hat hwalk ih =>
    rcases List.append_eq_cons_iff.1 hall with ⟨rfl, rfl⟩ | ⟨parts, rfl, rfl⟩
    · exact ⟨_, _, .done, .follow hstep hat hwalk⟩
    · -- the parts of the target come in front of the first ones
      obtain ⟨mid, there, hfirst, hsecond⟩ := ih (List.append_assoc ..)
      exact ⟨mid, there, .follow hstep hat hfirst, hsecond⟩

/-- Walks one behind the other are one walk. -/
theorem append {rest there : List Bytes} {mid : Nat} (h : Walk tree links here parts mid there)
    (hrest : Walk tree mid there rest left place) :
    Walk tree links here (parts ++ rest) left place := by
  induction h with
  | done => exact hrest
  | stay hstay _ ih => exact .stay hstay (ih hrest)
  | up hstay hup _ ih => exact .up hstay hup (ih hrest)
  | enter hstep hat _ ih => exact .enter hstep hat (ih hrest)
  | follow hstep hat _ ih => exact .follow hstep hat (by simpa using ih hrest)

/-- Empty parts and dots on a way do not matter to a walk. -/
theorem filter_isKept_iff :
    Walk tree links here (parts.filter Path.isKept) left place ↔
      Walk tree links here parts left place := by
  induction parts generalizing links here with
  | nil => rfl
  | cons part parts ih =>
    by_cases hstay : (part.isEmpty || part == Path.dot) = true
    · rw [List.filter_cons_of_neg (by simp [Path.isKept, hstay]), ih]
      refine ⟨.stay hstay, fun h => ?_⟩
      -- no other step takes a part that stays
      cases h with
      | stay _ h => exact h
      | up hkept _ _ => exact absurd hstay hkept
      | enter hstep _ _ => exact absurd hstay hstep.not_stay
      | follow hstep _ _ => exact absurd hstay hstep.not_stay
    · rw [List.filter_cons_of_pos (by simpa [Path.isKept] using hstay)]
      -- the part is walked by itself, and the rest by induction
      rw [← List.singleton_append, ← List.singleton_append (l := parts)]
      constructor
      · intro h
        obtain ⟨mid, there, hpart, hrest⟩ := h.split
        exact hpart.append (ih.1 hrest)
      · intro h
        obtain ⟨mid, there, hpart, hrest⟩ := h.split
        exact hpart.append (ih.2 hrest)

/-- With fewer links to follow, a way leads to the same end or runs out of links. -/
theorem resolve_of_le (h : Walk tree links here parts left place) {n : Nat} (hn : n ≤ links) :
    tree.resolve true n here parts = .error .tooManyLinks ∨
      tree.resolve true n here parts = .ok (place, tree.at? place) := by
  induction h generalizing n with
  | done => exact Or.inr resolve_nil
  | stay hstay _ ih =>
    rw [resolve_stay hstay]
    exact ih hn
  | up hstay hup _ ih =>
    rw [resolve_up hstay hup]
    exact ih hn
  | enter hstep hat _ ih =>
    rw [resolve_enter hstep hat]
    exact ih hn
  | follow hstep hat _ ih =>
    -- one link is used up, if there is one
    cases n with
    | zero => exact Or.inl (resolve_follow_zero hstep hat (Or.inr rfl))
    | succ n =>
      rw [resolve_follow hstep hat (Or.inr rfl)]
      exact ih (Nat.le_of_succ_le_succ hn)

/-- A walk that goes through a link beside its end tells where the link leads: to a directory, or
too far. -/
theorem through {name target : Bytes} {rest : List Bytes}
    (h : Walk tree links (linkBase target place) (Path.parts target ++ rest) left place)
    (hplace : ∃ es, tree.at? place = some (.directory es)) (hname : IsStep name)
    (hat : tree.at? (place ++ [name]) = some (.link target)) :
    tree.resolve true left place [name] = .error .tooManyLinks ∨
      ∃ there es, tree.resolve true left place [name] = .ok (there, some (.directory es)) := by
  cases left with
  | zero => exact Or.inl (resolve_follow_zero hname hat (Or.inr rfl))
  | succ n =>
    -- the way of the link comes first on the walk, and ends in a directory
    obtain ⟨mid, there, hfirst, hsecond⟩ := h.split
    obtain ⟨es, hes⟩ := hplace
    obtain ⟨es', hthere⟩ := hfirst.directory (exists_directory_linkBase hes target)
    have hn : n ≤ links := by
      have := hfirst.left_le
      have := hsecond.left_le
      omega
    rw [resolve_follow hname hat (Or.inr rfl), List.append_nil]
    rcases hfirst.resolve_of_le hn with hlinks | hread
    · exact Or.inl hlinks
    · rw [hthere] at hread
      exact Or.inr ⟨there, es', hread⟩

/-- A part that stays or goes up is found to be a directory, whatever comes before it. -/
theorem directory_of_resolve_concat (hroot : ∃ es, tree.at? here = some (.directory es))
    (hlast : ¬ IsStep part) {place : List Bytes} {x : Option Entry}
    (h : tree.resolve followLast links here (parts ++ [part]) = .ok (place, x)) :
    ∃ es, x = some (.directory es) := by
  obtain ⟨left, there, hwalk⟩ := exists_walk_of_resolve_append (by simp) links here parts h
  obtain ⟨es, hthere⟩ := hwalk.directory hroot
  rw [hwalk.resolve_append (Or.inl (by simp))] at h
  by_cases hstay : (part.isEmpty || part == Path.dot) = true
  · rw [resolve_stay hstay, resolve_nil] at h
    obtain ⟨-, rfl⟩ := Prod.mk.inj (Except.ok.inj h)
    exact ⟨es, hthere⟩
  · have hup : (part == Path.dotDot) = true :=
      Decidable.byContradiction fun hup => hlast ⟨hstay, hup⟩
    rw [resolve_up hstay hup, resolve_nil] at h
    obtain ⟨-, rfl⟩ := Prod.mk.inj (Except.ok.inj h)
    exact exists_directory_dropLast hthere

/-- A walk goes the same way in a tree that differs in one place, if it does not go through a link
at that place. -/
theorem transfer {tree' : Entry} {changed : List Bytes}
    (hdirectories : ∀ way es, tree.at? way = some (.directory es) →
      ∃ es', tree'.at? way = some (.directory es'))
    (hlinks : ∀ way target, way ≠ changed → tree.at? way = some (.link target) →
      tree'.at? way = some (.link target))
    (hchanged : ∀ links rest target, tree.at? changed = some (.link target) →
      ¬ Walk tree links (linkBase target changed.dropLast) (Path.parts target ++ rest) left place)
    (h : Walk tree links here parts left place) : Walk tree' links here parts left place := by
  induction h with
  | done => exact .done
  | stay hstay _ ih => exact .stay hstay (ih hchanged)
  | up hstay hup _ ih => exact .up hstay hup (ih hchanged)
  | enter hstep hat _ ih =>
    obtain ⟨es', hat'⟩ := hdirectories _ _ hat
    exact .enter hstep hat' (ih hchanged)
  | @follow links left here rest place part target hstep hat hwalk ih =>
    -- a link in the place that is changed is not on the way
    by_cases heq : here ++ [part] = changed
    · refine absurd ?_ (hchanged links rest target (heq ▸ hat))
      rw [← heq, List.dropLast_concat]
      exact hwalk
    · exact .follow hstep (hlinks _ _ heq hat) (ih hchanged)

end Walk

end

end DocTree.Entry
