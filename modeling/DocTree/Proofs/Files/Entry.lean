import DocTree.Files.Entry
import DocTree.Proofs.Files.Path

/-!
# Laws of the file system

Writing and removing an entry both change the list of entries of one directory; `alter` does this in
general, and `put_eq_alter` and `remove_eq_alter` say that the two operations do nothing else. From
there on a change of the tree is a change of one list: changes of the same directory compose
(`alter_alter`), and every other place shows what it showed before (`view_alter`).

A tree is `Proper` if no directory holds a name twice and every name can be one, and `Plain` if
there are no links in it either. Both are kept by writing a file (`WellNamed.put`).
-/

namespace DocTree.Entry

/-! ## Induction -/

/-- Induction over an entry, with the hypothesis for everything in a directory. -/
@[elab_as_elim]
theorem inductionOn {motive : Entry → Prop} (file : ∀ content, motive (.file content))
    (link : ∀ target, motive (.link target))
    (directory : ∀ entries, (∀ x ∈ entries, motive x.2) → motive (.directory entries)) :
    ∀ e, motive e
  | .file content => file content
  | .link target => link target
  | .directory entries => directory entries fun x hx => by
    have := List.sizeOf_lt_of_mem hx
    have : sizeOf x.2 < sizeOf x := by
      cases x
      simp +arith
    exact inductionOn file link directory x.2
termination_by e => e
decreasing_by
  simp only [Entry.directory.sizeOf_spec]
  omega

/-! ## Entries of a directory -/

section

variable {name : Bytes} {entry : Entry} {entries : List (Bytes × Entry)}

theorem lookup_eq_find? (name : Bytes) (entries : List (Bytes × Entry)) :
    entries.lookup name = (Keyed.find? Prod.fst name entries).map Prod.snd := by
  induction entries with
  | nil => rfl
  | cons e es ih =>
    rw [Keyed.find?_cons, List.lookup_cons]
    by_cases h : e.1 = name
    · simp [h]
    · have hne : (name == e.1) = false := beq_eq_false_iff_ne.2 (Ne.symm h)
      rw [hne, if_neg h]
      exact ih

theorem mem_of_lookup (h : entries.lookup name = some entry) : (name, entry) ∈ entries := by
  obtain ⟨front, back, rfl, -⟩ := List.lookup_eq_some_iff.1 h
  exact List.mem_append_right front List.mem_cons_self

theorem lookup_eq_none_iff_notMem : entries.lookup name = none ↔ name ∉ entries.map (·.1) := by
  rw [lookup_eq_find?, Option.map_eq_none_iff, Keyed.find?_eq_none_iff]

/-- An entry is found under its name, if no other one has it. -/
theorem lookup_of_mem (hnames : (entries.map (·.1)).Nodup) (h : (name, entry) ∈ entries) :
    entries.lookup name = some entry := by
  have hfind : Keyed.find? Prod.fst name entries = some (name, entry) := Keyed.find?_of_mem hnames h
  rw [lookup_eq_find?, hfind, Option.map_some]

/-- What is set under a name is found under it, and all else as before. -/
theorem lookup_setEntry (m name : Bytes) (entry : Entry) (entries : List (Bytes × Entry)) :
    (setEntry name entry entries).lookup m = if m = name then some entry else entries.lookup m := by
  rw [lookup_eq_find?, setEntry, Keyed.find?_put (Keyed.mergeable_replace _), lookup_eq_find?]
  by_cases h : m = name
  · rw [if_pos h.symm, if_pos h]
    -- it is found whether the name was there or is new
    cases Keyed.find? Prod.fst m entries <;> rfl
  · rw [if_neg (Ne.symm h), if_neg h]

/-- What is set last under a name counts. -/
theorem setEntry_setEntry (name : Bytes) (x y : Entry) (entries : List (Bytes × Entry)) :
    setEntry name x (setEntry name y entries) = setEntry name x entries := by
  have hkey : Prod.fst (name, y) = Prod.fst (name, x) := rfl
  exact Keyed.put_put_replace hkey entries

theorem setEntry_of_lookup (h : entries.lookup name = some entry) :
    setEntry name entry entries = entries := by
  rw [lookup_eq_find?] at h
  obtain ⟨e, hfind, rfl⟩ := Option.map_eq_some_iff.1 h
  obtain ⟨-, rfl⟩ := Keyed.of_find? hfind
  exact Keyed.put_of_find? hfind rfl

/-- A name that is new goes to the end. -/
theorem setEntry_of_lookup_eq_none (h : entries.lookup name = none) :
    setEntry name entry entries = entries ++ [(name, entry)] :=
  Keyed.put_of_notMem (lookup_eq_none_iff_notMem.1 h)

theorem nodup_setEntry (h : (entries.map (·.1)).Nodup) :
    ((setEntry name entry entries).map (·.1)).Nodup :=
  Keyed.nodup_map_put (Keyed.mergeable_replace _) h

theorem filter_bne_of_lookup_eq_none (h : entries.lookup name = none) :
    entries.filter (·.1 != name) = entries := by
  refine List.filter_eq_self.2 fun e he => ?_
  rw [bne_comm]
  exact List.lookup_eq_none_iff.1 h e he

/-- A name that is taken away is not found, and all else as before. -/
theorem lookup_filter_bne (m name : Bytes) (entries : List (Bytes × Entry)) :
    (entries.filter (·.1 != name)).lookup m = if m = name then none else entries.lookup m := by
  rw [lookup_eq_find?, Keyed.find?, List.find?_filter]
  by_cases h : m = name
  · -- no entry has the name and another one
    rw [if_pos h, Option.map_eq_none_iff, List.find?_eq_none]
    simp [h]
  · rw [if_neg h, lookup_eq_find?, Keyed.find?]
    congr 2
    funext e
    by_cases he : e.1 = m
    · simp [he, h]
    · simp [he]

/-- Taking away a name that was added leaves what was there. -/
theorem filter_setEntry (h : entries.lookup name = none) :
    (setEntry name entry entries).filter (·.1 != name) = entries := by
  rw [setEntry_of_lookup_eq_none h, List.filter_append, filter_bne_of_lookup_eq_none h]
  simp

/-- An entry is not disturbed by one with another name that comes and goes. -/
theorem filter_setEntry_setEntry {other : Bytes} {x : Entry} (hne : name ≠ other)
    (h : entries.lookup other = none) :
    (setEntry name entry (setEntry other x entries)).filter (·.1 != other) =
      setEntry name entry entries := by
  have hother : other ∉ entries.map (·.1) := lookup_eq_none_iff_notMem.1 h
  by_cases hname : name ∈ entries.map (·.1)
  · -- the other name stands at the end, and the entry is set in front of it
    have hfront : setEntry name entry (entries ++ [(other, x)]) =
        setEntry name entry entries ++ [(other, x)] := Keyed.put_append_of_mem hname _
    have hnone : (setEntry name entry entries).lookup other = none := by
      rw [lookup_setEntry, if_neg (Ne.symm hne), h]
    rw [setEntry_of_lookup_eq_none h, hfront, List.filter_append,
      filter_bne_of_lookup_eq_none hnone]
    simp
  · -- both names are new, and the other one stands in front of the entry
    have hnew : (setEntry other x entries).lookup name = none := by
      rw [lookup_setEntry, if_neg hne, lookup_eq_none_iff_notMem.2 hname]
    rw [setEntry_of_lookup_eq_none hnew, List.filter_append, filter_setEntry h,
      setEntry_of_lookup_eq_none (lookup_eq_none_iff_notMem.2 hname)]
    simp [hne]

end

/-! ## Ways -/

/-- What stands behind two ways is looked for from the end of the first. -/
theorem at?_append (way way' : List Bytes) (e : Entry) :
    e.at? (way ++ way') = (e.at? way).bind (at? way') := by
  induction way generalizing e with
  | nil => rfl
  | cons name way ih =>
    cases e with
    | file content => rfl
    | link target => rfl
    | directory entries =>
      rw [List.cons_append, at?, at?]
      cases entries.lookup name with
      | none => rfl
      | some e => exact ih e

/-- A way with a name on it begins in a directory that has the name. -/
theorem at?_cons_directory {name : Bytes} {names : List Bytes} {e x : Entry}
    (h : e.at? (name :: names) = some x) :
    ∃ entries e', e = .directory entries ∧ entries.lookup name = some e' ∧
      e'.at? names = some x := by
  cases e with
  | file content => cases h
  | link target => cases h
  | directory entries =>
    obtain ⟨e', he', hx⟩ := Option.bind_eq_some_iff.1 h
    exact ⟨entries, e', rfl, he', hx⟩

/-- The last name of a way is looked up in the directory in front of it. -/
theorem at?_concat (dir : List Bytes) (name : Bytes) (e : Entry) :
    e.at? (dir ++ [name]) =
      match e.at? dir with
      | some (.directory entries) => entries.lookup name
      | _ => none := by
  rw [at?_append]
  cases e.at? dir with
  | none => rfl
  | some d =>
    cases d with
    | directory entries => simp [at?]
    | _ => rfl

/-- What has something in it is a directory. -/
theorem exists_directory_of_at? {way : List Bytes} {name : Bytes} {e x : Entry}
    (h : e.at? (way ++ [name]) = some x) : ∃ entries, e.at? way = some (.directory entries) := by
  rw [at?_concat] at h
  split at h
  · next entries hdir => exact ⟨entries, hdir⟩
  · cases h

/-- What leads on to a directory is a directory. -/
theorem exists_directory_of_at?_append {way way' : List Bytes} {e : Entry}
    {entries : List (Bytes × Entry)} (h : e.at? (way ++ way') = some (.directory entries)) :
    ∃ es, e.at? way = some (.directory es) := by
  rw [at?_append] at h
  obtain ⟨x, hx, hrest⟩ := Option.bind_eq_some_iff.1 h
  cases way' with
  | nil => exact ⟨entries, hx.trans hrest⟩
  | cons name names =>
    obtain ⟨es, -, rfl, -⟩ := at?_cons_directory hrest
    exact ⟨es, hx⟩

/-! ## Changing one directory -/

/-- The tree with the entries of the directory at the end of a way changed. -/
def alter (f : List (Bytes × Entry) → List (Bytes × Entry)) : List Bytes → Entry → Entry
  | [], .directory entries => .directory (f entries)
  | name :: names, .directory entries =>
    match entries.lookup name with
    | some e => .directory (setEntry name (alter f names e) entries)
    | none => .directory entries
  | _, e => e

section

variable {f g : List (Bytes × Entry) → List (Bytes × Entry)} {dir : List Bytes} {e : Entry}
  {entries : List (Bytes × Entry)}

theorem eq_directory_of_at?_nil (h : e.at? [] = some (.directory entries)) :
    e = .directory entries :=
  Option.some.inj h

/-- Writing an entry sets it in its directory. By induction on the way to the directory. -/
theorem put_eq_alter (h : e.at? dir = some (.directory entries)) (name : Bytes) (new : Entry) :
    e.put (dir ++ [name]) new = alter (setEntry name new) dir e := by
  induction dir generalizing e with
  | nil =>
    rw [eq_directory_of_at?_nil h]
    simp [put, alter]
  | cons m dir ih =>
    obtain ⟨es, e', rfl, hlookup, hat⟩ := at?_cons_directory h
    rw [List.cons_append, put, alter, hlookup, Option.getD_some, ih hat]

/-- Removing an entry takes its name from its directory. -/
theorem remove_eq_alter (h : e.at? dir = some (.directory entries)) (name : Bytes) :
    e.remove (dir ++ [name]) = alter (fun es => es.filter (·.1 != name)) dir e := by
  induction dir generalizing e with
  | nil =>
    rw [eq_directory_of_at?_nil h]
    rfl
  | cons m dir ih =>
    obtain ⟨es, e', rfl, hlookup, hat⟩ := at?_cons_directory h
    -- the way has a name left, so it is not the last step
    have hrest : ∃ x xs, dir ++ [name] = x :: xs := by
      cases dir with
      | nil => exact ⟨name, [], rfl⟩
      | cons x xs => exact ⟨x, xs ++ [name], rfl⟩
    obtain ⟨x, xs, hxs⟩ := hrest
    rw [List.cons_append, hxs, remove, alter, hlookup]
    · simp only
      rw [← hxs, ih hat]
    · simp

/-- What was changed is found changed. -/
theorem at?_alter (h : e.at? dir = some (.directory entries)) (f) :
    (alter f dir e).at? dir = some (.directory (f entries)) := by
  induction dir generalizing e with
  | nil =>
    rw [eq_directory_of_at?_nil h]
    rfl
  | cons m dir ih =>
    obtain ⟨es, e', rfl, hlookup, hat⟩ := at?_cons_directory h
    rw [alter, hlookup]
    simp only [at?, lookup_setEntry, if_true, Option.bind_some]
    exact ih hat

/-- Changes of one directory compose. -/
theorem alter_alter (h : e.at? dir = some (.directory entries)) :
    alter g dir (alter f dir e) = alter (g ∘ f) dir e := by
  induction dir generalizing e with
  | nil =>
    rw [eq_directory_of_at?_nil h]
    rfl
  | cons m dir ih =>
    obtain ⟨es, e', rfl, hlookup, hat⟩ := at?_cons_directory h
    simp only [alter, hlookup, lookup_setEntry, if_true, setEntry_setEntry, ih hat]

/-- A change is known by what it makes of the entries that are there. -/
theorem alter_congr (h : e.at? dir = some (.directory entries)) (hfg : f entries = g entries) :
    alter f dir e = alter g dir e := by
  induction dir generalizing e with
  | nil =>
    rw [eq_directory_of_at?_nil h]
    simp [alter, hfg]
  | cons m dir ih =>
    obtain ⟨es, e', rfl, hlookup, hat⟩ := at?_cons_directory h
    simp only [alter, hlookup, ih hat]

/-- A change that leaves the entries as they are changes nothing. -/
theorem alter_eq_self (h : e.at? dir = some (.directory entries)) (hf : f entries = entries) :
    alter f dir e = e := by
  induction dir generalizing e with
  | nil =>
    rw [eq_directory_of_at?_nil h]
    simp [alter, hf]
  | cons m dir ih =>
    obtain ⟨es, e', rfl, hlookup, hat⟩ := at?_cons_directory h
    simp only [alter, hlookup, ih hat, setEntry_of_lookup hlookup]

end

/-! ## What is seen from outside -/

/-- What a place shows: nothing, the content of a file, the target of a link, or that there is a
directory. -/
inductive View where
  | absent
  | file (content : Bytes)
  | link (target : Bytes)
  | directory
  deriving DecidableEq, Repr

/-- What is seen of an entry. -/
def view : Option Entry → View
  | none => .absent
  | some (.file content) => .file content
  | some (.link target) => .link target
  | some (.directory _) => .directory

theorem view_eq_directory_iff {e : Option Entry} :
    view e = .directory ↔ ∃ entries, e = some (.directory entries) := by
  rcases e with _ | ⟨_ | _ | _⟩ <;> simp [view]

theorem view_eq_file_iff {e : Option Entry} {content : Bytes} :
    view e = .file content ↔ e = some (.file content) := by
  rcases e with _ | ⟨_ | _ | _⟩ <;> simp [view]

theorem view_eq_link_iff {e : Option Entry} {target : Bytes} :
    view e = .link target ↔ e = some (.link target) := by
  rcases e with _ | ⟨_ | _ | _⟩ <;> simp [view]

/-- A change in a directory is not seen from anywhere but from the names in it. -/
theorem view_alter {f : List (Bytes × Entry) → List (Bytes × Entry)} {dir : List Bytes} {e : Entry}
    {entries : List (Bytes × Entry)} (h : e.at? dir = some (.directory entries)) {way : List Bytes}
    (hway : ∀ name rest, way = dir ++ name :: rest → view
      (((f entries).lookup name).bind (at? rest)) = view ((entries.lookup name).bind (at? rest))) :
    view ((alter f dir e).at? way) = view (e.at? way) := by
  induction dir generalizing e way with
  | nil =>
    rw [eq_directory_of_at?_nil h]
    cases way with
    | nil => rfl
    | cons name rest => exact hway name rest rfl
  | cons m dir ih =>
    obtain ⟨es, e', rfl, hlookup, hat⟩ := at?_cons_directory h
    rw [alter, hlookup]
    -- above the directory, only the names on the way to it are looked at
    cases way with
    | nil => rfl
    | cons name rest =>
      simp only [at?, lookup_setEntry]
      split
      · -- the place is beyond the next name on the way to the directory, where the induction goes
        next heq =>
        subst heq
        rw [hlookup]
        refine ih hat fun n ns hns => ?_
        exact hway n ns (by rw [hns]; rfl)
      · rfl

/-- Nothing is seen below what is not a directory. -/
theorem view_bind_at?_cons {x : Option Entry} (h : view x ≠ .directory) (name : Bytes)
    (names : List Bytes) :
    view (x.bind (at? (name :: names))) = .absent := by
  rcases x with _ | ⟨_ | _ | _⟩
  · rfl
  · rfl
  · rfl
  · exact absurd rfl h

/-- A change of one name, with a directory under it neither before nor after, is seen at its place
alone. -/
theorem view_alter_of_ne {f : List (Bytes × Entry) → List (Bytes × Entry)} {dir way : List Bytes}
    {name : Bytes} {e : Entry} {entries : List (Bytes × Entry)}
    (h : e.at? dir = some (.directory entries))
    (hbefore : view (e.at? (dir ++ [name])) ≠ .directory)
    (hafter : view ((f entries).lookup name) ≠ .directory)
    (hother : ∀ m, m ≠ name → (f entries).lookup m = entries.lookup m) (hne : way ≠ dir ++ [name]) :
    view ((alter f dir e).at? way) = view (e.at? way) := by
  rw [at?_concat, h] at hbefore
  refine view_alter h fun m rest hway => ?_
  by_cases hm : m = name
  · subst hm
    -- the place is not the name itself, so it is below, where nothing is seen
    have hrest : rest ≠ [] := by
      rintro rfl
      exact hne hway
    obtain ⟨n, ns, rfl⟩ := List.exists_cons_of_ne_nil hrest
    rw [view_bind_at?_cons hafter, view_bind_at?_cons hbefore]
  · rw [hother m hm]

/-- Writing a file where no directory is changes what is seen at its place alone. -/
theorem view_put {dir way : List Bytes} {name content : Bytes} {e : Entry}
    {entries : List (Bytes × Entry)} (h : e.at? dir = some (.directory entries))
    (hfile : view (e.at? (dir ++ [name])) ≠ .directory) (hne : way ≠ dir ++ [name]) :
    view ((e.put (dir ++ [name]) (.file content)).at? way) = view (e.at? way) := by
  rw [put_eq_alter h]
  refine view_alter_of_ne h hfile ?_ (fun m hm => ?_) hne
  · simp [lookup_setEntry, view]
  · rw [lookup_setEntry, if_neg hm]

/-- Removing what is not a directory changes what is seen at its place alone. -/
theorem view_remove {dir way : List Bytes} {name : Bytes} {e : Entry}
    {entries : List (Bytes × Entry)} (h : e.at? dir = some (.directory entries))
    (hfile : view (e.at? (dir ++ [name])) ≠ .directory) (hne : way ≠ dir ++ [name]) :
    view ((e.remove (dir ++ [name])).at? way) = view (e.at? way) := by
  rw [remove_eq_alter h]
  refine view_alter_of_ne h hfile ?_ (fun m hm => ?_) hne
  · simp [lookup_filter_bne, view]
  · rw [lookup_filter_bne, if_neg hm]

theorem at?_remove {dir : List Bytes} {name : Bytes} {e : Entry} {entries : List (Bytes × Entry)}
    (h : e.at? dir = some (.directory entries)) :
    (e.remove (dir ++ [name])).at? (dir ++ [name]) = none := by
  rw [remove_eq_alter h, at?_concat, at?_alter h]
  simp [lookup_filter_bne]

/-- What was written is found. -/
theorem at?_put {dir : List Bytes} {name : Bytes} {e new : Entry} {entries : List (Bytes × Entry)}
    (h : e.at? dir = some (.directory entries)) :
    (e.put (dir ++ [name]) new).at? (dir ++ [name]) = some new := by
  rw [put_eq_alter h, at?_concat, at?_alter h]
  simp [lookup_setEntry]

/-! ## Proper and plain trees -/

/-- A tree in which no directory holds a name twice, and every name can be one. There may be links
in it, or there are none. -/
inductive WellNamed (links : Bool) : Entry → Prop where
  | file (content : Bytes) : WellNamed links (.file content)
  | link (target : Bytes) : links = true → WellNamed links (.link target)
  | directory {entries : List (Bytes × Entry)} :
      (entries.map (·.1)).Nodup → (∀ x ∈ entries, Path.IsName x.1) →
      (∀ x ∈ entries, WellNamed links x.2) → WellNamed links (.directory entries)

/-- A tree with proper names and without links. -/
abbrev Plain : Entry → Prop := WellNamed false

namespace WellNamed

variable {links : Bool} {e x : Entry} {entries : List (Bytes × Entry)} {dir way : List Bytes}
  {name content : Bytes}

theorem lookup (h : WellNamed links (.directory entries)) (hlookup : entries.lookup name = some e) :
    Path.IsName name ∧ WellNamed links e := by
  cases h with
  | directory _ hnames hentries =>
    exact ⟨hnames _ (mem_of_lookup hlookup), hentries _ (mem_of_lookup hlookup)⟩

/-- What stands in the tree is well named as well. By induction on the way to it. -/
theorem at? (h : WellNamed links e) (hat : e.at? way = some x) :
    Path.IsWay way ∧ WellNamed links x := by
  induction way generalizing e with
  | nil =>
    obtain rfl := Option.some.inj hat
    exact ⟨.nil, h⟩
  | cons name way ih =>
    obtain ⟨es, e', rfl, hlookup, hat⟩ := at?_cons_directory hat
    obtain ⟨hname, he'⟩ := h.lookup hlookup
    obtain ⟨hway, hx⟩ := ih he' hat
    exact ⟨List.forall_mem_cons.2 ⟨hname, hway⟩, hx⟩

theorem setEntry (h : WellNamed links (.directory entries)) (hname : Path.IsName name)
    (he : WellNamed links e) : WellNamed links (.directory (setEntry name e entries)) := by
  cases h with
  | directory hnodup hnames hentries =>
    refine .directory (nodup_setEntry hnodup) ?_ ?_
    · exact Keyed.forall_mem_put hnames hname fun _ _ _ => hname
    · exact Keyed.forall_mem_put hentries he fun _ _ _ => he

/-- A tree stays well named when a directory in it does. By induction on the way. -/
theorem alter {f : List (Bytes × Entry) → List (Bytes × Entry)} (h : WellNamed links e)
    (hf : ∀ entries, WellNamed links (.directory entries) →
      WellNamed links (.directory (f entries))) :
    WellNamed links (alter f dir e) := by
  induction dir generalizing e with
  | nil =>
    cases e with
    | file content => exact h
    | link target => exact h
    | directory entries => exact hf entries h
  | cons m dir ih =>
    cases e with
    | file content => exact h
    | link target => exact h
    | directory entries =>
      rw [Entry.alter]
      split
      · -- the way goes on below a name of the directory
        next e' hlookup =>
        obtain ⟨hm, he'⟩ := h.lookup hlookup
        exact h.setEntry hm (ih he')
      · exact h

/-- Writing a file under a proper name keeps the tree well named. -/
theorem put (h : WellNamed links e) (hdir : e.at? dir = some (.directory entries))
    (hname : Path.IsName name) : WellNamed links (e.put (dir ++ [name]) (.file content)) := by
  rw [put_eq_alter hdir]
  exact h.alter fun entries hentries => hentries.setEntry hname (.file content)

end WellNamed

theorem Plain.not_link {tree : Entry} (h : tree.Plain) (way : List Bytes) (target : Bytes) :
    tree.at? way ≠ some (.link target) := by
  intro hat
  cases (h.at? hat).2 with
  | link _ hlinks => cases hlinks

end DocTree.Entry
