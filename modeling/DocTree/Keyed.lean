/-!
# Lists with keys

A list whose entries have keys is an ordered map, as long as no key stands in it twice. `put` writes
an entry into such a list: an entry that has its key already stays where it is and is merged with
the new one, and a new key goes to the end. The names in a directory, the properties of an element,
the declarations of a style and the fields of a table are such lists, and they differ in what is
merged.

After entries were put in one after another (`putAll`), the keys stand in the order in which they
came first (`map_putAll`), and under each key stands the first entry that had it, merged with the
last (`find?_putAll`).
-/

namespace DocTree.Keyed

variable {α κ : Type}

/-! ## Reading and writing -/

section

variable [BEq κ]

/-- The first entry with a key. -/
def find? (key : α → κ) (k : κ) (entries : List α) : Option α := entries.find? (key · == k)

theorem find?_append {key : α → κ} (k : κ) (entries more : List α) :
    find? key k (entries ++ more) = (find? key k entries).or (find? key k more) :=
  List.find?_append

/-- Merges an entry into the first one with its key, or puts it at the end. -/
def put (key : α → κ) (merge : α → α → α) (new : α) : List α → List α
  | [] => [new]
  | old :: rest =>
    if key old == key new then merge old new :: rest else old :: put key merge new rest

/-- Puts in entries one after another. -/
def putAll (key : α → κ) (merge : α → α → α) (entries more : List α) : List α :=
  more.foldl (fun entries new => put key merge new entries) entries

theorem putAll_cons (key : α → κ) (merge : α → α → α) (new : α) (entries more : List α) :
    putAll key merge entries (new :: more) = putAll key merge (put key merge new entries) more :=
  rfl

end

/-- Merging in which the new entry takes the place of the old one. -/
def replace (_old new : α) : α := new

/-- What is asked of merging: the key stays, an entry merged with itself is as it was, and of two
entries that are merged in only the last one counts. -/
structure Mergeable (key : α → κ) (merge : α → α → α) : Prop where
  key_merge : ∀ {old new}, key old = key new → key (merge old new) = key old
  merge_self : ∀ old, merge old old = old
  merge_merge : ∀ old new newer, merge (merge old new) newer = merge old newer

/-- Replacing is merging. -/
theorem mergeable_replace (key : α → κ) : Mergeable key replace where
  key_merge h := h.symm
  merge_self _ := rfl
  merge_merge _ _ _ := rfl

variable [BEq κ] [LawfulBEq κ] {key : α → κ} {merge : α → α → α}

/-! ## Finding -/

theorem find?_cons [DecidableEq κ] (k : κ) (e : α) (entries : List α) :
    find? key k (e :: entries) = if key e = k then some e else find? key k entries := by
  by_cases h : key e = k <;> simp [find?, h]

theorem of_find? {k : κ} {entries : List α} {e : α} (h : find? key k entries = some e) :
    e ∈ entries ∧ key e = k := by
  refine ⟨List.mem_of_find?_eq_some h, ?_⟩
  simpa using List.find?_some (p := (key · == k)) h

theorem find?_eq_none_iff {k : κ} {entries : List α} :
    find? key k entries = none ↔ k ∉ entries.map key := by
  simp [find?, List.find?_eq_none]

theorem find?_isSome_iff {k : κ} {entries : List α} :
    (find? key k entries).isSome = true ↔ k ∈ entries.map key := by
  simp [find?, List.find?_isSome]

/-- A key that stands somewhere is found from either end. -/
theorem find?_reverse_isSome (k : κ) (entries : List α) :
    (find? key k entries.reverse).isSome = (find? key k entries).isSome := by
  rw [Bool.eq_iff_iff, find?_isSome_iff, find?_isSome_iff, List.map_reverse, List.mem_reverse]

/-- Where no key stands twice, every entry is found under its key. -/
theorem find?_of_mem {entries : List α} (h : (entries.map key).Nodup) {e : α} (he : e ∈ entries) :
    find? key (key e) entries = some e := by
  induction entries with
  | nil => cases he
  | cons first entries ih =>
    rw [List.map_cons, List.nodup_cons] at h
    rcases List.mem_cons.1 he with rfl | he
    · exact List.find?_cons_of_pos (BEq.refl _)
    · have hne : key first ≠ key e := fun heq => h.1 (heq ▸ List.mem_map_of_mem he)
      rw [find?, List.find?_cons_of_neg (by simpa using hne)]
      exact ih h.2 he

/-- Where no key stands twice, it does not matter from which end one looks. -/
theorem find?_reverse {entries : List α} (h : (entries.map key).Nodup) (k : κ) :
    find? key k entries.reverse = find? key k entries := by
  cases hfind : find? key k entries with
  | none =>
    rw [find?_eq_none_iff] at hfind ⊢
    rwa [List.map_reverse, List.mem_reverse]
  | some e =>
    obtain ⟨he, rfl⟩ := of_find? hfind
    refine find?_of_mem ?_ (List.mem_reverse.2 he)
    rw [List.map_reverse, List.Nodup, List.pairwise_reverse]
    exact h.imp Ne.symm

/-! ## Putting in one entry -/

/-- A new key goes to the end. -/
theorem put_of_notMem {new : α} {entries : List α} (h : key new ∉ entries.map key) :
    put key merge new entries = entries ++ [new] := by
  induction entries with
  | nil => rfl
  | cons e entries ih =>
    rw [List.map_cons, List.mem_cons, not_or] at h
    simp [put, Ne.symm h.1, ih h.2]

/-- A key that is there is written in its place, whatever stands behind. -/
theorem put_append_of_mem {new : α} {entries : List α} (h : key new ∈ entries.map key)
    (more : List α) :
    put key merge new (entries ++ more) = put key merge new entries ++ more := by
  induction entries with
  | nil => cases h
  | cons e entries ih =>
    by_cases he : key e = key new
    · simp [put, he]
    · have hrest : key new ∈ entries.map key := List.mem_of_ne_of_mem (Ne.symm he) h
      simp [put, he, ih hrest]

/-- What holds of the entries and of the new one, and is kept in merging, holds afterwards. -/
theorem forall_mem_put {P : α → Prop} {new : α} {entries : List α} (hentries : ∀ e ∈ entries, P e)
    (hnew : P new) (hmerge : ∀ e, P e → key e = key new → P (merge e new)) :
    ∀ e ∈ put key merge new entries, P e := by
  induction entries with
  | nil => simpa [put] using hnew
  | cons first entries ih =>
    obtain ⟨hfirst, hentries⟩ := List.forall_mem_cons.1 hentries
    rw [put]
    split
    · next hkey => exact List.forall_mem_cons.2 ⟨hmerge first hfirst (eq_of_beq hkey), hentries⟩
    · exact List.forall_mem_cons.2 ⟨hfirst, ih hentries⟩

/-- An entry that is merged without effect leaves the list as it was. -/
theorem put_of_find? {new old : α} {entries : List α} (h : find? key (key new) entries = some old)
    (hmerge : merge old new = old) : put key merge new entries = entries := by
  induction entries with
  | nil => cases h
  | cons e entries ih =>
    rw [put]
    by_cases he : key e = key new
    · obtain rfl : e = old := by simpa [find?, he] using h
      rw [if_pos (by simpa using he), hmerge]
    · rw [if_neg (by simpa using he), ih (by simpa [find?, he] using h)]

/-- Of two entries with one key the one that was put in first is gone, if it is replaced. -/
theorem put_put_replace {new newer : α} (hkey : key new = key newer) (entries : List α) :
    put key replace newer (put key replace new entries) = put key replace newer entries := by
  induction entries with
  | nil => simp [put, hkey, replace]
  | cons e entries ih =>
    by_cases he : key e = key newer
    · simp [put, hkey, he, replace]
    · simp [put, hkey, he, ih]

/-- A change of the entries that goes along with merging can be made before or afterwards. -/
theorem map_put_of_comm {f : α → α} (hkey : ∀ e, key (f e) = key e)
    (hmerge : ∀ old new, f (merge old new) = merge (f old) (f new)) (new : α) (entries : List α) :
    (put key merge new entries).map f = put key merge (f new) (entries.map f) := by
  induction entries with
  | nil => rfl
  | cons e entries ih => by_cases he : key e = key new <;> simp [put, hkey, he, hmerge, ih]

section

variable (hm : Mergeable key merge)

include hm

theorem map_put_of_mem {new : α} {entries : List α} (h : key new ∈ entries.map key) :
    (put key merge new entries).map key = entries.map key := by
  induction entries with
  | nil => cases h
  | cons e entries ih =>
    by_cases he : key e = key new
    · simp [put, he, hm.key_merge he]
    · have hrest : key new ∈ entries.map key := List.mem_of_ne_of_mem (Ne.symm he) h
      simp [put, he, ih hrest]

/-- A key is written where it stands, or at the end. -/
theorem map_put [DecidableEq κ] (new : α) (entries : List α) :
    (put key merge new entries).map key =
      if key new ∈ entries.map key then entries.map key else entries.map key ++ [key new] := by
  by_cases h : key new ∈ entries.map key
  · rw [if_pos h, map_put_of_mem hm h]
  · rw [if_neg h, put_of_notMem h, List.map_append, List.map_singleton]

theorem mem_map_put {k : κ} {new : α} {entries : List α} :
    k ∈ (put key merge new entries).map key ↔ k ∈ entries.map key ∨ k = key new := by
  by_cases h : key new ∈ entries.map key
  · rw [map_put_of_mem hm h]
    exact ⟨Or.inl, fun hk => hk.elim id (· ▸ h)⟩
  · rw [put_of_notMem h, List.map_append, List.map_singleton, List.mem_append, List.mem_singleton]

/-- Writing keeps the keys distinct. -/
theorem nodup_map_put {new : α} {entries : List α} (h : (entries.map key).Nodup) :
    ((put key merge new entries).map key).Nodup := by
  by_cases hnew : key new ∈ entries.map key
  · rwa [map_put_of_mem hm hnew]
  · rw [put_of_notMem hnew, List.map_append, List.map_singleton, List.nodup_append]
    refine ⟨h, by simp, fun a ha b hb hab => hnew ?_⟩
    rwa [← List.mem_singleton.1 hb, ← hab]

/-- Under its key the new entry is found, merged with the one that was there. -/
theorem find?_put [DecidableEq κ] (k : κ) (new : α) (entries : List α) :
    find? key k (put key merge new entries) =
      if key new = k then some ((find? key k entries).elim new (merge · new))
      else find? key k entries := by
  induction entries with
  | nil => simp [put, find?]
  | cons e entries ih =>
    rw [put]
    by_cases he : key e = key new
    · -- the new entry is merged in here
      rw [if_pos (by simpa using he), find?_cons, find?_cons, hm.key_merge he, he]
      by_cases hk : key new = k
      · simp [hk]
      · simp [hk]
    · rw [if_neg (by simpa using he), find?_cons, find?_cons, ih]
      by_cases hek : key e = k
      · rw [if_pos hek, if_pos hek, if_neg fun hk => he (hek.trans hk.symm)]
      · rw [if_neg hek, if_neg hek]

end

/-! ## Putting in many entries -/

/-- What holds of all entries, and is kept in merging, holds afterwards. By induction on the entries
that are put in. -/
theorem forall_mem_putAll {P : α → Prop} {entries more : List α} (hentries : ∀ e ∈ entries, P e)
    (hmore : ∀ e ∈ more, P e) (hmerge : ∀ old new, P old → P new → P (merge old new)) :
    ∀ e ∈ putAll key merge entries more, P e := by
  induction more generalizing entries with
  | nil => exact hentries
  | cons new more ih =>
    obtain ⟨hnew, hmore⟩ := List.forall_mem_cons.1 hmore
    exact ih (forall_mem_put hentries hnew fun e he _ => hmerge e new he hnew) hmore

/-- Entries with keys that are new and distinct are added in their order. -/
theorem putAll_eq_append {entries more : List α} (h : ((entries ++ more).map key).Nodup) :
    putAll key merge entries more = entries ++ more := by
  induction more generalizing entries with
  | nil => rw [List.append_nil]; rfl
  | cons new more ih =>
    have hnew : key new ∉ entries.map key := by
      intro hmem
      rw [List.map_append, List.nodup_append] at h
      exact h.2.2 _ hmem _ List.mem_cons_self rfl
    rw [putAll_cons, put_of_notMem hnew, ih (by rwa [List.append_assoc]), List.append_assoc,
      List.singleton_append]

/-- Changes of the entries that go along with merging can be made before or afterwards. -/
theorem map_putAll_of_comm {f : α → α} (hkey : ∀ e, key (f e) = key e)
    (hmerge : ∀ old new, f (merge old new) = merge (f old) (f new)) (entries more : List α) :
    (putAll key merge entries more).map f = putAll key merge (entries.map f) (more.map f) := by
  induction more generalizing entries with
  | nil => rfl
  | cons new more ih =>
    rw [putAll_cons, ih, map_put_of_comm hkey hmerge, List.map_cons, putAll_cons]

section

variable (hm : Mergeable key merge)

include hm

/-- Writing many entries keeps the keys distinct. -/
theorem nodup_map_putAll {entries : List α} (h : (entries.map key).Nodup) (more : List α) :
    ((putAll key merge entries more).map key).Nodup := by
  induction more generalizing entries with
  | nil => exact h
  | cons new more ih => exact ih (nodup_map_put hm h)

theorem mem_map_putAll {k : κ} {entries more : List α} :
    k ∈ (putAll key merge entries more).map key ↔ k ∈ entries.map key ∨ k ∈ more.map key := by
  induction more generalizing entries with
  | nil => simp [putAll]
  | cons new more ih =>
    rw [putAll_cons, ih, mem_map_put hm, List.map_cons, List.mem_cons, or_assoc]

/-- New keys stand behind the others, in the order in which they come first. -/
theorem map_putAll (entries more : List α) :
    (putAll key merge entries more).map key =
      entries.map key ++ ((more.map key).filter (!(entries.map key).contains ·)).eraseDups := by
  induction more generalizing entries with
  | nil => exact (List.append_nil _).symm
  | cons new more ih =>
    rw [putAll_cons, ih, List.map_cons]
    by_cases hnew : key new ∈ entries.map key
    · -- an old key is no new place
      rw [map_put_of_mem hm hnew, List.filter_cons_of_neg (by simpa using hnew)]
    · -- a new key hides the later ones that equal it, which is what `eraseDups` does behind it
      have hfilter : (more.map key).filter (!(entries.map key ++ [key new]).contains ·) =
          ((more.map key).filter (!(entries.map key).contains ·)).filter (!· == key new) := by
        rw [List.filter_filter]
        refine List.filter_congr fun k _ => ?_
        rw [List.contains_append, List.contains_cons, List.contains_nil, Bool.or_false, Bool.not_or,
          Bool.and_comm]
      rw [put_of_notMem hnew, List.map_append, List.map_singleton, hfilter,
        List.filter_cons_of_pos (by simpa using hnew), List.eraseDups_cons, List.append_assoc,
        List.singleton_append]

/-- Into the empty list, the keys are put in the order in which they come first. -/
theorem map_putAll_nil (more : List α) :
    (putAll key merge [] more).map key = (more.map key).eraseDups := by
  rw [map_putAll hm, List.filter_eq_self.2 (by simp)]
  rfl

/-- Under a key stands the first entry that had it, merged with the last one that was put in. -/
theorem find?_putAll [DecidableEq κ] (k : κ) (entries more : List α) :
    find? key k (putAll key merge entries more) =
      ((find? key k entries).or (find? key k more)).map fun first =>
        (find? key k more.reverse).elim first (merge first) := by
  induction more generalizing entries with
  | nil =>
    change find? key k entries = ((find? key k entries).or none).map fun first => first
    simp
  | cons new more ih =>
    rw [putAll_cons, ih, find?_put hm, List.reverse_cons, find?_append, find?_cons, find?_cons]
    by_cases hnew : key new = k
    · -- the new entry comes behind what was there, and in front of the rest
      simp only [if_pos hnew]
      cases find? key k entries <;> cases find? key k more.reverse <;>
        simp [hm.merge_self, hm.merge_merge]
    · simp [hnew, find?]

end

/-- If entries are replaced, the last one with a key counts. -/
theorem find?_putAll_replace [DecidableEq κ] (k : κ) (entries more : List α) :
    find? key k (putAll key replace entries more) =
      (find? key k more.reverse).or (find? key k entries) := by
  rw [find?_putAll (mergeable_replace key)]
  have hisSome : (find? key k more.reverse).isSome = (find? key k more).isSome :=
    find?_reverse_isSome k more
  cases hlast : find? key k more.reverse with
  | none =>
    have hnone : find? key k more = none := by simpa [hlast] using hisSome.symm
    simp [hnone]
  | some last =>
    obtain ⟨first, hfirst⟩ := Option.isSome_iff_exists.1 (hisSome.symm.trans (by rw [hlast]; rfl))
    cases find? key k entries <;> simp [hfirst, replace]

end DocTree.Keyed
