import DocTree.Tree.Basic

/-!
# Laws of property lists

A property list is an ordered map as long as no name stands in it twice. Writing to it keeps that
(`Distinct.set`), reads back what was written (`get?_set`), and writing a list of properties with
distinct names into the empty list gives that list (`setAll_nil_of_distinct`).
-/

namespace DocTree.Properties

/-! ## Names -/

/-- The names of the properties, in their order. -/
def names (props : Properties) : List Bytes := props.map (·.name)

/-- No name stands in the list twice. -/
def Distinct (props : Properties) : Prop := props.names.Nodup

instance (props : Properties) : Decidable props.Distinct :=
  inferInstanceAs (Decidable props.names.Nodup)

@[simp] theorem names_nil : names [] = [] := rfl

@[simp] theorem names_cons (p : Property) (ps : Properties) :
    names (p :: ps) = p.name :: names ps := rfl

theorem distinct_nil : Distinct [] := List.nodup_nil

/-- A first property is distinct from the others if its name is not among theirs. -/
theorem distinct_cons {p : Property} {ps : Properties} :
    Distinct (p :: ps) ↔ p.name ∉ names ps ∧ Distinct ps := by
  simp [Distinct]

/-! ## Reading -/

theorem get?_cons (name : Bytes) (p : Property) (ps : Properties) :
    get? name (p :: ps) = if p.name = name then some p.value else get? name ps := by
  rw [get?, Keyed.find?_cons]
  split <;> rfl

/-- A value that is read stands in the list, under the name that it is read by. -/
theorem mem_of_get? {name : Bytes} {props : Properties} {v : Value} (h : props.get? name = some v) :
    ⟨name, v⟩ ∈ props := by
  obtain ⟨p, hfind, rfl⟩ := Option.map_eq_some_iff.1 h
  obtain ⟨hmem, rfl⟩ := Keyed.of_find? hfind
  exact hmem

theorem exists_mem_of_get? {name : Bytes} {props : Properties} {v : Value}
    (h : props.get? name = some v) : ∃ p ∈ props, p.value = v :=
  ⟨⟨name, v⟩, mem_of_get? h, rfl⟩

/-- Nothing is read exactly under names that are not there. -/
theorem get?_eq_none {name : Bytes} {props : Properties} :
    get? name props = none ↔ name ∉ names props := by
  rw [get?, Option.map_eq_none_iff, Keyed.find?_eq_none_iff, names]

theorem mem_names_of_get? {name : Bytes} {props : Properties} {v : Value}
    (h : get? name props = some v) : name ∈ names props := by
  by_cases hm : name ∈ names props
  · exact hm
  · rw [get?_eq_none.2 hm] at h
    cases h

/-- In a list with distinct names every property can be read. -/
theorem get?_of_mem {props : Properties} (h : props.Distinct) {p : Property} (hp : p ∈ props) :
    get? p.name props = some p.value := by
  rw [get?, Keyed.find?_of_mem h hp, Option.map_some]

/-- In a list with distinct names it does not matter from which end a name is looked for. -/
theorem get?_reverse {props : Properties} (h : props.Distinct) (name : Bytes) :
    get? name props.reverse = get? name props := by
  rw [get?, Keyed.find?_reverse h, get?]

/-! ## Writing -/

/-- Properties are replaced as a whole. -/
theorem mergeable : Keyed.Mergeable Property.name Keyed.replace := Keyed.mergeable_replace _

theorem set_cons (name : Bytes) (v : Value) (p : Property) (ps : Properties) :
    set name v (p :: ps) = if p.name = name then ⟨name, v⟩ :: ps else p :: set name v ps := by
  rw [set, Keyed.put]
  simp only [beq_iff_eq, Keyed.replace, set]

theorem names_set_of_mem {name : Bytes} {props : Properties} (h : name ∈ names props) (v : Value) :
    names (set name v props) = names props :=
  Keyed.map_put_of_mem mergeable h

/-- A name is written where it stands, or at the end. -/
theorem names_set (name : Bytes) (v : Value) (props : Properties) :
    names (set name v props) = if name ∈ names props then names props else names props ++ [name] :=
  Keyed.map_put mergeable ⟨name, v⟩ props

/-- Writing what is there changes nothing. -/
theorem set_of_get? {name : Bytes} {props : Properties} {v : Value} (h : get? name props = some v) :
    set name v props = props := by
  obtain ⟨p, hfind, rfl⟩ := Option.map_eq_some_iff.1 h
  obtain ⟨-, rfl⟩ := Keyed.of_find? hfind
  exact Keyed.put_of_find? hfind rfl

/-- Writing keeps the names distinct. -/
theorem Distinct.set {props : Properties} (h : props.Distinct) (name : Bytes) (v : Value) :
    (props.set name v).Distinct :=
  Keyed.nodup_map_put mergeable h

/-- What holds of the properties and of a new one holds after the new one is written. -/
theorem forall_mem_set {P : Property → Prop} {props : Properties} (hprops : ∀ p ∈ props, P p)
    {name : Bytes} {v : Value} (hnew : P ⟨name, v⟩) : ∀ p ∈ props.set name v, P p :=
  Keyed.forall_mem_put hprops hnew fun _ _ _ => hnew

/-- What is read under a name is what was written last under it. -/
theorem get?_set (m name : Bytes) (v : Value) (props : Properties) :
    get? m (props.set name v) = if name = m then some v else get? m props := by
  rw [get?, set, Keyed.find?_put mergeable]
  by_cases h : name = m
  · rw [if_pos h, if_pos h]
    cases Keyed.find? Property.name m props <;> rfl
  · rw [if_neg h, if_neg h, get?]

/-! ## Writing many properties -/

/-- Writes properties one after another. -/
def setAll (acc ps : Properties) : Properties := Keyed.putAll Property.name Keyed.replace acc ps

theorem setAll_eq_foldl (acc ps : Properties) :
    setAll acc ps = ps.foldl (fun acc p => acc.set p.name p.value) acc := rfl

/-- What holds of the properties and of all new ones holds after these are written. -/
theorem forall_mem_setAll {P : Property → Prop} {acc ps : Properties} (hacc : ∀ p ∈ acc, P p)
    (hps : ∀ p ∈ ps, P p) : ∀ p ∈ setAll acc ps, P p :=
  Keyed.forall_mem_putAll hacc hps fun _ _ _ hnew => hnew

theorem Distinct.setAll {acc : Properties} (h : acc.Distinct) (ps : Properties) :
    (acc.setAll ps).Distinct :=
  Keyed.nodup_map_putAll mergeable h ps

theorem mem_names_setAll {m : Bytes} {acc ps : Properties} :
    m ∈ names (acc.setAll ps) ↔ m ∈ names acc ∨ m ∈ names ps :=
  Keyed.mem_map_putAll mergeable

/-- The last property written under a name decides what is read under it. -/
theorem get?_setAll (m : Bytes) (acc ps : Properties) :
    get? m (acc.setAll ps) = (get? m ps.reverse).or (get? m acc) := by
  rw [get?, setAll, Keyed.find?_putAll_replace, Option.map_or]
  rfl

/-- Names that are new and distinct are added in their order. -/
theorem setAll_eq_append {acc ps : Properties} (h : Distinct (acc ++ ps)) :
    acc.setAll ps = acc ++ ps :=
  Keyed.putAll_eq_append h

/-- Properties with distinct names are written into the empty list as they are. -/
theorem setAll_nil_of_distinct {ps : Properties} (h : ps.Distinct) : setAll [] ps = ps :=
  setAll_eq_append h

/-- New names are added in the order in which they come first. -/
theorem names_setAll_nil (ps : Properties) : names (setAll [] ps) = (names ps).eraseDups :=
  Keyed.map_putAll_nil mergeable ps

/-! ## Changing values -/

/-- Every value changed by a function of its name. -/
def mapValues (f : Bytes → Value → Value) (props : Properties) : Properties :=
  props.map fun p => ⟨p.name, f p.name p.value⟩

@[simp] theorem mapValues_nil (f : Bytes → Value → Value) : mapValues f [] = [] := rfl

@[simp] theorem mapValues_cons (f : Bytes → Value → Value) (p : Property) (ps : Properties) :
    mapValues f (p :: ps) = ⟨p.name, f p.name p.value⟩ :: mapValues f ps := rfl

/-- Changing values before they are written or afterwards is the same. -/
theorem mapValues_setAll (f : Bytes → Value → Value) (acc ps : Properties) :
    mapValues f (acc.setAll ps) = (mapValues f acc).setAll (mapValues f ps) := by
  refine Keyed.map_putAll_of_comm ?_ ?_ acc ps
  · exact fun _ => rfl
  · exact fun _ _ => rfl

theorem mapValues_congr {f g : Bytes → Value → Value} {props : Properties}
    (h : ∀ p ∈ props, f p.name p.value = g p.name p.value) :
    mapValues f props = mapValues g props :=
  List.map_congr_left fun p hp => by rw [h p hp]

/-- A change that leaves all values leaves the list. -/
theorem mapValues_of_forall {f : Bytes → Value → Value} {props : Properties}
    (h : ∀ p ∈ props, f p.name p.value = p.value) : mapValues f props = props := by
  refine (List.map_congr_left fun p hp => ?_).trans (List.map_id props)
  rw [h p hp]
  rfl

/-- Where names are distinct, writing a value in place of one that is there changes it alone. -/
theorem set_eq_mapValues {props : Properties} (h : props.Distinct) {name : Bytes}
    (hname : name ∈ names props) (v : Value) :
    props.set name v = mapValues (fun n old => if n = name then v else old) props := by
  induction props with
  | nil => cases hname
  | cons p ps ih =>
    obtain ⟨hp, hps⟩ := distinct_cons.1 h
    by_cases heq : p.name = name
    · -- the others have other names
      have hothers : ∀ q ∈ ps, (if q.name = name then v else q.value) = q.value := by
        intro q hq
        refine if_neg fun hqn : q.name = name => hp ?_
        rw [heq, ← hqn]
        exact List.mem_map_of_mem hq
      rw [set_cons, if_pos heq, mapValues_cons, if_pos heq, mapValues_of_forall hothers, heq]
    · have hmem : name ∈ names ps := by simpa [Ne.symm heq] using hname
      rw [set_cons, if_neg heq, mapValues_cons, if_neg heq, ih hps hmem]

/-! ## All values under a name -/

/-- The values of the properties with a name, in their order. -/
def valuesOf (name : Bytes) (props : Properties) : List Value :=
  (props.filter (·.name == name)).map (·.value)

/-- The first of the values is read. -/
theorem get?_eq_head? (name : Bytes) (props : Properties) :
    get? name props = (valuesOf name props).head? := by
  rw [get?, Keyed.find?, valuesOf, List.head?_map, List.head?_filter]

/-- From the end, the last of the values is read. -/
theorem get?_reverse_eq_getLast? (name : Bytes) (props : Properties) :
    get? name props.reverse = (valuesOf name props).getLast? := by
  rw [get?_eq_head?, valuesOf, List.filter_reverse, List.map_reverse, List.head?_reverse, valuesOf]

/-- Writing replaces the first of the values, or adds one. -/
theorem valuesOf_set (name : Bytes) (v : Value) (props : Properties) :
    valuesOf name (props.set name v) = v :: (valuesOf name props).tail := by
  induction props with
  | nil => simp [set, Keyed.put, valuesOf]
  | cons p ps ih => by_cases hp : p.name = name <;> simp_all [set_cons, valuesOf]

end DocTree.Properties
