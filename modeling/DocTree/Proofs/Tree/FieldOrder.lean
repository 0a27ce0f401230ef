import DocTree.Proofs.Json.Pieces
import DocTree.Proofs.Tree.Truncation
import Mathlib.Data.List.Nodup
import Mathlib.Data.List.Perm.Basic

/-!
# The order of fields

The fields of a node may come in any order, and fields without a meaning may be added anywhere
(`Document.decode_rearranged`). Two things carry this. What a field does is decided by its name and
the text of its value alone, and it does it to its own part of the node: fields with different names
commute. And a text in which one node is exchanged for another that is read alike is itself read
alike, however deep the node is in it.

Objects are taken as texts: `ObjectText` ties a list of fields to its spellings, with any white
space and with any spelling of the keys, and of the values only that their brackets and strings are
closed. So texts that are refused are spoken of as well.
-/

namespace DocTree.Decode

open Json (Read Local Extent Place Balanced Blank Pieces Rounds Agree isStop keyed)

/-! ## Texts of nodes -/

/-- A field of a node object. -/
structure Member where
  /-- The name. -/
  name : Bytes
  /-- The value as it is written. -/
  text : Bytes
  deriving DecidableEq, Repr

/-- The names of fields that have a meaning. -/
def fieldNames : List Bytes :=
  [ascii "type", ascii "value", ascii "default", ascii "tagName", ascii "properties",
    ascii "children"]

/-- The spellings of a field: its name as a quoted string, a colon and its value, with white space
around each. -/
inductive MemberText (m : Member) : Bytes → Prop where
  | mk {lead key colon before after : Bytes} :
      Blank lead → key.head? = some (octet '"') → Json.string key = .ok (m.name, []) → Blank colon →
      Blank before → Balanced m.text → Blank after →
      MemberText m (lead ++ (key ++ (colon ++ octet ':' :: (before ++ m.text ++ after))))

/-- The spelling of a field without white space. -/
theorem MemberText.tight {m : Member} (key : Bytes) (hquote : key.head? = some (octet '"'))
    (hkey : Json.string key = .ok (m.name, [])) (htext : Balanced m.text) :
    MemberText m (key ++ octet ':' :: m.text) := by
  simpa using mk Blank.nil hquote hkey .nil .nil htext .nil

/-- The spellings of fields, with commas between them and the closing brace behind. -/
inductive MembersText : List Member → Bytes → Prop where
  | last {m : Member} {s : Bytes} : MemberText m s → MembersText [m] (s ++ [octet '}'])
  | more {m : Member} {ms : List Member} {s t : Bytes} :
      MemberText m s → MembersText ms t → MembersText (m :: ms) (s ++ octet ',' :: t)

/-- The spellings of an object with some fields. -/
inductive ObjectText : List Member → Bytes → Prop where
  | empty {lead inner : Bytes} :
      Blank lead → Blank inner → ObjectText [] (lead ++ octet '{' :: (inner ++ [octet '}']))
  | members {lead s : Bytes} {ms : List Member} :
      Blank lead → MembersText ms s → ObjectText ms (lead ++ octet '{' :: s)

/-- A text that leads from the beginning of a node to the beginning of one of its children: some
fields, a key that reads `children`, the opening bracket, and some items. -/
inductive ToChild : Bytes → Prop where
  | mk {lead fields key colon before items : Bytes} :
      Blank lead → Pieces fields → Json.string key = .ok (ascii "children", []) → Blank colon →
      Blank before → Pieces items →
      ToChild (lead ++ octet '{' ::
        (fields ++ (key ++ (colon ++ octet ':' :: (before ++ octet '[' :: items)))))

/-- Two texts that begin with a node, in which so many arrays and objects may be open, and that
differ in one node object: the fields of the second one are those of the first in any order, and
some others that have no meaning and can be passed over. -/
inductive Rearranged : Nat → Bytes → Bytes → Prop where
  /-- The object is the node itself. -/
  | here {room : Nat} {ms ms' extra : List Member} {s s' : Bytes} (rest : Bytes) :
      ObjectText ms s → ObjectText ms' s' → (ms.map (·.name)).Nodup → ms'.Perm (ms ++ extra) →
      (∀ m ∈ extra, m.name ∉ fieldNames ∧ Json.skip (room - 1) m.text = .ok []) →
      Rearranged room (s ++ rest) (s' ++ rest)
  /-- The object is in one of the children. -/
  | inside {room : Nat} {lead s s' : Bytes} :
      ToChild lead → Rearranged (room - 2) s s' → Rearranged room (lead ++ s) (lead ++ s')

/-! ## What one field does -/

section

variable {child : Bytes → Read Node} {room : Nat}

/-- The fields of a node with one more of them read, when its value is read to the end. -/
def Member.into? (child : Bytes → Read Node) (room : Nat) (f : Fields) (m : Member) :
    Option Fields :=
  match field child room f m.name m.text with
  | .ok (f', rest) => if Json.skipSpaces rest = [] then some f' else none
  | .error _ => none

/-- White space may follow the value. -/
theorem Member.into?_eq_some {f f' : Fields} {m : Member} :
    m.into? child room f = some f' ↔
      ∃ rest, field child room f m.name m.text = .ok (f', rest) ∧ Blank rest := by
  unfold into?
  cases field child room f m.name m.text with
  | error e => simp
  | ok r =>
    obtain ⟨g, rest⟩ := r
    simp [Json.blank_iff]
    grind

theorem string_append {key name : Bytes} (h : Json.string key = .ok (name, [])) (t : Bytes) :
    Json.string (key ++ t) = .ok (name, t) := by
  obtain ⟨used, hkey, hused⟩ := Json.string_local _ _ _ h
  rw [List.append_nil] at hkey
  exact hkey ▸ hused.reads t False.elim

/-- A member is read by its key, whatever white space is around it. -/
theorem keyed_append {σ : Type} {member : σ → Bytes → Bytes → Read σ} {lead key colon name : Bytes}
    (hlead : Blank lead) (hkey : Json.string key = .ok (name, [])) (hcolon : Blank colon) (acc : σ)
    (v : Bytes) :
    keyed member acc (lead ++ (key ++ (colon ++ octet ':' :: v))) = member acc name v := by
  have hexpect : Json.expect (octet ':') (colon ++ octet ':' :: v) = .ok v := by
    simp [Json.expect, hcolon.skipSpaces_append, Json.skipSpaces_cons (b := octet ':') rfl]
  rw [← Json.keyed_skipSpaces, hlead.skipSpaces_append, Json.keyed_skipSpaces, keyed,
    string_append hkey]
  simp [Except.bind, Except.map, hexpect]

theorem field_skipSpaces (f : Fields) (key s : Bytes) :
    field child room f key (Json.skipSpaces s) = field child room f key s := by
  simp [field, children, properties]

theorem field_blank_append {before : Bytes} (h : Blank before) (f : Fields) (key s : Bytes) :
    field child room f key (before ++ s) = field child room f key s := by
  rw [← field_skipSpaces, h.skipSpaces_append, field_skipSpaces]

/-- A field that can be read is read from any of its spellings, up to the comma or brace. -/
theorem MemberText.keyed_of_into? (hchild : Local True .outer child) {m : Member} {s : Bytes}
    (h : MemberText m s) {f f' : Fields} (hinto : m.into? child room f = some f') {b : UInt8}
    (hb : isStop b = true) (t : Bytes) :
    ∃ s₁, keyed (field child room) f (s ++ b :: t) = .ok (f', s₁) ∧
      Json.skipSpaces s₁ = b :: t := by
  obtain @⟨lead, key, colon, before, after, hlead, -, hkey, hcolon, hbefore, -, hafter⟩ := h
  obtain ⟨rest, hread, hrest⟩ := Member.into?_eq_some.1 hinto
  obtain ⟨used, htext, hused⟩ := field_local hchild room f m.name _ _ _ hread
  obtain ⟨hreads, hskip⟩ := hused.reads_stop (hrest.append hafter) hb t
  refine ⟨_, ?_, hskip⟩
  simp only [List.append_assoc, List.cons_append, keyed_append hlead hkey hcolon,
    field_blank_append hbefore, htext] at hreads ⊢
  exact hreads

/-- A value is never read into the white space behind it. -/
theorem eq_append_of_whole {used spaces text after : Bytes} (hused : Json.Whole .outer used)
    (hafter : Blank after) (h : used ++ spaces = text ++ after) : ∃ u, text = used ++ u := by
  -- otherwise what is read ends with a byte of the white space
  rcases List.append_eq_append_iff.1 h with ⟨u, htext, -⟩ | ⟨u, hu, hafter'⟩
  · exact ⟨u, htext⟩
  · rcases List.eq_nil_or_concat u with rfl | ⟨u, b, rfl⟩
    · exact ⟨[], by simpa using hu.symm⟩
    · have hspace : Json.isSpace b = true := hafter b (by simp [hafter'])
      have hsolid : Json.isSpace b = false := hused.solid b (by simp [hu])
      rw [hspace] at hsolid
      cases hsolid

/-- What is read from a spelling up to a comma or brace is what the field does, and it is read to
its end. -/
theorem MemberText.into?_of_keyed (hchild : Local True .outer child) {m : Member}
    {s s₁ t t' : Bytes} (h : MemberText m s) {f f' : Fields} {b b' : UInt8} (hb : isStop b = true)
    (hread : keyed (field child room) f (s ++ b :: t) = .ok (f', s₁))
    (hskip : Json.skipSpaces s₁ = b' :: t') (hb' : isStop b' = true) :
    b' = b ∧ t' = t ∧ m.into? child room f = some f' := by
  obtain @⟨lead, key, colon, before, after, hlead, -, hkey, hcolon, hbefore, htext, hafter⟩ := h
  have hpiece : Balanced (m.text ++ after) := htext.append hafter.balanced
  have hread : field child room f m.name ((m.text ++ after) ++ b :: t) = .ok (f', s₁) := by
    rw [← hread]
    simp only [List.append_assoc, List.cons_append, keyed_append hlead hkey hcolon,
      field_blank_append hbefore]
  obtain ⟨rfl, rfl, used, spaces, hsplit, hblank, hused⟩ :=
    Json.exists_extent_of_piece (field_local hchild room f m.name) hpiece hb hread hskip hb'
  obtain ⟨u, hu⟩ := eq_append_of_whole hused.whole hafter hsplit.symm
  -- what is left of the value is white space
  have hublank : Blank u := by
    have huafter : u ++ after = spaces := by
      rw [hu, List.append_assoc] at hsplit
      exact List.append_cancel_left hsplit
    exact fun c hc => hblank c (huafter ▸ List.mem_append_left after hc)
  refine ⟨rfl, rfl, Member.into?_eq_some.2 ⟨u, ?_, hublank⟩⟩
  rw [hu]
  exact hused.reads u fun _ => by simpa using Json.endsNumber_spaces hublank Json.endsNumber_nil

/-! ## What a list of fields does -/

/-- The fields of a node with some more of them read. -/
def intoAll? (child : Bytes → Read Node) (room : Nat) (f : Fields) (ms : List Member) :
    Option Fields :=
  ms.foldl (fun f m => f.bind (m.into? child room)) (some f)

/-- Fields are read one after another. -/
theorem intoAll?_append (f : Fields) (ms ms' : List Member) :
    intoAll? child room f (ms ++ ms') =
      (intoAll? child room f ms).bind (intoAll? child room · ms') := by
  have hnone : ∀ ms : List Member,
      ms.foldl (fun f m => f.bind (m.into? child room)) none = none := by
    intro ms
    induction ms with
    | nil => rfl
    | cons m ms ih => exact ih
  simp only [intoAll?, List.foldl_append]
  cases ms.foldl (fun f m => f.bind (m.into? child room)) (some f) with
  | none => exact hnone ms'
  | some f => rfl

theorem intoAll?_cons (f : Fields) (m : Member) (ms : List Member) :
    intoAll? child room f (m :: ms) = (m.into? child room f).bind (intoAll? child room · ms) :=
  intoAll?_append f [m] ms

/-- The loop over the members of an object does what its fields do, one after another. -/
theorem MembersText.rounds_iff (hchild : Local True .outer child) {ms : List Member} {s : Bytes}
    (h : MembersText ms s) {f f' : Fields} {rest r : Bytes} :
    Rounds (octet '}') (keyed (field child room)) f (s ++ rest) f' r ↔
      r = rest ∧ intoAll? child room f ms = some f' := by
  induction h generalizing f with
  | @last m s hm =>
    have hone : intoAll? child room f [m] = m.into? child room f := rfl
    rw [List.append_assoc, List.singleton_append, hone]
    constructor
    · intro hrun
      -- the brace that follows the last field ends the loop
      cases hrun with
      | last hread hskip =>
        obtain ⟨-, rfl, hinto⟩ := hm.into?_of_keyed hchild rfl hread hskip rfl
        exact ⟨rfl, hinto⟩
      | more hread hskip _ =>
        obtain ⟨hcomma, -⟩ := hm.into?_of_keyed hchild rfl hread hskip rfl
        cases hcomma
    · rintro ⟨rfl, hinto⟩
      obtain ⟨s₁, hread, hskip⟩ := hm.keyed_of_into? hchild hinto (b := octet '}') rfl r
      exact .last hread hskip
  | @more m ms s t hm _ ih =>
    rw [List.append_assoc, List.cons_append, intoAll?_cons]
    constructor
    · intro hrun
      -- the comma that follows another field goes on with it
      cases hrun with
      | last hread hskip =>
        obtain ⟨hbrace, -⟩ := hm.into?_of_keyed hchild rfl hread hskip rfl
        cases hbrace
      | more hread hskip hrun =>
        obtain ⟨-, rfl, hinto⟩ := hm.into?_of_keyed hchild rfl hread hskip rfl
        obtain ⟨rfl, hall⟩ := ih.1 hrun
        exact ⟨rfl, by rw [hinto]; exact hall⟩
    · rintro ⟨rfl, hinto⟩
      obtain ⟨g, hinto, hall⟩ := Option.bind_eq_some_iff.1 hinto
      obtain ⟨s₁, hread, hskip⟩ := hm.keyed_of_into? hchild hinto (b := octet ',') rfl (t ++ r)
      exact .more hread hskip (ih.2 ⟨rfl, hall⟩)

theorem MembersText.head {ms : List Member} {s : Bytes} (h : MembersText ms s) (rest : Bytes) :
    (Json.skipSpaces (s ++ rest)).head? = some (octet '"') := by
  -- each field begins with its key
  have hmember : ∀ {m : Member} {s : Bytes}, MemberText m s → ∀ rest,
      (Json.skipSpaces (s ++ rest)).head? = some (octet '"') := by
    intro m s hm rest
    obtain @⟨lead, key, colon, before, after, hlead, hquote, -⟩ := hm
    cases key with
    | nil => cases hquote
    | cons b key =>
      obtain rfl := Option.some.inj hquote
      rw [List.append_assoc, hlead.skipSpaces_append, List.cons_append, List.cons_append,
        Json.skipSpaces_cons rfl]
      rfl
  cases h with
  | last hm => rw [List.append_assoc]; exact hmember hm _
  | more hm _ => rw [List.append_assoc]; exact hmember hm _

/-- A node is what the members between its braces make. -/
theorem nodeWith_brace_iff {lead inner r : Bytes} {n : Node} (hlead : Blank lead) :
    node.nodeWith child room (lead ++ octet '{' :: inner) = .ok (n, r) ↔
      ∃ f, Json.members (field child room) {} inner = .ok (f, r) ∧ f.toNode = .ok n := by
  have hskip : Json.skipSpaces (lead ++ octet '{' :: inner) = octet '{' :: inner := by
    rw [hlead.skipSpaces_append, Json.skipSpaces_cons rfl]
  have hkind : Json.nextKind (lead ++ octet '{' :: inner) = .object := by
    rw [Json.nextKind, hskip]
    rfl
  rw [node.nodeWith, if_pos hkind, hskip, List.drop_one, List.tail_cons]
  cases Json.members (field child room) {} inner with
  | error e => simp
  | ok p =>
    constructor
    · intro h
      obtain ⟨n', hn, heq⟩ := map_eq_ok_iff.1 h
      obtain ⟨rfl, rfl⟩ := Prod.mk.inj heq
      exact ⟨p.1, rfl, hn⟩
    · rintro ⟨f, hp, hn⟩
      obtain rfl := Except.ok.inj hp
      simp only [hn, Except.map]

/-- An object is read as the node that its fields describe. -/
theorem ObjectText.nodeWith_iff (hchild : Local True .outer child) {ms : List Member} {s : Bytes}
    (h : ObjectText ms s) {rest r : Bytes} {n : Node} :
    node.nodeWith child room (s ++ rest) = .ok (n, r) ↔
      r = rest ∧ ∃ f, intoAll? child room {} ms = some f ∧ f.toNode = .ok n := by
  -- it is enough to know what the members between the braces make
  suffices hmembers : ∃ lead inner, s ++ rest = lead ++ octet '{' :: inner ∧ Blank lead ∧
      ∀ f, Json.members (field child room) {} inner = .ok (f, r) ↔
        r = rest ∧ intoAll? child room {} ms = some f by
    obtain ⟨lead, inner, heq, hlead, hmembers⟩ := hmembers
    rw [heq, nodeWith_brace_iff hlead]
    simp only [hmembers, and_assoc, exists_and_left]
  cases h with
  | @empty lead inner hlead hinner =>
    refine ⟨lead, inner ++ octet '}' :: rest, by simp, hlead, fun f => ?_⟩
    have hskip : Json.skipSpaces (inner ++ octet '}' :: rest) = octet '}' :: rest := by
      rw [hinner.skipSpaces_append, Json.skipSpaces_cons rfl]
    have hnone : intoAll? child room {} [] = some {} := rfl
    simp only [Json.members, hskip, beq_self_eq_true, if_true, Except.ok.injEq, Prod.mk.injEq,
      hnone, Option.some.injEq, and_comm, eq_comm]
  | @members lead inner _ hlead hms =>
    refine ⟨lead, inner ++ rest, by simp, hlead, fun f => ?_⟩
    rw [Json.members_eq_ok_iff_of_head (field_local hchild room) (hms.head rest) (by decide),
      hms.rounds_iff hchild]
    simp

/-! ## Fields commute -/

/-- What a field brings to the node. -/
inductive Part where
  | type (t : Bytes)
  | value (t : Bytes)
  | isDefault (b : Bool)
  | tag (t : Bytes)
  | props (props : Properties)
  /-- Children, the last one first. -/
  | children (nodes : List Node)

/-- The name of the field that brings a part. -/
def Part.name : Part → Bytes
  | .type _ => ascii "type"
  | .value _ => ascii "value"
  | .isDefault _ => ascii "default"
  | .tag _ => ascii "tagName"
  | .props _ => ascii "properties"
  | .children _ => ascii "children"

/-- The fields with a part put in its place. Children are added to those that are there. -/
def Fields.put (f : Fields) : Option Part → Fields
  | some (.type t) => { f with type := t }
  | some (.value t) => { f with value := t }
  | some (.isDefault b) => { f with isDefault := b }
  | some (.tag t) => { f with tag := t }
  | some (.props props) => { f with props := props }
  | some (.children nodes) => { f with children := nodes ++ f.children }
  | none => f

/-- Parts of different names do not get in each other's way. -/
theorem Fields.put_comm {p q : Option Part} (hne : ∀ p' ∈ p, ∀ q' ∈ q, p'.name ≠ q'.name)
    (f : Fields) : (f.put p).put q = (f.put q).put p := by
  rcases p with _ | p
  · rfl
  rcases q with _ | q
  · rfl
  have hne := hne p rfl q rfl
  cases p <;> cases q <;> first | rfl | exact absurd rfl hne

/-- A reader that fails, or brings a part of a name, whatever the fields in front of it are. -/
def Brings (key : Bytes) (read : Fields → Read Fields) : Prop :=
  (∃ e, ∀ f, read f = .error e) ∨
    ∃ (part : Option Part) (rest : Bytes), (∀ p ∈ part, p.name = key) ∧
      ∀ f, read f = .ok (f.put part, rest)

/-- A value that is read brings its part. -/
theorem Brings.of_part {α : Type} {key : Bytes} {read : Fields → Read Fields} {r : Read α}
    (part : α → Part) (hname : ∀ a, (part a).name = key)
    (h : ∀ f, read f = r.map fun (a, rest) => (f.put (some (part a)), rest)) : Brings key read := by
  cases r with
  | error e => exact .inl ⟨e, h⟩
  | ok r =>
    refine .inr ⟨some (part r.1), r.2, ?_, h⟩
    intro p hp
    obtain rfl := Option.some.inj hp
    exact hname r.1

/-- A value that is passed over brings nothing. -/
theorem Brings.of_skip {key : Bytes} {read : Fields → Read Fields} {r : Except Json.Fault Bytes}
    (h : ∀ f, read f = r.map (f, ·)) : Brings key read := by
  cases r with
  | error e => exact .inl ⟨e, h⟩
  | ok rest => exact .inr ⟨none, rest, by simp, h⟩

/-- A loop that starts with a changed state ends with the changed state, if its items keep the
change. -/
theorem items_map {σ : Type} {item : σ → Bytes → Read σ} {c : σ → σ}
    (h : ∀ acc s, item (c acc) s = (item acc s).map fun r => (c r.1, r.2)) (acc : σ) (s : Bytes) :
    Json.items item (c acc) s = (Json.items item acc s).map fun r => (c r.1, r.2) := by
  have hloop : ∀ rounds acc s, Json.itemsFrom item rounds (c acc) s =
      (Json.itemsFrom item rounds acc s).map fun r => (c r.1, r.2) := by
    intro rounds acc s
    -- round by round; the texts that are left are the same
    fun_induction Json.itemsFrom item rounds acc s <;> rw [Json.itemsFrom.eq_def] <;>
      simp_all [Except.map]
  unfold Json.items
  cases Json.skipSpaces s with
  | nil => exact hloop _ _ _
  | cons b rest =>
    simp only
    split
    · rfl
    · exact hloop _ _ _

/-- An array brings the children in it, whatever children there are. -/
theorem children_brings (s : Bytes) : Brings (ascii "children") (children child room · s) := by
  unfold children
  cases Json.nextKind s with
  | null => exact .of_skip fun f => rfl
  | array =>
    by_cases hroom : room = 0
    · exact .inl ⟨.malformed, fun f => by simp only [hroom, if_true]⟩
    · -- the children of an array that starts with none, and then those in front of it
      simp only [if_neg hroom]
      exact .of_part (fun g : Fields => .children g.children) (fun _ => rfl) fun f =>
        items_map (c := fun g : Fields => { f with children := g.children ++ f.children })
          (fun g s => by simp only [map_map]; rfl) {} _
  | _ => exact .inl ⟨_, fun f => rfl⟩

theorem field_of_notMem {key : Bytes} (h : key ∉ fieldNames) (f : Fields) (s : Bytes) :
    field child room f key s = (Json.skip room s).map (f, ·) := by
  simp only [fieldNames, List.mem_cons, List.not_mem_nil, or_false, not_or] at h
  simp [field, h]

/-- What a field brings is decided by its name and its value alone. -/
theorem field_brings (child : Bytes → Read Node) (room : Nat) (key s : Bytes) :
    Brings key (field child room · key s) := by
  by_cases hkey : key ∈ fieldNames
  · simp only [fieldNames, List.mem_cons, List.not_mem_nil, or_false] at hkey
    rcases hkey with rfl | rfl | rfl | rfl | rfl | rfl
    · exact .of_part .type (fun _ => rfl) fun f => rfl
    · by_cases hkind : Json.nextKind s = .string
      · exact .of_part .value (fun _ => rfl) fun f => if_pos hkind
      · exact .of_skip fun f => if_neg hkind
    · by_cases hkind : Json.nextKind s = .bool
      · exact .of_part .isDefault (fun _ => rfl) fun f => if_pos hkind
      · exact .of_skip fun f => if_neg hkind
    · exact .of_part .tag (fun _ => rfl) fun f => rfl
    · exact .of_part .props (fun _ => rfl) fun f => rfl
    · exact children_brings s
  · exact .of_skip fun f => field_of_notMem hkey f s

/-- So what a field does to a node is to put a part in its place. -/
theorem Member.into?_brings (child : Bytes → Read Node) (room : Nat) (m : Member) :
    (∀ f, m.into? child room f = none) ∨
      ∃ part : Option Part, (∀ p ∈ part, p.name = m.name) ∧
        ∀ f, m.into? child room f = some (f.put part) := by
  unfold into?
  rcases field_brings child room m.name m.text with ⟨e, h⟩ | ⟨part, rest, hname, h⟩
  · exact .inl fun f => by simp only [h]
  · -- the value is read to its end, or something is left
    by_cases hrest : Json.skipSpaces rest = []
    · exact .inr ⟨part, hname, fun f => by simp only [h, hrest, if_true]⟩
    · exact .inl fun f => by simp only [h, hrest, if_false]

/-- Fields with different names commute. -/
theorem Member.into?_comm {m m' : Member} (hne : m.name ≠ m'.name) (f : Fields) :
    (m.into? child room f).bind (m'.into? child room) =
      (m'.into? child room f).bind (m.into? child room) := by
  rcases into?_brings child room m with h | ⟨p, hp, h⟩ <;>
  rcases into?_brings child room m' with h' | ⟨q, hq, h'⟩
  · simp [h, h']
  · simp [h, h']
  · simp [h, h']
  · have hput : (f.put p).put q = (f.put q).put p := by
      refine Fields.put_comm (fun p' hp' q' hq' => ?_) f
      rw [hp p' hp', hq q' hq']
      exact hne
    simp [h, h', hput]

/-- A field that has no meaning and can be passed over does nothing. -/
theorem Member.into?_foreign {m : Member} (hname : m.name ∉ fieldNames)
    (hskip : Json.skip room m.text = .ok []) (f : Fields) : m.into? child room f = some f := by
  refine Member.into?_eq_some.2 ⟨[], ?_, .nil⟩
  rw [field_of_notMem hname, hskip]
  rfl

/-- Fields with different names do the same in any order and with fields without a meaning among
them. -/
theorem intoAll?_perm {ms ms' extra : List Member} (hnames : (ms.map (·.name)).Nodup)
    (hperm : ms'.Perm (ms ++ extra))
    (hextra : ∀ m ∈ extra, m.name ∉ fieldNames ∧ Json.skip room m.text = .ok []) (f : Fields) :
    intoAll? child room f ms' = intoAll? child room f ms := by
  have hforeign : ∀ m ∈ extra, ∀ f, m.into? child room f = some f := by
    intro m hm
    exact Member.into?_foreign (hextra m hm).1 (hextra m hm).2
  -- any two of the fields commute: one of them has no meaning, or their names are different
  have hcomm : ∀ m ∈ ms ++ extra, ∀ m' ∈ ms ++ extra, ∀ f : Option Fields,
      (f.bind (m.into? child room)).bind (m'.into? child room) =
        (f.bind (m'.into? child room)).bind (m.into? child room) := by
    intro m hm m' hm' f
    cases f with
    | none => rfl
    | some f =>
      rcases List.mem_append.1 hm with hm | hm
      · rcases List.mem_append.1 hm' with hm' | hm'
        · by_cases hname : m.name = m'.name
          · rw [List.inj_on_of_nodup_map hnames hm hm' hname]
          · exact Member.into?_comm hname f
        · have hid : m'.into? child room = some := funext (hforeign m' hm')
          simp [hid]
      · have hid : m.into? child room = some := funext (hforeign m hm)
        simp [hid]
  -- fields without a meaning do nothing
  have hdone : ∀ extra : List Member, (∀ m ∈ extra, ∀ f, m.into? child room f = some f) →
      ∀ f, intoAll? child room f extra = some f := by
    intro extra hextra
    induction extra with
    | nil => exact fun f => rfl
    | cons m extra ih =>
      intro f
      rw [intoAll?_cons, hextra m (by simp), Option.bind_some]
      exact ih (fun m hm => hextra m (List.mem_cons_of_mem _ hm)) f
  calc intoAll? child room f ms'
      = intoAll? child room f (ms ++ extra) :=
        (hperm.symm.foldl_eq' (fun m hm m' hm' f => hcomm m hm m' hm' f) (some f)).symm
    _ = (intoAll? child room f ms).bind (intoAll? child room · extra) :=
        intoAll?_append f ms extra
    _ = intoAll? child room f ms := by simp [hdone extra hforeign]

/-! ## Exchanging one node -/

theorem ObjectText.head {ms : List Member} {s : Bytes} (h : ObjectText ms s) (rest : Bytes) :
    (Json.skipSpaces (s ++ rest)).head? = some (octet '{') := by
  cases h with
  | empty hlead _ => rw [List.append_assoc]; exact hlead.head_append rfl _
  | members hlead _ => rw [List.append_assoc]; exact hlead.head_append rfl _

theorem ToChild.head {lead : Bytes} (h : ToChild lead) (s : Bytes) :
    (Json.skipSpaces (lead ++ s)).head? = some (octet '{') := by
  obtain ⟨hlead⟩ := h
  rw [List.append_assoc]
  exact hlead.head_append rfl _

theorem Rearranged.head {s s' : Bytes} (h : Rearranged room s s') :
    (Json.skipSpaces s).head? = some (octet '{') ∧
    (Json.skipSpaces s').head? = some (octet '{') := by
  cases h with
  | here rest hs hs' => exact ⟨hs.head rest, hs'.head rest⟩
  | inside hlead _ => exact ⟨hlead.head _, hlead.head _⟩

/-- Objects with the same fields in another order are read alike. -/
theorem ObjectText.nodeWith_agree (hchild : Local True .outer child) {ms ms' extra : List Member}
    {s s' : Bytes} (hs : ObjectText ms s) (hs' : ObjectText ms' s')
    (hnames : (ms.map (·.name)).Nodup) (hperm : ms'.Perm (ms ++ extra))
    (hextra : ∀ m ∈ extra, m.name ∉ fieldNames ∧ Json.skip room m.text = .ok []) (rest : Bytes) :
    Agree (node.nodeWith child room (s ++ rest)) (node.nodeWith child room (s' ++ rest)) := by
  rintro ⟨n, r⟩
  rw [hs.nodeWith_iff hchild, hs'.nodeWith_iff hchild, intoAll?_perm hnames hperm hextra]

/-- A key begins with a byte that closes nothing. -/
theorem key_head {key name : Bytes} (h : Json.string key = .ok (name, [])) :
    ∃ b, Json.Role.ofByte b ≠ .closing ∧ ∀ s, (Json.skipSpaces (key ++ s)).head? = some b := by
  obtain ⟨used, hkey, hused⟩ := Json.string_local _ _ _ h
  rw [List.append_nil] at hkey
  subst hkey
  refine Balanced.head hused.whole.balanced fun hblank => ?_
  rw [← Json.string_skipSpaces, Json.blank_iff.1 hblank] at h
  cases h

/-- Arrays with the same text in front of one child are read alike, if the child is. -/
theorem children_agree (hchild : Local True .outer child)
    (hspaces : ∀ s, child (Json.skipSpaces s) = child s) {items s s' : Bytes}
    (hitems : Pieces items) (hs : (Json.skipSpaces s).head? = some (octet '{'))
    (hs' : (Json.skipSpaces s').head? = some (octet '{')) (h : Agree (child s) (child s'))
    (f : Fields) :
    Agree (children child room f (octet '[' :: (items ++ s)))
      (children child room f (octet '[' :: (items ++ s'))) := by
  unfold children
  simp only [Json.nextKind_bracket, Json.skipSpaces_cons (b := octet '[') rfl, List.drop_one,
    List.tail_cons]
  split
  · exact fun r => Iff.rfl
  · refine Json.items_agree (fun f => ?_) (fun f s => ?_) hitems (b := octet '{') (by decide) hs hs'
      (fun f => h.map _) f
    · exact hchild.map fun n => { f with children := n :: f.children }
    · simp only [hspaces]

/-- Nodes with the same text in front of one child are read alike, if the child is. -/
theorem ToChild.nodeWith_agree (hchild : Local True .outer child)
    (hspaces : ∀ s, child (Json.skipSpaces s) = child s) {lead s s' : Bytes} (hlead : ToChild lead)
    (hs : (Json.skipSpaces s).head? = some (octet '{'))
    (hs' : (Json.skipSpaces s').head? = some (octet '{')) (h : Agree (child s) (child s')) :
    Agree (node.nodeWith child room (lead ++ s)) (node.nodeWith child room (lead ++ s')) := by
  obtain @⟨lead, fields, key, colon, before, items, hlead, hfields, hkey, hcolon, hbefore,
    hitems⟩ := hlead
  -- the member `children` is read alike
  have hkeyed : ∀ f, Agree
      (keyed (field child room) f
        (key ++ (colon ++ octet ':' :: (before ++ octet '[' :: (items ++ s)))))
      (keyed (field child room) f
        (key ++ (colon ++ octet ':' :: (before ++ octet '[' :: (items ++ s'))))) := by
    intro f
    have hread : ∀ v, keyed (field child room) f (key ++ (colon ++ octet ':' :: v)) =
        field child room f (ascii "children") v := keyed_append .nil hkey hcolon f
    rw [hread, hread, field_blank_append hbefore, field_blank_append hbefore]
    exact children_agree hchild hspaces hitems hs hs' h f
  obtain ⟨b, hb, hhead⟩ := key_head hkey
  have hmembers :=
    Json.members_agree (field_local hchild room) hfields hb (hhead _) (hhead _) hkeyed {}
  rintro ⟨n, r⟩
  simp only [List.append_assoc, List.cons_append]
  rw [nodeWith_brace_iff hlead, nodeWith_brace_iff hlead]
  exact exists_congr fun f => and_congr_left fun _ => hmembers (f, r)

end

theorem node_skipSpaces (room : Nat) (s : Bytes) : node room (Json.skipSpaces s) = node room s := by
  match room with
  | 0 => simp [node]
  | 1 => simp [node, node.nodeWith]
  | room + 2 => simp [node, node.nodeWith]

/-- By induction on the way to the object that is exchanged. -/
theorem Rearranged.node_agree {room : Nat} {s s' : Bytes} (h : Rearranged room s s') :
    Agree (node room s) (node room s') := by
  have hfail : Local True .outer (fun _ : Bytes => (.error .malformed : Read Node)) :=
    Local.of_fails fun s r h => by cases h
  induction h with
  | @here room ms ms' extra s s' rest hs hs' hnames hperm hextra =>
    match room with
    | 0 => simp [node, Agree]
    | 1 => exact hs.nodeWith_agree hfail hs' hnames hperm hextra rest
    | room + 2 => exact hs.nodeWith_agree (node_local room).loosen hs' hnames hperm hextra rest
  | @inside room lead s s' hlead hs ih =>
    match room with
    | 0 => simp [node, Agree]
    | 1 => exact hlead.nodeWith_agree hfail (fun _ => rfl) hs.head.1 hs.head.2 fun r => Iff.rfl
    | room + 2 =>
      exact hlead.nodeWith_agree (node_local room).loosen (node_skipSpaces room) hs.head.1 hs.head.2
        ih

end DocTree.Decode

namespace DocTree

open Decode (MemberText ToChild Rearranged)

/-- A document is decoded if a root is read. -/
theorem Document.decode_eq_ok_iff {s : Bytes} {d : Document} :
    Document.decode s = .ok d ↔
      ∃ rest, Decode.node Json.maxNesting s = .ok (.root d.children, rest) := by
  unfold Document.decode
  obtain ⟨children⟩ := d
  rcases Decode.node Json.maxNesting s with e | ⟨n, rest⟩
  · simp
  · cases n <;> simp

/-- **The order of fields does not matter, and neither do fields without a meaning.** -/
theorem Document.decode_rearranged {s s' : Bytes} (h : Rearranged Json.maxNesting s s')
    (d : Document) : Document.decode s = .ok d ↔ Document.decode s' = .ok d := by
  rw [decode_eq_ok_iff, decode_eq_ok_iff]
  exact exists_congr fun rest => h.node_agree (.root d.children, rest)

/-- A child with its fields the other way round and a field without a meaning between them, behind a
child with a brace in its text. -/
theorem Document.decode_rearranged_child : ∃ lead old new rest : Bytes,
    lead =
      ascii "\x7b\"type\":\"root\",\"children\":[\x7b\"type\":\"text\",\"value\":\"\x7d\"\x7d," ∧
    old = ascii "\x7b\"type\":\"element\",\"tagName\":\"b\"\x7d" ∧
    new = ascii "\x7b\"tagName\":\"b\",\"x\":[1,2],\"type\":\"element\"\x7d" ∧
    Rearranged Json.maxNesting (lead ++ (old ++ rest)) (lead ++ (new ++ rest)) ∧
    ∃ d, Document.decode (lead ++ (old ++ rest)) = .ok d ∧
      Document.decode (lead ++ (new ++ rest)) = .ok d := by
  have hlead : ToChild
      (ascii "\x7b\"type\":\"root\",\"children\":[\x7b\"type\":\"text\",\"value\":\"\x7d\"\x7d,") :=
    @ToChild.mk [] (ascii "\"type\":\"root\",") (ascii "\"children\"") [] []
      (ascii "\x7b\"type\":\"text\",\"value\":\"\x7d\"\x7d,") .nil
      (@Json.Pieces.cons (ascii "\"type\":\"root\"") [] (by decide) .nil) rfl .nil .nil
      (@Json.Pieces.cons (ascii "\x7b\"type\":\"text\",\"value\":\"\x7d\"\x7d") [] (by decide) .nil)
  have htype : MemberText ⟨ascii "type", ascii "\"element\""⟩ (ascii "\"type\":\"element\"") :=
    .tight (ascii "\"type\"") rfl rfl (by decide)
  have htag : MemberText ⟨ascii "tagName", ascii "\"b\""⟩ (ascii "\"tagName\":\"b\"") :=
    .tight (ascii "\"tagName\"") rfl rfl (by decide)
  have hforeign : MemberText ⟨ascii "x", ascii "[1,2]"⟩ (ascii "\"x\":[1,2]") :=
    .tight (ascii "\"x\"") rfl rfl (by decide)
  have hextra : ∀ m ∈ [(⟨ascii "x", ascii "[1,2]"⟩ : Decode.Member)], m.name ∉ Decode.fieldNames ∧
      Json.skip (Json.maxNesting - 2 - 1) m.text = .ok [] := by
    intro m hm
    obtain rfl := List.mem_singleton.1 hm
    exact ⟨by decide, rfl⟩
  have h : Rearranged Json.maxNesting _ _ := .inside hlead
    (.here (ascii "]\x7d") (.members .nil (.more htype (.last htag)))
      (.members .nil (.more htag (.more hforeign (.last htype)))) (by decide) (by decide) hextra)
  refine ⟨_, _, _, ascii "]\x7d", rfl, rfl, rfl, h, ?_⟩
  refine (exists_of_isOk ?_).imp fun d hd => ⟨hd, (decode_rearranged h d).1 hd⟩
  decide +kernel

end DocTree
