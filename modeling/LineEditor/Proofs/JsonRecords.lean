import LineEditor.Proofs.JsonLaws
import Mathlib.Data.List.Nodup

/-!
# Records and their fields

A `Layout` lists the fields of a record, each with the way to set and to get it, and what may be
written for it.  `Describes` says what an object makes of a record: the members that have the name
of a field give the field its value, all other fields stay, and all other members are passed over. 
So the order of the members does not matter, nor do the unknown ones (`Describes.congr`).

A library takes the members one after the other.  What is carried along: the members that are left
still describe, from the record as it is now, the record that is meant (`Describes.changes`).

* `Library.Lawful.writes_object`      a record written as an object;
* `Library.Lawful.writes_positions`   a record written as a list of its fields.
-/

namespace LineEditor.Json

variable {α σ : Type}

/-! ## Fields -/

/-- a field of a record that is built up in the type `σ`: its name, how it is set and got, and which
texts mean a value of it -/
structure FieldSpec (σ : Type) where
  name : String
  {Value : Type}
  set : Value → σ → σ
  /-- the value, unless there is none yet -/
  get : σ → Option Value
  Means : Value → Text → Prop
  get_set : ∀ a x, get (set a x) = some a

/-- the fields of a record: each has a name of its own and can be set on its own, and a record is
known by its fields -/
structure Layout (σ : Type) where
  parts : List (FieldSpec σ)
  names : (parts.map FieldSpec.name).Nodup
  apart : ∀ p ∈ parts, ∀ q ∈ parts, p.name ≠ q.name → ∀ a x, p.get (q.set a x) = p.get x
  ext : ∀ {x y}, (∀ p ∈ parts, p.get x = p.get y) → x = y

/-- some text for the field means its value in the record -/
def FieldSpec.Tells (p : FieldSpec σ) (x : σ) (t : Text) : Prop :=
  ∃ a, Padded (p.Means a) t ∧ p.get x = some a

/-- the field of a reader has the name, and reads what is meant as the change to it -/
def FieldSpec.IsReadBy (p : FieldSpec σ) (f : RecordField σ) : Prop :=
  f.name = p.name ∧ ∀ {a t}, p.Means a t → Writes f.value t (p.set a)

theorem FieldSpec.IsReadBy.of {p : FieldSpec σ} {name : String} {reader : Reader p.Value}
    (hname : name = p.name) (h : ∀ {a t}, p.Means a t → Writes reader t a) :
    p.IsReadBy (.of name reader p.set) :=
  ⟨hname, fun ha => (h ha).map p.set⟩

namespace Layout

variable {l : Layout σ}

theorem eq_of_name {p q : FieldSpec σ} (hp : p ∈ l.parts) (hq : q ∈ l.parts)
    (h : p.name.toList = q.name.toList) : p = q :=
  List.inj_on_of_nodup_map l.names hp hq (String.toList_inj.mp h)

/-- a field that is set agrees from then on, and no other one changes -/
theorem set_rest {p : FieldSpec σ} {ps : List (FieldSpec σ)} {record x : σ} {a : p.Value}
    (hp : p ∈ l.parts) (hget : p.get x = some a)
    (hrest : ∀ q ∈ l.parts, q ∈ p :: ps ∨ q.get record = q.get x) :
    ∀ q ∈ l.parts, q ∈ ps ∨ q.get (p.set a record) = q.get x := by
  intro q hq
  by_cases hname : q.name = p.name
  · cases eq_of_name hq hp (congrArg String.toList hname)
    exact .inr (by rw [p.get_set, hget])
  · rw [l.apart q hq p hp hname]
    obtain hmem | heq := hrest q hq
    · obtain rfl | hmem := List.mem_cons.mp hmem
      · exact absurd rfl hname
      · exact .inl hmem
    · exact .inr heq

end Layout

/-! ## What an object says -/

/-- a name that a field has stands at most once, and any other name has a value that can be passed
over -/
structure Layout.Tidy (l : Layout σ) (ms : List (Text × Text)) : Prop where
  once : ∀ p ∈ l.parts, (ms.map Prod.fst).count p.name.toList ≤ 1
  unknown : ∀ m ∈ ms, (∀ p ∈ l.parts, m.1 ≠ p.name.toList) → WellFormed m.2

/-- the members give the field its value, or it has the value that it starts with -/
def FieldSpec.Fills (p : FieldSpec σ) (start : σ) (ms : List (Text × Text)) (x : σ) : Prop :=
  (∃ t, (p.name.toList, t) ∈ ms ∧ p.Tells x t) ∨
    ((∀ t, (p.name.toList, t) ∉ ms) ∧ p.get x = p.get start)

/-- the members of an object turn the record `start` into `x` -/
def Describes (l : Layout σ) (start : σ) (ms : List (Text × Text)) (x : σ) : Prop :=
  ∀ p ∈ l.parts, p.Fills start ms x

/-- the value of each member that has the name of a field is of the type of the field -/
def Layout.Typed (l : Layout σ) (ms : List (Text × Text)) : Prop :=
  ∀ p ∈ l.parts, ∀ t, (p.name.toList, t) ∈ ms → ∃ a, Padded (p.Means a) t

/-- the members that have the name of a field -/
def Layout.known (l : Layout σ) (ms : List (Text × Text)) : List (Text × Text) :=
  ms.filter fun m => l.parts.any fun p => p.name.toList = m.1

section
variable {l : Layout σ} {ms ns : List (Text × Text)} {start x : σ} {p q : FieldSpec σ}

theorem Layout.mem_known (hp : p ∈ l.parts) {t : Text} :
    (p.name.toList, t) ∈ l.known ms ↔ (p.name.toList, t) ∈ ms := by
  refine List.mem_filter.trans (and_iff_left ?_)
  exact List.any_eq_true.mpr ⟨p, hp, decide_eq_true rfl⟩

theorem FieldSpec.Fills.congr (h : p.Fills start ms x)
    (hmem : ∀ t, (p.name.toList, t) ∈ ns ↔ (p.name.toList, t) ∈ ms) : p.Fills start ns x := by
  obtain ⟨t, ht, htells⟩ | ⟨hnone, hstart⟩ := h
  · exact .inl ⟨t, (hmem t).mpr ht, htells⟩
  · exact .inr ⟨fun t ht => hnone t ((hmem t).mp ht), hstart⟩

/-- objects with the same known members, in any order, make the same record -/
theorem Describes.congr (h : Describes l start ms x) (hperm : (l.known ns).Perm (l.known ms)) :
    Describes l start ns x := by
  intro p hp
  refine (h p hp).congr fun t => ?_
  rw [← Layout.mem_known hp, hperm.mem_iff, Layout.mem_known hp]

theorem Layout.Tidy.perm (h : l.Tidy ms) (hperm : ns.Perm ms) : l.Tidy ns where
  once p hp := by
    rw [(hperm.map Prod.fst).count_eq]
    exact h.once p hp
  unknown m hm := h.unknown m (hperm.mem_iff.mp hm)

theorem Layout.Tidy.tail {m : Text × Text} (h : l.Tidy (m :: ms)) : l.Tidy ms where
  once p hp := (List.Sublist.count_le _ (List.sublist_cons_self ..)).trans (h.once p hp)
  unknown n hn := h.unknown n (List.mem_cons_of_mem m hn)

theorem Layout.Tidy.not_mem {v : Text} (h : l.Tidy ((p.name.toList, v) :: ms)) (hp : p ∈ l.parts)
    (t : Text) : (p.name.toList, t) ∉ ms := by
  intro hmem
  have honce := h.once p hp
  rw [List.map_cons, List.count_cons_self] at honce
  have hpos : 0 < (ms.map Prod.fst).count p.name.toList :=
    List.count_pos_iff.mpr (List.mem_map_of_mem hmem)
  omega

/-- a name that a field has stands with one value -/
theorem Layout.Tidy.eq {t u : Text} (h : l.Tidy ms) (hp : p ∈ l.parts)
    (ht : (p.name.toList, t) ∈ ms) (hu : (p.name.toList, u) ∈ ms) : t = u := by
  induction ms with
  | nil => cases ht
  | cons m ms ih =>
    obtain rfl | ht' := List.mem_cons.mp ht
    · obtain heq | hu' := List.mem_cons.mp hu
      · exact (congrArg Prod.snd heq).symm
      · exact absurd hu' (h.not_mem hp u)
    · obtain rfl | hu' := List.mem_cons.mp hu
      · exact absurd ht' (h.not_mem hp t)
      · exact ih h.tail ht' hu'

theorem Describes.typed (h : Describes l start ms x) (htidy : l.Tidy ms) : l.Typed ms := by
  intro p hp t ht
  obtain ⟨u, hu, a, hmeans, -⟩ | ⟨hnone, -⟩ := h p hp
  · cases htidy.eq hp ht hu
    exact ⟨a, hmeans⟩
  · exact absurd ht (hnone t)

/-! What one member says: nothing, if its name is unknown; the value of its field, if it is known.
Both are equivalences, since they take an object apart for reading it and put a record together. -/

theorem fills_cons {name v : Text} (hname : p.name.toList ≠ name) :
    p.Fills start ((name, v) :: ms) x ↔ p.Fills start ms x := by
  have hmem (t : Text) : (p.name.toList, t) ∈ (name, v) :: ms ↔ (p.name.toList, t) ∈ ms := by
    refine List.mem_cons.trans (or_iff_right fun heq => ?_)
    exact hname (congrArg Prod.fst heq)
  exact ⟨fun h => h.congr fun t => (hmem t).symm, fun h => h.congr hmem⟩

theorem fills_set (hp : p ∈ l.parts) (hq : q ∈ l.parts) (hname : p.name ≠ q.name) (a : q.Value) :
    p.Fills (q.set a start) ms x ↔ p.Fills start ms x := by
  unfold FieldSpec.Fills
  rw [l.apart p hp q hq hname]

theorem describes_nil : Describes l start [] x ↔ start = x := by
  constructor
  · intro h
    refine l.ext fun p hp => ?_
    obtain ⟨t, ht, -⟩ | ⟨-, hstart⟩ := h p hp
    · cases ht
    · exact hstart.symm
  · rintro rfl p -
    exact .inr ⟨fun _ => List.not_mem_nil, rfl⟩

theorem describes_unknown {name v : Text} (hname : ∀ p ∈ l.parts, name ≠ p.name.toList) :
    Describes l start ((name, v) :: ms) x ↔ Describes l start ms x := by
  constructor
  · exact fun h p hp => (fills_cons (hname p hp).symm).mp (h p hp)
  · exact fun h p hp => (fills_cons (hname p hp).symm).mpr (h p hp)

theorem describes_known {v : Text} (htidy : l.Tidy ((p.name.toList, v) :: ms)) (hp : p ∈ l.parts) :
    Describes l start ((p.name.toList, v) :: ms) x ↔
      ∃ a, Padded (p.Means a) v ∧ Describes l (p.set a start) ms x := by
  have hother {q : FieldSpec σ} (hq : q ∈ l.parts) (hname : q.name ≠ p.name) (a : p.Value) :
      q.Fills start ((p.name.toList, v) :: ms) x ↔ q.Fills (p.set a start) ms x := by
    have hne : q.name.toList ≠ p.name.toList := fun heq => hname (String.toList_inj.mp heq)
    rw [fills_cons hne, fills_set hq hp hname]
  constructor
  · intro h
    obtain ⟨t, ht, a, hmeans, hget⟩ | ⟨hnone, -⟩ := h p hp
    · obtain heq | hmem := List.mem_cons.mp ht
      · cases heq
        refine ⟨a, hmeans, fun q hq => ?_⟩
        by_cases hname : q.name = p.name
        · cases Layout.eq_of_name hq hp (congrArg String.toList hname)
          exact .inr ⟨htidy.not_mem hp, by rw [hget, p.get_set]⟩
        · exact (hother hq hname a).mp (h q hq)
      · exact absurd hmem (htidy.not_mem hp t)
    · exact absurd (List.mem_cons_self ..) (hnone v)
  · rintro ⟨a, hmeans, h⟩ q hq
    by_cases hname : q.name = p.name
    · cases Layout.eq_of_name hq hp (congrArg String.toList hname)
      obtain ⟨t, ht, -⟩ | ⟨-, hget⟩ := h p hp
      · exact absurd ht (htidy.not_mem hp t)
      · exact .inl ⟨v, List.mem_cons_self .., a, hmeans, by rw [hget, p.get_set]⟩
    · exact (hother hq hname a).mpr (h q hq)

theorem known_or_unknown (l : Layout σ) (name : Text) :
    (∃ p ∈ l.parts, p.name.toList = name) ∨ ∀ p ∈ l.parts, name ≠ p.name.toList := by
  by_cases h : ∃ p ∈ l.parts, p.name.toList = name
  · exact .inl h
  · exact .inr fun p hp heq => h ⟨p, hp, heq.symm⟩

/-- an object that is tidy and well typed makes a record, by induction on its members -/
theorem exists_describes (htidy : l.Tidy ms) (htyped : l.Typed ms) (start : σ) :
    ∃ x, Describes l start ms x := by
  induction ms generalizing start with
  | nil => exact ⟨start, describes_nil.mpr rfl⟩
  | cons m ms ih =>
    obtain ⟨name, v⟩ := m
    have htail : l.Typed ms := fun p hp t ht => htyped p hp t (List.mem_cons_of_mem _ ht)
    obtain ⟨p, hp, rfl⟩ | hname := known_or_unknown l name
    · obtain ⟨a, hmeans⟩ := htyped p hp v (List.mem_cons_self ..)
      obtain ⟨x, hx⟩ := ih htidy.tail htail (p.set a start)
      exact ⟨x, (describes_known htidy hp).mpr ⟨a, hmeans, hx⟩⟩
    · obtain ⟨x, hx⟩ := ih htidy.tail htail start
      exact ⟨x, (describes_unknown hname).mpr hx⟩

end

/-! ## Reading -/

theorem names_of_isReadBy {ps : List (FieldSpec σ)} {fs : List (RecordField σ)}
    (h : List.Forall₂ FieldSpec.IsReadBy ps fs) :
    fs.map RecordField.name = ps.map FieldSpec.name := by
  induction h with
  | nil => rfl
  | cons hread _ ih => rw [List.map_cons, List.map_cons, hread.1, ih]

section
variable {l : Layout σ} {fields : List (RecordField σ)}
  (hfields : List.Forall₂ FieldSpec.IsReadBy l.parts fields)

include hfields in
theorem Layout.exists_reading {p : FieldSpec σ} (hp : p ∈ l.parts) :
    ∃ f ∈ fields, p.IsReadBy f := exists_of_mem_right hfields.flip hp

include hfields in
theorem Layout.nodup_names : (fields.map RecordField.name).Nodup := by
  rw [names_of_isReadBy hfields]
  exact l.names

include hfields in
/-- members that describe a record change the first one into it, one after the other -/
theorem Describes.changes {ms : List (Text × Text)} {start x : σ} (htidy : l.Tidy ms)
    (h : Describes l start ms x) : Changes fields ms start x := by
  induction ms generalizing start with
  | nil =>
    rw [describes_nil.mp h]
    exact .nil x
  | cons m ms ih =>
    obtain ⟨name, v⟩ := m
    obtain ⟨p, hp, rfl⟩ | hname := known_or_unknown l name
    · obtain ⟨a, hmeans, hrest⟩ := (describes_known htidy hp).mp h
      obtain ⟨f, hf, hsame, hwrites⟩ := Layout.exists_reading hfields hp
      have hnew : ∀ m ∈ ms, m.1 ≠ f.name.toList := by
        rintro ⟨n, u⟩ hm rfl
        rw [hsame] at hm
        exact htidy.not_mem hp u hm
      rw [← hsame]
      exact .known hf (hmeans.imp hwrites) hnew (ih htidy.tail hrest)
    · have hunknown : ∀ f ∈ fields, name ≠ f.name.toList := by
        intro f hf
        obtain ⟨p, hp, hsame, -⟩ := exists_of_mem_right hfields hf
        rw [hsame]
        exact hname p hp
      have hv : WellFormed v := htidy.unknown _ (List.mem_cons_self ..) hname
      exact .unknown hunknown hv (ih htidy.tail ((describes_unknown hname).mp h))

/-- values of fields in their order change a record into one that has these values -/
theorem changesInOrder_of_tells {ps : List (FieldSpec σ)} {fs : List (RecordField σ)}
    {ts : List Text} {record x : σ} (h : List.Forall₂ (fun p t => p.Tells x t) ps ts)
    (hfs : List.Forall₂ FieldSpec.IsReadBy ps fs) (hps : ps ⊆ l.parts)
    (hrest : ∀ p ∈ l.parts, p ∈ ps ∨ p.get record = p.get x) : ChangesInOrder fs ts record x := by
  induction h generalizing fs record with
  | nil =>
    have hx : record = x := l.ext fun p hp => (hrest p hp).resolve_left List.not_mem_nil
    rw [hx]
    exact .nil fs x
  | @cons p t ps ts ht hts ih =>
    cases hfs with | cons hread hfs =>
    obtain ⟨a, hmeans, hget⟩ := ht
    have hp : p ∈ l.parts := hps (List.mem_cons_self ..)
    refine .cons (hmeans.imp hread.2) (ih hfs ?_ (l.set_rest hp hget hrest))
    exact fun q hq => hps (List.mem_cons_of_mem p hq)

namespace Library.Lawful
variable {L : Library} (hL : L.Lawful) {start x : σ} {finish : σ → Option α} {a : α} {t : Text}

include hL hfields in
theorem writes_object {ms : List (Text × Text)} (ht : ObjectText ms t) (htidy : l.Tidy ms)
    (h : Describes l start ms x) (hfinish : finish x = some a) :
    Writes (L.record fields start finish) t a :=
  hL.object (Layout.nodup_names hfields) ht (h.changes hfields htidy) hfinish

include hL hfields in
theorem writes_positions {ts : List Text} (ht : Enclosed '[' ']' ts t)
    (h : List.Forall₂ (fun p t => p.Tells x t) l.parts ts) (hfinish : finish x = some a) :
    Writes (L.record fields start finish) t a := by
  refine hL.positions ht ?_ hfinish
  exact changesInOrder_of_tells h hfields (List.Subset.refl _) fun p hp => .inl hp

end Library.Lawful

end

/-! ## All fields in their order -/

section
variable {l : Layout σ}

/-- the member has the name of the field, and a text for it -/
def FieldSpec.Names (p : FieldSpec σ) (x : σ) (m : String × Text) : Prop :=
  m.1 = p.name ∧ p.Tells x m.2

theorem names_eq {ps : List (FieldSpec σ)} {ms : List (String × Text)} {x : σ}
    (h : List.Forall₂ (fun p m => p.Names x m) ps ms) :
    ms.map Prod.fst = ps.map FieldSpec.name := by
  induction h with
  | nil => rfl
  | cons hm _ ih => rw [List.map_cons, List.map_cons, hm.1, ih]

theorem tidy_all {x : σ} {ms : List (String × Text)}
    (h : List.Forall₂ (fun p m => p.Names x m) l.parts ms) : l.Tidy (printedMembers ms) where
  once p _ := by
    have hnames : (printedMembers ms).map Prod.fst =
        (l.parts.map FieldSpec.name).map String.toList := by
      rw [← names_eq h, printedMembers, List.map_map, List.map_map]
      rfl
    rw [hnames]
    refine List.nodup_iff_count_le_one.mp (l.names.map fun v w hvw => ?_) _
    exact String.toList_inj.mp hvw
  unknown m hm hne := by
    obtain ⟨n, hn, rfl⟩ := List.mem_map.mp hm
    obtain ⟨p, hp, hname, -⟩ := exists_of_mem_right h hn
    exact absurd (congrArg String.toList hname) (hne p hp)

/-- an object with all fields of a record in their order makes the record -/
theorem describes_all {start x : σ} {ms : List (String × Text)}
    (h : List.Forall₂ (fun p m => p.Names x m) l.parts ms) :
    Describes l start (printedMembers ms) x := by
  intro p hp
  obtain ⟨m, hm, hname, htells⟩ := exists_of_mem_right h.flip hp
  refine .inl ⟨m.2, List.mem_map.mpr ⟨m, hm, ?_⟩, htells⟩
  rw [hname]

end

end LineEditor.Json
