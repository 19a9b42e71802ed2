import LineEditor.Json.Record
import LineEditor.Proofs.JsonWriting
import Mathlib.Data.List.Nodup

/-!
# The readers of the standard library: records

A record is read from an object by its members, one after the other, or from a list by its fields in
their order.

* `writes_record`             an object;
* `writes_record_positions`   a list of the fields.
-/

namespace LineEditor.Json

variable {α σ : Type}

/-! ## Objects -/

section
variable {fields : List (RecordField σ)}

theorem members_last {seen : List String} {record : σ} {s r t : Text} {name : Option String}
    {change : σ → σ} (h : member fields seen s = .ok ((name, change), r))
    (hr : skipSpace r = '}' :: t) : members fields seen record s = .ok (change record, t) := by
  rw [members]
  split
  · rename_i heq
    rw [h] at heq
    cases heq
  · rename_i heq
    rw [h] at heq
    cases heq
    split
    · rename_i heq
      rw [hr] at heq
      cases heq
    · rename_i heq
      rw [hr] at heq
      cases heq
      rfl
    · rename_i heq
      rw [hr] at heq
      cases heq
    · rename_i hne _
      exact absurd hr (hne t)

theorem members_more {seen : List String} {record : σ} {s r t : Text} {name : Option String}
    {change : σ → σ} (h : member fields seen s = .ok ((name, change), r))
    (hr : skipSpace r = ',' :: t) :
    members fields seen record s = members fields (name.toList ++ seen) (change record) t := by
  rw [members]
  split
  · rename_i heq
    rw [h] at heq
    cases heq
  · rename_i heq
    rw [h] at heq
    cases heq
    split
    · rename_i heq
      rw [hr] at heq
      cases heq
    · rename_i heq
      rw [hr] at heq
      cases heq
    · rename_i heq
      rw [hr] at heq
      cases heq
      rfl
    · rename_i hne
      exact absurd hr (hne t)

/-- no field whose name was seen has a member -/
def Unseen (fields : List (RecordField σ)) (seen : List String) (ms : List (Text × Text)) : Prop :=
  ∀ f ∈ fields, f.name ∈ seen → ∀ m ∈ ms, m.1 ≠ f.name.toList

theorem find?_of_mem (hnames : (fields.map RecordField.name).Nodup) {f : RecordField σ}
    (hf : f ∈ fields) : fields.find? (fun g => g.name.toList = f.name.toList) = some f := by
  cases hfind : fields.find? fun g => g.name.toList = f.name.toList with
  | none =>
    have hne := List.find?_eq_none.mp hfind f hf
    exact absurd (decide_eq_true rfl) hne
  | some g =>
    have hfound := List.find?_some hfind
    have hsame : g.name = f.name := String.toList_inj.mp (of_decide_eq_true hfound)
    rw [List.inj_on_of_nodup_map hnames (List.mem_of_find?_eq_some hfind) hf hsame]

/-- a member that the record knows is read as the change of its field -/
theorem member_known (hnames : (fields.map RecordField.name).Nodup) {f : RecordField σ}
    (hf : f ∈ fields) {seen : List String} (hseen : f.name ∉ seen) {v t r : Text} {change : σ → σ}
    (hv : PaddedWrites f.value v change) (ht : Member (StringText f.name.toList) v t)
    (hr : Closes r) : ∃ b, Spaces b ∧
      member fields seen (t ++ r) = .ok ((some f.name, change), b ++ r) := by
  obtain ⟨u, hname, hcolon⟩ := readName_member ht r
  obtain ⟨b, hb, hrun⟩ := hv.run hr
  have hnew : ¬ ((some f).any fun f => seen.contains f.name) = true := by
    intro hcontains
    exact hseen (List.contains_iff_mem.mp hcontains)
  refine ⟨b, hb, ?_⟩
  simp only [member, hname, find?_of_mem hnames hf, if_neg hnew, hcolon, memberValue, hrun]
  rfl

/-- a member that the record does not know changes nothing -/
theorem member_unknown {name v t r : Text} (hname : ∀ f ∈ fields, name ≠ f.name.toList)
    (hv : WellFormed v) (ht : Member (StringText name) v t) (hr : Closes r) (seen : List String) :
    ∃ b, Spaces b ∧ member fields seen (t ++ r) = .ok ((none, id), b ++ r) := by
  obtain ⟨u, hread, hcolon⟩ := readName_member ht r
  obtain ⟨b, hb, hskip⟩ := hv.skipValue hr
  have hfind : fields.find? (fun f => f.name.toList = name) = none := by
    rw [List.find?_eq_none]
    intro f hf heq
    exact hname f hf (of_decide_eq_true heq).symm
  refine ⟨b, hb, ?_⟩
  simp only [member, hread, hfind, hcolon, memberValue, hskip, Option.any_none, Bool.false_eq_true,
    if_false, Option.map_none]

/-- One member is read: what is left changes the record as it is then, and no member with a name
that was seen is left. -/
theorem member_changes (hnames : (fields.map RecordField.name).Nodup) {seen : List String}
    {m : Text × Text} {ms : List (Text × Text)} {record x : σ}
    (h : Changes fields (m :: ms) record x) (hseen : Unseen fields seen (m :: ms)) {t r : Text}
    (ht : Member (StringText m.1) m.2 t) (hr : Closes r) :
    ∃ name change b, Spaces b ∧ member fields seen (t ++ r) = .ok ((name, change), b ++ r) ∧
      Changes fields ms (change record) x ∧ Unseen fields (name.toList ++ seen) ms := by
  have htail : Unseen fields seen ms := fun f hf hmem n hn =>
    hseen f hf hmem n (List.mem_cons_of_mem m hn)
  cases h with
  | @known f v change ms _ _ hf hv hnew hrest =>
    have hnotseen : f.name ∉ seen := fun hmem => hseen f hf hmem _ (List.mem_cons_self ..) rfl
    obtain ⟨b, hb, hmember⟩ := member_known hnames hf hnotseen hv ht hr
    refine ⟨some f.name, change, b, hb, hmember, hrest, ?_⟩
    intro g hg hmem n hn
    obtain hsame | hmem := List.mem_cons.mp hmem
    · rw [hsame]
      exact hnew n hn
    · exact htail g hg hmem n hn
  | unknown hname hv hrest =>
    obtain ⟨b, hb, hmember⟩ := member_unknown hname hv ht hr seen
    exact ⟨none, id, b, hb, hmember, hrest, htail⟩

/-- the members of an object are read one after the other -/
theorem members_changes (hnames : (fields.map RecordField.name).Nodup) {ms : List (Text × Text)}
    {ts : List Text} (hts : List.Forall₂ (fun m t => Member (StringText m.1) m.2 t) ms ts)
    (hne : ts ≠ []) {seen : List String} {record x : σ} (h : Changes fields ms record x)
    (hseen : Unseen fields seen ms) (r : Text) :
    members fields seen record (separated ts ++ '}' :: r) = .ok (x, r) := by
  induction hts generalizing seen record with
  | nil => exact absurd rfl hne
  | @cons m t ms ts ht hts ih =>
    cases hts with
    | nil =>
      obtain ⟨name, change, b, hb, hmember, hrest, -⟩ :=
        member_changes hnames h hseen ht (closes_cons (.inr (.inr rfl)) r)
      cases hrest
      refine members_last hmember ?_
      rw [skipSpace_append hb, skipSpace_cons rfl]
    | @cons m' t' ms ts ht' hts =>
      obtain ⟨name, change, b, hb, hmember, hrest, hseen'⟩ :=
        member_changes hnames h hseen ht
          (closes_cons (.inl rfl) (separated (t' :: ts) ++ '}' :: r))
      rw [separated_cons_cons, List.append_assoc, List.cons_append]
      have hcomma : skipSpace (b ++ ',' :: (separated (t' :: ts) ++ '}' :: r)) = _ :=
        (skipSpace_append hb _).trans (skipSpace_cons rfl _)
      rw [members_more hmember hcomma]
      exact ih (List.cons_ne_nil t' ts) hrest hseen'

theorem writes_record (hnames : (fields.map RecordField.name).Nodup) {start x : σ}
    {finish : σ → Option α} {a : α} {ms : List (Text × Text)} {t : Text} (ht : ObjectText ms t)
    (h : Changes fields ms start x) (hfinish : finish x = some a) :
    Writes (Reader.record fields start finish) t a := by
  obtain ⟨ts, hts, ht⟩ := ht
  cases ht with
  | @empty s hs =>
    cases hts
    cases h
    refine Writes.token rfl (by decide) fun r _ => ?_
    have hskip : skipSpace (s ++ ['}'] ++ r) = '}' :: r := by
      rw [List.append_assoc, skipSpace_append hs]
      exact skipSpace_cons rfl r
    simp only [if_pos, hskip, hfinish]
  | items hne =>
    refine Writes.token rfl (by decide) fun r _ => ?_
    have hunseen : Unseen fields [] ms := fun _ _ hmem => absurd hmem List.not_mem_nil
    have hrun := members_changes hnames hts hne h hunseen r
    rw [if_pos rfl, List.append_assoc, List.singleton_append]
    cases hts with
    | nil => exact absurd rfl hne
    | @cons m t ms ts ht hts =>
      obtain ⟨s, hs⟩ := separated_cons t ts
      rw [hs, List.append_assoc] at hrun ⊢
      obtain ⟨u, hskip⟩ := skipSpace_member ht (s ++ '}' :: r)
      simp only [hskip, hrun, hfinish, List.cons.injEq, Char.reduceEq, false_and, imp_false,
        not_false_eq_true, implies_true]

end

/-! ## Lists of fields -/

section
variable {first : Bool} {record : σ} {f : RecordField σ} {fs : List (RecordField σ)}
  {s t r u : Text} {change : σ → σ}

theorem positions_end (hs : skipSpace s = ']' :: r) :
    positions first record fs s = .ok (record, r) := by
  cases fs <;> simp only [positions, hs]

theorem positions_first (hs : ∃ c v, skipSpace s = c :: v ∧ c ≠ ']')
    (h : f.value.run s = .ok (change, u)) :
    positions true record (f :: fs) s = positions false (change record) fs u := by
  obtain ⟨c, v, hs, hc⟩ := hs
  rw [positions, hs]
  split
  · rename_i heq
    cases heq
  · rename_i heq
    cases heq
    exact absurd rfl hc
  · simp only [Bool.not_true, Bool.false_and, Bool.false_eq_true, if_false, if_true, hs]
    split
    · rename_i heq
      cases heq
      exact absurd rfl hc
    · rw [h]

theorem positions_next (hs : skipSpace s = ',' :: t) (ht : ∃ c v, skipSpace t = c :: v ∧ c ≠ ']')
    (h : f.value.run t = .ok (change, u)) :
    positions false record (f :: fs) s = positions false (change record) fs u := by
  obtain ⟨c, v, ht, hc⟩ := ht
  rw [positions, hs]
  split
  · rename_i heq
    cases heq
  · rename_i heq
    cases heq
  · rename_i heq
    cases heq
    simp only [Bool.not_false, Bool.true_and, decide_false, Bool.false_eq_true, if_false,
      ne_eq, not_true_eq_false, ht]
    split
    · rename_i heq
      cases heq
      exact absurd rfl hc
    · rw [h]

end

/-- the texts of a list behind its first one -/
theorem separated_eq (t : Text) (ts : List Text) :
    separated (t :: ts) = t ++ ts.flatMap fun u => ',' :: u := by
  induction ts generalizing t with
  | nil => exact (List.append_nil t).symm
  | cons u ts ih => rw [separated_cons_cons, ih, List.flatMap_cons, List.cons_append]

theorem closes_rest (ts : List Text) (r : Text) :
    Closes ((ts.flatMap fun u => ',' :: u) ++ ']' :: r) := by
  cases ts with
  | nil => exact closes_cons (.inr (.inl rfl)) r
  | cons t ts => exact closes_cons (.inl rfl) _

section
variable {fields : List (RecordField σ)} {vs : List Text} {record x : σ}

/-- the fields that are left are read one after the other, behind the first one -/
theorem positions_rest (h : ChangesInOrder fields vs record x) {b : Text} (hb : Spaces b)
    (r : Text) :
    positions false record fields (b ++ ((vs.flatMap fun u => ',' :: u) ++ ']' :: r)) =
      .ok (x, r) := by
  induction h generalizing b with
  | nil =>
    refine positions_end ?_
    rw [skipSpace_append hb]
    exact skipSpace_cons rfl r
  | @cons f fields v vs change record x hv h ih =>
    obtain ⟨b', hb', hrun⟩ := hv.run (closes_rest vs r)
    have hcomma : skipSpace (b ++ (((v :: vs).flatMap fun u => ',' :: u) ++ ']' :: r)) =
        ',' :: (v ++ ((vs.flatMap fun u => ',' :: u) ++ ']' :: r)) := by
      rw [skipSpace_append hb, List.flatMap_cons, List.append_assoc, List.cons_append]
      exact skipSpace_cons rfl _
    rw [positions_next hcomma (hv.skipSpace_append _) hrun]
    exact ih hb'

/-- fields are read one after the other, from the first one on -/
theorem positions_changes (h : ChangesInOrder fields vs record x) (hne : vs ≠ []) (r : Text) :
    positions true record fields (separated vs ++ ']' :: r) = .ok (x, r) := by
  cases h with
  | nil => exact absurd rfl hne
  | @cons f fields v vs change record x hv h =>
    obtain ⟨b, hb, hrun⟩ := hv.run (closes_rest vs r)
    rw [separated_eq, List.append_assoc, positions_first (hv.skipSpace_append _) hrun]
    exact positions_rest h hb r

theorem writes_record_positions {finish : σ → Option α} {a : α} {t : Text}
    (ht : Enclosed '[' ']' vs t) (h : ChangesInOrder fields vs record x)
    (hfinish : finish x = some a) : Writes (Reader.record fields record finish) t a := by
  cases ht with
  | @empty s hs =>
    cases h
    refine Writes.token rfl (by decide) fun r _ => ?_
    have hskip : skipSpace (s ++ [']'] ++ r) = ']' :: r := by
      rw [List.append_assoc, skipSpace_append hs]
      exact skipSpace_cons rfl r
    rw [if_neg (by decide), if_pos rfl, positions_end hskip]
    simp only [hfinish]
  | items hne =>
    refine Writes.token rfl (by decide) fun r _ => ?_
    rw [if_neg (by decide), if_pos rfl, List.append_assoc, List.singleton_append,
      positions_changes h hne]
    simp only [hfinish]

end

end LineEditor.Json
