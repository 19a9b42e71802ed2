import LineEditor.Json.Choice
import LineEditor.Proofs.JsonPassing

/-!
# The readers of the standard library: values

The readers of strings, numbers, lists and names out of a fixed set read what is written for them.

* `writes_string`, `writes_natural`, `writes_single`, `writes_list`, `writes_choice`;
* `PaddedWrites.readAll`   a whole text.
-/

namespace LineEditor.Json

variable {α β : Type}

namespace PaddedWrites
variable {reader : Reader α} {t : Text} {a : α}

theorem readAll (h : PaddedWrites reader t a) : reader.readAll t = .ok a := by
  obtain ⟨b, hb, hrun⟩ := h.run closes_nil
  rw [List.append_nil, List.append_nil] at hrun
  have hskip : skipSpace b = [] := by
    have happend := skipSpace_append hb []
    rwa [List.append_nil] at happend
  unfold Reader.readAll
  rw [hrun]
  simp only [hskip]
  rfl

theorem skipSpace_append (h : PaddedWrites reader t a) (r : Text) :
    ∃ c s, skipSpace (t ++ r) = c :: s ∧ c ≠ ']' := by
  obtain ⟨l, m, b, hl, hm, hb, rfl⟩ := h
  obtain ⟨c, s, rfl, hspace, hclose⟩ := hm.starts
  refine ⟨c, s ++ (b ++ r), ?_, hclose⟩
  rw [List.append_assoc, List.append_assoc, Json.skipSpace_append hl]
  exact skipSpace_cons hspace _

end PaddedWrites

/-- a reader that judges by the first character reads what its function takes from there -/
theorem Writes.token {take : Char → Text → Step α} {takes} {c : Char} {s : Text} {a : α}
    (hspace : isJsonSpace c = false) (hclose : c ≠ ']')
    (h : ∀ r, Closes r → take c (s ++ r) = .ok (a, r)) :
    Writes (Reader.token take takes) (c :: s) a where
  starts := ⟨c, s, rfl, hspace, hclose⟩
  reads {l r} hl hr := by
    have hskip : skipSpace (l ++ (c :: s ++ r)) = c :: (s ++ r) := by
      rw [skipSpace_append hl]
      exact skipSpace_cons hspace _
    simp only [Reader.token, hskip]
    exact h r hr

/-! ## Strings and numbers -/

theorem writes_string {s t : Text} (h : StringText s t) : Writes Reader.string t s := by
  obtain ⟨b, hb, rfl⟩ := h
  refine Writes.token rfl (by decide) fun r _ => ?_
  rw [if_pos rfl, List.append_assoc]
  exact hb.readString r

theorem writes_numeric {convert : Parts → Option β} {accept : β → Option α} {p : Numeric} {x : β}
    {a : α} (hp : p.Proper) (hx : convert p.parts = some x) (ha : accept x = some a) :
    Writes (Reader.number convert accept) p.text a := by
  obtain ⟨d, s, htext, hd⟩ := hp.starts
  rw [htext]
  refine Writes.token (not_isJsonSpace_of_number hd) (by rintro rfl; cases hd) fun r hr => ?_
  have hread := hp.readNumber (stops_of_closes hr) hx
  rw [htext, List.cons_append] at hread
  simp only [hd, if_true, hread, ha]

theorem writes_single {convert : Parts → Option Single} {x : Single} {t : Text}
    (h : SingleText convert x t) : Writes (Reader.single convert) t x := by
  obtain ⟨p, hp, hx, rfl⟩ := h
  exact writes_numeric hp hx rfl

theorem significand_eq {n : Nat} {ds : Text} (h : continued n ds ≤ maxCount) :
    significand n ds = (continued n ds, 0) := by
  induction ds generalizing n with
  | nil => rfl
  | cons d ds ih =>
    rw [continued_cons] at h ⊢
    have hd : 10 * n + digitValue d ≤ maxCount := (le_continued _ ds).trans h
    rw [significand, if_pos hd, ih h]

/-- a numeral as a number of JSON -/
def numeralParts (n : Nat) : Numeric := ⟨⟨numeral n, none, none⟩, false⟩

theorem proper_numeralParts (n : Nat) : (numeralParts n).Proper where
  whole := allDigits_numeral n
  whole_ne_nil := numeral_ne_nil n
  leading h := by
    rcases Nat.eq_zero_or_pos n with rfl | hn
    · exact absurd h.2 (by decide)
    · exact head?_numeral hn h.1
  fraction := fun _ h => nomatch h
  power := fun _ h => nomatch h

theorem number?_numeralParts {n : Nat} (hn : n ≤ maxCount) :
    (numeralParts n).parts.number? = some (.natural n) := by
  have hvalue : continued 0 (numeral n) = n := continued_numeral n
  have hall : significand 0 (numeral n) = (n, 0) := by
    rw [significand_eq (by rw [hvalue]; exact hn), hvalue]
  simp only [Parts.number?, numeralParts, Numeric.parts, hall]
  rfl

theorem writes_natural {n : Nat} {t : Text} (h : NaturalText n t) : Writes Reader.natural t n := by
  obtain ⟨hn, rfl⟩ := h
  have htext : (numeralParts n).text = numeral n := List.append_nil _
  rw [← htext]
  exact writes_numeric (proper_numeralParts n) (number?_numeralParts hn) rfl

/-! ## Lists -/

section
variable {item : Reader α}

theorem elements_last {s r t : Text} {a : α} (h : item.run s = .ok (a, r))
    (hr : skipSpace r = ']' :: t) : Reader.elements item s = .ok ([a], t) := by
  unfold Reader.elements
  split
  · rename_i heq
    rw [h] at heq
    cases heq
  · rename_i heq
    rw [h] at heq
    cases heq
    split
    · rename_i heq
      rw [hr] at heq
      cases heq
    · rename_i heq
      rw [hr] at heq
      cases heq
      rfl
    · rename_i heq
      rw [hr] at heq
      cases heq
    · rename_i hne _
      exact absurd hr (hne t)

theorem elements_more {s r t u : Text} {a : α} {as : List α} (h : item.run s = .ok (a, r))
    (hr : skipSpace r = ',' :: t) (ht : ∃ c v, skipSpace t = c :: v ∧ c ≠ ']')
    (hrest : Reader.elements item t = .ok (as, u)) :
    Reader.elements item s = .ok (a :: as, u) := by
  obtain ⟨c, v, htext, hc⟩ := ht
  rw [Reader.elements]
  split
  · rename_i heq
    rw [h] at heq
    cases heq
  · rename_i heq
    rw [h] at heq
    cases heq
    split
    · rename_i heq
      rw [hr] at heq
      cases heq
    · rename_i heq
      rw [hr] at heq
      cases heq
    · rename_i heq
      rw [hr] at heq
      cases heq
      rw [htext]
      split
      · rename_i heq
        cases heq
      · rename_i heq
        cases heq
        exact absurd rfl hc
      · rw [hrest]
    · rename_i hne
      exact absurd hr (hne t)

theorem elements_separated {as : List α} {ts : List Text}
    (h : List.Forall₂ (fun a t => PaddedWrites item t a) as ts) (hne : ts ≠ []) (r : Text) :
    Reader.elements item (separated ts ++ ']' :: r) = .ok (as, r) := by
  induction h with
  | nil => exact absurd rfl hne
  | @cons a t as ts ht hts ih =>
    cases hts with
    | nil =>
      obtain ⟨b, hb, hrun⟩ := ht.run (closes_cons (.inr (.inl rfl)) r)
      refine elements_last hrun ?_
      rw [skipSpace_append hb, skipSpace_cons rfl]
    | @cons a' t' as ts ht' hts =>
      rw [separated_cons_cons, List.append_assoc, List.cons_append]
      obtain ⟨b, hb, hrun⟩ := ht.run (closes_cons (.inl rfl) (separated (t' :: ts) ++ ']' :: r))
      refine elements_more hrun ?_ ?_ (ih (List.cons_ne_nil _ _))
      · rw [skipSpace_append hb, skipSpace_cons rfl]
      · obtain ⟨s, hs⟩ := separated_cons t' ts
        rw [hs, List.append_assoc]
        exact ht'.skipSpace_append _

theorem writes_list {as : List α} {ts : List Text} {t : Text}
    (h : List.Forall₂ (fun a t => PaddedWrites item t a) as ts) (ht : Enclosed '[' ']' ts t) :
    Writes (Reader.list item) t as := by
  cases ht with
  | @empty s hs =>
    cases h
    refine Writes.token rfl (by decide) fun r _ => ?_
    rw [if_pos rfl, List.append_assoc, skipSpace_append hs]
    rfl
  | items hne =>
    refine Writes.token rfl (by decide) fun r _ => ?_
    have hrun := elements_separated h hne r
    rw [if_pos rfl, List.append_assoc, List.singleton_append]
    cases h with
    | nil => exact absurd rfl hne
    | @cons a t as ts ht hts =>
      obtain ⟨s, hs⟩ := separated_cons t ts
      rw [hs, List.append_assoc] at hrun ⊢
      obtain ⟨c, v, hskip, hc⟩ := ht.skipSpace_append (s ++ ']' :: r)
      rw [hskip]
      split
      · rename_i heq
        cases heq
      · rename_i heq
        cases heq
        exact absurd rfl hc
      · exact hrun

end

/-! ## Names out of a fixed set -/

section
variable {name value t : Text} (h : Member (StringText name) value t) (r : Text)

include h in
/-- a member starts with its name, and behind its colon stands its value -/
theorem readName_member :
    ∃ u, readName (t ++ r) = .ok (name, u) ∧ expectColon u = .ok (value ++ r) := by
  obtain ⟨l, n, b, hl, ⟨s, hs, rfl⟩, hb, rfl⟩ := h
  refine ⟨b ++ ':' :: (value ++ r), ?_, ?_⟩
  · have htext : l ++ ('"' :: (s ++ ['"']) ++ (b ++ ':' :: value)) ++ r =
        l ++ '"' :: (s ++ '"' :: (b ++ ':' :: (value ++ r))) := by
      simp only [List.append_assoc, List.cons_append, List.nil_append]
    have hquote : skipSpace ('"' :: (s ++ '"' :: (b ++ ':' :: (value ++ r)))) = _ :=
      skipSpace_cons rfl _
    simp only [htext, readName, skipSpace_append hl, hquote, hs.readString]
  · have hcolon : skipSpace (':' :: (value ++ r)) = ':' :: (value ++ r) := skipSpace_cons rfl _
    simp only [expectColon, skipSpace_append hb, hcolon]

include h in
theorem skipSpace_member : ∃ s, skipSpace (t ++ r) = '"' :: s := by
  obtain ⟨l, n, b, hl, ⟨s, -, rfl⟩, -, rfl⟩ := h
  refine ⟨s ++ ['"'] ++ (b ++ ':' :: value) ++ r, ?_⟩
  rw [List.append_assoc, skipSpace_append hl]
  exact skipSpace_cons rfl _

end

theorem writes_null {t : Text} (h : t = "null".toList) : Writes Reader.null t () := by
  rw [h]
  exact Writes.token rfl (by decide) fun _ _ => rfl

theorem readLoneMember_member {ofName? : Text → Option α} {name value t : Text} {a : α}
    (ha : ofName? name = some a) (hv : Padded (· = "null".toList) value)
    (h : Member (StringText name) value t) (r : Text) :
    readLoneMember ofName? (t ++ '}' :: r) = .ok (a, r) := by
  obtain ⟨u, hname, hcolon⟩ := readName_member h ('}' :: r)
  have hwrites : PaddedWrites Reader.null value () := hv.imp writes_null
  obtain ⟨b, hb, hnull⟩ := hwrites.run (closes_cons (.inr (.inr rfl)) r)
  have hskip : skipSpace ('}' :: r) = '}' :: r := skipSpace_cons rfl r
  have hbrace : expectBrace (b ++ '}' :: r) = .ok r := by
    simp only [expectBrace, skipSpace_append hb, hskip]
  simp only [readLoneMember, hname, chosen, ha, hcolon, hnull, hbrace]

theorem writes_choice {ofName? : Text → Option α} {name t : Text} {a : α}
    (ha : ofName? name = some a) (ht : ChoiceText name t) :
    Writes (Reader.choice ofName?) t a := by
  obtain ⟨b, hb, rfl⟩ | ⟨v, hv, ts, hm, ht⟩ := ht
  · refine Writes.token rfl (by decide) fun r _ => ?_
    rw [if_pos rfl, List.append_assoc, List.singleton_append, hb.readString]
    simp only [chosen, ha]
  · cases hm with | cons hu hnil =>
    cases hnil
    cases ht
    refine Writes.token rfl (by decide) fun r _ => ?_
    rw [if_neg (by decide), if_pos rfl, List.append_assoc, List.singleton_append]
    exact readLoneMember_member ha hv hu r

end LineEditor.Json
