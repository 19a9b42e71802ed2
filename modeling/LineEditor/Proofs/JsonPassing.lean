import LineEditor.Proofs.JsonReading

/-!
# Values that are passed over

A value that nobody asks for is passed over as a whole, however deep it is (`WellFormed.skipValue`).
The brackets that are open stand on a stack, so the statement for the induction is about any stack:
behind the value the same brackets are open, and what closes it comes next (`Passes`).
-/

namespace LineEditor.Json

/-! ## What may come next -/

/-- what comes next behind a bracket that opens -/
def Bracket.first : Bracket → Awaited
  | .list => .element
  | .object => .firstName

/-- what comes next inside of a bracket, behind a comma -/
def Bracket.item : Bracket → Awaited
  | .list => .value
  | .object => .name

/-- the character that closes a bracket -/
def Bracket.last : Bracket → Char
  | .list => ']'
  | .object => '}'

/-- the text begins, behind space, with a character that does not close the bracket -/
def Begins (bracket : Bracket) (t : Text) : Prop :=
  ∃ l c s, Spaces l ∧ isJsonSpace c = false ∧ c ≠ bracket.last ∧ t = l ++ c :: s

/-- the text is passed over where `awaited` may come, whatever closes behind it -/
def Passes (awaited : Awaited) (t : Text) : Prop :=
  ∀ opened r, Closes r → ∃ b, Spaces b ∧
    Passage.finish ⟨opened, awaited, t ++ r⟩ = Passage.finish ⟨opened, .more, b ++ r⟩

namespace Passage

theorem finish_of_step {p q : Passage} (h : p.step = .ok q)
    (hp : ¬ (p.opened = [] ∧ p.awaited = .more)) : p.finish = q.finish := by
  rw [finish, if_neg hp]
  split
  · rename_i heq
    rw [h] at heq
    cases heq
  · rename_i heq
    rw [h] at heq
    cases heq
    rfl

/-- passages that take the same step go on in the same way -/
theorem finish_congr {p q : Passage} (h : p.step = q.step) (hp : p.awaited ≠ .more)
    (hq : q.awaited ≠ .more) : p.finish = q.finish := by
  rw [finish, finish, if_neg fun hmore => hp hmore.2, if_neg fun hmore => hq hmore.2]
  split
  · rename_i heq
    split
    · rename_i heq'
      cases heq.symm.trans (h.trans heq')
      rfl
    · rename_i heq'
      cases heq.symm.trans (h.trans heq')
  · rename_i heq
    split
    · rename_i heq'
      cases heq.symm.trans (h.trans heq')
    · rename_i heq'
      cases heq.symm.trans (h.trans heq')
      rfl

theorem step_space {l : Text} (hl : Spaces l) (opened : List Bracket) (awaited : Awaited)
    (s : Text) : step ⟨opened, awaited, l ++ s⟩ = step ⟨opened, awaited, s⟩ := by
  simp only [step, skipSpace_append hl]

variable {bracket : Bracket} {opened : List Bracket} {r : Text}

theorem finish_comma {b : Text} (hb : Spaces b) (s : Text) :
    finish ⟨bracket :: opened, .more, b ++ ',' :: s⟩ =
      finish ⟨bracket :: opened, bracket.item, s⟩ := by
  refine finish_of_step ?_ fun hp => nomatch hp.1
  rw [step_space hb]
  cases bracket <;> rfl

theorem finish_last {b : Text} (hb : Spaces b) :
    finish ⟨bracket :: opened, .more, b ++ bracket.last :: r⟩ = finish ⟨opened, .more, r⟩ := by
  refine finish_of_step ?_ fun hp => nomatch hp.1
  rw [step_space hb]
  cases bracket <;> rfl

theorem closes_last (r : Text) : Closes (bracket.last :: r) := by
  cases bracket
  · exact closes_cons (.inr (.inl rfl)) r
  · exact closes_cons (.inr (.inr rfl)) r

/-- items with commas between them are passed over up to the end of their bracket -/
theorem finish_separated {ts : List Text} (h : ∀ t ∈ ts, Passes bracket.item t) (hne : ts ≠ []) :
    finish ⟨bracket :: opened, bracket.item, separated ts ++ bracket.last :: r⟩ =
      finish ⟨opened, .more, r⟩ := by
  induction ts with
  | nil => exact absurd rfl hne
  | cons t ts ih =>
    have ht := h t (List.mem_cons_self ..)
    cases ts with
    | nil =>
      obtain ⟨b, hb, hfinish⟩ := ht (bracket :: opened) _ (closes_last r)
      exact hfinish.trans (finish_last hb)
    | cons t' ts =>
      have hrest := ih (fun u hu => h u (List.mem_cons_of_mem _ hu)) (List.cons_ne_nil t' ts)
      rw [separated_cons_cons, List.append_assoc, List.cons_append]
      obtain ⟨b, hb, hfinish⟩ := ht (bracket :: opened)
        (',' :: (separated (t' :: ts) ++ bracket.last :: r)) (closes_cons (.inl rfl) _)
      rw [hfinish, finish_comma hb, hrest]

/-- a first item is passed over like any other one -/
theorem finish_first {t : Text} (h : Begins bracket t) (r : Text) :
    finish ⟨opened, bracket.first, t ++ r⟩ = finish ⟨opened, bracket.item, t ++ r⟩ := by
  obtain ⟨l, c, s, hl, hspace, hlast, rfl⟩ := h
  rw [List.append_assoc, List.cons_append]
  cases bracket with
  | list =>
    refine finish_congr ?_ nofun nofun
    simp only [step, Bracket.item, Bracket.first, skipSpace_append hl, skipSpace_cons hspace]
    exact if_neg hlast
  | object =>
    refine finish_congr ?_ nofun nofun
    simp only [step, Bracket.item, Bracket.first, skipSpace_append hl, skipSpace_cons hspace]
    exact if_neg hlast

/-- items in brackets are passed over, behind the bracket that opens -/
theorem finish_enclosed {first : Char} {ts : List Text} {t : Text}
    (ht : Enclosed first bracket.last ts t) (hpasses : ∀ u ∈ ts, Passes bracket.item u)
    (hbegins : ∀ u ∈ ts, Begins bracket u) (opened : List Bracket) (r : Text) :
    ∃ s, t ++ r = first :: s ∧
      finish ⟨bracket :: opened, bracket.first, s⟩ = finish ⟨opened, .more, r⟩ := by
  cases ht with
  | @empty s hs =>
    refine ⟨s ++ bracket.last :: r, ?_, ?_⟩
    · rw [List.cons_append, List.append_assoc, List.singleton_append]
    · have hspace : isJsonSpace bracket.last = false := by cases bracket <;> rfl
      refine finish_of_step ?_ ?_
      · cases bracket <;>
          simp only [step, Bracket.first, skipSpace_append hs, skipSpace_cons hspace] <;> rfl
      · cases bracket <;> exact fun hp => nomatch hp.1
  | @items ts hne =>
    refine ⟨separated ts ++ bracket.last :: r, ?_, ?_⟩
    · rw [List.cons_append, List.append_assoc, List.singleton_append]
    · cases ts with
      | nil => exact absurd rfl hne
      | cons u us =>
        obtain ⟨s, hs⟩ := separated_cons u us
        have hall :
            finish ⟨bracket :: opened, bracket.item, separated (u :: us) ++ bracket.last :: r⟩ =
              finish ⟨opened, .more, r⟩ := finish_separated hpasses hne
        rw [hs, List.append_assoc] at hall ⊢
        rw [finish_first (hbegins u (List.mem_cons_self ..)), hall]

end Passage

/-! ## Values -/

theorem passes_of_behind {awaited : Awaited} {t : Text}
    (h : ∀ opened r, Closes r → Passage.step ⟨opened, awaited, t ++ r⟩ = .ok ⟨opened, .more, r⟩)
    (hmore : awaited ≠ .more) : Passes awaited t := by
  intro opened r hr
  refine ⟨[], spaces_nil, ?_⟩
  exact Passage.finish_of_step (h opened r hr) fun hp => hmore hp.2

theorem behind_ok (opened : List Bracket) (r : Text) :
    behind opened (.ok r) = .ok ⟨opened, .more, r⟩ := rfl

theorem passes_string {t : Text} (h : AnyString t) : Passes .value t := by
  obtain ⟨b, hb, rfl⟩ := h
  refine passes_of_behind (fun opened r _ => ?_) nofun
  have hskip : skipSpace ('"' :: (b ++ ['"']) ++ r) = '"' :: (b ++ '"' :: r) := by
    rw [List.cons_append, List.append_assoc, List.singleton_append, skipSpace_cons rfl]
  simp only [Passage.step, hskip]
  show behind opened (skipString (b ++ '"' :: r)) = _
  rw [hb.skipString, behind_ok]

theorem passValue_number {d : Char} (hd : (d = '-' || d.isDigit) = true) (opened : List Bracket)
    (s : Text) : passValue opened d s = behind opened (skipNumber (d :: s)) := by
  have hne : ∀ c : Char, (c = '-' || c.isDigit) = false → d ≠ c := by
    rintro c hc rfl
    rw [hc] at hd
    cases hd
  unfold passValue
  rw [if_neg (hne _ rfl), if_neg (hne _ rfl), if_neg (hne _ rfl), if_neg (hne _ rfl),
    if_neg (hne _ rfl), if_neg (hne _ rfl), if_pos hd]

theorem passes_number {p : Numeric} (hp : p.Proper) : Passes .value p.text := by
  refine passes_of_behind (fun opened r hr => ?_) nofun
  have hskip := hp.skipNumber (stops_of_closes hr)
  obtain ⟨d, s, htext, hd⟩ := hp.starts
  rw [htext, List.cons_append] at hskip ⊢
  simp only [Passage.step, skipSpace_cons (not_isJsonSpace_of_number hd), passValue_number hd,
    hskip, behind_ok]

theorem passes_space {l m r : Text} {awaited : Awaited} (hmore : awaited ≠ .more) (hl : Spaces l)
    (hm : Passes awaited m) (hr : Spaces r) : Passes awaited (l ++ (m ++ r)) := by
  intro opened s hs
  obtain ⟨b, hb, hfinish⟩ := hm opened (r ++ s) (closes_append hr hs)
  refine ⟨b ++ r, fun c hc => (List.mem_append.mp hc).elim (hb c) (hr c), ?_⟩
  have hspace : Passage.finish ⟨opened, awaited, l ++ (m ++ (r ++ s))⟩ =
      Passage.finish ⟨opened, awaited, m ++ (r ++ s)⟩ :=
    Passage.finish_congr (Passage.step_space hl ..) hmore hmore
  rw [List.append_assoc, List.append_assoc, hspace, hfinish, List.append_assoc]

/-- a member is passed over if its value is -/
theorem passes_member {v t : Text} (hv : Passes .value v) (ht : Member AnyString v t) :
    Passes .name t := by
  obtain ⟨l, n, r, hl, ⟨b, hb, rfl⟩, hr, rfl⟩ := ht
  intro opened s hs
  obtain ⟨b', hb', hfinish⟩ := hv opened s hs
  refine ⟨b', hb', ?_⟩
  rw [← hfinish]
  refine Passage.finish_of_step ?_ nofun
  have htext : l ++ ('"' :: (b ++ ['"']) ++ (r ++ ':' :: v)) ++ s =
      l ++ '"' :: (b ++ '"' :: (r ++ ':' :: (v ++ s))) := by
    simp only [List.append_assoc, List.cons_append, List.nil_append]
  rw [htext, Passage.step_space hl]
  have hskip : skipSpace (':' :: (v ++ s)) = ':' :: (v ++ s) := skipSpace_cons rfl _
  have hcolon : expectColon (r ++ ':' :: (v ++ s)) = .ok (v ++ s) := by
    simp only [expectColon, skipSpace_append hr, hskip]
  have hquote : skipSpace ('"' :: (b ++ '"' :: (r ++ ':' :: (v ++ s)))) = _ := skipSpace_cons rfl _
  simp only [Passage.step, hquote, passName, if_true, hb.skipString, hcolon]

theorem begins_cons {bracket : Bracket} {c : Char} (hspace : isJsonSpace c = false)
    (hlast : c ≠ bracket.last) (s : Text) : Begins bracket (c :: s) :=
  ⟨[], c, s, spaces_nil, hspace, hlast, rfl⟩

theorem begins_member {v t : Text} (h : Member AnyString v t) : Begins .object t := by
  obtain ⟨l, n, r, hl, ⟨b, -, rfl⟩, -, rfl⟩ := h
  exact ⟨l, '"', _, hl, rfl, by decide, congrArg _ (List.cons_append ..)⟩

theorem begins_enclosed {first last : Char} {ts : List Text} {t : Text}
    (h : Enclosed first last ts t) (hspace : isJsonSpace first = false)
    (hlast : first ≠ Bracket.list.last) : Begins .list t := by
  cases h
  · exact begins_cons hspace hlast _
  · exact begins_cons hspace hlast _

theorem ne_bracket_of_number {d : Char} (hd : (d = '-' || d.isDigit) = true) :
    d ≠ Bracket.list.last := by
  rintro rfl
  cases hd

/-- a value does not begin like the end of a list -/
theorem WellFormed.begins {t : Text} (h : WellFormed t) : Begins .list t := by
  induction h with
  | null => exact begins_cons rfl (by decide) _
  | yes => exact begins_cons rfl (by decide) _
  | no => exact begins_cons rfl (by decide) _
  | number hp =>
    obtain ⟨d, s, htext, hd⟩ := hp.starts
    rw [htext]
    exact begins_cons (not_isJsonSpace_of_number hd) (ne_bracket_of_number hd) s
  | string ht =>
    obtain ⟨b, -, rfl⟩ := ht
    exact begins_cons rfl (by decide) _
  | list _ ht => exact begins_enclosed ht rfl (by decide)
  | object _ _ ht => exact begins_enclosed ht rfl (by decide)
  | @padded l m r hl _ _ ih =>
    obtain ⟨l', c, s, hl', hspace, hlast, rfl⟩ := ih
    refine ⟨l ++ l', c, s ++ r, ?_, hspace, hlast, ?_⟩
    · exact fun d hd => (List.mem_append.mp hd).elim (hl d) (hl' d)
    · simp only [List.append_assoc, List.cons_append]

/-- a list or an object whose items are passed over is passed over -/
theorem passes_enclosed {bracket : Bracket} {first : Char} {ts : List Text} {t : Text}
    (ht : Enclosed first bracket.last ts t) (hpasses : ∀ u ∈ ts, Passes bracket.item u)
    (hbegins : ∀ u ∈ ts, Begins bracket u) (hspace : isJsonSpace first = false)
    (hopen : ∀ opened s, passValue opened first s = .ok ⟨bracket :: opened, bracket.first, s⟩) :
    Passes .value t := by
  intro opened r _
  obtain ⟨s, hs, hfinish⟩ := Passage.finish_enclosed ht hpasses hbegins opened r
  refine ⟨[], spaces_nil, ?_⟩
  rw [hs, List.nil_append, ← hfinish]
  refine Passage.finish_of_step ?_ nofun
  simp only [Passage.step, skipSpace_cons hspace, hopen]

/-- every value is passed over, by induction on the value: one case for each of its forms -/
theorem WellFormed.passes {t : Text} (h : WellFormed t) : Passes .value t := by
  induction h with
  | null => exact passes_of_behind (fun _ _ _ => rfl) nofun
  | yes => exact passes_of_behind (fun _ _ _ => rfl) nofun
  | no => exact passes_of_behind (fun _ _ _ => rfl) nofun
  | number hp => exact passes_number hp
  | string ht => exact passes_string ht
  | list hts ht ih => exact passes_enclosed ht ih (fun u hu => (hts u hu).begins) rfl fun _ _ => rfl
  | object _ hms ht ih =>
    have hpasses : ∀ u ∈ _, Passes Bracket.object.item u := fun u hu => by
      obtain ⟨v, hv, hm⟩ := exists_of_mem_right hms hu
      exact passes_member (ih v hv) hm
    refine passes_enclosed ht hpasses (fun u hu => ?_) rfl fun _ _ => rfl
    obtain ⟨v, -, hm⟩ := exists_of_mem_right hms hu
    exact begins_member hm
  | padded hl _ hr ih => exact passes_space nofun hl ih hr

/-- a value is passed over as a whole, up to space at its end -/
theorem WellFormed.skipValue {t r : Text} (h : WellFormed t) (hr : Closes r) :
    ∃ b, Spaces b ∧ skipValue (t ++ r) = .ok (b ++ r) := by
  obtain ⟨b, hb, hfinish⟩ := h.passes [] r hr
  refine ⟨b, hb, hfinish.trans ?_⟩
  rw [Passage.finish]
  exact if_pos ⟨rfl, rfl⟩

end LineEditor.Json
