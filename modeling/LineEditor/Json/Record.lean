import LineEditor.Json.Values

/-!
# Records

A record is written as an object with named members or as a list of its fields in order. An object
may have members that the record does not know, which are passed over; a member that it knows may
stand only once. What is missing keeps the value that the record starts with, and whether the
record is complete is judged at the end.
-/

namespace LineEditor.Json

variable {σ : Type}

/-! ## Objects -/

/-- the value of a member behind its colon: of a known field, or passed over -/
def memberValue (field : Option (RecordField σ)) (s : Text) : Step (σ → σ) :=
  match field with
  | some f => f.value.run s
  | none =>
    match skipValue s with
    | .error e => .error e
    | .ok r => .ok (id, r)

/-- a member: the known name it has, if any, what its value changes, and the text behind it. The
names in `seen` must not stand again. -/
def member (fields : List (RecordField σ)) (seen : List String) (s : Text) :
    Step (Option String × (σ → σ)) :=
  match readName s with
  | .error e => .error e
  | .ok (name, t) =>
    let field := fields.find? fun f => f.name.toList = name
    if field.any fun f => seen.contains f.name then .error .mismatched
    else
      match expectColon t with
      | .error e => .error e
      | .ok u =>
        match memberValue field u with
        | .error e => .error e
        | .ok (change, v) => .ok ((field.map RecordField.name, change), v)

theorem length_memberValue_le {field : Option (RecordField σ)} {s r : Text} {change : σ → σ}
    (h : memberValue field s = .ok (change, r)) : r.length ≤ s.length := by
  unfold memberValue at h
  split at h
  · exact Nat.le_of_lt (Reader.takes _ h)
  · split at h
    · cases h
    · rename_i hs
      cases h
      exact length_skipValue_le hs

theorem length_member_lt {fields : List (RecordField σ)} {seen : List String} {s r : Text}
    {x : Option String × (σ → σ)} (h : member fields seen s = .ok (x, r)) :
    r.length < s.length := by
  simp only [member] at h
  split at h
  · cases h
  · rename_i hn
    have h₁ := length_readName_lt hn
    split at h
    · cases h
    · split at h
      · cases h
      · rename_i hc
        have h₂ := length_expectColon_lt hc
        split at h
        · cases h
        · rename_i hv
          have h₃ := length_memberValue_le hv
          cases h
          omega

/-- members with commas between them, and the brace behind them -/
def members (fields : List (RecordField σ)) (seen : List String) (record : σ) (s : Text) : Step σ :=
  match _h : member fields seen s with
  | .error e => .error e
  | .ok ((name, change), r) =>
    match _hr : skipSpace r with
    | [] => .error .truncated
    | '}' :: t => .ok (change record, t)
    | ',' :: t => members fields (name.toList ++ seen) (change record) t
    | _ => .error .malformed
termination_by s.length
decreasing_by
  have h₁ := length_member_lt _h
  have h₂ := length_lt_of_skipSpace _hr
  omega

theorem length_members_lt {fields : List (RecordField σ)} {seen : List String} {record x : σ}
    {s r : Text} (h : members fields seen record s = .ok (x, r)) : r.length < s.length := by
  fun_induction members fields seen record s with
  | case1 => cases h
  | case2 => cases h
  | case3 seen record s name change r hm t ht =>
    cases h
    have h₁ := length_member_lt hm
    have h₂ := length_lt_of_skipSpace ht
    omega
  | case4 seen record s name change r hm t ht ih =>
    have h₁ := length_member_lt hm
    have h₂ := length_lt_of_skipSpace ht
    have h₃ := ih h
    omega
  | case5 => cases h

/-! ## Lists of fields -/

/-- the values of fields in order and the bracket behind them, which may come early; `first` says
that no value stands before -/
def positions (first : Bool) (record : σ) : List (RecordField σ) → Text → Step σ
  | [], s =>
    match skipSpace s with
    | [] => .error .truncated
    | ']' :: r => .ok (record, r)
    | _ => .error .malformed
  | f :: fs, s =>
    match skipSpace s with
    | [] => .error .truncated
    | ']' :: r => .ok (record, r)
    | c :: r =>
      if !first && c ≠ ',' then .error .malformed
      else
        let t := if first then s else r
        match skipSpace t with
        | ']' :: _ => .error .malformed
        | _ =>
          match f.value.run t with
          | .error e => .error e
          | .ok (change, u) => positions false (change record) fs u

theorem length_positions_lt {first : Bool} {record x : σ} {fields : List (RecordField σ)}
    {s r : Text} (h : positions first record fields s = .ok (x, r)) : r.length < s.length := by
  induction fields generalizing first record s with
  | nil =>
    unfold positions at h
    split at h
    · cases h
    · rename_i hs
      cases h
      exact length_lt_of_skipSpace hs
    · cases h
  | cons f fs ih =>
    simp only [positions] at h
    split at h
    · cases h
    · rename_i hs
      cases h
      exact length_lt_of_skipSpace hs
    · rename_i c t _ hs
      have h₁ := length_lt_of_skipSpace hs
      have h₂ : (if first then s else t : Text).length ≤ s.length := by
        split
        · exact Nat.le_refl _
        · exact Nat.le_of_lt h₁
      split at h
      · cases h
      · split at h
        · cases h
        · split at h
          · cases h
          · rename_i hv
            have h₃ := Reader.takes _ hv
            have h₄ := ih h
            omega

/-! ## The reader -/

namespace Reader

/-- reads a record in either form: the fields, the record to start with, and what is made of the
record in the end, if it is complete -/
def record {α : Type} (fields : List (RecordField σ)) (start : σ) (finish : σ → Option α) :
    Reader α :=
  token (fun c s =>
      let built :=
        if c = '{' then
          match skipSpace s with
          | '}' :: r => .ok (start, r)
          | _ => members fields [] start s
        else if c = '[' then positions true start fields s
        else .error (refusal c s)
      match built with
      | .error e => .error e
      | .ok (x, r) =>
        match finish x with
        | some a => .ok (a, r)
        | none => .error .mismatched) (by
    intro c s a r h
    simp only at h
    split at h
    · cases h
    · rename_i x t hb
      have ht : t.length < s.length := by
        split at hb
        · split at hb
          · rename_i hs
            cases hb
            exact length_lt_of_skipSpace hs
          · exact length_members_lt hb
        · split at hb
          · exact length_positions_lt hb
          · cases hb
      split at h
      · cases h
        simp only [List.length_cons]
        omega
      · cases h)

end Reader

end LineEditor.Json
