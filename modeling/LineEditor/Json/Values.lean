import LineEditor.Json.Skip

/-!
# Readers of values

Readers of strings, numbers, null and lists. Where a value of another type stands, its first token
must still be JSON.
-/

namespace LineEditor.Json

/-- the fault of a step that is no use even where it succeeds -/
def faultOf {α : Type} : Except Fault α → Fault
  | .ok _ => .mismatched
  | .error e => e

/-- the fault of the value that starts with `c`, where a value of another type is asked for -/
def refusal (c : Char) (s : Text) : Fault :=
  if c = '[' || c = '{' then .mismatched
  else if c = '"' then faultOf (readString s)
  else if c = 'n' then faultOf (expect "ull".toList s)
  else if c = 't' then faultOf (expect "rue".toList s)
  else if c = 'f' then faultOf (expect "alse".toList s)
  else if c = '-' || c.isDigit then faultOf (readNumber Parts.number? (c :: s))
  else .malformed

/-! ## Names of members -/

/-- the name of a member; nothing but a string can be one -/
def readName (s : Text) : Step Text :=
  match skipSpace s with
  | [] => .error .truncated
  | '"' :: r => readString r
  | _ => .error .malformed

theorem length_readName_lt {s r name : Text} (h : readName s = .ok (name, r)) :
    r.length < s.length := by
  unfold readName at h
  split at h
  · cases h
  · rename_i hs
    exact Nat.lt_trans (length_readString_lt h) (length_lt_of_skipSpace hs)
  · cases h

namespace Reader

/-! ## Single tokens -/

/-- reads behind space, by a function of the first character and the text behind it -/
def token {α : Type} (take : Char → Text → Step α)
    (takes : ∀ {c s a r}, take c s = .ok (a, r) → r.length < (c :: s).length) : Reader α where
  run s :=
    match skipSpace s with
    | [] => .error .truncated
    | c :: r => take c r
  takes {s a r} h := by
    have hs : (skipSpace s).length ≤ s.length := length_skipSpace_le s
    split at h
    · cases h
    · rename_i e
      rw [e] at hs
      exact Nat.lt_of_lt_of_le (takes h) hs

/-- reads a string -/
def string : Reader Text :=
  token (fun c s => if c = '"' then readString s else .error (refusal c s)) (by
    intro c s a r h
    split at h
    · exact Nat.lt_trans (length_readString_lt h) (by simp)
    · cases h)

/-- reads null -/
def null : Reader Unit :=
  token (fun c s =>
      if c = 'n' then
        match expect "ull".toList s with
        | .error e => .error e
        | .ok r => .ok ((), r)
      else .error (refusal c s)) (by
    intro c s a r h
    split at h
    · split at h
      · cases h
      · rename_i he
        have hr := length_expect_le he
        cases h
        simp only [List.length_cons]
        omega
    · cases h)

/-- reads a number that a function accepts, under a conversion of its parts -/
def number {α β : Type} (convert : Parts → Option β) (accept : β → Option α) : Reader α :=
  token (fun c s =>
      if c = '-' || c.isDigit then
        match readNumber convert (c :: s) with
        | .error e => .error e
        | .ok (x, r) =>
          match accept x with
          | some a => .ok (a, r)
          | none => .error .mismatched
      else .error (refusal c s)) (by
    intro c s a r h
    split at h
    · split at h
      · cases h
      · rename_i hn
        have hr := length_readNumber_lt hn
        split at h
        · cases h
          exact hr
        · cases h
    · cases h)

/-- reads a whole number up to the greatest count -/
def natural : Reader Nat :=
  number Parts.number? fun
    | .natural n => some n
    | _ => none

/-- reads a number in single precision -/
def single (convert : Parts → Option Single) : Reader Single := number convert some

/-! ## Lists -/

/-- elements with commas between them, and the bracket behind them -/
def elements {α : Type} (item : Reader α) (s : Text) : Step (List α) :=
  match _h : item.run s with
  | .error e => .error e
  | .ok (a, r) =>
    match _hr : skipSpace r with
    | [] => .error .truncated
    | ']' :: t => .ok ([a], t)
    | ',' :: t =>
      match skipSpace t with
      | [] => .error .truncated
      | ']' :: _ => .error .malformed
      | _ =>
        match elements item t with
        | .error e => .error e
        | .ok (as, u) => .ok (a :: as, u)
    | _ => .error .malformed
termination_by s.length
decreasing_by
  have h₁ := item.takes _h
  have h₂ := length_lt_of_skipSpace _hr
  omega

theorem length_elements_lt {α : Type} {item : Reader α} {s r : Text} {as : List α}
    (h : elements item s = .ok (as, r)) : r.length < s.length := by
  fun_induction elements item s generalizing as r with
  | case1 => cases h
  | case2 => cases h
  | case3 s a r ha t ht =>
    cases h
    have h₁ := item.takes ha
    have h₂ := length_lt_of_skipSpace ht
    omega
  | case4 => cases h
  | case5 => cases h
  | case6 => cases h
  | case7 s a r ha t ht as' u hu _ _ ih =>
    cases h
    have h₁ := item.takes ha
    have h₂ := length_lt_of_skipSpace ht
    have h₃ := ih hu
    omega
  | case8 => cases h

/-- reads a list -/
def list {α : Type} (item : Reader α) : Reader (List α) :=
  token (fun c s =>
      if c = '[' then
        match skipSpace s with
        | [] => .error .truncated
        | ']' :: r => .ok ([], r)
        | _ => elements item s
      else .error (refusal c s)) (by
    intro c s a r h
    split at h
    · split at h
      · cases h
      · rename_i hs
        cases h
        have hr := length_lt_of_skipSpace hs
        simp only [List.length_cons]
        omega
      · exact Nat.lt_trans (length_elements_lt h) (by simp)
    · cases h)

end Reader

end LineEditor.Json
