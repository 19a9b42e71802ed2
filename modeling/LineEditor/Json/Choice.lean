import LineEditor.Json.Values

/-!
# Choices

A value out of a fixed set of names is written as its name. An object with the name as its only
member, whose value is null, is read as well.
-/

namespace LineEditor.Json

variable {α : Type}

/-- the value that a name stands for -/
def chosen (ofName? : Text → Option α) (name : Text) : Except Fault α :=
  match ofName? name with
  | some a => .ok a
  | none => .error .mismatched

/-- the end of an object -/
def expectBrace (s : Text) : Except Fault Text :=
  match skipSpace s with
  | '}' :: r => .ok r
  | [] => .error .truncated
  | _ => .error .malformed

/-- the name with its null and the brace behind it -/
def readLoneMember (ofName? : Text → Option α) (s : Text) : Step α :=
  match readName s with
  | .error e => .error e
  | .ok (name, r) =>
    match chosen ofName? name with
    | .error e => .error e
    | .ok a =>
      match expectColon r with
      | .error e => .error e
      | .ok t =>
        match Reader.null.run t with
        | .error e => .error e
        | .ok (_, u) =>
          match expectBrace u with
          | .error e => .error e
          | .ok v => .ok (a, v)

theorem length_expectBrace_lt {s r : Text} (h : expectBrace s = .ok r) : r.length < s.length := by
  unfold expectBrace at h
  split at h
  · rename_i hs
    cases h
    exact length_lt_of_skipSpace hs
  · cases h
  · cases h

theorem length_readLoneMember_lt {ofName? : Text → Option α} {s r : Text} {a : α}
    (h : readLoneMember ofName? s = .ok (a, r)) : r.length < s.length := by
  unfold readLoneMember at h
  split at h
  · cases h
  · rename_i hn
    have h₁ := length_readName_lt hn
    split at h
    · cases h
    · split at h
      · cases h
      · rename_i hc
        have h₂ := length_expectColon_lt hc
        split at h
        · cases h
        · rename_i hu
          have h₃ := Reader.takes _ hu
          split at h
          · cases h
          · rename_i hb
            have h₄ := length_expectBrace_lt hb
            cases h
            omega

/-- reads a value out of a fixed set of names -/
def Reader.choice (ofName? : Text → Option α) : Reader α :=
  token (fun c s =>
      if c = '"' then
        match readString s with
        | .error e => .error e
        | .ok (name, r) =>
          match chosen ofName? name with
          | .error e => .error e
          | .ok a => .ok (a, r)
      else if c = '{' then readLoneMember ofName? s
      else .error .malformed) (by
    intro c s a r h
    split at h
    · split at h
      · cases h
      · rename_i hs
        have hr := length_readString_lt hs
        split at h
        · cases h
        · cases h
          simp only [List.length_cons]
          omega
    · split at h
      · exact Nat.lt_trans (length_readLoneMember_lt h) (by simp)
      · cases h)

end LineEditor.Json
