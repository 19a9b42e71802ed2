import LineEditor.Json.Number
import LineEditor.Json.Quoted

/-!
# Passing over a value

A value that nobody asks for is passed over. It must be JSON, of whatever depth: the brackets that
are open are kept on a stack, and one token is taken at a time.
-/

namespace LineEditor.Json

/-- an open bracket -/
inductive Bracket
  | list
  | object
deriving DecidableEq

/-- what may come next -/
inductive Awaited
  /-- a value -/
  | value
  /-- the first element of a list, or its end -/
  | element
  /-- the name of a member -/
  | name
  /-- the first name of an object, or its end -/
  | firstName
  /-- a comma or the end of the innermost bracket -/
  | more
deriving DecidableEq

/-- the open brackets, the innermost first, what may come next, and the text -/
structure Passage where
  opened : List Bracket
  awaited : Awaited
  rest : Text

/-- goes on behind a value, under the brackets given -/
def behind (opened : List Bracket) : Except Fault Text → Except Fault Passage
  | .error e => .error e
  | .ok r => .ok ⟨opened, .more, r⟩

/-- takes the start of a value: a whole value, or an opening bracket -/
def passValue (opened : List Bracket) (c : Char) (s : Text) : Except Fault Passage :=
  if c = '[' then .ok ⟨.list :: opened, .element, s⟩
  else if c = '{' then .ok ⟨.object :: opened, .firstName, s⟩
  else if c = '"' then behind opened (skipString s)
  else if c = 'n' then behind opened (expect "ull".toList s)
  else if c = 't' then behind opened (expect "rue".toList s)
  else if c = 'f' then behind opened (expect "alse".toList s)
  else if c = '-' || c.isDigit then behind opened (skipNumber (c :: s))
  else .error .malformed

/-- takes a name and the colon behind it -/
def passName (opened : List Bracket) (c : Char) (s : Text) : Except Fault Passage :=
  if c = '"' then
    match skipString s with
    | .error e => .error e
    | .ok r =>
      match expectColon r with
      | .error e => .error e
      | .ok t => .ok ⟨opened, .value, t⟩
  else .error .malformed

/-- takes a comma, or the end of the innermost bracket -/
def passMore (opened : List Bracket) (c : Char) (s : Text) : Except Fault Passage :=
  match opened, c with
  | .list :: _, ',' => .ok ⟨opened, .value, s⟩
  | .list :: outer, ']' => .ok ⟨outer, .more, s⟩
  | .object :: _, ',' => .ok ⟨opened, .name, s⟩
  | .object :: outer, '}' => .ok ⟨outer, .more, s⟩
  | _, _ => .error .malformed

/-- takes one token -/
def Passage.step (p : Passage) : Except Fault Passage :=
  match skipSpace p.rest with
  | [] => .error .truncated
  | c :: s =>
    match p.awaited with
    | .value => passValue p.opened c s
    | .element => if c = ']' then .ok ⟨p.opened.tail, .more, s⟩ else passValue p.opened c s
    | .name => passName p.opened c s
    | .firstName => if c = '}' then .ok ⟨p.opened.tail, .more, s⟩ else passName p.opened c s
    | .more => passMore p.opened c s

theorem length_behind_lt {opened : List Bracket} {x : Except Fault Text} {q : Passage} {n : Nat}
    (h : behind opened x = .ok q) (hx : ∀ r, x = .ok r → r.length < n) : q.rest.length < n := by
  cases x with
  | error e => cases h
  | ok r =>
    cases h
    exact hx r rfl

theorem length_passValue_le {opened : List Bracket} {c : Char} {s : Text} {q : Passage}
    (h : passValue opened c s = .ok q) : q.rest.length < (c :: s).length := by
  have hs : s.length < (c :: s).length := by simp
  have hw : ∀ w r, expect w s = .ok r → r.length < (c :: s).length := fun w r hr =>
    Nat.lt_of_le_of_lt (length_expect_le hr) hs
  unfold passValue at h
  repeat' split at h
  · cases h
    exact hs
  · cases h
    exact hs
  · exact length_behind_lt h fun r hr => Nat.lt_trans (length_skipString_lt hr) hs
  · exact length_behind_lt h (hw _)
  · exact length_behind_lt h (hw _)
  · exact length_behind_lt h (hw _)
  · exact length_behind_lt h fun r hr => length_skipNumber_lt hr
  · cases h

theorem length_passName_lt {opened : List Bracket} {c : Char} {s : Text} {q : Passage}
    (h : passName opened c s = .ok q) : q.rest.length < (c :: s).length := by
  unfold passName at h
  split at h
  · split at h
    · cases h
    · rename_i hs
      have h₁ := length_skipString_lt hs
      split at h
      · cases h
      · rename_i hc
        have h₂ := length_expectColon_lt hc
        cases h
        simp only [List.length_cons]
        omega
  · cases h

theorem length_passMore_lt {opened : List Bracket} {c : Char} {s : Text} {q : Passage}
    (h : passMore opened c s = .ok q) : q.rest.length < (c :: s).length := by
  unfold passMore at h
  split at h <;> cases h <;> simp

theorem Passage.length_step_lt {p q : Passage} (h : p.step = .ok q) :
    q.rest.length < p.rest.length := by
  have hs : (skipSpace p.rest).length ≤ p.rest.length := length_skipSpace_le p.rest
  unfold step at h
  split at h
  · cases h
  · rename_i c s e
    rw [e] at hs
    have hl : s.length < (c :: s).length := by simp
    refine Nat.lt_of_lt_of_le ?_ hs
    split at h
    · exact length_passValue_le h
    · split at h
      · cases h
        exact hl
      · exact length_passValue_le h
    · exact length_passName_lt h
    · split at h
      · cases h
        exact hl
      · exact length_passName_lt h
    · exact length_passMore_lt h

/-- the text behind the value whose brackets are opened -/
def Passage.finish (p : Passage) : Except Fault Text :=
  if p.opened = [] ∧ p.awaited = .more then .ok p.rest
  else
    match _h : p.step with
    | .error e => .error e
    | .ok q => q.finish
termination_by p.rest.length
decreasing_by exact length_step_lt _h

/-- the text behind the value at the start of `s` -/
def skipValue (s : Text) : Except Fault Text := Passage.finish ⟨[], .value, s⟩

theorem Passage.length_finish_le {p : Passage} {r : Text} (h : p.finish = .ok r) :
    r.length ≤ p.rest.length := by
  fun_induction Passage.finish p with
  | case1 => cases h; exact Nat.le_refl _
  | case2 => cases h
  | case3 p _ q hq ih =>
    have hl := length_step_lt hq
    have hr := ih h
    omega

theorem length_skipValue_le {s r : Text} (h : skipValue s = .ok r) : r.length ≤ s.length :=
  Passage.length_finish_le h

end LineEditor.Json
