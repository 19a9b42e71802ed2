import LineEditor.Json.Library
import LineEditor.Json.Notation

/-!
# Reading from the front

The first steps of the readers of the standard library: space, fixed words, and what may stand
behind a whole value. The first fault from left to right counts; so a value of the wrong type is a
fault even where the text behind it is no JSON at all. Every reader takes at least one character,
which is what bounds the loops over elements and members.
-/

namespace LineEditor.Json

/-! ## Space -/

/-- the text from its first character that is no space -/
def skipSpace (s : Text) : Text := s.dropWhile isJsonSpace

theorem length_skipSpace_le (s : Text) : (skipSpace s).length ≤ s.length :=
  (List.dropWhile_suffix isJsonSpace).sublist.length_le

theorem length_lt_of_skipSpace {s r : Text} {c : Char} (h : skipSpace s = c :: r) :
    r.length < s.length := by
  have hs : (skipSpace s).length ≤ s.length := length_skipSpace_le s
  rw [h, List.length_cons] at hs
  omega

/-! ## Fixed words -/

/-- the text behind the word `w` -/
def expect : Text → Text → Except Fault Text
  | [], s => .ok s
  | _ :: _, [] => .error .truncated
  | c :: w, d :: s => if c = d then expect w s else .error .malformed

theorem length_expect_le {w s r : Text} (h : expect w s = .ok r) : r.length ≤ s.length := by
  induction w generalizing s with
  | nil =>
    cases h
    exact Nat.le_refl _
  | cons c w ih =>
    cases s with
    | nil => cases h
    | cons d s =>
      unfold expect at h
      split at h
      · exact Nat.le_succ_of_le (ih h)
      · cases h

/-- the text behind a colon -/
def expectColon (s : Text) : Except Fault Text :=
  match skipSpace s with
  | ':' :: r => .ok r
  | [] => .error .truncated
  | _ => .error .malformed

theorem length_expectColon_lt {s r : Text} (h : expectColon s = .ok r) : r.length < s.length := by
  unfold expectColon at h
  split at h
  · rename_i hs
    cases h
    exact length_lt_of_skipSpace hs
  · cases h
  · cases h

/-! ## Whole texts -/

/-- reads a whole text as one value -/
def Reader.readAll {α : Type} (reader : Reader α) (s : Text) : Except Fault α :=
  match reader.run s with
  | .error e => .error e
  | .ok (a, r) => if (skipSpace r).isEmpty then .ok a else .error .malformed

end LineEditor.Json
