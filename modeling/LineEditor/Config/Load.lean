import LineEditor.Config.Notation
import LineEditor.Directory

/-!
# Loading configurations

A configuration comes from a text or from a file. Three things can go wrong: the file cannot be
read, the text is no configuration, or the configuration has a flaw.
-/

namespace LineEditor.Config

/-- why there is no configuration -/
inductive Failure
  /-- the file at the path cannot be read -/
  | unreadable (path : Text) (cause : ReadFailure)
  /-- the text is no configuration -/
  | unparsable (fault : Json.Fault)
  /-- the configuration has a flaw -/
  | flawed (flaw : Flaw)
deriving DecidableEq

/-- a result in which only a flaw can be wrong -/
def ofCheck {α : Type} : Except Flaw α → Except Failure α
  | .ok a => .ok a
  | .error f => .error (.flawed f)

/-- the configuration that a JSON text describes, checked -/
def parse (L : Json.Library) (s : Text) : Except Failure Config :=
  match L.readAll (reader L) s with
  | .error e => .error (.unparsable e)
  | .ok c => ofCheck c.check

/-- the configuration in the file at a path, by a way to read the files -/
def load (L : Json.Library) (read : Text → Except ReadFailure Text) (path : Text) :
    Except Failure Config :=
  match read path with
  | .error cause => .error (.unreadable path cause)
  | .ok s => parse L s

/-- the message for a file that cannot be read -/
def unreadableMessage (path : Text) (cause : ReadFailure) : Text :=
  "failed to read config file ".toList ++ path ++ ": ".toList ++ cause.message

theorem parse_eq_ok_iff {L : Json.Library} {s : Text} {c : Config} :
    parse L s = .ok c ↔ L.readAll (reader L) s = .ok c ∧ c.Valid := by
  unfold parse
  cases h : L.readAll (reader L) s with
  | error e => simp
  | ok d =>
    cases hd : d.check with
    | error f =>
      have hn : ¬ d.Valid := fun hv => by
        rw [check_eq_ok_iff.mpr ⟨rfl, hv⟩] at hd
        cases hd
      simp only [ofCheck, hd, reduceCtorEq, Except.ok.injEq, false_iff, not_and]
      rintro rfl
      exact hn
    | ok e =>
      obtain ⟨rfl, hv⟩ := check_eq_ok_iff.mp hd
      simp only [ofCheck, hd, Except.ok.injEq]
      exact ⟨fun h => ⟨h, h ▸ hv⟩, fun h => h.1⟩

end LineEditor.Config
