import LineEditor.Text.Basic

/-!
# Sets of words

A set of words is kept as a strictly increasing list, in the lexicographic order of its characters.
So two sets with the same words are equal, and listing a set is listing its words in order.
-/

namespace LineEditor

/-! ## Strictly increasing lists -/

/-- puts `w` into its place in an increasing list; a word that is there already stays alone -/
def insertWord (w : Text) : List Text → List Text
  | [] => [w]
  | v :: vs => if w < v then w :: v :: vs else if v < w then v :: insertWord w vs else v :: vs

theorem text_eq_of_not_lt {v w : Text} (h : ¬ w < v) (h' : ¬ v < w) : v = w :=
  List.le_antisymm (List.not_lt.mp h) (List.not_lt.mp h')

theorem mem_insertWord {w x : Text} {vs : List Text} :
    x ∈ insertWord w vs ↔ x = w ∨ x ∈ vs := by
  induction vs with
  | nil => simp [insertWord]
  | cons v vs ih =>
    unfold insertWord
    split
    · simp
    · split
      · simp only [List.mem_cons, ih]
        exact or_left_comm
      · rename_i h h'
        have e : v = w := text_eq_of_not_lt h h'
        simp [e]

theorem pairwise_insertWord {w : Text} {vs : List Text} (h : vs.Pairwise (· < ·)) :
    (insertWord w vs).Pairwise (· < ·) := by
  induction vs with
  | nil => simp [insertWord]
  | cons v vs ih =>
    have hv : ∀ x ∈ vs, v < x := (List.pairwise_cons.mp h).1
    have hvs : vs.Pairwise (· < ·) := (List.pairwise_cons.mp h).2
    unfold insertWord
    split
    · rename_i hw
      refine List.pairwise_cons.mpr ⟨fun x hx => ?_, h⟩
      cases List.mem_cons.mp hx with
      | inl e => exact e ▸ hw
      | inr m => exact List.lt_trans hw (hv x m)
    · split
      · rename_i hw
        refine List.pairwise_cons.mpr ⟨fun x hx => ?_, ih hvs⟩
        cases mem_insertWord.mp hx with
        | inl e => exact e ▸ hw
        | inr m => exact hv x m
      · exact h

/-! ## The type -/

/-- a finite set of words -/
structure WordSet where
  /-- the words, in increasing order -/
  toList : List Text
  /-- each word stands before every greater one, and only once -/
  increasing : toList.Pairwise (· < ·)
deriving DecidableEq

namespace WordSet

/-- no word -/
def empty : WordSet := ⟨[], List.Pairwise.nil⟩

/-- the set with `w` put in -/
def insert (s : WordSet) (w : Text) : WordSet :=
  ⟨insertWord w s.toList, pairwise_insertWord s.increasing⟩

/-- the set of the words of a list -/
def ofList (ws : List Text) : WordSet := ws.foldl insert empty

/-- whether `w` is in the set -/
def contains (s : WordSet) (w : Text) : Bool := s.toList.contains w

theorem contains_eq_true_iff {s : WordSet} {w : Text} : s.contains w = true ↔ w ∈ s.toList := by
  simp [contains]

theorem contains_insert {s : WordSet} {v w : Text} :
    (s.insert v).contains w = true ↔ w = v ∨ s.contains w = true := by
  simp [contains_eq_true_iff, insert, mem_insertWord]

end WordSet

end LineEditor
