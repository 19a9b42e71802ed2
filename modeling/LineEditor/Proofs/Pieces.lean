import LineEditor.Proofs.Wrapping
import Mathlib.Data.List.Forall2

/-!
# The pieces of a wrapped line

Wrapping spreads a row of segments out into cells and puts the cells of each row together again.
No piece reaches over the end of its segment, so the pieces are the segments in order, each of them
cut where a row ends.

* `PiecesOf`          what becomes of a segment;
* `exists_piecesOf`   the pieces of all rows are those of the segments;
* `wrap_cuts`         the rows of a wrapped line.
-/

namespace LineEditor

/-! ## The pieces of a segment -/

/-- pieces into which a segment is cut -/
structure PiecesOf (s : Segment) (ps : List Segment) : Prop where
  text : textOf ps = s.text
  tag : ∀ p ∈ ps, p.tag = s.tag
  ne_nil : ∀ p ∈ ps, p.text ≠ []

theorem segment_of_mem_cells {n : Nat} {ss : List Segment} {c : Cell} (h : c ∈ cells n ss) :
    n ≤ c.segment := by
  induction ss generalizing n with
  | nil => cases h
  | cons s ss ih =>
    rcases List.mem_append.mp h with h | h
    · obtain ⟨a, -, rfl⟩ := List.mem_map.mp h
      exact Nat.le_refl n
    · exact Nat.le_of_succ_le (ih h)

theorem textOf_flatMap_pieces (rows : List (List Cell)) :
    textOf (rows.flatMap pieces) = rows.flatten.map Cell.char := by
  induction rows with
  | nil => rfl
  | cons row rows ih =>
    rw [List.flatMap_cons, textOf_append, textOf_pieces, ih, List.flatten_cons, List.map_append]

/-- rows on which the cells of a single segment stand -/
theorem piecesOf_rows {n : Nat} {s : Segment} {rows : List (List Cell)}
    (h : rows.flatten = cellsOf n s) : PiecesOf s (rows.flatMap pieces) := by
  have hpiece : ∀ p ∈ rows.flatMap pieces, p.tag = s.tag ∧ p.text ≠ [] := by
    intro p hp
    obtain ⟨row, hrow, hp⟩ := List.mem_flatMap.mp hp
    have huniform : ∀ c ∈ row, c.segment = n ∧ c.tag = s.tag := by
      intro c hc
      have hmem : c ∈ cellsOf n s := h ▸ List.mem_flatten.mpr ⟨row, hrow, hc⟩
      obtain ⟨a, -, rfl⟩ := List.mem_map.mp hmem
      exact ⟨rfl, rfl⟩
    by_cases hne : row = []
    · rw [hne] at hp
      cases hp
    · rw [pieces_of_uniform huniform hne] at hp
      rw [List.mem_singleton.mp hp]
      exact ⟨rfl, fun e => hne (List.map_eq_nil_iff.mp e)⟩
  refine ⟨?_, fun p hp => (hpiece p hp).1, fun p hp => (hpiece p hp).2⟩
  rw [textOf_flatMap_pieces, h, cellsOf, List.map_map]
  exact List.map_id s.text

/-- rows cut in two at the border between two segments, which may lie inside of a row -/
theorem exists_rows_append {rows : List (List Cell)} {cs ds : List Cell}
    (h : rows.flatten = cs ++ ds) (hne : ∀ c ∈ cs, ∀ d ∈ ds, d.segment ≠ c.segment) :
    ∃ front back : List (List Cell), front.flatten = cs ∧ back.flatten = ds ∧
      rows.flatMap pieces = front.flatMap pieces ++ back.flatMap pieces := by
  rcases List.flatten_eq_append_iff.mp h with
    ⟨front, back, rfl, rfl, rfl⟩ | ⟨front, as, b, bs, back, rfl, rfl, rfl⟩
  · exact ⟨front, back, rfl, rfl, List.flatMap_append⟩
  · refine ⟨front ++ [as], (b :: bs) :: back, ?_, rfl, ?_⟩
    · rw [List.flatten_append, List.flatten_singleton]
    · have hrow : pieces (as ++ b :: bs) = pieces as ++ pieces (b :: bs) :=
        pieces_append fun c hc d hd =>
          hne c (List.mem_append_right _ hc) d (List.mem_append_left _ hd)
      rw [List.flatMap_append, List.flatMap_cons, hrow, List.flatMap_append, List.flatMap_singleton,
        List.flatMap_cons, List.append_assoc, List.append_assoc]

theorem exists_piecesOf {n : Nat} {ss : List Segment} {rows : List (List Cell)}
    (h : rows.flatten = cells n ss) :
    ∃ parts, List.Forall₂ PiecesOf ss parts ∧ parts.flatten = rows.flatMap pieces := by
  induction ss generalizing n rows with
  | nil =>
    refine ⟨[], .nil, (List.flatMap_eq_nil_iff.mpr fun row hrow => ?_).symm⟩
    rw [List.flatten_eq_nil_iff.mp h row hrow]
    rfl
  | cons s ss ih =>
    obtain ⟨front, back, hfront, hback, hrows⟩ := exists_rows_append h fun c hc d hd => by
      obtain ⟨a, -, rfl⟩ := List.mem_map.mp hc
      exact Nat.ne_of_gt (segment_of_mem_cells hd)
    obtain ⟨parts, hparts, hflatten⟩ := ih hback
    exact ⟨front.flatMap pieces :: parts, .cons (piecesOf_rows hfront) hparts, by
      rw [List.flatten_cons, hflatten, hrows]⟩

/-! ## Tagged characters -/

/-- the characters of a row of segments, each with its tag -/
def tagged (segments : List Segment) : List (Char × Tag) :=
  segments.flatMap fun s => s.text.map fun c => (c, s.tag)

theorem tagged_append (ss ts : List Segment) : tagged (ss ++ ts) = tagged ss ++ tagged ts :=
  List.flatMap_append

theorem tagged_of_tag_eq {t : Tag} {ps : List Segment} (h : ∀ p ∈ ps, p.tag = t) :
    tagged ps = (textOf ps).map fun c => (c, t) := by
  induction ps with
  | nil => rfl
  | cons p ps ih =>
    have hp := h p List.mem_cons_self
    have hps := ih fun q hq => h q (List.mem_cons_of_mem p hq)
    rw [textOf_cons, List.map_append, ← hps, ← hp]
    rfl

theorem PiecesOf.tagged_eq {s : Segment} {ps : List Segment} (h : PiecesOf s ps) :
    tagged ps = tagged [s] := by
  rw [tagged_of_tag_eq h.tag, h.text, tagged, List.flatMap_singleton]

theorem tagged_flatten {ss : List Segment} {parts : List (List Segment)}
    (h : List.Forall₂ PiecesOf ss parts) : tagged parts.flatten = tagged ss := by
  induction h with
  | nil => rfl
  | @cons s ps ss parts hs h ih =>
    rw [List.flatten_cons, tagged_append, hs.tagged_eq, ih, ← tagged_append]
    rfl

/-! ## Wrapped lines -/

/-- **Wrapping cuts segments and does nothing else.**  A row of segments takes as many rows as its
size asks for; all rows but the last are full and none is too long; every character keeps its tag
and its place, and every piece is a part of one segment and not empty. -/
theorem wrap_cuts (rowHeight : Single) (width : Nat) (segments : List Segment) :
    (wrap width segments).length
        = (RowMetrics.ofWidth rowHeight width).rowsOfSize (lengthOf segments) ∧
      tagged (wrap width segments).flatten = tagged segments ∧
      (∀ row ∈ (wrap width segments).dropLast, lengthOf row = max 1 width) ∧
      (∀ row ∈ wrap width segments, lengthOf row ≤ max 1 width) ∧
      ∃ parts, List.Forall₂ PiecesOf segments parts ∧
        parts.flatten = (wrap width segments).flatten := by
  have hwrapped := wrapped_wrap width segments
  obtain ⟨parts, hparts, hflatten⟩ :=
    exists_piecesOf (flatten_rowsOf (max 1 width) (cells 0 segments))
  rw [List.flatMap_def, ← wrap_eq] at hflatten
  refine ⟨?_, ?_, fun row hrow => ?_, fun row hrow => ?_, parts, hparts, hflatten⟩
  · rw [length_wrap (RowMetrics.ofWidth rowHeight width) rfl, lengthOf_eq]
  · rw [← hflatten, tagged_flatten hparts]
  · rw [lengthOf_eq]
    refine hwrapped.length_of_mem_dropLast ?_
    rw [← List.map_dropLast]
    exact List.mem_map_of_mem hrow
  · rw [lengthOf_eq]
    exact hwrapped.length_le_of_mem (List.mem_map_of_mem hrow)

end LineEditor
