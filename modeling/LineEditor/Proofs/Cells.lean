import LineEditor.Page.Wrap
import Mathlib.Data.List.Basic

/-!
# Cells

A row of segments spread out into cells, one for each character, which know the segment that they
come from.  The cells are cut into rows of a fixed width, and on each row the neighbouring cells of
one segment are put together again.  So no piece is empty, and none joins two segments.

`Wrapped width as rows` says which rows a list has: all but the last are full, and none is opened
for nothing.  So the rows are known from the list, and their number from its length.

* `Wrapped.length_eq`, `Wrapped.unique`   the rows of a list;
* `wrapped_rowsOf`                        a list that is cut;
* `pieces_append`                         the pieces of a row.
-/

namespace LineEditor

/-! ## Rows -/

/-- a list on rows of the given width -/
inductive Wrapped {α : Type} (width : Nat) : List α → List (List α) → Prop
  | last {as : List α} (h : as.length ≤ width) : Wrapped width as [as]
  /-- a full row, with something behind it -/
  | full {row as : List α} {rows : List (List α)} (hrow : row.length = width) (hne : as ≠ [])
      (h : Wrapped width as rows) : Wrapped width (row ++ as) (row :: rows)

namespace Wrapped
variable {α β : Type} {width : Nat} {as : List α} {rows : List (List α)}

theorem map (f : α → β) (h : Wrapped width as rows) :
    Wrapped width (as.map f) (rows.map fun row => row.map f) := by
  induction h with
  | last h => exact .last (by rwa [List.length_map])
  | full hrow hne h ih =>
    rw [List.map_append, List.map_cons]
    exact .full (by rwa [List.length_map]) (fun e => hne (List.map_eq_nil_iff.mp e)) ih

theorem flatten (h : Wrapped width as rows) : rows.flatten = as := by
  induction h with
  | last h => exact List.append_nil _
  | full hrow hne h ih => rw [List.flatten_cons, ih]

theorem eq_singleton (h : Wrapped width as rows) (hle : as.length ≤ width) : rows = [as] := by
  cases h with
  | last h => rfl
  | full hrow hne h =>
    have hpos := List.length_pos_iff.mpr hne
    rw [List.length_append] at hle
    omega

theorem length_eq (h : Wrapped width as rows) (hw : 0 < width) :
    rows.length = max 1 ((as.length + (width - 1)) / width) := by
  induction h with
  | @last as h =>
    have hlt : (as.length + (width - 1)) / width < 2 := by
      rw [Nat.div_lt_iff_lt_mul hw]
      omega
    rw [List.length_singleton]
    omega
  | @full row as rows hrow hne h ih =>
    have hpos := List.length_pos_iff.mpr hne
    have hone : 1 ≤ (as.length + (width - 1)) / width := by
      rw [Nat.le_div_iff_mul_le hw]
      omega
    have hdiv : (width + as.length + (width - 1)) / width
        = (as.length + (width - 1)) / width + 1 := by
      rw [Nat.add_assoc, Nat.add_comm width, Nat.add_div_right _ hw]
    rw [List.length_cons, List.length_append, hrow, ih, hdiv]
    omega

theorem ne_nil (h : Wrapped width as rows) : rows ≠ [] := by
  cases h with
  | last => exact List.cons_ne_nil _ _
  | full => exact List.cons_ne_nil _ _

theorem length_of_mem_dropLast (h : Wrapped width as rows) {row : List α}
    (hrow : row ∈ rows.dropLast) : row.length = width := by
  induction h with
  | last => cases hrow
  | full hfull hne h ih =>
    rw [List.dropLast_cons_of_ne_nil h.ne_nil] at hrow
    rcases List.mem_cons.mp hrow with rfl | hrow
    · exact hfull
    · exact ih hrow

theorem length_le_of_mem (h : Wrapped width as rows) {row : List α} (hrow : row ∈ rows) :
    row.length ≤ width := by
  induction h with
  | last hle => exact List.mem_singleton.mp hrow ▸ hle
  | full hfull hne h ih =>
    rcases List.mem_cons.mp hrow with rfl | hrow
    · exact Nat.le_of_eq hfull
    · exact ih hrow

/-! ### One item more -/

section
variable {front : List (List α)} {row : List α}

/-- an item that finds a place on the last row -/
theorem concat_of_lt (h : Wrapped width as (front ++ [row])) (hlt : row.length < width) (a : α) :
    Wrapped width (as ++ [a]) (front ++ [row ++ [a]]) := by
  induction front generalizing as with
  | nil =>
    have hrows := h.flatten
    rw [List.nil_append, List.flatten_singleton] at hrows
    rw [← hrows]
    refine .last ?_
    rw [List.length_append, List.length_singleton]
    exact hlt
  | cons first front ih =>
    generalize hall : first :: front ++ [row] = rows at h
    cases h with
    | last =>
      rw [List.cons_append] at hall
      exact absurd (List.cons.inj hall).2 (by simp)
    | full hfirst hne hrest =>
      obtain ⟨rfl, rfl⟩ := List.cons.inj hall
      rw [List.append_assoc]
      exact .full hfirst (by simp) (ih hrest)

/-- an item that opens a row -/
theorem concat_of_eq (h : Wrapped width as (front ++ [row])) (hw : 0 < width)
    (hfull : row.length = width) (a : α) : Wrapped width (as ++ [a]) (front ++ [row] ++ [[a]]) := by
  induction front generalizing as with
  | nil =>
    have hrows := h.flatten
    rw [List.nil_append, List.flatten_singleton] at hrows
    rw [← hrows]
    exact .full hfull (List.cons_ne_nil a []) (.last hw)
  | cons first front ih =>
    generalize hall : first :: front ++ [row] = rows at h
    cases h with
    | last =>
      rw [List.cons_append] at hall
      exact absurd (List.cons.inj hall).2 (by simp)
    | full hfirst hne hrest =>
      obtain ⟨rfl, rfl⟩ := List.cons.inj hall
      rw [List.append_assoc]
      exact .full hfirst (by simp) (ih hrest)

end

/-- a list has its rows only -/
theorem unique {rows' : List (List α)} (h : Wrapped width as rows) (h' : Wrapped width as rows') :
    rows = rows' := by
  induction h generalizing rows' with
  | last hle => exact (h'.eq_singleton hle).symm
  | @full row as rows hrow hne h ih =>
    generalize hall : row ++ as = bs at h'
    cases h' with
    | last hle =>
      have hpos := List.length_pos_iff.mpr hne
      rw [← hall, List.length_append] at hle
      omega
    | full hrow' hne' h' =>
      obtain ⟨rfl, rfl⟩ := List.append_inj hall (hrow.trans hrow'.symm)
      rw [ih h']

end Wrapped

/-! ## Cutting a list into rows -/

/-- the items for which the open row still has room, and the full rows behind it; a row is opened
only for an item -/
def cut (width : Nat) {α : Type} : Nat → List α → List α × List (List α)
  | _, [] => ([], [])
  | 0, a :: as =>
    let rest := cut width (width - 1) as
    ([], (a :: rest.1) :: rest.2)
  | room + 1, a :: as =>
    let rest := cut width room as
    (a :: rest.1, rest.2)

theorem cut_nil (width room : Nat) {α : Type} : cut width room ([] : List α) = ([], []) := by
  cases room <;> rfl

theorem flatten_cut (width room : Nat) {α : Type} (as : List α) :
    (cut width room as).1 ++ (cut width room as).2.flatten = as := by
  induction as generalizing room with
  | nil => simp [cut_nil]
  | cons a as ih => cases room <;> simp [cut, ih]

/-- a list on rows of the given width; the first row is there even if it stays empty -/
def rowsOf (width : Nat) {α : Type} (as : List α) : List (List α) :=
  let r := cut width width as
  r.1 :: r.2

theorem flatten_rowsOf (width : Nat) {α : Type} (as : List α) :
    (rowsOf width as).flatten = as := by
  simp [rowsOf, flatten_cut]

section
variable {α : Type} {width : Nat}

/-- the rows from an open one on, which holds `done` already -/
theorem wrapped_cut (hw : 0 < width) (room : Nat) (done as : List α)
    (hdone : done.length + room = width) :
    Wrapped width (done ++ as) ((done ++ (cut width room as).1) :: (cut width room as).2) := by
  -- an item goes to the open row `done`, or opens the next one if there is no room
  induction as generalizing room done with
  | nil =>
    rw [cut_nil]
    refine .last ?_
    rw [List.append_nil]
    omega
  | cons a as ih =>
    cases room with
    | zero =>
      have hrest := ih (width - 1) [a] (by rw [List.length_singleton]; omega)
      show Wrapped width (done ++ a :: as) ((done ++ []) :: ([a] ++ (cut width (width - 1) as).1) ::
        (cut width (width - 1) as).2)
      rw [List.append_nil]
      exact .full hdone (List.cons_ne_nil a as) hrest
    | succ room =>
      have hrest := ih room (done ++ [a]) (by rw [List.length_append, List.length_singleton]; omega)
      rw [List.append_assoc, List.append_assoc] at hrest
      exact hrest

theorem wrapped_rowsOf (hw : 0 < width) (as : List α) : Wrapped width as (rowsOf width as) :=
  wrapped_cut hw width [] as (Nat.zero_add width)

end

/-! ## Cells -/

/-- a character of a line, with its tag and the number of its segment -/
structure Cell where
  char : Char
  tag : Tag
  segment : Nat
deriving DecidableEq

/-- the cells of a segment -/
def cellsOf (n : Nat) (s : Segment) : List Cell := s.text.map fun c => ⟨c, s.tag, n⟩

/-- the cells of a row of segments, which are numbered from `n` on -/
def cells (n : Nat) : List Segment → List Cell
  | [] => []
  | s :: ss => cellsOf n s ++ cells (n + 1) ss

/-- the pieces of a row: neighbouring cells of one segment together -/
def pieces : List Cell → List Segment
  | [] => []
  | c :: cs =>
    match cs, pieces cs with
    | d :: _, p :: ps =>
      if d.segment = c.segment then ⟨c.char :: p.text, c.tag⟩ :: ps
      else ⟨[c.char], c.tag⟩ :: p :: ps
    | _, ps => ⟨[c.char], c.tag⟩ :: ps

theorem map_char_cells (n : Nat) (segments : List Segment) :
    (cells n segments).map Cell.char = textOf segments := by
  induction segments generalizing n with
  | nil => rfl
  | cons s ss ih =>
    have hs : (cellsOf n s).map Cell.char = s.text := by
      rw [cellsOf, List.map_map]
      exact List.map_id s.text
    rw [cells, List.map_append, hs, ih, textOf_cons]

theorem textOf_pieces (cs : List Cell) : textOf (pieces cs) = cs.map Cell.char := by
  fun_induction pieces cs with
  | case1 => rfl
  | case2 c d tail p ps h x ih =>
    rw [x, textOf_cons] at ih
    rw [List.map_cons, ← ih]
    simp only [x, if_pos h, textOf_cons, List.cons_append]
  | case3 c d tail p ps h x ih =>
    rw [x] at ih
    rw [List.map_cons, ← ih]
    simp only [x, if_neg h, textOf_cons, List.cons_append, List.nil_append]
  | case4 c cs x ih =>
    rw [List.map_cons, ← ih]
    split
    · rename_i d tail p ps hps
      exact (x d tail p ps rfl hps).elim
    · rfl

/-! ## The pieces of a row -/

section
variable {c d : Cell} {cs ds : List Cell}

theorem pieces_cons_of_eq {p : Segment} {ps : List Segment} (h : d.segment = c.segment)
    (hps : pieces (d :: cs) = p :: ps) :
    pieces (c :: d :: cs) = ⟨c.char :: p.text, c.tag⟩ :: ps := by
  unfold pieces
  simp only [hps, if_pos h]

theorem pieces_cons_of_ne (h : d.segment ≠ c.segment) :
    pieces (c :: d :: cs) = ⟨[c.char], c.tag⟩ :: pieces (d :: cs) := by
  cases hps : pieces (d :: cs) with
  | nil =>
    unfold pieces
    simp only [hps]
  | cons p ps =>
    unfold pieces
    simp only [hps, if_neg h]

theorem pieces_cons_ne_nil (c : Cell) (cs : List Cell) : pieces (c :: cs) ≠ [] := by
  intro h
  have htext := textOf_pieces (c :: cs)
  rw [h] at htext
  cases htext

/-- no piece joins cells of different segments -/
theorem pieces_append (h : ∀ c ∈ cs, ∀ d ∈ ds, d.segment ≠ c.segment) :
    pieces (cs ++ ds) = pieces cs ++ pieces ds := by
  induction cs with
  | nil => rfl
  | cons c cs ih =>
    have hrest := ih fun a ha => h a (List.mem_cons_of_mem c ha)
    cases cs with
    | nil =>
      cases ds with
      | nil => rfl
      | cons d ds => exact pieces_cons_of_ne (h c List.mem_cons_self d List.mem_cons_self)
    | cons d cs =>
      obtain ⟨p, ps, hps⟩ := List.exists_cons_of_ne_nil (pieces_cons_ne_nil d cs)
      rw [List.cons_append] at hrest
      rw [List.cons_append, List.cons_append]
      by_cases hd : d.segment = c.segment
      · rw [hps, List.cons_append] at hrest
        rw [pieces_cons_of_eq hd hps, pieces_cons_of_eq hd hrest, List.cons_append]
      · rw [pieces_cons_of_ne hd, pieces_cons_of_ne hd, hrest, List.cons_append]

/-- the cells of one segment on one row are one piece -/
theorem pieces_of_uniform {n : Nat} {t : Tag} (h : ∀ c ∈ cs, c.segment = n ∧ c.tag = t)
    (hne : cs ≠ []) : pieces cs = [⟨cs.map Cell.char, t⟩] := by
  induction cs with
  | nil => exact absurd rfl hne
  | cons c cs ih =>
    obtain ⟨hc, ht⟩ := h c List.mem_cons_self
    cases cs with
    | nil =>
      rw [← ht]
      rfl
    | cons d cs =>
      have hd := (h d (List.mem_cons_of_mem c List.mem_cons_self)).1
      have hps := ih (fun a ha => h a (List.mem_cons_of_mem c ha)) (List.cons_ne_nil d cs)
      rw [pieces_cons_of_eq (hd.trans hc.symm) hps, ht]
      rfl

end

end LineEditor
