import LineEditor.Proofs.Layout

/-!
# Colours add nothing but escapes

A page with colours holds the page without them: what a theme adds is escape sequences, and the
text between them is the same.

* `withoutEscapes`          a text without its escape sequences;
* `withoutEscapes_paint`    a text that is painted;
* `withoutEscapes_render`   the page.
-/

namespace LineEditor

/-! ## Escape sequences -/

/-- the text without its escape sequences.  A sequence is the escape character, a bracket and all
up to the next `m`; what no `m` follows is no sequence. -/
def withoutEscapes : Text → Text
  | [] => []
  | c :: s =>
    if c = '\x1b' ∧ s.head? = some '[' ∧ 'm' ∈ s then
      withoutEscapes ((s.dropWhile fun d => d ≠ 'm').drop 1)
    else c :: withoutEscapes s
termination_by s => s.length
decreasing_by
  · have h : (s.dropWhile fun d => d ≠ 'm').length ≤ s.length :=
      (List.dropWhile_sublist _).length_le
    simp only [List.length_drop, List.length_cons]
    omega
  · exact Nat.lt_succ_self s.length

theorem withoutEscapes_nil : withoutEscapes [] = [] := by rw [withoutEscapes]

section
variable {s t : Text}

theorem withoutEscapes_append (h : '\x1b' ∉ s) :
    withoutEscapes (s ++ t) = s ++ withoutEscapes t := by
  induction s with
  | nil => rfl
  | cons c s ih =>
    have hc : c ≠ '\x1b' := fun e => h (e ▸ List.mem_cons_self)
    rw [List.cons_append, withoutEscapes, if_neg fun hesc => hc hesc.1,
      ih fun hs => h (List.mem_cons_of_mem c hs), List.cons_append]

theorem withoutEscapes_sequence (h : 'm' ∉ s) :
    withoutEscapes ('\x1b' :: '[' :: (s ++ 'm' :: t)) = withoutEscapes t := by
  have hm : 'm' ∈ '[' :: (s ++ 'm' :: t) :=
    List.mem_cons_of_mem _ (List.mem_append_right s List.mem_cons_self)
  have hdrop : ('[' :: (s ++ 'm' :: t)).dropWhile (fun d => d ≠ 'm') = 'm' :: t := by
    have hs : ∀ d ∈ '[' :: s, decide (d ≠ 'm') = true := by
      intro d hd
      refine decide_eq_true fun e => ?_
      rcases List.mem_cons.mp hd with hd | hd
      · rw [e] at hd
        exact absurd hd (by decide)
      · exact h (e ▸ hd)
    rw [← List.cons_append, List.dropWhile_append_of_pos hs]
    rfl
  rw [withoutEscapes, if_pos ⟨rfl, rfl, hm⟩, hdrop]
  rfl

/-! ## Painted texts -/

/-- what stands between the bracket and the `m` where a colour is set -/
def parameters (c : Rgb) : Text :=
  ['3', '8', ';', '2', ';'] ++ numeral c.red.toNat ++ ';' :: numeral c.green.toNat ++
    ';' :: numeral c.blue.toNat

theorem not_mem_parameters (c : Rgb) : 'm' ∉ parameters c := by
  have hdigits (n : Nat) : 'm' ∉ numeral n := not_mem_numeral (by decide) n
  have hopen : 'm' ∉ ['3', '8', ';', '2', ';'] := by decide
  have hcolon : 'm' ≠ ';' := by decide
  simp only [parameters, List.mem_append, List.mem_cons, hdigits, hopen, hcolon, or_self,
    not_false_iff]

theorem paint_some (c : Rgb) (s : Text) :
    paint (some c) s = '\x1b' :: '[' :: (parameters c ++ 'm' :: (s ++
      '\x1b' :: '[' :: (['0'] ++ ['m']))) := by
  have hopen : "\x1b[38;2;".toList = ['\x1b', '[', '3', '8', ';', '2', ';'] := by decide
  have hclose : "\x1b[0m".toList = ['\x1b', '[', '0', 'm'] := by decide
  -- shown and not unfolded: the equation of `paint` takes the literals apart
  show "\x1b[38;2;".toList ++ numeral c.red.toNat ++ ';' :: numeral c.green.toNat ++
    ';' :: numeral c.blue.toNat ++ 'm' :: s ++ "\x1b[0m".toList = _
  rw [hopen, hclose]
  simp only [parameters, List.append_assoc, List.cons_append, List.nil_append]

theorem withoutEscapes_paint (color : Option Rgb) (h : '\x1b' ∉ s) :
    withoutEscapes (paint color s ++ t) = s ++ withoutEscapes t := by
  cases color with
  | none => exact withoutEscapes_append h
  | some c =>
    have hzero : 'm' ∉ ['0'] := by decide
    rw [paint_some]
    simp only [List.cons_append, List.append_assoc]
    rw [withoutEscapes_sequence (not_mem_parameters c), withoutEscapes_append h]
    exact congrArg (s ++ ·) (withoutEscapes_sequence hzero)

end

/-! ## Painted rows -/

theorem escape_not_mem_label (digits : Nat) (number : Int32) : '\x1b' ∉ label digits number :=
  not_mem_label (by decide) (by decide) (by decide) (by decide) digits number

section
variable (theme : Option Theme) (digits : Nat) (number : Int32) (t : Text)

theorem withoutEscapes_pieces {row : List Segment} (h : '\x1b' ∉ textOf row) :
    withoutEscapes (row.flatMap (fun p => paint (theme.map (·.color p.tag)) p.text) ++ t)
      = textOf row ++ withoutEscapes t := by
  induction row with
  | nil => rfl
  | cons p row ih =>
    rw [textOf_cons, List.mem_append, not_or] at h
    rw [List.flatMap_cons, List.append_assoc, withoutEscapes_paint _ h.1, ih h.2, textOf_cons,
      List.append_assoc]

theorem withoutEscapes_renderRow {row : List Segment} (h : '\x1b' ∉ textOf row) :
    withoutEscapes (renderRow theme digits number row ++ t)
      = renderRow none digits number row ++ withoutEscapes t := by
  have hbreak : '\x1b' ∉ ['\n'] := by decide
  rw [renderRow, List.append_assoc, List.append_assoc,
    withoutEscapes_paint _ (escape_not_mem_label digits number), withoutEscapes_pieces _ _ h,
    withoutEscapes_append hbreak, renderRow_none]
  simp only [List.append_assoc]

theorem withoutEscapes_renderRows {rows : List (List Segment)}
    (h : ∀ row ∈ rows, '\x1b' ∉ textOf row) :
    withoutEscapes (renderRows theme digits number rows) = renderRows none digits number rows := by
  induction rows generalizing number with
  | nil => exact withoutEscapes_nil
  | cons row rows ih =>
    rw [renderRows, withoutEscapes_renderRow _ _ _ _ (h row List.mem_cons_self),
      ih _ fun r hr => h r (List.mem_cons_of_mem row hr), renderRows]

end

/-! ## Painted pages -/

/-- **Colours add nothing but escapes.**  If no segment holds an escape character, a page in colours
without its escape sequences is the page without colours. -/
theorem withoutEscapes_render (s : Snapshot) (theme : Theme)
    (hlines : ∀ l ∈ s.lines, ∀ p ∈ l.segments, '\x1b' ∉ p.text)
    (hcurrent : ∀ p ∈ s.current, '\x1b' ∉ p.text) :
    withoutEscapes (s.render (some theme)) = s.render none := by
  refine withoutEscapes_renderRows (some theme) _ _ fun row hrow => ?_
  exact s.not_mem_rows (by decide) (fun l hl => not_mem_textOf (hlines l hl))
    (not_mem_textOf hcurrent) hrow

/-- a page whose texts look like parts of escape sequences -/
def Snapshot.bracketed : Snapshot where
  lines := [⟨[⟨"[38;2;1".toList, .number⟩, .plain [], ⟨"m[0m".toList, .string⟩], .user⟩]
  currentText := "m".toList
  current := [⟨"m".toList, .member⟩]
  rowCount := 5
  limit := 4

theorem withoutEscapes_render_bracketed :
    withoutEscapes (Snapshot.bracketed.render (some (Theme.dark.set .comment ⟨0, 27, 91⟩)))
      = Snapshot.bracketed.render none := by
  have hlines : ∀ l ∈ Snapshot.bracketed.lines, ∀ p ∈ l.segments, '\x1b' ∉ p.text := by decide
  have hcurrent : ∀ p ∈ Snapshot.bracketed.current, '\x1b' ∉ p.text := by decide
  exact withoutEscapes_render .bracketed (Theme.dark.set .comment ⟨0, 27, 91⟩) hlines hcurrent

example : Snapshot.bracketed.render none
    = "1 │ [38;\n2 │ 2;1m\n3 │ [0m\n4 │ m█\n5 │ \n".toList := by
  decide

end LineEditor
