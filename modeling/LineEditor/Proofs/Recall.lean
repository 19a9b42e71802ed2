import LineEditor.Proofs.Freshness
import Mathlib.Data.List.SplitBy
import Mathlib.Data.List.TakeWhile

/-!
# What the memo answers

The memo knows a text again, but not the vocabulary that the text was highlighted with.  So of the
requests that follow each other and ask for one text, the first one decides: its vocabulary is used,
and all the others are handed the same segments, whichever vocabulary they bring.  A memo that
already holds a text is, for the requests at the start, as if it had just been asked for that text.

* `Request.opening`, `Request.runs`   how a row of requests falls apart where the text changes;
* `Request.splitBy_agree`             these are its maximal runs;
* `Memo.answers_eq`                   the answers of any memo;
* `Memo.misses_askAll`                how many of them it had to work out;
* `answers_by_runs`                   both for the empty memo, and what a fixed vocabulary gives.
-/

namespace LineEditor

/-- a text, and the vocabulary to highlight it with -/
structure Request where
  text : Text
  vocabulary : Vocabulary

/-! ## Runs of requests -/

namespace Request

def agree (q r : Request) : Bool := q.text = r.text

/-- the requests at the start that ask for the text `s` -/
def opening (s : Text) (rs : List Request) : List Request := rs.takeWhile fun r => r.text = s

/-- the maximal runs of requests for one text, behind the opening -/
def runs (s : Text) (rs : List Request) : List (List Request) :=
  (rs.dropWhile fun r => r.text = s).splitBy agree

/-- the texts of a run, highlighted with the vocabulary of its first request -/
def highlighted : List Request → List (List Segment)
  | [] => []
  | first :: others => (first :: others).map fun r => highlight first.vocabulary r.text

section
variable {s : Text} {r : Request} {rs : List Request}

theorem text_of_mem_opening (h : r ∈ opening s rs) : r.text = s := by
  have hr := List.mem_takeWhile_imp h
  exact of_decide_eq_true hr

theorem opening_cons_of_eq (h : r.text = s) : opening s (r :: rs) = r :: opening s rs :=
  List.takeWhile_cons_of_pos (decide_eq_true h)

theorem opening_cons_of_ne (h : r.text ≠ s) : opening s (r :: rs) = [] :=
  List.takeWhile_cons_of_neg (by simpa using h)

theorem runs_cons_of_eq (h : r.text = s) : runs s (r :: rs) = runs s rs := by
  have hdrop : (r :: rs).dropWhile (fun q => q.text = s) = rs.dropWhile fun q => q.text = s :=
    List.dropWhile_cons_of_pos (decide_eq_true h)
  rw [runs, hdrop]
  rfl

theorem text_of_mem_run {q : Request} (h : q ∈ r :: opening r.text rs) : q.text = r.text := by
  rcases List.mem_cons.mp h with rfl | h
  · rfl
  · exact text_of_mem_opening h

theorem isChain_run (r : Request) (rs : List Request) :
    (r :: opening r.text rs).IsChain fun p q => agree p q = true := by
  apply List.Pairwise.isChain
  apply List.pairwise_of_forall_mem_list
  intro p hp q hq
  exact decide_eq_true ((text_of_mem_run hp).trans (text_of_mem_run hq).symm)

/-- a run goes on as long as the text of its first request does -/
theorem splitBy_agree_cons (r : Request) (rs : List Request) :
    (r :: rs).splitBy agree = (r :: opening r.text rs) :: runs r.text rs := by
  have hborder : ∀ p ∈ (r :: opening r.text rs).getLast?,
      ∀ q ∈ (rs.dropWhile fun q => q.text = r.text).head?, agree p q = false := by
    -- what is behind the run starts with another text, if there is anything
    intro p hp q hq
    have hq' := List.head?_dropWhile_not (fun q : Request => q.text = r.text) rs
    rw [hq] at hq'
    apply decide_eq_false
    rw [text_of_mem_run (List.mem_of_getLast? hp)]
    exact fun e => of_decide_eq_false hq' e.symm
  have hsplit : r :: rs
      = (r :: opening r.text rs) ++ rs.dropWhile fun q => q.text = r.text := by
    rw [List.cons_append, opening, List.takeWhile_append_dropWhile]
  rw [hsplit, List.splitBy_append hborder,
    List.splitBy_of_isChain (List.cons_ne_nil _ _) (isChain_run r rs)]
  rfl

theorem runs_cons_of_ne (h : r.text ≠ s) :
    runs s (r :: rs) = (r :: opening r.text rs) :: runs r.text rs := by
  rw [runs, List.dropWhile_cons_of_neg (by simpa using h), splitBy_agree_cons]

theorem splitBy_agree (s : Text) (rs : List Request) :
    rs.splitBy agree
      = if opening s rs = [] then runs s rs else opening s rs :: runs s rs := by
  cases rs with
  | nil => rfl
  | cons r rs =>
    by_cases h : r.text = s
    · rw [opening_cons_of_eq h, runs_cons_of_eq h, if_neg (List.cons_ne_nil _ _),
        splitBy_agree_cons, h]
    · rw [opening_cons_of_ne h, if_pos rfl, runs_cons_of_ne h, splitBy_agree_cons]

theorem highlighted_opening (r : Request) (rs : List Request) :
    highlighted (r :: opening r.text rs)
      = highlight r.vocabulary r.text ::
          (opening r.text rs).map fun _ => highlight r.vocabulary r.text := by
  show highlight r.vocabulary r.text :: (opening r.text rs).map _ = _
  congr 1
  apply List.map_congr_left
  intro q hq
  rw [text_of_mem_opening hq]

theorem highlighted_of_vocabulary {v : Vocabulary} (h : ∀ r ∈ rs, r.vocabulary = v) :
    highlighted rs = rs.map fun r => highlight v r.text := by
  cases rs with
  | nil => rfl
  | cons r rs =>
    rw [highlighted, h r List.mem_cons_self]

theorem opening_append_flatten (s : Text) (rs : List Request) :
    opening s rs ++ (runs s rs).flatten = rs := by
  rw [runs, List.flatten_splitBy, opening, List.takeWhile_append_dropWhile]

end

end Request

/-! ## A memo in use -/

namespace Memo
open Request

def ask (m : Memo) (r : Request) : Memo := m.update r.vocabulary r.text

def askAll (m : Memo) (rs : List Request) : Memo := rs.foldl ask m

/-- what each request is answered: the segments that the memo holds then -/
def answers (m : Memo) : List Request → List (List Segment)
  | [] => []
  | r :: rs => (m.ask r).segments :: (m.ask r).answers rs

theorem ask_of_eq {m : Memo} {r : Request} (h : r.text = m.text) : m.ask r = m :=
  update_of_text_eq r.vocabulary h.symm

theorem ask_of_ne {m : Memo} {r : Request} (h : r.text ≠ m.text) :
    m.ask r = ⟨r.text, highlight r.vocabulary r.text, m.misses + 1⟩ :=
  if_neg fun e => h e.symm

/-- the requests at the start get what the memo holds, and every run what its first request asks
for -/
theorem answers_eq (m : Memo) (rs : List Request) :
    m.answers rs
      = (opening m.text rs).map (fun _ => m.segments) ++ (runs m.text rs).flatMap highlighted := by
  induction rs generalizing m with
  | nil => rfl
  | cons r rs ih =>
    -- the memo now holds the text of `r`, so its opening is what is left of the run of `r`
    show (m.ask r).segments :: (m.ask r).answers rs = _
    rw [ih]
    by_cases h : r.text = m.text
    · rw [ask_of_eq h, opening_cons_of_eq h, runs_cons_of_eq h]
      rfl
    · rw [ask_of_ne h, opening_cons_of_ne h, runs_cons_of_ne h, List.flatMap_cons,
        highlighted_opening]
      rfl

theorem misses_askAll (m : Memo) (rs : List Request) :
    (m.askAll rs).misses = m.misses + (runs m.text rs).length := by
  induction rs generalizing m with
  | nil => rfl
  | cons r rs ih =>
    show ((m.ask r).askAll rs).misses = _
    rw [ih]
    by_cases h : r.text = m.text
    · rw [ask_of_eq h, runs_cons_of_eq h]
    · rw [ask_of_ne h, runs_cons_of_ne h, List.length_cons]
      show m.misses + 1 + (runs r.text rs).length = m.misses + ((runs r.text rs).length + 1)
      omega

/-- with one vocabulary, a memo that holds the segments of its text answers like the highlighter -/
theorem answers_of_vocabulary {m : Memo} {v : Vocabulary} {rs : List Request}
    (hm : m.segments = highlight v m.text) (h : ∀ r ∈ rs, r.vocabulary = v) :
    m.answers rs = rs.map fun r => highlight v r.text := by
  have hopening : (opening m.text rs).map (fun _ => m.segments)
      = (opening m.text rs).map fun r => highlight v r.text := by
    apply List.map_congr_left
    intro r hr
    rw [text_of_mem_opening hr, hm]
  have hruns : (runs m.text rs).flatMap highlighted
      = (runs m.text rs).flatten.map fun r => highlight v r.text := by
    rw [List.map_flatten, List.flatMap_def]
    congr 1
    apply List.map_congr_left
    intro run hrun
    apply highlighted_of_vocabulary
    intro r hr
    apply h r
    rw [← opening_append_flatten m.text rs]
    exact List.mem_append_right _ (List.mem_flatten_of_mem hrun hr)
  rw [answers_eq, hopening, hruns, ← List.map_append, opening_append_flatten]

end Memo

/-- **A run of requests for one text is answered by its first request.**  Cut the requests to an
empty memo where the text changes.  The requests for the empty text at the start get no segments;
every other run gets its text in the vocabulary of its first request, and costs one highlighting.
So if the vocabulary is always the same, every request gets its text in that vocabulary. -/
theorem answers_by_runs (rs : List Request) :
    rs.splitBy Request.agree
        = (if Request.opening [] rs = [] then Request.runs [] rs
          else Request.opening [] rs :: Request.runs [] rs) ∧
      Memo.empty.answers rs
        = (Request.opening [] rs).map (fun _ => [])
          ++ (Request.runs [] rs).flatMap Request.highlighted ∧
      (Memo.empty.askAll rs).misses = (Request.runs [] rs).length ∧
      ∀ (v : Vocabulary) (texts : List Text),
        Memo.empty.answers (texts.map fun s => ⟨s, v⟩) = texts.map (highlight v) := by
  have hmisses := Memo.empty.misses_askAll rs
  have hzero : Memo.empty.misses = 0 := rfl
  rw [hzero, Nat.zero_add] at hmisses
  refine ⟨Request.splitBy_agree [] rs, Memo.empty.answers_eq rs, hmisses, ?_⟩
  intro v texts
  have hv : ∀ r ∈ texts.map fun s => Request.mk s v, r.vocabulary = v := by
    intro r hr
    obtain ⟨s, _, rfl⟩ := List.mem_map.mp hr
    rfl
  rw [Memo.answers_of_vocabulary (highlight_nil v).symm hv, List.map_map]
  rfl

/-- a text is asked for again under a vocabulary without keywords, and gets its keyword all the
same -/
example : Memo.empty.answers [⟨"if".toList, .python⟩,
      ⟨"if".toList, { Vocabulary.python with keywords := .empty }⟩]
    = [[⟨"if".toList, .keyword⟩], [⟨"if".toList, .keyword⟩]] := by
  decide +kernel

end LineEditor
