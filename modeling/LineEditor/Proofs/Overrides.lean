import LineEditor.Config.Basic
import LineEditor.Proofs.DecimalText
import LineEditor.Proofs.Digits
import Mathlib.Data.List.TakeWhile

/-!
# Settings from the environment

What becomes of a configuration, with or without flaws, under an environment.  A variable that is
there and not blank replaces its field by what its trimmed value stands for, and nothing else
changes; the outcome is checked, and of several flaws the first is reported.

* `Trims`                     trimming, said without the search for the ends;
* `Settled`, `Unread`         what a variable does to its field, and a value without a meaning;
* `MeansCount`, `MeansHeight` what the values stand for;
* `Overridden`, `FirstFlaw`   what both variables do to a configuration, and the order of the flaws;
* **`override_settles`**.
-/

namespace LineEditor

/-! ## Trimming -/

/-- a text of blank characters only -/
def Blank (s : Text) : Prop := ∀ c ∈ s, isBlank c = true

instance (s : Text) : Decidable (Blank s) :=
  decidable_of_iff (s.all isBlank = true) List.all_eq_true

/-- `s` is left of `raw` when the blank characters at both ends are gone -/
structure Trims (raw s : Text) : Prop where
  around : ∃ a b, Blank a ∧ Blank b ∧ raw = a ++ (s ++ b)
  starts : ∀ c ∈ s.head?, isBlank c = false
  ends : ∀ c ∈ s.getLast?, isBlank c = false

theorem blank_takeWhile (s : Text) : Blank (s.takeWhile isBlank) := fun _ h =>
  List.mem_takeWhile_imp h

theorem not_isBlank_head?_dropWhile (s : Text) :
    ∀ c ∈ (s.dropWhile isBlank).head?, isBlank c = false := by
  intro c hc
  have h := List.head?_dropWhile_not isBlank s
  rw [hc] at h
  exact h

/-- nothing goes where the first character is not blank -/
theorem dropWhile_isBlank_of_starts {s : Text} (h : ∀ c ∈ s.head?, isBlank c = false) :
    s.dropWhile isBlank = s := by
  cases s with
  | nil => rfl
  | cons c s => exact List.dropWhile_cons_of_neg (by rw [h c rfl]; decide)

theorem dropWhile_isBlank_append {a : Text} (h : Blank a) (s : Text) :
    (a ++ s).dropWhile isBlank = s.dropWhile isBlank := List.dropWhile_append_of_pos h

theorem trims_trim (raw : Text) : Trims raw (trim raw) := by
  have hback : raw.dropWhile isBlank =
      trim raw ++ ((raw.dropWhile isBlank).reverse.takeWhile isBlank).reverse := by
    show _ = (List.dropWhile isBlank _).reverse ++ _
    rw [← List.reverse_append, List.takeWhile_append_dropWhile, List.reverse_reverse]
  refine ⟨⟨raw.takeWhile isBlank, ((raw.dropWhile isBlank).reverse.takeWhile isBlank).reverse,
    blank_takeWhile raw, ?_, ?_⟩, ?_, ?_⟩
  · intro c hc
    exact blank_takeWhile _ c (List.mem_reverse.mp hc)
  · rw [← hback, List.takeWhile_append_dropWhile]
  · intro c hc
    apply not_isBlank_head?_dropWhile raw c
    rw [hback]
    exact List.mem_head?_append_of_mem_head? hc
  · intro c hc
    apply not_isBlank_head?_dropWhile (raw.dropWhile isBlank).reverse c
    rw [← List.getLast?_reverse]
    exact hc

theorem Trims.eq_trim {raw s : Text} (h : Trims raw s) : s = trim raw := by
  obtain ⟨⟨a, b, ha, hb, rfl⟩, hstarts, hends⟩ := h
  have hfront : (a ++ (s ++ b)).dropWhile isBlank = (s ++ b).dropWhile isBlank :=
    dropWhile_isBlank_append ha (s ++ b)
  rcases eq_or_ne s [] with rfl | hne
  · have hnil : b.dropWhile isBlank = [] := List.dropWhile_eq_nil_iff.mpr hb
    show [] = trimEnd ((a ++ b).dropWhile isBlank)
    rw [dropWhile_isBlank_append ha, hnil]
    rfl
  · have hback : (s ++ b).reverse.dropWhile isBlank = s.reverse := by
      rw [List.reverse_append, dropWhile_isBlank_append fun c hc => hb c (List.mem_reverse.mp hc)]
      apply dropWhile_isBlank_of_starts
      intro c hc
      rw [List.head?_reverse] at hc
      exact hends c hc
    have hsame : (s ++ b).dropWhile isBlank = s ++ b := by
      apply dropWhile_isBlank_of_starts
      intro c hc
      rw [List.head?_append_of_ne_nil s hne] at hc
      exact hstarts c hc
    show s = (List.dropWhile isBlank ((a ++ (s ++ b)).dropWhile isBlank).reverse).reverse
    rw [hfront, hsame, hback, List.reverse_reverse]

theorem blank_iff_trim {raw : Text} : Blank raw ↔ trim raw = [] := by
  constructor
  · intro h
    have hnil : Trims raw [] := by
      refine ⟨⟨raw, [], h, ?_, ?_⟩, ?_, ?_⟩
      · exact fun _ hc => nomatch hc
      · rw [List.append_nil, List.append_nil]
      · exact fun _ hc => nomatch hc
      · exact fun _ hc => nomatch hc
    exact hnil.eq_trim.symm
  · intro h
    obtain ⟨a, b, ha, hb, hraw⟩ := (trims_trim raw).around
    rw [h, List.nil_append] at hraw
    rw [hraw]
    exact fun c hc => (List.mem_append.mp hc).elim (ha c) (hb c)

namespace Config

/-! ## One variable -/

section
variable (environment : String → Option Text) (name : String) {α : Type} (Means : Text → α → Prop)

/-- what a field becomes: it stays where the variable is missing or blank, and otherwise it is what
the trimmed value means -/
inductive Settled (old : α) : α → Prop
  | kept (h : ∀ raw ∈ environment name, Blank raw) : Settled old old
  | replaced {raw s : Text} {new : α} (h : environment name = some raw) (hs : Trims raw s)
      (hne : s ≠ []) (hnew : Means s new) : Settled old new

/-- the variable has the value `raw`, which is not blank and means nothing -/
def Unread (raw : Text) : Prop :=
  environment name = some raw ∧ ∃ s, Trims raw s ∧ s ≠ [] ∧ ∀ a, ¬ Means s a

/-- what both fields do with their variables: looked up, trimmed and read -/
def settle (read : Text → Option α) (fault : Text → Flaw) (old : α) : Except Flaw α :=
  match given environment name with
  | none => .ok old
  | some raw =>
    match read (trim raw) with
    | some a => .ok a
    | none => .error (fault raw)

end

section
variable {environment : String → Option Text} {name : String} {α : Type} {Means : Text → α → Prop}
  {read : Text → Option α} {old new : α}

theorem given_eq_none_iff :
    given environment name = none ↔ ∀ raw ∈ environment name, Blank raw := by
  rw [given, Option.filter_eq_none_iff]
  apply forall₂_congr
  intro raw _
  rw [blank_iff_trim, Bool.not_eq_true', Bool.not_eq_false, List.isEmpty_iff]

theorem given_eq_some_iff {raw : Text} :
    given environment name = some raw ↔ environment name = some raw ∧ trim raw ≠ [] := by
  rw [given, Option.filter_eq_some_iff, Bool.not_eq_true', List.isEmpty_eq_false_iff]

theorem settled_of_given_none (h : given environment name = none) :
    Settled environment name Means old new ↔ new = old := by
  constructor
  · intro hs
    cases hs with
    | kept => rfl
    | replaced hraw htrim hne =>
      have hblank := given_eq_none_iff.mp h _ hraw
      rw [blank_iff_trim, ← htrim.eq_trim] at hblank
      exact absurd hblank hne
  · rintro rfl
    exact .kept (given_eq_none_iff.mp h)

theorem settled_of_given {raw : Text} (h : given environment name = some raw) :
    Settled environment name Means old new ↔ Means (trim raw) new := by
  obtain ⟨hraw, hne⟩ := given_eq_some_iff.mp h
  constructor
  · intro hs
    cases hs with
    | kept hblank => exact absurd (blank_iff_trim.mp (hblank raw hraw)) hne
    | replaced hraw' htrim _ hnew =>
      cases hraw.symm.trans hraw'
      rwa [← htrim.eq_trim]
  · exact .replaced hraw (trims_trim raw) hne

theorem unread_iff {raw : Text} :
    Unread environment name Means raw ↔
      given environment name = some raw ∧ ∀ a, ¬ Means (trim raw) a := by
  rw [given_eq_some_iff]
  constructor
  · rintro ⟨hraw, s, htrim, hne, hnot⟩
    cases htrim.eq_trim
    exact ⟨⟨hraw, hne⟩, hnot⟩
  · rintro ⟨⟨hraw, hne⟩, hnot⟩
    exact ⟨hraw, _, trims_trim raw, hne, hnot⟩

theorem settle_eq_ok_iff (hread : ∀ s a, read s = some a ↔ Means s a) {fault : Text → Flaw} :
    settle environment name read fault old = .ok new ↔ Settled environment name Means old new := by
  cases hg : given environment name with
  | none =>
    simp only [settle, hg, settled_of_given_none hg, Except.ok.injEq]
    exact eq_comm
  | some raw =>
    rw [settled_of_given hg, ← hread]
    cases ha : read (trim raw) with
    | none => simp only [settle, hg, ha, reduceCtorEq]
    | some a => simp only [settle, hg, ha, Except.ok.injEq, Option.some.injEq]

theorem settle_eq_error_iff (hread : ∀ s a, read s = some a ↔ Means s a) {fault : Text → Flaw}
    {f : Flaw} :
    settle environment name read fault old = .error f ↔
      ∃ raw, Unread environment name Means raw ∧ f = fault raw := by
  simp only [unread_iff]
  cases hg : given environment name with
  | none => simp only [settle, hg, reduceCtorEq, false_and, exists_false]
  | some raw =>
    cases ha : read (trim raw) with
    | some a =>
      simp only [settle, hg, ha, reduceCtorEq, false_iff, not_exists]
      rintro raw' ⟨⟨hraw, hnot⟩, -⟩
      cases hraw
      exact hnot a ((hread _ _).mp ha)
    | none =>
      simp only [settle, hg, ha, Except.error.injEq]
      constructor
      · rintro rfl
        refine ⟨raw, ⟨rfl, ?_⟩, rfl⟩
        intro a hmeans
        rw [← hread, ha] at hmeans
        cases hmeans
      · rintro ⟨raw', ⟨hraw, -⟩, rfl⟩
        cases hraw
        rfl

end

/-! ## Both variables -/

/-- the notation of a count: digits, maybe behind one plus sign -/
def MeansCount (s : Text) (n : Nat) : Prop :=
  n ≤ maxCount ∧ ∃ ds, (s = ds ∨ s = '+' :: ds) ∧ ds ≠ [] ∧ AllDigits ds ∧ digitsValue ds = n

/-- the notation of a height: a decimal, with the nearest number for its value, or a name -/
def MeansHeight (s : Text) (h : Single) : Prop := Single.Denotes s h

section
variable (environment : String → Option Text) (c : Config)

/-- the configuration with both fields settled and all else as it was -/
def Overridden (d : Config) : Prop :=
  ∃ n h, Settled environment lengthVariable MeansCount c.maxLineLength n ∧
    Settled environment heightVariable MeansHeight c.rowHeight h ∧
    d = { c with maxLineLength := n, rowHeight := h }

/-- the flaws in the order in which they are looked for -/
inductive FirstFlaw : Flaw → Prop
  | lengthText {raw : Text} (h : Unread environment lengthVariable MeansCount raw) :
      FirstFlaw (.lengthText raw)
  | heightText {n : Nat} {raw : Text}
      (hlength : Settled environment lengthVariable MeansCount c.maxLineLength n)
      (h : Unread environment heightVariable MeansHeight raw) : FirstFlaw (.heightText raw)
  | zeroLength {d : Config} (hd : Overridden environment c d) (h : d.maxLineLength = 0) :
      FirstFlaw .zeroLength
  | badHeight {d : Config} (hd : Overridden environment c d) (hlength : 0 < d.maxLineLength)
      (h : d.rowHeight.isPositive = false) : FirstFlaw (.badHeight d.rowHeight)
  | lineBreak {d : Config} (hd : Overridden environment c d) (hlength : 0 < d.maxLineLength)
      (hheight : d.rowHeight.isPositive = true) (h : d.breaksLine = true) : FirstFlaw .lineBreak

end

section
variable {environment : String → Option Text} {c d : Config}

theorem readNumeral?_iff_meansCount (s : Text) (n : Nat) :
    readNumeral? maxCount s = some n ↔ MeansCount s n := readNumeral?_eq_some_iff

theorem read?_iff_meansHeight (s : Text) (h : Single) : Single.read? s = some h ↔ MeansHeight s h :=
  Single.read?_eq_some_iff

theorem withLength_eq : c.withLength environment =
    match settle environment lengthVariable (readNumeral? maxCount) .lengthText c.maxLineLength with
    | .error f => .error f
    | .ok n => .ok { c with maxLineLength := n } := by
  cases hg : given environment lengthVariable with
  | none => simp only [withLength, settle, hg]
  | some raw =>
    cases ha : readNumeral? maxCount (trim raw) <;> simp only [withLength, settle, hg, ha]

theorem withHeight_eq : c.withHeight environment =
    match settle environment heightVariable Single.read? .heightText c.rowHeight with
    | .error f => .error f
    | .ok h => .ok { c with rowHeight := h } := by
  cases hg : given environment heightVariable with
  | none => simp only [withHeight, settle, hg]
  | some raw => cases ha : Single.read? (trim raw) <;> simp only [withHeight, settle, hg, ha]

/-- the two variables one after the other, and the check at the end -/
theorem override_eq : c.override environment =
    match settle environment lengthVariable (readNumeral? maxCount) .lengthText c.maxLineLength with
    | .error f => .error f
    | .ok n =>
      match settle environment heightVariable Single.read? .heightText c.rowHeight with
      | .error f => .error f
      | .ok h => check { c with maxLineLength := n, rowHeight := h } := by
  cases hn : settle environment lengthVariable (readNumeral? maxCount) .lengthText c.maxLineLength with
  | error f => simp only [override, withLength_eq, hn]
  | ok n =>
    cases hh : settle environment heightVariable Single.read? .heightText c.rowHeight <;>
      simp only [override, withLength_eq, hn, withHeight_eq, hh]

theorem flaw?_eq_some_iff {f : Flaw} : d.flaw? = some f ↔
    (d.maxLineLength = 0 ∧ f = .zeroLength) ∨
    (0 < d.maxLineLength ∧ d.rowHeight.isPositive = false ∧ f = .badHeight d.rowHeight) ∨
    (0 < d.maxLineLength ∧ d.rowHeight.isPositive = true ∧ d.breaksLine = true ∧ f = .lineBreak) := by
  constructor
  · intro h
    unfold flaw? at h
    split at h
    · rename_i hzero
      cases h
      exact .inl ⟨hzero, rfl⟩
    · rename_i hne
      have hpos : 0 < d.maxLineLength := Nat.pos_of_ne_zero hne
      split at h
      · rename_i hheight
        cases h
        exact .inr (.inl ⟨hpos, Bool.not_eq_true' .. ▸ hheight, rfl⟩)
      · rename_i hheight
        split at h
        · rename_i hbreak
          cases h
          exact .inr (.inr ⟨hpos, by simpa using hheight, hbreak, rfl⟩)
        · cases h
  · rintro (⟨hzero, rfl⟩ | ⟨hpos, hheight, rfl⟩ | ⟨hpos, hheight, hbreak, rfl⟩)
    · simp [flaw?, hzero]
    · simp [flaw?, hpos.ne', hheight]
    · simp [flaw?, hpos.ne', hheight, hbreak]

theorem check_eq_error_iff {f : Flaw} : d.check = .error f ↔ d.flaw? = some f := by
  unfold check
  cases d.flaw? with
  | none => simp
  | some g => simp

theorem override_of_unread_length {raw : Text}
    (h : Unread environment lengthVariable MeansCount raw) :
    c.override environment = .error (.lengthText raw) := by
  rw [override_eq]
  simp only [(settle_eq_error_iff readNumeral?_iff_meansCount).mpr ⟨raw, h, rfl⟩]

theorem override_of_unread_height {n : Nat} {raw : Text}
    (hlength : Settled environment lengthVariable MeansCount c.maxLineLength n)
    (h : Unread environment heightVariable MeansHeight raw) :
    c.override environment = .error (.heightText raw) := by
  rw [override_eq]
  simp only [(settle_eq_ok_iff readNumeral?_iff_meansCount).mpr hlength,
    (settle_eq_error_iff read?_iff_meansHeight).mpr ⟨raw, h, rfl⟩]

theorem override_of_overridden (h : Overridden environment c d) :
    c.override environment = d.check := by
  obtain ⟨n, height, hlength, hheight, rfl⟩ := h
  rw [override_eq]
  simp only [(settle_eq_ok_iff readNumeral?_iff_meansCount).mpr hlength,
    (settle_eq_ok_iff read?_iff_meansHeight).mpr hheight]

/-- all that can become of the two variables -/
theorem override_cases (environment : String → Option Text) (c : Config) :
    (∃ raw, Unread environment lengthVariable MeansCount raw) ∨
    (∃ n raw, Settled environment lengthVariable MeansCount c.maxLineLength n ∧
      Unread environment heightVariable MeansHeight raw) ∨
    ∃ d, Overridden environment c d := by
  cases hn : settle environment lengthVariable (readNumeral? maxCount) .lengthText c.maxLineLength with
  | error f =>
    obtain ⟨raw, hraw, -⟩ := (settle_eq_error_iff readNumeral?_iff_meansCount).mp hn
    exact .inl ⟨raw, hraw⟩
  | ok n =>
    have hlength := (settle_eq_ok_iff readNumeral?_iff_meansCount).mp hn
    cases hh : settle environment heightVariable Single.read? .heightText c.rowHeight with
    | error f =>
      obtain ⟨raw, hraw, -⟩ := (settle_eq_error_iff read?_iff_meansHeight).mp hh
      exact .inr (.inl ⟨n, raw, hlength, hraw⟩)
    | ok height =>
      have hheight := (settle_eq_ok_iff read?_iff_meansHeight).mp hh
      exact .inr (.inr ⟨_, n, height, hlength, hheight, rfl⟩)

/-- a configuration that comes out has both fields settled and is valid -/
theorem override_eq_ok_iff :
    c.override environment = .ok d ↔ Overridden environment c d ∧ d.Valid := by
  constructor
  · intro h
    obtain ⟨raw, hraw⟩ | ⟨n, raw, hlength, hraw⟩ | ⟨e, he⟩ := override_cases environment c
    · rw [override_of_unread_length hraw] at h
      cases h
    · rw [override_of_unread_height hlength hraw] at h
      cases h
    · rw [override_of_overridden he] at h
      obtain ⟨rfl, hvalid⟩ := check_eq_ok_iff.mp h
      exact ⟨he, hvalid⟩
  · rintro ⟨hd, hvalid⟩
    rw [override_of_overridden hd]
    exact check_eq_ok_iff.mpr ⟨rfl, hvalid⟩

/-- the flaw that is reported is the first one -/
theorem override_eq_error_iff {f : Flaw} :
    c.override environment = .error f ↔ FirstFlaw environment c f := by
  constructor
  · intro h
    obtain ⟨raw, hraw⟩ | ⟨n, raw, hlength, hraw⟩ | ⟨d, hd⟩ := override_cases environment c
    · rw [override_of_unread_length hraw] at h
      cases h
      exact .lengthText hraw
    · rw [override_of_unread_height hlength hraw] at h
      cases h
      exact .heightText hlength hraw
    · rw [override_of_overridden hd, check_eq_error_iff, flaw?_eq_some_iff] at h
      obtain ⟨hzero, rfl⟩ | ⟨hpos, hbad, rfl⟩ | ⟨hpos, hgood, hbreak, rfl⟩ := h
      · exact .zeroLength hd hzero
      · exact .badHeight hd hpos hbad
      · exact .lineBreak hd hpos hgood hbreak
  · intro h
    cases h with
    | lengthText hraw => exact override_of_unread_length hraw
    | heightText hlength hraw => exact override_of_unread_height hlength hraw
    | zeroLength hd hzero =>
      rw [override_of_overridden hd, check_eq_error_iff, flaw?_eq_some_iff]
      exact .inl ⟨hzero, rfl⟩
    | badHeight hd hpos hbad =>
      rw [override_of_overridden hd, check_eq_error_iff, flaw?_eq_some_iff]
      exact .inr (.inl ⟨hpos, hbad, rfl⟩)
    | lineBreak hd hpos hgood hbreak =>
      rw [override_of_overridden hd, check_eq_error_iff, flaw?_eq_some_iff]
      exact .inr (.inr ⟨hpos, hgood, hbreak, rfl⟩)

/-! ## Again, and refusals -/

theorem Settled.again {name : String} {α : Type} {Means : Text → α → Prop} {old new : α}
    (h : Settled environment name Means old new) : Settled environment name Means new new := by
  cases h with
  | kept hblank => exact .kept hblank
  | replaced hraw hs hne hnew => exact .replaced hraw hs hne hnew

theorem Overridden.again (h : Overridden environment c d) : Overridden environment d d := by
  obtain ⟨n, height, hlength, hheight, rfl⟩ := h
  exact ⟨n, height, hlength.again, hheight.again, rfl⟩

/-- a value that is given and not blank settles its field by what it reads as -/
theorem Settled.read_eq {name : String} {α : Type} {Means : Text → α → Prop}
    {read : Text → Option α} {old new : α} {raw : Text}
    (h : Settled environment name Means old new) (hread : ∀ s a, read s = some a ↔ Means s a)
    (hraw : environment name = some raw) (hne : trim raw ≠ []) : read (trim raw) = some new :=
  (hread _ _).mpr ((settled_of_given (given_eq_some_iff.mpr ⟨hraw, hne⟩)).mp h)

theorem length_pos_of_override {raw : Text} (h : c.override environment = .ok d)
    (hraw : environment lengthVariable = some raw) (hne : trim raw ≠ []) :
    ∃ n, readNumeral? maxCount (trim raw) = some n ∧ 0 < n := by
  obtain ⟨⟨n, height, hlength, -, rfl⟩, hvalid⟩ := override_eq_ok_iff.mp h
  exact ⟨n, hlength.read_eq readNumeral?_iff_meansCount hraw hne, hvalid.1⟩

theorem height_isPositive_of_override {raw : Text} (h : c.override environment = .ok d)
    (hraw : environment heightVariable = some raw) (hne : trim raw ≠ []) :
    ∃ height, Single.read? (trim raw) = some height ∧ height.isPositive = true := by
  obtain ⟨⟨n, height, -, hheight, rfl⟩, hvalid⟩ := override_eq_ok_iff.mp h
  exact ⟨height, hheight.read_eq read?_iff_meansHeight hraw hne, hvalid.2.1⟩

/-- texts that are no length of a line -/
def refusedLengths : List String := ["inf", "NaN", "0", "-1", "1e39", "18446744073709551616"]

/-- texts that are no height of a row -/
def refusedHeights : List String := ["inf", "NaN", "0", "-1", "1e39"]

theorem not_pos_of_mem_refusedLengths : ∀ s ∈ refusedLengths, trim s.toList ≠ [] ∧
    (readNumeral? maxCount (trim s.toList)).all (· = 0) = true := by decide

theorem not_isPositive_of_mem_refusedHeights : ∀ s ∈ refusedHeights, trim s.toList ≠ [] ∧
    (Single.read? (trim s.toList)).all (fun h => !h.isPositive) = true := by decide

theorem exists_error_of_refused_length {s : String} (hs : s ∈ refusedLengths)
    (h : environment lengthVariable = some s.toList) : ∃ f, c.override environment = .error f := by
  cases hd : c.override environment with
  | error f => exact ⟨f, rfl⟩
  | ok d =>
    obtain ⟨hne, hall⟩ := not_pos_of_mem_refusedLengths s hs
    obtain ⟨n, hread, hpos⟩ := length_pos_of_override hd h hne
    rw [hread, Option.all_some, decide_eq_true_eq] at hall
    exact absurd hall hpos.ne'

theorem exists_error_of_refused_height {s : String} (hs : s ∈ refusedHeights)
    (h : environment heightVariable = some s.toList) : ∃ f, c.override environment = .error f := by
  cases hd : c.override environment with
  | error f => exact ⟨f, rfl⟩
  | ok d =>
    obtain ⟨hne, hall⟩ := not_isPositive_of_mem_refusedHeights s hs
    obtain ⟨height, hread, hpos⟩ := height_isPositive_of_override hd h hne
    rw [hread, Option.all_some, hpos] at hall
    cases hall

/-- What the environment makes of any configuration: both fields settled and all else untouched, if
that is valid, and then the same again; otherwise the first flaw. -/
theorem override_settles (environment : String → Option Text) (c : Config) :
    (∀ d, c.override environment = .ok d ↔ Overridden environment c d ∧ d.Valid) ∧
    (∀ d, c.override environment = .ok d → d.prologue = c.prologue ∧
      d.prologueShown = c.prologueShown ∧ d.vocabulary = c.vocabulary ∧ d.check = .ok d ∧
      d.override environment = .ok d) ∧
    (∀ f, c.override environment = .error f ↔ FirstFlaw environment c f) ∧
    (∀ s ∈ refusedLengths, environment lengthVariable = some s.toList →
      ∃ f, c.override environment = .error f) ∧
    (∀ s ∈ refusedHeights, environment heightVariable = some s.toList →
      ∃ f, c.override environment = .error f) := by
  refine ⟨fun d => override_eq_ok_iff, ?_, fun f => override_eq_error_iff, ?_, ?_⟩
  · intro d h
    obtain ⟨hd, hvalid⟩ := override_eq_ok_iff.mp h
    have hagain : d.override environment = .ok d := override_eq_ok_iff.mpr ⟨hd.again, hvalid⟩
    obtain ⟨n, height, -, -, rfl⟩ := hd
    exact ⟨rfl, rfl, rfl, check_eq_ok_iff.mpr ⟨rfl, hvalid⟩, hagain⟩
  · intro s hs h
    exact exists_error_of_refused_length hs h
  · intro s hs h
    exact exists_error_of_refused_height hs h

/-- the height is ` 2.5e1 `, and no length is given -/
def repairing (name : String) : Option Text :=
  if name = heightVariable then some " 2.5e1 ".toList else none

/-- a base without a height is repaired by a height in another notation -/
theorem override_settles_repaired :
    ({ Config.default with rowHeight := .nan } : Config).check = .error (.badHeight .nan) ∧
    ({ Config.default with rowHeight := .nan } : Config).override repairing =
      .ok { Config.default with rowHeight := .ofNat 25 } := by
  refine ⟨by decide, ?_⟩
  apply ((override_settles repairing { Config.default with rowHeight := .nan }).1 _).mpr
  have hproper : (⟨['2'], some ['5'], some ⟨'e', [], ['1']⟩⟩ : DecimalText).Proper := by
    refine ⟨by decide, ?_, by decide, ?_⟩
    · intro ds hds
      cases hds
      decide
    · intro q hq
      cases hq
      exact ⟨.inl rfl, .inl rfl, by decide, by decide⟩
  have hmeans : MeansHeight "2.5e1".toList (.ofNat 25) :=
    .number .none hproper (Single.roundsDecimal_iff.mpr (by decide))
  have htrims : Trims " 2.5e1 ".toList "2.5e1".toList := by
    refine ⟨⟨[' '], [' '], by decide, by decide, rfl⟩, ?_, ?_⟩
    · intro c hc
      obtain rfl : '2' = c := Option.some.inj hc
      decide
    · intro c hc
      obtain rfl : '1' = c := Option.some.inj hc
      decide
  refine ⟨⟨60, .ofNat 25, .kept ?_, .replaced rfl htrims (by decide) hmeans, rfl⟩, ?_⟩
  · intro raw hraw
    cases hraw
  · exact ⟨by decide, by decide, by decide⟩

end

end Config

end LineEditor
