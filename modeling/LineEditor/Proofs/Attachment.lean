import LineEditor.Proofs.Host

/-!
# Who is attached

The observers of a window share one cell with it, and know themselves in it by their number.  As
long as no number was given out twice the cell always says the same as the order of creation:
whichever observers are given up, and when, the attached one is the one that was created last, until
it is given up or the window is torn down.

* `Registered`      what the cell holds, kept by every move (`Registered.move`);
* `exclusive_run`   who is attached, at any point of any run with fewer than `UInt64.size`
                    observers.
-/

namespace LineEditor

/-! ## Numbers -/

theorem ofNat_inj_of_lt {m n : Nat} (hm : m < UInt64.size) (hn : n < UInt64.size)
    (h : UInt64.ofNat m = UInt64.ofNat n) : m = n := by
  have hnat := congrArg UInt64.toNat h
  rwa [UInt64.toNat_ofNat_of_lt' hm, UInt64.toNat_ofNat_of_lt' hn] at hnat

theorem ofNat_succ_ne_zero {n : Nat} (hn : n + 1 < UInt64.size) : UInt64.ofNat (n + 1) ≠ 0 := by
  intro hzero
  have := ofNat_inj_of_lt (n := 0) hn (by omega) hzero
  omega

namespace Slot

theorem active_release_of_holds {t : Slot} {o : Observer} (h : t.holds o = true) :
    (t.release o).active = 0 := by
  rw [release, if_pos h]

theorem release_of_not_holds {t : Slot} {o : Observer} (h : t.holds o = false) :
    t.release o = t := by
  rw [release, h]
  rfl

theorem active_release_of_zero {t : Slot} (h : t.active = 0) (o : Observer) :
    (t.release o).active = 0 := by
  unfold release
  split
  · rfl
  · exact h

theorem last_release (t : Slot) (o : Observer) : (t.release o).last = t.last := by
  unfold release
  split
  · rfl
  · rfl

theorem holds_release_of_ne (t : Slot) {o p : Observer} (hne : o.number ≠ p.number)
    (hp : p.number ≠ 0) : (t.release o).holds p = t.holds p := by
  cases ho : t.holds o with
  | false => rw [release_of_not_holds ho]
  | true =>
    have hactive : t.active = o.number := eq_of_beq ho
    rw [holds, holds, active_release_of_holds ho, hactive, beq_false_of_ne hp.symm,
      beq_false_of_ne hne]

end Slot

namespace Host

theorem observer?_eq_some_iff {h : Host} {k : Nat} {o : Observer} :
    h.observer? k = some o ↔ h.observers[k]? = some (some o) := Option.join_eq_some_iff

theorem newest?_eq (h : Host) : h.newest? = h.observer? (h.observers.length - 1) := by
  rw [newest?, observer?, List.getLast?_eq_getElem?]

theorem lt_of_observer? {h : Host} {k : Nat} {o : Observer} (hk : h.observer? k = some o) :
    k < h.observers.length :=
  (List.getElem?_eq_some_iff.mp (observer?_eq_some_iff.mp hk)).1

/-- who is held when number `j` was given up -/
theorem observer?_set (s t : Session) (os : List (Option Observer)) (c : Option Bool) (j i : Nat) :
    observer? ⟨t, os.set j none, c⟩ i = if i = j then none else observer? ⟨s, os, c⟩ i := by
  show (os.set j none)[i]?.join = if i = j then none else os[i]?.join
  by_cases hi : i = j
  · subst hi
    rw [List.getElem?_set, if_pos rfl, if_pos rfl]
    split
    · rfl
    · rfl
  · rw [List.getElem?_set_ne (Ne.symm hi), if_neg hi]

/-! ## What never comes back -/

theorem Move.length_le {h k : Host} {more : List LogEntry} (hm : Move h k more) :
    h.observers.length ≤ k.observers.length := by
  cases hm with
  | released s os c j o hj => exact Nat.le_of_eq List.length_set.symm
  | attached w m t os =>
    rw [List.length_append]
    exact Nat.le_add_right _ _
  | _ => exact Nat.le_refl _

theorem Move.ended {h k : Host} {more : List LogEntry} (hm : Move h k more)
    (hended : h.session.window = none ∧ h.session.mailbox = .closed) :
    k.session.window = none ∧ k.session.mailbox = .closed := by
  obtain ⟨hnone, hclosed⟩ := hended
  cases hm with
  | idle => exact ⟨hnone, hclosed⟩
  | delivered x m t os c e hopen =>
    obtain rfl : m = .closed := hclosed
    cases hopen
  | refused => exact ⟨hnone, hclosed⟩
  | released => exact ⟨hnone, hclosed⟩
  | taken => cases hclosed
  | returned => exact ⟨hnone, hclosed⟩
  | _ => cases hnone

theorem length_run_le (h : Host) (as : List Action) :
    h.observers.length ≤ (h.run as).1.observers.length :=
  run_keeps_host (P := fun k => h.observers.length ≤ k.observers.length)
    (fun _ _ _ hm hle => Nat.le_trans hle hm.length_le) (Nat.le_refl _) as

theorem ended_run {h : Host}
    (hended : h.session.window = none ∧ h.session.mailbox = .closed) (as : List Action) :
    (h.run as).1.session.window = none ∧ (h.run as).1.session.mailbox = .closed :=
  run_keeps_host (P := fun k => k.session.window = none ∧ k.session.mailbox = .closed)
    (fun _ _ _ hm hended => hm.ended hended) hended as

end Host

/-! ## What the cell holds -/

/-- a session whose cells say the same as the order in which its observers were created -/
structure Registered (h : Host) : Prop where
  last : h.session.slot.last = UInt64.ofNat h.observers.length
  number : ∀ k o, h.observer? k = some o → o.number = UInt64.ofNat (k + 1)
  newest : ∀ o, h.newest? = some o → h.session.window.isSome = true →
    h.session.slot.active = o.number
  vacant : h.newest? = none ∨ h.session.window = none → h.session.slot.active = 0
  alive : h.session.window.isSome = true → h.session.mailbox.isOpen = true
  ended : h.session.window = none → h.session.mailbox = .closed

namespace Registered
variable {h k : Host} {more : List LogEntry}

theorem start (w : Window) : Registered (.start w) where
  last := rfl
  number _ _ hk := by cases hk
  newest _ ho _ := by cases ho
  vacant _ := rfl
  alive _ := rfl
  ended hnone := by cases hnone

/-! ### Numbers are not given out twice -/

section
variable {j : Nat} {o p : Observer} (hr : Registered h) (hbound : h.observers.length < UInt64.size)
include hr hbound

theorem number_ne_zero (hj : h.observer? j = some o) : o.number ≠ 0 := by
  have hlt := Host.lt_of_observer? hj
  rw [hr.number j o hj]
  exact ofNat_succ_ne_zero (by omega)

theorem number_inj {i : Nat} (hi : h.observer? i = some o) (hj : h.observer? j = some p)
    (heq : o.number = p.number) : i = j := by
  have hlti := Host.lt_of_observer? hi
  have hltj := Host.lt_of_observer? hj
  rw [hr.number i o hi, hr.number j p hj] at heq
  have := ofNat_inj_of_lt (by omega) (by omega) heq
  omega

end

/-! ### Moves -/

/-- the observer that was created last is given up: nobody is attached any more -/
theorem released_newest {s : Session} {os : List (Option Observer)} {c : Option Bool} {o : Observer}
    (hr : Registered ⟨s, os, c⟩) (ho : Host.newest? ⟨s, os, c⟩ = some o) :
    (s.slot.release o).active = 0 := by
  cases hw : s.window with
  | none => exact Slot.active_release_of_zero (hr.vacant (.inr hw)) o
  | some w =>
    have hactive : s.slot.active = o.number := hr.newest o ho (hw ▸ rfl)
    exact Slot.active_release_of_holds (beq_iff_eq.mpr hactive)

/-- another observer is given up: whoever is attached stays so -/
theorem released_stale {s : Session} {os : List (Option Observer)} {c : Option Bool} {j : Nat}
    {o : Observer} (hr : Registered ⟨s, os, c⟩) (hbound : os.length < UInt64.size)
    (hj : Host.observer? ⟨s, os, c⟩ j = some o) (hne : os.length - 1 ≠ j) :
    (s.slot.release o).active = s.slot.active := by
  by_cases hvacant : Host.newest? ⟨s, os, c⟩ = none ∨ s.window = none
  · have hzero : s.slot.active = 0 := hr.vacant hvacant
    rw [hzero]
    exact Slot.active_release_of_zero hzero o
  · obtain ⟨hnewest, hw⟩ := not_or.mp hvacant
    obtain ⟨p, hp⟩ := Option.ne_none_iff_exists'.mp hnewest
    have hactive : s.slot.active = p.number := hr.newest p hp (Option.isSome_iff_ne_none.mpr hw)
    rw [Slot.release_of_not_holds]
    apply beq_false_of_ne
    rw [hactive]
    intro heq
    rw [Host.newest?_eq] at hp
    exact hne (hr.number_inj hbound hp hj heq)

/-- an observer that is given up -/
theorem released {s : Session} {os : List (Option Observer)} {c : Option Bool} {j : Nat}
    {o : Observer} (hr : Registered ⟨s, os, c⟩) (hbound : os.length < UInt64.size)
    (hj : Host.observer? ⟨s, os, c⟩ j = some o) :
    Registered ⟨s.release o, os.set j none, c⟩ := by
  have hheld (i : Nat) := Host.observer?_set s (s.release o) os c j i
  have hnewest : Host.newest? ⟨s.release o, os.set j none, c⟩
      = if os.length - 1 = j then none else Host.newest? ⟨s, os, c⟩ := by
    rw [Host.newest?_eq, Host.newest?_eq, List.length_set, hheld]
  have hlast : (s.slot.release o).last = UInt64.ofNat (os.set j none).length := by
    rw [Slot.last_release, List.length_set]
    exact hr.last
  have hnumber (i : Nat) (p : Observer)
      (hi : Host.observer? ⟨s.release o, os.set j none, c⟩ i = some p) :
      p.number = UInt64.ofNat (i + 1) := by
    rw [hheld] at hi
    split at hi
    · cases hi
    · exact hr.number i p hi
  by_cases hend : os.length - 1 = j
  · rw [if_pos hend] at hnewest
    have hzero : (s.slot.release o).active = 0 := by
      apply hr.released_newest
      rw [Host.newest?_eq, hend]
      exact hj
    refine ⟨hlast, hnumber, fun p hp _ => ?_, fun _ => hzero, hr.alive, hr.ended⟩
    rw [hnewest] at hp
    cases hp
  · rw [if_neg hend] at hnewest
    have hsame := hr.released_stale hbound hj hend
    refine ⟨hlast, hnumber, fun p hp hw => ?_, fun hvacant => ?_, hr.alive, hr.ended⟩
    · exact hsame.trans (hr.newest p (hnewest ▸ hp) hw)
    · exact hsame.trans (hr.vacant (hnewest ▸ hvacant))

/-- a new observer, in place of any other -/
theorem attached {w : Window} {m : Mailbox} {t : Slot} {os : List (Option Observer)}
    (hr : Registered ⟨⟨some w, m, t⟩, os, none⟩) :
    Registered ⟨⟨some w, m, t.attach.2⟩, os ++ [some t.attach.1], none⟩ := by
  have hlast : t.last + 1 = UInt64.ofNat (os.length + 1) := by
    have hlast : t.last = UInt64.ofNat os.length := hr.last
    rw [hlast, UInt64.ofNat_add]
    rfl
  have hnewest : Host.newest? ⟨⟨some w, m, t.attach.2⟩, os ++ [some t.attach.1], none⟩
      = some t.attach.1 := by
    rw [Host.newest?, List.getLast?_concat]
    rfl
  refine ⟨?_, fun i p hi => ?_, fun p hp _ => ?_, fun hvacant => ?_, hr.alive, nofun⟩
  · rw [List.length_append]
    exact hlast
  · have hi : (os ++ [some t.attach.1])[i]? = some (some p) := Host.observer?_eq_some_iff.mp hi
    rcases Nat.lt_trichotomy i os.length with hlt | rfl | hgt
    · rw [List.getElem?_append_left hlt] at hi
      exact hr.number i p (Host.observer?_eq_some_iff.mpr hi)
    · rw [List.getElem?_concat_length] at hi
      obtain rfl : t.attach.1 = p := Option.some.inj (Option.some.inj hi)
      exact hlast
    · rw [List.getElem?_eq_none] at hi
      · cases hi
      · rw [List.length_append]
        exact hgt
  · rw [hnewest] at hp
    cases hp
    rfl
  · rw [hnewest] at hvacant
    rcases hvacant with hvacant | hvacant
    · cases hvacant
    · cases hvacant

theorem move (hr : Registered h) (hm : Host.Move h k more)
    (hbound : k.observers.length < UInt64.size) : Registered k := by
  cases hm with
  | idle => exact hr
  | delivered x m t os c e hopen =>
    refine ⟨hr.last, hr.number, hr.newest, hr.vacant, fun _ => hopen, fun hnone => ?_⟩
    have hclosed : m = .closed := hr.ended hnone
    rw [hclosed] at hopen
    cases hopen
  | refused => exact hr
  | released s os c j o hj =>
    rw [List.length_set] at hbound
    exact hr.released hbound (Host.observer?_eq_some_iff.mpr hj)
  | handled w m t os e =>
    refine ⟨hr.last, hr.number, fun o ho _ => hr.newest o ho rfl, fun hvacant => ?_,
      fun _ => hr.alive rfl, nofun⟩
    exact hr.vacant (hvacant.imp_right nofun)
  | attached => exact hr.attached
  | called w m t os =>
    exact ⟨hr.last, hr.number, hr.newest, hr.vacant, hr.alive, hr.ended⟩
  | taken x isOpen e es t os changed =>
    cases x with
    | none => cases hr.ended rfl
    | some w =>
      refine ⟨hr.last, hr.number, fun o ho _ => hr.newest o ho rfl, fun hvacant => ?_,
        fun _ => hr.alive rfl, nofun⟩
      exact hr.vacant (hvacant.imp_right nofun)
  | returned x isOpen t os changed =>
    exact ⟨hr.last, hr.number, hr.newest, hr.vacant, hr.alive, hr.ended⟩
  | tornDown w m t os =>
    exact ⟨hr.last, hr.number, nofun, fun _ => rfl, nofun, fun _ => rfl⟩

end Registered

theorem Registered.run {h : Host} (hr : Registered h) (as : List Action)
    (hbound : (h.run as).1.observers.length < UInt64.size) : Registered (h.run as).1 :=
  Host.run_keeps_host (P := fun k => k.observers.length < UInt64.size → Registered k)
    (fun _ _ _ hm hr hbound => (hr (Nat.lt_of_le_of_lt hm.length_le hbound)).move hm hbound)
    (fun _ => hr) as hbound

/-! ## Who is attached -/

namespace Registered
variable {h : Host} {k : Nat} {o : Observer}

/-- only the newest is attached, given up or not -/
theorem end_of_isAttached (hr : Registered h) (hbound : h.observers.length < UInt64.size)
    (hk : k < h.observers.length) (hnumber : o.number = UInt64.ofNat (k + 1))
    (ho : h.session.isAttached o = true) :
    h.session.window.isSome = true ∧ k + 1 = h.observers.length := by
  have hactive : h.session.slot.active = UInt64.ofNat (k + 1) := hnumber ▸ eq_of_beq ho
  have hnonzero : h.session.slot.active ≠ 0 := by
    rw [hactive]
    exact ofNat_succ_ne_zero (by omega)
  obtain ⟨hnewest, hw⟩ := not_or.mp fun hvacant => hnonzero (hr.vacant hvacant)
  have halive := Option.isSome_iff_ne_none.mpr hw
  obtain ⟨p, hp⟩ := Option.ne_none_iff_exists'.mp hnewest
  rw [hr.newest p hp halive] at hactive
  rw [Host.newest?_eq] at hp
  rw [hr.number _ p hp] at hactive
  have := ofNat_inj_of_lt (by omega) (by omega) hactive
  exact ⟨halive, by omega⟩

theorem isAttached_iff (hr : Registered h) (hbound : h.observers.length < UInt64.size)
    (hk : h.observer? k = some o) :
    h.session.isAttached o = true ↔
      h.session.window.isSome = true ∧ k + 1 = h.observers.length := by
  constructor
  · exact hr.end_of_isAttached hbound (Host.lt_of_observer? hk) (hr.number k o hk)
  · rintro ⟨halive, hend⟩
    have hnewest : h.newest? = some o := by
      rw [Host.newest?_eq, ← hend]
      exact hk
    exact beq_iff_eq.mpr (hr.newest o hnewest halive)

theorem isObserved_iff (hr : Registered h) (hbound : h.observers.length < UInt64.size)
    (halive : h.session.window.isSome = true) :
    h.session.isObserved = true ↔ h.newest?.isSome = true := by
  have hobserved : h.session.isObserved = true ↔ h.session.slot.active ≠ 0 := bne_iff_ne
  rw [hobserved]
  cases hnewest : h.newest? with
  | none => exact iff_of_false (fun hne => hne (hr.vacant (.inl hnewest))) nofun
  | some p =>
    refine iff_of_true ?_ rfl
    rw [hr.newest p hnewest halive]
    rw [Host.newest?_eq] at hnewest
    exact hr.number_ne_zero hbound hnewest

theorem report_eq (hr : Registered h) (ho : h.session.isAttached o = true)
    (halive : h.session.window.isSome = true) (px : Single) :
    h.session.report o px
      = (true,
          { h.session with
            mailbox :=
              { h.session.mailbox with pending := h.session.mailbox.pending ++ [.height px] } }) := by
  have hopen : h.session.mailbox.isOpen = true := hr.alive halive
  rw [Session.report, if_pos ho, Session.send, Mailbox.send, if_pos hopen]

end Registered

/-- who is attached, in the session of a host -/
structure Exclusive (h : Host) : Prop where
  /-- as long as there is a window, and no call on it, an observer can be created -/
  creates : h.isFree = true → ∃ o, (h.step .attach).1.observers = h.observers ++ [some o] ∧
    (h.step .attach).1.session.isAttached o = true
  /-- of the observers that are held, the newest one is attached while there is a window -/
  attached_iff : ∀ k o, h.observer? k = some o →
    (h.session.isAttached o = true ↔
      h.session.window.isSome = true ∧ k + 1 = h.observers.length)
  observed_iff : h.session.window.isSome = true →
    (h.session.isObserved = true ↔ h.newest?.isSome = true)
  /-- so no two are attached -/
  unique : ∀ j k o p, h.observer? j = some o → h.observer? k = some p →
    h.session.isAttached o = true → h.session.isAttached p = true → j = k
  /-- giving one up does not concern another -/
  release_other : ∀ j k o p, h.observer? j = some o → h.observer? k = some p → j ≠ k →
    (h.session.release o).isAttached p = h.session.isAttached p
  /-- what the attached one reports is put into the queue, once -/
  report_attached : ∀ k o px, h.observer? k = some o → h.session.isAttached o = true →
    h.session.report o px
      = (true,
          { h.session with
            mailbox :=
              { h.session.mailbox with pending := h.session.mailbox.pending ++ [.height px] } })
  report_detached : ∀ k o px, h.observer? k = some o → h.session.isAttached o = false →
    h.session.report o px = (false, h.session)
  /-- who is not attached will never be, whatever is done -/
  never_again : ∀ k o as, h.observer? k = some o → h.session.isAttached o = false →
    (h.run as).1.observers.length < UInt64.size → (h.run as).1.session.isAttached o = false
  tears_down : h.isFree = true → (h.step .teardown).1.session.window = none
  /-- after the teardown all is refused, for good -/
  torn_down : h.session.window = none → ∀ as,
    (h.run as).1.session.window = none ∧
      (∀ e, (h.run as).1.session.send e = (false, (h.run as).1.session)) ∧
      ∀ o px, (h.run as).1.session.report o px = (false, (h.run as).1.session)

theorem Registered.never_again {h : Host} (hr : Registered h) {k : Nat} {o : Observer}
    (hk : h.observer? k = some o) (ho : h.session.isAttached o = false) (as : List Action)
    (hbound : (h.run as).1.observers.length < UInt64.size) :
    (h.run as).1.session.isAttached o = false := by
  have hle := h.length_run_le as
  have hlt := Host.lt_of_observer? hk
  apply Bool.eq_false_iff.mpr
  intro hagain
  obtain ⟨halive, hend⟩ := (hr.run as hbound).end_of_isAttached hbound
    (Nat.lt_of_lt_of_le hlt hle) (hr.number k o hk) hagain
  -- it was the newest then already, and the window was there
  have hbefore : h.session.window.isSome = true := by
    apply Option.isSome_iff_ne_none.mpr
    intro hnone
    rw [(Host.ended_run ⟨hnone, hr.ended hnone⟩ as).1] at halive
    cases halive
  have hattached := (hr.isAttached_iff (by omega) hk).mpr ⟨hbefore, by omega⟩
  rw [ho] at hattached
  cases hattached

theorem Host.step_attach {h : Host} (hfree : h.isFree = true) :
    ∃ o, (h.step .attach).1.observers = h.observers ++ [some o] ∧
      (h.step .attach).1.session.isAttached o = true := by
  obtain ⟨w, m, t, heq⟩ := Host.eq_of_isFree hfree
  rw [heq]
  exact ⟨t.attach.1, rfl, t.holds_attach⟩

theorem Host.window_teardown {h : Host} (hfree : h.isFree = true) :
    (h.step .teardown).1.session.window = none := by
  obtain ⟨w, m, t, heq⟩ := Host.eq_of_isFree hfree
  rw [heq]
  rfl

theorem Registered.exclusive {h : Host} (hr : Registered h)
    (hbound : h.observers.length < UInt64.size) : Exclusive h where
  creates hfree := Host.step_attach hfree
  attached_iff _ _ hk := hr.isAttached_iff hbound hk
  observed_iff halive := hr.isObserved_iff hbound halive
  unique j k o p hj hk ho hp := by
    have hjend := ((hr.isAttached_iff hbound hj).mp ho).2
    have hkend := ((hr.isAttached_iff hbound hk).mp hp).2
    omega
  release_other j k o p hj hk hne := by
    have hnumber : o.number ≠ p.number := fun heq => hne (hr.number_inj hbound hj hk heq)
    exact h.session.slot.holds_release_of_ne hnumber (hr.number_ne_zero hbound hk)
  report_attached k o px hk ho :=
    hr.report_eq ho ((hr.isAttached_iff hbound hk).mp ho).1 px
  report_detached _ _ _ _ ho := by rw [Session.report, ho]; rfl
  never_again _ _ as hk ho hlater := hr.never_again hk ho as hlater
  tears_down hfree := Host.window_teardown hfree
  torn_down hnone as := by
    obtain ⟨hnone, hclosed⟩ := Host.ended_run ⟨hnone, hr.ended hnone⟩ as
    generalize (h.run as).1.session = s at hnone hclosed
    obtain ⟨window, mailbox, slot⟩ := s
    obtain rfl : mailbox = .closed := hclosed
    refine ⟨hnone, fun e => rfl, fun o px => ?_⟩
    unfold Session.report
    split
    · rfl
    · rfl

/-- **The newest observer is the attached one.**  However observers are created, given up and used,
and whatever else is done with the window, the cell never takes one for another as long as the
numbers have not come round. -/
theorem exclusive_run (w : Window) (as : List Action)
    (hbound : ((Host.start w).run as).1.observers.length < UInt64.size) :
    Exclusive ((Host.start w).run as).1 :=
  ((Registered.start w).run as hbound).exclusive hbound

/-- the second observer has replaced the first, which was given up later -/
theorem exclusive_run_default :
    ∃ w : Window, Window.create .default = .ok w ∧
      ((Host.start w).run [.attach, .attach, .release 0]).1.observers = [none, some ⟨2⟩] ∧
      ((Host.start w).run [.attach, .attach, .release 0]).1.session.isAttached ⟨2⟩ = true := by
  refine ⟨.ofConfig .default, rfl, rfl, ?_⟩
  apply ((exclusive_run (.ofConfig .default) [.attach, .attach, .release 0] ?_).attached_iff 1 ⟨2⟩
    rfl).mpr
  · exact ⟨rfl, rfl⟩
  · decide

end LineEditor
