import LineEditor.Proofs.Host

/-!
# The queue and direct application

Events reach a window directly or through its queue, and the queue is filled by any number of
senders and observers while calls work it off.  However these are interleaved, the window is the one
that direct application of the same events makes.

* `Running`       what the log says of a call that has not returned yet;
* `Orderly`       the invariant of a session in use, kept by every move (`Orderly.move`);
* `run_turns`     the turns of a call that is left alone are `Session.processPending`;
* `applies_run`   what the queue does in any schedule.
-/

namespace LineEditor

/-! ## Logs -/

@[simp] def LogEntry.delivered? : LogEntry → Option Event
  | .delivered e => some e
  | _ => none

@[simp] def LogEntry.taken? : LogEntry → Option Event
  | .taken e _ => some e
  | _ => none

@[simp] def LogEntry.applied? : LogEntry → Option Event
  | .handled e _ => some e
  | .taken e _ => some e
  | _ => none

/-- the events that were put into the queue -/
def deliveries (log : List LogEntry) : List Event := log.filterMap LogEntry.delivered?

/-- the events that were taken out of the queue -/
def takings (log : List LogEntry) : List Event := log.filterMap LogEntry.taken?

/-- the events that the window was handed, directly or out of the queue -/
def applications (log : List LogEntry) : List Event := log.filterMap LogEntry.applied?

section
variable (log more : List LogEntry) (x : LogEntry)

theorem deliveries_append : deliveries (log ++ more) = deliveries log ++ deliveries more :=
  List.filterMap_append

theorem takings_append : takings (log ++ more) = takings log ++ takings more :=
  List.filterMap_append

theorem applications_append :
    applications (log ++ more) = applications log ++ applications more :=
  List.filterMap_append

theorem filterMap_one (f : LogEntry → Option Event) : [x].filterMap f = (f x).toList := by
  cases h : f x with
  | none => exact List.filterMap_cons_none h
  | some e => exact List.filterMap_cons_some h

@[simp] theorem deliveries_concat :
    deliveries (log ++ [x]) = deliveries log ++ x.delivered?.toList := by
  rw [deliveries_append, ← filterMap_one]
  rfl

@[simp] theorem takings_concat : takings (log ++ [x]) = takings log ++ x.taken?.toList := by
  rw [takings_append, ← filterMap_one]
  rfl

@[simp] theorem applications_concat :
    applications (log ++ [x]) = applications log ++ x.applied?.toList := by
  rw [applications_append, ← filterMap_one]
  rfl

end

namespace Window

theorem handleAll_concat (w : Window) (es : List Event) (e : Event) :
    w.handleAll (es ++ [e])
      = ((w.handleAll es).1 || ((w.handleAll es).2.handle e).1,
          ((w.handleAll es).2.handle e).2) := by
  rw [handleAll_append]
  show ((w.handleAll es).1 || (((w.handleAll es).2.handle e).1 || false), _) = _
  rw [Bool.or_false]
  rfl

end Window

theorem window_concat {w x : Window} {log : List LogEntry}
    (hx : x = (w.handleAll (applications log)).2) {entry : LogEntry} {e : Event}
    (happlied : entry.applied? = some e) :
    (x.handle e).2 = (w.handleAll (applications (log ++ [entry]))).2 := by
  rw [applications_concat, happlied]
  show (x.handle e).2 = (w.handleAll (applications log ++ [e])).2
  rw [Window.handleAll_concat, ← hx]

/-! ## A call that has not returned -/

/-- the log of a session in which a call is working off the queue: what came `before` the call, when
`waiting` stood in the queue, what came `during` it so far, and what the call would answer -/
structure Running (w : Window) (log : List LogEntry) (changed : Bool)
    (before during : List LogEntry) (waiting : List Event) : Prop where
  log_eq : log = before ++ .called :: during
  /-- so it is the last call -/
  last : .called ∉ during
  queue : deliveries before = takings before ++ waiting
  /-- nothing but the queue changes the window -/
  applied : applications during = takings during
  answer : changed = ((w.handleAll (applications before)).2.handleAll (takings during)).1
  /-- so it is true as soon as one of the events that the call took changed the page -/
  answer_iff : changed = true ↔ ∃ e, .taken e true ∈ during

namespace Running
variable {w : Window} {log before during : List LogEntry} {changed : Bool} {waiting : List Event}

theorem applications_eq (h : Running w log changed before during waiting) :
    applications log = applications before ++ takings during := by
  rw [h.log_eq, applications_append, ← h.applied]
  rfl

theorem takings_eq (h : Running w log changed before during waiting) :
    takings log = takings before ++ takings during := by
  rw [h.log_eq, takings_append]
  rfl

theorem deliveries_eq (h : Running w log changed before during waiting) :
    deliveries log = takings before ++ (waiting ++ deliveries during) := by
  rw [h.log_eq, deliveries_append, h.queue, List.append_assoc]
  rfl

theorem window_eq (h : Running w log changed before during waiting) :
    (w.handleAll (applications log)).2
      = ((w.handleAll (applications before)).2.handleAll (takings during)).2 := by
  rw [h.applications_eq, Window.handleAll_append]

theorem log_concat (h : Running w log changed before during waiting) {x : LogEntry}
    (hx : x ≠ .called) :
    log ++ [x] = before ++ .called :: (during ++ [x]) ∧ .called ∉ during ++ [x] := by
  constructor
  · rw [h.log_eq, List.append_assoc]
    rfl
  · intro hmem
    rcases List.mem_append.mp hmem with hmem | hmem
    · exact h.last hmem
    · exact hx (List.mem_singleton.mp hmem).symm

/-- a send, a report -/
theorem posted (h : Running w log changed before during waiting) {x : LogEntry}
    (happlied : x.applied? = none) (htaken : x.taken? = none) (hcalled : x ≠ .called) :
    Running w (log ++ [x]) changed before (during ++ [x]) waiting := by
  obtain ⟨hlog, hlast⟩ := h.log_concat hcalled
  have htakings : takings (during ++ [x]) = takings during := by
    rw [takings_concat, htaken]
    exact List.append_nil _
  have hnew (e : Event) : .taken e true ≠ x := by
    rintro rfl
    cases htaken
  refine ⟨hlog, hlast, h.queue, ?_, ?_, ?_⟩
  · rw [htakings, ← h.applied, applications_concat, happlied]
    exact List.append_nil _
  · rw [htakings, h.answer]
  · simp [h.answer_iff, hnew]

/-- a turn that finds an event -/
theorem turned (h : Running w log changed before during waiting) (e : Event) :
    Running w
      (log ++ [.taken e ((w.handleAll (applications log)).2.handle e).1])
      (changed || ((w.handleAll (applications log)).2.handle e).1)
      before (during ++ [.taken e ((w.handleAll (applications log)).2.handle e).1]) waiting := by
  obtain ⟨hlog, hlast⟩ := h.log_concat
    (x := .taken e ((w.handleAll (applications log)).2.handle e).1) nofun
  refine ⟨hlog, hlast, h.queue, ?_, ?_, ?_⟩
  · simp [h.applied]
  · rw [takings_concat]
    show _ = ((w.handleAll (applications before)).2.handleAll (takings during ++ [e])).1
    rw [Window.handleAll_concat, ← h.answer, h.window_eq]
  · simp [h.answer_iff, exists_or]

end Running

/-! ## What every move keeps -/

/-- a session that began with the window `w`, after what the log says -/
structure Orderly (w : Window) (h : Host) (log : List LogEntry) : Prop where
  queue : ∀ x, h.session.window = some x →
    deliveries log = takings log ++ h.session.mailbox.pending
  window : ∀ x, h.session.window = some x → x = (w.handleAll (applications log)).2
  isOpen : h.session.window.isSome = true → h.session.mailbox.isOpen = true
  /-- a call runs only on a window that is there -/
  alive : h.call.isSome = true → h.session.window.isSome = true
  running : ∀ changed, h.call = some changed →
    ∃ before during waiting, Running w log changed before during waiting

namespace Orderly
variable {w : Window} {h k : Host} {log more : List LogEntry}

theorem start (w : Window) : Orderly w (.start w) [] where
  queue _ _ := rfl
  window _ hx := (Option.some.inj hx).symm
  isOpen _ := rfl
  alive hc := by cases hc
  running _ hc := by cases hc

/-- what is logged of a send or a report -/
theorem running_concat (ho : Orderly w h log) {changed : Bool} (hc : h.call = some changed)
    {x : LogEntry} (happlied : x.applied? = none) (htaken : x.taken? = none)
    (hcalled : x ≠ .called) :
    ∃ before during waiting, Running w (log ++ [x]) changed before during waiting := by
  obtain ⟨before, during, waiting, hrun⟩ := ho.running changed hc
  exact ⟨before, _, waiting, hrun.posted happlied htaken hcalled⟩

theorem move (ho : Orderly w h log) (hm : Host.Move h k more) : Orderly w k (log ++ more) := by
  cases hm with
  | idle =>
    rw [List.append_nil]
    exact ho
  | delivered x m t os c e hopen =>
    refine ⟨fun y hy => ?_, fun y hy => ?_, ho.isOpen, ho.alive, fun changed hc => ?_⟩
    · have hqueue : deliveries log = takings log ++ m.pending := ho.queue y hy
      simp [hqueue]
    · simpa using ho.window y hy
    · exact ho.running_concat hc rfl rfl nofun
  | refused h e =>
    refine ⟨fun y hy => ?_, fun y hy => ?_, ho.isOpen, ho.alive, fun changed hc => ?_⟩
    · simpa using ho.queue y hy
    · simpa using ho.window y hy
    · exact ho.running_concat hc rfl rfl nofun
  | released s os c j o hj =>
    rw [List.append_nil]
    exact ⟨ho.queue, ho.window, ho.isOpen, ho.alive, ho.running⟩
  | handled x m t os e =>
    have hqueue : deliveries log = takings log ++ m.pending := ho.queue x rfl
    refine ⟨fun y _ => ?_, fun y hy => ?_, fun _ => ho.isOpen rfl, nofun, nofun⟩
    · simp [hqueue]
    · have hy : (x.handle e).2 = y := Option.some.inj hy
      exact hy.symm.trans (window_concat (ho.window x rfl) rfl)
  | attached x m t os =>
    rw [List.append_nil]
    exact ⟨ho.queue, ho.window, ho.isOpen, nofun, nofun⟩
  | called x m t os =>
    have hqueue : deliveries log = takings log ++ m.pending := ho.queue x rfl
    refine ⟨fun y _ => ?_, fun y hy => ?_, ho.isOpen, fun _ => rfl, fun changed hc => ?_⟩
    · simp [hqueue]
    · simpa using ho.window y hy
    · have hc : false = changed := Option.some.inj hc
      subst hc
      exact ⟨log, [], m.pending, rfl, nofun, hqueue, rfl, rfl, by simp⟩
  | taken window isOpen e es t os changed =>
    obtain ⟨x, rfl⟩ := Option.isSome_iff_exists.mp (ho.alive rfl)
    have hx : x = (w.handleAll (applications log)).2 := ho.window x rfl
    have hqueue : deliveries log = takings log ++ e :: es := ho.queue x rfl
    refine ⟨fun y _ => ?_, fun y hy => ?_, fun _ => ho.isOpen rfl, fun _ => rfl, fun c hc => ?_⟩
    · show deliveries (log ++ [.taken e _]) = takings (log ++ [.taken e _]) ++ es
      simp [hqueue]
    · have hy : (x.handle e).2 = y := Option.some.inj hy
      exact hy.symm.trans (window_concat hx rfl)
    · have hc : (changed || (x.handle e).1) = c := Option.some.inj hc
      obtain ⟨before, during, waiting, hrun⟩ := ho.running changed rfl
      have hturn := hrun.turned e
      rw [← hx, hc] at hturn
      exact ⟨before, _, waiting, hturn⟩
  | returned x isOpen t os changed =>
    refine ⟨fun y hy => ?_, fun y hy => ?_, ho.isOpen, nofun, nofun⟩
    · simpa using ho.queue y hy
    · simpa using ho.window y hy
  | tornDown x m t os => exact ⟨nofun, nofun, nofun, nofun, nofun⟩

end Orderly

theorem orderly_run (w : Window) (as : List Action) :
    Orderly w ((Host.start w).run as).1 ((Host.start w).run as).2 :=
  Host.run_keeps (fun _ _ _ _ hm ho => ho.move hm) [] (Orderly.start w) as

/-! ## The end of a call -/

/-- the turns of a call that is left alone are the loop that works off the queue -/
theorem run_turns {s : Session} {es : List Event} (hs : s.mailbox.pending = es)
    (os : List (Option Observer)) (changed : Bool) :
    ∃ entries, takings entries = es ∧
      Host.run ⟨s, os, some changed⟩ (List.replicate (es.length + 1) .turn)
        = (⟨s.processPending.2, os, none⟩,
            entries ++ [.returned (changed || s.processPending.1)]) := by
  induction es generalizing s changed with
  | nil =>
    refine ⟨[], rfl, ?_⟩
    rw [List.replicate_succ, Host.run_cons, Host.step_turn_of_nil hs,
      Session.processPending_of_nil hs, Bool.or_false]
    rfl
  | cons e es ih =>
    obtain ⟨t, ht, hrest⟩ : ∃ t, s.take? = some (e, t) ∧ t.mailbox.pending = es :=
      ⟨_, Session.take?_of_cons hs, rfl⟩
    have hpending : (t.handle e).2.mailbox.pending = es := by rw [Session.mailbox_handle, hrest]
    obtain ⟨entries, htakings, hrun⟩ := ih hpending (changed || (t.handle e).1)
    refine ⟨.taken e (t.handle e).1 :: entries, congrArg (e :: ·) htakings, ?_⟩
    rw [List.length_cons, List.replicate_succ, Host.run_cons, Host.step_turn_of_take? ht, hrun,
      Session.processPending_of_take? ht, ← Bool.or_assoc]
    rfl

/-- a call that finds the queue empty has taken what was waiting and what came during it -/
theorem Running.takings_of_empty {w : Window} {log before during : List LogEntry} {changed : Bool}
    {waiting : List Event} (h : Running w log changed before during waiting)
    (hempty : deliveries log = takings log) : takings during = waiting ++ deliveries during := by
  rw [h.deliveries_eq, h.takings_eq] at hempty
  exact (List.append_cancel_left hempty).symm

/-! ## Any schedule -/

/-- what the queue has done and will do in the session of a host, which began with the window `w`,
after what the log says -/
structure Applies (w : Window) (h : Host) (log : List LogEntry) : Prop where
  /-- what was put into the queue was taken out once, in the same order, or still waits -/
  queue : h.session.window.isSome = true → deliveries log = takings log ++ h.session.mailbox.pending
  /-- the window is the one that direct application of the same events makes -/
  window : ∀ x, h.session.window = some x → x = (w.handleAll (applications log)).2
  /-- a call that returns has applied exactly what waited and what came during it, one event after
  the other, answers whether one of them changed the page, and leaves the queue empty -/
  returns : ∀ changed, (h.step .turn).2 = [.returned changed] →
    ∃ before during waiting, Running w log changed before during waiting ∧
      takings during = waiting ++ deliveries during ∧
      (h.step .turn).1.session.window
        = some ((w.handleAll (applications before)).2.handleAll (waiting ++ deliveries during)).2 ∧
      (h.step .turn).1.session.mailbox.pending = []
  /-- a call that is left alone is `Session.processPending`, which applies what waits in order -/
  alone : ∀ x, h.session.window = some x → h.call = none →
    (∃ entries, takings entries = h.session.mailbox.pending ∧
      h.run (.call :: List.replicate (h.session.mailbox.pending.length + 1) .turn)
        = ({ h with session := h.session.processPending.2 },
            .called :: (entries ++ [.returned h.session.processPending.1]))) ∧
    h.session.processPending
      = ((x.handleAll h.session.mailbox.pending).1,
          { h.session with
            window := some (x.handleAll h.session.mailbox.pending).2
            mailbox := { h.session.mailbox with pending := [] } })
  /-- while there is a window, only an observer that is not attached is refused -/
  accepted : h.session.window.isSome = true →
    (∀ e, (h.step (.send e)).2 = [.delivered e]) ∧
    ∀ k o px, h.observer? k = some o → h.session.isAttached o = true →
      (h.step (.report k px)).2 = [.delivered (.height px)]
  /-- what is refused changes nothing -/
  refused : ∀ a e, (h.step a).2 = [.refused e] → (h.step a).1 = h
  detached : ∀ k o px, h.observer? k = some o → h.session.isAttached o = false →
    h.step (.report k px) = (h, [.refused (.height px)])

namespace Orderly
variable {w : Window} {h : Host} {log : List LogEntry}

theorem returns (ho : Orderly w h log) {changed : Bool}
    (hr : (h.step .turn).2 = [.returned changed]) :
    ∃ before during waiting, Running w log changed before during waiting ∧
      takings during = waiting ++ deliveries during ∧
      (h.step .turn).1.session.window
        = some ((w.handleAll (applications before)).2.handleAll (waiting ++ deliveries during)).2 ∧
      (h.step .turn).1.session.mailbox.pending = [] := by
  obtain ⟨hcall, hempty, hstep⟩ := Host.step_turn_returned hr
  obtain ⟨x, hx⟩ := Option.isSome_iff_exists.mp (ho.alive (hcall ▸ rfl))
  obtain ⟨before, during, waiting, hrun⟩ := ho.running changed hcall
  have htakings : takings during = waiting ++ deliveries during := by
    apply hrun.takings_of_empty
    rw [ho.queue x hx, hempty, List.append_nil]
  refine ⟨before, during, waiting, hrun, htakings, ?_, ?_⟩
  · rw [hstep, ← htakings, ← hrun.window_eq, ← ho.window x hx]
    exact hx
  · rw [hstep]
    exact hempty

end Orderly

theorem run_call_turns {h : Host} {x : Window} (hx : h.session.window = some x)
    (hcall : h.call = none) :
    ∃ entries, takings entries = h.session.mailbox.pending ∧
      h.run (.call :: List.replicate (h.session.mailbox.pending.length + 1) .turn)
        = ({ h with session := h.session.processPending.2 },
            .called :: (entries ++ [.returned h.session.processPending.1])) := by
  obtain ⟨s, os, c⟩ := h
  obtain rfl : c = none := hcall
  obtain ⟨entries, htakings, hrun⟩ := run_turns (s := s) rfl os false
  have hbegin : Host.step ⟨s, os, none⟩ .call = (⟨s, os, some false⟩, [.called]) := by
    have hfree : Host.isFree ⟨s, os, none⟩ = true := by
      show (s.window.isSome && true) = true
      rw [show s.window = some x from hx]
      rfl
    simp only [Host.step, hfree, if_true]
  refine ⟨entries, htakings, ?_⟩
  rw [Host.run_cons, hbegin, hrun, Bool.false_or]
  rfl

/-- **The queue is direct application, later.**  In whatever order a host sends, reports, hands over
and works off, each event that went into the queue is applied once, in the order of delivery, by the
first call that returns behind its delivery, as if it had been handed over then. -/
theorem applies_run (w : Window) (as : List Action) :
    Applies w ((Host.start w).run as).1 ((Host.start w).run as).2 where
  queue halive := by
    obtain ⟨x, hx⟩ := Option.isSome_iff_exists.mp halive
    exact (orderly_run w as).queue x hx
  window := (orderly_run w as).window
  returns _ hr := (orderly_run w as).returns hr
  alone x hx hcall := by
    refine ⟨run_call_turns hx hcall, ?_⟩
    generalize ((Host.start w).run as).1.session = s at hx
    obtain ⟨window, m, t⟩ := s
    obtain rfl : window = some x := hx
    exact Session.processPending_eq x m t
  accepted halive := by
    have hopen := (orderly_run w as).isOpen halive
    exact ⟨Host.step_send hopen, fun _ _ px hk ho => Host.step_report_attached hopen px hk ho⟩
  refused _ _ hr := Host.step_refused hr
  detached _ _ px hk ho := Host.step_report_detached px hk ho

/-- an observer reports while a call is running, and once more after it was replaced -/
example :
    ((Host.start (.ofConfig .default)).run
        [.attach, .send (.key (.bare .backspace)), .call, .turn, .report 0 (.ofNat 90), .turn,
          .turn, .attach, .report 0 (.ofNat 30)]).2
      = [.delivered (.key (.bare .backspace)), .called, .taken (.key (.bare .backspace)) false,
          .delivered (.height (.ofNat 90)), .taken (.height (.ofNat 90)) true, .returned true,
          .refused (.height (.ofNat 30))] := by
  decide

end LineEditor
