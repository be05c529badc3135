import Workflow.Proofs.Recording

/-!
# A Logger at the Bus

What stands in the log of a run when its logger has been heard out.

A logger shares the bus with everyone else. Events of many runs are published in
any order while it writes, others begin and cease to listen, and it may be told to
stop at any time, even before its first turn. None of this shows in the log. A
logger stops only when nothing waits for it on the bus, or after the end of its
own run, so as long as it does not lag behind so far that the bus loses what it
has not heard, its lines are those of the events of the run up to the first end
of the run (`Watched.lines_recorded`).

The invariant (`Watch.Faithful`) cuts what was published since the logger began
to listen into what it has heard and what waits on the bus. A turn moves one
event from the second part to the first, and a log is written from left to right
(`logOf_append`). Turns are counted to see that the logger gets to the end.

## Main definitions

* `Event.Ends`: An event is the end of a run.
* `upToEnd`, `recorded`: The events that a log has lines for.
* `Watch`, `Watch.turns`: A logger with what it watches, after some turns.
* `Watched`: The histories of a logger.
* `Watch.Faithful`: What has been written is the log of what has been heard.

## Theorems

* `logOf_append`: A log is written from left to right.
* `logOf_eq`: What a log has lines for.
* `logOf_sublist`: A higher level only adds lines.
* `Watch.Faithful.turn`, `Watched.faithful`: Every history is faithful.
* `Watch.Faithful.done_turns`: A logger gets to the end.
* `Watched.exists_waiting`: Whatever the bus holds may be published first.
* `Watched.lines_recorded`: What stands in a log, and what its lines say.
-/

namespace Workflow

/-- An event is the end of a run. -/
def Event.Ends (run : String) (e : Event) : Prop := e.run = run ∧ e.what.endsRun = true

instance (run : String) (e : Event) : Decidable (e.Ends run) :=
  inferInstanceAs (Decidable (e.run = run ∧ e.what.endsRun = true))

section Lines

variable {level : Nat} {run : String}

/-- Events of other runs are passed over. -/
theorem logOf_cons_of_ne {e : Event} (h : e.run ≠ run) (rest : List Event) :
    logOf level run (e :: rest) = logOf level run rest :=
  if_pos h

/-- What comes after the end of a run is passed over, and nothing else is. -/
theorem logOf_cons (e : Event) (rest : List Event) :
    logOf level run (e :: rest) =
      logOf level run [e] ++ if e.Ends run then [] else logOf level run rest := by
  by_cases hrun : e.run = run
  · have hends : e.Ends run ↔ e.what.endsRun = true := and_iff_right hrun
    simp only [logOf, ne_eq, hrun, not_true_eq_false, if_false, hends, List.append_nil, ite_self]
    split
    · exact (List.append_nil _).symm
    · rfl
  · have hends : ¬ e.Ends run := fun h => hrun h.1
    rw [logOf_cons_of_ne hrun, logOf_cons_of_ne hrun, logOf_nil, List.nil_append, if_neg hends]

/-- A log is written from left to right, up to the end of the run. -/
theorem logOf_append (front back : List Event) (h : ∀ e ∈ front, ¬ e.Ends run) :
    logOf level run (front ++ back) = logOf level run front ++ logOf level run back := by
  induction front with
  | nil => rfl
  | cons e rest ih =>
      rcases List.forall_mem_cons.mp h with ⟨hfirst, hrest⟩
      rw [List.cons_append, logOf_cons, logOf_cons e rest, if_neg hfirst, if_neg hfirst, ih hrest,
        List.append_assoc]

/-- Events up to the first end of a run, and including it. -/
def upToEnd (events : List Event) : List Event :=
  events.take (events.findIdx (fun e => e.what.endsRun) + 1)

theorem upToEnd_cons (e : Event) (rest : List Event) :
    upToEnd (e :: rest) = e :: if e.what.endsRun then [] else upToEnd rest := by
  rw [upToEnd, upToEnd, List.findIdx_cons, List.take_succ_cons]
  cases e.what.endsRun with
  | true => rw [cond_true, List.take_zero, if_pos rfl]
  | false => rw [cond_false, if_neg Bool.false_ne_true]

variable (level run)

/-- The events of a run up to the first end of it, as far as a level lets them
    through. -/
def recorded (events : List Event) : List Event :=
  (upToEnd (events.filter fun e => e.run = run)).filter fun e => e.what.level ≤ level

/-- What a log has lines for. -/
theorem logOf_eq (events : List Event) :
    logOf level run events = (recorded level run events).map LogEntry.ofEvent := by
  induction events with
  | nil => rfl
  | cons e rest ih =>
      by_cases hrun : e.run = run
      -- Only an event of the run that is recorded can end it.
      · have hends : e.Ends run ↔ e.what.endsRun = true := and_iff_right hrun
        have hown : (e :: rest).filter (fun e => e.run = run) =
            e :: rest.filter fun e => e.run = run :=
          List.filter_cons_of_pos (decide_eq_true hrun)
        have hline : ∀ others : List Event,
            ((e :: others).filter fun e => e.what.level ≤ level).map LogEntry.ofEvent =
              logOf level run [e] ++
                (others.filter fun e => e.what.level ≤ level).map LogEntry.ofEvent := by
          intro others
          simp only [logOf, ne_eq, hrun, not_true_eq_false, if_false, List.append_nil, ite_self,
            List.filter_cons, decide_eq_true_eq]
          split <;> rfl
        rw [logOf_cons, ih, recorded, recorded, hown, upToEnd_cons, hline]
        by_cases hlast : e.Ends run
        · rw [if_pos hlast, if_pos (hends.mp hlast), List.filter_nil, List.map_nil]
        · rw [if_neg hlast, if_neg fun h => hlast (hends.mpr h)]
      -- Events of other runs leave no line.
      · rw [logOf_cons_of_ne hrun, ih, recorded, recorded,
          List.filter_cons_of_neg (by simpa only [decide_eq_true_eq] using hrun)]

variable {level}

/-- A higher level only adds lines. -/
theorem logOf_sublist {higher : Nat} (hlevel : level ≤ higher) (events : List Event) :
    (logOf level run events).Sublist (logOf higher run events) := by
  rw [logOf_eq, logOf_eq]
  refine (List.monotone_filter_right _ fun e he => ?_).map LogEntry.ofEvent
  rw [decide_eq_true_eq] at he ⊢
  exact Nat.le_trans he hlevel

end Lines

namespace Logger

variable {level : Nat} {run : String}

/-- What is written when an event is heard, and whether that is the last one. -/
theorem hear_eq (l : Logger) (e : Event) (hgoes : l.stopped = false) :
    hear level run l e = ⟨l.listener, l.lines ++ logOf level run [e], e.Ends run⟩ := by
  by_cases hrun : e.run = run
  · have hends : e.Ends run ↔ e.what.endsRun = true := and_iff_right hrun
    simp only [hear, logOf, ne_eq, hrun, not_true_eq_false, if_false, List.append_nil, ite_self,
      hends, Bool.decide_eq_true]
    split
    · rfl
    · rw [List.append_nil]
  · have hends : ¬ e.Ends run := fun h => hrun h.1
    rw [hear, if_pos hrun, logOf_cons_of_ne hrun, logOf_nil, List.append_nil,
      decide_eq_false hends, ← hgoes]

end Logger

/-- A logger at the bus that it listens to, and whether it is told to stop. -/
structure Watch where
  bus : Bus
  told : Bool
  logger : Logger

namespace Watch

variable (level : Nat) (run : String)

/-- The logger has a turn. -/
def turn (w : Watch) : Watch := { w with logger := w.logger.turn level run w.bus w.told }

/-- The logger has some turns. -/
def turns : Nat → Watch → Watch
  | 0, w => w
  | n + 1, w => turn level run (turns n w)

theorem bus_turns (w : Watch) (n : Nat) : (w.turns level run n).bus = w.bus := by
  induction n with
  | zero => rfl
  | succ n ih => exact ih

theorem told_turns (w : Watch) (n : Nat) : (w.turns level run n).told = w.told := by
  induction n with
  | zero => rfl
  | succ n ih => exact ih

/-- What waits on the bus for the logger. -/
def waits (w : Watch) : List Event := w.bus.published.drop w.logger.listener.heard

variable {level run}

theorem turn_of_stopped {w : Watch} (h : w.logger.stopped = true) : w.turn level run = w := by
  rw [turn, Logger.turn, if_pos h]

/-- The first event that waits is heard, whatever the logger is told. -/
theorem turn_of_cons {w : Watch} {e : Event} {rest : List Event}
    (hgoes : w.logger.stopped = false) (hheld : w.bus.oldest ≤ w.logger.listener.heard)
    (hwaits : w.waits = e :: rest) :
    w.turn level run = { w with logger := ⟨⟨w.logger.listener.heard + 1⟩,
      w.logger.lines ++ logOf level run [e], e.Ends run⟩ } := by
  rcases w with ⟨bus, told, ⟨heard⟩, lines, stopped⟩
  cases hgoes
  have hkept : ¬ heard < bus.oldest := Nat.not_lt.mpr hheld
  have hfirst : bus.published[heard]? = some e := by
    rw [← List.head?_drop]
    exact congrArg List.head? hwaits
  rw [turn, Logger.turn, if_neg Bool.false_ne_true, Bus.receive, if_neg hkept, hfirst]
  exact congrArg (Watch.mk bus told) (Logger.hear_eq ⟨⟨heard + 1⟩, lines, false⟩ e rfl)

theorem lt_of_waits {w : Watch} {e : Event} {rest : List Event} (hwaits : w.waits = e :: rest) :
    w.logger.listener.heard < w.bus.published.length := by
  have hlength := congrArg List.length hwaits
  rw [waits, List.length_drop, List.length_cons] at hlength
  omega

theorem waits_turn_of_cons {w : Watch} {e : Event} {rest : List Event}
    (hgoes : w.logger.stopped = false) (hheld : w.bus.oldest ≤ w.logger.listener.heard)
    (hwaits : w.waits = e :: rest) : (w.turn level run).waits = rest := by
  rw [turn_of_cons hgoes hheld hwaits, waits, ← List.tail_drop]
  exact congrArg List.tail hwaits

/-- When nothing waits, the logger stops if it is to. -/
theorem turn_of_nil {w : Watch} (hgoes : w.logger.stopped = false)
    (hheld : w.bus.oldest ≤ w.logger.listener.heard) (hwaits : w.waits = []) :
    w.turn level run =
      { w with logger := { w.logger with stopped := w.bus.closed || w.told } } := by
  rcases w with ⟨bus, told, ⟨heard⟩, lines, stopped⟩
  cases hgoes
  have hkept : ¬ heard < bus.oldest := Nat.not_lt.mpr hheld
  have hnone : bus.published[heard]? = none := by
    rw [← List.head?_drop]
    exact congrArg List.head? hwaits
  rw [turn, Logger.turn, if_neg Bool.false_ne_true, Bus.receive, if_neg hkept, hnone]
  cases bus.closed <;> rfl

/-- What was published since a logger began to listen is what it has heard and
    what waits, and its lines are the log of what it has heard. It stops for one
    of three reasons, and then nothing is missing. -/
structure Faithful (level : Nat) (run : String) (events : List Event) (w : Watch) : Prop where
  attended : w.bus.listeners ≠ 0
  held : w.bus.oldest ≤ w.logger.listener.heard
  reached : w.logger.listener.heard ≤ w.bus.published.length
  goes : w.logger.stopped = false → ∃ heard, events = heard ++ w.waits ∧
    w.logger.lines = logOf level run heard ∧ ∀ e ∈ heard, ¬ e.Ends run
  halted : w.logger.stopped = true → w.logger.lines = logOf level run events ∧
    (w.told = true ∨ w.bus.closed = true ∨ ∃ e ∈ events, e.Ends run)

namespace Faithful

variable {events : List Event} {w : Watch}

theorem start (bus : Bus) :
    Faithful level run [] ⟨bus.listen.1, false, ⟨bus.listen.2, [], false⟩⟩ where
  attended := Nat.succ_ne_zero _
  held := Nat.sub_le _ _
  reached := Nat.le_refl _
  goes := fun _ => ⟨[], (List.drop_length).symm, rfl, nofun⟩
  halted := nofun

theorem publish (h : Faithful level run events w) (e : Event)
    (hlistens : w.logger.stopped = false)
    (hheld : (w.bus.publish e).oldest ≤ w.logger.listener.heard) :
    Faithful level run (events ++ [e]) { w with bus := w.bus.publish e } := by
  have hpublished : (w.bus.publish e).published = w.bus.published ++ [e] := by
    rw [Bus.publish, if_neg h.attended]
  have hlisteners : (w.bus.publish e).listeners = w.bus.listeners := by
    rw [Bus.publish, if_neg h.attended]
  have hwaits : waits { w with bus := w.bus.publish e } = w.waits ++ [e] := by
    rw [waits, waits, hpublished, List.drop_append_of_le_length h.reached]
  refine ⟨?_, hheld, ?_, fun _ => ?_, fun hhalted => ?_⟩
  · exact hlisteners ▸ h.attended
  · rw [hpublished, List.length_append]
    exact Nat.le_add_right_of_le h.reached
  · rcases h.goes hlistens with ⟨heard, hevents, hrest⟩
    exact ⟨heard, by rw [hwaits, hevents, List.append_assoc], hrest⟩
  · exact absurd hhalted (by rw [hlistens]; exact Bool.false_ne_true)

/-- A turn moves one event from what waits to what is heard. -/
theorem turn (h : Faithful level run events w) : Faithful level run events (w.turn level run) := by
  cases hstopped : w.logger.stopped with
  | true => exact (turn_of_stopped hstopped).symm ▸ h
  | false =>
      rcases h.goes hstopped with ⟨heard, hevents, hlines, hgoes⟩
      cases hwaits : w.waits with
      | nil =>
          -- Everything has been heard, so the logger may stop.
          have hall : events = heard := by rw [hevents, hwaits, List.append_nil]
          rw [turn_of_nil hstopped h.held hwaits]
          refine ⟨h.attended, h.held, h.reached, fun _ => ⟨heard, hevents, hlines, hgoes⟩,
            fun hhalted => ⟨hall ▸ hlines, ?_⟩⟩
          rcases (Bool.or_eq_true _ _).mp hhalted with hclosed | htold
          · exact Or.inr (Or.inl hclosed)
          · exact Or.inl htold
      | cons e rest =>
          have hrest : (w.turn level run).waits = rest :=
            waits_turn_of_cons hstopped h.held hwaits
          have hmore : w.logger.lines ++ logOf level run [e] = logOf level run (heard ++ [e]) := by
            rw [logOf_append heard [e] hgoes, hlines]
          rw [turn_of_cons hstopped h.held hwaits] at hrest ⊢
          refine ⟨h.attended, Nat.le_succ_of_le h.held, lt_of_waits hwaits, fun hon => ?_,
            fun hhalted => ?_⟩
          · have hlast : ¬ e.Ends run := of_decide_eq_false hon
            refine ⟨heard ++ [e], ?_, hmore, ?_⟩
            · rw [hrest, hevents, hwaits, List.append_assoc, List.singleton_append]
            · intro other hother
              rcases List.mem_append.mp hother with hbefore | hnow
              · exact hgoes other hbefore
              · exact List.mem_singleton.mp hnow ▸ hlast
          -- What still waits comes after the end of the run.
          · have hlast : e.Ends run := of_decide_eq_true hhalted
            have hevery : events = heard ++ e :: rest := by rw [hevents, hwaits]
            refine ⟨?_, Or.inr (Or.inr ⟨e, ?_, hlast⟩)⟩
            · rw [hevery, logOf_append heard _ hgoes, logOf_cons e rest, if_pos hlast,
                List.append_nil, ← hlines]
            · rw [hevery]
              exact List.mem_append_right _ List.mem_cons_self

theorem close (h : Faithful level run events w) :
    Faithful level run events { w with bus := w.bus.close } where
  attended := h.attended
  held := h.held
  reached := h.reached
  goes := h.goes
  halted := fun hhalted => ⟨(h.halted hhalted).1, Or.inr (Or.inl rfl)⟩

theorem tell (h : Faithful level run events w) :
    Faithful level run events { w with told := true } where
  attended := h.attended
  held := h.held
  reached := h.reached
  goes := h.goes
  halted := fun hhalted => ⟨(h.halted hhalted).1, Or.inl rfl⟩

theorem company (h : Faithful level run events w) (others : Nat) :
    Faithful level run events { w with bus := { w.bus with listeners := others + 1 } } where
  attended := Nat.succ_ne_zero others
  held := h.held
  reached := h.reached
  goes := h.goes
  halted := h.halted

theorem turns (h : Faithful level run events w) (n : Nat) :
    Faithful level run events (w.turns level run n) := by
  induction n with
  | zero => exact h
  | succ n ih => exact ih.turn

/-- The lines of a logger that has heard everything, or stopped, are the log of
    everything. -/
theorem lines_eq (h : Faithful level run events w)
    (hdone : w.logger.stopped = true ∨ w.waits = []) :
    w.logger.lines = logOf level run events := by
  cases hstopped : w.logger.stopped with
  | true => exact (h.halted hstopped).1
  | false =>
      rcases h.goes hstopped with ⟨heard, hevents, hlines, -⟩
      have hwaits := hdone.resolve_left (by rw [hstopped]; exact Bool.false_ne_true)
      rw [hlines, hevents, hwaits, List.append_nil]

/-- In each turn the logger stops, or less waits for it. -/
theorem length_waits_turns (h : Faithful level run events w) (n : Nat) :
    (w.turns level run n).logger.stopped = true ∨
      (w.turns level run n).waits.length ≤ events.length - n := by
  induction n with
  | zero =>
      cases hstopped : w.logger.stopped with
      | true => exact Or.inl hstopped
      | false =>
          -- What waits is what was not heard yet.
          rcases h.goes hstopped with ⟨heard, hevents, -⟩
          refine Or.inr ?_
          rw [hevents, List.length_append]
          exact Nat.le_add_left _ _
  | succ n ih =>
      have hn := h.turns n
      cases hstopped : (w.turns level run n).logger.stopped with
      | true =>
          refine Or.inl ?_
          rw [Watch.turns, turn_of_stopped hstopped]
          exact hstopped
      | false =>
          have hfew := ih.resolve_left (by rw [hstopped]; exact Bool.false_ne_true)
          refine Or.inr ?_
          -- A turn takes one event, if there is any.
          cases hwaits : (w.turns level run n).waits with
          | nil =>
              have hsame : ((w.turns level run n).turn level run).waits = [] := by
                rw [turn_of_nil hstopped hn.held hwaits]
                exact hwaits
              rw [Watch.turns, hsame]
              exact Nat.zero_le _
          | cons e rest =>
              rw [hwaits, List.length_cons] at hfew
              rw [Watch.turns, waits_turn_of_cons hstopped hn.held hwaits]
              omega

/-- A logger gets to the end of what was published. -/
theorem done_turns (h : Faithful level run events w) (n : Nat) (hn : events.length ≤ n) :
    (w.turns level run n).logger.stopped = true ∨ (w.turns level run n).waits = [] := by
  refine (h.length_waits_turns n).imp_right fun hlength => List.eq_nil_of_length_eq_zero ?_
  omega

/-- A logger that has got to the end stops in its next turn, if it is to. -/
theorem stopped_iff (h : Faithful level run events w)
    (hdone : w.logger.stopped = true ∨ w.waits = []) :
    (w.turn level run).logger.stopped = true ↔
      w.told = true ∨ w.bus.closed = true ∨ ∃ e ∈ events, e.Ends run := by
  cases hstopped : w.logger.stopped with
  | true =>
      rw [turn_of_stopped hstopped]
      exact iff_of_true hstopped (h.halted hstopped).2
  | false =>
      rcases h.goes hstopped with ⟨heard, hevents, -, hgoes⟩
      have hwaits := hdone.resolve_left (by rw [hstopped]; exact Bool.false_ne_true)
      rw [hwaits, List.append_nil] at hevents
      have hnone : ¬ ∃ e ∈ events, e.Ends run := by
        rintro ⟨e, he, hends⟩
        exact hgoes e (hevents ▸ he) hends
      rw [turn_of_nil hstopped h.held hwaits, or_iff_left hnone, Bool.or_eq_true, or_comm]

end Faithful

end Watch

/-- The histories of a logger, with the events that were published while it
    listened. Anybody may publish, whatever the run; others begin and cease to
    listen; the bus may be closed, and the logger may be told to stop. What the
    logger has not heard is still held by the bus. -/
inductive Watched (level : Nat) (run : String) : List Event → Watch → Prop
  | start (bus : Bus) : Watched level run [] ⟨bus.listen.1, false, ⟨bus.listen.2, [], false⟩⟩
  | publish (events : List Event) (w : Watch) (e : Event) (h : Watched level run events w)
      (hlistens : w.logger.stopped = false) (hopen : w.bus.closed = false)
      (hheld : (w.bus.publish e).oldest ≤ w.logger.listener.heard) :
      Watched level run (events ++ [e]) { w with bus := w.bus.publish e }
  | company (events : List Event) (w : Watch) (others : Nat) (h : Watched level run events w) :
      Watched level run events { w with bus := { w.bus with listeners := others + 1 } }
  | close (events : List Event) (w : Watch) (h : Watched level run events w) :
      Watched level run events { w with bus := w.bus.close }
  | tell (events : List Event) (w : Watch) (h : Watched level run events w) :
      Watched level run events { w with told := true }
  | turn (events : List Event) (w : Watch) (h : Watched level run events w) :
      Watched level run events (w.turn level run)

namespace Watched

variable {level : Nat} {run : String} {events : List Event} {w : Watch}

/-- Every history of a logger is faithful. -/
theorem faithful (h : Watched level run events w) : w.Faithful level run events := by
  induction h with
  | start bus => exact .start bus
  | publish events w e _ hlistens _ hheld ih => exact ih.publish e hlistens hheld
  | company events w others _ ih => exact ih.company others
  | close events w _ ih => exact ih.close
  | tell events w _ ih => exact ih.tell
  | turn events w _ ih => exact ih.turn

/-- A bus has room for as many events as it holds, before the logger has a turn. -/
theorem publishAll (h : Watched level run events w) (more : List Event)
    (hlistens : w.logger.stopped = false) (hopen : w.bus.closed = false)
    (hroom : w.bus.published.length + more.length ≤
      w.logger.listener.heard + w.bus.capacity) :
    Watched level run (events ++ more)
      { w with bus := { w.bus with published := w.bus.published ++ more } } := by
  induction more generalizing events w with
  | nil => simpa only [List.append_nil] using h
  | cons e rest ih =>
      -- The logger attends, so what is published reaches it.
      have hpublish : w.bus.publish e =
          { w.bus with published := w.bus.published ++ [e] } :=
        if_neg h.faithful.attended
      have hlength : (w.bus.published ++ [e]).length = w.bus.published.length + 1 :=
        List.length_append
      rw [List.length_cons] at hroom
      have hfits : (w.bus.published ++ [e]).length ≤
          w.logger.listener.heard + w.bus.capacity := by
        omega
      -- It has not lost anything, because there was room.
      have hheld : (w.bus.publish e).oldest ≤ w.logger.listener.heard := by
        rw [hpublish]
        exact Nat.sub_le_of_le_add hfits
      have hnext := h.publish events w e hlistens hopen hheld
      rw [hpublish] at hnext
      have hstill : (w.bus.published ++ [e]).length + rest.length ≤
          w.logger.listener.heard + w.bus.capacity := by
        omega
      simpa only [List.append_assoc, List.singleton_append] using ih hnext hlistens hopen hstill

/-- Whatever is published, as long as the bus holds it, a logger may have been told
    to stop before its first turn. -/
theorem exists_waiting (level : Nat) (run : String) (bus : Bus) (hopen : bus.closed = false)
    (events : List Event) (hroom : events.length ≤ bus.capacity) :
    ∃ w, Watched level run events w ∧ w.told = true ∧ w.logger.lines = [] ∧
      w.logger.stopped = false ∧ w.waits = events := by
  have htold : Watched level run [] ⟨bus.listen.1, true, ⟨bus.listen.2, [], false⟩⟩ :=
    (start bus).tell
  have hall := htold.publishAll events rfl hopen (Nat.add_le_add_left hroom _)
  exact ⟨_, hall, rfl, rfl, rfl, List.drop_left⟩

/-- What stands in the log of a run, when the logger has had a turn for each event
    that was published while it listened. There is a line for each event of the
    run that the level lets through, in order, up to the first end of the run, and
    for nothing else. It does not matter who else published, or whether the logger
    was told to stop. By its next turn it has stopped, if it was told to, if the
    bus is closed or if its own run has ended, and not otherwise. A higher level
    only adds lines. And each line says what its event says, as it is written and
    as it is read from its text, which has no line break, so it is the line of no
    other event. -/
theorem lines_recorded (h : Watched level run events w) (n : Nat) (hn : events.length ≤ n) :
    (w.turns level run n).logger.lines = logOf level run events ∧
    logOf level run events = (recorded level run events).map LogEntry.ofEvent ∧
    ((w.turns level run (n + 1)).logger.stopped = true ↔
      w.told = true ∨ w.bus.closed = true ∨ ∃ e ∈ events, e.Ends run) ∧
    (∀ higher, level ≤ higher → (logOf level run events).Sublist (logOf higher run events)) ∧
    (∀ e time, LogEntry.Tells ((LogEntry.ofEvent e).toJson time) e) ∧
    (∀ e time, Json.Printable ((LogEntry.ofEvent e).toJson time).compactChars) ∧
    (∀ e time, e.InRange → ∃ line,
      Json.read? ((LogEntry.ofEvent e).toJson time).compact = some line ∧
        LogEntry.Tells line e) ∧
    ∀ line e f, LogEntry.Tells line e → LogEntry.Tells line f → e = f := by
  have hfaithful := h.faithful.turns n
  have hdone := h.faithful.done_turns n hn
  have hstops := hfaithful.stopped_iff hdone
  rw [Watch.bus_turns, Watch.told_turns] at hstops
  exact ⟨hfaithful.lines_eq hdone, logOf_eq level run events, hstops,
    fun higher hlevel => logOf_sublist run hlevel events, LogEntry.tells_toJson,
    LogEntry.printable_line, LogEntry.read?_line, fun line e f he hf => he.unique hf⟩

end Watched

/-- A node has succeeded. -/
def finishedA : Event := ⟨"r1", .nodeFinished "a" .succeeded 1 5⟩

/-- Two runs whose events come in turns. The second run ends first, and something
    is said about the first one after its end. -/
def crossing : List Event :=
  [⟨"r2", .runStarted "g" 1 1⟩, ⟨"r1", .runStarted "g" 2 3⟩, ⟨"r2", .runCompleted .failed 4⟩,
    ⟨"r1", .nodeStarted "a" 1⟩, finishedA, ⟨"r1", .runCompleted .succeeded 9⟩,
    ⟨"r1", .nodeSkipped "b" "late"⟩]

/-- The logger of the first run is told to stop before its first turn. It has three
    lines in the end, and the text of the second says what happened. -/
theorem lines_recorded_crossing : ∃ w, Watched 2 "r1" crossing w ∧ w.told = true ∧
    w.logger.lines = [] ∧
    (w.turns 2 "r1" 7).logger.lines =
      [⟨"r1", "run_started", none,
          [("graph_id", .string "g"), ("nodes", .nat 3), ("stages", .nat 2)]⟩,
        ⟨"r1", "node_finished", some "a",
          [("attempts", .nat 1), ("elapsed_ms", .nat 5), ("status", .string "succeeded")]⟩,
        ⟨"r1", "run_completed", none,
          [("elapsed_ms", .nat 9), ("status", .string "succeeded")]⟩] ∧
    (w.turns 2 "r1" 8).logger.stopped = true ∧
    ∃ line, Json.read? ((LogEntry.ofEvent finishedA).toJson "noon").compact = some line ∧
      LogEntry.Tells line finishedA := by
  rcases Watched.exists_waiting 2 "r1" {} rfl crossing (by decide) with ⟨w, hw, htold, hnone, -⟩
  have hinRange : finishedA.InRange := by
    simp [Event.InRange, finishedA, Happening.particulars, Json.numbers, Json.nat, Number.Fits]
  rcases hw.lines_recorded 7 (Nat.le_refl 7) with ⟨hlines, hlog, hstops, -, -, -, hread, -⟩
  refine ⟨w, hw, htold, hnone, ?_, hstops.mpr (Or.inl htold), hread finishedA "noon" hinRange⟩
  rw [hlines, hlog]
  decide

end Workflow
