import Workflow.Proofs.Termination
import Workflow.Run.Clock

/-!
# Runs on the Clock

What is carried out on the clock is one of the courses that a run may take,
and the turns that it is given are enough for it.

Everything that a clock does to its run is a step of the machine, so the run
of a clock stays on a course (`OnCourse`). What holds for every course
therefore holds for what the engine does, whatever the handlers are.

An engine takes no more turns than it counted beforehand. That the number is
large enough is seen from the `effort` that is left on a clock: what is
planned, and twice what may still be done in the run. Most turns take
something off the agenda, and whatever they plan anew comes with a step of the
machine that takes away more. The three turns that leave the agenda as it is
make a step of the machine.

The functions of the clock may refuse. Each lemma says what is true when they
do not, and how the effort compares then.

## Main definitions

* `OnCourse`: The run of a clock is on a course.
* `effort`: What is left to do on a clock.
* `strike`: Taking something off the agenda.

## Theorems

* `OnCourse.move`, `OnCourse.work`, `OnCourse.idle`: A step of the machine.
* `OnCourse.answer`, `OnCourse.complete`, `OnCourse.attempt`,
  `OnCourse.serve`: What is done to one task.
* `OnCourse.meet`, `OnCourse.turn`: Every turn takes some effort away.
* `effort_start_le`: There are enough turns for every run.
* `execute_course`: What the engine does is a course that is gone to its end.
-/

namespace Workflow

namespace Clock

variable {engine : Engine} {setup : Setup} {c c' : Clock}

/-- The run of a clock is on a course. -/
def OnCourse (setup : Setup) (c : Clock) : Prop := ∃ choices, Course setup choices c.run

/-- What is left to do on a clock. What is planned counts, and what may still
    be done in the run counts twice, because it may lead to new plans. -/
def effort (setup : Setup) (c : Clock) : Nat := 2 * c.run.remaining setup + c.agenda.length

theorem effort_plan (setup : Setup) (c : Clock) (atMs : Nat) (due : Due) :
    (c.plan atMs due).effort setup = c.effort setup + 1 := by
  simp only [effort, plan, Agenda.length_schedule]
  omega

theorem run_release (c : Clock) : c.release.run = c.run := by
  rw [release]
  split <;> rfl

theorem effort_release_le (setup : Setup) (c : Clock) :
    c.release.effort setup ≤ c.effort setup + 1 := by
  rw [release]
  split
  · exact Nat.le_succ _
  · rw [effort_plan]
    exact Nat.le_refl _

theorem OnCourse.move (h : c.OnCourse setup) (choice : Choice)
    (hc : c.move setup choice = some c') : c'.OnCourse setup ∧ c'.agenda = c.agenda ∧
      c.run.step setup choice = some c'.run := by
  rcases Option.map_eq_some_iff.mp hc with ⟨run, hstep, hrun⟩
  rcases h with ⟨choices, hcourse⟩
  rw [← hrun]
  exact ⟨⟨_, hcourse.concat choice run hstep⟩, rfl, hstep⟩

/-- A step in which something is done takes away twice one. -/
theorem OnCourse.work (h : c.OnCourse setup) (choice : Choice) (hwork : choice.isWork = true)
    (hc : c.move setup choice = some c') :
    c'.OnCourse setup ∧ c'.effort setup + 2 ≤ c.effort setup := by
  rcases h.move choice hc with ⟨hcourse, hagenda, hstep⟩
  rcases h with ⟨choices, hbefore⟩
  have hlt := RunState.remaining_lt_of_step choice hwork hbefore.nodup_tasks hstep
  refine ⟨hcourse, ?_⟩
  rw [effort, effort, hagenda]
  omega

theorem OnCourse.release (h : c.OnCourse setup) : c.release.OnCourse setup := by
  rw [OnCourse, run_release]
  exact h

/-- An attempt that ends gives its worker back, or books a rest. -/
theorem OnCourse.answer (h : c.OnCourse setup) (id : NodeId) (outcome : Except AttemptError Json)
    (hc : c.answer setup id outcome = some c') :
    c'.OnCourse setup ∧ c'.effort setup + 1 ≤ c.effort setup := by
  rcases Option.bind_eq_some_iff.mp hc with ⟨d, hd, hc'⟩
  rcases h.work _ rfl hd with ⟨hcourse, hlt⟩
  have hrelease := d.effort_release_le setup
  split at hc'
  -- The task rests. The rest is over at once, or cut short, or planned.
  · split at hc'
    · rw [← Option.some.inj hc']
      refine ⟨hcourse, ?_⟩
      simp only [effort, planNext, List.length_cons] at hlt ⊢
      omega
    split at hc'
    · rcases Option.bind_eq_some_iff.mp hc' with ⟨e, he, hc''⟩
      rcases hcourse.work _ rfl he with ⟨hcourse', hlt'⟩
      have hrelease' := e.effort_release_le setup
      rw [← Option.some.inj hc'']
      exact ⟨hcourse'.release, by omega⟩
    · rw [← Option.some.inj hc', effort_plan]
      exact ⟨hcourse, by omega⟩
  · rw [← Option.some.inj hc']
    exact ⟨hcourse.release, by omega⟩

theorem OnCourse.complete (h : c.OnCourse setup) (id : NodeId) (p : Pending)
    (hc : c.complete setup id p = some c') :
    c'.OnCourse setup ∧ c'.effort setup ≤ c.effort setup := by
  rw [Clock.complete] at hc
  split at hc
  rename_i world ending _
  have hworld : { c with world := world }.OnCourse setup := h
  have hsame : { c with world := world }.effort setup = c.effort setup := rfl
  cases ending with
  | replied reply =>
      rcases Option.bind_eq_some_iff.mp hc with ⟨d, hd, hc'⟩
      rcases hworld.answer id _ hd with ⟨hcourse, hlt⟩
      split at hc'
      -- An interrupt plans that the run is cancelled, which the answer has paid for.
      · rw [← Option.some.inj hc', effort_plan]
        refine ⟨hcourse, ?_⟩
        simp only [effort] at hlt ⊢
        omega
      · rw [← Option.some.inj hc']
        exact ⟨hcourse, by omega⟩
  | brokeDown =>
      rcases Option.bind_eq_some_iff.mp hc with ⟨d, hd, hc'⟩
      rcases hworld.work _ rfl hd with ⟨hcourse, hlt⟩
      have hrelease := d.effort_release_le setup
      rw [← Option.some.inj hc']
      exact ⟨hcourse.release, by omega⟩

/-- An attempt that begins may plan its own end. -/
theorem OnCourse.attempt (h : c.OnCourse setup) (id : NodeId)
    (hc : c.attempt engine setup id = some c') :
    c'.OnCourse setup ∧ c'.effort setup ≤ c.effort setup + 1 := by
  rcases Option.bind_eq_some_iff.mp hc with ⟨t, _, hc'⟩
  -- Either the attempt comes to its end at once, or it is planned when it goes on.
  split at hc'
  · rcases h.answer id _ hc' with ⟨hcourse, hlt⟩
    exact ⟨hcourse, by omega⟩
  · rename_i world p _
    have hworld : { c with world := world }.OnCourse setup := h
    have hsame : { c with world := world }.effort setup = c.effort setup := rfl
    simp only at hc'
    split at hc'
    · rcases hworld.answer id _ hc' with ⟨hcourse, hlt⟩
      exact ⟨hcourse, by omega⟩
    split at hc'
    · rcases hworld.complete id p hc' with ⟨hcourse, hle⟩
      exact ⟨hcourse, by omega⟩
    split at hc'
    · rcases hworld.answer id _ hc' with ⟨hcourse, hlt⟩
      exact ⟨hcourse, by omega⟩
    split at hc' <;>
    · rw [← Option.some.inj hc', effort_plan]
      exact ⟨h, Nat.le_refl _⟩

theorem OnCourse.serve (h : c.OnCourse setup) (id : NodeId)
    (hc : c.serve engine setup id = some c') :
    c'.OnCourse setup ∧ c'.effort setup ≤ c.effort setup := by
  rcases Option.bind_eq_some_iff.mp hc with ⟨d, hd, hc'⟩
  rcases h.work _ rfl hd with ⟨hcourse, hlt⟩
  split at hc'
  · have hrelease := d.effort_release_le setup
    rw [← Option.some.inj hc']
    exact ⟨hcourse.release, by omega⟩
  · rcases hcourse.attempt id hc' with ⟨hcourse', hle⟩
    exact ⟨hcourse', by omega⟩

/-- A clock on which something is not planned any more. -/
def strike (c : Clock) (due : Due) : Clock := { c with agenda := Agenda.cancel due c.agenda }

theorem effort_strike_le (setup : Setup) (c : Clock) (due : Due) :
    (c.strike due).effort setup ≤ c.effort setup := by
  have hle : (Agenda.cancel due c.agenda).length ≤ c.agenda.length := List.length_filter_le _ _
  simp only [effort, strike]
  omega

theorem OnCourse.disturb (h : c.OnCourse setup) (t : Task) (hc : c.disturb setup t = some c') :
    c'.OnCourse setup ∧ c'.effort setup ≤ c.effort setup := by
  simp only [Clock.disturb] at hc
  split at hc
  -- The rest of the task is cut short.
  · have hstrike := c.effort_strike_le setup (.wake t.node)
    have hcourse : (c.strike (.wake t.node)).OnCourse setup := h
    rcases Option.bind_eq_some_iff.mp hc with ⟨d, hd, hc'⟩
    rcases hcourse.work _ rfl hd with ⟨hcourse', hlt⟩
    have hrelease := d.effort_release_le setup
    rw [← Option.some.inj hc']
    exact ⟨hcourse'.release, by omega⟩
  · split at hc
    -- The handler waits for something, and that is given up.
    · have hexpire := (c.unpause t.node).effort_strike_le setup (.expire t.node)
      have hresume := ((c.unpause t.node).strike (.expire t.node)).effort_strike_le setup
        (.resume t.node)
      have hunpause : (c.unpause t.node).effort setup = c.effort setup := rfl
      have hcourse : (((c.unpause t.node).strike (.expire t.node)).strike
          (.resume t.node)).OnCourse setup := h
      rcases hcourse.answer _ _ hc with ⟨hcourse', hlt⟩
      exact ⟨hcourse', by omega⟩
    · rw [← Option.some.inj hc]
      exact ⟨h, Nat.le_refl _⟩
  · rw [← Option.some.inj hc]
    exact ⟨h, Nat.le_refl _⟩

theorem OnCourse.foldlM_disturb (tasks : List Task) (h : c.OnCourse setup)
    (hc : tasks.foldlM (Clock.disturb setup) c = some c') :
    c'.OnCourse setup ∧ c'.effort setup ≤ c.effort setup := by
  induction tasks generalizing c with
  | nil =>
      rw [← Option.some.inj hc]
      exact ⟨h, Nat.le_refl _⟩
  | cons t rest ih =>
      rw [List.foldlM_cons] at hc
      rcases Option.bind_eq_some_iff.mp hc with ⟨d, hd, hc'⟩
      rcases h.disturb t hd with ⟨hcourse, hle⟩
      rcases ih hcourse hc' with ⟨hcourse', hle'⟩
      exact ⟨hcourse', Nat.le_trans hle' hle⟩

/-- Time passes, or the run is cancelled. -/
theorem OnCourse.idle (h : c.OnCourse setup) (choice : Choice) (hidle : choice.isWork = false)
    (hc : c.move setup choice = some c') :
    c'.OnCourse setup ∧ c'.effort setup = c.effort setup := by
  rcases h.move choice hc with ⟨hcourse, hagenda, hstep⟩
  refine ⟨hcourse, ?_⟩
  have hsame : c'.run.remaining setup = c.run.remaining setup := by
    generalize c'.run = run at hstep
    cases (RunState.does_of_step setup c.run run choice hstep).2 with
    | tick | cancel => rfl
    | work _ _ hwork =>
        rw [hidle] at hwork
        exact absurd hwork Bool.false_ne_true
  rw [effort, effort, hagenda, hsame]

theorem OnCourse.meet (h : c.OnCourse setup) (due : Due)
    (hc : c.meet engine setup due = some c') :
    c'.OnCourse setup ∧ c'.effort setup ≤ c.effort setup := by
  cases due with
  | ask id =>
      simp only [Clock.meet] at hc
      split at hc
      · rw [← Option.some.inj hc]
        exact ⟨h, Nat.le_refl _⟩
      · exact h.serve id hc
  | serve id => exact h.serve id hc
  | resume id =>
      rcases Option.bind_eq_some_iff.mp hc with ⟨p, _, hc'⟩
      have hcourse : (c.unpause id).OnCourse setup := h
      exact hcourse.complete id p hc'
  | expire id =>
      rcases Option.bind_eq_some_iff.mp hc with ⟨p, _, hc'⟩
      have hcourse : (c.unpause id).OnCourse setup := h
      rcases hcourse.answer id _ hc' with ⟨hcourse', hlt⟩
      exact ⟨hcourse', Nat.le_of_succ_le hlt⟩
  | wake id =>
      rcases Option.bind_eq_some_iff.mp hc with ⟨d, hd, hc'⟩
      rcases h.work _ rfl hd with ⟨hcourse, hlt⟩
      rcases hcourse.attempt id hc' with ⟨hcourse', hle⟩
      exact ⟨hcourse', by omega⟩
  | cancel =>
      rcases Option.bind_eq_some_iff.mp hc with ⟨d, hd, hc'⟩
      rcases h.idle _ rfl hd with ⟨hcourse, hsame⟩
      rcases hcourse.foldlM_disturb _ hc' with ⟨hcourse', hle⟩
      exact ⟨hcourse', by omega⟩

theorem OnCourse.launch (h : c.OnCourse setup) (id : NodeId)
    (hc : c.launch setup id = some c') :
    c'.OnCourse setup ∧ c'.effort setup < c.effort setup := by
  rcases Option.bind_eq_some_iff.mp hc with ⟨d, hd, hc'⟩
  rcases h.work _ rfl hd with ⟨hcourse, hlt⟩
  split at hc'
  · rw [← Option.some.inj hc', effort_plan]
    exact ⟨hcourse, by omega⟩
  · rw [← Option.some.inj hc']
    exact ⟨hcourse, by omega⟩

theorem OnCourse.turn (h : c.OnCourse setup) (hc : c.turn engine setup = some c') :
    c'.OnCourse setup ∧ c'.effort setup < c.effort setup := by
  -- A choice that makes progress costs at least one turn.
  have hmove : ∀ choice, choice.isWork = true → c.move setup choice = some c' →
      c'.OnCourse setup ∧ c'.effort setup < c.effort setup := by
    intro choice hwork hchoice
    rcases h.work choice hwork hchoice with ⟨hcourse, hlt⟩
    exact ⟨hcourse, by omega⟩
  rw [Clock.turn] at hc
  split at hc
  · exact h.launch _ hc
  · exact hmove _ rfl hc
  · split at hc
    · exact hmove _ rfl hc
    split at hc
    · exact hmove _ rfl hc
    split at hc
    · exact absurd hc.symm (Option.some_ne_none c')
    · rename_i atMs due agenda hagenda
      -- Otherwise the first thing on the agenda is due, and taking it from there is progress.
      have hcourse : { c with agenda := agenda }.OnCourse setup := h
      have hless : { c with agenda := agenda }.effort setup + 1 = c.effort setup := by
        simp only [effort, hagenda, List.length_cons]
        omega
      rcases Option.bind_eq_some_iff.mp hc with ⟨d, hd, hc'⟩
      rcases hcourse.idle _ rfl hd with ⟨hd', hsame⟩
      rcases hd'.meet due hc' with ⟨hmet, hle⟩
      exact ⟨hmet, by omega⟩

/-- After enough turns no further one is possible. -/
theorem OnCourse.runDown (engine : Engine) (fuel : Nat) (h : c.OnCourse setup)
    (hfuel : c.effort setup ≤ fuel) :
    (c.runDown engine setup fuel).OnCourse setup ∧
      (c.runDown engine setup fuel).turn engine setup = none := by
  induction fuel generalizing c with
  | zero =>
      cases hturn : c.turn engine setup with
      | none => exact ⟨h, hturn⟩
      | some d => exact absurd (h.turn hturn).2 (by omega)
  | succ fuel ih =>
      rw [Clock.runDown]
      cases hturn : c.turn engine setup with
      | none => exact ⟨h, hturn⟩
      | some d =>
          rcases h.turn hturn with ⟨hcourse, hlt⟩
          exact ih hcourse (by omega)

theorem work_le_foldl (turns : NodeId → Nat) (hturns : ∀ id, 2 * setup.workOf id ≤ turns id)
    (ids : List NodeId) (n : Nat) :
    n + 2 * (ids.map setup.workOf).sum ≤ ids.foldl (fun n id => n + turns id) n := by
  induction ids generalizing n with
  | nil => exact Nat.le_refl n
  | cons id rest ih =>
      have hid := hturns id
      have hrest := ih (n + turns id)
      rw [List.foldl_cons, List.map_cons, List.sum_cons]
      omega

theorem sum_workOfStage (setup : Setup) (stages : List (List NodeId)) :
    (stages.map setup.workOfStage).sum =
      (stages.flatten.map setup.workOf).sum + stages.length := by
  induction stages with
  | nil => rfl
  | cons stage rest ih =>
      rw [List.map_cons, List.sum_cons, ih, List.flatten_cons, List.map_append, List.sum_append,
        List.length_cons, Setup.workOfStage]
      omega

/-- There are enough turns for every run. -/
theorem effort_start_le (setup : Setup) :
    2 * (RunState.start setup).remaining setup + 1 ≤ turnsFor setup := by
  have hremaining : (RunState.start setup).remaining setup =
      (setup.plan.stages.map setup.workOfStage).sum + 1 := rfl
  -- The bound counts some turns for each node, and they are enough for its work.
  have hturns : ∃ turns : NodeId → Nat, (∀ id, 2 * setup.workOf id ≤ turns id) ∧
      turnsFor setup = 8 + 4 * setup.plan.stages.length +
        setup.plan.stages.flatten.foldl (fun n id => n + turns id) 0 := by
    refine ⟨_, ?_, rfl⟩
    intro id
    rw [Setup.workOf]
    cases setup.graph.node? id with
    | none => exact Nat.le_add_left 2 6
    | some node =>
        simp only
        omega
  rcases hturns with ⟨turns, hnode, hturns⟩
  have hwork := work_le_foldl turns hnode setup.plan.stages.flatten 0
  rw [hremaining, sum_workOfStage, hturns]
  omega

end Clock

namespace Engine

theorem wind_onCourse (setup : Setup) (order : RunOrder) (w : World)
    (hplan : setup.graph.plan = .ok setup.plan) : (wind setup order w).OnCourse setup ∧
      (wind setup order w).effort setup ≤ Clock.turnsFor setup := by
  have hstart : Course setup [] (RunState.start setup) := ⟨hplan, rfl⟩
  have hle := Clock.effort_start_le setup
  rw [wind]
  split
  · exact ⟨⟨[], hstart⟩, by simp only [Clock.effort, List.length_nil]; omega⟩
  · split
    -- A run that is cancelled beforehand is one that is cancelled first of all.
    · refine ⟨⟨[.cancel], hstart.concat .cancel _ rfl⟩, ?_⟩
      have hsame : RunState.remaining setup { RunState.start setup with cancelled := true } =
          (RunState.start setup).remaining setup := rfl
      simp only [Clock.effort, List.length_nil, hsame]
      omega
    · exact ⟨⟨[], hstart⟩, by simp only [Clock.effort, List.length_singleton]; omega⟩

/-- A graph that has a plan is run, and what comes out is what is known at the
    end of a course. The clock did not run out of turns there: it has none left
    to take. -/
theorem execute_course (e : Engine) (order : RunOrder) (graph : Graph) (plan : Plan) (w : World)
    (hplan : graph.plan = .ok plan) :
    let setup := e.setup order graph plan w
    ∃ (choices : List Choice) (last : Clock), Course setup choices last.run ∧
      last.turn e setup = none ∧ (e.execute order graph w).1 = .ok {
        result := last.run.result setup
        events := last.run.events.map fun what => ⟨order.run, what⟩
        endMs := last.run.nowMs } := by
  intro setup
  have hwind := wind_onCourse setup order w hplan
  rcases hwind.1.runDown e _ hwind.2 with ⟨⟨choices, hcourse⟩, hlast⟩
  refine ⟨choices, _, hcourse, hlast, ?_⟩
  rw [execute, executeAfter, hplan]

end Engine

end Workflow
