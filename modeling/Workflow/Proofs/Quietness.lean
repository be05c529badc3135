import Workflow.Run.Clock

/-!
# Handlers That Leave the Store Alone

What has to be true of handlers for the store to be the same after a run.

Only a rehearsed handler can reach the store, through an act that saves a
graph, and such a save is one more request of the store while the run is going
on. That no act does this can be read off the registry (`Registry.Quiet`), and
nothing in a run changes the registry. But a handler acts at the end of its
attempt, and what it will do then was settled at the beginning. So the
attempts that pause have to be looked at as well: what is kept by every turn
of a clock is that its store is still the same one, that its handlers are
quiet, and that its pausing attempts are (`Clock.Quiet`).

The functions of the clock may refuse. Each lemma says what is true when they
do not.

## Main definitions

* `Act.Quiet`, `Behaviour.Quiet`, `Registry.Quiet`: Handlers that save nothing.
* `Intent.Quiet`: An attempt that will save nothing.
* `Clock.Quiet`: A clock whose run leaves a store alone.

## Theorems

* `quiet_builtins`: The built-in handlers save nothing.
* `quiet_begin`, `store_finish`: The two moments of an attempt.
* `Quiet.answer`, `Quiet.complete`, `Quiet.attempt`, `Quiet.serve`,
  `Quiet.disturb`: What is done to one task.
* `Quiet.meet`, `Quiet.turn`, `Quiet.runDown`: Turns leave the store alone.
* `store_execute`: So does a whole run.
-/

namespace Workflow

/-- An act that saves no graph. -/
def Act.Quiet (act : Act) : Prop := act.save.isNone = true

/-- A handler that saves no graphs, whatever its part is. -/
def Behaviour.Quiet : Behaviour → Prop
  | .acts nodes others =>
      (∀ entry ∈ nodes, ∀ act ∈ entry.2, act.Quiet) ∧ ∀ act ∈ others, act.Quiet
  | _ => True

/-- Handlers that save no graphs. -/
def Registry.Quiet (r : Registry) : Prop := ∀ entry ∈ r, entry.2.behaviour.Quiet

/-- An attempt that will save no graph. -/
def Intent.Quiet : Intent → Prop
  | .perform act => act.Quiet
  | _ => True

/-- The built-in handlers save nothing. -/
theorem Registry.quiet_builtins (settings : HandlerSettings) :
    (Registry.builtins settings).Quiet := by
  intro entry hentry
  simp only [builtins, List.mem_cons, List.not_mem_nil, or_false] at hentry
  rcases hentry with rfl | rfl | rfl | rfl | rfl <;> trivial

namespace Registry

/-- A handler that is found is one of the registry. -/
theorem Quiet.of_find? {r : Registry} (h : r.Quiet) {kind : Kind} {handler : Handler}
    (hfind : r.find? kind = some handler) : handler.behaviour.Quiet := by
  rcases Option.map_eq_some_iff.mp hfind with ⟨entry, hentry, rfl⟩
  exact h entry (List.mem_of_find?_eq_some hentry)

end Registry

namespace World

variable {w w' : World} {nowMs : Nat} {p : Pending}

theorem quiet_actOf {acts : List Act} (h : ∀ act ∈ acts, act.Quiet) (turn : Nat) :
    (actOf acts turn).Quiet := by
  rw [actOf]
  cases hturn : acts[turn]? with
  | some act => exact h act (List.mem_of_getElem? hturn)
  | none =>
      cases hlast : acts.getLast? with
      | some act => exact h act (List.mem_of_getLast? hlast)
      | none => rfl

/-- Whatever acts were written for a node, they save nothing. -/
theorem quiet_acts {nodes : Entries (List Act)} {others : List Act}
    (h : (Behaviour.acts nodes others).Quiet) (node : NodeId) :
    ∀ act ∈ (Entries.find? node nodes).getD others, act.Quiet := by
  cases hfind : Entries.find? node nodes with
  | none => exact h.2
  | some acts => exact h.1 (node, acts) (Entries.mem_of_find? hfind)

/-- An attempt begins without a change of the store or the handlers, and what
    it will do at its end saves nothing. -/
theorem quiet_begin (h : w.registry.Quiet) {kind : Kind} {call : Call}
    (hbegin : w.begin nowMs kind call = some (w', p)) :
    w'.store = w.store ∧ w'.registry = w.registry ∧ p.intent.Quiet := by
  rcases Option.map_eq_some_iff.mp hbegin with ⟨handler, hhandler, heq⟩
  have hquiet := h.of_find? hhandler
  cases hbehaviour : handler.behaviour with
  | forward | judge | scrape | scripted | recording =>
      simp only [hbehaviour, Prod.mk.injEq] at heq
      rw [← heq.1, ← heq.2]
      exact ⟨rfl, rfl, trivial⟩
  | wait =>
      simp only [hbehaviour] at heq
      split at heq <;>
      · rw [Prod.mk.injEq] at heq
        rw [← heq.1, ← heq.2]
        exact ⟨rfl, rfl, trivial⟩
  | acts nodes others =>
      rw [hbehaviour] at hquiet
      simp only [hbehaviour, Prod.mk.injEq] at heq
      rw [← heq.1, ← heq.2]
      exact ⟨rfl, rfl, quiet_actOf (quiet_acts hquiet call.node) _⟩

/-- An attempt that saves nothing ends without a change of the store or the
    handlers. -/
theorem store_finish (w : World) (nowMs : Nat) (h : p.intent.Quiet) :
    (w.finish nowMs p).1.store = w.store ∧ (w.finish nowMs p).1.registry = w.registry := by
  rw [finish]
  cases hintent : p.intent with
  | reply reply | recite | testify => exact ⟨rfl, rfl⟩
  | perform act =>
      rw [hintent] at h
      have hsave : w.saveFor nowMs act = w := by
        rw [saveFor, Option.isNone_iff_eq_none.mp h]
      simp only [hsave]
      split <;> exact ⟨rfl, rfl⟩

end World

namespace Clock

/-- A clock whose run leaves a store alone: the store is still this one, and
    neither the handlers nor the attempts that pause will save anything. -/
structure Quiet (store : Store) (c : Clock) : Prop where
  kept : c.world.store = store
  handlers : c.world.registry.Quiet
  pausing : ∀ entry ∈ c.paused, entry.2.intent.Quiet

variable {engine : Engine} {setup : Setup} {store : Store} {c c' : Clock}

/-- Neither the run nor the agenda matters. -/
theorem Quiet.of_same (h : c.Quiet store) (hworld : c'.world = c.world)
    (hpaused : c'.paused = c.paused) : c'.Quiet store := by
  refine ⟨?_, ?_, ?_⟩
  · rw [hworld]
    exact h.kept
  · rw [hworld]
    exact h.handlers
  · rw [hpaused]
    exact h.pausing

theorem Quiet.move (h : c.Quiet store) {choice : Choice}
    (hc : c.move setup choice = some c') : c'.Quiet store := by
  rcases Option.map_eq_some_iff.mp hc with ⟨run, -, hrun⟩
  rw [← hrun]
  exact h.of_same rfl rfl

theorem Quiet.plan (h : c.Quiet store) (atMs : Nat) (due : Due) : (c.plan atMs due).Quiet store :=
  h.of_same rfl rfl

theorem Quiet.release (h : c.Quiet store) : c.release.Quiet store := by
  rw [Clock.release]
  split <;> exact h.of_same rfl rfl

/-- Something else in the world has changed. -/
theorem Quiet.within (h : c.Quiet store) {world : World} (hstore : world.store = c.world.store)
    (hregistry : world.registry = c.world.registry) :
    { c with world := world }.Quiet store := by
  refine ⟨hstore.trans h.kept, ?_, h.pausing⟩
  rw [hregistry]
  exact h.handlers

theorem Quiet.unpause (h : c.Quiet store) (id : NodeId) : (c.unpause id).Quiet store :=
  ⟨h.kept, h.handlers, fun entry hentry => h.pausing entry (List.mem_filter.mp hentry).1⟩

/-- An attempt of which it is known that it pauses will save nothing. -/
theorem Quiet.of_pausedAt? (h : c.Quiet store) {id : NodeId} {p : Pending}
    (hp : c.pausedAt? id = some p) : p.intent.Quiet := by
  rcases Option.map_eq_some_iff.mp hp with ⟨entry, hentry, rfl⟩
  exact h.pausing entry (List.mem_of_find?_eq_some hentry)

theorem Quiet.answer (h : c.Quiet store) {id : NodeId} {outcome : Except AttemptError Json}
    (hc : c.answer setup id outcome = some c') : c'.Quiet store := by
  rcases Option.bind_eq_some_iff.mp hc with ⟨d, hd, hc'⟩
  have hanswered := h.move hd
  split at hc'
  · split at hc'
    · rw [← Option.some.inj hc']
      exact hanswered.of_same rfl rfl
    split at hc'
    · rcases Option.bind_eq_some_iff.mp hc' with ⟨e, he, hc''⟩
      rw [← Option.some.inj hc'']
      exact (hanswered.move he).release
    · rw [← Option.some.inj hc']
      exact hanswered.plan _ _
  · rw [← Option.some.inj hc']
    exact hanswered.release

theorem Quiet.complete (h : c.Quiet store) {id : NodeId} {p : Pending} (hp : p.intent.Quiet)
    (hc : c.complete setup id p = some c') : c'.Quiet store := by
  have hfinish := c.world.store_finish c.run.nowMs hp
  rw [Clock.complete] at hc
  split at hc
  rename_i world ending hworld
  rw [hworld] at hfinish
  have hfinished := h.within hfinish.1 hfinish.2
  cases ending with
  | replied reply =>
      rcases Option.bind_eq_some_iff.mp hc with ⟨d, hd, hc'⟩
      have hanswered := hfinished.answer hd
      split at hc'
      -- An interrupt is noted in the network and planned, and both leave the store.
      · rw [← Option.some.inj hc']
        refine .plan (hanswered.within ?_ ?_) _ _ <;> rfl
      · rw [← Option.some.inj hc']
        exact hanswered
  | brokeDown =>
      rcases Option.bind_eq_some_iff.mp hc with ⟨d, hd, hc'⟩
      rw [← Option.some.inj hc']
      exact (hfinished.move hd).release

theorem Quiet.attempt (h : c.Quiet store) {id : NodeId}
    (hc : c.attempt engine setup id = some c') : c'.Quiet store := by
  rcases Option.bind_eq_some_iff.mp hc with ⟨t, _, hc'⟩
  split at hc'
  · exact h.answer hc'
  · rename_i world p hbegin
    rcases World.quiet_begin h.handlers hbegin with ⟨hstore, hregistry, hp⟩
    have hbegun := h.within hstore hregistry
    simp only at hc'
    split at hc'
    · exact hbegun.answer hc'
    split at hc'
    · exact hbegun.complete hp hc'
    split at hc'
    · exact hbegun.answer hc'
    -- The attempt pauses, and it is known what it will do then.
    have hpaused : { c with world := world, paused := (id, p) :: c.paused }.Quiet store :=
      ⟨hbegun.kept, hbegun.handlers, List.forall_mem_cons.mpr ⟨hp, h.pausing⟩⟩
    split at hc' <;>
    · rw [← Option.some.inj hc']
      exact hpaused.plan _ _

theorem Quiet.serve (h : c.Quiet store) {id : NodeId}
    (hc : c.serve engine setup id = some c') : c'.Quiet store := by
  rcases Option.bind_eq_some_iff.mp hc with ⟨d, hd, hc'⟩
  split at hc'
  · rw [← Option.some.inj hc']
    exact (h.move hd).release
  · exact (h.move hd).attempt hc'

theorem Quiet.disturb (h : c.Quiet store) {t : Task} (hc : c.disturb setup t = some c') :
    c'.Quiet store := by
  simp only [Clock.disturb] at hc
  split at hc
  · have hstruck : { c with agenda := Agenda.cancel (.wake t.node) c.agenda }.Quiet store :=
      h.of_same rfl rfl
    rcases Option.bind_eq_some_iff.mp hc with ⟨d, hd, hc'⟩
    rw [← Option.some.inj hc']
    exact (hstruck.move hd).release
  · split at hc
    · have hstruck : { c.unpause t.node with
          agenda := Agenda.cancel (.resume t.node) (Agenda.cancel (.expire t.node) c.agenda)
          }.Quiet store := (h.unpause t.node).of_same rfl rfl
      exact hstruck.answer hc
    · rw [← Option.some.inj hc]
      exact h
  · rw [← Option.some.inj hc]
    exact h

theorem Quiet.foldlM_disturb (tasks : List Task) (h : c.Quiet store)
    (hc : tasks.foldlM (Clock.disturb setup) c = some c') : c'.Quiet store := by
  induction tasks generalizing c with
  | nil =>
      rw [← Option.some.inj hc]
      exact h
  | cons t rest ih =>
      rw [List.foldlM_cons] at hc
      rcases Option.bind_eq_some_iff.mp hc with ⟨d, hd, hc'⟩
      exact ih (h.disturb hd) hc'

theorem Quiet.meet (h : c.Quiet store) {due : Due} (hc : c.meet engine setup due = some c') :
    c'.Quiet store := by
  cases due with
  | ask id =>
      simp only [Clock.meet] at hc
      split at hc
      · rw [← Option.some.inj hc]
        exact h.of_same rfl rfl
      · exact h.serve hc
  | serve id => exact h.serve hc
  | resume id =>
      rcases Option.bind_eq_some_iff.mp hc with ⟨p, hp, hc'⟩
      exact (h.unpause id).complete (h.of_pausedAt? hp) hc'
  | expire id =>
      rcases Option.bind_eq_some_iff.mp hc with ⟨p, _, hc'⟩
      exact (h.unpause id).answer hc'
  | wake id =>
      rcases Option.bind_eq_some_iff.mp hc with ⟨d, hd, hc'⟩
      exact (h.move hd).attempt hc'
  | cancel =>
      rcases Option.bind_eq_some_iff.mp hc with ⟨d, hd, hc'⟩
      exact (h.move hd).foldlM_disturb _ hc'

theorem Quiet.launch (h : c.Quiet store) {id : NodeId} (hc : c.launch setup id = some c') :
    c'.Quiet store := by
  rcases Option.bind_eq_some_iff.mp hc with ⟨d, hd, hc'⟩
  split at hc' <;> rw [← Option.some.inj hc']
  · exact (h.move hd).plan _ _
  · exact h.move hd

/-- A turn leaves the store alone. -/
theorem Quiet.turn (h : c.Quiet store) (hc : c.turn engine setup = some c') :
    c'.Quiet store := by
  rw [Clock.turn] at hc
  split at hc
  · exact h.launch hc
  · exact h.move hc
  · split at hc
    · exact h.move hc
    split at hc
    · exact h.move hc
    split at hc
    · exact absurd hc.symm (Option.some_ne_none c')
    · rename_i atMs due agenda hagenda
      have hstruck : { c with agenda := agenda }.Quiet store := h.of_same rfl rfl
      rcases Option.bind_eq_some_iff.mp hc with ⟨d, hd, hc'⟩
      exact (hstruck.move hd).meet hc'

/-- Any number of turns leaves it alone. -/
theorem Quiet.runDown (h : c.Quiet store) (fuel : Nat) :
    (c.runDown engine setup fuel).Quiet store := by
  induction fuel generalizing c with
  | zero => exact h
  | succ fuel ih =>
      rw [Clock.runDown]
      cases hturn : c.turn engine setup with
      | none => exact h
      | some d => exact ih (h.turn hturn)

end Clock

namespace Engine

theorem quiet_wind (setup : Setup) (order : RunOrder) (w : World) (h : w.registry.Quiet) :
    (wind setup order w).Quiet w.store := by
  have hstart : ∀ run agenda, Clock.Quiet w.store { run := run, world := w, agenda := agenda } :=
    fun _ _ => ⟨rfl, h, fun _ hentry => absurd hentry List.not_mem_nil⟩
  rw [wind]
  split
  · exact hstart _ _
  · split <;> exact hstart _ _

/-- A run leaves the store alone if the handlers do. -/
theorem store_execute (e : Engine) (order : RunOrder) (graph : Graph) (w : World)
    (h : w.registry.Quiet) : (e.execute order graph w).2.store = w.store := by
  rw [execute, executeAfter]
  cases graph.plan with
  | error cycle => rfl
  | ok plan => exact ((quiet_wind _ order w h).runDown _).kept

end Engine

end Workflow
