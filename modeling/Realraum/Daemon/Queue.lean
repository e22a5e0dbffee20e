import Realraum.Daemon.Helpers.Dispatching
import Realraum.Daemon.Helpers.Replay
/-!
# The command queue of `main_loop` is a dispatcher

`main_loop` keeps its commands in a queue of which only the head may be
at the firmware. A run's history is a trace of the abstract dispatcher
(`Reachable.dispatch`), which says so of every order of ready
descriptors.
-/

namespace Realraum

namespace Daemon

open Dispatch

variable {cfg : Setup} {A : State → Env → Prop} {s : State}

/-- **One command at a time.** In every reachable state only the head of
the queue may have been sent. Over the whole run the commands written to
the tty are some of those pushed, in the same order and none twice;
between two writes the first command was popped; and at no moment are two
commands outstanding, that is written and not popped yet. -/
theorem one_command_at_a_time (h : Reachable cfg A s) :
    (∀ c ∈ s.cmdQ.tail, c.sent = false) ∧
    (writes (acts s.trace)).Sublist (pushes (acts s.trace)) ∧
    (writes (acts s.trace)).Nodup ∧
    (∀ t₁ t₂ t₃ a b, acts s.trace = t₁ ++ .write a :: (t₂ ++ .write b :: t₃) →
      Act.pop a true ∈ t₂) ∧
    ∀ tr, tr <+: s.trace → (outstanding (acts tr)).length ≤ 1 := by
  have hd := h.dispatch
  refine ⟨h.tail_unsent, hd.writes_sublist, h.pushes_nodup.sublist hd.writes_sublist, ?_, ?_⟩
  · intro t₁ t₂ t₃ a b heq
    rw [heq] at hd
    exact hd.pop_between
  · intro tr htr
    obtain ⟨q, hq⟩ := h.dispatch_prefix htr
    exact hq.length_outstanding_le

/-- A run of two clients whose commands are written one after the other,
the second when the firmware has answered the first. -/
theorem one_command_at_a_time_two_clients :
    ∃ s, Reachable Setup.sample (fun _ _ => True) s ∧ (writes (acts s.trace)).length = 2 ∧
      (∀ c ∈ s.cmdQ.tail, c.sent = false) ∧
      ∀ tr, tr <+: s.trace → (outstanding (acts tr)).length ≤ 1 := by
  obtain ⟨s, hs, hp⟩ := reachable_of_replay .sample (fun _ _ => True)
    [.connect .sample 7 0, .connect .sample 8 0, .command 7 "power on lamp" 1,
      .command 8 "sample temp" 1, .firmware .sample "Ok" 1]
    (fun s => (writes (acts s.trace)).length = 2) (by decide)
  have h := one_command_at_a_time hs
  exact ⟨s, hs, of_decide_eq_true hp, h.1, h.2.2.2.2⟩

end Daemon

end Realraum
