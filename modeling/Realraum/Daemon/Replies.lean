import Realraum.Daemon.Helpers.InStep
import Realraum.Daemon.Helpers.Issued
import Realraum.Daemon.Helpers.Replay
/-!
# Whose answer a firmware line is

A reply does not say which command it answers, so the daemon takes every
line for the answer to the head of its queue. That is right for replies,
in every order of printing and reading; it is wrong for a line the
firmware prints of its own accord, which pops a command that waits and
leaves every later answer one command too early.
-/

namespace Realraum

namespace Daemon

variable {cfg : Setup} {w : World}

/-- **Every reply answers its command.** In every world the system
reaches while lines of the firmware's own are taken with nothing queued,
the `k`-th reply that was taken was sent as the answer to the `k`-th
command written and removed that command from the queue, and a line of
the firmware's own answered nothing and removed nothing. While no client
has gone, every answer reached the connection its command was read on. -/
theorem replies_match (h : w.Reached cfg (TakenIdle cfg)) :
    RepliesMatch cfg w ∧ (closes w.daemon.trace = [] → AnswersReachIssuer w.daemon.trace) :=
  ⟨h.inStep.matched, h.daemon.answers_of_closes_nil⟩

/-- **A replay shows a reached world.** -/
theorem reached_of_replay (cfg : Setup) (B : World → Happening → Prop) [∀ w i, Decidable (B w i)]
    (is : List Happening) (p : World → Bool)
    (h : (Reach.replay (worldStep cfg) (fun w i => decide (Assumed cfg w i ∧ B w i)) is
      ⟨entry cfg (fun _ => 0) fun _ => 0, []⟩).any p = true) :
    ∃ w, World.Reached cfg B w ∧ p w = true := by
  obtain ⟨w, hw, hp⟩ := Reach.exists_of_replay (fun _ _ => of_decide_eq_true) is _ p h
  exact ⟨w, ⟨_, _, hw⟩, hp⟩

/-- The firmware's acknowledgement. -/
def okLine : Line := ⟨ascii "Ok" ++ [carriageReturn], by decide, by decide⟩

/-- Movement before a command, and the acknowledgement after it. -/
theorem replies_match_idle :
    ∃ w, World.Reached .sample (TakenIdle .sample) w ∧
      RepliesMatch .sample w ∧ AnswersReachIssuer w.daemon.trace ∧
      handled w.daemon.trace = [⟨ascii "movement", [], []⟩,
        ⟨ascii "Ok", [(lampRequest, ascii "Ok")], [lampRequest]⟩] := by
  obtain ⟨w, hw, hp⟩ := reached_of_replay .sample (TakenIdle .sample)
    [.iterates (.connect .sample 7 0), .prints .movement,
      .iterates (.firmware .sample "movement" 1), .iterates (.command 7 "power on lamp" 1),
      .prints (.reply okLine), .iterates (.firmware .sample "Ok" 1)]
    (fun w => closes w.daemon.trace = [] ∧
      handled w.daemon.trace = [⟨ascii "movement", [], []⟩,
        ⟨ascii "Ok", [(lampRequest, ascii "Ok")], [lampRequest]⟩]) (by decide +kernel)
  obtain ⟨hnone, hhandled⟩ := of_decide_eq_true hp
  exact ⟨w, hw, (replies_match hw).1, (replies_match hw).2 hnone, hhandled⟩

/-- The second client's request, for the fan. -/
def otherFanRequest : Request := ⟨1, .client 1, 8, .powerOn, some (ascii "c")⟩

/-- **Movement shifts the answers.** The firmware prints `movement` while
the first client waits: that client gets it for an answer. The second
client asks next, and gets the acknowledgement of the first one's
command, the only reply there is. -/
theorem replies_match_fails :
    ∃ w, World.Reached .sample (fun _ _ => True) w ∧ closes w.daemon.trace = [] ∧
      replies w.printed = [.reply okLine] ∧
      written w.daemon.trace = [lampRequest, otherFanRequest] ∧
      .answer lampRequest (some 0) (ascii "movement") ∈ w.daemon.trace ∧
      .answer otherFanRequest (some 1) (ascii "Ok") ∈ w.daemon.trace ∧
      ¬ RepliesMatch .sample w := by
  obtain ⟨w, hw, hp⟩ := reached_of_replay .sample (fun _ _ => True)
    [.iterates (.connect .sample 7 0), .iterates (.connect .sample 8 0),
      .iterates (.command 7 "power on lamp" 1), .prints .movement,
      .iterates (.firmware .sample "movement" 1), .iterates (.command 8 "power on fan" 1),
      .prints (.reply okLine), .iterates (.firmware .sample "Ok" 1)]
    (fun w => closes w.daemon.trace = [] ∧ replies w.printed = [.reply okLine] ∧
      written w.daemon.trace = [lampRequest, otherFanRequest] ∧
      .answer lampRequest (some 0) (ascii "movement") ∈ w.daemon.trace ∧
      .answer otherFanRequest (some 1) (ascii "Ok") ∈ w.daemon.trace ∧
      ¬ RepliesMatch .sample w) (by decide +kernel)
  exact ⟨w, hw, of_decide_eq_true hp⟩

end Daemon

end Realraum
