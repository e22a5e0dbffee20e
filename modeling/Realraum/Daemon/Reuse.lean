import Realraum.Daemon.Helpers.Issued
import Realraum.Daemon.Helpers.Replay
/-!
# Answers and descriptors that are used again

An entry of the queue names its client by a descriptor, and stays when
the client goes. The answer to it then reaches nobody, or whoever was
given the descriptor next. Which of the two is a matter of what `accept`
gives: while it never gives a descriptor that stands in the queue, every
answer reaches the connection its request was read on.
-/

namespace Realraum

namespace Daemon

variable {cfg : Setup} {s : State}

/-- **`accept` does not give a descriptor that stands in the queue** when
it is called. -/
def AcceptsApart (cfg : Setup) (s : State) (e : Env) : Prop :=
  (beforeAccept cfg e (e.fds s) s).Sat (fun u => ∀ fd ∈ e.accept, ∀ c ∈ u.cmdQ, c.fd ≠ fd)
    fun _ => True

instance (cfg : Setup) (s : State) (e : Env) : Decidable (AcceptsApart cfg s e) :=
  inferInstanceAs (Decidable (Flow.Sat _ _ _))

/-- **While `accept` gives no descriptor that stands in the queue, every
answer reaches the connection its request was read on**, or nobody when
that is closed. -/
theorem answers_reach_issuer (h : Reachable cfg (AcceptsApart cfg) s) :
    AnswersReachIssuer s.trace := by
  have key : Tracked cfg s ∧ Issued s := by
    refine h.invariant (I := fun u => Tracked cfg u ∧ Issued u)
      (fun u fd _ => ∀ c ∈ u.cmdQ, c.fd ≠ fd)
      (fun _ _ => ⟨Tracked.entry _ _, Issued.entry _ _⟩) ?_
      fun u v hinv hu he => ⟨he.tracked hinv hu.1, he.issued hinv hu.1 hu.2⟩
    intro s e u readable hA hselect hu fd hfd
    have hfds : e.fds s = tmpfds s readable := by rw [Env.fds, hselect]
    rw [AcceptsApart, hfds, hu] at hA
    exact hA fd hfd
  exact key.2.answers

/-- A client asks and goes, another is given a new descriptor, and the
answer reaches nobody. -/
theorem answers_reach_issuer_gone :
    ∃ s, Reachable Setup.sample (AcceptsApart .sample) s ∧ AnswersReachIssuer s.trace ∧
      ∃ r text, .answer r none text ∈ s.trace ∧ r.port = .client 0 := by
  obtain ⟨s, hs, hp⟩ := reachable_of_replay .sample (AcceptsApart .sample)
    [.connect .sample 7 0, .command 7 "power on lamp" 1, .disconnect 7 1, .connect .sample 8 1,
      .firmware .sample "Ok" 1]
    (fun s => .answer lampRequest none (ascii "Ok") ∈ s.trace) (by decide)
  exact ⟨s, hs, answers_reach_issuer hs, _, _, of_decide_eq_true hp, rfl⟩

/-- **A later connection gets the answer.** The client on descriptor 7
asks for the lamp and closes its end; the next client is given descriptor
7, and the firmware's `Ok` reaches it. -/
theorem answers_reach_issuer_fails :
    ∃ s, Reachable Setup.sample (fun _ _ => True) s ∧ ¬ AnswersReachIssuer s.trace ∧
      ∃ r text, .answer r (some 1) text ∈ s.trace ∧ r.port = .client 0 := by
  obtain ⟨s, hs, hp⟩ := reachable_of_replay .sample (fun _ _ => True)
    [.connect .sample 7 0, .command 7 "power on lamp" 1, .disconnect 7 1, .connect .sample 7 1,
      .firmware .sample "Ok" 1]
    (fun s => .answer lampRequest (some 1) (ascii "Ok") ∈ s.trace) (by decide)
  have hmem := of_decide_eq_true hp
  refine ⟨s, hs, fun hall => ?_, _, _, hmem, rfl⟩
  obtain ⟨past, rest, htrace⟩ := List.append_of_mem hmem
  have hpre : past ++ [.answer lampRequest (some 1) (ascii "Ok")] <+: s.trace :=
    ⟨rest, by rw [htrace, List.append_assoc]; rfl⟩
  have hconn : some 1 = if ⟨7, 0⟩ ∈ openConns past then some 0 else none := hall _ _ _ _ hpre
  split at hconn <;> simp at hconn

end Daemon

end Realraum
