import Realraum.Daemon.Model.Signals
import Realraum.Daemon.Helpers.Calls
import Realraum.Daemon.Helpers.Tracked
/-!
# Helpers — a call in pieces

A call that is cut into pieces goes through the states of the iteration:
its state before a piece is what the pieces in front of that make of the
state at the head of the loop, and at the head it is one that `main_loop`
reaches. So the invariants of the loop hold wherever a signal arrives.
-/

namespace Realraum

namespace Daemon

variable {cfg : Setup} {s t u : State} {e : Env} {fds : Finset ℕ} {k : Piece} {p : Port} {fd : ℕ}
variable {opt : Options} {mem : CmdMem} {c c' : Call}

namespace Piece

/-- What the pieces in front of this one do. -/
def sofar (cfg : Setup) (e : Env) (fds : Finset ℕ) : Piece → State → Flow State
  | expiry, s => .next s
  | signals, s => expiryStep e fds s
  | tty, s => (expiryStep e fds s).bind (signalStep cfg e fds)
  | accept, s => beforeAccept cfg e fds s
  | autosample, s => (beforeAccept cfg e fds s).bind (acceptStep cfg e fds)
  | clients, s => beforeClients cfg e fds s
  | send, s => (beforeClients cfg e fds s).bind (clientStep cfg e fds)
  | enable, s => ((beforeClients cfg e fds s).bind (clientStep cfg e fds)).bind (sendStep e)

/-- The pieces of an iteration together. -/
def whole (cfg : Setup) (e : Env) (fds : Finset ℕ) (s : State) : Flow State :=
  (beforeClients cfg e fds s).bind (fromClients cfg e fds)

theorem iteration_eq_whole {readable : Finset ℕ} (h : e.select = .returned readable) :
    iteration cfg e s = whole cfg e (tmpfds s readable) s := by
  rw [iteration, h]
  rfl

/-- The pieces one after another. -/
theorem whole_eq :
    whole cfg e fds s =
      (((beforeClients cfg e fds s).bind (clientStep cfg e fds)).bind (sendStep e)).bind
        (enableStep cfg e) := by
  rw [whole]
  cases beforeClients cfg e fds s <;> rfl

/-- One piece more. -/
theorem sofar_bind (k : Piece) :
    (k.sofar cfg e fds s).bind (k.run cfg e fds) =
      k.next.elim (whole cfg e fds s) fun k' => k'.sofar cfg e fds s := by
  cases k with
  | enable => exact whole_eq.symm
  | _ => rfl

/-- Where a piece ends the iteration, the others do nothing. -/
theorem whole_of_over {f : Flow State} (hf : (k.sofar cfg e fds s).bind (k.run cfg e fds) = f)
    (hover : (∃ t, f = .again t) ∨ ∃ t, f = .leave t) : whole cfg e fds s = f := by
  have hdone : ∀ g : State → Flow State, f.bind g = f := by
    intro g
    rcases hover with ⟨t, rfl⟩ | ⟨t, rfl⟩ <;> rfl
  cases k with
  | enable => exact (sofar_bind .enable).symm.trans hf
  | send =>
      rw [whole_eq, show ((beforeClients cfg e fds s).bind (clientStep cfg e fds)).bind
        (sendStep e) = f from hf, hdone]
  | clients =>
      rw [whole_eq, show (beforeClients cfg e fds s).bind (clientStep cfg e fds) = f from hf,
        hdone, hdone]
  | autosample =>
      rw [whole, show beforeClients cfg e fds s = f from hf, hdone]
  | accept =>
      rw [whole, beforeClients,
        show (beforeAccept cfg e fds s).bind (acceptStep cfg e fds) = f from hf, hdone, hdone]
  | tty =>
      rw [whole, beforeClients, show beforeAccept cfg e fds s = f from hf, hdone, hdone, hdone]
  | signals =>
      rw [whole, beforeClients, beforeAccept,
        show (expiryStep e fds s).bind (signalStep cfg e fds) = f from hf, hdone, hdone, hdone,
        hdone]
  | expiry =>
      rw [whole, beforeClients, beforeAccept, show expiryStep e fds s = f from hf, hdone, hdone,
        hdone, hdone, hdone]

end Piece

/-! ## Where the state of a call comes from -/

/-- Any run. -/
abbrev Anyhow (_ : State) (_ : Env) : Prop := True

/-- **The state of a call is one of the loop's.** -/
def Located (cfg : Setup) (c : Call) : Prop :=
  match c.point with
  | .head | .leaving => Reachable cfg Anyhow c.state
  | .before k e fds =>
    ∃ s readable, Reachable cfg Anyhow s ∧ s.returnValue = 0 ∧ e.Fresh cfg s ∧
      e.select = .returned readable ∧ fds = tmpfds s readable ∧
      k.sofar cfg e fds s = .next c.state
  | .returned _ => True

/-- One iteration more. -/
theorem Reachable.step (h : Reachable cfg Anyhow s) (hfresh : e.Fresh cfg s)
    (hret : s.returnValue = 0) (ht : (iteration cfg e s).result = some t) :
    Reachable cfg Anyhow t := by
  obtain ⟨staleTty, stalePipe, hr⟩ := h
  refine ⟨staleTty, stalePipe, hr.tail ⟨e, ⟨hfresh, trivial⟩, ?_⟩⟩
  rw [loopStep, if_pos hret, ht]

theorem Located.callHead (h : Reachable cfg Anyhow c.state) (hpoint : c.point = .head)
    (hfresh : e.Fresh cfg c.state) : Located cfg (callHead e c) := by
  unfold Daemon.callHead
  split
  · rename_i hret
    split
    · rename_i hselect
      refine h.step hfresh hret ?_
      rw [iteration, hselect]
      rfl
    · rw [Located, hpoint]
      exact h
    · rename_i readable hselect
      exact ⟨c.state, readable, h, hret, hfresh, hselect, rfl, rfl⟩
  · exact h

/-- What a call leaves a piece with, when it was located before. -/
theorem Located.callAfter {readable : Finset ℕ} {d : Call} (hs : Reachable cfg Anyhow s)
    (hret : s.returnValue = 0) (hfresh : e.Fresh cfg s) (hselect : e.select = .returned readable)
    (hsofar : k.sofar cfg e (tmpfds s readable) s = .next u)
    (h : Daemon.callAfter k e (tmpfds s readable) d (k.run cfg e (tmpfds s readable) u) = some c') :
    Located cfg c' := by
  have hbind : (k.sofar cfg e (tmpfds s readable) s).bind (k.run cfg e (tmpfds s readable)) =
      k.next.elim (Piece.whole cfg e (tmpfds s readable) s)
        fun k' => k'.sofar cfg e (tmpfds s readable) s := Piece.sofar_bind k
  rw [hsofar, Flow.bind_next] at hbind
  -- a piece that ends the iteration leaves what the iteration ends in
  have hover : ∀ f, k.run cfg e (tmpfds s readable) u = f →
      ((∃ t, f = .again t) ∨ ∃ t, f = .leave t) → ∀ t, f.result = some t →
      Reachable cfg Anyhow t := by
    intro f hf hf' t ht
    refine hs.step hfresh hret ?_
    rw [Piece.iteration_eq_whole hselect, Piece.whole_of_over (k := k) (f := f) ?_ hf', ht]
    rw [hsofar, Flow.bind_next, hf]
  cases hrun : k.run cfg e (tmpfds s readable) u with
  | next t =>
      rw [hrun] at h hbind
      cases h
      cases hk : k.next with
      | some k' =>
          rw [hk] at hbind
          exact ⟨s, readable, hs, hret, hfresh, hselect, rfl, hbind.symm⟩
      | none =>
          rw [hk] at hbind
          refine hs.step hfresh hret (t := t) ?_
          rw [Piece.iteration_eq_whole hselect]
          exact congrArg Flow.result hbind.symm
  | again t =>
      rw [hrun] at h
      cases h
      exact hover _ hrun (.inl ⟨t, rfl⟩) t rfl
  | leave t =>
      rw [hrun] at h
      cases h
      exact hover _ hrun (.inr ⟨t, rfl⟩) t rfl
  | hang =>
      rw [hrun] at h
      cases h

/-- **One step of a call keeps it located.** -/
theorem callStep_located {a : CallAct} (hkernel : c.Kernel cfg a) (hc : Located cfg c)
    (h : callStep cfg a c = some c') : Located cfg c' := by
  cases a with
  | arrives sig =>
      cases hpoint : c.point <;> simp only [callStep, hpoint] at h <;> cases h <;>
        · rw [Located, hpoint] at hc
          exact hc
  | goesOn e' =>
      cases hpoint : c.point with
      | head =>
          simp only [callStep, hpoint] at h
          cases h
          rw [Located, hpoint] at hc
          exact .callHead hc hpoint (hkernel (by rw [hpoint]; rfl)).1
      | leaving =>
          simp only [callStep, hpoint] at h
          cases h
          trivial
      | returned ret => simp only [callStep, hpoint] at h; cases h
      | before k e fds =>
          simp only [callStep, hpoint] at h
          rw [Located, hpoint] at hc
          obtain ⟨s, readable, hs, hret, hfresh, hselect, rfl, hsofar⟩ := hc
          rw [callPiece] at h
          split at h
          · -- only this piece reads the signals of the inputs
            subst k
            exact .callAfter (e := { e with signals := c.pipe.getD [] }) (k := .signals) hs hret
              hfresh hselect hsofar h
          · exact .callAfter hs hret hfresh hselect hsofar h

end Daemon

end Realraum
