import Realraum.Daemon.Helpers.Iteration
import Mathlib.Data.List.Range
/-!
# Helpers — the command queue is a dispatcher

Every effect of an iteration is nothing to the queue or one action of the
abstract dispatcher (`Effect.act`), so a run's history is a trace of it
(`Reachable.dispatch`), and what a dispatcher guarantees holds of the
daemon. `serial` tells apart commands that say the same.
-/

namespace Realraum

namespace Daemon

open Dispatch

variable {cfg : Setup} {G : State → ℕ → Bool → Prop} {A : State → Env → Prop} {s t : State}

/-- Nothing happened to the queue. -/
def Untouched (s t : State) : Prop :=
  acts t.trace = acts s.trace ∧ t.cmdQ = s.cmdQ

/-- One action of the dispatcher happened to it, and what was pushed is
new and was read where it says. -/
def Acted (cfg : Setup) (s t : State) : Prop :=
  ∃ x, acts t.trace = acts s.trace ++ [x] ∧ Move (entries s.cmdQ) x (entries t.cmdQ) ∧
    ∀ r, x = .push r → r.serial = s.pushed ∧ s.Feeds cfg r.port r.fd

theorem Heard.act (h : Heard cfg s t) : Untouched s t ∨ Acted cfg s t := by
  cases h with
  | @read p fd xs x b es hp hne h hx =>
      obtain rfl : es = (readLoop p (s.buffer p) xs).2.2 := by rw [h]
      exact .inl ⟨by simp [acts_readLoop], by simp⟩
  | @line p fd xs b es hp hne h =>
      obtain rfl : es = (readLoop p (s.buffer p) xs).2.2 := by rw [h]
      exact .inl ⟨by simp [acts_readLoop], by simp⟩
  | note h => exact .inl ⟨by simp [acts_of_inert h], rfl⟩
  | @push r hp hr hid =>
      refine .inr ⟨.push r, by simp, ?_, ?_⟩
      · simp only [entries, List.map_append, List.map_singleton]
        exact .push _ r
      · rintro r' heq
        cases heq
        exact ⟨hr, hp⟩

theorem Inner.act (h : Inner cfg s t) : Untouched s t ∨ Acted cfg s t := by
  cases h with
  | heard h => exact h.act
  | @ttyRead xs x b es h hx =>
      obtain rfl : es = (readLoop .tty s.ttyBuffer xs).2.2 := by rw [h]
      exact .inl ⟨by simp [acts_readLoop], by simp⟩
  | @ttyLine xs b b' es es' h h' =>
      obtain rfl : es = (readLoop .tty s.ttyBuffer xs).2.2 := by rw [h]
      obtain rfl : es' = (endTtyLine b).2 := by rw [h']
      have hend : acts (endTtyLine b).2 = [] := filterMap_endTtyLine b fun _ => rfl
      exact .inl ⟨by simp [acts_readLoop, hend], by simp⟩
  | answer text =>
      refine .inl ⟨?_, sendAnswer_cmdQ text⟩
      rw [State.sendAnswer]
      split
      · rfl
      · simp
  | pop expired =>
      rw [State.popCmd]
      split
      · exact .inl ⟨rfl, rfl⟩
      · rename_i c q hq
        refine .inr ⟨.pop c.toRequest c.sent, by simp, ?_, fun r h => by cases h⟩
        simp only [entries, cmdPop, hq, List.tail_cons, List.map_cons]
        exact .pop _ _ _
  | @write c q hq hc now bytes =>
      refine .inr ⟨.write c.toRequest, by simp, ?_, fun r h => by cases h⟩
      simp only [entries, hq, List.map_cons, hc, cmdSent]
      exact .write _ _
  | enabled b => exact .inl ⟨rfl, rfl⟩

/-- **What an effect is to the queue**: nothing, or one action of the
dispatcher. -/
theorem Effect.act (h : Effect cfg G s t) : Untouched s t ∨ Acted cfg s t := by
  cases h with
  | inner h => exact h.act
  | accept => exact .inl ⟨by simp [addClient], rfl⟩
  | serve => exact .inl ⟨by simp, rfl⟩
  | close => exact .inl ⟨by simp [dropClient], rfl⟩
  | hangup => exact .inl ⟨by simp, rfl⟩
  | ret => exact .inl ⟨rfl, rfl⟩

/-- **The queue refines the dispatcher**: a run's history is a trace of
it, from the empty queue to the state's. -/
theorem Reachable.dispatch (h : Reachable cfg A s) :
    Dispatch.Runs [] (acts s.trace) (entries s.cmdQ) := by
  refine h.invariant (I := fun u => Dispatch.Runs [] (acts u.trace) (entries u.cmdQ))
    (fun _ _ _ => True) (fun _ _ => .refl) (fun _ _ _ _ _ _ _ _ _ => trivial) fun u v _ hu he => ?_
  rcases he.act with ⟨hacts, hq⟩ | ⟨x, hacts, hmove, -⟩
  · rw [hacts, hq]; exact hu
  · rw [hacts]; exact hu.snoc hmove

/-- Commands are numbered in the order they are pushed in. -/
theorem Reachable.serials (h : Reachable cfg A s) :
    (pushes (acts s.trace)).map Request.serial = List.range s.pushed := by
  refine h.invariant
    (I := fun u => (pushes (acts u.trace)).map Request.serial = List.range u.pushed)
    (fun _ _ _ => True) (fun _ _ => rfl) (fun _ _ _ _ _ _ _ _ _ => trivial) fun u v _ hu he => ?_
  rw [pushed_eq] at hu ⊢
  rcases he.act with ⟨hacts, -⟩ | ⟨x, hacts, -, hpush⟩
  · rw [hacts]; exact hu
  · rw [hacts]
    have happ : pushes (acts u.trace ++ [x]) = pushes (acts u.trace) ++ pushes [x] :=
      List.filterMap_append
    rw [happ, List.map_append, List.length_append, hu]
    cases x with
    | push r =>
        rw [pushed_eq] at hpush
        rw [show pushes [Act.push r] = [r] from rfl, List.length_singleton, List.range_succ,
          List.map_singleton, (hpush r rfl).1]
    | write r => simp [pushes]
    | pop r b => simp [pushes]

/-- No command is pushed twice. -/
theorem Reachable.pushes_nodup (h : Reachable cfg A s) : (pushes (acts s.trace)).Nodup :=
  List.Nodup.of_map _ (h.serials ▸ List.nodup_range)

/-- Every moment of a run's history is a moment of the dispatcher. -/
theorem Reachable.dispatch_prefix (h : Reachable cfg A s) {tr : List Event} (htr : tr <+: s.trace) :
    ∃ q, Dispatch.Runs [] (acts tr) q := by
  obtain ⟨rest, hrest⟩ := htr
  have hd := h.dispatch
  rw [← hrest, acts_append] at hd
  obtain ⟨q, hq, -⟩ := runs_append.mp hd
  exact ⟨q, hq⟩

/-- Only the head of the queue may have been sent. -/
theorem Reachable.tail_unsent (h : Reachable cfg A s) : ∀ c ∈ s.cmdQ.tail, c.sent = false := by
  intro c hc
  have htail := h.dispatch.tail_unwritten
  rw [entries, ← List.map_tail] at htail
  exact htail _ (List.mem_map_of_mem hc)

end Daemon

end Realraum
