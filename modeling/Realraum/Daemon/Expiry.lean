import Realraum.Daemon.Helpers.Dispatching
import Realraum.Daemon.Helpers.Replay
import Realraum.Daemon.Helpers.Turn
/-!
# When an unanswered command is given up

A command that was sent is dropped two seconds later, but only `if(!ret)`:
in an iteration in which `select` finds nothing ready. One that finds
anything keeps an overdue head unless a firmware line happens to arrive,
so clients that keep talking keep the queue where it is.
-/

namespace Realraum

namespace Daemon

variable {cfg : Setup} {A : State → Env → Prop} {s t u v w : State} {e : Env}

/-- **The head of the queue is overdue**: it was sent more than two
seconds before the iteration's `select` returned, and no reply popped
it. -/
def Overdue (e : Env) (q : List Cmd) : Prop :=
  ∃ c ∈ q.head?, c.sent = true ∧ cmdHasExpired c e.selectAt = true

instance (e : Env) (q : List Cmd) : Decidable (Overdue e q) :=
  inferInstanceAs (Decidable (∃ c ∈ q.head?, _))

/-! ## Time -/

theorem Timeval.cmpLt_iff (a b : Timeval) : a.cmpLt b = true ↔ a.micros < b.micros := by
  have ha := a.usec_lt
  have hb := b.usec_lt
  unfold Timeval.cmpLt Timeval.micros
  split
  · rename_i hsec
    rw [hsec, decide_eq_true_eq]
    omega
  · rename_i hsec
    rw [decide_eq_true_eq]
    omega

/-- `cmd_has_expired`, in microseconds. -/
theorem cmdHasExpired_iff (c : Cmd) (now : Timeval) :
    cmdHasExpired c now = true ↔ c.tvStart.micros + 2000000 < now.micros := by
  rw [cmdHasExpired, Timeval.cmpLt_iff]
  simp only [Timeval.micros, Timeval.addSec]
  omega

/-- A command sent in an iteration is not overdue in it. -/
theorem not_expired_cmdSent (c : Cmd) : cmdHasExpired (cmdSent c e.sentAt) e.selectAt = false := by
  have hclock := e.clock
  rw [← Bool.not_eq_true, cmdHasExpired_iff]
  show ¬ e.sentAt.micros + 2000000 < e.selectAt.micros
  omega

/-! ## The head through an iteration -/

/-- An unsent head is not overdue. -/
theorem not_overdue_of_unsent {q : List Cmd} (h : ∀ c ∈ q.head?, c.sent = false) :
    ¬ Overdue e q := by
  rintro ⟨c, hc, hsent, -⟩
  rw [h c hc] at hsent
  cases hsent

theorem Grows.overdue_iff (h : Grows u v) : Overdue e v.cmdQ ↔ Overdue e u.cmdQ := by
  obtain ⟨new, hq, hnew⟩ := h.queue
  rw [hq]
  cases hu : u.cmdQ with
  | nil =>
      have hleft : ¬ Overdue e ([] ++ new) := not_overdue_of_unsent fun c hc =>
        (hnew c (List.mem_of_mem_head? hc)).1
      have hright : ¬ Overdue e [] := by rintro ⟨c, hc, -⟩; cases hc
      exact iff_of_false hleft hright
  | cons c q => rfl

/-- The send step makes no head overdue and no overdue head anything
else. -/
theorem Sending.overdue_iff (h : Sending e v w) : Overdue e w.cmdQ ↔ Overdue e v.cmdQ := by
  cases h with
  | @wrote c q bytes hq hsent hbytes hq' hside =>
      have hbefore : ¬ Overdue e v.cmdQ := not_overdue_of_unsent fun d hd => by
        rw [hq] at hd
        cases hd
        exact hsent
      refine iff_of_false ?_ hbefore
      rintro ⟨d, hd, -, hexp⟩
      rw [hq'] at hd
      cases hd
      rw [not_expired_cmdSent] at hexp
      cases hexp
  | rest hw hhead => rw [hw]

/-- **What becomes of the head in the first phase.** -/
theorem Popped.overdue_iff (h : Popped cfg e s u) (htail : ∀ c ∈ s.cmdQ.tail, c.sent = false) :
    ¬ Overdue e u.cmdQ ↔ (Overdue e s.cmdQ → TimesOut e s ∨ TakesLine cfg e s) := by
  have hgone : u.cmdQ = s.cmdQ.tail → ¬ Overdue e u.cmdQ := fun hq =>
    not_overdue_of_unsent fun c hc => htail c (List.mem_of_mem_head? (hq ▸ hc))
  cases h with
  | expired hout hexp hq hside => exact iff_of_true (hgone hq) fun _ => .inl hout
  | line hline hq hside => exact iff_of_true (hgone hq) fun _ => .inr hline
  | kept hline hout hq hside =>
      rw [hq]
      exact imp_congr_right fun _ => (or_iff_right hout |>.trans (iff_of_false hline id)).symm

/-- An iteration that does nothing finds no overdue head at a timeout. -/
theorem overdue_iff_of_idle (hcause : e.select.ended = false ∨
      TimesOut e s ∧ ∀ c ∈ s.cmdQ.head?, cmdHasExpired c e.now = false) :
    ¬ Overdue e s.cmdQ ↔ (Overdue e s.cmdQ → TimesOut e s ∨ TakesLine cfg e s) := by
  rcases hcause with hended | ⟨hout, hexp⟩
  · -- `select` was interrupted: neither of the two can be
    have hfds : e.fds s = ∅ := by
      cases hselect : e.select with
      | returned readable =>
          rw [hselect] at hended
          cases hended
      | failed => rw [Env.fds, hselect]
      | interrupted => rw [Env.fds, hselect]
    have hout : ¬ TimesOut e s := fun hout => by
      rw [hout.1] at hended
      cases hended
    have hline : ¬ TakesLine cfg e s := fun hline => by
      have hready := hline.1
      rw [hfds] at hready
      exact absurd hready (Finset.notMem_empty _)
    exact imp_congr_right fun _ => (or_iff_right hout |>.trans (iff_of_false hline id)).symm
  · -- a timeout that found no expired head, by a clock that is later than `selectAt`
    refine iff_of_true ?_ fun _ => .inl hout
    rintro ⟨c, hc, -, hover⟩
    have hlate := (cmdHasExpired_iff c e.selectAt).mp hover
    have hnow : cmdHasExpired c e.now = true :=
      (cmdHasExpired_iff c e.now).mpr (hlate.trans_le e.clock.1)
    rw [hexp c hc] at hnow
    cases hnow

/-- **When no head is overdue.** An iteration of a run ends with a head
that is not overdue just in case a head that was overdue met a timeout or
a firmware line. -/
theorem not_overdue_iff (h : Reachable cfg A s) (hfresh : e.Fresh cfg s)
    (hstep : loopStep cfg e s = some t) :
    ¬ Overdue e t.cmdQ ↔ (Overdue e s.cmdQ → TimesOut e s ∨ TakesLine cfg e s) := by
  have hpopped : ∀ {u}, Popped cfg e s u → (¬ Overdue e u.cmdQ ↔
      (Overdue e s.cmdQ → TimesOut e s ∨ TakesLine cfg e s)) :=
    fun hpop => hpop.overdue_iff h.tail_unsent
  cases iteration_turn h.inv h.framed hfresh (result_of_loopStep hstep) with
  | idle ht hcause =>
      rw [ht]
      exact overdue_iff_of_idle hcause
  | ended hpop hgrow hret => rw [hgrow.overdue_iff]; exact hpopped hpop
  | hangup hpop hstill hpipe => rw [hstill.1]; exact hpopped hpop
  | whole hpop hgrow hsend hend =>
      rw [hend.1, hsend.overdue_iff, hgrow.overdue_iff]
      exact hpopped hpop

/-- A command written a second after the epoch is gone after the first
timeout nine seconds later. -/
theorem not_overdue_iff_timeout :
    ∃ s t, Reachable Setup.sample (fun _ _ => True) s ∧
      loopStep .sample (.idle 10) s = some t ∧ Overdue (.idle 10) s.cmdQ ∧
      ¬ Overdue (.idle 10) t.cmdQ := by
  obtain ⟨s, hs, hp⟩ := reachable_of_replay .sample (fun _ _ => True)
    [.connect .sample 7 0, .command 7 "power on lamp" 1]
    (fun s => Overdue (.idle 10) s.cmdQ ∧ (Env.idle 10).Fresh .sample s ∧
      TimesOut (.idle 10) s ∧ (loopStep .sample (.idle 10) s).isSome) (by decide)
  obtain ⟨hover, hfresh, hout, hstep⟩ := of_decide_eq_true hp
  obtain ⟨t, ht⟩ := Option.isSome_iff_exists.mp hstep
  exact ⟨s, t, hs, ht, hover, (not_overdue_iff hs hfresh ht).mpr fun _ => .inl hout⟩

/-- **A talking client keeps an overdue head.** The firmware never
answers the command written a second after the epoch, and nine seconds
later another client sends a line: the iteration ends with that command
still at the head. -/
theorem not_overdue_fails :
    ∃ s t, Reachable Setup.sample (fun _ _ => True) s ∧
      loopStep .sample (.command 8 "log hello" 10) s = some t ∧ t.returnValue = 0 ∧
      Overdue (.command 8 "log hello" 10) t.cmdQ := by
  obtain ⟨s, hs, hp⟩ := reachable_of_replay .sample (fun _ _ => True)
    [.connect .sample 7 0, .connect .sample 8 0, .command 7 "power on lamp" 1]
    (fun s => (loopStep .sample (.command 8 "log hello" 10) s).any fun t =>
      t.returnValue = 0 ∧ Overdue (.command 8 "log hello" 10) t.cmdQ) (by decide)
  obtain ⟨t, ht, hend⟩ := (Option.any_eq_true _ _).mp hp
  obtain ⟨hret, hover⟩ := of_decide_eq_true hend
  exact ⟨s, t, hs, ht, hret, hover⟩

end Daemon

end Realraum
