import Realraum.Daemon.Helpers.Dispatching
import Realraum.Daemon.Helpers.Replay
import Realraum.Daemon.Helpers.Turn
import Realraum.Daemon.Writes
/-!
# Commands that are never sent

`cmd_push` leaves `tv_start` at zero, so a command that was not sent looks
expired at once. What keeps a valid one alive is that the iteration which
brings it to the head also sends it. One way through the iteration does
not get there: the end of the autosample pipe is a `continue` between the
pop and the send step.
-/

namespace Realraum

namespace Daemon

variable {cfg : Setup} {s t u v w : State} {e : Env} {es tr : List Event} {r : Request}

/-- **A value is configured for the request**, and not the empty one. -/
def Request.Valid (r : Request) : Prop := ∃ v ∈ r.param, v ≠ []

instance (r : Request) : Decidable r.Valid :=
  inferInstanceAs (Decidable (∃ v ∈ r.param, v ≠ []))

/-- The iteration's write to the tty does not fail, where it makes
one. -/
def WritesTty (e : Env) : Prop := writeLoop e.ttyWrites ≠ some .failed

instance (e : Env) : Decidable (WritesTty e) :=
  inferInstanceAs (Decidable (_ ≠ _))

/-- **A valid command comes forward and is not sent**: the iteration takes
a firmware line, finds the end of the pipe from the child, and the second
command in the queue is valid. -/
def SkipsSend (cfg : Setup) (s : State) (e : Env) : Prop :=
  TakesLine cfg e s ∧ LosesPipe cfg e s ∧ ∃ c ∈ s.cmdQ.tail.head?, c.Valid

instance (cfg : Setup) (s : State) (e : Env) : Decidable (SkipsSend cfg s e) :=
  inferInstanceAs (Decidable (_ ∧ _))

/-- **No valid command is lost**: each is in the queue or was written
before it was popped, and none was popped unsent, by the expiry branch or
by a firmware line. -/
structure ValidSent (s : State) : Prop where
  queued_or_written : ∀ r, .push r ∈ s.trace → r.Valid → (∃ c ∈ s.cmdQ, c.toRequest = r) ∨
    ∃ past expired rest bytes, s.trace = past ++ .pop r true expired :: rest ∧
      .write r bytes ∈ past
  not_dropped : ∀ r expired, .pop r false expired ∈ s.trace → ¬ r.Valid

/-! ## What is popped unsent -/

/-- `r` was popped unsent. -/
def Dropped (tr : List Event) (r : Request) : Prop := ∃ expired, .pop r false expired ∈ tr

theorem dropped_append : Dropped (tr ++ es) r ↔ Dropped tr r ∨ Dropped es r := by
  simp only [Dropped, List.mem_append, exists_or]

theorem dropped_ttySide : Dropped (ttySide tr) r ↔ Dropped tr r := by
  simp [Dropped, ttySide, Event.onTtySide]

/-- Nothing is popped by reading. -/
theorem TtyReads.not_dropped (h : TtyReads e es) : ¬ Dropped es r := by
  rintro ⟨expired, hx⟩
  obtain ⟨i, b, heq⟩ := h.1 _ hx
  cases heq

/-- The head is popped unsent only where it is unsent. -/
theorem dropped_popEvents {q : List Cmd} {expired : Bool} (h : Dropped (popEvents q expired) r) :
    ∃ c ∈ q.head?, c.toRequest = r ∧ c.sent = false := by
  obtain ⟨expired', hx⟩ := h
  obtain ⟨c, hc, heq⟩ := List.mem_map.mp hx
  injection heq with hr hsent
  exact ⟨c, Option.mem_toList.mp hc, hr, hsent⟩

theorem dropped_lineEvents {opt : Options} {line : CStr} (h : Dropped (lineEvents opt s line) r) :
    ∃ c ∈ s.cmdQ.head?, c.toRequest = r ∧ c.sent = false := by
  obtain ⟨expired, hx⟩ := h
  rcases List.mem_cons.mp hx with heq | hx
  · cases heq
  · rcases List.mem_append.mp hx with hx | hx
    · obtain ⟨c, -, heq⟩ := List.mem_map.mp hx
      cases heq
    · exact dropped_popEvents ⟨expired, hx⟩

/-- Requests that join the queue drop none. -/
theorem Grows.dropped (h : Grows u v) : Dropped v.trace r ↔ Dropped u.trace r := by
  rw [← dropped_ttySide, h.side, dropped_ttySide]

/-- The first phase drops the head of the queue, where it is unsent, and
nothing else. -/
theorem Popped.dropped (h : Popped cfg e s u) (hr : Dropped u.trace r) :
    Dropped s.trace r ∨ ∃ c ∈ s.cmdQ.head?, c.toRequest = r ∧ c.sent = false := by
  rw [← dropped_ttySide] at hr
  rw [← dropped_ttySide]
  cases h with
  | expired hout hexp hq hside =>
      rw [hside, dropped_append] at hr
      exact hr.imp_right dropped_popEvents
  | line hline hq hside =>
      obtain ⟨es, hes, hside⟩ := hside
      rw [hside, dropped_append, dropped_append, or_iff_left hes.not_dropped] at hr
      exact hr.imp_right dropped_lineEvents
  | kept hline hout hq hside =>
      obtain ⟨es, hes, hside⟩ := hside
      rw [hside, dropped_append, or_iff_left hes.not_dropped] at hr
      exact .inl hr

/-! ## The invariant -/

/-- The queue holds commands that can be written, and no valid one was
popped unsent. -/
structure Orderly (s : State) : Prop where
  queue : ∀ c ∈ s.cmdQ, c.cmd ≠ .log ∧ c.cmd ≠ .listen
  drops : ∀ r, Dropped s.trace r → ¬ r.Valid

/-- And where the loop goes on, a valid head was sent. -/
structure Prompt (s : State) : Prop extends Orderly s where
  head : s.returnValue = 0 → ∀ c ∈ s.cmdQ.head?, c.Valid → c.sent = true

theorem Prompt.entry (staleTty stalePipe : ℕ → UInt8) : Prompt (entry cfg staleTty stalePipe) where
  queue c hc := (List.not_mem_nil hc).elim
  drops r hr := by
    obtain ⟨expired, hx⟩ := hr
    cases hx
  head _ c hc := by cases hc

theorem Popped.orderly (h : Popped cfg e s u) (hs : Prompt s) (hret : s.returnValue = 0) :
    Orderly u where
  queue c hc := by
    refine hs.queue c ?_
    cases h with
    | expired hout hexp hq hside => exact List.mem_of_mem_tail (hq ▸ hc)
    | line hline hq hside => exact List.mem_of_mem_tail (hq ▸ hc)
    | kept hline hout hq hside => exact hq ▸ hc
  drops r hr hvalid := by
    rcases h.dropped hr with hr | ⟨c, hc, rfl, hsent⟩
    · exact hs.drops r hr hvalid
    · rw [hs.head hret c hc hvalid] at hsent
      cases hsent

theorem Grows.orderly (h : Grows u v) (hu : Orderly u) : Orderly v where
  queue c hc := by
    obtain ⟨new, hq, hnew⟩ := h.queue
    rw [hq] at hc
    exact (List.mem_append.mp hc).elim (hu.queue c) fun hc => (hnew c hc).2
  drops r hr := hu.drops r (h.dropped.mp hr)

theorem Sending.orderly (h : Sending e v w) (hv : Orderly v) : Orderly w := by
  cases h with
  | @wrote c q bytes hq hsent hbytes hq' hside =>
      constructor
      · intro d hd
        rw [hq'] at hd
        rcases List.mem_cons.mp hd with rfl | hd
        · exact hv.queue c (hq ▸ List.mem_cons_self)
        · exact hv.queue d (hq ▸ List.mem_cons_of_mem _ hd)
      · intro r hr
        rw [← dropped_ttySide, hside, dropped_append, dropped_ttySide] at hr
        refine hv.drops r (hr.resolve_right ?_)
        simp [Dropped]
  | rest hw hhead => rwa [hw]

/-- `send_command` leaves a valid command unsent only where the write
fails. -/
theorem writeLoop_of_not_wrote {c : Cmd} {xs : List WriteResult} (hvalid : c.Valid)
    (hid : c.cmd ≠ .log ∧ c.cmd ≠ .listen)
    (h : sendCommand c xs = .skipped ∨ sendCommand c xs = .failed) :
    writeLoop xs = some .failed := by
  obtain ⟨param, hparam, -⟩ := hvalid
  have hparam : c.param = some param := hparam
  have hintr := writeLoop_ne_interrupted xs
  unfold sendCommand at h
  split at h
  · rename_i hnone
    rw [hparam] at hnone
    cases hnone
  · rename_i hlog
    exact absurd hlog hid.1
  · rename_i hlisten
    exact absurd hlisten hid.2
  · cases hx : writeLoop xs with
    | none => simp [hx] at h
    | some x =>
        cases x with
        | accepted n => simp [hx] at h
        | interrupted => exact absurd hx hintr
        | failed => rfl

/-- **The send step sends a valid head.** -/
theorem Sending.head (h : Sending e v w) (hwrites : WritesTty e) (hv : Orderly v) :
    ∀ c ∈ w.cmdQ.head?, c.Valid → c.sent = true := by
  intro c hc hvalid
  cases h with
  | wrote hq hsent hbytes hq' hside =>
      rw [hq'] at hc
      cases hc
      rfl
  | rest hw hhead =>
      rw [hw] at hc
      by_contra hsent
      refine hwrites (writeLoop_of_not_wrote hvalid (hv.queue c (List.mem_of_mem_head? hc)) ?_)
      exact hhead c hc (by simpa using hsent)

/-- **A hangup leaves no valid command unsent at the head**, unless a
firmware line brought it there. -/
theorem Popped.head_of_losesPipe (h : Popped cfg e s u) (hpipe : LosesPipe cfg e s)
    (hskip : ¬ SkipsSend cfg s e) (hs : Prompt s) (hret : s.returnValue = 0) :
    ∀ c ∈ u.cmdQ.head?, c.Valid → c.sent = true := by
  intro c hc hvalid
  cases h with
  | expired hout hexp hq hside =>
      obtain ⟨a, -, ha⟩ := hpipe.1
      rw [hout.2] at ha
      exact absurd ha (Finset.notMem_empty _)
  | line hline hq hside =>
      rw [hq] at hc
      exact absurd ⟨hline, hpipe, c, hc, hvalid⟩ hskip
  | kept hline hout hq hside =>
      rw [hq] at hc
      exact hs.head hret c hc hvalid

theorem Still.prompt (h : Still u t) (hu : Orderly u)
    (hhead : ∀ c ∈ u.cmdQ.head?, c.Valid → c.sent = true) : Prompt t :=
  { h.grows.orderly hu with head := fun _ => by rw [h.1]; exact hhead }

/-- **Every iteration keeps the invariant.** -/
theorem Turn.prompt (h : Turn cfg e s t) (hwrites : WritesTty e) (hskip : ¬ SkipsSend cfg s e)
    (hs : Prompt s) (hret : s.returnValue = 0) : Prompt t := by
  cases h with
  | idle ht hcause => rwa [ht]
  | ended hpop hgrow hend =>
      -- the loop is over: the head may stay unsent
      exact { hgrow.orderly (hpop.orderly hs hret) with head := fun h => absurd h hend }
  | hangup hpop hstill hpipe =>
      exact hstill.prompt (hpop.orderly hs hret) (hpop.head_of_losesPipe hpipe hskip hs hret)
  | whole hpop hgrow hsend hend =>
      have hv := hgrow.orderly (hpop.orderly hs hret)
      exact hend.prompt (hsend.orderly hv) (hsend.head hwrites hv)

theorem Reachable.prompt
    (h : Reachable cfg (fun s e => WritesTty e ∧ ¬ SkipsSend cfg s e) s) : Prompt s := by
  obtain ⟨staleTty, stalePipe, hr⟩ := h
  refine hr.invariant (Prompt.entry staleTty stalePipe) fun u e v hu hprompt hA hv => ?_
  have hreach : Reachable cfg _ u := ⟨_, _, hu⟩
  exact (iteration_turn hreach.inv hreach.framed hA.1 (result_of_loopStep hv)).prompt hA.2.1 hA.2.2
    hprompt (returnValue_of_loopStep hv)

/-- **No valid command is lost**, while no iteration that loses the pipe
brings one forward. -/
theorem valid_sent (h : Reachable cfg (fun s e => WritesTty e ∧ ¬ SkipsSend cfg s e) s) :
    ValidSent s := by
  have hdrops := h.prompt.drops
  refine ⟨fun r hr hvalid => ?_, fun r expired hr => hdrops r ⟨expired, hr⟩⟩
  have hpush : r ∈ Dispatch.pushes (acts s.trace) :=
    Dispatch.mem_pushes.mpr (push_mem_acts.mpr hr)
  rw [h.dispatch.pushes_eq] at hpush
  rcases List.mem_append.mp hpush with hpop | hqueued
  · obtain ⟨sent, hpop⟩ := Dispatch.mem_pops.mp hpop
    obtain ⟨expired, hpop⟩ := pop_mem_acts.mp hpop
    cases sent with
    | false => exact absurd hvalid (hdrops r ⟨expired, hpop⟩)
    | true =>
        obtain ⟨past, rest, htrace⟩ := List.append_of_mem hpop
        have hd := h.dispatch
        rw [htrace, acts_append, acts_cons] at hd
        obtain ⟨bytes, hwrite⟩ := write_mem_acts.mp (Dispatch.mem_writes.mp hd.write_of_pop)
        exact .inr ⟨past, expired, rest, bytes, htrace, hwrite⟩
  · rw [entries, List.map_map] at hqueued
    obtain ⟨c, hc, rfl⟩ := List.mem_map.mp hqueued
    exact .inl ⟨c, hc, rfl⟩

/-- The child closes its end of the pipe, and the firmware answers in the
same iteration. -/
def Env.okAndHangup (sec : ℕ) : Env :=
  { Env.firmware .sampling "Ok" sec with
    select := .returned {3, 6}
    autosample := ⟨[], .eof, .plenty⟩ }

/-- With one command in the queue, the same iteration loses nothing. -/
theorem valid_sent_hangup :
    ∃ s, Reachable Setup.sampling (fun s e => WritesTty e ∧ ¬ SkipsSend .sampling s e) s ∧
      .hangup ∈ s.trace ∧ ValidSent s := by
  obtain ⟨s, hs, hp⟩ := reachable_of_replay .sampling
    (fun s e => WritesTty e ∧ ¬ SkipsSend .sampling s e)
    [.connect .sampling 7 0, .command 7 "power on lamp" 1, .okAndHangup 1, .idle 10]
    (fun s => .hangup ∈ s.trace) (by decide)
  exact ⟨s, hs, of_decide_eq_true hp, valid_sent hs⟩

/-- The second request of a client, for the fan. -/
def fanRequest : Request := ⟨1, .client 0, 7, .powerOn, some (ascii "c")⟩

/-- **A valid command is popped unsent.** Two commands are queued. The
firmware answers the first in the iteration that finds the pipe closed,
so the second is at the head and not sent; the next timeout takes it for
expired. -/
theorem valid_sent_fails :
    ∃ s, Reachable Setup.sampling (fun _ e => WritesTty e) s ∧ s.returnValue = 0 ∧
      fanRequest.Valid ∧ .push fanRequest ∈ s.trace ∧ .pop fanRequest false true ∈ s.trace ∧
      (∀ bytes, .write fanRequest bytes ∉ s.trace) ∧ ¬ ValidSent s := by
  obtain ⟨s, hs, hp⟩ := reachable_of_replay .sampling (fun _ e => WritesTty e)
    [.connect .sampling 7 0, .command 7 "power on lamp" 1, .command 7 "power on fan" 1,
      .okAndHangup 1, .idle 10]
    (fun s => s.returnValue = 0 ∧ .push fanRequest ∈ s.trace ∧
      .pop fanRequest false true ∈ s.trace ∧ .write fanRequest ∉ acts s.trace) (by decide)
  obtain ⟨hret, hpush, hpop, hwrite⟩ := of_decide_eq_true hp
  have hvalid : fanRequest.Valid := by decide
  exact ⟨s, hs, hret, hvalid, hpush, hpop,
    fun bytes hmem => hwrite (write_mem_acts.mpr ⟨bytes, hmem⟩),
    fun hall => hall.not_dropped _ _ hpop hvalid⟩

end Daemon

end Realraum
