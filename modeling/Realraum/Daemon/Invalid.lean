import Realraum.Daemon.Helpers.Pipe
import Realraum.Daemon.Helpers.Turn
import Realraum.Daemon.Helpers.Replay
/-!
# Requests for nothing

`process_cmd` finds in one place that no value is configured for what a
line asks for, and pushes in another place, which does not look back. So
an invalid request waits in the queue like any other, without a value.
Only the allocation of its node can keep it out, and where that fails the
main loop ends, with the commands of all clients.
-/

namespace Realraum

namespace Daemon

variable {cfg : Setup} {s t u v w : State} {e : Env} {fds : Finset ℕ} {p : Port} {fd : ℕ}
variable {opt : Options} {mem : CmdMem} {line : CStr} {id : CmdId} {f : Feed}

/-! ## The call -/

/-- **The line is turned away**: it is answered with the error line, the
queue is as it was, and the loop goes on with the other commands. -/
def TurnsAway (opt : Options) (mem : CmdMem) (p : Port) (fd : ℕ) (line : CStr) (id : CmdId)
    (s : State) : Prop :=
  ∃ es, (processCmd opt mem p fd line s).2.trace = s.trace ++ es ∧
    .respond fd (s.connAt fd) (invalidText id) ∈ es ∧
    (processCmd opt mem p fd line s).2.cmdQ = s.cmdQ ∧ (processCmd opt mem p fd line s).1 = 0

/-- **What an invalid request does**: it is answered, and queued without a
value if there is memory for the node; else the error is returned. -/
theorem processCmd_invalid (mem : CmdMem) (p : Port) (fd : ℕ) (s : State)
    (h : requestOfLine opt line = some (id, none)) :
    (∃ es, (processCmd opt mem p fd line s).2.trace = s.trace ++ es ∧
      .respond fd (s.connAt fd) (invalidText id) ∈ es) ∧
    ∃ c : Cmd, c.param = none ∧
      (processCmd opt mem p fd line s).2.cmdQ =
        (if mem.malloc then s.cmdQ ++ [c] else s.cmdQ) ∧
      (processCmd opt mem p fd line s).1 = if mem.malloc then 0 else -2 := by
  obtain ⟨hnone, -⟩ | ⟨id', cmd, es, hline, -, heq⟩ := processCmd_cases opt mem p fd line s
  · rw [hnone] at h
    cases h
  · rw [hline] at h
    obtain ⟨rfl, hvalue⟩ := Prod.mk.inj (Option.some.inj h)
    have hnote : .respond fd (s.connAt fd) (invalidText id') ∈
        requestNotes opt mem fd id' cmd (s.log es) := by
      simp [requestNotes, hvalue]
    rw [heq, processRequest_eq, hvalue]
    simp only [Option.isNone_none, Bool.or_true, Bool.and_true]
    refine ⟨?_, { requestOf opt p fd id' cmd (s.log es) with sent := false, tvStart := .zero },
      hvalue, ?_, ?_⟩
    · split
      · exact ⟨es ++ requestNotes opt mem fd id' cmd (s.log es) ++
          [.push (requestOf opt p fd id' cmd (s.log es))], by simp, by simp [hnote]⟩
      · exact ⟨es ++ requestNotes opt mem fd id' cmd (s.log es), by simp, by simp [hnote]⟩
    · split <;> rfl
    · split <;> rfl

/-- **No invalid request is turned away**: with memory it is queued, and
without it the loop ends. -/
theorem not_turnsAway (h : requestOfLine opt line = some (id, none)) :
    ¬ TurnsAway opt mem p fd line id s := by
  obtain ⟨-, c, -, hq, hret⟩ := processCmd_invalid mem p fd s h
  rintro ⟨-, -, -, hkept, hzero⟩
  rw [hkept] at hq
  rw [hzero] at hret
  cases hm : mem.malloc with
  | false => simp [hm] at hret
  | true => simp [hm] at hq

/-! ## Runs -/

/-- The call reads an invalid request: it completes a line that nothing is
found for. -/
def ReadsInvalid (opt : Options) (b : ReadBuffer) (f : Feed) : Prop :=
  Completes b f.bytes ∧
    ∃ id, requestOfLine opt (cstring (b.contents ++ f.bytes.takeWhile (· ≠ linefeed))) =
      some (id, none)

instance (opt : Options) (b : ReadBuffer) (f : Feed) : Decidable (ReadsInvalid opt b f) :=
  decidable_of_iff (Completes b f.bytes ∧
    (requestOfLine opt (cstring (b.contents ++ f.bytes.takeWhile (· ≠ linefeed)))).any
      fun r => r.2 = none) <| by
    refine and_congr_right fun _ => ?_
    rcases requestOfLine opt (cstring (b.contents ++ f.bytes.takeWhile (· ≠ linefeed)))
      with - | ⟨id, v⟩ <;> simp

/-- **No call of the iteration reads an invalid request**, on the pipe or
on a client, where they are ready. -/
def ReadsValid (cfg : Setup) (s : State) (e : Env) : Prop :=
  (∀ a ∈ cfg.autosample, a.writeFd ∈ e.fds s →
    ¬ ReadsInvalid cfg.opt s.autosampleBuffer e.autosample) ∧
  (beforeClients cfg e (e.fds s) s).Sat (fun u => ∀ c ∈ u.clientLst, c.fd ∈ e.fds s →
    ¬ ReadsInvalid cfg.opt c.buffer (e.clients c.fd)) fun _ => True

instance (cfg : Setup) (s : State) (e : Env) : Decidable (ReadsValid cfg s e) :=
  inferInstanceAs (Decidable (_ ∧ _))

/-- **The queue is for valid requests**: no entry is without a value, and
no such request was answered with a firmware line. -/
structure OnlyValid (s : State) : Prop where
  queue : ∀ c ∈ s.cmdQ, c.param ≠ none
  answers : ∀ r conn text, .answer r conn text ∈ s.trace → r.param ≠ none

/-- Every entry of the queue has a value. -/
def Valued (s : State) : Prop := ∀ c ∈ s.cmdQ, c.param ≠ none

theorem Valued.of_subset (h : Valued s) (hq : t.cmdQ ⊆ s.cmdQ) : Valued t :=
  fun c hc => h c (hq hc)

theorem Valued.congr (h : Valued s) (hq : t.cmdQ = s.cmdQ) : Valued t := by
  rw [Valued, hq]
  exact h

/-- A line queues a value, if anything, where it is no invalid request. -/
theorem processCmd_valued (hv : Valued s)
    (h : ∀ id, requestOfLine opt line ≠ some (id, none)) :
    Valued (processCmd opt mem p fd line s).2 := by
  obtain ⟨-, hq, -⟩ | ⟨id, cmd, es, hline, -, heq⟩ := processCmd_cases opt mem p fd line s
  · exact hv.congr hq
  · rw [heq, processRequest_eq]
    split
    · intro c hc
      rcases List.mem_append.mp hc with hc | hc
      · exact hv c hc
      · rw [List.mem_singleton.mp hc]
        intro hnone
        exact h id (by rw [hline]; exact congrArg (fun v => some (id, v)) hnone)
    · exact hv

/-- A call queues a value, if anything. -/
theorem nonblockReadline_valued (hb : (s.buffer p).offset < sizeofBuf)
    (hreads : ¬ ReadsInvalid opt (s.buffer p) f) (hv : Valued s) :
    Valued (nonblockReadline opt p fd f s).2 := by
  have hnew := readLoop_newline_iff (p := p) f.bytes (s.buffer p) hb
  have hcontents := readLoop_newline_contents (p := p) f.bytes (s.buffer p)
  rw [nonblockReadline]
  rcases hr : readLoop p (s.buffer p) f.bytes with ⟨x, b, es⟩
  rw [hr] at hnew hcontents
  cases x with
  | dry => exact hv.congr (by simp)
  | overflow => exact hv.congr (by simp)
  | newline =>
      have htext : (b.store b.offset 0).text =
          cstring ((s.buffer p).contents ++ f.bytes.takeWhile (· ≠ linefeed)) := by
        rw [ReadBuffer.text, ReadBuffer.contents_store le_rfl, ← hcontents rfl]
      refine processCmd_valued (hv.congr (by simp)) fun id hline => ?_
      exact hreads ⟨hnew.mp rfl, id, by rw [← htext]; exact hline⟩

/-- **The walk queues values**, if anything: a node ahead is as it was
when the walk began. -/
theorem serveClients_valued (lst : List Client) :
    ∀ (s : State) (pre : List Client), s.clientLst = pre ++ lst → Inv cfg s →
    (∀ c ∈ lst, c.buffer.offset < sizeofBuf) →
    (∀ c ∈ lst, c.fd ∈ fds → ¬ ReadsInvalid cfg.opt c.buffer (e.clients c.fd)) →
    Valued s → Valued (serveClients cfg e fds lst s) := by
  induction lst with
  | nil => intro s pre _ _ _ _ hv; rwa [serveClients]
  | cons c lst ih =>
      intro s pre hlst hinv hbuf hreads hv
      have hb := hbuf c List.mem_cons_self
      have hbuf' : ∀ c ∈ lst, c.buffer.offset < sizeofBuf :=
        fun d hd => hbuf d (List.mem_cons_of_mem _ hd)
      have hreads' : ∀ c ∈ lst, c.fd ∈ fds → ¬ ReadsInvalid cfg.opt c.buffer (e.clients c.fd) :=
        fun d hd => hreads d (List.mem_cons_of_mem _ hd)
      rcases serveClients_cons cfg e fds c lst s with ⟨-, heq⟩ | ⟨hready, r, hr, hcases⟩
      · rw [heq]
        exact ih s (pre ++ [c]) (by rw [hlst]; simp) hinv hbuf' hreads' hv
      · obtain ⟨hc, hinv', -, hinvr, hnodes⟩ := serve_call hinv hlst (e.clients c.fd)
        have hbuffer := hinv'.buffer_of_mem hc
        have hvr : Valued r.2 := hr ▸ nonblockReadline_valued (by rwa [hbuffer])
          (by rw [hbuffer]; exact hreads c List.mem_cons_self hready) (hv.congr rfl)
        rw [hr] at hinvr hnodes
        rcases hcases with ⟨-, heq⟩ | ⟨-, heq⟩ | ⟨-, -, heq⟩
        · rw [heq]
          exact ih (dropClient c r.2) pre (dropClient_clientLst hinvr hnodes (c.served_fd _))
            hinvr.dropClient hbuf' hreads' (hvr.congr rfl)
        · rw [heq]
          exact ih r.2 (pre ++ [c.served (e.clients c.fd)]) (by rw [hnodes]; simp) hinvr hbuf'
            hreads' hvr
        · rw [heq]
          exact hvr.congr rfl

/-! ## The pieces of an iteration -/

theorem expiryStep_valued (hv : Valued s) : (expiryStep e fds s).Sat Valued Valued := by
  rw [expiryStep]
  split
  · split
    · exact hv.of_subset (by rw [popCmd_cmdQ]; exact List.tail_subset _)
    · exact hv
  · exact hv

theorem signalStep_valued (hv : Valued s) : (signalStep cfg e fds s).Sat Valued Valued := by
  rw [signalStep]
  split
  · exact hv
  · exact hv

/-- A firmware line queues nothing. -/
theorem processTty_valued {f : TtyFeed} (hv : Valued s) : Valued (processTty opt f s).2 := by
  rw [processTty]
  rcases readLoop .tty s.ttyBuffer f.bytes with ⟨x, b, es⟩
  cases x with
  | dry => exact hv.congr (by simp)
  | overflow => exact hv.congr (by simp)
  | newline =>
      refine hv.of_subset ?_
      simp only [handleTtyLine_cmdQ, State.log_cmdQ, State.setBuffer_cmdQ]
      exact List.tail_subset _

theorem ttyStep_valued (hv : Valued s) : (ttyStep cfg e fds s).Sat Valued Valued := by
  have htty : Valued (processTty cfg.opt e.tty s).2 := processTty_valued hv
  rw [ttyStep]
  split
  · simp only
    split
    · exact htty
    · exact htty.congr rfl
  · exact hv

theorem autosampleStep_valued (hb : s.autosampleBuffer.offset < sizeofBuf)
    (hreads : ∀ a ∈ cfg.autosample, a.writeFd ∈ fds →
      ¬ ReadsInvalid cfg.opt s.autosampleBuffer e.autosample) (hv : Valued s) :
    (autosampleStep cfg e fds s).Sat Valued Valued := by
  rw [autosampleStep]
  cases ha : cfg.autosample with
  | none => exact hv
  | some a =>
      simp only
      split
      · rename_i hready
        have hcall : Valued
            (nonblockReadline cfg.opt .autosample a.writeFd e.autosample s).2 :=
          nonblockReadline_valued (p := .autosample) hb (hreads a ha hready) hv
        split
        · exact hcall.congr rfl
        · split
          · exact hcall
          · exact hcall.congr rfl
      · exact hv

/-- What follows the walk writes the head of the queue at most. -/
theorem fromClients_valued (hv : Valued (serveClients cfg e fds u.clientLst u)) :
    (fromClients cfg e fds u).Sat Valued Valued := by
  refine Flow.Sat.bind (Q := Valued) (Flow.Sat.bind (Q := Valued) hv fun w hw => ?_) fun w hw => ?_
  · refine sendStep_sat_next.imp (fun x hx => ?_) fun _ h => h.elim
    cases hx with
    | @wrote c q bytes hq hsent hbytes hq' hside =>
        intro d hd
        rw [hq'] at hd
        rcases List.mem_cons.mp hd with rfl | hd
        · exact hw c (by rw [hq]; exact List.mem_cons_self)
        · exact hw d (by rw [hq]; exact List.mem_cons_of_mem _ hd)
    | rest hx hhead => rwa [hx]
  · exact enableStep_sat_still.imp (fun x hx => hw.congr hx.1) fun _ h => h.elim

/-- Up to the clients. -/
theorem beforeClients_valued {readable : Finset ℕ} (hframed : Framed s)
    (hselect : e.select = .returned readable)
    (hreads : ∀ a ∈ cfg.autosample, a.writeFd ∈ e.fds s →
      ¬ ReadsInvalid cfg.opt s.autosampleBuffer e.autosample) (hv : Valued s) :
    (beforeClients cfg e (e.fds s) s).Sat Valued Valued := by
  have hbefore : (beforeAccept cfg e (e.fds s) s).Sat
      (fun u => Valued u ∧ u.autosampleBuffer = s.autosampleBuffer) Valued := by
    have hpieces : (beforeAccept cfg e (e.fds s) s).Sat Valued Valued :=
      Flow.Sat.bind (Flow.Sat.bind (expiryStep_valued hv) fun _ h => signalStep_valued h)
        fun _ h => ttyStep_valued h
    exact (hpieces.and (beforeAccept_popped hframed.tty.1 hselect)).imp
      (fun u hu => ⟨hu.1, hu.2.2.2⟩) fun u hu => hu.1
  have haccept : ((beforeAccept cfg e (e.fds s) s).bind (acceptStep cfg e (e.fds s))).Sat
      (fun u => Valued u ∧ u.autosampleBuffer = s.autosampleBuffer) Valued := by
    refine hbefore.bind fun u hu => ?_
    rw [acceptStep]
    split
    · cases e.accept with
      | none => exact hu.1.congr rfl
      | some fd => exact ⟨hu.1.congr rfl, hu.2⟩
    · exact hu
  refine haccept.bind fun u hu => autosampleStep_valued ?_ ?_ hu.1
  · rw [hu.2]
    exact hframed.autosample.1
  · rw [hu.2]
    exact hreads

/-- **An iteration that reads no invalid request** leaves only values in
the queue. -/
theorem iteration_valued (hinv : Inv cfg s) (hframed : Framed s) (hfresh : e.Fresh cfg s)
    (hreads : ReadsValid cfg s e) (hv : Valued s) (ht : (iteration cfg e s).result = some t) :
    Valued t := by
  cases hselect : e.select with
  | failed =>
      rw [iteration, hselect] at ht
      cases ht
      exact hv.congr rfl
  | interrupted =>
      rw [iteration, hselect] at ht
      cases ht
      exact hv
  | returned readable =>
      have hfds : e.fds s = tmpfds s readable := by rw [Env.fds, hselect]
      rw [iteration, hselect] at ht
      simp only [← hfds] at ht
      have hbefore : (beforeClients cfg e (e.fds s) s).Sat
          (fun u => Valued u ∧ ∀ c ∈ u.clientLst, c.fd ∈ e.fds s →
            ¬ ReadsInvalid cfg.opt c.buffer (e.clients c.fd)) Valued :=
        ((beforeClients_valued hframed hselect hreads.1 hv).and hreads.2).imp (fun _ h => h)
          fun _ h => h.1
      refine Flow.Sat.result (Flow.Sat.bind hbefore.self fun u hu => ?_) ht
      -- the state at the walk is framed, and its clients are told apart
      have heff : Effects cfg (fun _ _ _ => True) s u :=
        (beforeWalk_of_next hu.2).effects hfresh
      exact fromClients_valued (serveClients_valued u.clientLst u [] rfl (heff.inv hinv)
        (fun c hc => ((heff.framed hinv hframed).clients c hc).1) hu.1.2 hu.1.1)

/-- An answer is on the side of the tty. -/
theorem mem_ttySide_answer {tr : List Event} {r : Request} {conn : Option ℕ} {text : CStr} :
    .answer r conn text ∈ ttySide tr ↔ .answer r conn text ∈ tr := by
  simp [ttySide, Event.onTtySide]

/-- **An iteration answers the head of the queue**, if anything. -/
theorem Turn.answers (h : Turn cfg e s t) {r : Request} {conn : Option ℕ} {text : CStr}
    (hr : .answer r conn text ∈ t.trace) :
    .answer r conn text ∈ s.trace ∨ ∃ c ∈ s.cmdQ, c.toRequest = r := by
  rcases h.sides with rfl | ⟨u, hpop, hside⟩
  · exact .inl hr
  · have hu : .answer r conn text ∈ ttySide u.trace := by
      rw [← mem_ttySide_answer] at hr
      rcases hside with hside | ⟨c, bytes, hside⟩
      · rwa [hside] at hr
      · simpa [hside] using hr
    cases hpop with
    | expired hout hexp hq hside =>
        rw [hside] at hu
        refine .inl (mem_ttySide_answer.mp ((List.mem_append.mp hu).resolve_right ?_))
        simp [popEvents]
    | line hline hq hside =>
        obtain ⟨es, hes, hside⟩ := hside
        rw [hside, List.append_assoc] at hu
        rcases List.mem_append.mp hu with hu | hu
        · exact .inl (mem_ttySide_answer.mp hu)
        · rcases List.mem_append.mp hu with hu | hu
          · obtain ⟨i, b, heq⟩ := hes.1 _ hu
            cases heq
          · simp only [lineEvents, answerEvents, popEvents, List.mem_cons, List.mem_append,
              List.mem_map, reduceCtorEq, false_or, and_false, exists_false, or_false] at hu
            obtain ⟨c, hc, heq⟩ := hu
            injection heq with hreq
            exact .inr ⟨c, List.mem_of_mem_head? (Option.mem_toList.mp hc), hreq⟩
    | kept hline hout hq hside =>
        obtain ⟨es, hes, hside⟩ := hside
        rw [hside] at hu
        refine .inl (mem_ttySide_answer.mp ((List.mem_append.mp hu).resolve_right fun hu => ?_))
        obtain ⟨i, b, heq⟩ := hes.1 _ hu
        cases heq

/-- **Runs that read no invalid request.** -/
theorem Reachable.onlyValid (h : Reachable cfg (ReadsValid cfg) s) : OnlyValid s := by
  obtain ⟨staleTty, stalePipe, hr⟩ := h
  refine hr.invariant ⟨fun c hc => (List.not_mem_nil hc).elim, fun r conn text hr =>
    (List.not_mem_nil hr).elim⟩ fun u e v hu hvalid hA hv => ?_
  have hreach : Reachable cfg _ u := ⟨_, _, hu⟩
  have ht := result_of_loopStep hv
  refine ⟨iteration_valued hreach.inv hreach.framed hA.1 hA.2 hvalid.queue ht,
    fun r conn text hanswer => ?_⟩
  rcases (iteration_turn hreach.inv hreach.framed hA.1 ht).answers hanswer with hold | ⟨c, hc, rfl⟩
  · exact hvalid.answers r conn text hold
  · exact hvalid.queue c hc

/-- **An invalid request is never kept out.** No call of `process_cmd` for
one turns it away, on whatever descriptor, in whatever state and with
whatever memory; and in a run in which none is read, every entry of the
queue is for a value, and so is every answer. -/
theorem invalid_never_keptOut (cfg : Setup) (s : State) :
    (∀ (mem : CmdMem) (p : Port) (fd : ℕ) (line : CStr) (id : CmdId),
      requestOfLine cfg.opt line = some (id, none) →
      ¬ TurnsAway cfg.opt mem p fd line id s) ∧
    (Reachable cfg (ReadsValid cfg) s → OnlyValid s) :=
  ⟨fun _ _ _ _ _ h => not_turnsAway h, fun h => h.onlyValid⟩

/-- A line for a device that is not configured, without memory; and a run
with a valid request. -/
theorem invalid_never_keptOut_lamp :
    ¬ TurnsAway Setup.sample.opt ⟨⟨false, true⟩, true⟩ (.client 0) 7 (ascii "sample x") .sample
        (entry .sample (fun _ => 0) fun _ => 0) ∧
      ∃ s, Reachable Setup.sample (ReadsValid .sample) s ∧ .push lampRequest ∈ s.trace ∧
        OnlyValid s := by
  refine ⟨(invalid_never_keptOut .sample _).1 _ _ _ _ _ (by decide), ?_⟩
  obtain ⟨s, hs, hp⟩ := reachable_of_replay .sample (ReadsValid .sample)
    [.connect .sample 7 0, .command 7 "power on lamp" 1]
    (fun s => .push lampRequest ∈ s.trace) (by decide)
  exact ⟨s, hs, of_decide_eq_true hp, (invalid_never_keptOut .sample s).2 hs⟩

/-- A client's request for something that is not configured. -/
def heaterRequest : Request := ⟨0, .client 0, 7, .powerOn, none⟩

/-- **An invalid request is queued.** It is answered with the error line,
waits at the head of the queue, and the next line of the firmware is its
reply. -/
theorem invalid_never_keptOut_fails :
    requestOfLine Setup.sample.opt (ascii "power on heater") = some (.powerOn, none) ∧
      ¬ TurnsAway Setup.sample.opt .plenty (.client 0) 7 (ascii "power on heater") .powerOn
        (entry .sample (fun _ => 0) fun _ => 0) ∧
      ∃ s, Reachable Setup.sample (fun _ _ => True) s ∧ s.returnValue = 0 ∧
        .respond 7 (some 0) (ascii "Error: invalid power id") ∈ s.trace ∧
        .answer heaterRequest (some 0) (ascii "movement") ∈ s.trace ∧ ¬ OnlyValid s := by
  have hline :
      requestOfLine Setup.sample.opt (ascii "power on heater") = some (.powerOn, none) := by
    decide
  refine ⟨hline, not_turnsAway hline, ?_⟩
  obtain ⟨s, hs, hp⟩ := reachable_of_replay .sample (fun _ _ => True)
    [.connect .sample 7 0, .command 7 "power on heater" 1, .firmware .sample "movement" 2]
    (fun s => s.returnValue = 0 ∧
      .respond 7 (some 0) (ascii "Error: invalid power id") ∈ s.trace ∧
      .answer heaterRequest (some 0) (ascii "movement") ∈ s.trace) (by decide)
  obtain ⟨hret, herror, hanswer⟩ := of_decide_eq_true hp
  exact ⟨s, hs, hret, herror, hanswer, fun h => h.answers _ _ _ hanswer rfl⟩

end Daemon

end Realraum
