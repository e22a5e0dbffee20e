import Realraum.Daemon.Helpers.Pieces
import Realraum.Daemon.Helpers.Replay
/-!
# Requests to end the daemon

A signal that ends the daemon waits in the pipe until `signal_handle`
reads it. What was in the pipe when `select` returned is read in that
iteration, before the tty is; what came later is lost where the tty is
at its end, since `main_loop` then returns 2 without another look.
-/

namespace Realraum

namespace Daemon

variable {cfg : Setup} {s t u : State} {e : Env} {fds : Finset ℕ} {k : Piece} {p : Port} {fd : ℕ}
variable {opt : Options} {mem : CmdMem} {c c' : Call}

theorem signalHandle_eq_true {set : SigSet} :
    signalHandle set = true ↔ ∃ sig ∈ set, sig.Ends := by
  simp only [signalHandle, Signal.Ends, List.any_eq_true, List.any_cons, List.any_nil,
    Bool.or_false]

/-! ## Only the tty makes `main_loop` return 2 -/

theorem processCmd_returnValue (text : CStr) :
    (processCmd opt mem p fd text s).2.returnValue = s.returnValue := by
  rw [processCmd]
  split
  · rfl
  · rfl
  · rfl
  · rw [processRequest_eq]
    split <;> rfl
  · rw [processRequest_eq]
    split <;> rfl

theorem nonblockReadline_returnValue (f : Feed) :
    (nonblockReadline opt p fd f s).2.returnValue = s.returnValue := by
  rw [nonblockReadline]
  rcases readLoop p (s.buffer p) f.bytes with ⟨x, b, es⟩
  cases x with
  | dry => simp
  | overflow => simp
  | newline =>
      simp only [processCmd_returnValue, State.log_returnValue, State.setBuffer_returnValue]

theorem processTty_returnValue (cfg : Setup) (f : TtyFeed) :
    (processTty opt f s).2.returnValue = s.returnValue := by
  have hin : Inners cfg s (processTty opt f s).2 := processTty_inners
  exact hin.same.returnValue

theorem serveClients_returnValue (lst : List Client) : ∀ s : State, s.returnValue ≠ 2 →
    (serveClients cfg e fds lst s).returnValue ≠ 2 := by
  induction lst with
  | nil => intro s hs; exact hs
  | cons c lst ih =>
      intro s hs
      rcases serveClients_cons cfg e fds c lst s with ⟨-, heq⟩ | ⟨-, r, hr, hcases⟩
      · rw [heq]
        exact ih s hs
      · have hcall : r.2.returnValue = s.returnValue := by
          rw [← hr, nonblockReadline_returnValue, State.log_returnValue]
        rcases hcases with ⟨-, heq⟩ | ⟨-, heq⟩ | ⟨htwo, -, heq⟩
        · rw [heq]
          exact ih _ fun h => hs (hcall.symm.trans h)
        · rw [heq]
          exact ih _ fun h => hs (hcall.symm.trans h)
        · rw [heq]
          exact htwo

/-- `process_tty` returns 2 just where the tty is at its end. -/
theorem processTty_eq_two {f : TtyFeed} (hb : s.ttyBuffer.offset < sizeofBuf) :
    (processTty opt f s).1 = 2 → RunsDry s.ttyBuffer f.bytes ∧ f.stop = .eof := by
  have hdry := readLoop_dry_iff (p := .tty) f.bytes s.ttyBuffer hb
  rw [processTty]
  rcases h : readLoop .tty s.ttyBuffer f.bytes with ⟨x, b, es⟩
  rw [h] at hdry
  intro htwo
  cases x with
  | overflow => cases htwo
  | newline => cases htwo
  | dry =>
      refine ⟨hdry.mp rfl, ?_⟩
      cases hstop : f.stop with
      | eof => rfl
      | quiet => rw [hstop] at htwo; cases htwo
      | selectError => rw [hstop] at htwo; cases htwo
      | error err => rw [hstop] at htwo; cases err <;> cases htwo

theorem ttyStep_ne_again : ttyStep cfg e fds s ≠ .again t := by
  rw [ttyStep]
  split
  · simp only
    split <;> simp
  · simp

/-- **A piece that makes the return value 2 is the tty's**, at its end. -/
theorem run_returnValue (hs : s.returnValue ≠ 2)
    (hb : k = .tty → s.ttyBuffer.offset < sizeofBuf) :
    (k.run cfg e fds s).Sat (fun t => t.returnValue ≠ 2)
      fun t => t.returnValue = 2 → k = .tty ∧ LosesTty cfg e fds s := by
  cases k with
  | expiry =>
      have hin : (expiryStep e fds s).Sat (Inners cfg s) (Inners cfg s) := expiryStep_sat
      exact hin.imp (fun _ h => h.same.returnValue ▸ hs)
        fun _ h h' => absurd h' (h.same.returnValue ▸ hs)
  | signals =>
      rw [Piece.run, signalStep]
      split
      · exact fun h => by cases h
      · exact hs
  | tty =>
      have hret : (processTty cfg.opt e.tty s).2.returnValue = s.returnValue :=
        processTty_returnValue cfg e.tty
      rw [Piece.run, ttyStep]
      split
      · rename_i hfd
        simp only
        split
        · rw [Flow.sat_next, hret]
          exact hs
        · exact fun htwo => ⟨trivial, hfd, processTty_eq_two (hb rfl) htwo⟩
      · exact hs
  | accept =>
      rw [Piece.run, acceptStep]
      split
      · split
        · exact fun h => by cases h
        · exact hs
      · exact hs
  | autosample =>
      rw [Piece.run, autosampleStep]
      split
      · exact hs
      · rename_i a _
        split
        · have hret :
              (nonblockReadline cfg.opt .autosample a.writeFd e.autosample s).2.returnValue =
                s.returnValue := nonblockReadline_returnValue e.autosample
          simp only
          split
          · exact fun h => absurd (hret.symm.trans h) hs
          · rename_i htwo
            split
            · exact fun h => hs (hret.symm.trans h)
            · exact fun h => absurd h htwo
        · exact hs
  | clients => exact serveClients_returnValue s.clientLst s hs
  | send =>
      have hin : (sendStep e s).Sat (Inners cfg s) (Inners cfg s) := sendStep_sat
      exact hin.imp (fun _ h => h.same.returnValue ▸ hs)
        fun _ h h' => absurd h' (h.same.returnValue ▸ hs)
  | enable =>
      exact enableStep_sat.imp (fun _ h => h.same.returnValue ▸ hs)
        fun _ h h' => absurd h' (h.same.returnValue ▸ hs)

/-! ## Where a request to end is -/

/-- The pieces up to `signal_handle`. -/
def Piece.early : Piece → Bool
  | .expiry | .signals => true
  | _ => false

theorem Piece.early_next {k' : Piece} (h : k.early = true) (hk : k ≠ .signals)
    (hnext : k.next = some k') : k'.early = true := by
  cases k with
  | expiry =>
      cases hnext
      rfl
  | signals => exact absurd rfl hk
  | _ => cases h

/-- **Every request to end that was caught is still to come**: it waits in
the pipe, and unless the signal pipe is looked at in this iteration it
came after `select`. -/
def Waiting (cfg : Setup) (c : Call) : Prop :=
  match c.point with
  | .head => c.state.returnValue ≠ 2 ∧ ∀ sig ∈ c.caught, sig.Ends → sig ∈ c.pipe.getD []
  | .before k _ fds =>
    c.state.returnValue ≠ 2 ∧ (∀ sig ∈ c.caught, sig.Ends → sig ∈ c.pipe.getD []) ∧
      ((k.early = true ∧ cfg.sigFd ∈ fds) ∨ ∀ sig ∈ c.caught, sig.Ends → sig ∈ c.late)
  | .leaving => c.state.returnValue = 2 → ∀ sig ∈ c.caught, ¬ sig.Ends
  | .returned ret => ret = 2 → ∀ sig ∈ c.caught, ¬ sig.Ends

theorem Waiting.arrives {sig : Signal} (hc : Waiting cfg c) (htime : InTime cfg c (.arrives sig))
    (h : callStep cfg (.arrives sig) c = some c') : Waiting cfg c' := by
  have hpipe : ∀ x ∈ sig :: c.caught, (∀ y ∈ c.caught, y.Ends → y ∈ c.pipe.getD []) → x.Ends →
      x ∈ (sigHandler sig c.pipe).getD [] := by
    intro x hx hold hends
    rcases List.mem_cons.mp hx with rfl | hx
    · exact List.mem_cons_self
    · exact List.mem_cons_of_mem _ (hold x hx hends)
  cases hpoint : c.point with
  | head =>
      simp only [callStep, hpoint] at h
      cases h
      simp only [Waiting, hpoint] at hc ⊢
      exact ⟨hc.1, fun x hx => hpipe x hx hc.2⟩
  | before k e fds =>
      simp only [callStep, hpoint] at h
      cases h
      simp only [Waiting, hpoint] at hc ⊢
      refine ⟨hc.1, fun x hx => hpipe x hx hc.2.1, hc.2.2.imp id fun hlate x hx hends => ?_⟩
      rcases List.mem_cons.mp hx with rfl | hx
      · exact List.mem_cons_self
      · exact List.mem_cons_of_mem _ (hlate x hx hends)
  | leaving =>
      simp only [callStep, hpoint] at h
      cases h
      simp only [Waiting, hpoint] at hc ⊢
      intro htwo x hx
      rcases List.mem_cons.mp hx with rfl | hx
      · exact htime (by rw [hpoint]; rfl) htwo
      · exact hc htwo x hx
  | returned ret => simp only [callStep, hpoint] at h; cases h

/-- The signal pipe is watched. -/
theorem Reachable.sigFd_mem (h : Reachable cfg Anyhow s) {readable : Finset ℕ} :
    cfg.sigFd ∈ tmpfds s readable ↔ cfg.sigFd ∈ readable := by
  have hwatched : cfg.sigFd ∈ s.readfds := by
    rw [h.tracked.readfds, watched]
    simp
  rw [tmpfds, Finset.mem_filter]
  exact ⟨fun hmem => hmem.2.2, fun hmem => ⟨hwatched, h.tracked.maxFd _ hwatched, hmem⟩⟩

theorem Waiting.head (hc : Waiting cfg c) (hpoint : c.point = .head)
    (hs : Reachable cfg Anyhow c.state) (hshows : e.select.Shows cfg.sigFd c.pipe.isSome) :
    Waiting cfg (callHead e c) := by
  simp only [Waiting, hpoint] at hc
  unfold callHead
  split
  · split
    · exact fun h => by cases h
    · simp only [Waiting, hpoint]
      exact hc
    · rename_i readable hselect
      rw [hselect] at hshows
      refine ⟨hc.1, hc.2, ?_⟩
      cases hpipe : c.pipe with
      | some set => exact .inl ⟨rfl, hs.sigFd_mem.mpr (hshows.mpr (by rw [hpipe]; rfl))⟩
      | none =>
          -- nothing was waiting, so nothing was caught
          refine .inr fun sig hsig hends => ?_
          have hmem := hc.2 sig hsig hends
          rw [hpipe] at hmem
          cases hmem
  · exact fun htwo => absurd htwo hc.1

/-- Behind `signal_handle` only what came late is left. -/
theorem Waiting.signals (hc : Waiting cfg c) (hpoint : c.point = .before .signals e fds)
    (h : callPiece cfg .signals e fds c = some c') : Waiting cfg c' := by
  simp only [Waiting, hpoint] at hc
  obtain ⟨hret, hpipe, hlate⟩ := hc
  rw [callPiece, if_pos rfl] at h
  by_cases hend : cfg.sigFd ∈ fds ∧ signalHandle (c.pipe.getD []) = true
  · have hrun : Piece.signals.run cfg { e with signals := c.pipe.getD [] } fds c.state =
        .leave { c.state with returnValue := 1 } := if_pos hend
    simp only [hrun, callAfter] at h
    cases h
    exact fun htwo => by cases htwo
  · have hrun : Piece.signals.run cfg { e with signals := c.pipe.getD [] } fds c.state =
        .next c.state := if_neg hend
    simp only [hrun, callAfter] at h
    cases h
    -- where the pipe was looked at, it held no request to end
    have hnone : ∀ sig ∈ c.caught, sig.Ends → cfg.sigFd ∉ fds := fun sig hsig hends hfd =>
      hend ⟨hfd, signalHandle_eq_true.mpr ⟨sig, hpipe sig hsig hends, hends⟩⟩
    refine ⟨hret, fun sig hsig hends => ?_, .inr fun sig hsig hends => ?_⟩
    · simp only [if_neg (hnone sig hsig hends)]
      exact hpipe sig hsig hends
    · exact (hlate.resolve_left fun h => hnone sig hsig hends h.2) sig hsig hends

/-- The tty's buffer is inside its bounds where the tty is looked at. -/
theorem Located.ttyBuffer (hc : Located cfg c) (hpoint : c.point = .before .tty e fds) :
    c.state.ttyBuffer.offset < sizeofBuf := by
  rw [Located, hpoint] at hc
  obtain ⟨s, readable, hs, -, -, -, rfl, hsofar⟩ := hc
  have hin : (Piece.tty.sofar cfg e (tmpfds s readable) s).Sat (Inners cfg s) fun _ => True :=
    Flow.Sat.bind (expiryStep_sat.imp (fun _ h => h) fun _ _ => trivial)
      fun _ h => (signalStep_sat (G := fun _ _ _ => True) h).imp (fun _ h => h) fun _ _ => trivial
  rw [hsofar] at hin
  exact (Effects.framed (G := fun _ _ _ => True) hin.effects hs.inv hs.framed).tty.1

theorem Waiting.piece (hc : Waiting cfg c) (hlocated : Located cfg c)
    (hpoint : c.point = .before k e fds)
    (htime : ∀ p ∈ c.point.atTty, LosesTty cfg p.1 p.2 c.state → ∀ sig ∈ c.late, ¬ sig.Ends)
    (h : callPiece cfg k e fds c = some c') : Waiting cfg c' := by
  by_cases hk : k = .signals
  · subst k
    exact hc.signals hpoint h
  simp only [Waiting, hpoint] at hc
  obtain ⟨hret, hpipe, hlate⟩ := hc
  rw [callPiece, if_neg hk] at h
  have hsat : (k.run cfg e fds c.state).Sat (fun t => t.returnValue ≠ 2)
      fun t => t.returnValue = 2 → k = .tty ∧ LosesTty cfg e fds c.state :=
    run_returnValue hret fun hk => hlocated.ttyBuffer (hk ▸ hpoint)
  cases hrun : k.run cfg e fds c.state with
  | next t =>
      rw [hrun] at h hsat
      cases h
      cases hnext : k.next with
      | none => exact ⟨hsat, hpipe⟩
      | some k' =>
          exact ⟨hsat, hpipe, hlate.imp (fun h' => ⟨Piece.early_next h'.1 hk hnext, h'.2⟩) id⟩
  | again t =>
      rw [hrun] at h hsat
      cases h
      refine ⟨fun htwo => ?_, hpipe⟩
      obtain ⟨rfl, -⟩ := hsat htwo
      exact ttyStep_ne_again hrun
  | leave t =>
      rw [hrun] at h hsat
      cases h
      intro htwo sig hsig hends
      obtain ⟨rfl, hloses⟩ := hsat htwo
      rcases hlate with ⟨hearly, -⟩ | hlate
      · cases hearly
      · exact htime (e, fds) (by rw [hpoint]; rfl) hloses sig (hlate sig hsig hends) hends
  | hang =>
      rw [hrun] at h
      cases h

theorem callStep_waiting {a : CallAct} (hc : Waiting cfg c) (hlocated : Located cfg c)
    (hkernel : c.Kernel cfg a) (htime : InTime cfg c a) (h : callStep cfg a c = some c') :
    Waiting cfg c' := by
  cases a with
  | arrives sig => exact hc.arrives htime h
  | goesOn e' =>
      cases hpoint : c.point with
      | head =>
          simp only [callStep, hpoint] at h
          cases h
          have hs := hlocated
          rw [Located, hpoint] at hs
          exact hc.head hpoint hs (hkernel (by rw [hpoint]; rfl)).2
      | before k e fds =>
          simp only [callStep, hpoint] at h
          exact hc.piece hlocated hpoint htime h
      | leaving =>
          simp only [callStep, hpoint] at h
          cases h
          simp only [Waiting, hpoint] at hc
          exact hc
      | returned ret => simp only [callStep, hpoint] at h; cases h

/-- **No request to end is dropped** where none comes too late: a call of
`main_loop` that caught `SIGINT`, `SIGQUIT` or `SIGTERM` does not return
2, and `main` does not go on. -/
theorem request_to_end_kept (h : Call.Reached cfg (InTime cfg) c) {sig : Signal}
    (hcaught : sig ∈ c.caught) (hends : sig.Ends) {ret : ℤ} (hret : c.point = .returned ret) :
    ret ≠ 2 ∧ afterMainLoop ret = .ended ret := by
  obtain ⟨staleTty, stalePipe, hr⟩ := h
  have hinv : Located cfg c ∧ Waiting cfg c := by
    refine hr.invariant (I := fun c => Located cfg c ∧ Waiting cfg c) ?_ ?_
    · exact ⟨⟨staleTty, stalePipe, .refl⟩, by simp [Waiting, Call.start, entry]⟩
    · rintro d a d' - ⟨hd, hw⟩ ⟨hkernel, htime⟩ hstep
      exact ⟨callStep_located hkernel hd hstep, callStep_waiting hw hd hkernel htime hstep⟩
  have hne : ret ≠ 2 := by
    intro htwo
    have hw := hinv.2
    rw [Waiting, hret] at hw
    exact hw htwo sig hcaught hends
  exact ⟨hne, if_neg hne⟩

/-! ## Two runs -/

/-- The steps of an iteration with nothing arriving, up to this many
pieces. -/
def goOn (e : Env) (n : ℕ) : List CallAct := List.replicate n (.goesOn e)

/-- A call found by replaying what happens. -/
theorem Call.exists_of_replay (B : Call → CallAct → Prop) [∀ c a, Decidable (B c a)]
    (as : List CallAct) (p : Call → Bool)
    (h : (Reach.replay (callStep .sample) (fun c a => decide (c.Kernel .sample a ∧ B c a)) as
      (.start .sample (fun _ => 0) fun _ => 0)).any p = true) :
    ∃ c, Call.Reached .sample B c ∧ p c = true := by
  obtain ⟨c, hc, hp⟩ := Reach.exists_of_replay (fun _ _ => of_decide_eq_true) as _ p h
  exact ⟨c, ⟨_, _, hc⟩, hp⟩

/-- What the call returned. -/
def Call.ret (c : Call) : Option ℤ :=
  match c.point with
  | .returned ret => some ret
  | _ => none

theorem Call.point_of_ret {ret : ℤ} (h : c.ret = some ret) : c.point = .returned ret := by
  rw [Call.ret] at h
  split at h
  · cases h
    assumption
  · cases h

/-- The tty is lost and the signal pipe is ready in one `select`. -/
def Env.ttyGoneAndSignal (sec : ℕ) : Env :=
  { Env.ttyGone .sample sec with select := .returned {3, 5} }

/-- `SIGTERM` comes while the call waits, and the tty is lost at the same
time: the call returns 1. -/
theorem request_to_end_kept_waiting :
    ∃ c, Call.Reached .sample (InTime .sample) c ∧ .term ∈ c.caught ∧
      c.point = .returned 1 ∧ (1 : ℤ) ≠ 2 ∧ afterMainLoop 1 = .ended 1 := by
  obtain ⟨c, hc, hp⟩ := Call.exists_of_replay (InTime .sample)
    (.arrives .term :: goOn (.ttyGoneAndSignal 1) 4)
    (fun c => .term ∈ c.caught ∧ c.ret = some 1) (by decide +kernel)
  obtain ⟨hcaught, hret⟩ := of_decide_eq_true hp
  have hpoint := Call.point_of_ret hret
  obtain ⟨hne, hended⟩ := request_to_end_kept hc hcaught (by decide) hpoint
  exact ⟨c, hc, hcaught, hpoint, hne, hended⟩

/-- **A request to end is dropped.** `SIGTERM` comes after `select` and
before the tty is found at its end: `main_loop` returns 2 and `main` opens
the tty again. -/
theorem request_to_end_dropped :
    ∃ c, Call.Reached .sample (fun _ _ => True) c ∧ .term ∈ c.caught ∧ Signal.term.Ends ∧
      c.point = .returned 2 ∧ afterMainLoop 2 = .opening := by
  obtain ⟨c, hc, hp⟩ := Call.exists_of_replay (fun _ _ => True)
    (goOn (.ttyGone .sample 1) 2 ++ .arrives .term :: goOn (.ttyGone .sample 1) 3)
    (fun c => .term ∈ c.caught ∧ c.ret = some 2) (by decide +kernel)
  obtain ⟨hcaught, hret⟩ := of_decide_eq_true hp
  exact ⟨c, hc, hcaught, by decide, Call.point_of_ret hret, rfl⟩

end Daemon

end Realraum
