import Realraum.Daemon.Helpers.Descriptors
/-!
# Helpers — an iteration is a sequence of effects

The pieces of the iteration one by one, in the source's order. Up to
`accept` nothing happens to the connections, which is what its descriptor
is compared with. The two invariant rules at the end are what the results about the loop use.
-/

namespace Realraum

namespace Daemon

variable {cfg : Setup} {G : State → ℕ → Bool → Prop} {s t u : State} {e : Env} {fds : Finset ℕ}
variable {opt : Options}

/-! ## Firmware lines and the queue -/

@[simp] theorem sendToListener_cmdQ (flag : Listeners → Bool) (except : Option ℕ) (text : CStr) :
    (s.sendToListener flag except text).cmdQ = s.cmdQ := rfl

@[simp] theorem sendCategory_cmdQ (line : CStr) (word : String) (flag : Listeners → Bool)
    (except : Option ℕ) (text : CStr) :
    (s.sendCategory line word flag except text).cmdQ = s.cmdQ := by
  rw [State.sendCategory]
  split <;> rfl

@[simp] theorem sendAnswer_cmdQ (text : CStr) : (s.sendAnswer text).cmdQ = s.cmdQ := by
  rw [State.sendAnswer]
  split <;> rfl

theorem popCmd_cmdQ (expired : Bool) : (s.popCmd expired).cmdQ = s.cmdQ.tail := by
  rw [State.popCmd]
  split
  · rename_i h
    rw [h, List.tail_nil]
  · rfl

/-- A firmware line pops the head of the queue, whatever it says. -/
theorem handleTtyLine_cmdQ (line : CStr) : (handleTtyLine opt line s).cmdQ = s.cmdQ.tail := by
  rw [handleTtyLine, popCmd_cmdQ]
  simp

/-- **`process_tty` and the queue**: the head goes when a line is
complete, and not otherwise. -/
theorem processTty_cmdQ (f : TtyFeed) (hb : s.ttyBuffer.offset < sizeofBuf) :
    (processTty opt f s).2.cmdQ =
      if Completes s.ttyBuffer f.bytes then s.cmdQ.tail else s.cmdQ := by
  have hiff := readLoop_newline_iff (p := .tty) f.bytes s.ttyBuffer hb
  rw [processTty]
  rcases h : readLoop .tty s.ttyBuffer f.bytes with ⟨x, b, es⟩
  rw [h] at hiff
  cases x with
  | dry => rw [if_neg fun hc => by cases hiff.mpr hc]; simp
  | overflow => rw [if_neg fun hc => by cases hiff.mpr hc]; simp
  | newline =>
      rw [if_pos (hiff.mp rfl)]
      simp only [handleTtyLine_cmdQ, State.log_cmdQ, State.setBuffer_cmdQ]

/-! ## The pieces before the clients -/

theorem expiryStep_sat : (expiryStep e fds s).Sat (Inners cfg s) (Inners cfg s) := by
  rw [expiryStep]
  split
  · split
    · exact .single (.pop true)
    · exact .refl
  · exact .refl

theorem signalStep_sat (h : Inners cfg s u) :
    (signalStep cfg e fds u).Sat (Inners cfg s) (Effects cfg G s) := by
  rw [signalStep]
  split
  · exact h.effects.tail (.ret 1)
  · exact h

theorem ttyStep_sat (h : Inners cfg s u) :
    (ttyStep cfg e fds u).Sat (Inners cfg s) (Effects cfg G s) := by
  rw [ttyStep]
  split
  · have hin : Inners cfg s (processTty cfg.opt e.tty u).2 := h.trans processTty_inners
    simp only
    split
    · exact hin
    · exact hin.effects.tail (.ret _)
  · exact h

/-- **Up to `accept` no connection comes or goes.** -/
theorem beforeAccept_sat :
    (beforeAccept cfg e fds s).Sat (Inners cfg s) (Effects cfg G s) :=
  Flow.Sat.bind
    (Flow.Sat.bind (expiryStep_sat.imp (fun _ h => h) fun _ h => h.effects)
      fun _ h => signalStep_sat h)
    fun _ h => ttyStep_sat h

theorem acceptStep_sat (h : Inners cfg s u) (hfresh : e.Fresh cfg s)
    (hG : ∀ fd ∈ e.accept, G u fd e.clientMem) :
    (acceptStep cfg e fds u).Sat (Effects cfg G s) (Effects cfg G s) := by
  rw [acceptStep]
  split
  · cases hfd : e.accept with
    | none => exact h.effects.tail (.ret _)
    | some fd =>
        refine h.effects.tail (.accept e.stale ?_ (hG fd hfd))
        rw [h.same.conns]
        exact hfresh fd hfd
  · exact h.effects

theorem autosampleStep_sat (h : Effects cfg G s u) :
    (autosampleStep cfg e fds u).Sat (Effects cfg G s) (Effects cfg G s) := by
  rw [autosampleStep]
  cases ha : cfg.autosample with
  | none => exact h
  | some a =>
      simp only
      split
      · have hin : Inners cfg u
            (nonblockReadline cfg.opt .autosample a.writeFd e.autosample u).2 :=
          nonblockReadline_inners ⟨a, ha, rfl⟩ (by decide)
        have heff := h.trans (hin.effects (G := G))
        split
        · exact heff.tail (.hangup ha)
        · split
          · exact heff
          · exact heff.tail (.ret _)
      · exact h

theorem beforeClients_sat (hfresh : e.Fresh cfg s)
    (hG : ∀ u, beforeAccept cfg e fds s = .next u → ∀ fd ∈ e.accept, G u fd e.clientMem) :
    (beforeClients cfg e fds s).Sat (Effects cfg G s) (Effects cfg G s) :=
  Flow.Sat.bind
    (Flow.Sat.bind beforeAccept_sat.self fun u h => acceptStep_sat h.1 hfresh (hG u h.2))
    fun _ h => autosampleStep_sat h

/-! ## The clients and the rest -/

/-- The call for a client, as a sequence of effects of the walk. -/
theorem serve_serving {c : Client} (hc : c.toConn ∈ s.clientLst.map Client.toConn) (f : Feed) :
    Hearing cfg (s.log [.serve c.fd c.conn])
      (nonblockReadline cfg.opt (.client c.conn) c.fd f (s.log [.serve c.fd c.conn])).2 :=
  nonblockReadline_hearing (p := .client c.conn) hc (by simp)

/-- **What the walk does for one client**: nothing where it is not ready, and
else the call, behind which the client is gone, or the walk goes on, or it
ends with the return value. -/
theorem serveClients_cons (cfg : Setup) (e : Env) (fds : Finset ℕ) (c : Client) (lst : List Client)
    (s : State) :
    (c.fd ∉ fds ∧ serveClients cfg e fds (c :: lst) s = serveClients cfg e fds lst s) ∨
      (c.fd ∈ fds ∧ ∃ r, nonblockReadline cfg.opt (.client c.conn) c.fd (e.clients c.fd)
          (s.log [.serve c.fd c.conn]) = r ∧
        ((r.1 = 2 ∧ serveClients cfg e fds (c :: lst) s =
            serveClients cfg e fds lst (dropClient c r.2)) ∨
          (r.1 = 0 ∧ serveClients cfg e fds (c :: lst) s = serveClients cfg e fds lst r.2) ∨
          (r.1 ≠ 2 ∧ r.1 ≠ 0 ∧ serveClients cfg e fds (c :: lst) s =
            { r.2 with returnValue := r.1 }))) := by
  rw [serveClients]
  by_cases hready : c.fd ∈ fds
  · refine .inr ⟨hready, _, rfl, ?_⟩
    rw [if_pos hready]
    dsimp only
    split
    · rename_i htwo
      exact .inl ⟨htwo, rfl⟩
    · rename_i htwo
      split
      · rename_i hzero
        exact .inr (.inl ⟨hzero, rfl⟩)
      · rename_i hzero
        exact .inr (.inr ⟨htwo, hzero, rfl⟩)
  · exact .inl ⟨hready, if_neg hready⟩

/-- **The rule of the walk over the clients**: what holds of each call, of
removing a client and of the value that ends the walk, and can be put
together, holds of the walk. The nodes ahead stay in the list: a removal
takes out the one node with that descriptor, and it is behind. -/
theorem serveClients_rule {R : State → State → Prop} (hrefl : ∀ s, R s s)
    (htrans : ∀ {s t u}, R s t → R t u → R s u)
    (hcall : ∀ (s : State) (c : Client), Inv cfg s → c.toConn ∈ s.clientLst.map Client.toConn →
      R s (nonblockReadline cfg.opt (.client c.conn) c.fd (e.clients c.fd)
        (s.log [.serve c.fd c.conn])).2)
    (hdrop : ∀ (s : State) (c : Client), c.toConn ∈ s.clientLst.map Client.toConn →
      R s (dropClient c s))
    (hret : ∀ (s : State) (v : ℤ), R s { s with returnValue := v }) (lst : List Client) :
    ∀ s : State, Inv cfg s → (∀ c ∈ lst, c.toConn ∈ s.clientLst.map Client.toConn) →
      (lst.map Client.toConn).Nodup → R s (serveClients cfg e fds lst s) := by
  induction lst with
  | nil => exact fun s _ _ _ => hrefl s
  | cons c lst ih =>
      intro s hinv hmem hnd
      have hc := hmem c List.mem_cons_self
      have hrest : ∀ c' ∈ lst, c'.toConn ∈ s.clientLst.map Client.toConn :=
        fun c' h => hmem c' (List.mem_cons_of_mem _ h)
      rw [List.map_cons, List.nodup_cons] at hnd
      rcases serveClients_cons cfg e fds c lst s with ⟨-, heq⟩ | ⟨-, r, hr, hcases⟩
      · rw [heq]
        exact ih s hinv hrest hnd.2
      · have hR : R s r.2 := hr ▸ hcall s c hinv hc
        have hear : Hearing cfg (s.log [.serve c.fd c.conn]) r.2 := hr ▸ serve_serving hc _
        have hserve : Serving cfg s r.2 := .head (.serve hc) hear.serving
        have hclients : r.2.clientLst.map Client.toConn = s.clientLst.map Client.toConn :=
          hear.inners.same.clients
        have hinv' : Inv cfg r.2 := hserve.effects (G := fun _ _ _ => True) |>.inv hinv
        rcases hcases with ⟨-, heq⟩ | ⟨-, heq⟩ | ⟨-, -, heq⟩
        -- the one node with this descriptor goes, and it is behind
        · have hc' : c.toConn ∈ r.2.clientLst.map Client.toConn := hclients ▸ hc
          rw [heq]
          refine htrans (htrans hR (hdrop r.2 c hc')) (ih _ hinv'.dropClient ?_ hnd.2)
          intro c' h'
          have hmem' : c'.toConn ∈ r.2.clientLst.map Client.toConn := hclients ▸ hrest c' h'
          refine mem_clientLst_dropClient hmem' fun hfd => ?_
          have heq := hinv'.eq_of_fd_eq (hinv'.clients.subset hmem')
            (hinv'.clients.subset hc') hfd
          exact hnd.1 (List.mem_map.mpr ⟨c', h', heq⟩)
        · rw [heq]
          exact htrans hR (ih _ hinv' (fun c' h' => hclients ▸ hrest c' h') hnd.2)
        · rw [heq]
          exact htrans hR (hret r.2 _)

/-- **The walk over the clients is a sequence of its effects.** -/
theorem serveClients_serving (lst : List Client) : ∀ s : State, Inv cfg s →
    (∀ c ∈ lst, c.toConn ∈ s.clientLst.map Client.toConn) → (lst.map Client.toConn).Nodup →
    Serving cfg s (serveClients cfg e fds lst s) :=
  serveClients_rule (fun _ => .refl) Relation.ReflTransGen.trans
    (fun _ _ _ hc => .head (.serve hc) (serve_serving hc _).serving)
    (fun _ _ hc => .single (.close hc)) (fun _ v => .single (.ret v)) lst

theorem clientStep_sat (hinv : Inv cfg s) :
    (clientStep cfg e fds s).Sat (Serving cfg s) (Serving cfg s) :=
  serveClients_serving s.clientLst s hinv (fun _ h => List.mem_map_of_mem h)
    (hinv.clients.nodup (List.Nodup.of_map _ hinv.fds))

theorem sendStep_sat : (sendStep e s).Sat (Inners cfg s) (Inners cfg s) := by
  rw [sendStep]
  cases hq : s.cmdQ with
  | nil => exact .refl
  | cons c q =>
      simp only
      split
      · exact .refl
      · rename_i hsent
        cases sendCommand c e.ttyWrites with
        | skipped => exact .refl
        | failed => exact .refl
        | wrote bytes => exact .single (.write hq (by simpa using hsent) e.sentAt bytes)
        | hang => trivial

theorem enableStep_sat : (enableStep cfg e s).Sat (Inners cfg s) (Inners cfg s) := by
  rw [enableStep]
  cases cfg.autosample with
  | none => exact .refl
  | some a =>
      simp only
      split
      · cases writeLoop e.childWrites with
        | none => trivial
        | some r =>
            have hinert : ∀ x ∈ [Event.enable (!s.autosampleEnabled) (r ≠ WriteResult.failed)],
                x.Inert := fun x hx => by rw [List.mem_singleton.mp hx]; trivial
            exact .head (.heard (.note hinert)) (.single (.enabled _))
      · exact .refl

theorem fromClients_sat (hinv : Inv cfg s) :
    (fromClients cfg e fds s).Sat (Effects cfg G s) (Effects cfg G s) :=
  Flow.Sat.bind
    (Flow.Sat.bind ((clientStep_sat hinv).imp (fun _ h => h.effects) fun _ h => h.effects)
      fun _ h => sendStep_sat.imp (fun _ h' => h.trans (Inners.effects h'))
        fun _ h' => h.trans (Inners.effects h'))
    fun _ h => enableStep_sat.imp (fun _ h' => h.trans (Inners.effects h'))
      fun _ h' => h.trans (Inners.effects h')

/-- **An iteration is a sequence of effects.** -/
theorem iteration_effects (hinv : Inv cfg s) (hfresh : e.Fresh cfg s)
    (hG : ∀ u readable, e.select = .returned readable →
      beforeAccept cfg e (tmpfds s readable) s = .next u → ∀ fd ∈ e.accept, G u fd e.clientMem)
    (ht : (iteration cfg e s).result = some t) : Effects cfg G s t := by
  refine Flow.Sat.result (f := iteration cfg e s) ?_ ht
  rw [iteration]
  cases hselect : e.select with
  | failed => exact .single (.ret _)
  | interrupted => exact .refl
  | returned readable =>
      refine Flow.Sat.bind (beforeClients_sat hfresh fun u => hG u readable hselect) fun u hu => ?_
      exact (fromClients_sat (hu.inv hinv)).imp (fun _ h => hu.trans h) fun _ h => hu.trans h

/-! ## The invariant rules -/

variable {A : State → Env → Prop}

theorem result_of_loopStep (h : loopStep cfg e s = some t) :
    (iteration cfg e s).result = some t := by
  rw [loopStep] at h
  split at h
  · exact h
  · cases h

theorem returnValue_of_loopStep (h : loopStep cfg e s = some t) : s.returnValue = 0 := by
  rw [loopStep] at h
  split at h
  · assumption
  · cases h

/-- **The connections are in order in every run.** -/
theorem Reachable.inv (h : Reachable cfg A s) : Inv cfg s := by
  obtain ⟨staleTty, stalePipe, hr⟩ := h
  refine hr.invariant (Inv.entry staleTty stalePipe) fun u e v _ hu hA hv => ?_
  exact (iteration_effects (G := fun _ _ _ => True) hu hA.1 (fun _ _ _ _ _ _ => trivial)
    (result_of_loopStep hv)).inv hu

/-- **The invariant rule of the loop.** What holds when `main_loop` is
entered and is kept by every effect holds of every state it reaches. `G`
is what the assumption on the steps says of an accepted descriptor. -/
theorem Reachable.invariant {I : State → Prop} (G : State → ℕ → Bool → Prop)
    (h : Reachable cfg A s) (h₀ : ∀ staleTty stalePipe, I (entry cfg staleTty stalePipe))
    (hG : ∀ s e u readable, A s e → e.select = .returned readable →
      beforeAccept cfg e (tmpfds s readable) s = .next u → ∀ fd ∈ e.accept, G u fd e.clientMem)
    (hstep : ∀ u v, Inv cfg u → I u → Effect cfg G u v → I v) : I s := by
  obtain ⟨staleTty, stalePipe, hr⟩ := h
  have key : Inv cfg s ∧ I s := by
    refine Reach.Run.invariant (I := fun u => Inv cfg u ∧ I u) hr
      ⟨Inv.entry staleTty stalePipe, h₀ _ _⟩ fun u e v _ hu hA hv => ?_
    have heff := iteration_effects (G := G) hu.1 hA.1
      (fun w readable => hG u e w readable hA.2) (result_of_loopStep hv)
    refine Effects.invariant (I := fun u => Inv cfg u ∧ I u) heff hu fun w x hw hx => ?_
    exact ⟨hx.inv hw.1, hstep w x hw.1 hw.2 hx⟩
  exact key.2

end Daemon

end Realraum
