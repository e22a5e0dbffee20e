import Realraum.Daemon.Model.Main
import Realraum.Daemon.Helpers.Calls
/-!
# Helpers — what is written to the autosample process

Only the last piece of an iteration writes to the child; everything
before it leaves the local `autosample_enabled` and the enable bytes of
the history alone (`Unasked`). The last piece brings the two to the need
it finds in the client list.
-/

namespace Realraum

namespace Daemon

variable {cfg : Setup} {s t u : State} {e : Env} {fds : Finset ℕ} {p : Port} {fd : ℕ}
variable {opt : Options} {mem : CmdMem}

@[simp] theorem enables_append (tr es : List Event) :
    enables (tr ++ es) = enables tr ++ enables es :=
  List.filterMap_append

@[simp] theorem enables_nil : enables [] = [] := rfl

/-- **Nothing was written to the child**: the history grew by other
events, and the local is as it was. -/
def Unasked (s t : State) : Prop :=
  t.autosampleEnabled = s.autosampleEnabled ∧ ∃ es, t.trace = s.trace ++ es ∧ enables es = []

namespace Unasked

theorem refl (s : State) : Unasked s s := ⟨rfl, [], by simp, rfl⟩

theorem trans (h : Unasked s t) (h' : Unasked t u) : Unasked s u := by
  obtain ⟨hen, es, htr, hes⟩ := h
  obtain ⟨hen', es', htr', hes'⟩ := h'
  exact ⟨hen'.trans hen, es ++ es', by rw [htr', htr, List.append_assoc], by simp [hes, hes']⟩

/-- Other events are logged, and the local stays. -/
theorem of_log (es : List Event) (hes : enables es = []) (htr : t.trace = s.trace ++ es)
    (hen : t.autosampleEnabled = s.autosampleEnabled) : Unasked s t :=
  ⟨hen, es, htr, hes⟩

theorem log (h : Unasked s t) {es : List Event} (hes : enables es = []) :
    Unasked s (t.log es) :=
  h.trans (of_log es hes rfl rfl)

/-- The return value is set. -/
theorem of_ret (v : ℤ) : Unasked s { s with returnValue := v } := of_log [] rfl (by simp) rfl

theorem of_dropClient {c : Client} : Unasked s (dropClient c s) :=
  of_log [.close c.fd c.conn] rfl rfl rfl

theorem of_setBuffer {b : ReadBuffer} : Unasked s (s.setBuffer p b) :=
  of_log [] rfl (by simp) (by cases p <;> rfl)

theorem of_sendToListener {flag : Listeners → Bool} {except : Option ℕ} {text : CStr} :
    Unasked s (s.sendToListener flag except text) := by
  refine of_log _ ?_ rfl rfl
  exact List.filterMap_eq_nil_iff.mpr fun x hx => by
    obtain ⟨c, -, rfl⟩ := List.mem_map.mp hx
    rfl

theorem of_sendAnswer {text : CStr} : Unasked s (s.sendAnswer text) := by
  rw [State.sendAnswer]
  split
  · exact refl s
  · exact of_log _ rfl rfl rfl

theorem of_sendCategory {line text : CStr} {word : String} {flag : Listeners → Bool}
    {except : Option ℕ} : Unasked s (s.sendCategory line word flag except text) := by
  rw [State.sendCategory]
  split
  · exact of_sendToListener
  · exact refl s

theorem of_popCmd {expired : Bool} : Unasked s (s.popCmd expired) := by
  rw [State.popCmd]
  split
  · exact refl s
  · exact of_log _ rfl rfl rfl

theorem of_setListeners {f : Listeners → Listeners} : Unasked s (s.setListeners fd f) :=
  of_log [] rfl (by simp) rfl

end Unasked

theorem enables_readLoop {b : ReadBuffer} {xs : List UInt8} :
    enables (readLoop p b xs).2.2 = [] :=
  filterMap_readLoop (fun _ => rfl) fun _ _ => rfl

/-! ## The calls -/

theorem processRequest_unasked (id : CmdId) (cmd : CStr) :
    Unasked s (processRequest opt mem p fd id cmd s).2 := by
  have hnotes : enables (requestNotes opt mem fd id cmd s) = [] :=
    filterMap_requestNotes id fun _ _ _ => rfl
  rw [processRequest_eq]
  split
  · refine .of_log (requestNotes opt mem fd id cmd s ++ [.push (requestOf opt p fd id cmd s)]) ?_
      (List.append_assoc _ _ _) rfl
    rw [enables_append, hnotes]
    rfl
  · exact .of_log _ hnotes rfl rfl

theorem processCmd_unasked (text : CStr) : Unasked s (processCmd opt mem p fd text s).2 := by
  have hstore : Unasked s (s.log [.store p 5]) := .of_log _ rfl rfl rfl
  rw [processCmd]
  split
  · exact .refl s
  · exact .of_setListeners
  · exact .refl s
  · exact processRequest_unasked _ _
  · exact hstore.trans (processRequest_unasked _ _)

theorem nonblockReadline_unasked (f : Feed) :
    Unasked s (nonblockReadline opt p fd f s).2 := by
  have hread : enables (readLoop p (s.buffer p) f.bytes).2.2 = [] := enables_readLoop
  rw [nonblockReadline]
  rcases h : readLoop p (s.buffer p) f.bytes with ⟨x, b, es⟩
  rw [h] at hread
  cases x with
  | dry => exact Unasked.of_setBuffer.log hread
  | overflow => exact Unasked.of_setBuffer.log hread
  | newline =>
      have hes : enables (es ++ [.store p (b.store b.offset 0).offset,
          .line p (b.store b.offset 0).text]) = [] := by
        rw [enables_append, hread]
        rfl
      exact (Unasked.of_setBuffer.log hes).trans (processCmd_unasked _)

theorem handleTtyLine_unasked (line : CStr) : Unasked s (handleTtyLine opt line s) := by
  rw [handleTtyLine]
  exact ((((Unasked.of_sendAnswer.trans .of_sendCategory).trans .of_sendCategory).trans
    .of_sendCategory).trans .of_sendCategory).trans .of_popCmd

theorem processTty_unasked (f : TtyFeed) : Unasked s (processTty opt f s).2 := by
  have hread : enables (readLoop .tty s.ttyBuffer f.bytes).2.2 = [] := enables_readLoop
  rw [processTty]
  rcases h : readLoop .tty s.ttyBuffer f.bytes with ⟨x, b, es⟩
  rw [h] at hread
  cases x with
  | dry => exact Unasked.of_setBuffer.log hread
  | overflow => exact Unasked.of_setBuffer.log hread
  | newline =>
      have hend : enables (endTtyLine b).2 = [] := filterMap_endTtyLine b fun _ => rfl
      have hes : enables (es ++ (endTtyLine b).2 ++ [.line .tty (endTtyLine b).1.text]) = [] := by
        rw [enables_append, enables_append, hread, hend]
        rfl
      exact (Unasked.of_setBuffer.log hes).trans (handleTtyLine_unasked _)

/-! ## The pieces of the iteration -/

/-- The rule for one piece after others. -/
theorem Unasked.sat (h : Unasked s u) {f : Flow State} (hf : f.Sat (Unasked u) (Unasked u)) :
    f.Sat (Unasked s) (Unasked s) :=
  hf.imp (fun _ h' => h.trans h') fun _ h' => h.trans h'

theorem expiryStep_unasked : (expiryStep e fds s).Sat (Unasked s) (Unasked s) := by
  rw [expiryStep]
  split
  · split
    · exact Unasked.of_popCmd
    · exact Unasked.refl s
  · exact Unasked.refl s

theorem signalStep_unasked : (signalStep cfg e fds s).Sat (Unasked s) (Unasked s) := by
  rw [signalStep]
  split
  · exact Unasked.of_ret 1
  · exact Unasked.refl s

theorem ttyStep_unasked : (ttyStep cfg e fds s).Sat (Unasked s) (Unasked s) := by
  rw [ttyStep]
  split
  · simp only
    split
    · exact processTty_unasked _
    · exact (processTty_unasked _).trans (.of_ret _)
  · exact Unasked.refl s

theorem acceptStep_unasked : (acceptStep cfg e fds s).Sat (Unasked s) (Unasked s) := by
  rw [acceptStep]
  split
  · split
    · exact Unasked.of_ret (-1)
    · exact Unasked.of_log _ rfl rfl rfl
  · exact Unasked.refl s

theorem autosampleStep_unasked : (autosampleStep cfg e fds s).Sat (Unasked s) (Unasked s) := by
  rw [autosampleStep]
  split
  · exact Unasked.refl s
  · split
    · simp only
      split
      · exact (nonblockReadline_unasked _).trans (.of_log [.hangup] rfl rfl rfl)
      · split
        · exact nonblockReadline_unasked _
        · exact (nonblockReadline_unasked _).trans (.of_ret _)
    · exact Unasked.refl s

theorem beforeClients_unasked : (beforeClients cfg e fds s).Sat (Unasked s) (Unasked s) :=
  ((((expiryStep_unasked.bind fun _ h => h.sat signalStep_unasked).bind
    fun _ h => h.sat ttyStep_unasked).bind fun _ h => h.sat acceptStep_unasked).bind
    fun _ h => h.sat autosampleStep_unasked)

theorem serveClients_unasked (lst : List Client) :
    ∀ s : State, Unasked s (serveClients cfg e fds lst s) := by
  induction lst with
  | nil => intro s; exact .refl s
  | cons c lst ih =>
      intro s
      rcases serveClients_cons cfg e fds c lst s with ⟨-, heq⟩ | ⟨-, r, hr, hcases⟩
      · rw [heq]
        exact ih s
      · have hserve : Unasked s (s.log [.serve c.fd c.conn]) := .of_log _ rfl rfl rfl
        have hcall : Unasked s r.2 := hr ▸ hserve.trans (nonblockReadline_unasked _)
        rcases hcases with ⟨-, heq⟩ | ⟨-, heq⟩ | ⟨-, -, heq⟩
        · rw [heq]
          exact (hcall.trans .of_dropClient).trans (ih _)
        · rw [heq]
          exact hcall.trans (ih _)
        · rw [heq]
          exact hcall.trans (.of_ret _)

/-- The walk and the send step never end the iteration. -/
theorem clientStep_unasked : (clientStep cfg e fds s).Sat (Unasked s) fun _ => False :=
  serveClients_unasked s.clientLst s

theorem sendStep_unasked : (sendStep e s).Sat (Unasked s) fun _ => False := by
  rw [sendStep]
  split
  · exact Unasked.refl s
  · split
    · exact Unasked.refl s
    · split
      · exact Unasked.refl s
      · exact Unasked.refl s
      · exact Unasked.of_log _ rfl rfl rfl
      · trivial

/-! ## The block itself -/

/-- **Some client needs samples.** -/
def Needed (s : State) : Bool := s.clientLst.any fun c => c.listeners.sensor

/-- **What the block did**: the local is at the need, and the child was
told so if the local was not there before. -/
def Told (s t : State) : Prop :=
  t.clientLst = s.clientLst ∧ t.autosampleEnabled = Needed s ∧
    t.trace = s.trace ++
      if s.autosampleEnabled = Needed s then [] else [.enable (Needed s) true]

/-- The count the code makes, and the need. -/
theorem listenerCnt_eq_zero :
    (s.clientLst.filter fun c => c.listeners.sensor).length = 0 ↔ Needed s = false := by
  rw [List.length_eq_zero_iff, List.filter_eq_nil_iff, Needed, List.any_eq_false]

/-- **The block brings the local to the need**, and the child with it. -/
theorem enableStep_told (ha : cfg.autosample.isSome)
    (hpipe : (writeLoop e.childWrites).any (· ≠ WriteResult.failed) = true) :
    (enableStep cfg e s).Sat (Told s) (Told s) := by
  obtain ⟨a, ha⟩ := Option.isSome_iff_exists.mp ha
  obtain ⟨r, hr, hok⟩ := (Option.any_eq_true _ _).mp hpipe
  have hzero := listenerCnt_eq_zero (s := s)
  rw [enableStep, ha, hr]
  simp only
  -- the byte is written where the local and the need differ
  cases hen : s.autosampleEnabled <;> cases hn : Needed s <;> rw [hn] at hzero
  · rw [if_neg (by simpa using hzero)]
    exact ⟨rfl, by rw [hen, hn], by simp [hen, hn]⟩
  · rw [if_pos (by simpa [Nat.pos_iff_ne_zero] using hzero)]
    exact ⟨rfl, by simp [hn], by simp [hen, hn, of_decide_eq_true hok]⟩
  · rw [if_pos (by simpa using hzero)]
    exact ⟨rfl, by simp [hn], by simp [hen, hn, of_decide_eq_true hok]⟩
  · rw [if_neg (by simpa [Nat.pos_iff_ne_zero] using hzero)]
    exact ⟨rfl, by rw [hen, hn], by simp [hen, hn]⟩

/-- **The block was reached**, after pieces that wrote nothing. -/
def Answered (s t : State) : Prop := ∃ v, Unasked s v ∧ Told v t

theorem fromClients_answered (ha : cfg.autosample.isSome)
    (hpipe : (writeLoop e.childWrites).any (· ≠ WriteResult.failed) = true) :
    (fromClients cfg e fds s).Sat (Answered s) (Answered s) :=
  Flow.Sat.bind
    (Flow.Sat.bind (clientStep_unasked.imp (fun _ h => h) fun _ h => h.elim) fun _ h =>
      sendStep_unasked.imp (fun _ h' => h.trans h') fun _ h' => h'.elim)
    fun v h => (enableStep_told ha hpipe).imp (fun _ h' => ⟨v, h, h'⟩) fun _ h' => ⟨v, h, h'⟩

theorem Unasked.answered (h : Unasked s u) (h' : Answered u t) : Answered s t := by
  obtain ⟨v, hv, ht⟩ := h'
  exact ⟨v, h.trans hv, ht⟩

/-- An iteration that gets to the clients reaches the block. -/
theorem loopStep_answered {readable : Finset ℕ} (ha : cfg.autosample.isSome)
    (hpipe : (writeLoop e.childWrites).any (· ≠ WriteResult.failed) = true)
    (hselect : e.select = .returned readable)
    (hu : beforeClients cfg e (tmpfds s readable) s = .next u)
    (ht : loopStep cfg e s = some t) : Answered s t := by
  have hbefore : (beforeClients cfg e (tmpfds s readable) s).Sat (Unasked s) (Unasked s) :=
    beforeClients_unasked
  rw [hu] at hbefore
  have hres := result_of_loopStep ht
  rw [iteration, hselect] at hres
  simp only [hu, Flow.bind_next] at hres
  exact Unasked.answered hbefore (Flow.Sat.result (fromClients_answered ha hpipe) hres)

/-- **An iteration writes to the child in its last piece only**, and may
end before it. -/
theorem loopStep_asked (ha : cfg.autosample.isSome)
    (hpipe : (writeLoop e.childWrites).any (· ≠ WriteResult.failed) = true)
    (ht : loopStep cfg e s = some t) : Unasked s t ∨ Answered s t := by
  refine Flow.Sat.result (f := iteration cfg e s) (R := fun t => Unasked s t ∨ Answered s t) ?_
    (result_of_loopStep ht)
  rw [iteration]
  split
  · exact .inl (.of_ret _)
  · exact .inl (.refl s)
  · refine Flow.Sat.bind (Q := Unasked s) (beforeClients_unasked.imp (fun _ h => h)
      fun _ h => .inl h) fun u hu => ?_
    exact (fromClients_answered ha hpipe).imp (fun _ h => .inr (hu.answered h))
      fun _ h => .inr (hu.answered h)

end Daemon

end Realraum
