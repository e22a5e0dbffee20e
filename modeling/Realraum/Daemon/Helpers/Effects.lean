import Realraum.Daemon.Helpers.Reading
/-!
# Helpers — what an iteration can do

Everything a piece of the loop does to the state is one of a few effects:
some bytes are read, a line is taken, a command is queued, popped or
written, a client comes or goes. `Effect` lists them with what is known
where they happen, and `iteration_effects` says that an iteration is a
sequence of them. An invariant of the loop is then one case analysis.
-/

namespace Realraum

namespace Daemon

/-- The descriptor a port is read on. -/
def State.Feeds (cfg : Setup) (s : State) (p : Port) (fd : ℕ) : Prop :=
  match p with
  | .tty => fd = cfg.ttyFd
  | .autosample => ∃ a ∈ cfg.autosample, fd = a.writeFd
  | .client k => (⟨fd, k⟩ : Conn) ∈ s.clientLst.map Client.toConn

/-- What a line does to the flags of the client it came from. -/
def listenEffect (text : CStr) : Listeners → Listeners :=
  match recognise text with
  | some (.listen, cmd) => listenFlags (behindBlank cmd)
  | _ => id

/-- An event that tells only the outside something, or a store of the
code itself inside the buffer. -/
def Event.Inert : Event → Prop
  | .respond _ _ _ | .enable _ _ => True
  | .store _ i => i < sizeofBuf
  | _ => False

/-- **What a call of `nonblock_readline` does**, on a client or on the
pipe: it reads, takes a line, tells the listeners, queues a request. -/
inductive Heard (cfg : Setup) : State → State → Prop
  | read {s : State} {p : Port} {fd : ℕ} {xs : List UInt8} {x : LineExit} {b : ReadBuffer}
      {es : List Event} (hp : s.Feeds cfg p fd) (hne : p ≠ .tty)
      (h : readLoop p (s.buffer p) xs = (x, b, es)) (hx : x ≠ .newline) :
      Heard cfg s ((s.setBuffer p b).log es)
  | line {s : State} {p : Port} {fd : ℕ} {xs : List UInt8} {b : ReadBuffer} {es : List Event}
      (hp : s.Feeds cfg p fd) (hne : p ≠ .tty)
      (h : readLoop p (s.buffer p) xs = (.newline, b, es)) :
      Heard cfg s
        (((s.setBuffer p (b.store b.offset 0).reset).log
          (es ++ [.store p b.offset, .line p (b.store b.offset 0).text])).setListeners fd
          (listenEffect (b.store b.offset 0).text))
  | note {s : State} {es : List Event} (h : ∀ e ∈ es, e.Inert) : Heard cfg s (s.log es)
  | push {s : State} {r : Request} (hp : s.Feeds cfg r.port r.fd) (hr : r.serial = s.pushed)
      (hid : r.cmd ≠ .log ∧ r.cmd ≠ .listen) :
      Heard cfg s
        { s with
          cmdQ := s.cmdQ ++ [{ r with sent := false, tvStart := .zero }]
          trace := s.trace ++ [.push r] }

/-- **What the loop does inside one descriptor set**: that, and what it
does on the side of the tty. -/
inductive Inner (cfg : Setup) : State → State → Prop
  | heard {s t : State} (h : Heard cfg s t) : Inner cfg s t
  | ttyRead {s : State} {xs : List UInt8} {x : LineExit} {b : ReadBuffer} {es : List Event}
      (h : readLoop .tty s.ttyBuffer xs = (x, b, es)) (hx : x ≠ .newline) :
      Inner cfg s ((s.setBuffer .tty b).log es)
  | ttyLine {s : State} {xs : List UInt8} {b b' : ReadBuffer} {es es' : List Event}
      (h : readLoop .tty s.ttyBuffer xs = (.newline, b, es)) (h' : endTtyLine b = (b', es')) :
      Inner cfg s ((s.setBuffer .tty b'.reset).log (es ++ es' ++ [.line .tty b'.text]))
  | answer {s : State} (text : CStr) : Inner cfg s (s.sendAnswer text)
  | pop {s : State} (expired : Bool) : Inner cfg s (s.popCmd expired)
  | write {s : State} {c : Cmd} {q : List Cmd} (hq : s.cmdQ = c :: q) (hc : c.sent = false)
      (now : Timeval) (bytes : List UInt8) :
      Inner cfg s
        { s with cmdQ := cmdSent c now :: q, trace := s.trace ++ [.write c.toRequest bytes] }
  | enabled {s : State} (b : Bool) : Inner cfg s { s with autosampleEnabled := b }

/-- **What an iteration is made of.** `G` is what is known of a
descriptor that `accept` gives, beside its being fresh. -/
inductive Effect (cfg : Setup) (G : State → ℕ → Bool → Prop) : State → State → Prop
  | inner {s t : State} (h : Inner cfg s t) : Effect cfg G s t
  | accept {s : State} {fd : ℕ} {malloc : Bool} (stale : ℕ → UInt8)
      (hfresh : fd ∉ cfg.fds ∧ fd ∉ s.conns.map Conn.fd) (hG : G s fd malloc) :
      Effect cfg G s (addClient fd malloc stale s)
  | serve {s : State} {c : Client} (hc : c.toConn ∈ s.clientLst.map Client.toConn) :
      Effect cfg G s (s.log [.serve c.fd c.conn])
  | close {s : State} {c : Client} (hc : c.toConn ∈ s.clientLst.map Client.toConn) :
      Effect cfg G s (dropClient c s)
  | hangup {s : State} {a : Autosample} (ha : a ∈ cfg.autosample) :
      Effect cfg G s
        { s with readfds := s.readfds.erase a.writeFd, trace := s.trace ++ [.hangup] }
  | ret {s : State} (v : ℤ) : Effect cfg G s { s with returnValue := v }

/-- **What the walk over the clients does.** -/
inductive Served (cfg : Setup) : State → State → Prop
  | heard {s t : State} (h : Heard cfg s t) : Served cfg s t
  | serve {s : State} {c : Client} (hc : c.toConn ∈ s.clientLst.map Client.toConn) :
      Served cfg s (s.log [.serve c.fd c.conn])
  | close {s : State} {c : Client} (hc : c.toConn ∈ s.clientLst.map Client.toConn) :
      Served cfg s (dropClient c s)
  | ret {s : State} (v : ℤ) : Served cfg s { s with returnValue := v }

theorem Served.effect {cfg : Setup} {G : State → ℕ → Bool → Prop} {s t : State}
    (h : Served cfg s t) : Effect cfg G s t := by
  cases h with
  | heard h => exact .inner (.heard h)
  | serve hc => exact .serve hc
  | close hc => exact .close hc
  | ret v => exact .ret v

/-- Any number of effects of the walk. -/
abbrev Serving (cfg : Setup) : State → State → Prop :=
  Relation.ReflTransGen (Served cfg)

/-- Any number of effects of `nonblock_readline`. -/
abbrev Hearing (cfg : Setup) : State → State → Prop :=
  Relation.ReflTransGen (Heard cfg)

/-- Any number of effects inside one descriptor set. -/
abbrev Inners (cfg : Setup) : State → State → Prop :=
  Relation.ReflTransGen (Inner cfg)

/-- Any number of effects. -/
abbrev Effects (cfg : Setup) (G : State → ℕ → Bool → Prop) : State → State → Prop :=
  Relation.ReflTransGen (Effect cfg G)

theorem Hearing.inners {cfg : Setup} {s t : State} (h : Hearing cfg s t) : Inners cfg s t :=
  Relation.ReflTransGen.mono (fun _ _ => Inner.heard) _ _ h

theorem Hearing.serving {cfg : Setup} {s t : State} (h : Hearing cfg s t) : Serving cfg s t :=
  Relation.ReflTransGen.mono (fun _ _ => Served.heard) _ _ h

theorem Inners.effects {cfg : Setup} {G : State → ℕ → Bool → Prop} {s t : State}
    (h : Inners cfg s t) : Effects cfg G s t :=
  Relation.ReflTransGen.mono (fun _ _ => Effect.inner) _ _ h

theorem Serving.effects {cfg : Setup} {G : State → ℕ → Bool → Prop} {s t : State}
    (h : Serving cfg s t) : Effects cfg G s t :=
  Relation.ReflTransGen.mono (fun _ _ => Served.effect) _ _ h

variable {cfg : Setup} {G : State → ℕ → Bool → Prop} {s t : State} {p q : Port} {fd : ℕ}

/-- An invariant that every effect keeps is kept by any number. -/
theorem Effects.invariant {I : State → Prop} (h : Effects cfg G s t) (hs : I s)
    (hstep : ∀ u v, I u → Effect cfg G u v → I v) : I t := by
  induction h with
  | refl => exact hs
  | tail _ hv ih => exact hstep _ _ ih hv

/-! ## What an event is to the projections -/

/-- A projection that sees no inert event sees nothing in a list of
them. -/
theorem filterMap_inert {β : Type*} {f : Event → Option β} {es : List Event}
    (hf : ∀ e, e.Inert → f e = none) (h : ∀ e ∈ es, e.Inert) : es.filterMap f = [] :=
  List.filterMap_eq_nil_iff.mpr fun e he => hf e (h e he)

/-- And one that sees no byte of a port sees nothing of its reading
loop. -/
theorem filterMap_readLoop {β : Type*} {f : Event → Option β} {b : ReadBuffer} {xs : List UInt8}
    (hd : ∀ i, f (.dry p i) = none) (hf : ∀ i x, f (.read p i x) = none) :
    (readLoop p b xs).2.2.filterMap f = [] := by
  refine List.filterMap_eq_nil_iff.mpr fun e he => ?_
  obtain ⟨i, rfl | ⟨x, rfl⟩, -⟩ := readLoop_events xs b e he
  · exact hd i
  · exact hf i x

section Inert

variable {es : List Event} (h : ∀ e ∈ es, e.Inert)

include h

theorem acts_of_inert : acts es = [] :=
  filterMap_inert (fun e he => by cases e <;> first | rfl | exact he.elim) h

theorem bytesOf_of_inert : bytesOf p es = [] :=
  filterMap_inert (fun e he => by cases e <;> first | rfl | exact he.elim) h

theorem linesOf_of_inert : linesOf p es = [] :=
  filterMap_inert (fun e he => by cases e <;> first | rfl | exact he.elim) h

theorem accepts_of_inert : accepts es = [] :=
  filterMap_inert (fun e he => by cases e <;> first | rfl | exact he.elim) h

theorem closes_of_inert : closes es = [] :=
  filterMap_inert (fun e he => by cases e <;> first | rfl | exact he.elim) h

theorem serves_of_inert : serves es = [] :=
  filterMap_inert (fun e he => by cases e <;> first | rfl | exact he.elim) h

end Inert

section Read

variable {b : ReadBuffer} {xs : List UInt8}

theorem acts_readLoop : acts (readLoop p b xs).2.2 = [] :=
  filterMap_readLoop (fun _ => rfl) fun _ _ => rfl

theorem linesOf_readLoop : linesOf q (readLoop p b xs).2.2 = [] :=
  filterMap_readLoop (fun _ => rfl) fun _ _ => rfl

theorem accepts_readLoop : accepts (readLoop p b xs).2.2 = [] :=
  filterMap_readLoop (fun _ => rfl) fun _ _ => rfl

theorem closes_readLoop : closes (readLoop p b xs).2.2 = [] :=
  filterMap_readLoop (fun _ => rfl) fun _ _ => rfl

theorem serves_readLoop : serves (readLoop p b xs).2.2 = [] :=
  filterMap_readLoop (fun _ => rfl) fun _ _ => rfl

theorem hangup_readLoop : Event.hangup ∉ (readLoop p b xs).2.2 := fun he => by
  obtain ⟨i, h | ⟨x, h⟩, -⟩ := readLoop_events xs b _ he <;> cases h

/-- A port's loop reads that port's bytes. -/
theorem bytesOf_readLoop (hne : q ≠ p) : bytesOf q (readLoop p b xs).2.2 = [] :=
  filterMap_readLoop (fun _ => rfl) fun _ _ => if_neg hne.symm

end Read

/-- The stores that end a firmware line are all there is to it. -/
theorem endTtyLine_events (b : ReadBuffer) :
    ∀ e ∈ (endTtyLine b).2, ∃ i ≤ b.offset, e = .store .tty i := by
  intro e he
  simp only [endTtyLine] at he
  split at he
  · rcases List.mem_cons.mp he with rfl | he
    · exact ⟨b.offset, le_rfl, rfl⟩
    · exact ⟨b.offset - 1, Nat.sub_le _ _, List.mem_singleton.mp he⟩
  · exact ⟨b.offset, le_rfl, List.mem_singleton.mp he⟩

/-- A projection that sees no store sees nothing of them. -/
theorem filterMap_endTtyLine {β : Type*} {f : Event → Option β} (b : ReadBuffer)
    (hf : ∀ i, f (.store .tty i) = none) : (endTtyLine b).2.filterMap f = [] := by
  refine List.filterMap_eq_nil_iff.mpr fun e he => ?_
  obtain ⟨i, -, rfl⟩ := endTtyLine_events b e he
  exact hf i

theorem hangup_endTtyLine (b : ReadBuffer) : Event.hangup ∉ (endTtyLine b).2 := fun he => by
  obtain ⟨i, -, h⟩ := endTtyLine_events b _ he
  cases h

/-! ## The pieces of an iteration -/

section Pieces

variable {opt : Options}

@[simp] theorem feeds_log (es : List Event) : (s.log es).Feeds cfg p fd ↔ s.Feeds cfg p fd := by
  cases p <;> rfl

/-- Only the list of the clients' connections decides what a port is read
on. -/
theorem State.Feeds.congr (h : s.Feeds cfg p fd)
    (hst : t.clientLst.map Client.toConn = s.clientLst.map Client.toConn) : t.Feeds cfg p fd := by
  cases p with
  | tty => exact h
  | autosample => exact h
  | client k => rw [State.Feeds, hst]; exact h

theorem hearing_sendResponse (text : CStr) : Hearing cfg s (s.sendResponse fd text) :=
  .single (.note fun e he => by rw [List.mem_singleton.mp he]; trivial)

theorem hearing_sendToListener (flag : Listeners → Bool) (except : Option ℕ) (text : CStr) :
    Hearing cfg s (s.sendToListener flag except text) := by
  refine .single (.note fun e he => ?_)
  obtain ⟨c, -, rfl⟩ := List.mem_map.mp he
  trivial

theorem processRequest_hearing {mem : CmdMem} {id : CmdId} {cmd : CStr} (hp : s.Feeds cfg p fd)
    (hid : id ≠ .log ∧ id ≠ .listen) :
    Hearing cfg s (processRequest opt mem p fd id cmd s).2 := by
  set value := findValue opt id (behindBlank cmd) with hvalue
  set s₁ := if value.isNone then s.sendResponse fd (invalidText id) else s with hs₁
  set s₂ := if mem.asprintf then s₁.sendToListener Listeners.request (some fd) (requestText cmd)
    else s₁ with hs₂
  have h₁ : Hearing cfg s s₁ := by
    rw [hs₁]
    split
    · exact hearing_sendResponse _
    · exact .refl
  have h₂ : Hearing cfg s₁ s₂ := by
    rw [hs₂]
    split
    · exact hearing_sendToListener _ _ _
    · exact .refl
  have hlst : s₂.clientLst = s.clientLst := by
    rw [hs₂, hs₁]
    split <;> split <;> rfl
  refine (h₁.trans h₂).trans ?_
  have hdef : processRequest opt mem p fd id cmd s =
      if (cmdPush s₂.cmdQ ⟨s₂.pushed, p, fd, id, value⟩ mem.toPushMem).1 = 0 then
        (0, { s₂ with
          cmdQ := (cmdPush s₂.cmdQ ⟨s₂.pushed, p, fd, id, value⟩ mem.toPushMem).2
          trace := s₂.trace ++ [.push ⟨s₂.pushed, p, fd, id, value⟩] })
      else ((cmdPush s₂.cmdQ ⟨s₂.pushed, p, fd, id, value⟩ mem.toPushMem).1, s₂) := rfl
  rw [hdef, cmdPush]
  split
  · exact .refl
  · split
    · exact .refl
    · exact .single (.push (r := ⟨s₂.pushed, p, fd, id, value⟩)
        (hp.congr (by rw [hlst])) rfl hid)

/-- **`process_cmd`, beside the flags it sets.** -/
theorem processCmd_hearing {mem : CmdMem} {text : CStr} (hp : s.Feeds cfg p fd) :
    Hearing cfg (s.setListeners fd (listenEffect text)) (processCmd opt mem p fd text s).2 := by
  rw [processCmd, listenEffect]
  cases h : recognise text with
  | none => rw [State.setListeners_id]
  | some r =>
      obtain ⟨id, cmd⟩ := r
      have hstore : Hearing cfg s (s.log [.store p 5]) :=
        .single (.note fun e he => by rw [List.mem_singleton.mp he]; exact (by decide : 5 < 100))
      cases id with
      | listen => exact .refl
      | log => rw [State.setListeners_id]
      | sample =>
          rw [State.setListeners_id]
          exact processRequest_hearing hp (by decide)
      | powerOn =>
          rw [State.setListeners_id]
          exact hstore.trans (processRequest_hearing (feeds_log _ |>.mpr hp) (by decide))
      | powerOff =>
          rw [State.setListeners_id]
          exact hstore.trans (processRequest_hearing (feeds_log _ |>.mpr hp) (by decide))

/-- **`nonblock_readline` does nothing else.** -/
theorem nonblockReadline_hearing {f : Feed} (hp : s.Feeds cfg p fd) (hne : p ≠ .tty) :
    Hearing cfg s (nonblockReadline opt p fd f s).2 := by
  rw [nonblockReadline]
  rcases h : readLoop p (s.buffer p) f.bytes with ⟨x, b, es⟩
  cases x with
  | dry => exact .single (.read hp hne h (by decide))
  | overflow => exact .single (.read hp hne h (by decide))
  | newline =>
      refine .head (.line hp hne h) (processCmd_hearing ?_)
      exact hp.congr (by simp)

theorem nonblockReadline_inners {f : Feed} (hp : s.Feeds cfg p fd) (hne : p ≠ .tty) :
    Inners cfg s (nonblockReadline opt p fd f s).2 :=
  (nonblockReadline_hearing hp hne).inners

theorem inners_sendCategory (line : CStr) (word : String) (flag : Listeners → Bool)
    (except : Option ℕ) (text : CStr) :
    Inners cfg s (s.sendCategory line word flag except text) := by
  rw [State.sendCategory]
  split
  · exact (hearing_sendToListener _ _ _).inners
  · exact .refl

/-- A line that `process_tty` acts on stays inside. -/
theorem handleTtyLine_inners {line : CStr} : Inners cfg s (handleTtyLine opt line s) :=
  .trans (.single (.answer _)) <| (inners_sendCategory _ _ _ _ _).trans <|
    (inners_sendCategory _ _ _ _ _).trans <| (inners_sendCategory _ _ _ _ _).trans <|
      (inners_sendCategory _ _ _ _ _).trans (.single (.pop false))

/-- **`process_tty` stays inside.** -/
theorem processTty_inners {f : TtyFeed} : Inners cfg s (processTty opt f s).2 := by
  rw [processTty]
  rcases h : readLoop .tty s.ttyBuffer f.bytes with ⟨x, b, es⟩
  cases x with
  | dry => exact .single (.ttyRead h (by decide))
  | overflow => exact .single (.ttyRead h (by decide))
  | newline => exact .head (.ttyLine h rfl) handleTtyLine_inners

end Pieces

end Daemon

end Realraum
