import Realraum.Daemon.Helpers.Calls
/-!
# Helpers — the flags of a client

A client's flags are its own `listen` lines folded over no subscription
(`Reachable.flags`): a line of a client is looked up by descriptor, and
no other client and not the pipe of the child has that descriptor.
-/

namespace Realraum

namespace Daemon

variable {cfg : Setup} {G : State → ℕ → Bool → Prop} {A : State → Env → Prop} {s t : State}
variable {c : Client} {p : Port} {fd : ℕ}

/-- The flags of a client that sent these lines. -/
def flagsAfter (lines : List CStr) : Listeners :=
  lines.foldl (fun l text => listenEffect text l) .none

theorem flagsAfter_append (lines : List CStr) (text : CStr) :
    flagsAfter (lines ++ [text]) = listenEffect text (flagsAfter lines) := by
  simp [flagsAfter]

/-- **Every client's flags are its own doing.** -/
def Flags (s : State) : Prop :=
  ∀ c ∈ s.clientLst, c.listeners = flagsAfter (linesOf (.client c.conn) s.trace)

theorem Flags.congr (h : Flags s)
    (hclients : ∀ c ∈ t.clientLst, ∃ c' ∈ s.clientLst, c'.conn = c.conn ∧
      c'.listeners = c.listeners)
    (hlines : ∀ k, linesOf (.client k) t.trace = linesOf (.client k) s.trace) : Flags t := by
  intro c hc
  obtain ⟨c', hc', hconn, hflags⟩ := hclients c hc
  rw [hlines, ← hconn, ← hflags]
  exact h c' hc'

/-- Events that are no lines of clients leave them alone. -/
theorem Flags.note (h : Flags s) (es : List Event) (hes : ∀ k, linesOf (.client k) es = [])
    (ht : t.trace = s.trace ++ es)
    (hclients : ∀ c ∈ t.clientLst, ∃ c' ∈ s.clientLst, c'.conn = c.conn ∧
      c'.listeners = c.listeners) : Flags t :=
  h.congr hclients fun k => by rw [ht, linesOf_append, hes, List.append_nil]

/-- A change of a buffer is no change of flags. -/
theorem setBuffer_flags (b : ReadBuffer) :
    ∀ c ∈ (s.setBuffer p b).clientLst, ∃ c' ∈ s.clientLst, c'.conn = c.conn ∧
      c'.listeners = c.listeners := by
  intro c hc
  cases p with
  | tty => exact ⟨c, hc, rfl, rfl⟩
  | autosample => exact ⟨c, hc, rfl, rfl⟩
  | client k =>
      obtain ⟨c', hc', rfl⟩ := List.mem_map.mp hc
      refine ⟨c', hc', ?_⟩
      split <;> exact ⟨rfl, rfl⟩

/-- `client_find` on a descriptor of the loop's own finds nobody. -/
theorem Inv.clientFind_own (h : Inv cfg s) (hfd : fd ∈ cfg.fds) :
    clientFind s.clientLst fd = none := by
  refine List.find?_eq_none.mpr fun c hc heq => ?_
  have hown := h.own _ (h.toConn_mem hc)
  have hcfd : c.fd = fd := by simpa using heq
  exact hown (by rw [Client.toConn, hcfd]; exact hfd)

/-- **One line of a client or of the child.** The flags of its sender
change by what it says, and no others. -/
theorem Flags.takeLine (h : Flags s) (es : List Event) (text : CStr) (hinv : Inv cfg s)
    (hp : s.Feeds cfg p fd) (hne : p ≠ .tty) (hes : ∀ k, linesOf (.client k) es = []) :
    Flags ((s.log (es ++ [.line p text])).setListeners fd (listenEffect text)) := by
  have hlines : ∀ k, linesOf (.client k) (s.trace ++ (es ++ [.line p text])) =
      linesOf (.client k) s.trace ++ linesOf (.client k) [.line p text] := fun k => by
    rw [linesOf_append, linesOf_append, hes, List.nil_append]
  have hother : ∀ k, Port.client k ≠ p → linesOf (.client k) [.line p text] = [] := fun k hk => by
    simp [linesOf, Ne.symm hk]
  intro d hd
  cases p with
  | tty => exact absurd rfl hne
  | autosample =>
      obtain ⟨a, ha, rfl⟩ := hp
      have hown : a.writeFd ∈ cfg.fds := by
        simp only [Setup.fds, List.mem_cons, List.mem_flatMap, Option.mem_toList]
        exact .inr (.inr (.inr ⟨a, ha, .inl rfl⟩))
      rw [State.setListeners_of_none (s := s.log _) (hinv.clientFind_own hown)] at hd
      rw [State.setListeners_trace, State.log_trace, hlines, hother _ (by simp), List.append_nil]
      exact h d hd
  | client k =>
      obtain ⟨c, hc, hconn⟩ := List.mem_map.mp hp
      obtain rfl : c.fd = fd := congrArg Conn.fd hconn
      obtain rfl : c.conn = k := congrArg Conn.serial hconn
      rw [State.setListeners_of_some (s := s.log _) (hinv.clientFind_of_mem hc)] at hd
      obtain ⟨d', hd', rfl⟩ := List.mem_map.mp hd
      rw [State.setListeners_trace, State.log_trace]
      -- the line is one more for the client it came from, and none for another
      by_cases hdc : d'.conn = c.conn
      · have hown : linesOf (.client d'.conn) [.line (.client c.conn) text] = [text] := by
          simp [linesOf, hdc]
        rw [if_pos hdc]
        simp only
        rw [hlines, hown, flagsAfter_append, ← h d' hd']
      · rw [if_neg hdc, hlines, hother _ (by simpa using hdc), List.append_nil]
        exact h d' hd'

theorem Heard.flags (h : Heard cfg s t) (hinv : Inv cfg s) (hs : Flags s) : Flags t := by
  have hself : ∀ c ∈ s.clientLst, ∃ c' ∈ s.clientLst, c'.conn = c.conn ∧
      c'.listeners = c.listeners := fun c hc => ⟨c, hc, rfl, rfl⟩
  cases h with
  | @read p fd xs x b es hp hne hr hx =>
      obtain rfl : es = (readLoop p (s.buffer p) xs).2.2 := by rw [hr]
      exact hs.note (readLoop p (s.buffer p) xs).2.2 (fun k => linesOf_readLoop)
        (by simp) (setBuffer_flags b)
  | @line p fd xs b es hp hne hr =>
      obtain rfl : es = (readLoop p (s.buffer p) xs).2.2 := by rw [hr]
      have hset : Flags (s.setBuffer p (b.store b.offset 0).reset) :=
        hs.note [] (fun _ => rfl) (by simp) (setBuffer_flags _)
      have htake := hset.takeLine ((readLoop p (s.buffer p) xs).2.2 ++ [.store p b.offset])
        (b.store b.offset 0).text (hinv.congr Same.of_setBuffer) (hp.congr State.setBuffer_toConn)
        hne (fun k => by rw [linesOf_append, linesOf_readLoop]; rfl)
      rwa [List.append_assoc] at htake
  | note h => exact hs.note _ (fun _ => linesOf_of_inert h) rfl hself
  | push => exact hs.note _ (fun _ => rfl) rfl hself

theorem Inner.flags (h : Inner cfg s t) (hinv : Inv cfg s) (hs : Flags s) : Flags t := by
  have hself : ∀ c ∈ s.clientLst, ∃ c' ∈ s.clientLst, c'.conn = c.conn ∧
      c'.listeners = c.listeners := fun c hc => ⟨c, hc, rfl, rfl⟩
  cases h with
  | heard h => exact h.flags hinv hs
  | @ttyRead xs x b es hr hx =>
      obtain rfl : es = (readLoop .tty s.ttyBuffer xs).2.2 := by rw [hr]
      exact hs.note (readLoop .tty s.ttyBuffer xs).2.2 (fun k => linesOf_readLoop)
        (by simp) (setBuffer_flags b)
  | @ttyLine xs b b' es es' hr h' =>
      obtain rfl : es = (readLoop .tty s.ttyBuffer xs).2.2 := by rw [hr]
      obtain rfl : es' = (endTtyLine b).2 := by rw [h']
      have hend : ∀ k, linesOf (.client k) (endTtyLine b).2 = [] :=
        fun k => filterMap_endTtyLine b fun _ => rfl
      refine hs.note ((readLoop .tty s.ttyBuffer xs).2.2 ++ (endTtyLine b).2 ++
        [.line .tty b'.text]) (fun k => ?_) (by simp) (setBuffer_flags _)
      rw [linesOf_append, linesOf_append, linesOf_readLoop, hend]
      rfl
  | answer text =>
      rw [State.sendAnswer]
      split
      · exact hs
      · exact hs.note _ (fun _ => rfl) rfl hself
  | pop expired =>
      rw [State.popCmd]
      split
      · exact hs
      · exact hs.note _ (fun _ => rfl) rfl hself
  | write => exact hs.note _ (fun _ => rfl) rfl hself
  | enabled => exact hs.note [] (fun _ => rfl) (by simp) hself

/-- **Every effect keeps the flags right.** A new client starts without
any, and no line was taken from its connection. -/
theorem Effect.flags (h : Effect cfg G s t) (hinv : Inv cfg s) (hframed : Framed s)
    (hs : Flags s) : Flags t := by
  have hself : ∀ c ∈ s.clientLst, ∃ c' ∈ s.clientLst, c'.conn = c.conn ∧
      c'.listeners = c.listeners := fun c hc => ⟨c, hc, rfl, rfl⟩
  cases h with
  | inner hi => exact hi.flags hinv hs
  | @accept fd malloc stale hfresh hG =>
      have hlines : ∀ k, linesOf (.client k) (addClient fd malloc stale s).trace =
          linesOf (.client k) s.trace := fun k => by simp [addClient, linesOf]
      intro c hc
      rw [hlines]
      simp only [addClient, clientAdd] at hc
      split at hc
      · exact hs c hc
      · rcases List.mem_append.mp hc with hc | hc
        · exact hs c hc
        -- no line came from a connection before it was accepted
        · have hnone : linesOf (.client s.accepted) s.trace = [] := by
            rw [hframed.lines, Daemon.framed, hframed.unread _ le_rfl]
            rfl
          rw [List.mem_singleton.mp hc, hnone]
          rfl
  | serve => exact hs.note _ (fun _ => rfl) rfl hself
  | close =>
      exact hs.note _ (fun _ => rfl) rfl fun c hc => ⟨c, List.mem_of_mem_eraseP hc, rfl, rfl⟩
  | hangup => exact hs.note _ (fun _ => rfl) rfl hself
  | ret => exact hs.note [] (fun _ => rfl) (by simp) hself

/-- **The flags are right in every run.** -/
theorem Reachable.flags (h : Reachable cfg A s) : Flags s :=
  (h.invariant (I := fun u => Framed u ∧ Flags u) (fun _ _ _ => True)
    (fun _ _ => ⟨Framed.entry _ _, fun c hc => by cases hc⟩) (fun _ _ _ _ _ _ _ _ _ => trivial)
    fun _ _ hinv hu he => ⟨he.framed hinv hu.1, he.flags hinv hu.1 hu.2⟩).2

end Daemon

end Realraum
