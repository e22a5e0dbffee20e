import Realraum.Daemon.Helpers.Calls
/-!
# Helpers — what the loop does for the lines of the pipe

A line from the autosample process is the one thing that makes the loop
queue a request of the pipe, or answer on it: every other piece of an
iteration is elsewhere. So the requests of the pipe are what its lines ask
for (`Reachable.piped`), unless memory ran out for the last, which ends the
loop.
-/

namespace Realraum

namespace Daemon

variable {cfg : Setup} {A : State → Env → Prop} {s t u : State} {p : Port} {fd : ℕ} {e : Env}
variable {out : Prop} {fds : Finset ℕ} {opt : Options} {mem : CmdMem} {a : Autosample} {text : CStr}

/-- What a line asks for, with the value that is found. -/
def requestOfLine (opt : Options) (line : CStr) : Option (CmdId × Option CStr) :=
  match recognise line with
  | some (.powerOn, cmd) => some (.powerOn, findValue opt .powerOn (behindBlank cmd))
  | some (.powerOff, cmd) => some (.powerOff, findValue opt .powerOff (behindBlank cmd))
  | some (.sample, cmd) => some (.sample, findValue opt .sample (behindBlank cmd))
  | _ => none

/-- The requests a port's lines were queued as. -/
def requestsOf (p : Port) (tr : List Event) : List (CmdId × Option CStr) :=
  tr.filterMap fun
    | .push r => if r.port = p then some (r.cmd, r.param) else none
    | _ => none

/-- The event is a line or a request of the pipe, or an answer on it. -/
def Event.OnPipe (a : Autosample) : Event → Prop
  | .line p _ => p = .autosample
  | .push r => r.port = .autosample
  | .respond fd _ _ => fd = a.writeFd
  | _ => False

/-- **Nothing happens on the pipe.** -/
def Elsewhere (a : Autosample) (s t : State) : Prop :=
  ∃ es, t.trace = s.trace ++ es ∧ ∀ e ∈ es, ¬ e.OnPipe a

theorem Elsewhere.refl (a : Autosample) (s : State) : Elsewhere a s s :=
  ⟨[], by simp, by simp⟩

theorem Elsewhere.trans (h : Elsewhere a s t) (h' : Elsewhere a t u) : Elsewhere a s u := by
  obtain ⟨es, ht, hes⟩ := h
  obtain ⟨es', hu, hes'⟩ := h'
  refine ⟨es ++ es', by rw [hu, ht, List.append_assoc], fun e he => ?_⟩
  exact (List.mem_append.mp he).elim (hes e) (hes' e)

/-- One thing happened, and not on the pipe. -/
theorem Elsewhere.event {x : Event} (ht : t.trace = s.trace ++ [x]) (hx : ¬ x.OnPipe a) :
    Elsewhere a s t :=
  ⟨[x], ht, fun e he => by rw [List.mem_singleton.mp he]; exact hx⟩

theorem Elsewhere.same (ht : t.trace = s.trace) : Elsewhere a s t :=
  ⟨[], by rw [ht, List.append_nil], by simp⟩

/-- The clients are not on the pipe's descriptor. -/
def Apart (a : Autosample) (s : State) : Prop :=
  ∀ k ∈ s.clientLst.map Client.toConn, k.fd ≠ a.writeFd

theorem Inv.apart (h : Inv cfg s) (ha : a ∈ cfg.autosample) : Apart a s := by
  intro k hk hfd
  refine h.own k (h.clients.subset hk) ?_
  rw [hfd, Setup.fds, Option.mem_def.mp ha]
  simp

theorem Apart.congr (h : Apart a s)
    (ht : t.clientLst.map Client.toConn = s.clientLst.map Client.toConn) : Apart a t := by
  rw [Apart, ht]
  exact h

/-! ## Reading a port -/

theorem not_onPipe_readLoop {b : ReadBuffer} {xs : List UInt8} :
    ∀ e ∈ (readLoop p b xs).2.2, ¬ e.OnPipe a := by
  intro e he
  obtain ⟨i, rfl | ⟨x, rfl⟩, -⟩ := readLoop_events xs b e he <;> exact id

theorem sendToListener_elsewhere (h : Apart a s) (flag : Listeners → Bool) (except : Option ℕ)
    (text : CStr) : Elsewhere a s (s.sendToListener flag except text) := by
  refine ⟨_, rfl, fun e he => ?_⟩
  obtain ⟨c, hc, rfl⟩ := List.mem_map.mp he
  exact h c.toConn (List.mem_map_of_mem (List.mem_filter.mp hc).1)

theorem not_onPipe_notes (hfd : fd ≠ a.writeFd) (h : Apart a s) (id : CmdId) (cmd : CStr) :
    ∀ e ∈ requestNotes opt mem fd id cmd s, ¬ e.OnPipe a := by
  intro e he
  rcases List.mem_append.mp he with he | he
  · split at he
    · rw [List.mem_singleton.mp he]
      exact hfd
    · cases he
  · split at he
    · obtain ⟨c, hc, rfl⟩ := List.mem_map.mp he
      exact h c.toConn (List.mem_map_of_mem (List.mem_filter.mp hc).1)
    · cases he

/-- A request of another port. -/
theorem processRequest_elsewhere (hp : p ≠ .autosample) (hfd : fd ≠ a.writeFd) (h : Apart a s)
    (id : CmdId) (cmd : CStr) : Elsewhere a s (processRequest opt mem p fd id cmd s).2 := by
  have hnotes : ∀ e ∈ requestNotes opt mem fd id cmd s, ¬ e.OnPipe a :=
    not_onPipe_notes hfd h id cmd
  rw [processRequest_eq]
  split
  · refine ⟨requestNotes opt mem fd id cmd s ++ [.push (requestOf opt p fd id cmd s)],
      List.append_assoc .., fun e he => ?_⟩
    rcases List.mem_append.mp he with he | he
    · exact hnotes e he
    · rw [List.mem_singleton.mp he]
      exact hp
  · exact ⟨_, rfl, hnotes⟩

theorem processCmd_elsewhere (hp : p ≠ .autosample) (hfd : fd ≠ a.writeFd) (h : Apart a s) :
    Elsewhere a s (processCmd opt mem p fd text s).2 := by
  rw [processCmd]
  cases recognise text with
  | none => exact .refl a s
  | some r =>
      obtain ⟨id, cmd⟩ := r
      have hstore : Elsewhere a s (s.log [.store p 5]) := .event rfl fun h => h
      have hlog : Apart a (s.log [.store p 5]) := h
      cases id with
      | listen => exact .same rfl
      | log => exact .refl a s
      | sample => exact processRequest_elsewhere hp hfd h _ _
      | powerOn => exact hstore.trans (processRequest_elsewhere hp hfd hlog _ _)
      | powerOff => exact hstore.trans (processRequest_elsewhere hp hfd hlog _ _)

/-- **A call for another port.** -/
theorem nonblockReadline_elsewhere {f : Feed} (hp : p ≠ .autosample) (hfd : fd ≠ a.writeFd)
    (h : Apart a s) : Elsewhere a s (nonblockReadline opt p fd f s).2 := by
  have hread : ∀ e ∈ (readLoop p (s.buffer p) f.bytes).2.2, ¬ e.OnPipe a := not_onPipe_readLoop
  rw [nonblockReadline]
  rcases hr : readLoop p (s.buffer p) f.bytes with ⟨x, b, es⟩
  rw [hr] at hread
  cases x with
  | dry => exact ⟨es, by simp, hread⟩
  | overflow => exact ⟨es, by simp, hread⟩
  | newline =>
      refine Elsewhere.trans (t := (s.setBuffer p (b.store b.offset 0).reset).log
        (es ++ [.store p b.offset, .line p (b.store b.offset 0).text])) ⟨_, by simp; rfl, ?_⟩
        (processCmd_elsewhere hp hfd (h.congr (by simp)))
      intro e he
      rcases List.mem_append.mp he with he | he
      · exact hread e he
      · rcases List.mem_cons.mp he with rfl | he
        · exact id
        · rw [List.mem_singleton.mp he]
          exact hp

theorem sendCategory_elsewhere (h : Apart a s) (line : CStr) (word : String)
    (flag : Listeners → Bool) (except : Option ℕ) (text : CStr) :
    Elsewhere a s (s.sendCategory line word flag except text) := by
  rw [State.sendCategory]
  split
  · exact sendToListener_elsewhere h flag except text
  · exact .refl a s

theorem popCmd_elsewhere (expired : Bool) : Elsewhere a s (s.popCmd expired) := by
  rw [State.popCmd]
  split
  · exact .refl a s
  · exact .event rfl id

theorem sendAnswer_elsewhere (text : CStr) : Elsewhere a s (s.sendAnswer text) := by
  rw [State.sendAnswer]
  split
  · exact .refl a s
  · exact .event rfl id

theorem Apart.sendAnswer (h : Apart a s) (text : CStr) : Apart a (s.sendAnswer text) :=
  h.congr (by rw [State.sendAnswer]; split <;> rfl)

theorem Apart.sendCategory (h : Apart a s) (line : CStr) (word : String) (flag : Listeners → Bool)
    (except : Option ℕ) (text : CStr) : Apart a (s.sendCategory line word flag except text) :=
  h.congr (by rw [State.sendCategory]; split <;> rfl)

/-- **A firmware line.** -/
theorem handleTtyLine_elsewhere (h : Apart a s) (line : CStr) :
    Elsewhere a s (handleTtyLine opt line s) := by
  have hcategory : ∀ {u : State} (word : String) (flag : Listeners → Bool) (except : Option ℕ)
      (text : CStr), Elsewhere a s u ∧ Apart a u →
      Elsewhere a s (u.sendCategory line word flag except text) ∧
        Apart a (u.sendCategory line word flag except text) :=
    fun word flag except text hu =>
      ⟨hu.1.trans (sendCategory_elsewhere hu.2 line word flag except text),
        hu.2.sendCategory line word flag except text⟩
  have hanswer := sendAnswer_elsewhere (a := a) (s := s) (responseData opt line)
  rw [handleTtyLine]
  exact (hcategory _ _ _ _ (hcategory _ _ _ _ (hcategory _ _ _ _ (hcategory _ _ _ _
    ⟨hanswer, h.sendAnswer _⟩)))).1.trans (popCmd_elsewhere false)

theorem processTty_elsewhere {f : TtyFeed} (h : Apart a s) :
    Elsewhere a s (processTty opt f s).2 := by
  have hread : ∀ e ∈ (readLoop .tty s.ttyBuffer f.bytes).2.2, ¬ e.OnPipe a := not_onPipe_readLoop
  rw [processTty]
  rcases hr : readLoop .tty s.ttyBuffer f.bytes with ⟨x, b, es⟩
  rw [hr] at hread
  cases x with
  | dry => exact ⟨es, by simp, hread⟩
  | overflow => exact ⟨es, by simp, hread⟩
  | newline =>
      have hstores : ∀ e ∈ (endTtyLine b).2, ¬ e.OnPipe a := fun e he => by
        obtain ⟨i, -, rfl⟩ := endTtyLine_events b e he
        exact id
      have hevents : ∀ e ∈ es ++ (endTtyLine b).2 ++ [.line .tty (endTtyLine b).1.text],
          ¬ e.OnPipe a := fun e he => by
        rcases List.mem_append.mp he with he | he
        · exact (List.mem_append.mp he).elim (hread e) (hstores e)
        · rw [List.mem_singleton.mp he]
          exact fun h => by cases h
      set v := (s.setBuffer .tty (endTtyLine b).1.reset).log
        (es ++ (endTtyLine b).2 ++ [.line .tty (endTtyLine b).1.text]) with hv
      have hread' : Elsewhere a s v := ⟨_, by rw [hv, State.log_trace, State.setBuffer_trace],
        hevents⟩
      have hapart : Apart a v := h.congr rfl
      exact hread'.trans (handleTtyLine_elsewhere hapart _)

/-! ## The pieces of an iteration -/

theorem expiryStep_elsewhere :
    (expiryStep e fds s).Sat (Elsewhere a s) (Elsewhere a s) := by
  rw [expiryStep]
  split
  · split
    · exact popCmd_elsewhere true
    · exact .refl a s
  · exact .refl a s

theorem signalStep_elsewhere : (signalStep cfg e fds s).Sat (Elsewhere a s) (Elsewhere a s) := by
  rw [signalStep]
  split
  · exact .same rfl
  · exact .refl a s

theorem ttyStep_elsewhere (h : Apart a s) :
    (ttyStep cfg e fds s).Sat (Elsewhere a s) (Elsewhere a s) := by
  rw [ttyStep]
  split
  · have htty : Elsewhere a s (processTty cfg.opt e.tty s).2 := processTty_elsewhere h
    simp only
    split
    · exact htty
    · exact htty.trans (.same rfl)
  · exact .refl a s

theorem acceptStep_elsewhere :
    (acceptStep cfg e fds s).Sat (Elsewhere a s) (Elsewhere a s) := by
  rw [acceptStep]
  split
  · cases e.accept with
    | none => exact .same rfl
    | some fd => exact .event rfl id
  · exact .refl a s

theorem sendStep_elsewhere : (sendStep e s).Sat (Elsewhere a s) (Elsewhere a s) := by
  rw [sendStep]
  cases s.cmdQ with
  | nil => exact .refl a s
  | cons c q =>
      simp only
      split
      · exact .refl a s
      · cases sendCommand c e.ttyWrites with
        | skipped => exact .refl a s
        | failed => exact .refl a s
        | wrote bytes => exact .event rfl id
        | hang => trivial

theorem enableStep_elsewhere : (enableStep cfg e s).Sat (Elsewhere a s) (Elsewhere a s) := by
  rw [enableStep]
  cases cfg.autosample with
  | none => exact .refl a s
  | some b =>
      simp only
      split
      · cases writeLoop e.childWrites with
        | none => trivial
        | some r => exact .event rfl id
      · exact .refl a s

/-- **The walk over the clients.** -/
theorem serveClients_elsewhere (ha : a ∈ cfg.autosample) (lst : List Client) :
    ∀ s : State, Inv cfg s → (∀ c ∈ lst, c.toConn ∈ s.clientLst.map Client.toConn) →
      (lst.map Client.toConn).Nodup → Elsewhere a s (serveClients cfg e fds lst s) := by
  refine serveClients_rule (.refl a) .trans (fun s c hinv hc => ?_) (fun s c _ => .event rfl id)
    (fun s v => .same rfl) lst
  have hserve : Elsewhere a s (s.log [.serve c.fd c.conn]) := .event rfl id
  exact hserve.trans
    (nonblockReadline_elsewhere (by simp) (hinv.apart ha c.toConn hc) (hinv.apart ha))

/-! ## A line of the pipe -/

theorem requestsOf_append (tr es : List Event) :
    requestsOf p (tr ++ es) = requestsOf p tr ++ requestsOf p es :=
  List.filterMap_append

/-- A line asks for nothing, or is processed as a request. -/
theorem processCmd_cases (opt : Options) (mem : CmdMem) (p : Port) (fd : ℕ) (text : CStr)
    (s : State) :
    (requestOfLine opt text = none ∧ (processCmd opt mem p fd text s).2.cmdQ = s.cmdQ ∧
        (processCmd opt mem p fd text s).2.trace = s.trace) ∨
      ∃ id cmd es, requestOfLine opt text = some (id, findValue opt id (behindBlank cmd)) ∧
        (es = [] ∨ es = [.store p 5]) ∧
        processCmd opt mem p fd text s = processRequest opt mem p fd id cmd (s.log es) := by
  have hrequest : ∀ {id : CmdId} {cmd : CStr},
      id = .powerOn ∨ id = .powerOff ∨ id = .sample → recognise text = some (id, cmd) →
      processCmd opt mem p fd text s =
        processRequest opt mem p fd id cmd (s.log (if id = .sample then [] else [.store p 5])) :=
    fun hid h => processCmd_request hid h
  cases h : recognise text with
  | none => exact .inl ⟨by rw [requestOfLine, h], by rw [processCmd, h], by rw [processCmd, h]⟩
  | some r =>
      obtain ⟨id, cmd⟩ := r
      cases id with
      | listen =>
          exact .inl ⟨by rw [requestOfLine, h], by rw [processCmd, h]; rfl,
            by rw [processCmd, h]; rfl⟩
      | log => exact .inl ⟨by rw [requestOfLine, h], by rw [processCmd, h], by rw [processCmd, h]⟩
      | sample =>
          exact .inr ⟨.sample, cmd, [], by rw [requestOfLine, h], .inl rfl,
            hrequest (.inr (.inr rfl)) h⟩
      | powerOn =>
          exact .inr ⟨.powerOn, cmd, [.store p 5], by rw [requestOfLine, h], .inr rfl,
            hrequest (.inl rfl) h⟩
      | powerOff =>
          exact .inr ⟨.powerOff, cmd, [.store p 5], by rw [requestOfLine, h], .inr rfl,
            hrequest (.inr (.inl rfl)) h⟩

/-- **What a line makes `process_cmd` queue**: what it asks for, if the
memory is there. -/
theorem processCmd_requestsOf :
    requestsOf p (processCmd opt mem p fd text s).2.trace = requestsOf p s.trace ++
      if (processCmd opt mem p fd text s).1 = 0 then (requestOfLine opt text).toList else [] := by
  obtain ⟨hnone, -, htrace⟩ | ⟨id, cmd, es, hline, hes, heq⟩ :=
    processCmd_cases opt mem p fd text s
  · rw [htrace, hnone]
    simp
  · have hnotes : requestsOf p (requestNotes opt mem fd id cmd (s.log es)) = [] :=
      filterMap_requestNotes id fun _ _ _ => rfl
    have hstore : requestsOf p es = [] := by rcases hes with rfl | rfl <;> rfl
    have hpush : requestsOf p [.push (requestOf opt p fd id cmd (s.log es))] =
        [(id, findValue opt id (behindBlank cmd))] := by
      simp [requestsOf, requestOf]
    rw [heq, processRequest_eq, hline]
    split
    · simp only [State.log_trace, requestsOf_append, hnotes, hstore, hpush, List.append_nil]
      rfl
    · simp only [State.log_trace, requestsOf_append, hnotes, hstore, List.append_nil]
      rw [if_neg (by decide), List.append_nil]

theorem processCmd_linesOf (q : Port) :
    linesOf q (processCmd opt mem p fd text s).2.trace = linesOf q s.trace := by
  obtain ⟨-, -, htrace⟩ | ⟨id, cmd, es, -, hes, heq⟩ := processCmd_cases opt mem p fd text s
  · rw [htrace]
  · have hnotes : linesOf q (requestNotes opt mem fd id cmd (s.log es)) = [] :=
      filterMap_requestNotes id fun _ _ _ => rfl
    have hstore : linesOf q es = [] := by rcases hes with rfl | rfl <;> rfl
    have hpush : linesOf q [.push (requestOf opt p fd id cmd (s.log es))] = [] := rfl
    rw [heq, processRequest_eq]
    split <;> simp [hnotes, hstore, hpush]

/-- `process_cmd` answers on the descriptor where nothing is found. -/
theorem processCmd_respond (h : Apart a s) {conn : Option ℕ} {reply : CStr}
    (hr : .respond a.writeFd conn reply ∈ (processCmd opt mem p fd text s).2.trace) :
    .respond a.writeFd conn reply ∈ s.trace ∨ ∃ id, requestOfLine opt text = some (id, none) := by
  obtain ⟨-, -, htrace⟩ | ⟨id, cmd, es, hline, hes, heq⟩ := processCmd_cases opt mem p fd text s
  · rw [htrace] at hr
    exact .inl hr
  · have hmem : .respond a.writeFd conn reply ∈ s.trace ++ es ∨
        .respond a.writeFd conn reply ∈ requestNotes opt mem fd id cmd (s.log es) := by
      rw [heq, processRequest_eq] at hr
      split at hr
      · simpa [or_assoc] using hr
      · simpa [or_assoc] using hr
    rcases hmem with hmem | hmem
    · rcases List.mem_append.mp hmem with hmem | hmem
      · exact .inl hmem
      · rcases hes with rfl | rfl
        · cases hmem
        · cases List.mem_singleton.mp hmem
    · rcases List.mem_append.mp hmem with hmem | hmem
      · split at hmem
        · rename_i hnone
          exact .inr ⟨id, by rw [hline, Option.isNone_iff_eq_none.mp hnone]⟩
        · cases hmem
      · split at hmem
        · obtain ⟨c, hc, heq⟩ := List.mem_map.mp hmem
          have hfd : c.fd = a.writeFd := by
            injection heq
          exact absurd hfd (h c.toConn (List.mem_map_of_mem (List.mem_filter.mp hc).1))
        · cases hmem

/-! ## The invariant -/

/-- **The pipe's requests are what its lines ask for.** -/
def Asked (opt : Options) (tr : List Event) : Prop :=
  requestsOf .autosample tr = (linesOf .autosample tr).filterMap (requestOfLine opt)

/-- The pipe's requests, the last line's apart. -/
def AskedButLast (opt : Options) (tr : List Event) : Prop :=
  requestsOf .autosample tr =
    (linesOf .autosample tr).dropLast.filterMap (requestOfLine opt)

/-- `cmd_push` has the memory it needs for a line of the pipe. -/
def PipeFits (_ : State) (e : Env) : Prop :=
  e.autosample.mem.malloc = true ∧ e.autosample.mem.strdup = true

/-- On the pipe only a line that nothing is found for is answered. -/
def Refused (opt : Options) (a : Autosample) (tr : List Event) : Prop :=
  ∀ conn reply, .respond a.writeFd conn reply ∈ tr →
    ∃ line ∈ linesOf .autosample tr, ∃ id, requestOfLine opt line = some (id, none)

theorem Elsewhere.requestsOf (h : Elsewhere a s t) :
    requestsOf .autosample t.trace = requestsOf .autosample s.trace := by
  obtain ⟨es, ht, hes⟩ := h
  have hnone : Daemon.requestsOf .autosample es = [] := by
    refine List.filterMap_eq_nil_iff.mpr fun e he => ?_
    have hnot := hes e he
    cases e <;> first | rfl | exact if_neg hnot
  rw [ht, requestsOf_append, hnone, List.append_nil]

theorem Elsewhere.linesOf (h : Elsewhere a s t) :
    linesOf .autosample t.trace = linesOf .autosample s.trace := by
  obtain ⟨es, ht, hes⟩ := h
  have hnone : Daemon.linesOf .autosample es = [] := by
    refine List.filterMap_eq_nil_iff.mpr fun e he => ?_
    have hnot := hes e he
    cases e <;> first | rfl | exact if_neg hnot
  rw [ht, linesOf_append, hnone, List.append_nil]

theorem Elsewhere.asked (h : Elsewhere a s t) (hs : Asked opt s.trace) : Asked opt t.trace := by
  rw [Asked, h.requestsOf, h.linesOf]
  exact hs

theorem Elsewhere.refused (h : Elsewhere a s t) (hs : Refused opt a s.trace) :
    Refused opt a t.trace := by
  intro conn reply hr
  rw [h.linesOf]
  obtain ⟨es, ht, hes⟩ := h
  rw [ht] at hr
  rcases List.mem_append.mp hr with hr | hr
  · exact hs conn reply hr
  · exact absurd rfl (hes _ hr)

/-- **A line of the pipe is queued as it asks**, or finds no memory. -/
theorem pipe_line {ls : List CStr} {line : CStr} (h : Apart a s)
    (hlines : linesOf .autosample s.trace = ls ++ [line])
    (hreq : requestsOf .autosample s.trace = ls.filterMap (requestOfLine opt))
    (hrefused : ∀ conn reply, .respond a.writeFd conn reply ∈ s.trace →
      ∃ l ∈ ls, ∃ id, requestOfLine opt l = some (id, none)) {r : ℤ × State}
    (hr : processCmd opt mem .autosample a.writeFd line s = r) :
    (r.1 ≠ -2 ∧ Asked opt r.2.trace ∨
      r.1 = -2 ∧ ¬ (mem.malloc = true ∧ mem.strdup = true) ∧ AskedButLast opt r.2.trace) ∧
      Refused opt a r.2.trace := by
  have hfst : r.1 = if pushFits opt mem line then 0 else -2 := by rw [← hr, processCmd_fst]
  have hafter : requestsOf .autosample r.2.trace = ls.filterMap (requestOfLine opt) ++
      if r.1 = 0 then (requestOfLine opt line).toList else [] := by
    rw [← hr, processCmd_requestsOf, hreq]
  have hkept : linesOf .autosample r.2.trace = ls ++ [line] := by
    rw [← hr, processCmd_linesOf, hlines]
  refine ⟨?_, fun conn reply hreply => ?_⟩
  · by_cases hfits : pushFits opt mem line = true
    · rw [if_pos hfits] at hfst
      rw [if_pos hfst] at hafter
      refine .inl ⟨by rw [hfst]; decide, ?_⟩
      rw [Asked, hafter, hkept, List.filterMap_append]
      congr 1
    · rw [if_neg hfits] at hfst
      rw [if_neg (by rw [hfst]; decide), List.append_nil] at hafter
      refine .inr ⟨hfst, fun hmem => hfits (pushFits_of_mem hmem), ?_⟩
      rw [AskedButLast, hafter, hkept, List.dropLast_concat]
  · rw [hkept]
    rw [← hr] at hreply
    rcases processCmd_respond h hreply with hmem | ⟨id, hnone⟩
    · obtain ⟨l, hl, hid⟩ := hrefused conn reply hmem
      exact ⟨l, List.mem_append_left _ hl, hid⟩
    · exact ⟨line, by simp, id, hnone⟩

/-- **A call on the pipe.** -/
theorem pipe_call {f : Feed} (h : Apart a s) (hasked : Asked opt s.trace)
    (hrefused : Refused opt a s.trace) {r : ℤ × State}
    (hr : nonblockReadline opt .autosample a.writeFd f s = r) :
    (r.1 ≠ -2 ∧ Asked opt r.2.trace ∨
      r.1 = -2 ∧ ¬ (f.mem.malloc = true ∧ f.mem.strdup = true) ∧ AskedButLast opt r.2.trace) ∧
      Refused opt a r.2.trace := by
  have hread : ∀ e ∈ (readLoop .autosample (s.buffer .autosample) f.bytes).2.2, ¬ e.OnPipe a :=
    not_onPipe_readLoop
  have hstop : f.stop.code ≠ -2 := by
    rcases f.stop with - | (- | - | - | - | -) <;> simp [ReadStop.code]
  rw [nonblockReadline] at hr
  rcases hloop : readLoop .autosample (s.buffer .autosample) f.bytes with ⟨x, b, es⟩
  rw [hloop] at hr hread
  have helse : ∀ b', Elsewhere a s ((s.setBuffer .autosample b').log es) :=
    fun b' => ⟨es, by simp, hread⟩
  cases x with
  | dry =>
      subst hr
      exact ⟨.inl ⟨hstop, (helse b).asked hasked⟩, (helse b).refused hrefused⟩
  | overflow =>
      subst hr
      exact ⟨.inl ⟨fun hcode => absurd hcode (by decide : (0 : ℤ) ≠ -2),
        (helse b).asked hasked⟩, (helse b).refused hrefused⟩
  | newline =>
      -- what was read, and then the line
      set v := (s.setBuffer .autosample (b.store b.offset 0).reset).log es with hv
      have hread' : Elsewhere a s v := helse _
      set line := (b.store b.offset 0).text with hline
      have hr' : processCmd opt f.mem .autosample a.writeFd line
          (v.log [.store .autosample b.offset, .line .autosample line]) = r := by
        rw [hv, State.log_log]
        exact hr
      have hlines : linesOf .autosample
          (v.log [.store .autosample b.offset, .line .autosample line]).trace =
            linesOf .autosample s.trace ++ [line] := by
        rw [State.log_trace, linesOf_append, hread'.linesOf]
        simp [linesOf]
      refine pipe_line (h.congr (by simp [hv])) hlines ?_ ?_ hr'
      · rw [State.log_trace, requestsOf_append, hread'.requestsOf, hasked]
        simp [requestsOf]
      · intro conn reply hmem
        rcases List.mem_append.mp hmem with hmem | hmem
        · rw [← hread'.linesOf]
          exact hread'.refused hrefused conn reply hmem
        · simp at hmem

/-- **The pipe in an iteration**: its requests are what its lines ask
for, or there was no memory for the last, which may be where `out` is. -/
def Piped (cfg : Setup) (a : Autosample) (out : Prop) (s : State) : Prop :=
  (Asked cfg.opt s.trace ∨ s.returnValue = -2 ∧ out ∧ AskedButLast cfg.opt s.trace) ∧
    Refused cfg.opt a s.trace

/-- What holds between the pieces. -/
def Piping (cfg : Setup) (a : Autosample) (s : State) : Prop :=
  Inv cfg s ∧ Asked cfg.opt s.trace ∧ Refused cfg.opt a s.trace

theorem Piping.piped (h : Piping cfg a s) : Piped cfg a out s := ⟨.inl h.2.1, h.2.2⟩

theorem Elsewhere.piped (h : Elsewhere a s t) (hs : Piping cfg a s) : Piped cfg a out t :=
  ⟨.inl (h.asked hs.2.1), h.refused hs.2.2⟩

/-- A piece of the iteration that is elsewhere. -/
theorem piece_piped {f : Flow State} (hinv : Inv cfg s) (h : Piping cfg a u)
    (helse : f.Sat (Elsewhere a u) (Elsewhere a u)) (hinners : f.Sat (Inners cfg s) fun _ => True) :
    f.Sat (fun t => Inners cfg s t ∧ Piping cfg a t) (Piped cfg a out) :=
  (helse.and hinners).imp
    (fun _ ht => ⟨ht.2, ht.2.effects (G := fun _ _ _ => True) |>.inv hinv, ht.1.asked h.2.1,
      ht.1.refused h.2.2⟩)
    fun _ ht => ht.1.piped h

theorem beforeAccept_piped (ha : a ∈ cfg.autosample) (h : Piping cfg a s) :
    (beforeAccept cfg e fds s).Sat (fun u => Inners cfg s u ∧ Piping cfg a u)
      (Piped cfg a out) := by
  have hinv := h.1
  refine Flow.Sat.bind (Q := fun u => Inners cfg s u ∧ Piping cfg a u)
    (Flow.Sat.bind (Q := fun u => Inners cfg s u ∧ Piping cfg a u) ?_ fun u hu => ?_)
    fun u hu => ?_
  · exact piece_piped hinv h expiryStep_elsewhere
      (expiryStep_sat.imp (fun _ h => h) fun _ _ => trivial)
  · exact piece_piped hinv hu.2 signalStep_elsewhere
      ((signalStep_sat (G := fun _ _ _ => True) hu.1).imp (fun _ h => h) fun _ _ => trivial)
  · exact piece_piped hinv hu.2 (ttyStep_elsewhere (hu.2.1.apart ha))
      ((ttyStep_sat (G := fun _ _ _ => True) hu.1).imp (fun _ h => h) fun _ _ => trivial)

theorem acceptStep_piped (hinv : Inv cfg s) (hfresh : e.Fresh cfg s) (hu : Inners cfg s u)
    (h : Piping cfg a u) : (acceptStep cfg e fds u).Sat (Piping cfg a) (Piped cfg a out) := by
  have heff : (acceptStep cfg e fds u).Sat (Effects cfg (fun _ _ _ => True) s)
      (Effects cfg (fun _ _ _ => True) s) := acceptStep_sat hu hfresh fun _ _ => trivial
  exact (acceptStep_elsewhere.and heff).imp
    (fun _ ht => ⟨ht.2.inv hinv, ht.1.asked h.2.1, ht.1.refused h.2.2⟩) fun _ ht => ht.1.piped h

/-- **The pipe's own piece.** -/
theorem autosampleStep_piped (ha : a ∈ cfg.autosample) (h : Piping cfg a s) :
    (autosampleStep cfg e fds s).Sat (Piping cfg a) (Piped cfg a (¬ PipeFits s e)) := by
  rw [autosampleStep, Option.mem_def.mp ha]
  simp only
  split
  · have hin : Inners cfg s
        (nonblockReadline cfg.opt .autosample a.writeFd e.autosample s).2 :=
      nonblockReadline_inners ⟨a, ha, rfl⟩ (by decide)
    have hinv := hin.effects (G := fun _ _ _ => True) |>.inv h.1
    obtain ⟨hcase, hrefused⟩ := pipe_call (h.1.apart ha) h.2.1 h.2.2
      (r := nonblockReadline cfg.opt .autosample a.writeFd e.autosample s) rfl
    split
    · rename_i htwo
      have hasked := hcase.resolve_right fun hlost => by omega
      have hevent : Elsewhere a (nonblockReadline cfg.opt .autosample a.writeFd e.autosample s).2
          { (nonblockReadline cfg.opt .autosample a.writeFd e.autosample s).2 with
            readfds := (nonblockReadline cfg.opt .autosample a.writeFd e.autosample
              s).2.readfds.erase a.writeFd
            trace := (nonblockReadline cfg.opt .autosample a.writeFd e.autosample s).2.trace ++
              [.hangup] } := .event rfl id
      exact hevent.piped ⟨hinv, hasked.2, hrefused⟩
    · split
      · rename_i hzero
        have hasked := hcase.resolve_right fun hlost => by omega
        exact ⟨hinv, hasked.2, hrefused⟩
      · refine ⟨?_, hrefused⟩
        rcases hcase with ⟨-, hasked⟩ | hlost
        · exact .inl hasked
        · exact .inr hlost
  · exact h

/-- **The clients and the rest.** -/
theorem fromClients_elsewhere (ha : a ∈ cfg.autosample) (hinv : Inv cfg s) :
    (fromClients cfg e fds s).Sat (Elsewhere a s) (Elsewhere a s) := by
  refine Flow.Sat.bind (Q := Elsewhere a s) (Flow.Sat.bind (Q := Elsewhere a s) ?_ fun u hu => ?_)
    fun u hu => ?_
  · exact serveClients_elsewhere ha s.clientLst s hinv (fun _ h => List.mem_map_of_mem h)
      (hinv.clients.nodup (List.Nodup.of_map _ hinv.fds))
  · exact sendStep_elsewhere.imp (fun _ h => hu.trans h) fun _ h => hu.trans h
  · exact enableStep_elsewhere.imp (fun _ h => hu.trans h) fun _ h => hu.trans h

/-- **An iteration keeps the pipe's account.** -/
theorem iteration_piped (ha : a ∈ cfg.autosample) (hfresh : e.Fresh cfg s) (h : Piping cfg a s)
    (ht : (iteration cfg e s).result = some t) : Piped cfg a (¬ PipeFits s e) t := by
  refine Flow.Sat.result (f := iteration cfg e s) ?_ ht
  rw [iteration]
  cases e.select with
  | failed =>
      have hsame : Elsewhere a s { s with returnValue := -1 } := .same rfl
      exact hsame.piped h
  | interrupted => exact h.piped
  | returned readable =>
      refine Flow.Sat.bind (Q := Piping cfg a) (Flow.Sat.bind (Q := Piping cfg a)
        (Flow.Sat.bind (beforeAccept_piped ha h) fun u hu => ?_) fun u hu => ?_) fun u hu => ?_
      · exact acceptStep_piped h.1 hfresh hu.1 hu.2
      · exact autosampleStep_piped ha hu
      · exact (fromClients_elsewhere ha hu.1).imp (fun _ hv => hv.piped hu) fun _ hv => hv.piped hu

/-- **In every run the pipe's requests are what its lines ask for**, unless
memory ran out for the last, and it is answered only where nothing is
found. -/
theorem Reachable.piped (ha : a ∈ cfg.autosample) (h : Reachable cfg A s) :
    Piped cfg a (∃ u e, A u e ∧ ¬ PipeFits u e) s := by
  have hinv := h.inv
  obtain ⟨staleTty, stalePipe, hr⟩ := h
  refine hr.invariant (I := Piped cfg a (∃ u e, A u e ∧ ¬ PipeFits u e))
    ⟨.inl rfl, by simp [Refused, entry]⟩ fun u e v hu hpiped hA hv => ?_
  have hzero := returnValue_of_loopStep hv
  have hasked := hpiped.1.resolve_right fun hlost => by
    have hret := hlost.1
    omega
  have hinvu : Inv cfg u := Reachable.inv (A := A) ⟨staleTty, stalePipe, hu⟩
  obtain ⟨hcase, hrefused⟩ :=
    iteration_piped ha hA.1 ⟨hinvu, hasked, hpiped.2⟩ (result_of_loopStep hv)
  exact ⟨hcase.imp_right fun hlost => ⟨hlost.1, ⟨u, e, hA.2, hlost.2.1⟩, hlost.2.2⟩, hrefused⟩

end Daemon

end Realraum
