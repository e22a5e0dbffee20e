import Realraum.Daemon.Helpers.Walk
import Realraum.Daemon.Helpers.Framed
/-!
# Helpers — one call of `nonblock_readline` on a client

What the call returns, as a condition on the client's buffer and the
call's input, and what it leaves of the client list and of the queue: the
list keeps every other node, and the queue grows by what a complete line
asks for.
-/

namespace Realraum

namespace Daemon

variable {cfg : Setup} {s : State} {p : Port} {fd : ℕ} {e : Env} {fds : Finset ℕ}
variable {opt : Options} {mem : CmdMem} {text cmd : CStr} {c : Client} {pre post : List Client}

/-! ## `process_cmd` -/

/-- `cmd_push` gets the memory this line needs, if it is a request. -/
def pushFits (opt : Options) (mem : CmdMem) (text : CStr) : Bool :=
  match recognise text with
  | none => true
  | some (.log, _) => true
  | some (.listen, _) => true
  | some (id, cmd) => mem.malloc && (mem.strdup || (findValue opt id (behindBlank cmd)).isNone)

/-- What a request is answered and told, before it is queued. -/
def requestNotes (opt : Options) (mem : CmdMem) (fd : ℕ) (id : CmdId) (cmd : CStr) (s : State) :
    List Event :=
  (if (findValue opt id (behindBlank cmd)).isNone then
    [.respond fd (s.connAt fd) (invalidText id)] else []) ++
  if mem.asprintf then
    (s.clientLst.filter fun c => c.listeners.request && some c.fd ≠ some fd).map
      fun c => .respond c.fd (s.connAt c.fd) (requestText cmd)
  else []

/-- The request a line is queued as. -/
def requestOf (opt : Options) (p : Port) (fd : ℕ) (id : CmdId) (cmd : CStr) (s : State) : Request :=
  ⟨s.pushed, p, fd, id, findValue opt id (behindBlank cmd)⟩

theorem mem_requestNotes {id : CmdId} {x : Event} (h : x ∈ requestNotes opt mem fd id cmd s) :
    ∃ fd' conn text, x = .respond fd' conn text := by
  rcases List.mem_append.mp h with h | h
  · split at h
    · exact ⟨_, _, _, List.mem_singleton.mp h⟩
    · cases h
  · split at h
    · obtain ⟨c, -, rfl⟩ := List.mem_map.mp h
      exact ⟨_, _, _, rfl⟩
    · cases h

/-- A projection that sees no answers sees nothing of the notes. -/
theorem filterMap_requestNotes {β : Type*} {f : Event → Option β} (id : CmdId)
    (hf : ∀ fd' conn text, f (.respond fd' conn text) = none) :
    (requestNotes opt mem fd id cmd s).filterMap f = [] :=
  List.filterMap_eq_nil_iff.mpr fun x hx => by
    obtain ⟨fd', conn, text, rfl⟩ := mem_requestNotes hx
    exact hf fd' conn text

theorem pushed_requestNotes (id : CmdId) :
    (s.log (requestNotes opt mem fd id cmd s)).pushed = s.pushed := by
  rw [State.pushed, State.log_trace, List.filter_append, List.length_append]
  refine Nat.add_eq_left.mpr (List.length_eq_zero_iff.mpr (List.filter_eq_nil_iff.mpr ?_))
  intro x hx
  obtain ⟨fd', conn, text, rfl⟩ := mem_requestNotes hx
  exact Bool.false_ne_true

/-- **What a request does**: the notes, and the push where its memory is
there. -/
theorem processRequest_eq (id : CmdId) :
    processRequest opt mem p fd id cmd s =
      if mem.malloc && (mem.strdup || (findValue opt id (behindBlank cmd)).isNone) then
        (0, { s with
          cmdQ := s.cmdQ ++
            [{ requestOf opt p fd id cmd s with sent := false, tvStart := .zero }]
          trace := s.trace ++ requestNotes opt mem fd id cmd s ++
            [.push (requestOf opt p fd id cmd s)] })
      else (-2, s.log (requestNotes opt mem fd id cmd s)) := by
  have hpushed : (s.log (requestNotes opt mem fd id cmd s)).pushed = s.pushed :=
    pushed_requestNotes id
  set value := findValue opt id (behindBlank cmd) with hvalue
  set s₁ := if value.isNone then s.sendResponse fd (invalidText id) else s with hs₁
  set s₂ := if mem.asprintf then s₁.sendToListener Listeners.request (some fd) (requestText cmd)
    else s₁ with hs₂
  have hs : s₂ = s.log (requestNotes opt mem fd id cmd s) := by
    rw [hs₂, hs₁, requestNotes]
    split <;> split <;>
      simp [State.sendToListener, State.sendResponse, State.log_log]
  have hdef : processRequest opt mem p fd id cmd s =
      if (cmdPush s₂.cmdQ ⟨s₂.pushed, p, fd, id, value⟩ mem.toPushMem).1 = 0 then
        (0, { s₂ with
          cmdQ := (cmdPush s₂.cmdQ ⟨s₂.pushed, p, fd, id, value⟩ mem.toPushMem).2
          trace := s₂.trace ++ [.push ⟨s₂.pushed, p, fd, id, value⟩] })
      else ((cmdPush s₂.cmdQ ⟨s₂.pushed, p, fd, id, value⟩ mem.toPushMem).1, s₂) := rfl
  rw [hdef, hs, hpushed, cmdPush, requestOf, ← hvalue]
  cases mem.malloc <;> cases mem.strdup <;> cases value <;> rfl

theorem processRequest_fst (id : CmdId) :
    (processRequest opt mem p fd id cmd s).1 =
      if mem.malloc && (mem.strdup || (findValue opt id (behindBlank cmd)).isNone) then 0
      else -2 := by
  rw [processRequest_eq]
  split <;> rfl

theorem processRequest_clientLst (id : CmdId) :
    (processRequest opt mem p fd id cmd s).2.clientLst = s.clientLst := by
  rw [processRequest_eq]
  split <;> rfl

theorem processRequest_cmdQ (id : CmdId) :
    s.cmdQ <+: (processRequest opt mem p fd id cmd s).2.cmdQ := by
  rw [processRequest_eq]
  split
  · exact List.prefix_append _ _
  · exact List.prefix_rfl

/-- A request is processed as one, behind the edit of a power command. -/
theorem processCmd_request {id : CmdId} (hid : id = .powerOn ∨ id = .powerOff ∨ id = .sample)
    (h : recognise text = some (id, cmd)) :
    processCmd opt mem p fd text s =
      processRequest opt mem p fd id cmd (s.log (if id = .sample then [] else [.store p 5])) := by
  rw [processCmd, h]
  rcases hid with rfl | rfl | rfl
  · rfl
  · rfl
  · simp

/-- **What `process_cmd` returns.** -/
theorem processCmd_fst :
    (processCmd opt mem p fd text s).1 = if pushFits opt mem text then 0 else -2 := by
  rw [processCmd, pushFits]
  cases recognise text with
  | none => rfl
  | some r =>
      obtain ⟨id, cmd⟩ := r
      cases id with
      | listen => rfl
      | log => rfl
      | sample => exact processRequest_fst _
      | powerOn => exact processRequest_fst _
      | powerOff => exact processRequest_fst _

theorem processCmd_eq_zero :
    (processCmd opt mem p fd text s).1 = 0 ↔ pushFits opt mem text = true := by
  rw [processCmd_fst]
  cases pushFits opt mem text <;> decide

/-- It touches no client's node but for the flags. -/
theorem processCmd_clientLst :
    (processCmd opt mem p fd text s).2.clientLst =
      (s.setListeners fd (listenEffect text)).clientLst := by
  rw [processCmd, listenEffect]
  cases recognise text with
  | none => rw [State.setListeners_id]
  | some r =>
      obtain ⟨id, cmd⟩ := r
      cases id with
      | listen => rfl
      | log => rw [State.setListeners_id]
      | sample => rw [State.setListeners_id]; exact processRequest_clientLst _
      | powerOn => rw [State.setListeners_id]; exact processRequest_clientLst _
      | powerOff => rw [State.setListeners_id]; exact processRequest_clientLst _

theorem pushFits_request {id : CmdId} (hid : id = .powerOn ∨ id = .powerOff ∨ id = .sample)
    (h : recognise text = some (id, cmd)) :
    pushFits opt mem text =
      (mem.malloc && (mem.strdup || (findValue opt id (behindBlank cmd)).isNone)) := by
  rw [pushFits, h]
  rcases hid with rfl | rfl | rfl <;> rfl

/-- With memory every line fits. -/
theorem pushFits_of_mem (h : mem.malloc = true ∧ mem.strdup = true) :
    pushFits opt mem text = true := by
  rw [pushFits, h.1, h.2]
  split <;> rfl

/-- **What a request does to queue and clients.** -/
theorem processCmd_queue {id : CmdId} (opt : Options) (mem : CmdMem) (p : Port) (fd : ℕ) (s : State)
    (hid : id = .powerOn ∨ id = .powerOff ∨ id = .sample) (h : recognise text = some (id, cmd)) :
    (processCmd opt mem p fd text s).2.clientLst = s.clientLst ∧
      ∃ c : Cmd, c.cmd = id ∧ c.param = findValue opt id (behindBlank cmd) ∧
        (processCmd opt mem p fd text s).2.cmdQ =
          if pushFits opt mem text then s.cmdQ ++ [c] else s.cmdQ := by
  set u := s.log (if id = .sample then [] else [.store p 5]) with hu
  rw [processCmd_request hid h, pushFits_request hid h, processRequest_eq, ← hu]
  refine ⟨?_, { requestOf opt p fd id cmd u with sent := false, tvStart := .zero }, rfl, rfl, ?_⟩
  · split <;> rfl
  · split <;> rfl

/-- It takes nothing out of the queue. -/
theorem processCmd_cmdQ : s.cmdQ <+: (processCmd opt mem p fd text s).2.cmdQ := by
  rw [processCmd]
  cases recognise text with
  | none => exact List.prefix_rfl
  | some r =>
      obtain ⟨id, cmd⟩ := r
      cases id with
      | listen => exact List.prefix_rfl
      | log => exact List.prefix_rfl
      | sample => exact processRequest_cmdQ _
      | powerOn => exact processRequest_cmdQ (s := s.log [.store p 5]) _
      | powerOff => exact processRequest_cmdQ (s := s.log [.store p 5]) _

/-! ## Nodes of the client list -/

/-- Nodes are told apart by their connection's number. -/
theorem Inv.client_eq_of_conn (h : Inv cfg s) {c c' : Client} (hc : c ∈ s.clientLst)
    (hc' : c' ∈ s.clientLst) (hconn : c.conn = c'.conn) : c = c' :=
  List.inj_on_of_nodup_map h.nodup_conn hc hc' hconn

/-- And by their descriptor. -/
theorem Inv.client_eq_of_fd (h : Inv cfg s) {c c' : Client} (hc : c ∈ s.clientLst)
    (hc' : c' ∈ s.clientLst) (hfd : c.fd = c'.fd) : c = c' :=
  List.inj_on_of_nodup_map h.nodup_fd hc hc' hfd

/-- A client's node is what its port's bytes go to. -/
theorem Inv.buffer_of_mem (h : Inv cfg s) (hc : c ∈ s.clientLst) :
    s.buffer (.client c.conn) = c.buffer := by
  have hfound : (s.clientLst.find? fun d => d.conn = c.conn).isSome := by
    rw [List.find?_isSome]
    exact ⟨c, hc, by simp⟩
  obtain ⟨d, hd⟩ := Option.isSome_iff_exists.mp hfound
  have hconn : d.conn = c.conn := by simpa using List.find?_some hd
  rw [State.buffer, hd, h.client_eq_of_conn (List.mem_of_find?_eq_some hd) hc hconn]
  rfl

/-- `client_find` finds the node of a client. -/
theorem Inv.clientFind_of_mem (h : Inv cfg s) (hc : c ∈ s.clientLst) :
    clientFind s.clientLst c.fd = some c := by
  have hfound : (s.clientLst.find? fun d => d.fd = c.fd).isSome := by
    rw [List.find?_isSome]
    exact ⟨c, hc, by simp⟩
  obtain ⟨d, hd⟩ := Option.isSome_iff_exists.mp hfound
  have hfd : d.fd = c.fd := by simpa using List.find?_some hd
  rw [clientFind, hd, h.client_eq_of_fd (List.mem_of_find?_eq_some hd) hc hfd]

/-- Where no two nodes agree in something, those around a node differ
from it there. -/
theorem ne_of_nodup_map {f : Client → ℕ} {lst : List Client} (hnd : (lst.map f).Nodup)
    (hlst : lst = pre ++ c :: post) : ∀ d ∈ pre ++ post, f d ≠ f c := by
  rw [hlst, List.map_append, List.map_cons, List.nodup_middle, List.nodup_cons,
    ← List.map_append] at hnd
  exact fun d hd heq => hnd.1 (List.mem_map.mpr ⟨d, hd, heq⟩)

/-- A change to the node of one connection, in place. -/
theorem map_node {f : Client → Client} (hne : ∀ d ∈ pre ++ post, d.conn ≠ c.conn) :
    (pre ++ c :: post).map (fun d => if d.conn = c.conn then f d else d) =
      pre ++ f c :: post := by
  have hkeep : ∀ l : List Client, (∀ d ∈ l, d.conn ≠ c.conn) →
      l.map (fun d => if d.conn = c.conn then f d else d) = l := fun l hl => by
    conv_rhs => rw [← List.map_id l]
    exact List.map_congr_left fun d hd => by rw [if_neg (hl d hd)]; rfl
  rw [List.map_append, List.map_cons, if_pos rfl,
    hkeep pre fun d hd => hne d (List.mem_append_left _ hd),
    hkeep post fun d hd => hne d (List.mem_append_right _ hd)]

theorem setBuffer_node (h : Inv cfg s) (hlst : s.clientLst = pre ++ c :: post) (b : ReadBuffer) :
    (s.setBuffer (.client c.conn) b).clientLst = pre ++ { c with buffer := b } :: post := by
  rw [State.setBuffer, hlst]
  exact map_node (f := fun d => { d with buffer := b }) (ne_of_nodup_map h.nodup_conn hlst)

theorem setListeners_node (h : Inv cfg s) (hlst : s.clientLst = pre ++ c :: post)
    (g : Listeners → Listeners) :
    (s.setListeners c.fd g).clientLst = pre ++ { c with listeners := g c.listeners } :: post := by
  have hc : c ∈ s.clientLst := by rw [hlst]; simp
  rw [State.setListeners_of_some (h.clientFind_of_mem hc), hlst]
  exact map_node (f := fun d => { d with listeners := g d.listeners })
    (ne_of_nodup_map h.nodup_conn hlst)

/-- The removal of a node that stands in the list. -/
theorem dropClient_clientLst (h : Inv cfg s) {d : Client} (hlst : s.clientLst = pre ++ d :: post)
    (hfd : d.fd = c.fd) : (dropClient c s).clientLst = pre ++ post := by
  have hne := ne_of_nodup_map h.nodup_fd hlst
  rw [dropClient, clientRemove, hlst, List.eraseP_append_right, List.eraseP_cons_of_pos]
  · simpa using hfd
  · intro d' hd'
    rw [← hfd]
    simpa using hne d' (List.mem_append_left _ hd')

/-! ## The call -/

/-- What a call with this input makes of the node it is for. -/
def Client.served (f : Feed) (c : Client) : Client :=
  match readLoop (.client c.conn) c.buffer f.bytes with
  | (.newline, b, _) =>
    { c with
      buffer := (b.store b.offset 0).reset
      listeners := listenEffect (b.store b.offset 0).text c.listeners }
  | (_, b, _) => { c with buffer := b }

theorem Client.served_fd (f : Feed) (c : Client) : (c.served f).fd = c.fd := by
  rw [Client.served]
  split <;> rfl

/-- **The call loses its client**: it runs dry, at the end of the stream
or with `EBADF`. -/
def Client.Gone (f : Feed) (c : Client) : Prop :=
  RunsDry c.buffer f.bytes ∧ (f.stop = .eof ∨ f.stop = .error .badf)

instance (f : Feed) : Decidable (c.Gone f) := inferInstanceAs (Decidable (_ ∧ _))

/-- **The call goes well**: where it runs dry, this is at the end of the
stream, with `EBADF` or with `EAGAIN`; where it completes a line,
`cmd_push` gets the memory the line needs. -/
def Client.ReadsFine (opt : Options) (f : Feed) (c : Client) : Prop :=
  (RunsDry c.buffer f.bytes →
    f.stop = .eof ∨ f.stop = .error .badf ∨ f.stop = .error .again) ∧
  (Completes c.buffer f.bytes →
    pushFits opt f.mem (cstring (c.buffer.contents ++ f.bytes.takeWhile (· ≠ linefeed))) = true)

theorem code_eq_two (stop : ReadStop) :
    stop.code = 2 ↔ stop = .eof ∨ stop = .error .badf := by
  rcases stop with - | (- | - | - | - | -) <;> simp [ReadStop.code]

/-- `nonblock_readline` returns `2` just in case it runs dry at the end of
the stream or with `EBADF`. -/
theorem nonblockReadline_eq_two {f : Feed} (hb : (s.buffer p).offset < sizeofBuf) :
    (nonblockReadline opt p fd f s).1 = 2 ↔
      RunsDry (s.buffer p) f.bytes ∧ (f.stop = .eof ∨ f.stop = .error .badf) := by
  have hdry := readLoop_dry_iff (p := p) f.bytes (s.buffer p) hb
  rw [nonblockReadline, ← hdry, ← code_eq_two]
  rcases readLoop p (s.buffer p) f.bytes with ⟨x, b, es⟩
  cases x with
  | dry => simp
  | overflow => simp
  | newline =>
      simp only [processCmd_fst]
      split <;> simp

/-- A call that runs dry reads, and that is all. -/
theorem nonblockReadline_dry {f : Feed} (hb : (s.buffer p).offset < sizeofBuf)
    (hdry : RunsDry (s.buffer p) f.bytes) :
    (nonblockReadline opt p fd f s).2 = (s.setBuffer p (readLoop p (s.buffer p) f.bytes).2.1).log
      (readLoop p (s.buffer p) f.bytes).2.2 := by
  have hexit := (readLoop_dry_iff (p := p) f.bytes (s.buffer p) hb).mpr hdry
  rw [nonblockReadline]
  rcases hr : readLoop p (s.buffer p) f.bytes with ⟨x, b, es⟩
  rw [hr] at hexit
  cases hexit
  rfl

section Call

variable {f : Feed} (hinv : Inv cfg s) (hc : c ∈ s.clientLst) (hb : c.buffer.offset < sizeofBuf)

include hinv hc hb

/-- The call returns `2` just in case it loses its client. -/
theorem call_eq_two : (nonblockReadline opt (.client c.conn) c.fd f s).1 = 2 ↔ c.Gone f := by
  have hbuffer := hinv.buffer_of_mem hc
  rw [nonblockReadline_eq_two (by rwa [hbuffer]), hbuffer, Client.Gone]

/-- And `0` just in case it goes well and does not. -/
theorem call_eq_zero :
    (nonblockReadline opt (.client c.conn) c.fd f s).1 = 0 ↔
      c.ReadsFine opt f ∧ ¬ c.Gone f := by
  have hdry := readLoop_dry_iff (p := .client c.conn) f.bytes c.buffer hb
  have hnew := readLoop_newline_iff (p := .client c.conn) f.bytes c.buffer hb
  have hcontents := readLoop_newline_contents (p := .client c.conn) f.bytes c.buffer
  rw [nonblockReadline, hinv.buffer_of_mem hc, Client.ReadsFine, Client.Gone, ← hdry, ← hnew]
  rcases hr : readLoop (.client c.conn) c.buffer f.bytes with ⟨x, b, es⟩
  rw [hr] at hcontents
  cases x with
  | dry =>
      simp only [true_and, forall_const, reduceCtorEq, false_implies, and_true]
      rcases f.stop with - | (- | - | - | - | -) <;> simp [ReadStop.code]
  | overflow => simp
  | newline =>
      have htext : (b.store b.offset 0).text =
          cstring (c.buffer.contents ++ f.bytes.takeWhile (· ≠ linefeed)) := by
        rw [ReadBuffer.text, ReadBuffer.contents_store le_rfl, ← hcontents rfl]
      simp only [processCmd_eq_zero, htext, reduceCtorEq, false_implies, true_and, forall_const,
        false_and, not_false_eq_true, and_true]

end Call

/-- **The call and the list**: its own node changes in place. -/
theorem call_clientLst {f : Feed} (hinv : Inv cfg s) (hlst : s.clientLst = pre ++ c :: post) :
    (nonblockReadline opt (.client c.conn) c.fd f s).2.clientLst =
      pre ++ c.served f :: post := by
  have hc : c ∈ s.clientLst := by rw [hlst]; simp
  rw [nonblockReadline, hinv.buffer_of_mem hc, Client.served]
  rcases readLoop (.client c.conn) c.buffer f.bytes with ⟨x, b, es⟩
  have hset := setBuffer_node hinv hlst
  cases x with
  | dry => exact hset b
  | overflow => exact hset b
  | newline =>
      simp only [processCmd_clientLst]
      exact setListeners_node (hinv.congr Same.of_setBuffer) (hset _) _

/-- **A node is served**: the call finds it in the list, stays inside the
daemon, and leaves the nodes ahead and behind as they are. -/
theorem serve_call (hinv : Inv cfg s) (hlst : s.clientLst = pre ++ c :: post) (f : Feed) :
    let u := s.log [.serve c.fd c.conn]
    let r := nonblockReadline cfg.opt (.client c.conn) c.fd f u
    c ∈ u.clientLst ∧ Inv cfg u ∧ Inners cfg u r.2 ∧ Inv cfg r.2 ∧
      r.2.clientLst = pre ++ c.served f :: post := by
  intro u r
  have hc : c ∈ s.clientLst := by rw [hlst]; simp
  have hu : Inv cfg u :=
    Effect.inv (G := fun _ _ _ => True) hinv (.serve (List.mem_map_of_mem hc))
  have hin : Inners cfg u r.2 :=
    nonblockReadline_inners (p := .client c.conn) (List.mem_map_of_mem hc) (by simp)
  exact ⟨hc, hu, hin, hu.congr hin.same, call_clientLst hu hlst⟩

/-- **The call and the queue**: it grows at most, and only by a complete
line. -/
theorem call_cmdQ {f : Feed} (hinv : Inv cfg s) (hc : c ∈ s.clientLst)
    (hb : c.buffer.offset < sizeofBuf) :
    s.cmdQ <+: (nonblockReadline opt (.client c.conn) c.fd f s).2.cmdQ ∧
      (¬ Completes c.buffer f.bytes →
        (nonblockReadline opt (.client c.conn) c.fd f s).2.cmdQ = s.cmdQ) := by
  have hnew := readLoop_newline_iff (p := .client c.conn) f.bytes c.buffer hb
  rw [nonblockReadline, hinv.buffer_of_mem hc, ← hnew]
  rcases readLoop (.client c.conn) c.buffer f.bytes with ⟨x, b, es⟩
  cases x with
  | dry => exact ⟨List.prefix_rfl, fun _ => rfl⟩
  | overflow => exact ⟨List.prefix_rfl, fun _ => rfl⟩
  | newline =>
      refine ⟨?_, fun h => absurd rfl h⟩
      set v := (s.setBuffer (.client c.conn) (b.store b.offset 0).reset).log
        (es ++ [.store (.client c.conn) b.offset,
          .line (.client c.conn) (b.store b.offset 0).text]) with hv
      have hq : v.cmdQ = s.cmdQ := by rw [hv, State.log_cmdQ, State.setBuffer_cmdQ]
      rw [← hq]
      exact processCmd_cmdQ

end Daemon

end Realraum
