import Realraum.Daemon.Helpers.Firmware
import Realraum.Daemon.Helpers.Flags
import Realraum.Daemon.Helpers.Replay
import Realraum.Daemon.Helpers.Words
/-!
# Who gets a firmware line

A complete line of the firmware goes to the descriptor in the head of the
queue and to the clients subscribed to the line's category, once each.
The four category words begin with different letters, so a line has one
category at most; the issuer is left out of the broadcast; and the
clients have distinct descriptors in every run.
-/

namespace Realraum

namespace Daemon

variable {cfg : Setup} {A : State → Env → Prop} {s t : State} {opt : Options}
variable {line text : CStr} {word : String} {flag : Listeners → Bool} {except : Option ℕ}

/-! ## What ought to happen -/

/-- The texts sent and the descriptors they went to. -/
def sends (tr : List Event) : List (ℕ × CStr) :=
  tr.filterMap fun
    | .answer r _ text => some (r.fd, text)
    | .respond fd _ text => some (fd, text)
    | _ => none

/-- A client with these flags is subscribed to the category of a line. -/
def subscribed (line : CStr) (l : Listeners) : Bool :=
  (startsWith line "Error:" && l.error) || (startsWith line "movement" && l.movement) ||
    (startsWith line "PanicButton" && l.button) || (startsWith line "Sensor " && l.sensor)

/-- **Who a line is for**: the head of the queue, and the subscribed
clients but the head's. -/
def recipients (line : CStr) (s : State) : List ℕ :=
  (s.cmdQ.head?.map fun c => c.fd).toList ++
    (s.clientLst.filter fun c =>
      subscribed line c.listeners && some c.fd ≠ s.cmdQ.head?.map fun c => c.fd).map Client.fd

/-- The name of the first configured device whose value is this one
character. -/
def deviceName (opt : Options) (c : UInt8) : Option CStr :=
  ((opt.sampledevs.keys.zip opt.sampledevs.values).find? fun kv => kv.2 = [c]).map Prod.fst

/-- **What is sent for a line**: `Sensor c...` with the device's name for
`Sensor c`, where there is one, and any other line as it is. -/
def relayed (opt : Options) (line : CStr) : CStr :=
  if startsWith line "Sensor " then
    match line.drop 7 with
    | [] => line
    | c :: rest => ((deviceName opt c).map (· ++ rest)).getD line
  else line

/-- **What a `listen` makes of the flag with this word**: without an
argument and with `all` it is set, with `none` it is cleared, with its own
word it is set, and otherwise it stays. -/
def subscription (word : String) (param : Option CStr) (flag : Bool) : Bool :=
  match param with
  | none => true
  | some p =>
    if startsWith p "all" then true
    else if startsWith p "none" then false
    else if startsWith p word then true
    else flag

/-- **The flag with this word** of a client that sent these lines. -/
def subscribes (word : String) (lines : List CStr) : Bool :=
  (lines.filter fun line => startsWith line "listen").foldl
    (fun flag line => subscription word (behindBlank line) flag) false

/-! ## What the code sends -/

theorem lookupBeside_eq (x : CStr) : ∀ keys values : List CStr,
    lookupBeside x values keys = ((keys.zip values).find? fun kv => kv.2 = x).map Prod.fst := by
  intro keys
  induction keys with
  | nil => intro values; cases values <;> rfl
  | cons k keys ih =>
      intro values
      cases values with
      | nil => rfl
      | cons v values =>
          by_cases hv : v = x
          · simp [lookupBeside, hv]
          · simp [lookupBeside, hv, ih]

/-- `process_tty` sends what it ought to. -/
theorem responseData_eq (opt : Options) (line : CStr) :
    responseData opt line = relayed opt line := by
  rw [responseData, relayed]
  split
  · cases h : line.drop 7 with
    | nil => rfl
    | cons c rest =>
        have hname : keyValueStorageFindFirstStringvalue opt.sampledevs [c] = deviceName opt c :=
          lookupBeside_eq _ _ _
        simp only [hname]
        cases deviceName opt c <;> rfl
  · rfl

@[simp] theorem sends_append (tr es : List Event) : sends (tr ++ es) = sends tr ++ sends es :=
  List.filterMap_append

theorem sends_readLoop {p : Port} {b : ReadBuffer} {xs : List UInt8} :
    sends (readLoop p b xs).2.2 = [] :=
  filterMap_readLoop (fun _ => rfl) fun _ _ => rfl

theorem sends_sendAnswer :
    sends (s.sendAnswer text).trace =
      sends s.trace ++ (s.cmdQ.head?.map fun c => c.fd).toList.map fun fd => (fd, text) := by
  rw [State.sendAnswer]
  cases s.cmdQ with
  | nil => simp
  | cons c q => simp [sends]

theorem sends_sendToListener :
    sends (s.sendToListener flag except text).trace =
      sends s.trace ++ ((s.clientLst.filter fun c => flag c.listeners && some c.fd ≠ except).map
        Client.fd).map fun fd => (fd, text) := by
  rw [State.sendToListener, State.log_trace, sends_append]
  congr 1
  rw [sends, List.filterMap_map, List.map_map, ← List.filterMap_eq_map]
  rfl

/-- One category: all its listeners, where the line is of it. -/
theorem sends_sendCategory :
    sends (s.sendCategory line word flag except text).trace =
      sends s.trace ++ ((s.clientLst.filter fun c =>
        startsWith line word && flag c.listeners && some c.fd ≠ except).map
          Client.fd).map fun fd => (fd, text) := by
  rw [State.sendCategory]
  split
  · rename_i hword
    rw [sends_sendToListener]
    simp [hword]
  · rename_i hword
    simp [hword]

@[simp] theorem sendCategory_clientLst :
    (s.sendCategory line word flag except text).clientLst = s.clientLst := by
  rw [State.sendCategory]
  split <;> rfl

@[simp] theorem sendAnswer_clientLst : (s.sendAnswer text).clientLst = s.clientLst := by
  rw [State.sendAnswer]
  split <;> rfl

theorem sends_popCmd (expired : Bool) : sends (s.popCmd expired).trace = sends s.trace := by
  rw [State.popCmd]
  split
  · rfl
  · rw [sends_append]
    exact List.append_nil _

/-! ## One category at most -/

/-- A line begins with the first letter of a word it begins with. -/
theorem head?_of_startsWith (h : startsWith line word = true) (hne : ascii word ≠ []) :
    line.head? = (ascii word).head? := by
  obtain ⟨rest, rfl⟩ := List.isPrefixOf_iff_prefix.mp h
  exact List.head?_append_of_ne_nil _ hne

/-- Two words with different first letters do not both begin a line. -/
theorem startsWith_disjoint (word' : String) (h : startsWith line word = true)
    (hwords : ascii word ≠ [] ∧ ascii word' ≠ [] ∧ (ascii word).head? ≠ (ascii word').head?) :
    startsWith line word' = false := by
  obtain ⟨hw, hw', hne⟩ := hwords
  by_contra hcontra
  have h' : startsWith line word' = true := by simpa using hcontra
  exact hne ((head?_of_startsWith h hw).symm.trans (head?_of_startsWith h' hw'))

/-- **The four categories one after the other are one broadcast.** -/
theorem filter_categories (line : CStr) (except : Option ℕ) (lst : List Client) :
    lst.filter (fun c => startsWith line "Error:" && c.listeners.error && some c.fd ≠ except) ++
      (lst.filter (fun c =>
          startsWith line "movement" && c.listeners.movement && some c.fd ≠ except) ++
        (lst.filter (fun c =>
            startsWith line "PanicButton" && c.listeners.button && some c.fd ≠ except) ++
          lst.filter fun c =>
            startsWith line "Sensor " && c.listeners.sensor && some c.fd ≠ except)) =
      lst.filter fun c => subscribed line c.listeners && some c.fd ≠ except := by
  unfold subscribed
  by_cases herror : startsWith line "Error:" = true
  · rw [herror, startsWith_disjoint "movement" herror (by decide),
      startsWith_disjoint "PanicButton" herror (by decide),
      startsWith_disjoint "Sensor " herror (by decide)]
    simp
  · rw [Bool.not_eq_true] at herror
    by_cases hmovement : startsWith line "movement" = true
    · rw [herror, hmovement,
        startsWith_disjoint "PanicButton" hmovement (by decide),
        startsWith_disjoint "Sensor " hmovement (by decide)]
      simp
    · rw [Bool.not_eq_true] at hmovement
      by_cases hbutton : startsWith line "PanicButton" = true
      · rw [herror, hmovement, hbutton,
          startsWith_disjoint "Sensor " hbutton (by decide)]
        simp
      · rw [Bool.not_eq_true] at hbutton
        rw [herror, hmovement, hbutton]
        simp

/-- **What a line sends.** -/
theorem sends_handleTtyLine (line : CStr) :
    sends (handleTtyLine opt line s).trace =
      sends s.trace ++ (recipients line s).map fun fd => (fd, relayed opt line) := by
  rw [handleTtyLine, sends_popCmd, sends_sendCategory, sends_sendCategory, sends_sendCategory,
    sends_sendCategory, sends_sendAnswer, responseData_eq]
  simp only [sendCategory_clientLst, sendAnswer_clientLst]
  rw [recipients, ← filter_categories]
  simp only [List.append_assoc, List.map_append]

/-- **What a call of `process_tty` sends**, that takes a line. -/
theorem sends_processTty {f : TtyFeed} (hb : s.ttyBuffer.offset < sizeofBuf)
    (hline : Completes s.ttyBuffer f.bytes) :
    sends (processTty opt f s).2.trace =
      sends s.trace ++
        (recipients (ttyLineOf s f) s).map fun fd => (fd, relayed opt (ttyLineOf s f)) := by
  obtain ⟨b, es, hr, heq⟩ := processTty_line opt hb hline
  obtain rfl : es = (readLoop .tty s.ttyBuffer f.bytes).2.2 := by rw [hr]
  have hend : sends (endTtyLine b).2 = [] := filterMap_endTtyLine b fun _ => rfl
  rw [heq, sends_handleTtyLine]
  congr 1
  rw [State.log_trace, State.setBuffer_trace, sends_append, sends_append, sends_append,
    sends_readLoop, hend]
  exact List.append_nil _

/-- A line is for nobody twice. -/
theorem recipients_nodup (hinv : Inv cfg s) (line : CStr) : (recipients line s).Nodup := by
  have hclients : ((s.clientLst.filter fun c =>
      subscribed line c.listeners && some c.fd ≠ s.cmdQ.head?.map fun c => c.fd).map
        Client.fd).Nodup :=
    hinv.nodup_fd.sublist (List.filter_sublist.map _)
  rw [recipients]
  cases hq : s.cmdQ.head? with
  | none => simpa [hq] using hclients
  | some c =>
      rw [hq] at hclients
      refine List.nodup_append.mpr ⟨List.nodup_singleton _, hclients, ?_⟩
      intro x hx y hy
      obtain ⟨d, hd, rfl⟩ := List.mem_map.mp hy
      rw [List.mem_singleton.mp hx]
      have hne := (List.mem_filter.mp hd).2
      simp only [Option.map_some, ne_eq, Option.some.injEq, decide_not, Bool.and_eq_true,
        Bool.not_eq_eq_eq_not, Bool.not_true, decide_eq_false_iff_not] at hne
      exact Ne.symm hne.2

/-! ## The listen command -/

/-- **Each word sets its own flag and no other.** -/
theorem listenFlags_eq (param : Option CStr) (l : Listeners) :
    listenFlags param l =
      ⟨subscription "request" param l.request, subscription "error" param l.error,
        subscription "sensor" param l.sensor, subscription "movement" param l.movement,
        subscription "button" param l.button⟩ := by
  cases param with
  | none => rfl
  | some p =>
      by_cases hall : startsWith p "all" = true
      · simp only [listenFlags, subscription, if_pos hall]
        rfl
      by_cases hnone : startsWith p "none" = true
      · simp only [listenFlags, subscription, if_neg hall, if_pos hnone]
        rfl
      simp only [listenFlags, subscription, if_neg hall, if_neg hnone]
      by_cases hrequest : startsWith p "request" = true
      · rw [startsWith_disjoint "error" hrequest (by decide),
          startsWith_disjoint "sensor" hrequest (by decide),
          startsWith_disjoint "movement" hrequest (by decide),
          startsWith_disjoint "button" hrequest (by decide)]
        simp [hrequest]
      by_cases herror : startsWith p "error" = true
      · rw [startsWith_disjoint "sensor" herror (by decide),
          startsWith_disjoint "movement" herror (by decide),
          startsWith_disjoint "button" herror (by decide)]
        simp [hrequest, herror]
      by_cases hsensor : startsWith p "sensor" = true
      · rw [startsWith_disjoint "movement" hsensor (by decide),
          startsWith_disjoint "button" hsensor (by decide)]
        simp [hrequest, herror, hsensor]
      by_cases hmovement : startsWith p "movement" = true
      · rw [startsWith_disjoint "button" hmovement (by decide)]
        simp [hrequest, herror, hsensor, hmovement]
      simp only [if_neg hrequest, if_neg herror, if_neg hsensor, if_neg hmovement]
      split
      · rfl
      · rfl

/-- A line that is no `listen` leaves the flags alone. -/
theorem listenEffect_eq (line : CStr) (l : Listeners) :
    listenEffect line l =
      if startsWith line "listen" then listenFlags (behindBlank line) l else l := by
  by_cases hlisten : startsWith line "listen" = true
  · rw [if_pos hlisten, listenEffect, recognise_listen_iff.mp hlisten]
  · rw [if_neg hlisten, listenEffect]
    cases hrec : recognise line with
    | none => rfl
    | some r =>
        obtain ⟨id, cmd⟩ := r
        cases id with
        | listen =>
            rw [eq_of_recognise_listen hrec] at hrec
            exact absurd (recognise_listen_iff.mpr hrec) hlisten
        | powerOn | powerOff | sample | log => rfl

/-- **The flags are those the words say**, each on its own. -/
theorem flagsAfter_eq (lines : List CStr) :
    flagsAfter lines =
      ⟨subscribes "request" lines, subscribes "error" lines, subscribes "sensor" lines,
        subscribes "movement" lines, subscribes "button" lines⟩ := by
  induction lines using List.reverseRecOn with
  | nil => rfl
  | append_singleton lines line ih =>
      rw [flagsAfter_append, ih, listenEffect_eq]
      by_cases hlisten : startsWith line "listen" = true
      · rw [if_pos hlisten, listenFlags_eq]
        simp [subscribes, List.filter_append, hlisten]
      · rw [if_neg hlisten]
        simp [subscribes, List.filter_append, hlisten]

/-- **A firmware line reaches whom it is for, and nobody else.** In every
reachable state a complete line, its carriage return taken off, is taken,
and what is sent for it goes once to each of its recipients: the head of
the queue, and the other clients whose flags have its category. Each flag
of a client is its own `listen` lines folded over false: a `listen` sets it
without an argument, with `all` and with its word, clears it with `none`,
and leaves it as it is otherwise. -/
theorem firmware_line_delivery (h : Reachable cfg A s) (f : TtyFeed)
    (hline : Completes s.ttyBuffer f.bytes) :
    linesOf .tty (processTty cfg.opt f s).2.trace = linesOf .tty s.trace ++ [ttyLineOf s f] ∧
    sends (processTty cfg.opt f s).2.trace = sends s.trace ++
      (recipients (ttyLineOf s f) s).map (fun fd => (fd, relayed cfg.opt (ttyLineOf s f))) ∧
    (recipients (ttyLineOf s f) s).Nodup ∧
    ∀ c ∈ s.clientLst,
      let lines := linesOf (.client c.conn) s.trace
      c.listeners =
        ⟨subscribes "request" lines, subscribes "error" lines, subscribes "sensor" lines,
          subscribes "movement" lines, subscribes "button" lines⟩ := by
  obtain ⟨b, es, hr, heq⟩ := processTty_line cfg.opt h.framed.tty.1 hline
  obtain rfl : es = (readLoop .tty s.ttyBuffer f.bytes).2.2 := by rw [hr]
  refine ⟨?_, sends_processTty h.framed.tty.1 hline, recipients_nodup h.inv _,
    fun c hc => (h.flags c hc).trans (flagsAfter_eq _)⟩
  have hend : linesOf .tty (endTtyLine b).2 = [] := filterMap_endTtyLine b fun _ => rfl
  rw [heq, linesOf, filterMap_handleTtyLine _ (fun _ _ _ => rfl) (fun _ _ _ => rfl)
    fun _ _ => rfl]
  change linesOf .tty _ = _
  rw [State.log_trace, State.setBuffer_trace, linesOf_append, linesOf_append, linesOf_append,
    linesOf_readLoop, hend]
  simp [linesOf]

/-- A `movement` line while one client waits for its answer and another
listens for movement: both get it, and a third client does not. -/
theorem firmware_line_delivery_movement :
    ∃ s, Reachable Setup.sample (fun _ _ => True) s ∧
      sends (processTty Setup.sample.opt ⟨ascii "movement\r\n", .quiet⟩ s).2.trace =
        sends s.trace ++ [(7, ascii "movement"), (8, ascii "movement")] := by
  obtain ⟨s, hs, hp⟩ := reachable_of_replay .sample (fun _ _ => True)
    [.connect .sample 7 0, .connect .sample 8 0, .connect .sample 9 0,
      .command 8 "listen movement" 1, .command 9 "listen error" 1, .command 7 "power on lamp" 1]
    (fun s => Completes s.ttyBuffer (ascii "movement\r\n") ∧
      (recipients (ttyLineOf s ⟨ascii "movement\r\n", .quiet⟩) s).map
        (fun fd => (fd, relayed Setup.sample.opt (ttyLineOf s ⟨ascii "movement\r\n", .quiet⟩))) =
      [(7, ascii "movement"), (8, ascii "movement")]) (by decide)
  obtain ⟨hline, hrecipients⟩ := of_decide_eq_true hp
  refine ⟨s, hs, ?_⟩
  rw [(firmware_line_delivery hs ⟨ascii "movement\r\n", .quiet⟩ hline).2.1, hrecipients]

end Daemon

end Realraum
