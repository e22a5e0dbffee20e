import Realraum.Daemon.Helpers.Framed
/-!
# Helpers — one call of `process_tty`

What a call that completes a line is: the reads, the line, and
`handleTtyLine` on it. And what `handleTtyLine` adds to the history: the
answer to the head of the queue, responses, and the pop of the head.
-/

namespace Realraum

namespace Daemon

variable {s : State} {opt : Options} {line text : CStr} {except : Option ℕ} {p : Port}

/-- The line a call completes, as `process_tty` acts on it. -/
def ttyLineOf (s : State) (f : TtyFeed) : CStr :=
  lineText .tty (s.ttyBuffer.contents ++ f.bytes.takeWhile (· ≠ linefeed))

/-- **A call that completes a line** is the line's reads and what is done
about it. -/
theorem processTty_line (opt : Options) {f : TtyFeed} (hb : s.ttyBuffer.offset < sizeofBuf)
    (hline : Completes s.ttyBuffer f.bytes) :
    ∃ b es, readLoop .tty s.ttyBuffer f.bytes = (.newline, b, es) ∧
      processTty opt f s = (0, handleTtyLine opt (ttyLineOf s f)
        ((s.setBuffer .tty (endTtyLine b).1.reset).log
          (es ++ (endTtyLine b).2 ++ [.line .tty (ttyLineOf s f)]))) := by
  have hnewline := (readLoop_newline_iff (p := .tty) f.bytes s.ttyBuffer hb).mpr hline
  have hcontents := readLoop_newline_contents (p := .tty) f.bytes s.ttyBuffer hnewline
  rcases hr : readLoop .tty s.ttyBuffer f.bytes with ⟨x, b, es⟩
  rw [hr] at hnewline hcontents
  simp only at hnewline hcontents
  subst hnewline
  have htext : (endTtyLine b).1.text = ttyLineOf s f := by
    rw [endTtyLine_text, hcontents, ttyLineOf]
  refine ⟨b, es, rfl, ?_⟩
  rw [processTty, hr]
  simp only [htext]

/-- **A call that completes none** reads, and that is all. -/
theorem processTty_no_line {f : TtyFeed} (hb : s.ttyBuffer.offset < sizeofBuf)
    (hline : ¬ Completes s.ttyBuffer f.bytes) :
    (processTty opt f s).2 = (s.setBuffer .tty (readLoop .tty s.ttyBuffer f.bytes).2.1).log
      (readLoop .tty s.ttyBuffer f.bytes).2.2 := by
  have hiff := readLoop_newline_iff (p := .tty) f.bytes s.ttyBuffer hb
  rw [processTty]
  rcases hr : readLoop .tty s.ttyBuffer f.bytes with ⟨x, b, es⟩
  rw [hr] at hiff
  cases x with
  | dry => rfl
  | overflow => rfl
  | newline => exact absurd (hiff.mp rfl) hline

/-- The responses to the listeners of one category. -/
def categoryEvents (s : State) (line : CStr) (word : String) (flag : Listeners → Bool)
    (except : Option ℕ) (text : CStr) : List Event :=
  if startsWith line word then
    (s.clientLst.filter fun c => flag c.listeners && some c.fd ≠ except).map
      fun c => .respond c.fd (s.connAt c.fd) text
  else []

theorem mem_categoryEvents {word : String} {flag : Listeners → Bool} {e : Event}
    (he : e ∈ categoryEvents s line word flag except text) :
    ∃ fd conn text, e = .respond fd conn text := by
  unfold categoryEvents at he
  split at he
  · obtain ⟨c, -, rfl⟩ := List.mem_map.mp he
    exact ⟨_, _, _, rfl⟩
  · cases he

theorem sendCategory_log (word : String) (flag : Listeners → Bool) (es : List Event) :
    (s.log es).sendCategory line word flag except text =
      s.log (es ++ categoryEvents s line word flag except text) := by
  rw [State.sendCategory, categoryEvents]
  split
  · rw [State.sendToListener, State.log_log]
    rfl
  · rw [List.append_nil]

theorem sendAnswer_log :
    s.sendAnswer text =
      s.log (s.cmdQ.head?.toList.map fun c => .answer c.toRequest (s.connAt c.fd) text) := by
  rw [State.sendAnswer]
  split
  · rename_i hq
    rw [hq]
    exact State.log_nil.symm
  · rename_i c q hq
    rw [hq]
    rfl

theorem popCmd_trace (expired : Bool) :
    (s.popCmd expired).trace =
      s.trace ++ s.cmdQ.head?.toList.map fun c => .pop c.toRequest c.sent expired := by
  rw [State.popCmd]
  split
  · rename_i hq
    simp [hq]
  · rename_i c q hq
    simp [hq]

/-- **What is done about a line**: the answer to the head of the queue,
the responses, and the pop. -/
theorem handleTtyLine_eq (opt : Options) (s : State) (line : CStr) :
    ∃ es, (∀ e ∈ es, ∃ fd conn text, e = Event.respond fd conn text) ∧
      handleTtyLine opt line s = (s.log (s.cmdQ.head?.toList.map (fun c =>
        .answer c.toRequest (s.connAt c.fd) (responseData opt line)) ++ es)).popCmd false := by
  set except := s.cmdQ.head?.map fun c => c.fd with hexcept
  set text := responseData opt line with htext
  refine ⟨categoryEvents s line "Error:" Listeners.error except text ++
    (categoryEvents s line "movement" Listeners.movement except text ++
      (categoryEvents s line "PanicButton" Listeners.button except text ++
        categoryEvents s line "Sensor " Listeners.sensor except text)), ?_, ?_⟩
  · intro e he
    simp only [List.mem_append] at he
    rcases he with he | he | he | he <;> exact mem_categoryEvents he
  · rw [handleTtyLine, sendAnswer_log, sendCategory_log, sendCategory_log, sendCategory_log,
      sendCategory_log]
    simp only [List.append_assoc]
    rfl

/-- What it adds to the history. -/
theorem handleTtyLine_trace (opt : Options) (s : State) (line : CStr) :
    ∃ es, (∀ e ∈ es, ∃ fd conn text, e = Event.respond fd conn text) ∧
      (handleTtyLine opt line s).trace = s.trace ++
        (s.cmdQ.head?.toList.map (fun c =>
            Event.answer c.toRequest (s.connAt c.fd) (responseData opt line)) ++ es ++
          s.cmdQ.head?.toList.map fun c => Event.pop c.toRequest c.sent false) := by
  obtain ⟨es, hes, heq⟩ := handleTtyLine_eq opt s line
  refine ⟨es, hes, ?_⟩
  rw [heq, popCmd_trace]
  simp only [State.log_trace, State.log_cmdQ, List.append_assoc]

@[simp] theorem popCmd_autosampleBuffer (expired : Bool) :
    (s.popCmd expired).autosampleBuffer = s.autosampleBuffer := by
  rw [State.popCmd]
  split <;> rfl

/-- The pipe's buffer is none of `process_tty`'s business. -/
theorem processTty_autosampleBuffer (opt : Options) (f : TtyFeed) :
    (processTty opt f s).2.autosampleBuffer = s.autosampleBuffer := by
  rw [processTty]
  rcases readLoop .tty s.ttyBuffer f.bytes with ⟨x, b, es⟩
  cases x with
  | dry => rfl
  | overflow => rfl
  | newline =>
      simp only
      obtain ⟨es', -, heq⟩ := handleTtyLine_eq opt
        ((s.setBuffer .tty (endTtyLine b).1.reset).log
          (es ++ (endTtyLine b).2 ++ [.line .tty (endTtyLine b).1.text])) (endTtyLine b).1.text
      rw [heq, popCmd_autosampleBuffer]
      rfl

/-- A projection that sees none of these sees nothing of a line. -/
theorem filterMap_handleTtyLine {β : Type*} {f : Event → Option β} (line : CStr)
    (ha : ∀ r conn text, f (.answer r conn text) = none)
    (hr : ∀ fd conn text, f (.respond fd conn text) = none)
    (hp : ∀ r b, f (.pop r b false) = none) :
    (handleTtyLine opt line s).trace.filterMap f = s.trace.filterMap f := by
  obtain ⟨es, hes, htrace⟩ := handleTtyLine_trace opt s line
  have hanswers : (s.cmdQ.head?.toList.map fun c =>
      Event.answer c.toRequest (s.connAt c.fd) (responseData opt line)).filterMap f = [] := by
    rw [List.filterMap_map]
    exact List.filterMap_eq_nil_iff.mpr fun c _ => ha _ _ _
  have hresponses : es.filterMap f = [] := by
    refine List.filterMap_eq_nil_iff.mpr fun e he => ?_
    obtain ⟨fd, conn, text, rfl⟩ := hes e he
    exact hr fd conn text
  have hpops : (s.cmdQ.head?.toList.map fun c =>
      Event.pop c.toRequest c.sent false).filterMap f = [] := by
    rw [List.filterMap_map]
    exact List.filterMap_eq_nil_iff.mpr fun c _ => hp _ _
  rw [htrace, List.filterMap_append, List.filterMap_append, List.filterMap_append, hanswers,
    hresponses, hpops]
  simp

end Daemon

end Realraum
