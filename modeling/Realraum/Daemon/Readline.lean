import Realraum.Daemon.Helpers.Framed
import Realraum.Daemon.Helpers.Replay
import Mathlib.Data.List.TakeWhile
/-!
# What `nonblock_readline` and `process_tty` make of a stream

The lines taken from a port are what the framing reader hands over on the
bytes read from it (`Reachable.framed`). That no cut into reads and no
order of events plays a part is then immediate; and whether they are the
lines of the stream is the question the reader's own law answers. The
code resets a full buffer in the middle of a line and goes on reading the
rest of it as if a line began there.
-/

namespace Realraum

namespace Daemon

open Framing

variable {cfg : Setup} {A : State → Env → Prop} {s : State} {p : Port}

/-! ## Cuts and interleavings -/

/-- **A client's lines and buffer depend on its own bytes only.** In any
two reachable states, of whatever runs, two connections that gave the
same bytes had the same lines taken and, while they are clients, have the
same offset and the same bytes below it. Every access to a buffer was
inside it, and every offset is below its size. -/
theorem lines_depend_on_bytes {cfg' : Setup} {A' : State → Env → Prop} {s' : State}
    (h : Reachable cfg A s) (h' : Reachable cfg' A' s') :
    (∀ k k', bytesOf (.client k) s.trace = bytesOf (.client k') s'.trace →
      linesOf (.client k) s.trace = linesOf (.client k') s'.trace) ∧
    (∀ c ∈ s.clientLst, ∀ c' ∈ s'.clientLst,
      bytesOf (.client c.conn) s.trace = bytesOf (.client c'.conn) s'.trace →
      c.buffer.offset = c'.buffer.offset ∧ c.buffer.contents = c'.buffer.contents) ∧
    (∀ e ∈ s.trace, e.Inside) ∧
    s.ttyBuffer.offset < sizeofBuf ∧ s.autosampleBuffer.offset < sizeofBuf ∧
    ∀ c ∈ s.clientLst, c.buffer.offset < sizeofBuf := by
  have hs := h.framed
  have hs' := h'.framed
  refine ⟨?_, ?_, hs.inside, hs.tty.1, hs.autosample.1, fun c hc => (hs.clients c hc).1⟩
  · intro k k' hbytes
    rw [hs.lines, hs'.lines, Daemon.framed, Daemon.framed, hbytes]
    rfl
  · intro c hc c' hc' hbytes
    have hcontents : c.buffer.contents = c'.buffer.contents := by
      rw [(hs.clients c hc).2, (hs'.clients c' hc').2, Daemon.framed, Daemon.framed, hbytes]
    refine ⟨?_, hcontents⟩
    rw [← ReadBuffer.length_contents, hcontents, ReadBuffer.length_contents]

/-- A client whose line comes in two pieces, with another client's line
between them, and one whose line comes at once. -/
theorem lines_depend_on_bytes_cut :
    ∃ s s', Reachable Setup.sample (fun _ _ => True) s ∧
      Reachable Setup.sample (fun _ _ => True) s' ∧
      linesOf (.client 0) s.trace = linesOf (.client 0) s'.trace ∧
      linesOf (.client 0) s.trace = [ascii "listen"] := by
  obtain ⟨s, hs, hp⟩ := reachable_of_replay .sample (fun _ _ => True)
    [.connect .sample 7 0, .connect .sample 8 0,
      { Env.command 7 "" 1 with clients := fun _ => .bytesThenNothing (ascii "lis") },
      .command 8 "log" 1, .command 7 "ten" 1]
    (fun s => bytesOf (.client 0) s.trace = ascii "listen\n" ∧
      linesOf (.client 0) s.trace = [ascii "listen"]) (by decide)
  obtain ⟨s', hs', hp'⟩ := reachable_of_replay .sample (fun _ _ => True)
    [.connect .sample 7 0, .command 7 "listen" 1]
    (fun s => bytesOf (.client 0) s.trace = ascii "listen\n") (by decide)
  obtain ⟨hbytes, hlines⟩ := of_decide_eq_true hp
  have h := (lines_depend_on_bytes hs hs').1 0 0 (hbytes.trans (of_decide_eq_true hp').symm)
  exact ⟨s, s', hs, hs', h, hlines⟩

/-! ## Whole lines -/

/-- A string without NUL is all of its bytes. -/
theorem cstring_eq_self {l : List UInt8} (h : 0 ∉ l) : cstring l = l := by
  refine List.takeWhile_eq_self_iff.mpr fun b hb => ?_
  have hne : b ≠ 0 := fun h0 => h (h0 ▸ hb)
  simpa using hne

theorem lineText_eq (p : Port) {l : List UInt8} (h : 0 ∉ l) :
    lineText p l = withoutReturn p l := by
  refine cstring_eq_self fun hmem => h ?_
  cases p with
  | tty =>
      simp only [withoutReturn] at hmem
      split at hmem
      · exact List.mem_of_mem_dropLast hmem
      · exact hmem
  | autosample => exact hmem
  | client k => exact hmem

/-- **When the lines taken are the lines of the stream.** For a stream
without NUL, the lines taken from a port are its complete lines with
those left out that do not fit the buffer, just in case there are none of
these: a line of 100 bytes or more is never dropped as a whole. -/
theorem lines_whole_iff (h : Reachable cfg A s) (hnul : 0 ∉ bytesOf p s.trace) :
    linesOf p s.trace =
        ((completeLines linefeed (bytesOf p s.trace)).filter fun l => l.length < sizeofBuf).map
          (withoutReturn p) ↔
      ∀ l ∈ completeLines linefeed (bytesOf p s.trace), l.length < sizeofBuf := by
  rw [h.framed.lines p, Daemon.framed]
  constructor
  · intro heq l hl
    -- the reader hands over one line for every one there is, so none may be left out
    have hlen := congrArg List.length heq
    rw [List.length_map, List.length_map, length_frame] at hlen
    have hall := List.length_filter_eq_length_iff.mp hlen.symm
    exact of_decide_eq_true (hall l hl)
  · intro hfit
    rw [(frame_eq_filter_iff (by decide) _).mpr hfit]
    refine List.map_congr_left fun l hl => lineText_eq p fun h0 => hnul ?_
    exact mem_of_mem_completeLines _ l (List.mem_of_mem_filter hl) 0 h0

/-- A run in which every line fits. -/
theorem lines_whole_iff_two_lines :
    ∃ s, Reachable Setup.sample (fun _ _ => True) s ∧
      linesOf (.client 0) s.trace = [ascii "log a", ascii "listen"] := by
  obtain ⟨s, hs, hp⟩ := reachable_of_replay .sample (fun _ _ => True)
    [.connect .sample 7 0, .command 7 "log a" 1, .command 7 "listen" 1]
    (fun s => bytesOf (.client 0) s.trace = ascii "log a\nlisten\n") (by decide)
  have hbytes : bytesOf (.client 0) s.trace = ascii "log a\nlisten\n" := of_decide_eq_true hp
  have hlines := (lines_whole_iff (p := .client 0) hs (by rw [hbytes]; decide)).mpr
    (by rw [hbytes]; decide)
  refine ⟨s, hs, hlines.trans ?_⟩
  rw [hbytes]
  decide

/-- **A tail is executed.** A client sends one line, a hundred bytes and
`power on lamp` after them. No line of its stream is `power on lamp`, and
that is the line taken from it, and a command queued for it. -/
theorem lines_whole_fails :
    ∃ s, Reachable Setup.sample (fun _ _ => True) s ∧ 0 ∉ bytesOf (.client 0) s.trace ∧
      ascii "power on lamp" ∈ linesOf (.client 0) s.trace ∧
      ascii "power on lamp" ∉ completeLines linefeed (bytesOf (.client 0) s.trace) ∧
      (acts s.trace).length = 2 := by
  obtain ⟨s, hs, hp⟩ := reachable_of_replay .sample (fun _ _ => True)
    [.connect .sample 7 0,
      { Env.command 7 "" 1 with clients := fun _ => .bytesThenNothing (List.replicate 100 120) },
      .command 7 "power on lamp" 1]
    (fun s => 0 ∉ bytesOf (.client 0) s.trace ∧
      ascii "power on lamp" ∈ linesOf (.client 0) s.trace ∧
      ascii "power on lamp" ∉ completeLines linefeed (bytesOf (.client 0) s.trace) ∧
      (acts s.trace).length = 2) (by decide)
  exact ⟨s, hs, of_decide_eq_true hp⟩

end Daemon

end Realraum
