import Realraum.Daemon.Helpers.Framed
import Realraum.Daemon.Helpers.Options
import Realraum.Daemon.Helpers.Pipe
import Realraum.Daemon.Helpers.Replay
import Realraum.Daemon.Model.Autosample
/-!
# The samples of the autosample process

The child names the devices it was configured with, and the daemon looks
them up among the sample devices. What joins the two is what
`options_parse_post` lets through: an autosample device is a key of the
sample device file, so its name has no blank, no line feed and no NUL, and
the line that is sent for it is read back as the request for it.
-/

namespace Realraum

namespace Daemon

open Framing

variable {cfg : Setup} {A : State → Env → Prop} {s : State} {a : Autosample} {opt opt' : OptionsT}
variable {mem powerMem sampleMem : ℕ → AddMem} {argv0 name : CStr} {args names : List CStr}
variable {fs : CStr → Option (List UInt8)}

/-! ## A line of the child -/

theorem sampleLoop_whole {len : ℕ} :
    sampleLoop len 0 [.accepted len] = some (0, len) := by
  rw [sampleLoop]
  simp

/-- **What the child writes is its lines, ended by line feeds.** -/
theorem childWrites_eq (names : List CStr) :
    childWrites names = encode linefeed (names.map (ascii "sample " ++ ·)) := by
  have hone : ∀ name : CStr,
      sendSampleCmd true (some name) [.accepted (sampleCmd name).length] =
        some (0, sampleCmd name) := fun name => by
    rw [sendSampleCmd]
    simp [sampleLoop_whole]
  rw [childWrites, encode, List.flatMap_map]
  refine List.flatMap_congr fun name _ => ?_
  rw [hone]
  rfl

/-- **The daemon reads the line of a word as the request for it.** -/
theorem requestOfLine_sample {opt : Options} :
    requestOfLine opt (ascii "sample " ++ name) =
      some (.sample, keyValueStorageFind opt.sampledevs (some name)) := by
  have hword : recognise (ascii "sample " ++ name) = some (.sample, ascii "sample " ++ name) :=
    recognise_word .sample (blank :: name)
  have hparam : behindBlank (ascii "sample " ++ name) = some name := by
    rw [show ascii "sample " ++ name = ascii CmdId.sample.joined ++ blank :: name from rfl,
      behindBlank_joined, behindBlank_blank]
  rw [requestOfLine, hword]
  simp only
  rw [hparam]
  rfl

/-- The text of the line is the line. -/
theorem lineText_sample (hname : 0 ∉ name) :
    lineText .autosample (ascii "sample " ++ name) = ascii "sample " ++ name := by
  refine cstring_of_notMem (w := ascii "sample " ++ name) ?_
  rw [List.mem_append, not_or]
  exact ⟨by decide, hname⟩

/-! ## From the child to the queue -/

/-- What the daemon is to queue for these devices. -/
def samplesOf (opt : OptionsT) (names : List CStr) : List (CmdId × Option CStr) :=
  names.map fun name => (.sample, keyValueStorageFind opt.sampledevs (some name))

theorem filterMap_requestOfLine (names : List CStr) :
    (names.map (ascii "sample " ++ ·)).filterMap (requestOfLine opt.toOptions) =
      samplesOf opt names := by
  rw [List.filterMap_map, samplesOf, ← List.filterMap_eq_map]
  refine List.filterMap_congr fun name _ => ?_
  exact requestOfLine_sample

/-- **The lines read of the pipe are the first of those written to it.** -/
theorem linesOf_child (h : Reachable cfg A s) (hnames : ∀ name ∈ names, linefeed ∉ name ∧ 0 ∉ name)
    (hfits : ∀ name ∈ names, (sampleCmd name).length ≤ sizeofBuf)
    (hsent : bytesOf .autosample s.trace <+: childWrites names) :
    linesOf .autosample s.trace <+: names.map (ascii "sample " ++ ·) ∧
      (bytesOf .autosample s.trace = childWrites names →
        linesOf .autosample s.trace = names.map (ascii "sample " ++ ·)) := by
  have hline : ∀ l ∈ names.map (ascii "sample " ++ ·), linefeed ∉ l ∧ l.length < sizeofBuf := by
    intro l hl
    obtain ⟨name, hname, rfl⟩ := List.mem_map.mp hl
    have hword : linefeed ∉ ascii "sample " := by decide
    have hlen := hfits name hname
    rw [sampleCmd, List.length_append, List.length_singleton] at hlen
    exact ⟨by simp [hword, (hnames name hname).1], by omega⟩
  have htext : ∀ ns : List CStr, ns ⊆ names →
      (ns.map (ascii "sample " ++ ·)).map (lineText .autosample) =
        ns.map (ascii "sample " ++ ·) := fun ns hns => by
    rw [List.map_map]
    exact List.map_congr_left fun name hname => lineText_sample (hnames name (hns hname)).2
  rw [h.framed.lines .autosample, framed]
  rw [childWrites_eq] at hsent ⊢
  constructor
  · have hpre : (frame linefeed sizeofBuf [] (bytesOf .autosample s.trace)).2 <+:
        names.map (ascii "sample " ++ ·) :=
      frame_prefix_of_encode (by decide) (fun l hl => (hline l hl).1) (fun l hl => (hline l hl).2)
        hsent
    rw [List.prefix_iff_eq_take.mp hpre, ← List.map_take, htext _ (List.take_subset _ names),
      List.map_take]
    exact List.take_prefix ..
  · intro hall
    have hlines := completeLines_encode fun l hl => (hline l hl).1
    rw [hall, frame_eq_completeLines _ [] List.not_mem_nil (by decide), List.nil_append, hlines,
      htext _ (List.Subset.refl names)]
    rw [List.nil_append, hlines]
    exact fun l hl => (hline l hl).2

/-- **Every sample of the child is queued, once and with its value.** When
the daemon has read any part of what the child wrote for devices of an
accepted configuration, the pipe's commands are the samples of the lines
that are complete, each with the value that is configured, and nothing was
answered on the pipe. Only the last line may be missing, where there was no
memory for it; the loop ends there. -/
theorem samples_pushed (hparse : optionsParse mem argv0 args = .ok opt)
    (hpost : optionsParsePost fs powerMem sampleMem opt = .ok opt')
    (hopt : cfg.opt = opt'.toOptions) (ha : a ∈ cfg.autosample)
    (hnames : ∀ name ∈ names, name ∈ opt'.devices.map Prod.fst)
    (hfits : ∀ name ∈ names, (sampleCmd name).length ≤ sizeofBuf) (h : Reachable cfg A s)
    (hsent : bytesOf .autosample s.trace <+: childWrites names) :
    (∀ name ∈ names, ∃ v, keyValueStorageFind opt'.sampledevs (some name) = some v) ∧
      (∀ conn reply, .respond a.writeFd conn reply ∉ s.trace) ∧
      ∃ k, linesOf .autosample s.trace = (names.take k).map (ascii "sample " ++ ·) ∧
        (bytesOf .autosample s.trace = childWrites names → names.length ≤ k) ∧
        (requestsOf .autosample s.trace = samplesOf opt' (names.take k) ∨
          s.returnValue = -2 ∧ (∃ u e, A u e ∧ ¬ PipeFits u e) ∧
            requestsOf .autosample s.trace = samplesOf opt' (names.take k).dropLast) := by
  have hdevice := fun name hname => device_of_accepted hparse hpost (hnames name hname)
  have hfound : ∀ name ∈ names,
      ∃ v, keyValueStorageFind opt'.sampledevs (some name) = some v := fun name hname =>
    Option.isSome_iff_exists.mp (hdevice name hname).1
  obtain ⟨hfirst, hall⟩ := linesOf_child h
    (fun name hname => ⟨(hdevice name hname).2.2.1, (hdevice name hname).2.2.2⟩) hfits hsent
  obtain ⟨hcase, hrefused⟩ := h.piped ha
  set k := (linesOf .autosample s.trace).length with hk
  have hlines : linesOf .autosample s.trace = (names.take k).map (ascii "sample " ++ ·) := by
    rw [List.map_take]
    exact List.prefix_iff_eq_take.mp hfirst
  refine ⟨hfound, fun conn reply hreply => ?_, k, hlines, fun hsent => ?_, ?_⟩
  · -- an answer would be for a line whose name is not found
    obtain ⟨line, hline, id, hnone⟩ := hrefused conn reply hreply
    obtain ⟨name, hname, rfl⟩ := List.mem_map.mp (hfirst.subset hline)
    obtain ⟨v, hv⟩ := hfound name hname
    rw [hopt, requestOfLine_sample] at hnone
    rw [show opt'.toOptions.sampledevs = opt'.sampledevs from rfl, hv] at hnone
    cases hnone
  · rw [hk, hall hsent, List.length_map]
  · rw [hopt, Asked, AskedButLast, hlines, ← List.map_dropLast, filterMap_requestOfLine,
      filterMap_requestOfLine] at hcase
    exact hcase

/-- One sample device, sampled every minute. -/
def OptionsT.sampling : OptionsT :=
  { optionsDefault with
    sampledevFile := some (ascii "devs")
    sampledevs := ⟨[ascii "temp0"], [ascii "0"]⟩
    autosampledevs := ⟨[ascii "temp0"], [ascii "60"]⟩ }

/-- The daemon with these options. -/
def Setup.samplingTemp0 : Setup := { Setup.sampling with opt := OptionsT.sampling.toOptions }

/-- `-a devs -A temp0,60`, and the child samples the device once. -/
theorem samples_pushed_once :
    ∃ s, Reachable .samplingTemp0 (fun _ _ => True) s ∧
      bytesOf .autosample s.trace = childWrites [ascii "temp0"] ∧
      (∀ conn reply, .respond 6 conn reply ∉ s.trace) ∧
      requestsOf .autosample s.trace = [(.sample, some (ascii "0"))] := by
  obtain ⟨s, hs, hp⟩ := reachable_of_replay .samplingTemp0 (fun _ _ => True)
    [{ Env.idle 1 with
        select := .returned {6}
        autosample := .bytesThenNothing (sampleCmd (ascii "temp0")) }]
    (fun s => bytesOf .autosample s.trace = childWrites [ascii "temp0"] ∧ s.returnValue = 0)
    (by decide +kernel)
  obtain ⟨hbytes, hzero⟩ := of_decide_eq_true hp
  have hparse : optionsParse (fun _ => ⟨true, true⟩) (ascii "powersensordaemon")
      [ascii "-a", ascii "devs", ascii "-A", ascii "temp0,60"] =
        .ok { OptionsT.sampling with sampledevs := .empty } := rfl
  have hpost : optionsParsePost (fun _ => some (ascii "temp0 0" ++ [linefeed]))
      (fun _ => ⟨true, true⟩) (fun _ => ⟨true, true⟩)
      { OptionsT.sampling with sampledevs := .empty } = .ok .sampling := rfl
  have hopt : Setup.samplingTemp0.opt = OptionsT.sampling.toOptions := rfl
  have hpipe : ⟨6, 9⟩ ∈ Setup.samplingTemp0.autosample := rfl
  have hnames : ∀ name ∈ [ascii "temp0"], name ∈ OptionsT.sampling.devices.map Prod.fst := by
    decide
  obtain ⟨-, hsilent, k, -, hk, hcase⟩ := samples_pushed hparse hpost hopt hpipe hnames (by decide)
    hs (by rw [hbytes])
  refine ⟨s, hs, hbytes, hsilent, ?_⟩
  rw [List.take_of_length_le (hk hbytes)] at hcase
  exact hcase.resolve_right fun hlost => by omega

end Daemon

end Realraum
