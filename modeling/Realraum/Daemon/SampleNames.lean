import Realraum.Daemon.Delivery
import Realraum.Daemon.Helpers.Files
/-!
# The daemon — the name in an answer

`process_cmd` looks the code of a sample device up by its name, and
`process_tty` the name by the code, each in the order of the file. A name
has the value of its first pair, and a code has the name of its own first
pair: the answer to `sample d` begins with `d` unless another name has the
code further up in the file.
-/

namespace Realraum

namespace Daemon

variable {cfg : Setup} {A : State → Env → Prop} {s : State} {opt : Options}
variable {file : List UInt8} {alloc : ℕ → AddMem} {d data : CStr} {code : UInt8} {r : Request}

/-! ## There and back -/

/-- **The first pair with a key and the first with its value.** The name of
the value is the key unless the value stands further up. -/
theorem find_value_iff {K V : Type*} [DecidableEq K] [DecidableEq V] {pairs : List (K × V)} {k : K}
    {v : V} (h : (pairs.find? fun pair => pair.1 = k).map Prod.snd = some v) :
    ∃ before after e, pairs = before ++ (k, v) :: after ∧ (∀ pair ∈ before, pair.1 ≠ k) ∧
      (pairs.find? fun pair => pair.2 = v).map Prod.fst = some e ∧
      (e = k ↔ ∀ pair ∈ before, pair.2 ≠ v) := by
  obtain ⟨pair, hpair, rfl⟩ := Option.map_eq_some_iff.mp h
  obtain ⟨hkey, before, after, heq, hbefore⟩ := List.find?_eq_some_iff_append.mp hpair
  obtain rfl : pair.1 = k := by simpa using hkey
  have hfirst : ∀ p ∈ before, p.1 ≠ pair.1 := fun p hp => by simpa using hbefore p hp
  cases hearlier : before.find? fun p => p.2 = pair.2 with
  | none =>
      refine ⟨before, after, pair.1, heq, hfirst, ?_, iff_of_true rfl ?_⟩
      · rw [heq, List.find?_append, hearlier]
        simp
      · exact fun p hp => by simpa using List.find?_eq_none.mp hearlier p hp
  | some p =>
      have hp := List.mem_of_find?_eq_some hearlier
      refine ⟨before, after, p.1, heq, hfirst, ?_, iff_of_false (hfirst p hp) fun hnot => ?_⟩
      · rw [heq, List.find?_append, hearlier]
        rfl
      · exact hnot p hp (by simpa using List.find?_some hearlier)

/-! ## The two look-ups of a file -/

/-- **The name of a code is that of its first pair.** -/
theorem deviceName_of_file
    (h : optionsParseKeyValueFile (some file) alloc .empty = (0, opt.sampledevs)) (c : UInt8) :
    deviceName opt c = ((filePairs file).find? fun pair => pair.2 = [c]).map Prod.fst := by
  have hzip : opt.sampledevs.keys.zip opt.sampledevs.values = filePairs file := by
    rw [addPairs_eq_zero h]
    exact (List.zip_of_prod rfl rfl).symm
  rw [deviceName, hzip]

/-- `process_cmd` queues this request for the line `sample d`. -/
def AsksFor (opt : Options) (d : CStr) (r : Request) : Prop :=
  ∃ mem p fd s, ∃ c : Cmd, c.toRequest = r ∧
    (processCmd opt mem p fd (ascii "sample " ++ d) s).2.cmdQ = s.cmdQ ++ [c]

/-- It is for the value of the name. -/
theorem AsksFor.param (h : AsksFor opt d r) :
    r.cmd = .sample ∧ r.param = keyValueStorageFind opt.sampledevs (some d) := by
  obtain ⟨mem, p, fd, s, c, rfl, hqueue⟩ := h
  obtain ⟨-, c', hcmd, hparam, hqueue'⟩ := processCmd_queue opt mem p fd s (.inr (.inr rfl))
    (recognise_word .sample (blank :: d))
  have hline : ascii "sample " ++ d = ascii CmdId.sample.word ++ blank :: d := rfl
  rw [hline, hqueue'] at hqueue
  split at hqueue
  · obtain rfl : c' = c := by simpa using hqueue
    refine ⟨hcmd, hparam.trans ?_⟩
    rw [behindBlank_joined, behindBlank_blank]
    rfl
  · simp at hqueue

/-! ## The answer -/

/-- The line of a sensor, with a device for its code. -/
theorem relayed_sensor {e : CStr} (h : deviceName opt code = some e) :
    relayed opt (ascii "Sensor " ++ code :: (ascii ": " ++ data)) = e ++ (ascii ": " ++ data) := by
  have hdrop : (ascii "Sensor " ++ code :: (ascii ": " ++ data)).drop 7 =
      code :: (ascii ": " ++ data) := rfl
  have hword : startsWith (ascii "Sensor " ++ code :: (ascii ": " ++ data)) "Sensor " = true := rfl
  rw [relayed, if_pos hword, hdrop]
  simp only [h, Option.map_some, Option.getD_some]

/-- **The first name with the code is in the answer.** For every file of
sample devices that is read, in every state the daemon reaches: where the
head of the queue is what `sample d` was queued as, `d` has a code of one
character, and the firmware answers with the line for that code, the client
is sent this line once, with the name of the first pair that has the code
for `Sensor` and the code. That is `d` if and only if no pair in front of
the first one of `d` has the code. -/
theorem sample_answered (hfile : optionsParseKeyValueFile (some file) alloc .empty =
      (0, cfg.opt.sampledevs))
    (hcode : keyValueStorageFind cfg.opt.sampledevs (some d) = some [code])
    (h : Reachable cfg A s) {c : Cmd} (hhead : s.cmdQ.head? = some c)
    (hasks : AsksFor cfg.opt d c.toRequest) {f : TtyFeed} (hline : Completes s.ttyBuffer f.bytes)
    (htext : ttyLineOf s f = ascii "Sensor " ++ code :: (ascii ": " ++ data)) :
    c.cmd = .sample ∧ c.param = some [code] ∧
      ∃ before after e, ∃ others : List ℕ,
        filePairs file = before ++ (d, [code]) :: after ∧ (∀ pair ∈ before, pair.1 ≠ d) ∧
        ((filePairs file).find? fun pair => pair.2 = [code]).map Prod.fst = some e ∧
        sends (processTty cfg.opt f s).2.trace =
          sends s.trace ++ (c.fd, e ++ (ascii ": " ++ data)) ::
            others.map (fun fd => (fd, e ++ (ascii ": " ++ data))) ∧
        c.fd ∉ others ∧ (e = d ↔ ∀ pair ∈ before, pair.2 ≠ [code]) := by
  obtain ⟨hcmd, hparam⟩ := hasks.param
  rw [hcode] at hparam
  rw [find_of_file hfile] at hcode
  obtain ⟨before, after, e, hpairs, hfirst, hname, hiff⟩ := find_value_iff hcode
  obtain ⟨others, hothers⟩ : ∃ others, recipients (ttyLineOf s f) s = c.fd :: others :=
    ⟨_, by rw [recipients, hhead]; rfl⟩
  have hnodup := recipients_nodup h.inv (ttyLineOf s f)
  rw [hothers, List.nodup_cons] at hnodup
  refine ⟨hcmd, hparam, before, after, e, others, hpairs, hfirst, hname, ?_, hnodup.1, hiff⟩
  rw [sends_processTty h.framed.tty.1 hline, hothers, htext,
    relayed_sensor ((deviceName_of_file hfile code).trans hname)]
  rfl

/-- A daemon that has read its sample devices from this file. -/
def Setup.reading (file : List UInt8) : Setup :=
  { Setup.sample with
    opt := ⟨.empty, (optionsParseKeyValueFile (some file) (fun _ => ⟨true, true⟩) .empty).2⟩
    nodup := by decide }

/-- **The file of the repository**: `sample photo0` is answered as asked. -/
theorem sample_answered_photo0 :
    let cfg := Setup.reading (ascii "temp0     *\nphoto0    ?\n")
    let f : TtyFeed := ⟨ascii "Sensor ?: 512\r\n", .quiet⟩
    ∃ s, Reachable cfg (fun _ _ => True) s ∧
      (7, ascii "photo0: 512") ∈ sends (processTty cfg.opt f s).2.trace := by
  intro cfg f
  have hfile : optionsParseKeyValueFile (some (ascii "temp0     *\nphoto0    ?\n"))
      (fun _ => ⟨true, true⟩) .empty = (0, cfg.opt.sampledevs) := by decide +kernel
  have hcode : keyValueStorageFind cfg.opt.sampledevs (some (ascii "photo0")) = some [63] := by
    decide +kernel
  obtain ⟨s, hs, hp⟩ := reachable_of_replay cfg (fun _ _ => True)
    [.connect cfg 7 0, .command 7 "sample photo0" 1]
    (fun s => s.cmdQ.map (fun c => c.toRequest) = [⟨0, .client 0, 7, .sample, some [63]⟩] ∧
      Completes s.ttyBuffer f.bytes ∧
      ttyLineOf s f = ascii "Sensor " ++ 63 :: (ascii ": " ++ ascii "512")) (by decide +kernel)
  obtain ⟨hqueue, hline, htext⟩ := of_decide_eq_true hp
  obtain ⟨c, hcmdQ, hrequest⟩ := List.map_eq_singleton_iff.mp hqueue
  have hasks : AsksFor cfg.opt (ascii "photo0") c.toRequest :=
    ⟨.plenty, .client 0, 7, entry cfg (fun _ => 0) fun _ => 0,
      ⟨⟨0, .client 0, 7, .sample, some [63]⟩, false, .zero⟩, hrequest.symm, by decide +kernel⟩
  obtain ⟨-, -, before, after, e, others, -, -, hname, hsends, -⟩ :=
    sample_answered hfile hcode hs (by rw [hcmdQ]; rfl) hasks hline htext
  have hfirst : ((filePairs (ascii "temp0     *\nphoto0    ?\n")).find? fun pair =>
      pair.2 = [63]).map Prod.fst = some (ascii "photo0") := by decide +kernel
  obtain rfl : ascii "photo0" = e := Option.some.inj (hfirst.symm.trans hname)
  have hfd : c.fd = 7 := congrArg Request.fd hrequest
  refine ⟨s, hs, ?_⟩
  rw [hsends, hfd]
  exact List.mem_append_right _ List.mem_cons_self

/-- **Two names with one code**: `sample temp1` is answered for `temp0`. -/
theorem sample_answered_fails :
    let file := ascii "temp0 *\ntemp1 *\n"
    let cfg := Setup.reading file
    let f : TtyFeed := ⟨ascii "Sensor *: 21\r\n", .quiet⟩
    optionsParseKeyValueFile (some file) (fun _ => ⟨true, true⟩) .empty = (0, cfg.opt.sampledevs) ∧
      keyValueStorageFind cfg.opt.sampledevs (some (ascii "temp1")) = some (ascii "*") ∧
      ∃ s c, Reachable cfg (fun _ _ => True) s ∧ s.cmdQ = [c] ∧
        AsksFor cfg.opt (ascii "temp1") c.toRequest ∧
        sends (processTty cfg.opt f s).2.trace = sends s.trace ++ [(7, ascii "temp0: 21")] := by
  intro file cfg f
  refine ⟨by decide +kernel, by decide +kernel, ?_⟩
  obtain ⟨s, hs, hp⟩ := reachable_of_replay cfg (fun _ _ => True)
    [.connect cfg 7 0, .command 7 "sample temp1" 1]
    (fun s => s.cmdQ.map (fun c => c.toRequest) = [⟨0, .client 0, 7, .sample, some [42]⟩] ∧
      sends (processTty cfg.opt f s).2.trace = sends s.trace ++ [(7, ascii "temp0: 21")])
    (by decide +kernel)
  obtain ⟨hqueue, hsends⟩ := of_decide_eq_true hp
  obtain ⟨c, hcmdQ, hrequest⟩ := List.map_eq_singleton_iff.mp hqueue
  exact ⟨s, c, hs, hcmdQ,
    ⟨.plenty, .client 0, 7, entry cfg (fun _ => 0) fun _ => 0,
      ⟨⟨0, .client 0, 7, .sample, some [42]⟩, false, .zero⟩, hrequest.symm, by decide +kernel⟩,
    hsends⟩

end Daemon

end Realraum
