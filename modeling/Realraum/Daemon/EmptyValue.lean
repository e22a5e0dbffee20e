import Realraum.Daemon.Helpers.Files
import Realraum.Daemon.Helpers.Pipe
import Realraum.Daemon.Helpers.Replay
import Realraum.Daemon.Writes
/-!
# Empty values in the configuration

The loop of `send_command` ends on the first write that takes something,
so it needs something to write. A line of a file that has a key, blanks
and nothing else gives the key an empty value, because the parser takes
the line feed for the value's first character before it cuts it off.
-/

namespace Realraum

namespace Daemon

variable {p : Port} {fd : ℕ} {s : State} {opt : Options} {mem : CmdMem} {line k v : CStr}
variable {c : Cmd} {power sample file : List UInt8} {alloc alloc' : ℕ → AddMem}

/-! ## The loop -/

/-- What the attempts of one call to write to the tty give, by how many
bytes they are given. -/
abbrev Attempts := ℕ → ℕ → WriteResult

/-- **The tty takes what it is given**: where there is something to
write, some attempt is no more told to repeat; where there is nothing,
nothing is taken. -/
structure Attempts.Progress (w : Attempts) : Prop where
  something : ∀ len, 0 < len → ∃ i, ¬ (w len i).Repeats
  nothing : ∀ i, w 0 i = .accepted 0

/-- The bytes `send_command` has for this command. -/
def Cmd.payload (c : Cmd) : List UInt8 := c.param.elim [] (commandBytes c.cmd)

/-- **`send_command` ends**, after so many attempts. -/
def SendEnds (w : Attempts) (c : Cmd) : Prop :=
  ∃ n, sendCommand c ((List.range n).map (w c.payload.length)) ≠ .hang

theorem length_commandBytes (id : CmdId) (v : CStr) :
    (commandBytes id v).length = min 60 v.length := by
  cases id <;> simp [commandBytes]

/-- **`send_command` ends just in case it has no empty value.** -/
theorem sendEnds_iff_param {w : Attempts} (hw : w.Progress) (hid : c.cmd ≠ .log ∧ c.cmd ≠ .listen) :
    SendEnds w c ↔ c.param ≠ some [] := by
  have hhang : ∀ {v : CStr} {xs : List WriteResult}, c.param = some v →
      (sendCommand c xs = .hang ↔ ∀ r ∈ xs, r.Repeats) := fun {v xs} hv => by
    rw [← writeLoop_eq_none, sendCommand, hv]
    cases hc : c.cmd with
    | log => exact absurd hc hid.1
    | listen => exact absurd hc hid.2
    | powerOn | powerOff | sample =>
        simp only
        cases writeLoop xs with
        | none => simp
        | some r => cases r <;> simp
  cases hv : c.param with
  | none => exact iff_of_true ⟨0, by simp [sendCommand, hv]⟩ (by simp)
  | some v =>
      have hlen : c.payload.length = min 60 v.length := by
        rw [Cmd.payload, hv]
        exact length_commandBytes c.cmd v
      simp only [SendEnds, ne_eq, hhang hv, hlen, List.mem_map, Option.some.injEq]
      constructor
      · rintro ⟨n, h⟩ rfl
        refine h ?_
        rintro r ⟨i, -, rfl⟩
        exact .inl (hw.nothing i)
      · intro hne
        have hpos : 0 < min 60 v.length :=
          lt_min (by decide) (List.length_pos_iff.mpr hne)
        obtain ⟨i, hi⟩ := hw.something _ hpos
        exact ⟨i + 1, fun h => hi (h _ ⟨i, by simp, rfl⟩)⟩

/-! ## The files -/

/-- The chunk gives the key a value, if only the empty one. -/
def GivesKey (k : CStr) (buf : List UInt8) : Prop :=
  Bare buf ∧ chunkFields buf = [k] ∨ ∃ v more, chunkFields buf = k :: v :: more

/-- **The key comes bare first**: the first chunk of the file that gives
it a value has the key, blanks and the line feed. -/
def BareFirst (file : List UInt8) (k : CStr) : Prop :=
  ∃ before buf after, fgetsAll file = before ++ buf :: after ∧
    (∀ b ∈ before, ¬ GivesKey k b) ∧ Bare buf ∧ chunkFields buf = [k]

theorem givesKey_iff {buf : List UInt8} (h : buf ∈ fgetsAll file) :
    GivesKey k buf ↔ ∃ pair, parseKeyValue buf = some pair ∧ pair.1 = k := by
  constructor
  · rintro (⟨hbare, hone⟩ | ⟨v, more, hmore⟩)
    · exact ⟨(k, []), (parseKeyValue_of_mem h).mpr (.inl ⟨rfl, hbare, hone⟩), rfl⟩
    · exact ⟨(k, v), (parseKeyValue_of_mem h).mpr (.inr ⟨more, hmore⟩), rfl⟩
  · rintro ⟨⟨k, v⟩, hparse, rfl⟩
    exact ((parseKeyValue_of_mem h).mp hparse).imp (fun hbare => hbare.2)
      fun ⟨more, hmore⟩ => ⟨v, more, hmore⟩

/-- A chunk with an empty value is bare, since no word is empty. -/
theorem bare_of_parseKeyValue {buf : List UInt8} (h : buf ∈ fgetsAll file) :
    parseKeyValue buf = some (k, []) ↔ Bare buf ∧ chunkFields buf = [k] := by
  rw [parseKeyValue_of_mem h]
  constructor
  · rintro (⟨-, hbare⟩ | ⟨more, hmore⟩)
    · exact hbare
    · have hmem : [] ∈ chunkFields buf := by rw [hmore]; simp
      exact absurd rfl (Fields.ne_nil_of_mem_fields hmem)
  · exact fun hbare => .inl ⟨rfl, hbare⟩

/-- **A key has the empty value just in case it comes bare first.** -/
theorem find_eq_nil {stor : KeyValueStorage}
    (h : optionsParseKeyValueFile (some file) alloc .empty = (0, stor)) :
    keyValueStorageFind stor (some k) = some [] ↔ BareFirst file k := by
  rw [find_of_file h, filePairs, List.find?_filterMap]
  simp only [Option.map_eq_some_iff, Option.bind_eq_some_iff, List.find?_eq_some_iff_append]
  constructor
  · rintro ⟨⟨k', v⟩, ⟨buf, ⟨hk, before, after, hfile, hbefore⟩, hparse⟩, rfl⟩
    have hmem : ∀ b ∈ before ++ buf :: after, b ∈ fgetsAll file := fun b hb => hfile ▸ hb
    rw [hparse] at hk
    obtain rfl : k' = k := by simpa using hk
    refine ⟨before, buf, after, hfile, fun b hb hgives => ?_,
      (bare_of_parseKeyValue (hmem buf (by simp))).mp hparse⟩
    obtain ⟨pair, hpair, hfst⟩ := (givesKey_iff (hmem b (by simp [hb]))).mp hgives
    have hnot := hbefore b hb
    rw [hpair] at hnot
    simp [hfst] at hnot
  · rintro ⟨before, buf, after, hfile, hbefore, hbare⟩
    have hmem : ∀ b ∈ before ++ buf :: after, b ∈ fgetsAll file := fun b hb => hfile ▸ hb
    have hparse := (bare_of_parseKeyValue (hmem buf (by simp))).mpr hbare
    refine ⟨(k, []), ⟨buf, ⟨by simp [hparse], before, after, hfile, fun b hb => ?_⟩, hparse⟩, rfl⟩
    have hnot : ¬ ∃ pair, parseKeyValue b = some pair ∧ pair.1 = k := fun hgives =>
      hbefore b hb ((givesKey_iff (hmem b (by simp [hb]))).mpr hgives)
    cases hb' : parseKeyValue b with
    | none => rfl
    | some pair => simpa [hb'] using hnot

/-! ## The command -/

/-- What a line asks for. -/
def requestKey (line : CStr) : Option CStr := (recognise line).bind fun r => behindBlank r.2

/-- The file a command's value comes from. -/
def fileOf (id : CmdId) (power sample : List UInt8) : List UInt8 :=
  if id = .sample then sample else power

/-- What `process_cmd` queues. -/
theorem queued_of_processCmd (hq : (processCmd opt mem p fd line s).2.cmdQ = s.cmdQ ++ [c]) :
    (c.cmd = .powerOn ∨ c.cmd = .powerOff ∨ c.cmd = .sample) ∧
      c.param = findValue opt c.cmd (requestKey line) := by
  have hno : (processCmd opt mem p fd line s).2.cmdQ ≠ s.cmdQ := fun h => by
    rw [h] at hq
    simpa using congrArg List.length hq
  cases hrec : recognise line with
  | none => exact absurd (by rw [processCmd, hrec]) hno
  | some r =>
      obtain ⟨id, cmd⟩ := r
      have hkey : requestKey line = behindBlank cmd := by rw [requestKey, hrec]; rfl
      have hrequest : id = .powerOn ∨ id = .powerOff ∨ id = .sample := by
        cases id with
        | powerOn => exact .inl rfl
        | powerOff => exact .inr (.inl rfl)
        | sample => exact .inr (.inr rfl)
        | log => exact absurd (by rw [processCmd, hrec]) hno
        | listen => exact absurd (by rw [processCmd, hrec]; rfl) hno
      obtain ⟨-, c', hcmd, hparam, hq'⟩ := processCmd_queue opt mem p fd s hrequest hrec
      rw [hq'] at hq hno
      split at hq
      · obtain rfl : c' = c := by simpa using hq
        rw [hcmd, hkey]
        exact ⟨hrequest, hparam⟩
      · rename_i hfits
        exact absurd (if_neg hfits) hno

/-- **When `send_command` ends.** Over storages read from any two files,
for every command that `process_cmd` queues and every tty that takes what
it is given, the loop ends just in case the key the line asks for does not
come bare first in its file. -/
theorem sendCommand_ends_iff {w : Attempts}
    (hpower : optionsParseKeyValueFile (some power) alloc .empty = (0, opt.powerids))
    (hsample : optionsParseKeyValueFile (some sample) alloc' .empty = (0, opt.sampledevs))
    (hq : (processCmd opt mem p fd line s).2.cmdQ = s.cmdQ ++ [c]) (hw : w.Progress) :
    SendEnds w c ↔ ∀ k ∈ requestKey line, ¬ BareFirst (fileOf c.cmd power sample) k := by
  obtain ⟨hid, hparam⟩ := queued_of_processCmd hq
  have hfind : ∀ k, findValue opt c.cmd (some k) = some [] ↔
      BareFirst (fileOf c.cmd power sample) k := fun k => by
    rw [fileOf]
    rcases hid with h | h | h <;> rw [h]
    · exact find_eq_nil hpower
    · exact find_eq_nil hpower
    · exact find_eq_nil hsample
  have hnone : findValue opt c.cmd none = none := by
    rcases hid with h | h | h <;> rw [h] <;> rfl
  rw [sendEnds_iff_param hw (by rcases hid with h | h | h <;> simp [h]), hparam]
  cases requestKey line with
  | none => simp [hnone]
  | some k => simp [hfind k]

/-- The tty takes everything at once. -/
def takesAll : Attempts := fun len _ => .accepted len

theorem takesAll_progress : takesAll.Progress where
  something len hlen := ⟨0, by simp [takesAll, WriteResult.Repeats]; omega⟩
  nothing _ := rfl

/-- The state in front of the first line. -/
def State.fresh : State := entry .sample (fun _ => 0) fun _ => 0

/-- What `power on lamp` queues there, with this value for the lamp. -/
def lampCmd (v : CStr) : Cmd :=
  { serial := 0, port := .client 0, fd := 7, cmd := .powerOn, param := some v, sent := false,
    tvStart := .zero }

/-- The options where the power id file gives the lamp a value. -/
def lampOptions (v : CStr) : Options := ⟨⟨[ascii "lamp"], [v]⟩, .empty⟩

theorem sendCommand_ends_iff_lamp : SendEnds takesAll (lampCmd (ascii "b")) := by
  have hfile : fgetsAll (ascii "lamp b" ++ [linefeed]) = [ascii "lamp b" ++ [linefeed]] := by
    decide
  have hpower : optionsParseKeyValueFile (some (ascii "lamp b" ++ [linefeed]))
      (fun _ => ⟨true, true⟩) .empty = (0, (lampOptions (ascii "b")).powerids) := by decide
  have hsample : optionsParseKeyValueFile (some []) (fun _ => ⟨true, true⟩) .empty =
      (0, (lampOptions (ascii "b")).sampledevs) := by decide
  have hq : (processCmd (lampOptions (ascii "b")) .plenty (.client 0) 7 (ascii "power on lamp")
      .fresh).2.cmdQ = State.fresh.cmdQ ++ [lampCmd (ascii "b")] := by decide
  refine (sendCommand_ends_iff hpower hsample hq takesAll_progress).mpr ?_
  rintro k - ⟨before, buf, after, hchunks, -, hbare, -⟩
  have hmem : buf ∈ fgetsAll (ascii "lamp b" ++ [linefeed]) := by
    rw [show fgetsAll (ascii "lamp b" ++ [linefeed]) = before ++ buf :: after from hchunks]
    simp
  rw [hfile] at hmem
  rw [List.mem_singleton.mp hmem] at hbare
  exact absurd hbare (by decide)

/-- **`send_command` does not end.** The line of the lamp has a blank
behind the key, and nothing more; `power on lamp` then has no byte to
write, and every attempt takes none. -/
theorem sendCommand_ends_fails :
    optionsParseKeyValueFile (some (ascii "lamp " ++ [linefeed])) (fun _ => ⟨true, true⟩) .empty =
        (0, (lampOptions []).powerids) ∧
      (processCmd (lampOptions []) .plenty (.client 0) 7 (ascii "power on lamp") .fresh).2.cmdQ =
        [lampCmd []] ∧
      takesAll.Progress ∧ ¬ SendEnds takesAll (lampCmd []) := by
  refine ⟨by decide, by decide, takesAll_progress, fun h => ?_⟩
  exact (sendEnds_iff_param takesAll_progress (by decide)).mp h rfl

end Daemon

end Realraum
