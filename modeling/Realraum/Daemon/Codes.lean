import Realraum.Daemon.Helpers.Calls
import Realraum.Daemon.Helpers.Files
import Realraum.Daemon.Helpers.Replay
import Realraum.Firmware.Model.Loop
/-!
# Raw codes in the power id file

A line `name >` and three bytes in the power id file is a raw RF code: the
daemon is to write the `>` and the bytes, and the firmware takes them for
one command. On the way the line is parsed as text, the value is kept as a
C string, and its letters are folded for on and for off; and the line of
the client that asks for it has to fit the buffer it is read into.
-/

namespace Realraum

namespace Daemon

variable {mem : CmdMem} {p : Port} {fd : ℕ} {s : State} {id : CmdId} {opt : Options}
variable {line name v sent : CStr} {alloc : ℕ → AddMem}

/-- `'>'`. -/
def rawMark : UInt8 := 62

/-- **A power id file with a raw code in it**: the name and the code, and
what stands before and behind the line. A name is what can stand in a line. -/
structure CodeFile where
  name : CStr
  code : Firmware.RfCode
  before : List UInt8
  tail : List UInt8
  name_line : 0 ∉ name ∧ linefeed ∉ name
  starts : before = [] ∨ before.getLast? = some linefeed
  ends : tail = [] ∨ tail.head? = some linefeed

namespace CodeFile

/-- The value that should be sent: `>` and the code. -/
def value (f : CodeFile) : List UInt8 := rawMark :: List.ofFn f.code

/-- The file. -/
def bytes (f : CodeFile) : List UInt8 := f.before ++ (f.name ++ blank :: f.value ++ f.tail)

/-- The bytes of a code that come through: not a letter, and nothing that
ends a string, a line or a word. -/
def plain (b : UInt8) : Bool :=
  b ≠ 0 ∧ b ≠ linefeed ∧ b ≠ blank ∧ ¬ (65 ≤ b ∧ b ≤ 90) ∧ ¬ (97 ≤ b ∧ b ≤ 122)

/-- **The lines that come through**: the name is a word that leaves room
for `power off` in the buffer of a client, the code is plain, and no line
before gives the name another value. -/
def ComesThrough (f : CodeFile) : Prop :=
  f.name ≠ [] ∧ blank ∉ f.name ∧ f.name.length ≤ 89 ∧ (∀ i, plain (f.code i) = true) ∧
    ∀ pair, (filePairs f.before).find? (fun pair => pair.1 = f.name) = some pair →
      pair.2 = f.value

end CodeFile

/-- The line `power on name` or `power off name`, ended by a line feed. -/
def powerFeed (mem : CmdMem) (id : CmdId) (name : List UInt8) : Feed :=
  ⟨ascii id.word ++ blank :: name ++ [linefeed], .error .again, mem⟩

/-- The line, when `nonblock_readline` reads it, queues a command, and what
`send_command` writes of it are these bytes, as many of them as the tty
takes. -/
def Transmits (opt : Options) (mem : CmdMem) (p : Port) (fd : ℕ) (s : State) (id : CmdId)
    (name sent : List UInt8) : Prop :=
  ∃ c : Cmd,
    (nonblockReadline opt p fd (powerFeed mem id name) s).2.cmdQ = s.cmdQ ++ [c] ∧
      ∀ results n, writeLoop results = some (.accepted n) →
        sendCommand c results = .wrote (sent.take n)

/-! ## The case conversion -/

theorem fold_eq_iff (b x : UInt8) :
    toupper x = b ∧ tolower x = b ↔
      x = b ∧ ¬ (65 ≤ b ∧ b ≤ 90) ∧ ¬ (97 ≤ b ∧ b ≤ 122) := by
  unfold toupper tolower
  grind

theorem fold_map_eq_iff (l r : List UInt8) :
    l.map toupper = r ∧ l.map tolower = r ↔
      l = r ∧ ∀ b ∈ r, ¬ (65 ≤ b ∧ b ≤ 90) ∧ ¬ (97 ≤ b ∧ b ≤ 122) := by
  induction l generalizing r with
  | nil =>
      constructor
      · rintro ⟨rfl, -⟩
        simp
      · rintro ⟨rfl, -⟩
        simp
  | cons x l ih =>
      cases r with
      | nil => simp
      | cons b r =>
          have hhead := fold_eq_iff b x
          have htail := ih r
          simp only [List.map_cons, List.cons.injEq, List.forall_mem_cons]
          tauto

/-! ## What is sent for a name -/

theorem sendCommand_accepted {c : Cmd} {results : List WriteResult} {n : ℕ}
    (hid : id = .powerOn ∨ id = .powerOff) (hcmd : c.cmd = id) (hparam : c.param = some v)
    (h : writeLoop results = some (.accepted n)) :
    sendCommand c results = .wrote ((commandBytes id v).take n) := by
  rw [sendCommand, hparam, hcmd]
  rcases hid with rfl | rfl <;> simp only [h]

theorem sendCommand_none {c : Cmd} (hparam : c.param = none) (results : List WriteResult) :
    sendCommand c results = .skipped := by
  rw [sendCommand, hparam]

/-- **A line is taken as it stands where it fits the buffer**, and is lost
otherwise. -/
theorem nonblockReadline_line (opt : Options) (mem : CmdMem) (fd : ℕ)
    (hstart : (s.buffer p).offset = 0) (hline : linefeed ∉ line) (hzero : 0 ∉ line)
    (stop : ReadStop) :
    if line.length < sizeofBuf then
      ∃ u : State, u.cmdQ = s.cmdQ ∧
        nonblockReadline opt p fd ⟨line ++ [linefeed], stop, mem⟩ s =
          processCmd opt mem p fd line u
    else (nonblockReadline opt p fd ⟨line ++ [linefeed], stop, mem⟩ s).2.cmdQ = s.cmdQ := by
  have hinside : (s.buffer p).offset < sizeofBuf := by rw [hstart]; decide
  have htake : (line ++ [linefeed]).takeWhile (· ≠ linefeed) = line := by
    rw [List.takeWhile_append_of_pos]
    · simp
    · intro b hb
      have hne : b ≠ linefeed := fun h => hline (h ▸ hb)
      simpa using hne
  have hends : Completes (s.buffer p) (line ++ [linefeed]) ↔ line.length < sizeofBuf := by
    rw [Completes, htake, hstart, Nat.zero_add]
    exact and_iff_right (by simp)
  have hnew := (readLoop_newline_iff (p := p) (line ++ [linefeed]) (s.buffer p) hinside).trans hends
  have hcontents := readLoop_newline_contents (p := p) (line ++ [linefeed]) (s.buffer p)
  have hempty : (s.buffer p).contents = [] := by rw [ReadBuffer.contents, hstart]; rfl
  rw [hempty, List.nil_append, htake] at hcontents
  rw [nonblockReadline]
  rcases hr : readLoop p (s.buffer p) (line ++ [linefeed]) with ⟨x, b, es⟩
  rw [hr] at hnew hcontents
  split
  · rename_i hfits
    obtain rfl : x = .newline := hnew.mpr hfits
    have htext : (b.store b.offset 0).text = line := by
      rw [ReadBuffer.text, ReadBuffer.contents_store le_rfl, hcontents rfl]
      exact cstring_of_notMem hzero
    dsimp only
    rw [htext]
    exact ⟨_, by simp, rfl⟩
  · rename_i hlong
    cases x with
    | newline => exact absurd (hnew.mp rfl) hlong
    | dry => simp
    | overflow => simp

/-- **A power command is queued with the value of its name**, where its line
fits. -/
theorem powerFeed_queue (opt : Options) (fd : ℕ) (hid : id = .powerOn ∨ id = .powerOff)
    (hmalloc : mem.malloc = true) (hstrdup : mem.strdup = true)
    (hstart : (s.buffer p).offset = 0) (hname : 0 ∉ name ∧ linefeed ∉ name) :
    ∃ c : Cmd, c.cmd = id ∧ c.param = keyValueStorageFind opt.powerids (some name) ∧
      (nonblockReadline opt p fd (powerFeed mem id name) s).2.cmdQ =
        if (ascii id.word ++ blank :: name).length < sizeofBuf then s.cmdQ ++ [c]
        else s.cmdQ := by
  have hrequest : id = .powerOn ∨ id = .powerOff ∨ id = .sample := by
    rcases hid with h | h
    · exact .inl h
    · exact .inr (.inl h)
  have hword : linefeed ∉ ascii id.word ∧ 0 ∉ ascii id.word := by
    rcases hid with rfl | rfl <;> decide
  have hline : linefeed ∉ ascii id.word ++ blank :: name := by
    simp [hword.1, hname.2, (by decide : linefeed ≠ blank)]
  have hzero : 0 ∉ ascii id.word ++ blank :: name := by
    simp [hword.2, hname.1, (by decide : (0 : UInt8) ≠ blank)]
  have hread := nonblockReadline_line opt mem fd hstart hline hzero (.error .again)
  split at hread
  · rename_i hfits
    obtain ⟨u, hqueue, hread⟩ := hread
    obtain ⟨-, c, hcmd, hparam, hpush⟩ := processCmd_queue opt mem p fd u hrequest
      (recognise_word id (blank :: name))
    rw [if_pos, hqueue, ← hread] at hpush
    · rw [behindBlank_joined, behindBlank_blank] at hparam
      refine ⟨c, hcmd, ?_, by rw [if_pos hfits]; exact hpush⟩
      rw [hparam]
      rcases hid with rfl | rfl <;> rfl
    · rw [pushFits_request hrequest (recognise_word id (blank :: name)), hmalloc, hstrdup]
      rfl
  · rename_i hlong
    exact ⟨⟨⟨0, p, fd, id, keyValueStorageFind opt.powerids (some name)⟩, false, .zero⟩, rfl, rfl,
      by rw [if_neg hlong]; exact hread⟩

/-- **A power command sends the value of its name**, folded. -/
theorem transmits_iff (hid : id = .powerOn ∨ id = .powerOff) (hmalloc : mem.malloc = true)
    (hstrdup : mem.strdup = true) (hstart : (s.buffer p).offset = 0)
    (hname : 0 ∉ name ∧ linefeed ∉ name) :
    Transmits opt mem p fd s id name sent ↔
      (ascii id.word ++ blank :: name).length < sizeofBuf ∧
        ∃ v, keyValueStorageFind opt.powerids (some name) = some v ∧ commandBytes id v = sent := by
  obtain ⟨c, hcmd, hparam, hqueue⟩ :=
    powerFeed_queue opt fd hid hmalloc hstrdup hstart hname
  constructor
  · rintro ⟨c', hqueue', hsends⟩
    rw [hqueue] at hqueue'
    split at hqueue'
    · rename_i hfits
      obtain rfl : c = c' := by simpa using hqueue'
      refine ⟨hfits, ?_⟩
      -- a write that takes all there is tells the bytes
      cases hv : c.param with
      | none =>
          have hsend := hsends [.accepted 1] 1 rfl
          rw [sendCommand_none hv] at hsend
          cases hsend
      | some v =>
          refine ⟨v, by rw [← hparam, hv], ?_⟩
          set n := (commandBytes id v).length + sent.length + 1 with hn
          have hsend := hsends [.accepted n] n rfl
          rw [sendCommand_accepted hid hcmd hv rfl, List.take_of_length_le (by omega),
            List.take_of_length_le (by omega)] at hsend
          exact Sent.wrote.inj hsend
    · simp at hqueue'
  · rintro ⟨hfits, v, hv, rfl⟩
    rw [if_pos hfits] at hqueue
    exact ⟨c, hqueue, fun results n h => sendCommand_accepted hid hcmd (hparam.trans hv) h⟩

/-- On and off send the same where the value is sent as it is. -/
theorem transmits_both_iff (hmalloc : mem.malloc = true) (hstrdup : mem.strdup = true)
    (hstart : (s.buffer p).offset = 0) (hname : 0 ∉ name ∧ linefeed ∉ name)
    (hlen : sent.length < 60) :
    Transmits opt mem p fd s .powerOn name sent ∧ Transmits opt mem p fd s .powerOff name sent ↔
      name.length ≤ 89 ∧ keyValueStorageFind opt.powerids (some name) = some sent ∧
        ∀ b ∈ sent, ¬ (65 ≤ b ∧ b ≤ 90) ∧ ¬ (97 ≤ b ∧ b ≤ 122) := by
  have hon : (ascii CmdId.powerOn.word ++ blank :: name).length = name.length + 9 := by
    rw [List.length_append, List.length_cons]
    exact Nat.add_comm 8 _
  have hoff : (ascii CmdId.powerOff.word ++ blank :: name).length = name.length + 10 := by
    rw [List.length_append, List.length_cons]
    exact Nat.add_comm 9 _
  have hsize : sizeofBuf = 100 := rfl
  rw [transmits_iff (.inl rfl) hmalloc hstrdup hstart hname,
    transmits_iff (.inr rfl) hmalloc hstrdup hstart hname, hon, hoff]
  constructor
  · rintro ⟨⟨-, v, hv, hon⟩, hfits, v', hv', hoff⟩
    refine ⟨by omega, ?_⟩
    obtain rfl : v = v' := by
      rw [hv] at hv'
      exact Option.some.inj hv'
    obtain ⟨htake, hplain⟩ := (fold_map_eq_iff (v.take 60) sent).mp ⟨hon, hoff⟩
    have hle : v.length ≤ 60 := by
      have hlength := congrArg List.length htake
      rw [List.length_take] at hlength
      omega
    rw [List.take_of_length_le hle] at htake
    rw [hv, htake]
    exact ⟨rfl, hplain⟩
  · rintro ⟨hfits, hv, hplain⟩
    have htake : sent.take 60 = sent := List.take_of_length_le (by omega)
    obtain ⟨hon, hoff⟩ := (fold_map_eq_iff (sent.take 60) sent).mpr ⟨htake, hplain⟩
    exact ⟨⟨by omega, sent, hv, hon⟩, by omega, sent, hv, hoff⟩

/-! ## From the file to the tty -/

namespace CodeFile

variable {f : CodeFile}

theorem length_value (f : CodeFile) : f.value.length = 4 := by
  rw [value, List.length_cons, List.length_ofFn]

/-- The value of a plain code is plain text without letters. -/
theorem plain_value_iff (f : CodeFile) :
    (∀ i, plain (f.code i) = true) ↔
      (blank ∉ f.value ∧ linefeed ∉ f.value ∧ 0 ∉ f.value) ∧
        ∀ b ∈ f.value, ¬ (65 ≤ b ∧ b ≤ 90) ∧ ¬ (97 ≤ b ∧ b ≤ 122) := by
  have hall : ∀ P : UInt8 → Prop, (∀ b ∈ f.value, P b) ↔ P rawMark ∧ ∀ i, P (f.code i) :=
    fun P => by rw [value, List.forall_mem_cons, List.forall_mem_ofFn_iff]
  have hnot : ∀ x, x ≠ rawMark → (x ∉ f.value ↔ ∀ i, f.code i ≠ x) := fun x hx => by
    constructor
    · exact fun h => ((hall (· ≠ x)).mp fun b hb hbx => h (hbx ▸ hb)).2
    · exact fun h hb => (hall (· ≠ x)).mpr ⟨hx.symm, h⟩ x hb rfl
  rw [hall, hnot _ (by decide), hnot _ (by decide), hnot _ (by decide)]
  simp only [plain, decide_eq_true_eq]
  constructor
  · intro h
    exact ⟨⟨fun i => (h i).2.2.1, fun i => (h i).2.1, fun i => (h i).1⟩, by decide,
      fun i => (h i).2.2.2⟩
  · rintro ⟨⟨hblank, hline, hzero⟩, -, hletter⟩ i
    exact ⟨hzero i, hline i, hblank i, hletter i⟩

/-- **A raw code comes through exactly so.** What the daemon writes on
`power on` and on `power off`, read from the beginning of a line on, is the
`>` and the code where the line comes through, and only there. -/
theorem raw_code_sent (f : CodeFile)
    (hparse : optionsParseKeyValueFile (some f.bytes) alloc .empty = (0, opt.powerids))
    (hmalloc : mem.malloc = true) (hstrdup : mem.strdup = true)
    (hstart : (s.buffer p).offset = 0) :
    Transmits opt mem p fd s .powerOn f.name f.value ∧
        Transmits opt mem p fd s .powerOff f.name f.value ↔
      f.ComesThrough := by
  rw [transmits_both_iff hmalloc hstrdup hstart f.name_line (by rw [length_value]; decide),
    find_of_file hparse]
  constructor
  · rintro ⟨hfits, hfind, hplain⟩
    obtain ⟨pair, hpair, hvalue⟩ := Option.map_eq_some_iff.mp hfind
    have hkey : pair.1 = f.name := by simpa using List.find?_some hpair
    have hmem : (f.name, f.value) ∈ filePairs f.bytes := by
      have := List.mem_of_find?_eq_some hpair
      rwa [← hkey, ← hvalue]
    obtain ⟨hne, hblank, hvblank, hvline, hvzero, -⟩ := pair_of_filePairs hmem
    refine ⟨hne, hblank, hfits, f.plain_value_iff.mpr ⟨⟨hvblank, hvline, hvzero⟩, hplain⟩, ?_⟩
    intro earlier hearlier
    rw [bytes, filePairs_append f.starts, List.find?_append, hearlier] at hpair
    obtain rfl : earlier = pair := by simpa using hpair
    exact hvalue
  · rintro ⟨hne, hblank, hlen, hcode, hearlier⟩
    obtain ⟨hv, hplain⟩ := f.plain_value_iff.mp hcode
    refine ⟨hlen, ?_, hplain⟩
    obtain ⟨more, hpairs⟩ := filePairs_line (k := f.name) (v := f.value)
      ⟨hne, hblank, f.name_line.1, f.name_line.2⟩ ⟨by rw [value]; nofun, hv.1, hv.2.1, hv.2.2⟩
      (by rw [length_value]; omega) f.starts f.ends
    rw [bytes, hpairs, List.find?_append]
    cases hfound : (filePairs f.before).find? fun pair => pair.1 = f.name with
    | none => simp
    | some pair => simpa using hearlier pair hfound

/-- A code without such bytes, alone in the file. -/
theorem raw_code_sent_lamp :
    Transmits ⟨⟨[ascii "lamp"], [[62, 0xa0, 0xa2, 0xa8]]⟩, .empty⟩ ⟨⟨true, true⟩, true⟩
        (.client 0) 7 (entry .sampling (fun _ => 0) fun _ => 0) .powerOn (ascii "lamp")
        [62, 0xa0, 0xa2, 0xa8] ∧
      Transmits ⟨⟨[ascii "lamp"], [[62, 0xa0, 0xa2, 0xa8]]⟩, .empty⟩ ⟨⟨true, true⟩, true⟩
        (.client 0) 7 (entry .sampling (fun _ => 0) fun _ => 0) .powerOff (ascii "lamp")
        [62, 0xa0, 0xa2, 0xa8] := by
  let f : CodeFile := ⟨ascii "lamp", ![0xa0, 0xa2, 0xa8], [], [linefeed], by decide, .inl rfl,
    .inr rfl⟩
  have hparse : optionsParseKeyValueFile (some f.bytes) (fun _ => ⟨true, true⟩) .empty =
      (0, ⟨[ascii "lamp"], [[62, 0xa0, 0xa2, 0xa8]]⟩) := by decide
  exact (raw_code_sent f hparse rfl rfl rfl).mpr
    ⟨by decide, by decide, by decide, by decide, by decide⟩

/-- **Not every code comes through.** `powerids.txt` has one that begins
with a NUL, of which the `>` is sent and nothing else. -/
theorem raw_code_sent_fails :
    ¬ ∀ (f : CodeFile) (opt : Options) (alloc : ℕ → AddMem) (mem : CmdMem) (p : Port) (fd : ℕ)
      (s : State), optionsParseKeyValueFile (some f.bytes) alloc .empty = (0, opt.powerids) →
      mem.malloc = true → mem.strdup = true → (s.buffer p).offset = 0 →
      Transmits opt mem p fd s .powerOn f.name f.value ∧
        Transmits opt mem p fd s .powerOff f.name f.value := by
  intro hall
  let f : CodeFile := ⟨ascii "lichtpioff", ![0x00, 0xa2, 0x2a], [], [linefeed], by decide, .inl rfl,
    .inr rfl⟩
  have hsent := hall f ⟨⟨[ascii "lichtpioff"], [[62]]⟩, .empty⟩ (fun _ => ⟨true, true⟩)
    ⟨⟨true, true⟩, true⟩ (.client 0) 7 (entry .sampling (fun _ => 0) fun _ => 0) (by decide) rfl rfl
    rfl
  rw [transmits_both_iff rfl rfl rfl f.name_line (by decide)] at hsent
  revert hsent
  decide

/-! ## In the firmware -/

/-- Going on any number of times is a run. -/
theorem firmware_run (i : Firmware.Inputs) (n : ℕ) (u : Firmware.State) :
    Reach.Run Firmware.step (fun _ _ => True) u ((Firmware.access i)^[n] u) := by
  induction n generalizing u with
  | zero => exact .refl
  | succ n ih =>
      rw [Function.iterate_succ_apply]
      exact .head ⟨.goesOn i, trivial, rfl⟩ (ih _)

/-- **The firmware takes the value for one command**: an idle radio gets
the code and is ready to send it, and the bytes behind it are untouched. -/
theorem firmware_takes_value (f : CodeFile) (i : Firmware.Inputs) {u : Firmware.State}
    {more : List UInt8} (hp : u.point = .serialTest) (hidle : u.radio.timerRunning = false)
    (hrx : u.rx = f.value ++ more) :
    ∃ t, Reach.Run Firmware.step (fun _ _ => True) u t ∧ t.point = .startTimer ∧ t.rx = more ∧
      t.radio.currentSignal.signal = f.code := by
  refine ⟨_, firmware_run i 7 u, ?_⟩
  obtain ⟨point, radio, sensors, rx, printed, irSent, read⟩ := u
  obtain ⟨signal, st, n, running, on⟩ := radio
  obtain rfl : point = .serialTest := hp
  obtain rfl : running = false := hidle
  obtain rfl : rx = [rawMark, f.code 0, f.code 1, f.code 2] ++ more := by
    rw [show rx = f.value ++ more from hrx, value, List.ofFn_succ]
    rfl
  refine ⟨rfl, rfl, ?_⟩
  funext j
  match j with
  | 0 => rfl
  | 1 => rfl
  | 2 => rfl

end CodeFile

end Daemon

end Realraum
