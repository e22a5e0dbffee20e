import Realraum.Daemon.Helpers.Calls
import Realraum.Daemon.Helpers.Replay
import Realraum.Daemon.Helpers.Words
/-!
# The command grammar

The sentences of `COMMANDS.txt`, with the event `error` that the code
knows too, against what `process_cmd` takes. The code compares the first
bytes of a line and of its parameter with the words of the grammar, so a
line that only begins like a sentence is taken as well, and a request for
something that is not configured is queued without a value.
-/

namespace Realraum

namespace Daemon

variable {opt : Options} {mem : CmdMem} {p : Port} {fd : ℕ} {line cmd param : CStr} {id : CmdId}
variable {s t : State} {v : CStr} {l : Listeners}

/-! ## The grammar -/

/-- The events of `listen`. -/
def eventNames : List String :=
  ["all", "none", "request", "error", "sensor", "movement", "button"]

/-- **A request of the grammar**: the line is the word of the command, a
blank and a configured name, and this is its value. -/
def Orders (opt : Options) (line : CStr) (id : CmdId) (v : CStr) : Prop :=
  (id = .powerOn ∨ id = .powerOff ∨ id = .sample) ∧
    ∃ name, line = ascii id.word ++ blank :: name ∧ findValue opt id (some name) = some v

/-- **A subscription of the grammar.** -/
def Subscription (line : CStr) : Prop :=
  line = ascii "listen" ∨ ∃ event ∈ eventNames, line = ascii "listen" ++ blank :: ascii event

instance (line : CStr) : Decidable (Subscription line) :=
  inferInstanceAs (Decidable (_ ∨ ∃ event ∈ eventNames, _))

/-! ## What the code does with a line -/

/-- A command with this value joined the queue. -/
def PushesValue (s t : State) (id : CmdId) (v : CStr) : Prop :=
  ∃ c : Cmd, t.cmdQ = s.cmdQ ++ [c] ∧ c.cmd = id ∧ c.param = some v

/-- **The line assigns flags of the client it comes from**: there is a
state in which they are others afterwards. -/
def AssignsFlags (opt : Options) (mem : CmdMem) (p : Port) (fd : ℕ) (line : CStr) : Prop :=
  ∃ s, ∃ c ∈ s.clientLst, clientFind s.clientLst fd = some c ∧
    (processCmd opt mem p fd line s).2.clientLst.map Client.listeners ≠
      s.clientLst.map Client.listeners

/-- **`process_cmd` recognises the grammar in this line**: what it pushes
with a value is what the line orders, it assigns flags where the line is
a subscription, and any other line changes neither queue nor clients. -/
structure Recognises (opt : Options) (mem : CmdMem) (p : Port) (fd : ℕ) (line : CStr) : Prop where
  orders : ∀ s id v,
    PushesValue s (processCmd opt mem p fd line s).2 id v ↔ Orders opt line id v
  subscribes : AssignsFlags opt mem p fd line ↔ Subscription line
  others : (∀ id v, ¬ Orders opt line id v) → ¬ Subscription line → ∀ s,
    (processCmd opt mem p fd line s).2.cmdQ = s.cmdQ ∧
      (processCmd opt mem p fd line s).2.clientLst = s.clientLst

/-- The line begins with the word of a request. -/
def BeginsRequest (line : CStr) : Prop :=
  startsWith line "power on" ∨ startsWith line "power off" ∨ startsWith line "sample"

/-- The line begins with `listen` and has no parameter, or one that
begins with an event. -/
def BeginsListen (line : CStr) : Prop :=
  startsWith line "listen" ∧ ∀ param ∈ behindBlank line, ∃ event ∈ eventNames,
    startsWith param event

/-- **The lines that are recognised right**: a line that begins with the
word of a request is one of the grammar, with memory for it, or is
neither; a line that begins like a subscription is one. -/
def WholeWords (opt : Options) (mem : CmdMem) (line : CStr) : Prop :=
  (BeginsRequest line → ((∃ id v, Orders opt line id v) ↔ pushFits opt mem line = true)) ∧
    (BeginsListen line → Subscription line)

/-! ## Requests -/

/-- A request of the grammar is recognised, with its value. -/
theorem Orders.recognise (h : Orders opt line id v) :
    ∃ cmd, recognise line = some (id, cmd) ∧ findValue opt id (behindBlank cmd) = some v := by
  obtain ⟨-, name, rfl, hv⟩ := h
  refine ⟨_, recognise_word id (blank :: name), ?_⟩
  rw [behindBlank_joined, behindBlank_blank, hv]

theorem beginsRequest_iff :
    BeginsRequest line ↔
      ∃ id cmd, recognise line = some (id, cmd) ∧
        (id = .powerOn ∨ id = .powerOff ∨ id = .sample) := by
  constructor
  · rintro (h | h | h)
    · obtain ⟨rest, rfl⟩ := startsWith_iff.mp h
      exact ⟨.powerOn, _, recognise_word .powerOn rest, .inl rfl⟩
    · obtain ⟨rest, rfl⟩ := startsWith_iff.mp h
      exact ⟨.powerOff, _, recognise_word .powerOff rest, .inr (.inl rfl)⟩
    · obtain ⟨rest, rfl⟩ := startsWith_iff.mp h
      exact ⟨.sample, _, recognise_word .sample rest, .inr (.inr rfl)⟩
  · rintro ⟨id, cmd, h, hid⟩
    obtain ⟨rest, rfl, -⟩ := eq_of_recognise h
    rcases hid with rfl | rfl | rfl
    · exact .inl (startsWith_iff.mpr ⟨rest, rfl⟩)
    · exact .inr (.inl (startsWith_iff.mpr ⟨rest, rfl⟩))
    · exact .inr (.inr (startsWith_iff.mpr ⟨rest, rfl⟩))

/-! ## Subscriptions -/

/-- The parameters that name an event, or none. -/
def NamesEvent (param : Option CStr) : Prop :=
  ∀ q ∈ param, ∃ event ∈ eventNames, startsWith q event

/-- **The flags change for these parameters and no others.** -/
theorem listenFlags_changes (param : Option CStr) :
    (∃ l, listenFlags param l ≠ l) ↔ NamesEvent param := by
  cases param with
  | none =>
      refine ⟨fun _ q hq => ?_, fun _ => ⟨.none, by decide⟩⟩
      cases hq
  | some q =>
      have hevent : NamesEvent (some q) ↔ startsWith q "all" ∨ startsWith q "none" ∨
          startsWith q "request" ∨ startsWith q "error" ∨ startsWith q "sensor" ∨
          startsWith q "movement" ∨ startsWith q "button" := by
        simp [NamesEvent, eventNames]
      rw [hevent]
      constructor
      · rintro ⟨l, hl⟩
        by_contra hnone
        simp only [not_or] at hnone
        obtain ⟨h₁, h₂, h₃, h₄, h₅, h₆, h₇⟩ := hnone
        refine hl ?_
        rw [listenFlags, if_neg h₁, if_neg h₂, if_neg h₃, if_neg h₄, if_neg h₅, if_neg h₆,
          if_neg h₇]
      · intro h
        -- nothing is set before, or everything where the word takes it away
        by_cases hall : startsWith q "all"
        · exact ⟨.none, by rw [listenFlags, if_pos hall]; decide⟩
        by_cases hnone : startsWith q "none"
        · exact ⟨.all, by rw [listenFlags, if_neg hall, if_pos hnone]; decide⟩
        refine ⟨.none, ?_⟩
        rw [listenFlags, if_neg hall, if_neg hnone]
        split
        · decide
        split
        · decide
        split
        · decide
        split
        · decide
        split
        · decide
        · simp_all

/-- A daemon with one client. -/
def oneClient (fd : ℕ) (l : Listeners) : State :=
  { entry .sample (fun _ => 0) (fun _ => 0) with clientLst := [⟨fd, 0, l, default⟩] }

/-- With one client, the assignments are to its flags. -/
theorem setListeners_oneClient (f : Listeners → Listeners) :
    ((oneClient fd l).setListeners fd f).clientLst.map Client.listeners = [f l] := by
  simp [oneClient, State.setListeners, clientFind]

/-- And the clients are as they were where a line names no event. -/
theorem processCmd_clientLst_of_not (h : ¬ BeginsListen line) :
    (processCmd opt mem p fd line s).2.clientLst = s.clientLst := by
  cases hrec : recognise line with
  | none => rw [processCmd, hrec]
  | some r =>
      obtain ⟨id, cmd⟩ := r
      cases id with
      | log => rw [processCmd, hrec]
      | powerOn => exact (processCmd_queue opt mem p fd s (.inl rfl) hrec).1
      | powerOff => exact (processCmd_queue opt mem p fd s (.inr (.inl rfl)) hrec).1
      | sample => exact (processCmd_queue opt mem p fd s (.inr (.inr rfl)) hrec).1
      | listen =>
          obtain rfl := eq_of_recognise_listen hrec
          have hid : listenFlags (behindBlank cmd) = id := by
            funext l
            by_contra hl
            exact h ⟨recognise_listen_iff.mpr hrec, (listenFlags_changes _).mp ⟨l, hl⟩⟩
          rw [processCmd, hrec]
          simp only [hid, State.setListeners_id]

/-- **A line assigns flags** where it is a `listen` command whose parameter
names an event, or that has none. -/
theorem assignsFlags_iff : AssignsFlags opt mem p fd line ↔ BeginsListen line := by
  constructor
  · rintro ⟨s, c, -, -, hne⟩
    by_contra hbegins
    exact hne (by rw [processCmd_clientLst_of_not hbegins])
  · rintro ⟨hlisten, hevent⟩
    obtain ⟨l, hl⟩ := (listenFlags_changes (behindBlank line)).mpr hevent
    refine ⟨oneClient fd l, ⟨fd, 0, l, default⟩, List.mem_singleton_self _,
      by simp [clientFind, oneClient], ?_⟩
    rw [processCmd, recognise_listen_iff.mp hlisten, setListeners_oneClient]
    simpa [oneClient] using hl

theorem Subscription.beginsListen (h : Subscription line) : BeginsListen line := by
  rcases h with rfl | ⟨event, hevent, rfl⟩
  · refine ⟨by decide, fun q hq => ?_⟩
    cases hq
  · refine ⟨startsWith_iff.mpr ⟨_, rfl⟩, fun q hq => ⟨event, hevent, ?_⟩⟩
    rw [behindBlank_append (by decide), behindBlank_blank] at hq
    cases hq
    exact startsWith_iff.mpr ⟨[], by simp⟩

/-! ## The grammar and the code -/

/-- A line is not both. -/
theorem BeginsRequest.not_subscription (h : BeginsRequest line) : ¬ Subscription line := by
  intro hsub
  obtain ⟨id, cmd, hrec, hid⟩ := beginsRequest_iff.mp h
  obtain ⟨rest, hrest⟩ := startsWith_iff.mp hsub.beginsListen.1
  rw [hrest, show ascii "listen" = ascii CmdId.listen.word from rfl, recognise_word] at hrec
  cases hrec
  rcases hid with h | h | h <;> cases h

theorem Orders.beginsRequest (h : Orders opt line id v) : BeginsRequest line := by
  obtain ⟨cmd, hrec, -⟩ := h.recognise
  exact beginsRequest_iff.mpr ⟨id, cmd, hrec, h.1⟩

/-- A line that begins like no request leaves the queue alone. -/
theorem processCmd_cmdQ_of_not (h : ¬ BeginsRequest line) :
    (processCmd opt mem p fd line s).2.cmdQ = s.cmdQ := by
  rw [processCmd]
  cases hrec : recognise line with
  | none => rfl
  | some r =>
      obtain ⟨id, cmd⟩ := r
      cases id with
      | listen => rfl
      | log => rfl
      | powerOn => exact absurd (beginsRequest_iff.mpr ⟨_, _, hrec, .inl rfl⟩) h
      | powerOff => exact absurd (beginsRequest_iff.mpr ⟨_, _, hrec, .inr (.inl rfl)⟩) h
      | sample => exact absurd (beginsRequest_iff.mpr ⟨_, _, hrec, .inr (.inr rfl)⟩) h

theorem PushesValue.ne (h : PushesValue s t id v) : t.cmdQ ≠ s.cmdQ := by
  obtain ⟨c, hq, -⟩ := h
  intro heq
  have hlen := congrArg List.length (hq.symm.trans heq)
  rw [List.length_append, List.length_singleton] at hlen
  omega

/-- What a request pushes with a value. -/
theorem pushesValue_iff (hid : id = .powerOn ∨ id = .powerOff ∨ id = .sample)
    (h : recognise line = some (id, cmd)) {id' : CmdId} :
    PushesValue s (processCmd opt mem p fd line s).2 id' v ↔
      pushFits opt mem line = true ∧ id' = id ∧ findValue opt id (behindBlank cmd) = some v := by
  obtain ⟨-, c, hc, hparam, hq⟩ := processCmd_queue opt mem p fd s hid h
  constructor
  · intro hpush
    by_cases hfits : pushFits opt mem line = true
    · obtain ⟨d, hd, rfl, hv⟩ := hpush
      rw [if_pos hfits, hd, List.append_cancel_left_eq, List.singleton_inj] at hq
      subst hq
      exact ⟨hfits, hc, hparam.symm.trans hv⟩
    · rw [if_neg hfits] at hq
      exact absurd hq hpush.ne
  · rintro ⟨hfits, rfl, hv⟩
    rw [if_pos hfits] at hq
    exact ⟨c, hq, hc, hparam.trans hv⟩

end Daemon

end Realraum
