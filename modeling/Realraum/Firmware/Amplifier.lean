import Realraum.Firmware.Acknowledge
/-!
# The firmware — commands for the amplifier

A command for the amplifier is sent as the infrared code of its byte, once
and in its turn, and nothing else is sent: also not where the bytes of a raw
code happen to be such commands. The amplifier can tell them apart.
-/

namespace Realraum

namespace Firmware

variable {s t : State} {command command' : Char} {value : UInt32}

/-- A byte read is a command, or one of the three a `>` takes with it: the
commands so far, and how many bytes the last still misses. -/
def commandByte : List Char × ℕ → UInt8 → List Char × ℕ
  | (commands, 0), b => (commands ++ [charOf b], if charOf b = '>' then 3 else 0)
  | (commands, missing + 1), _ => (commands, missing)

/-- **The commands among the bytes read.** -/
def commandsOf (read : List UInt8) : List Char := (read.foldl commandByte ([], 0)).1

/-- The infrared code of a command. -/
def irCode (command : Char) : Option UInt32 := (yamahaCode command).map yamahaIrCode

/-- The code of a command that `loop()` holds in its hands. -/
def Point.irPending : Point → List UInt32
  | .dispatch command => (irCode command).toList
  | _ => []

/-! ## Telling the codes apart -/

/-- The commands with a code. -/
def yamahaCommands : List Char :=
  ['1', '2', '3', '4', '5', '6', '8', '9', '0', '/', '\\', '-', '+', ':', '.', ';', ',', '_',
    '#', '"', '!', '=', '$', '%', '(', ')']

theorem mem_yamahaCommands {code : UInt8} (h : yamahaCode command = some code) :
    command ∈ yamahaCommands := by
  unfold yamahaCode at h
  split at h
  all_goals first
    | decide
    | cases h

/-- Their codes differ. -/
theorem irCode_inj_of_mem : ∀ command ∈ yamahaCommands, ∀ command' ∈ yamahaCommands,
    irCode command = irCode command' → command = command' := by
  have hnodup : (yamahaCommands.map irCode).Nodup := by decide
  exact fun _ hmem _ hmem' heq => List.inj_on_of_nodup_map hnodup hmem hmem' heq

theorem mem_of_irCode (h : irCode command = some value) : command ∈ yamahaCommands := by
  obtain ⟨code, hcode, -⟩ := Option.map_eq_some_iff.mp h
  exact mem_yamahaCommands hcode

/-- None of them is another kind of command. -/
theorem plain_of_mem : ∀ command ∈ yamahaCommands, command ≠ '>' ∧ rfCode command = none ∧
    ¬ (command = '*' ∨ command = '?') ∧ ¬ (command = '^' ∨ command = '&') := by
  have hall : yamahaCommands.all (fun command => decide (command ≠ '>' ∧ rfCode command = none ∧
      ¬ (command = '*' ∨ command = '?') ∧ ¬ (command = '^' ∨ command = '&'))) = true := by
    decide
  exact fun command hmem => of_decide_eq_true (List.all_eq_true.mp hall command hmem)

/-! ## The account -/

theorem dispatch_read (i : Inputs) (command : Char) (s : State) :
    (dispatch i command s).read = s.read := by
  unfold dispatch
  dsimp only
  repeat' split
  all_goals rfl

/-- **A command is sent** where it has a code, and nothing is where it has none. -/
theorem dispatch_irSent (i : Inputs) (command : Char) (s : State) :
    (dispatch i command s).irSent = s.irSent ++ (irCode command).toList ∧
      (dispatch i command s).point.irPending = [] := by
  cases hcode : yamahaCode command with
  | some code =>
      obtain ⟨hraw, hrf, hsensor, hecho⟩ := plain_of_mem _ (mem_yamahaCommands hcode)
      rw [dispatch, if_neg hraw, hrf]
      dsimp only
      rw [if_neg hsensor, if_neg hecho, hcode, irCode, hcode]
      exact ⟨rfl, rfl⟩
  | none =>
      rw [irCode, hcode, Option.map_none, Option.toList_none, List.append_nil, dispatch, hcode]
      dsimp only
      repeat' split
      all_goals exact ⟨rfl, rfl⟩

/-- Both counts miss the same bytes. -/
theorem foldl_commandByte_missing (read : List UInt8) : ∀ commands count missing,
    (read.foldl commandByte (commands, missing)).2 = (read.foldl countByte (count, missing)).2 := by
  induction read with
  | nil => exact fun _ _ _ => rfl
  | cons b read ih =>
      intro commands count missing
      cases missing with
      | zero => exact ih _ _ _
      | succ missing => exact ih _ _ _

theorem foldl_commandByte (s : State) :
    s.read.foldl commandByte ([], 0) = (commandsOf s.read, s.missing) :=
  Prod.ext rfl (foldl_commandByte_missing s.read [] 0 0)

/-- A byte where a command is expected is one. -/
theorem commandsOf_command (h : s.missing = 0) (b : UInt8) :
    commandsOf (s.read ++ [b]) = commandsOf s.read ++ [charOf b] := by
  rw [commandsOf, List.foldl_append, foldl_commandByte, h]
  rfl

/-- A byte the last command misses is none. -/
theorem commandsOf_argument {n : ℕ} (h : s.missing = n + 1) (b : UInt8) :
    commandsOf (s.read ++ [b]) = commandsOf s.read := by
  rw [commandsOf, List.foldl_append, foldl_commandByte, h]
  rfl

/-- **The account of the infrared codes**, with the one that is still to be sent. -/
def Accounted (s : State) : Prop :=
  s.irSent ++ s.point.irPending = (commandsOf s.read).filterMap irCode

/-- Where nothing is read or sent. -/
theorem Accounted.moved (h : Accounted s) (hp : s.point.irPending = [])
    (ht : t.point.irPending = []) (hsent : t.irSent = s.irSent) (hread : t.read = s.read) :
    Accounted t := by
  rw [Accounted, hp] at h
  rwa [Accounted, ht, hsent, hread]

theorem irPending_afterByte {next : Fin 3 → Point} (hnext : ∀ chr, (next chr).irPending = [])
    (chr : Fin 3) : (afterByte next chr).irPending = [] := by
  unfold afterByte
  split
  · rfl
  · exact hnext _

/-- **The loop keeps the account**, at every access. -/
theorem Accounted.access (h : Accounted s) (hinv : Inv s) (i : Inputs) :
    Accounted (access i s) := by
  have hmissing := hinv.missing
  unfold Firmware.access
  split
  all_goals
    rename_i hp
    rw [hp] at hmissing
  · exact h.moved (by rw [hp]; rfl) rfl rfl rfl
  · refine h.moved (by rw [hp]; rfl) ?_ rfl rfl
    dsimp only
    split <;> rfl
  · exact h.moved (by rw [hp]; rfl) rfl rfl rfl
  · exact h.moved (by rw [hp]; rfl) rfl rfl rfl
  · exact h.moved (by rw [hp]; rfl) rfl rfl rfl
  · split
    · exact h.moved (by rw [hp]; rfl) rfl rfl rfl
    · rename_i b rx _
      rw [Accounted, hp] at h
      have hone : [charOf b].filterMap irCode = (irCode (charOf b)).toList := by
        cases hcode : irCode (charOf b) <;> simp [hcode]
      have hnone : Point.serialTest.irPending = [] := rfl
      rw [hnone, List.append_nil] at h
      rw [Accounted, commandsOf_command hmissing, List.filterMap_append, hone, ← h]
      rfl
  · rename_i command
    obtain ⟨hsent, hpending⟩ := dispatch_irSent i command s
    rw [Accounted, hp] at h
    rw [Accounted, hpending, hsent, dispatch_read, List.append_nil]
    exact h
  · split
    · exact h
    · exact h.moved (by rw [hp]; rfl) rfl rfl rfl
  · rename_i chr
    split
    · exact h
    · rename_i b rx _
      have hthree : 3 - (chr : ℕ) = 2 - chr + 1 := by omega
      rw [Accounted, hp] at h
      rw [Accounted, commandsOf_argument (hmissing.trans hthree),
        irPending_afterByte fun _ => rfl]
      exact h
  · split
    · exact h
    · exact h.moved (by rw [hp]; rfl) rfl rfl rfl
  · exact h.moved (by rw [hp]; rfl) (irPending_afterByte (fun _ => rfl) _) rfl rfl
  · exact h.moved (by rw [hp]; rfl) rfl rfl rfl
  · exact h.moved (by rw [hp]; rfl) rfl rfl rfl

theorem Accounted.step (h : Accounted s) (hinv : Inv s) {a : Act} (hstep : step a s = some t) :
    Accounted t := by
  cases a with
  | receives b =>
      cases hstep
      exact h
  | interrupts =>
      simp only [Firmware.step] at hstep
      split at hstep
      · cases hstep
        exact h
      · cases hstep
  | goesOn i =>
      cases hstep
      exact h.access hinv i

/-- **Each command for the amplifier is sent once, and nothing else is**: in
every state the firmware reaches, whatever bytes come and wherever the timer
interrupts, the infrared codes sent, and the one that is about to be, are
those of the commands read, in order; and no two commands have one code. -/
theorem irSent_eq (hs : Reached s) :
    s.irSent ++ s.point.irPending = (commandsOf s.read).filterMap irCode ∧
      ∀ command command' value, irCode command = some value → irCode command' = some value →
        command = command' := by
  constructor
  · exact hs.invariant (I := Accounted) rfl fun _ _ _ hu haccounted _ hstep =>
      haccounted.step (Reached.inv hu) hstep
  · intro command command' value h h'
    exact irCode_inj_of_mem _ (mem_of_irCode h) _ (mem_of_irCode h') (h.trans h'.symm)

/-- **A raw code with the byte of a command in it**: only the command behind it
is sent. -/
theorem irSent_eq_raw : ∃ s, Reached s ∧ s.read = [0x3e, 0x31, 0x31, 0x31, 0x32] ∧
    s.irSent = [yamahaIrCode 0x68] ∧
      s.irSent ++ s.point.irPending = (commandsOf s.read).filterMap irCode := by
  have hrun : (Reach.replay step (fun _ _ => true)
      ([.receives 0x3e, .receives 0x31, .receives 0x31, .receives 0x31, .receives 0x32] ++
        List.replicate 14 (.goesOn ⟨false, false, false, []⟩)) .init).any
      (fun s => s.read = [0x3e, 0x31, 0x31, 0x31, 0x32] ∧ s.irSent = [yamahaIrCode 0x68]) =
        true := by
    decide +kernel
  obtain ⟨s, hs, hp⟩ :=
    Reach.exists_of_replay (A := fun _ _ => True) (fun _ _ _ => trivial) _ _ _ hrun
  obtain ⟨hread, hsent⟩ := of_decide_eq_true hp
  exact ⟨s, hs, hread, hsent, (irSent_eq hs).1⟩

end Firmware

end Realraum
