import Mathlib.Data.List.ModifyLast
import Realraum.Common.Debounce
import Realraum.Firmware.Acknowledge
/-!
# The reports of the panic button

The three globals of the panic button are the machine that reports a level
that holds: `pb_time` counts up to `PB_TRESHOLD` how often the last reading
came again, and `pb_postth_state` says that it was reported. So a line is
printed in just those calls of `loop()` in which one is due, whatever the
readings did before, and nothing else that happens plays a part.
-/

namespace Realraum

namespace Firmware

variable {s t : State} {m : Sensors} {i : Inputs} {a : Act}

/-! ## The calls of `loop()` -/

/-- A call of `loop()`: what it found at its pins, and the lines printed up
to the next call. -/
structure Call where
  inputs : Inputs
  lines : List Output

/-- The reading of the panic button in a call, and whether a `PanicButton`
line was printed. -/
def Call.sample (c : Call) : Bool × Bool :=
  (c.inputs.panicButtonPin, decide (Output.panicButton ∈ c.lines))

/-- Lines are printed in the last call. -/
def addLines (lines : List Output) (calls : List Call) : List Call :=
  calls.modifyLast fun c => { c with lines := c.lines ++ lines }

/-- The calls behind a step from `s` to `t`. -/
def logStep (a : Act) (s t : State) (calls : List Call) : List Call :=
  let lines := t.printed.drop s.printed.length
  match a with
  | .goesOn i => if s.point = .boundary then calls ++ [⟨i, lines⟩] else addLines lines calls
  | _ => addLines lines calls

/-- **The firmware and its calls of `loop()` so far.** -/
def loggedStep (a : Act) (u : State × List Call) : Option (State × List Call) :=
  (step a u.1).map fun t => (t, logStep a u.1 t u.2)

/-! ## The globals -/

/-- What the globals of the panic button remember. -/
def Sensors.debounce (m : Sensors) : Debounce.Machine :=
  ⟨m.pbLastState, m.pbTime.toNat, m.pbPostthState⟩

/-- `pb_time` after it was counted up. -/
theorem pbTime_toNat (time : UInt16) (hle : time.toNat ≤ 1000) :
    (if time < pbTreshold then time + 1 else time).toNat =
      if time.toNat < 1000 then time.toNat + 1 else time.toNat := by
  have hlt : time < pbTreshold ↔ time.toNat < 1000 := UInt16.lt_iff_toNat_lt
  by_cases h : time.toNat < 1000
  · rw [if_pos (hlt.mpr h), if_pos h, UInt16.toNat_add]
    show (time.toNat + 1) % 2 ^ 16 = _
    omega
  · rw [if_neg (mt hlt.mp h), if_neg h]

/-- **The panic button in one call**: the machine goes on, and a line is
printed where it reports. -/
theorem Sensors.button_eq (i : Inputs) (hle : m.pbTime.toNat ≤ 1000) :
    (m.button i).1.debounce = (m.debounce.next 1000 i.panicButtonPin).1 ∧
      (m.button i).2 =
        if (m.debounce.next 1000 i.panicButtonPin).2 then [.panicButton] else [] := by
  have htime := pbTime_toNat m.pbTime hle
  have hmachine : m.debounce = ⟨m.pbLastState, m.pbTime.toNat, m.pbPostthState⟩ := rfl
  rw [hmachine, Debounce.Machine.next_mk]
  unfold Sensors.button
  simp only
  set time := if m.pbTime < pbTreshold then m.pbTime + 1 else m.pbTime with htimeDef
  rw [← htime]
  have hreached : pbTreshold ≤ time ↔ 1000 ≤ time.toNat := UInt16.le_iff_toNat_le
  simp only [hreached]
  split
  · split
    · exact ⟨rfl, rfl⟩
    · split <;> exact ⟨rfl, rfl⟩
  · split <;> exact ⟨rfl, rfl⟩

/-- The movement sensors leave the panic button alone. -/
theorem Sensors.movement_debounce (m : Sensors) (i : Inputs) :
    (m.movement i).1.debounce = m.debounce ∧ Output.panicButton ∉ (m.movement i).2 := by
  unfold Sensors.movement
  simp only
  split
  · split
    · exact ⟨rfl, by simp⟩
    · exact ⟨rfl, by simp⟩
  · exact ⟨rfl, by simp⟩

/-- **The panic button in the first access of a call.** -/
theorem access_boundary (hp : s.point = .boundary) (i : Inputs)
    (hle : s.sensors.pbTime.toNat ≤ 1000) :
    (access i s).sensors.debounce = (s.sensors.debounce.next 1000 i.panicButtonPin).1 ∧
      ∃ lines, (access i s).printed = s.printed ++ lines ∧
        (.panicButton ∈ lines ↔
          (s.sensors.debounce.next 1000 i.panicButtonPin).2 = true) := by
  obtain ⟨hmachine, hquiet⟩ := s.sensors.movement_debounce i
  have hle' : (s.sensors.movement i).1.pbTime.toNat ≤ 1000 :=
    (congrArg Debounce.Machine.held hmachine).trans_le hle
  obtain ⟨hbutton, hlines⟩ := Sensors.button_eq i hle'
  rw [hmachine] at hbutton hlines
  unfold access
  rw [hp]
  refine ⟨hbutton, (s.sensors.movement i).2 ++ ((s.sensors.movement i).1.button i).2,
    List.append_assoc .., ?_⟩
  rw [List.mem_append, hlines]
  cases (s.sensors.debounce.next 1000 i.panicButtonPin).2 with
  | true => simp
  | false => simpa using hquiet

/-- **Elsewhere nothing of it changes.** -/
theorem access_elsewhere (hp : s.point ≠ .boundary) (i : Inputs) :
    (access i s).sensors = s.sensors ∧
      ∃ lines, (access i s).printed = s.printed ++ lines ∧ .panicButton ∉ lines := by
  obtain ⟨hsensors, lines, hprinted, hreplies⟩ := access_replies hp i
  exact ⟨hsensors, lines, hprinted, fun hmem => Bool.false_ne_true (hreplies _ hmem)⟩

/-! ## Over runs -/

variable {calls before after : List Call} {call : Call}

/-- Lines of another kind leave the samples as they are. -/
theorem map_sample_addLines {lines : List Output} (h : .panicButton ∉ lines) :
    (addLines lines calls).map Call.sample = calls.map Call.sample := by
  rcases List.eq_nil_or_concat calls with rfl | ⟨front, c, rfl⟩
  · rfl
  · rw [addLines, List.concat_eq_append, List.modifyLast_concat, List.map_append, List.map_append]
    simp [Call.sample, h]

/-- **The invariant**: the globals remember the samples, and each was
reported as it ought to be. -/
structure Logged (u : State × List Call) : Prop where
  tracks : Debounce.Tracks pbTreshold.toNat (u.2.map Call.sample) u.1.sensors.debounce
  faithful : Debounce.Faithful pbTreshold.toNat (u.2.map Call.sample)

theorem Logged.init : Logged (.init, []) := ⟨.init, .nil⟩

/-- What changes neither the sensors nor the samples keeps it. -/
theorem Logged.same {calls' : List Call} (h : Logged (s, calls)) (hsensors : t.sensors = s.sensors)
    (hsamples : calls'.map Call.sample = calls.map Call.sample) : Logged (t, calls') := by
  refine ⟨?_, ?_⟩
  · show Debounce.Tracks _ (calls'.map Call.sample) t.sensors.debounce
    rw [hsamples, hsensors]
    exact h.tracks
  · show Debounce.Faithful _ (calls'.map Call.sample)
    rw [hsamples]
    exact h.faithful

/-- **Every step keeps it.** -/
theorem Logged.step (h : Logged (s, calls)) (hstep : step a s = some t) :
    Logged (t, logStep a s t calls) := by
  have hnothing : .panicButton ∉ s.printed.drop s.printed.length := by simp
  cases a with
  | receives b =>
      cases hstep
      exact h.same rfl (map_sample_addLines hnothing)
  | interrupts =>
      rw [Firmware.step] at hstep
      split at hstep
      · cases hstep
        exact h.same rfl (map_sample_addLines hnothing)
      · cases hstep
  | goesOn i =>
      cases hstep
      show Logged (access i s, if s.point = .boundary then
        calls ++ [⟨i, (access i s).printed.drop s.printed.length⟩] else addLines _ calls)
      by_cases hp : s.point = .boundary
      · obtain ⟨hmachine, lines, hprinted, hreport⟩ := access_boundary hp i h.tracks.held_le
        obtain ⟨hdue, htracks⟩ := h.tracks.next (by decide) i.panicButtonPin
        have hsample : (Call.mk i lines).sample =
            (i.panicButtonPin, (s.sensors.debounce.next 1000 i.panicButtonPin).2) :=
          Prod.ext rfl (Bool.eq_iff_iff.mpr (decide_eq_true_iff.trans hreport))
        rw [if_pos hp, hprinted, List.drop_left]
        refine ⟨?_, ?_⟩
        · show Debounce.Tracks _ ((calls ++ [Call.mk i lines]).map Call.sample)
            (access i s).sensors.debounce
          rw [List.map_append, List.map_singleton, hsample, hmachine]
          exact htracks
        · show Debounce.Faithful _ ((calls ++ [Call.mk i lines]).map Call.sample)
          rw [List.map_append, List.map_singleton, hsample]
          exact h.faithful.concat hdue
      · obtain ⟨hsensors, lines, hprinted, hlines⟩ := access_elsewhere hp i
        rw [if_neg hp, hprinted, List.drop_left]
        exact h.same hsensors (map_sample_addLines hlines)

/-- **The panic button is reported when a report is due.** In every run of
the firmware: in a call of `loop()` a `PanicButton` line is printed if and
only if the button read high in it and in the `PB_TRESHOLD` calls before,
and nothing was reported yet, or in `PB_TRESHOLD + 1` calls in a row since
the last report it read low. -/
theorem panicButton_printed_iff
    (h : Reach.Run loggedStep (fun _ _ => True) (.init, []) (s, calls))
    (hcall : calls = before ++ call :: after) :
    .panicButton ∈ call.lines ↔
      Debounce.Due pbTreshold.toNat (before.map Call.sample) call.inputs.panicButtonPin := by
  have hlogged : Logged (s, calls) := by
    refine h.invariant (I := Logged) .init fun u a v _ hu _ hv => ?_
    obtain ⟨t, ht, rfl⟩ := Option.map_eq_some_iff.mp hv
    exact hu.step ht
  have hsamples : calls.map Call.sample =
      before.map Call.sample ++ call.sample :: after.map Call.sample := by
    rw [hcall, List.map_append, List.map_cons]
  have hdue := hlogged.faithful _ _ _ hsamples
  exact decide_eq_true_iff.symm.trans hdue

theorem map_inputs_addLines (lines : List Output) :
    (addLines lines calls).map Call.inputs = calls.map Call.inputs := by
  rcases List.eq_nil_or_concat calls with rfl | ⟨front, c, rfl⟩
  · rfl
  · rw [addLines, List.concat_eq_append, List.modifyLast_concat, List.map_append, List.map_append]
    rfl

/-- **Any inputs may come**, call after call. -/
theorem exists_run (inputs : List Inputs) :
    ∃ s calls, Reach.Run loggedStep (fun _ _ => True) (.init, []) (s, calls) ∧
      calls.map Call.inputs = inputs ∧
      s.point = .boundary ∧ s.rx = [] ∧ s.radio.numTransmissionsToAcknowledge = 0 := by
  induction inputs using List.reverseRecOn with
  | nil => exact ⟨.init, [], .refl, rfl, rfl, rfl, rfl⟩
  | append_singleton inputs i ih =>
      obtain ⟨s, calls, hrun, hinputs, hpoint, hrx, hack⟩ := ih
      -- the pins are read, nothing is to be acknowledged, and no command has come
      obtain ⟨s₁, calls₁, hrun₁, hinputs₁, hpoint₁, hrx₁, hack₁⟩ : ∃ s₁ calls₁,
          Reach.Run loggedStep (fun _ _ => True) (.init, []) (s₁, calls₁) ∧
            calls₁.map Call.inputs = inputs ++ [i] ∧ s₁.point = .frameTest ∧ s₁.rx = [] ∧
            s₁.radio.numTransmissionsToAcknowledge = 0 := by
        refine ⟨_, _, hrun.tail ⟨.goesOn i, trivial, rfl⟩, ?_, ?_⟩
        · rw [logStep, if_pos hpoint, List.map_append, hinputs]
          rfl
        · rw [access, hpoint]
          exact ⟨rfl, hrx, hack⟩
      obtain ⟨s₂, calls₂, hrun₂, hinputs₂, hpoint₂, hrx₂, hack₂⟩ : ∃ s₂ calls₂,
          Reach.Run loggedStep (fun _ _ => True) (.init, []) (s₂, calls₂) ∧
            calls₂.map Call.inputs = inputs ++ [i] ∧ s₂.point = .serialTest ∧ s₂.rx = [] ∧
            s₂.radio.numTransmissionsToAcknowledge = 0 := by
        refine ⟨_, _, hrun₁.tail ⟨.goesOn i, trivial, rfl⟩, ?_, ?_⟩
        · rw [logStep, if_neg (by rw [hpoint₁]; exact nofun), map_inputs_addLines, hinputs₁]
        · rw [access, hpoint₁]
          exact ⟨if_neg (by rw [hack₁]; exact Int.lt_irrefl 0), hrx₁, hack₁⟩
      refine ⟨_, _, hrun₂.tail ⟨.goesOn i, trivial, rfl⟩, ?_, ?_⟩
      · rw [logStep, if_neg (by rw [hpoint₂]; exact nofun), map_inputs_addLines, hinputs₂]
      · rw [access, hpoint₂, hrx₂]
        exact ⟨rfl, rfl, hack₂⟩

/-- **The button is held for 1001 calls**: it is reported in the last of
them. -/
theorem panicButton_printed_iff_held :
    ∃ s before call, Reach.Run loggedStep (fun _ _ => True) (.init, []) (s, before ++ [call]) ∧
      before.length = 1000 ∧ .panicButton ∈ call.lines := by
  obtain ⟨s, calls, hrun, hinputs, -⟩ := exists_run (List.replicate 1001 ⟨false, false, true, []⟩)
  have hlength : calls.length = 1001 := by
    rw [← List.length_map (f := Call.inputs), hinputs, List.length_replicate]
  rcases List.eq_nil_or_concat calls with rfl | ⟨before, call, rfl⟩
  · cases hlength
  rw [List.concat_eq_append] at hrun hinputs hlength
  have hbefore : before.length = 1000 := by
    rw [List.length_append, List.length_singleton] at hlength
    omega
  rw [List.replicate_succ', List.map_append] at hinputs
  obtain ⟨hpast, hcall⟩ := List.append_inj' hinputs rfl
  have hlevels : (before.map Call.sample).map Prod.fst = List.replicate 1000 true := by
    have hpin : (before.map Call.inputs).map Inputs.panicButtonPin = List.replicate 1000 true := by
      rw [hpast, List.map_replicate]
    rwa [List.map_map] at hpin ⊢
  refine ⟨s, before, call, hrun, hbefore, (panicButton_printed_iff hrun rfl).mpr ⟨?_, .inl ?_⟩⟩
  · have hpin : call.inputs.panicButtonPin = true :=
      congrArg Inputs.panicButtonPin (List.singleton_inj.mp hcall)
    rw [hlevels, hpin, ← List.replicate_succ']
    exact List.suffix_refl _
  · -- before the last call the stretch is too short
    intro x hx
    obtain ⟨c, hc, rfl⟩ := List.mem_map.mp hx
    obtain ⟨front, rest, rfl⟩ := List.append_of_mem hc
    have hsplit : (front ++ c :: rest) ++ [call] = front ++ c :: (rest ++ [call]) := by simp
    refine decide_eq_false fun hline => ?_
    have hdue := (panicButton_printed_iff hrun hsplit).mp hline
    have hlen := hdue.1.length_le
    simp only [List.length_replicate, List.length_append, List.length_map, List.length_cons,
      List.length_nil] at hlen hbefore
    have hthousand : pbTreshold.toNat = 1000 := rfl
    omega

end Firmware

end Realraum
