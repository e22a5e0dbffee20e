import Realraum.Common.Window
import Realraum.Firmware.PanicButton
/-!
# The reports of the movement sensors

`loop()` reads two movement sensors in every call and counts how often each
was high. With every 6000th call the counts start over, and movement is
reported if one of them was high nearly all the time. So a `movement` line
is printed in just those calls that complete a window with enough of it,
whatever else the firmware does.
-/

namespace Realraum

namespace Firmware

variable {s t : State} {m : Sensors} {i : Inputs} {a : Act} {samples window : List Inputs}
variable {calls before after : List Call} {call : Call}

/-! ## One call -/

/-- One of the sensors was high often enough. -/
def Moved (window : List Inputs) : Prop :=
  irTreshold.toNat ≤ window.countP Inputs.movementPin ∨
    irTreshold.toNat ≤ window.countP Inputs.movementPin2

/-- **A report is due** with the sample that completes a window with enough
movement. -/
def MovementDue (samples : List Inputs) (i : Inputs) : Prop :=
  irSampleDuration.toNat ∣ samples.length + 1 ∧
    Moved (Window.last irSampleDuration.toNat (samples ++ [i]))

/-- **What the globals remember**: the calls that the window still misses, and
how often each sensor was high in it. -/
structure Watches (m : Sensors) (window : List Inputs) : Prop where
  irTime : m.irTime.toNat + window.length = irSampleDuration.toNat
  irCount : m.irCount.toNat = window.countP Inputs.movementPin
  irCount2 : m.irCount2.toNat = window.countP Inputs.movementPin2

/-- A count goes up with its pin. -/
theorem toNat_count {count : UInt16} {n : ℕ} (hcount : count.toNat = n) (hlt : n < 6000)
    (pin : Bool) : (count + if pin then 1 else 0).toNat = n + pin.toNat := by
  cases pin with
  | true =>
      show (count + 1).toNat = n + 1
      rw [UInt16.toNat_add, hcount, UInt16.toNat_one]
      omega
  | false =>
      show (count + 0).toNat = n + 0
      rw [UInt16.add_zero, hcount, Nat.add_zero]

theorem countP_concat (pin : Inputs → Bool) (window : List Inputs) (i : Inputs) :
    (window ++ [i]).countP pin = window.countP pin + (pin i).toNat := by
  rw [List.countP_append, List.countP_singleton]
  cases pin i with
  | true => rfl
  | false => rfl

/-- **The movement sensors in one call**: the window is longer by a sample, or
it is complete and judged. -/
theorem Watches.movement (h : Watches m window) (hlt : window.length < irSampleDuration.toNat)
    (i : Inputs) :
    Watches (m.movement i).1
        (if window.length + 1 = irSampleDuration.toNat then [] else window ++ [i]) ∧
      (.movement ∈ (m.movement i).2 ↔
        window.length + 1 = irSampleDuration.toNat ∧ Moved (window ++ [i])) := by
  have hduration : irSampleDuration.toNat = 6000 := rfl
  have htime := h.irTime
  have hle : window.countP Inputs.movementPin ≤ window.length := List.countP_le_length
  have hle' : window.countP Inputs.movementPin2 ≤ window.length := List.countP_le_length
  have hcount := toNat_count h.irCount (by omega) i.movementPin
  have hcount' := toNat_count h.irCount2 (by omega) i.movementPin2
  have htime' : (m.irTime - 1).toNat = m.irTime.toNat - 1 := by
    rw [UInt16.toNat_sub_of_le _ _ (UInt16.le_iff_toNat_le.mpr (by rw [UInt16.toNat_one]; omega))]
    rfl
  have hzero : m.irTime - 1 = 0 ↔ window.length + 1 = irSampleDuration.toNat := by
    rw [← UInt16.toNat_inj, htime', UInt16.toNat_zero]
    omega
  rw [← countP_concat] at hcount hcount'
  unfold Sensors.movement
  dsimp only
  by_cases hlast : window.length + 1 = irSampleDuration.toNat
  · rw [if_pos (hzero.mpr hlast), if_pos hlast]
    refine ⟨⟨rfl, rfl, rfl⟩, ?_⟩
    have hmoved : (irTreshold ≤ m.irCount + (if i.movementPin then 1 else 0) ∨
        irTreshold ≤ m.irCount2 + if i.movementPin2 then 1 else 0) ↔ Moved (window ++ [i]) := by
      unfold Moved
      rw [UInt16.le_iff_toNat_le, UInt16.le_iff_toNat_le, hcount, hcount']
    by_cases hhigh : Moved (window ++ [i])
    · rw [if_pos (hmoved.mpr hhigh)]
      exact iff_of_true List.mem_cons_self ⟨hlast, hhigh⟩
    · rw [if_neg (mt hmoved.mp hhigh)]
      exact iff_of_false (by simp) fun hdue => hhigh hdue.2
  · rw [if_neg (mt hzero.mp hlast), if_neg hlast]
    refine ⟨⟨?_, hcount, hcount'⟩, iff_of_false (by simp) fun hdue => hlast hdue.1⟩
    show (m.irTime - 1).toNat + _ = _
    rw [htime', List.length_append, List.length_singleton]
    omega

/-- The panic button leaves the movement sensors alone. -/
theorem Watches.button (h : Watches m window) (i : Inputs) :
    Watches (m.button i).1 window ∧ .movement ∉ (m.button i).2 := by
  unfold Sensors.button
  dsimp only
  repeat' split
  all_goals exact ⟨⟨h.irTime, h.irCount, h.irCount2⟩, by simp⟩

/-- **The first access of a call.** -/
theorem access_movement (hp : s.point = .boundary)
    (h : Watches s.sensors (Window.pending irSampleDuration.toNat samples)) (i : Inputs) :
    Watches (access i s).sensors (Window.pending irSampleDuration.toNat (samples ++ [i])) ∧
      ∃ lines, (access i s).printed = s.printed ++ lines ∧
        (.movement ∈ lines ↔ MovementDue samples i) := by
  have hpos : 0 < irSampleDuration.toNat := by decide
  obtain ⟨hwatches, hmoved⟩ := h.movement (Window.length_pending_lt hpos) i
  obtain ⟨hbutton, hquiet⟩ := hwatches.button i
  have hlast : (Window.pending irSampleDuration.toNat samples).length + 1 =
      irSampleDuration.toNat ↔ irSampleDuration.toNat ∣ samples.length + 1 := by
    rw [Window.length_pending]
    rcases Window.mod_cases hpos samples.length with ⟨hdvd, hmod⟩ | ⟨hdvd, hmod⟩
    · exact iff_of_true hmod hdvd
    · refine iff_of_false (fun heq => ?_) hdvd
      have hlt := Nat.mod_lt (samples.length + 1) hpos
      omega
  have hpending : (if (Window.pending irSampleDuration.toNat samples).length + 1 =
      irSampleDuration.toNat then [] else Window.pending irSampleDuration.toNat samples ++ [i]) =
      Window.pending irSampleDuration.toNat (samples ++ [i]) := by
    rw [Window.pending_concat hpos]
    exact if_congr hlast rfl rfl
  unfold access
  rw [hp]
  refine ⟨hpending ▸ hbutton, (s.sensors.movement i).2 ++ ((s.sensors.movement i).1.button i).2,
    List.append_assoc .., ?_⟩
  rw [List.mem_append, or_iff_left hquiet, hmoved, hlast]
  exact and_congr_right fun hdvd => by rw [Window.last_concat hpos hdvd]

/-! ## Over runs -/

/-- What the pins of a call were, and whether a `movement` line was printed. -/
def Call.watched (c : Call) : Inputs × Bool := (c.inputs, decide (Output.movement ∈ c.lines))

theorem map_watched_addLines {lines : List Output} (h : .movement ∉ lines) :
    (addLines lines calls).map Call.watched = calls.map Call.watched := by
  rcases List.eq_nil_or_concat calls with rfl | ⟨front, c, rfl⟩
  · rfl
  · unfold addLines
    rw [List.concat_eq_append, List.modifyLast_concat, List.map_append, List.map_append]
    simp [Call.watched, h]

/-- **The invariant**: the globals remember the window that is not complete
yet, and each call reported what was due. -/
structure Observed (u : State × List Call) : Prop where
  watches : Watches u.1.sensors
    (Window.pending irSampleDuration.toNat ((u.2.map Call.watched).map Prod.fst))
  faithful : Window.Faithful MovementDue (u.2.map Call.watched)

theorem Observed.init : Observed (.init, []) := ⟨⟨rfl, rfl, rfl⟩, .nil⟩

/-- What changes neither the sensors nor the samples keeps it. -/
theorem Observed.same {calls' : List Call} (h : Observed (s, calls))
    (hsensors : t.sensors = s.sensors)
    (hsamples : calls'.map Call.watched = calls.map Call.watched) : Observed (t, calls') := by
  obtain ⟨hwatches, hfaithful⟩ := h
  rw [← hsamples, ← hsensors] at hwatches
  rw [← hsamples] at hfaithful
  exact ⟨hwatches, hfaithful⟩

/-- **Every step keeps it.** -/
theorem Observed.step (h : Observed (s, calls)) (hstep : step a s = some t) :
    Observed (t, logStep a s t calls) := by
  have hnothing : .movement ∉ s.printed.drop s.printed.length := by simp
  cases a with
  | receives b =>
      cases hstep
      exact h.same rfl (map_watched_addLines hnothing)
  | interrupts =>
      rw [Firmware.step] at hstep
      split at hstep
      · cases hstep
        exact h.same rfl (map_watched_addLines hnothing)
      · cases hstep
  | goesOn i =>
      cases hstep
      show Observed (access i s, if s.point = .boundary then
        calls ++ [⟨i, (access i s).printed.drop s.printed.length⟩] else addLines _ calls)
      by_cases hp : s.point = .boundary
      · obtain ⟨hwatches, lines, hprinted, hdue⟩ := access_movement hp h.watches i
        have hreport : (Call.mk i lines).watched.2 = true ↔ _ := decide_eq_true_iff.trans hdue
        rw [if_pos hp, hprinted, List.drop_left]
        refine ⟨?_, ?_⟩
        · show Watches _ (Window.pending _ (((calls ++ [Call.mk i lines]).map _).map _))
          rw [List.map_append, List.map_append]
          exact hwatches
        · show Window.Faithful _ ((calls ++ [Call.mk i lines]).map _)
          rw [List.map_append]
          exact h.faithful.concat hreport
      · obtain ⟨hsensors, lines, hprinted, hlines⟩ := access_replies hp i
        rw [if_neg hp, hprinted, List.drop_left]
        refine h.same hsensors (map_watched_addLines fun hmem => ?_)
        cases hlines _ hmem

/-- **Movement is reported once for each window with enough of it.** In every
run of the firmware: in a call of `loop()` a `movement` line is printed if and
only if it is a 6000th call, and in it and the 5999 calls before one of the
sensors was high in at least 5900. -/
theorem movement_printed_iff
    (h : Reach.Run loggedStep (fun _ _ => True) (.init, []) (s, calls))
    (hcall : calls = before ++ call :: after) :
    .movement ∈ call.lines ↔ MovementDue (before.map Call.inputs) call.inputs := by
  have hobserved : Observed (s, calls) := by
    refine h.invariant (I := Observed) .init fun u a v _ hu _ hv => ?_
    obtain ⟨t, ht, rfl⟩ := Option.map_eq_some_iff.mp hv
    exact hu.step ht
  have hsamples : calls.map Call.watched =
      before.map Call.watched ++ call.watched :: after.map Call.watched := by
    rw [hcall, List.map_append, List.map_cons]
  have hdue := hobserved.faithful _ _ _ hsamples
  rw [List.map_map] at hdue
  exact decide_eq_true_iff.symm.trans hdue

/-- **One sensor is high for 6000 calls**: movement is reported in the last of
them. -/
theorem movement_printed_iff_high :
    ∃ s before call, Reach.Run loggedStep (fun _ _ => True) (.init, []) (s, before ++ [call]) ∧
      before.length = 5999 ∧ .movement ∈ call.lines := by
  obtain ⟨s, calls, hrun, hinputs, -⟩ := exists_run (List.replicate 6000 ⟨true, false, false, []⟩)
  have hlength : calls.length = 6000 := by
    rw [← List.length_map (f := Call.inputs), hinputs, List.length_replicate]
  rcases List.eq_nil_or_concat calls with rfl | ⟨before, call, rfl⟩
  · cases hlength
  rw [List.concat_eq_append] at hrun hinputs hlength
  have hbefore : before.length = 5999 := by
    rw [List.length_append, List.length_singleton] at hlength
    omega
  have hsamples : before.map Call.inputs ++ [call.inputs] =
      List.replicate 6000 ⟨true, false, false, []⟩ := by
    rw [← hinputs, List.map_append]
    rfl
  refine ⟨s, before, call, hrun, hbefore, (movement_printed_iff hrun rfl).mpr ⟨?_, .inl ?_⟩⟩
  · rw [List.length_map, hbefore]
    exact Nat.dvd_refl 6000
  · have hwindow : Window.last irSampleDuration.toNat (before.map Call.inputs ++ [call.inputs]) =
        List.replicate 6000 ⟨true, false, false, []⟩ := by
      rw [hsamples, Window.last, List.length_replicate]
      exact List.drop_zero
    have hcount : (List.replicate 6000 (Inputs.mk true false false [])).countP
        Inputs.movementPin = 6000 := by
      rw [List.countP_replicate, if_pos rfl]
    rw [hwindow, hcount]
    decide

end Firmware

end Realraum
