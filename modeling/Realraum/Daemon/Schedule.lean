import Realraum.Common.Divider
import Realraum.Daemon.Helpers.Options
import Realraum.Daemon.Model.Autosample
/-!
# The schedule of the autosample process

Every device has a counter that divides the timeouts by its rate, and it is
stepped whether sampling is enabled or not. What a device's counter is
depends on the timeouts so far and on nothing else, so that a device is
sampled at just the timeouts its rate divides, where the byte that was last
read is not zero.
-/

namespace Realraum

namespace Daemon

open Divider

variable {opt : OptionsT} {us : List Wakeup} {u : Wakeup} {c : Sampler} {t i : ℕ}
variable {sampleEnabled : UInt8} {call : SampleCall} {devices : List AutosampleDevice}

/-! ## What happened so far -/

/-- The timeouts so far. -/
def timeouts (us : List Wakeup) : ℕ := us.count .timeout

/-- The byte that is read in a round, if one is. -/
def Wakeup.byte : Wakeup → Option UInt8
  | .ready (some results) _ => (enableLoop results).join
  | _ => none

/-- The byte that was last read, and zero before the first. -/
def lastByte (us : List Wakeup) : UInt8 := (us.filterMap Wakeup.byte).getLast?.getD 0

/-- **The child of these options gets through these rounds.** -/
def SamplerReaches (opt : OptionsT) (us : List Wakeup) (c : Sampler) : Prop :=
  ∃ memory sigFd start, autosampleStart opt memory sigFd = .ok start ∧ samplerRun us start = some c

/-- The child makes this call in the round. -/
def Samples (u : Wakeup) (c : Sampler) (call : SampleCall) : Prop :=
  ∃ r, samplerTurn u c = some r ∧ call ∈ r.2

theorem timeouts_concat_timeout (us : List Wakeup) :
    timeouts (us ++ [.timeout]) = timeouts us + 1 := by
  rw [timeouts, List.count_append, List.count_singleton_self, timeouts]

theorem timeouts_concat_of_ne (h : u ≠ .timeout) (us : List Wakeup) :
    timeouts (us ++ [u]) = timeouts us := by
  have hnone : List.count .timeout [u] = 0 :=
    List.count_eq_zero.mpr fun hmem => h (List.mem_singleton.mp hmem).symm
  rw [timeouts, List.count_append, hnone, Nat.add_zero, timeouts]

theorem lastByte_concat (us : List Wakeup) (u : Wakeup) :
    lastByte (us ++ [u]) = u.byte.getD (lastByte us) := by
  rw [lastByte, List.filterMap_append]
  cases hbyte : u.byte with
  | none => rw [List.filterMap_cons_none hbyte, List.filterMap_nil, List.append_nil]; rfl
  | some b => rw [List.filterMap_cons_some hbyte, List.filterMap_nil, List.getLast?_concat]; rfl

/-! ## One timeout -/

/-- A device behind `t` timeouts. -/
def deviceAt (t : ℕ) (d : CStr × ℤ) : AutosampleDevice := ⟨d.2, countAt d.2 t, some d.1⟩

/-- A device's counter is stepped, and a call made where it started over. -/
theorem tickDevice_eq (d : AutosampleDevice) :
    tickDevice sampleEnabled d =
      ({ d with cnt := (tick d.delay d.cnt).1 },
        (tick d.delay d.cnt).2 && decide (sampleEnabled ≠ 0)) := by
  rw [tickDevice, tick]
  dsimp only
  split
  · rw [Bool.true_and]
  · rw [Bool.false_and]

theorem tickDevice_deviceAt {d : CStr × ℤ} (h : 0 < d.2) :
    tickDevice sampleEnabled (deviceAt t d) =
      (deviceAt (t + 1) d, decide (d.2 ∣ (t + 1 : ℕ)) && decide (sampleEnabled ≠ 0)) := by
  rw [tickDevice_eq, deviceAt, tick_countAt h]
  rfl

theorem tickDevices_fst : ∀ (devices : List AutosampleDevice) (i : ℕ),
    (tickDevices sampleEnabled i devices).1 =
      devices.map fun d => (tickDevice sampleEnabled d).1 := by
  intro devices
  induction devices with
  | nil => exact fun i => rfl
  | cons d devices ih =>
      intro i
      rw [tickDevices, List.map_cons]
      exact congrArg _ (ih (i + 1))

/-- **The calls of a timeout**: each is for the device at its place. -/
theorem mem_tickDevices : ∀ (devices : List AutosampleDevice) (i : ℕ),
    call ∈ (tickDevices sampleEnabled i devices).2 ↔
      ∃ k d, devices[k]? = some d ∧ call = (i + k, d.deviceName) ∧
        (tickDevice sampleEnabled d).2 = true := by
  intro devices
  induction devices with
  | nil => simp [tickDevices]
  | cons d devices ih =>
      intro i
      have hrest : call ∈ (tickDevices sampleEnabled (i + 1) devices).2 ↔
          ∃ k d', (d :: devices)[k + 1]? = some d' ∧ call = (i + (k + 1), d'.deviceName) ∧
            (tickDevice sampleEnabled d').2 = true := by
        rw [ih]
        simp only [List.getElem?_cons_succ, Nat.add_comm 1, Nat.add_assoc]
      have hhead : call ∈ (tickDevices sampleEnabled i (d :: devices)).2 ↔
          call = (i, d.deviceName) ∧ (tickDevice sampleEnabled d).2 = true ∨
            call ∈ (tickDevices sampleEnabled (i + 1) devices).2 := by
        rw [tickDevices]
        dsimp only
        split
        · rename_i h
          rw [List.mem_cons, and_iff_left h]
        · rename_i h
          rw [or_iff_right fun hcall => h hcall.2]
      rw [hhead, hrest]
      constructor
      · rintro (⟨heq, htick⟩ | ⟨k, d', hd', heq, htick⟩)
        · exact ⟨0, d, rfl, heq, htick⟩
        · exact ⟨k + 1, d', hd', heq, htick⟩
      · rintro ⟨k, d', hd', heq, htick⟩
        cases k with
        | zero =>
            obtain rfl := Option.some.inj hd'
            exact .inl ⟨heq, htick⟩
        | succ k => exact .inr ⟨k, d', hd', heq, htick⟩

/-- **The calls of a timeout are in the order of the list**, none twice. -/
theorem tickDevices_pairwise : ∀ (devices : List AutosampleDevice) (i : ℕ),
    ((tickDevices sampleEnabled i devices).2.map Prod.fst).Pairwise (· < ·) := by
  intro devices
  induction devices with
  | nil => exact fun i => .nil
  | cons d devices ih =>
      intro i
      rw [tickDevices]
      dsimp only
      split
      · rw [List.map_cons, List.pairwise_cons]
        refine ⟨fun k hk => ?_, ih (i + 1)⟩
        obtain ⟨call, hcall, rfl⟩ := List.mem_map.mp hk
        obtain ⟨k, -, -, rfl, -⟩ := (mem_tickDevices devices (i + 1)).mp hcall
        dsimp only
        omega
      · exact ih (i + 1)

/-! ## A run -/

/-- **The schedule is kept**: the counters count the timeouts, and the byte
is the one last read. -/
structure OnSchedule (opt : OptionsT) (us : List Wakeup) (c : Sampler) : Prop where
  devices : c.devices = opt.devices.map (deviceAt (timeouts us))
  enabled : c.sampleEnabled = lastByte us

/-- The array is filled where there is a device for every key. -/
theorem autosampleDevices_eq (h : Accepted opt) (heap : ℕ → AutosampleDevice) :
    autosampleDevices opt heap = opt.devices.map (deviceAt 0) := by
  rw [autosampleDevices, keyValueStorageLength, ← h.length_devices]
  refine List.ext_getElem (by simp) fun i hi _ => ?_
  have hlt : i < opt.devices.length := by simpa using hi
  rw [List.getElem_map, List.getElem_map, List.getElem_range, List.getElem?_eq_getElem hlt,
    deviceAt, countAt_zero]

theorem OnSchedule.start (h : Accepted opt) {memory : Option (ℕ → AutosampleDevice)} {sigFd : ℤ}
    (hstart : autosampleStart opt memory sigFd = .ok c) : OnSchedule opt [] c := by
  unfold autosampleStart at hstart
  split at hstart
  · cases hstart
  · split at hstart
    · cases hstart
    · split at hstart
      · cases hstart
      · obtain rfl := Except.ok.inj hstart
        exact ⟨autosampleDevices_eq h _, rfl⟩

/-- **One round.** -/
theorem OnSchedule.turn (hopt : Accepted opt) (h : OnSchedule opt us c) {next : Sampler}
    {calls : List SampleCall} (hturn : samplerTurn u c = some (next, calls)) :
    OnSchedule opt (us ++ [u]) next := by
  have hdevices := h.devices
  have henabled := h.enabled
  cases u with
  | failed | interrupted =>
      obtain ⟨rfl, -⟩ := Prod.mk.inj (Option.some.inj hturn)
      refine ⟨?_, ?_⟩
      · rw [timeouts_concat_of_ne Wakeup.noConfusion]
        exact hdevices
      · rw [lastByte_concat]
        exact henabled
  | timeout =>
      obtain ⟨rfl, -⟩ := Prod.mk.inj (Option.some.inj hturn)
      refine ⟨?_, ?_⟩
      · rw [timeouts_concat_timeout]
        dsimp only
        rw [tickDevices_fst, hdevices, List.map_map]
        refine List.map_congr_left fun d hd => ?_
        rw [Function.comp_apply, tickDevice_deviceAt (hopt.delay_pos hd)]
      · rw [lastByte_concat]
        exact henabled
  | ready enable signals =>
      obtain ⟨byte, hbyte, heq⟩ := Option.map_eq_some_iff.mp hturn
      obtain ⟨rfl, -⟩ := Prod.mk.inj heq
      refine ⟨?_, ?_⟩
      · rw [timeouts_concat_of_ne Wakeup.noConfusion]
        exact hdevices
      · have hread : (Wakeup.ready enable signals).byte = byte := by
          cases enable with
          | none => exact Option.some.inj hbyte
          | some results => exact congrArg Option.join hbyte
        rw [lastByte_concat, hread, ← henabled]

/-- **Every run keeps the schedule.** -/
theorem SamplerReaches.onSchedule (hopt : Accepted opt) (h : SamplerReaches opt us c) :
    OnSchedule opt us c := by
  obtain ⟨memory, sigFd, start, hstart, hrun⟩ := h
  refine Reach.replay_invariant (I := OnSchedule opt) ?_ us [] start c (.start hopt hstart) hrun
  intro past s u t hs _ ht
  obtain ⟨r, hr, rfl⟩ := Option.map_eq_some_iff.mp ht
  exact hs.turn hopt hr

/-- The device at a place of the list, behind the rounds so far. -/
theorem OnSchedule.getElem? (h : OnSchedule opt us c) (i : ℕ) :
    c.devices[i]? = opt.devices[i]?.map (deviceAt (timeouts us)) := by
  rw [h.devices, List.getElem?_map]

/-- **Every call of a round**: sampling is enabled, and the rate of the
device divides the timeouts with this one. -/
theorem OnSchedule.samples_iff (hopt : Accepted opt) (h : OnSchedule opt us c) :
    Samples u c call ↔ u = .timeout ∧ c.sampleEnabled ≠ 0 ∧
      ∃ d, opt.devices[call.1]? = some d ∧ call.2 = some d.1 ∧
        d.2 ∣ (timeouts us + 1 : ℕ) := by
  have hnone : ∀ {r : Sampler × List SampleCall}, r.2 = [] → call ∉ r.2 := fun hr hcall => by
    rw [hr] at hcall
    cases hcall
  cases u with
  | failed | interrupted =>
      refine iff_of_false (fun ⟨r, hr, hcall⟩ => hnone ?_ hcall) fun hu => Wakeup.noConfusion hu.1
      rw [← Option.some.inj hr]
  | ready enable signals =>
      refine iff_of_false (fun ⟨r, hr, hcall⟩ => hnone ?_ hcall) fun hu => Wakeup.noConfusion hu.1
      obtain ⟨byte, -, rfl⟩ := Option.map_eq_some_iff.mp hr
      rfl
  | timeout =>
      rw [and_iff_right rfl]
      have hcalls : Samples .timeout c call ↔
          call ∈ (tickDevices c.sampleEnabled 0 c.devices).2 :=
        ⟨fun ⟨r, hr, hcall⟩ => by rwa [← Option.some.inj hr] at hcall, fun hcall => ⟨_, rfl, hcall⟩⟩
      rw [hcalls, mem_tickDevices]
      constructor
      · rintro ⟨k, d', hd', rfl, htick⟩
        rw [h.getElem?] at hd'
        obtain ⟨d, hd, rfl⟩ := Option.map_eq_some_iff.mp hd'
        rw [tickDevice_deviceAt (hopt.delay_pos (List.mem_of_getElem? hd)), Bool.and_eq_true,
          decide_eq_true_eq, decide_eq_true_eq] at htick
        exact ⟨htick.2, d, by rwa [Nat.zero_add], rfl, htick.1⟩
      · rintro ⟨henabled, d, hd, hname, hdvd⟩
        refine ⟨call.1, deviceAt (timeouts us) d, ?_, ?_, ?_⟩
        · rw [h.getElem?, hd]
          rfl
        · rw [Nat.zero_add, deviceAt, ← hname]
        · rw [tickDevice_deviceAt (hopt.delay_pos (List.mem_of_getElem? hd)),
            decide_eq_true hdvd, decide_eq_true henabled]
          rfl

/-- **A device is sampled at the timeouts its rate divides, while sampling is
enabled.** The calls of a timeout are in the order of the list and none is
made twice, the counters stay below the rates, and a device with the same
rate in another run with as many timeouts has the same counter and is
sampled alike, whatever stands beside it and however often the byte
changed. -/
theorem sampled_iff (hopt : Accepted opt) (h : SamplerReaches opt us c) :
    (∀ u i name, Samples u c (i, name) ↔
      u = .timeout ∧ c.sampleEnabled ≠ 0 ∧
        ∃ d, opt.devices[i]? = some d ∧ name = some d.1 ∧ d.2 ∣ (timeouts us + 1 : ℕ)) ∧
    (∀ u r, samplerTurn u c = some r → (r.2.map Prod.fst).Pairwise (· < ·)) ∧
    c.sampleEnabled = lastByte us ∧
    c.devices = opt.devices.map (deviceAt (timeouts us)) ∧
    (∀ d ∈ c.devices, 0 ≤ d.cnt ∧ d.cnt ≤ d.delay - 1) ∧
    ∀ opt' us' c', Accepted opt' → SamplerReaches opt' us' c' → timeouts us' = timeouts us →
      ∀ i j d, opt.devices[i]? = some d → opt'.devices[j]? = some d →
        c.devices[i]? = c'.devices[j]? ∧
          ((c.sampleEnabled = 0 ↔ c'.sampleEnabled = 0) →
            ∀ u, Samples u c (i, some d.1) ↔ Samples u c' (j, some d.1)) := by
  have hon := h.onSchedule hopt
  refine ⟨fun u i name => hon.samples_iff hopt, fun u r hr => ?_, hon.enabled, hon.devices,
    fun d hd => ?_, ?_⟩
  · cases u with
    | failed | interrupted =>
        rw [← Option.some.inj hr]
        exact .nil
    | timeout =>
        rw [← Option.some.inj hr]
        exact tickDevices_pairwise c.devices 0
    | ready enable signals =>
        obtain ⟨byte, -, rfl⟩ := Option.map_eq_some_iff.mp hr
        exact .nil
  · rw [hon.devices] at hd
    obtain ⟨given, hgiven, rfl⟩ := List.mem_map.mp hd
    have hpos := hopt.delay_pos hgiven
    have hlt := countAt_lt hpos (timeouts us)
    exact ⟨countAt_nonneg hpos _, Int.le_sub_one_of_lt hlt⟩
  · intro opt' us' c' hopt' h' hsame i j d hi hj
    have hon' := h'.onSchedule hopt'
    refine ⟨by rw [hon.getElem?, hon'.getElem?, hi, hj, hsame], fun henabled u => ?_⟩
    rw [hon.samples_iff hopt, hon'.samples_iff hopt', hi, hj, hsame, Ne, henabled]

/-- Two sample devices, one sampled every other second and one every third. -/
def OptionsT.everyOther : OptionsT :=
  { optionsDefault with
    sampledevFile := some (ascii "devs")
    sampledevs := ⟨[ascii "temp0", ascii "temp1"], [ascii "0", ascii "1"]⟩
    autosampledevs := ⟨[ascii "temp0", ascii "temp1"], [ascii "2", ascii "3"]⟩ }

/-- `-a devs -A temp0,2 -A temp1,3` is accepted. -/
theorem accepted_everyOther : Accepted .everyOther :=
  ⟨fun _ => ⟨true, true⟩, ascii "powersensordaemon",
    [ascii "-a", ascii "devs", ascii "-A", ascii "temp0,2", ascii "-A", ascii "temp1,3"],
    { OptionsT.everyOther with sampledevs := .empty },
    fun _ => some (ascii "temp0 0" ++ [linefeed] ++ ascii "temp1 1" ++ [linefeed]),
    fun _ => ⟨true, true⟩, fun _ => ⟨true, true⟩, rfl, rfl⟩

/-- Sampling is enabled behind the second second, and the third samples the
second device alone. -/
theorem sampled_third :
    ∃ c, SamplerReaches .everyOther
        [.timeout, .interrupted, .timeout, .ready (some [.byte 49]) none] c ∧
      Samples .timeout c (1, some (ascii "temp1")) ∧
        ¬ Samples .timeout c (0, some (ascii "temp0")) := by
  have hreach : SamplerReaches .everyOther
      [.timeout, .interrupted, .timeout, .ready (some [.byte 49]) none]
      ⟨[⟨2, 0, some (ascii "temp0")⟩, ⟨3, 2, some (ascii "temp1")⟩], 49, 0⟩ :=
    ⟨some fun _ => ⟨0, 0, none⟩, 3, _, rfl, rfl⟩
  obtain ⟨hsamples, -⟩ := sampled_iff accepted_everyOther hreach
  refine ⟨_, hreach, (hsamples _ _ _).mpr ⟨rfl, by decide, _, rfl, rfl, by decide⟩,
    fun hsampled => ?_⟩
  obtain ⟨-, -, d, hd, -, hdvd⟩ := (hsamples _ _ _).mp hsampled
  rw [← Option.some.inj hd] at hdvd
  exact absurd hdvd (by decide)

end Daemon

end Realraum
