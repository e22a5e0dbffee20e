import Realraum.Common.Reach
import Realraum.Firmware.Helpers.RomWalk
import Realraum.Firmware.Model.DallasTemperature
/-!
# The firmware — searching for devices in alarm

`alarmSearch` counts forks in another way than the search of `OneWire`: it
keeps the fork at which it has to decide differently, and puts the fork
before it in its place once it is passed. It still gives out the devices in
alarm in the order of their codes, whatever family they are of, and then
stays exhausted until it is reset.
-/

namespace Realraum

namespace Firmware

open BitSearch

variable {rom : DeviceAddress} {devices : List DeviceAddress} {bus : Bus}
variable {last s s' : AlarmSearch} {p p' : AlarmPass} {z : Option ℕ} {i k n : ℕ}

/-! ## One round -/

/-- A position in the words as this search keeps it. -/
def junctionNumber : Option ℕ → ℤ
  | none => -1
  | some d => d

/-- **The search behind so many rounds**: up to the fork at which it decides
differently that fork is kept, and behind it the last one where a 0 was
written. -/
structure AlarmSearching (devices : List DeviceAddress) (last : AlarmSearch) (z : Option ℕ) (i : ℕ)
    (s : AlarmSearch) (p : AlarmPass) : Prop where
  walking : Walking devices last.alarmSearchAddress z i s.alarmSearchAddress p.wire
  exhausted : s.alarmSearchExhausted = last.alarmSearchExhausted
  junction : ∃ z', LastJunction (words devices) (s.alarmSearchAddress.word.take i) z' ∧
    (p.done = true ↔ z' = none) ∧
    if ∀ d ∈ z, d < i then s.alarmSearchJunction = junctionNumber z'
    else s.alarmSearchJunction = junctionNumber z ∧ p.lastJunction = junctionNumber z'

theorem AlarmSearching.start (h : devices ≠ []) (hz : s.alarmSearchJunction = junctionNumber z) :
    AlarmSearching devices s z 0 s ⟨-1, true, ⟨devices, 0⟩⟩ where
  walking := .start h s.alarmSearchAddress z
  exhausted := rfl
  junction := by
    refine ⟨none, by rw [List.take_zero]; exact .nil, by simp, ?_⟩
    cases z with
    | none => simpa using hz
    | some d => simpa using ⟨hz, rfl⟩

theorem lt_of_junctionNumber {u : List Bool} (h : LastJunction (words devices) u z) :
    junctionNumber z < u.length := by
  cases z with
  | none => exact Int.negSucc_lt_zero 0 |>.trans_le (Int.natCast_nonneg _)
  | some d => exact Int.ofNat_lt.mpr h.1.lt_length

/-- **What is written at a fork**: the preferred bit, with the forks kept as
they are behind it. -/
theorem AlarmSearching.atJunction (h : AlarmSearching devices last z i s p) (hi : i < 64)
    (hfork : Fork (words devices) (s.alarmSearchAddress.word.take i)) :
    ∃ b s' p', s.atJunction i p = (b, s', p') ∧
      b = prefer last.alarmSearchAddress.word z (s.alarmSearchAddress.word.take i) ∧
      s'.alarmSearchAddress = s.alarmSearchAddress ∧
      s'.alarmSearchExhausted = s.alarmSearchExhausted ∧ p'.wire = p.wire ∧
      ∃ z', LastJunction (words devices) (s.alarmSearchAddress.word.take i ++ [b]) z' ∧
        (p'.done = true ↔ z' = none) ∧
        if ∀ d ∈ z, d < i + 1 then s'.alarmSearchJunction = junctionNumber z'
        else s'.alarmSearchJunction = junctionNumber z ∧ p'.lastJunction = junctionNumber z' := by
  obtain ⟨z', hlast, hdone, hjunction⟩ := h.junction
  have hlength := length_take_word s.alarmSearchAddress hi
  have hbefore : junctionNumber z' < i := by
    have hlt := lt_of_junctionNumber hlast
    rwa [hlength] at hlt
  have hzero : LastJunction (words devices) (s.alarmSearchAddress.word.take i ++ [false])
      (some i) := by
    conv => arg 3; rw [← hlength]
    exact .concat_fork hfork
  have hone : LastJunction (words devices) (s.alarmSearchAddress.word.take i ++ [true]) z' :=
    hlast.concat fun _ => rfl
  rw [AlarmSearch.atJunction]
  by_cases hpassed : ∀ d ∈ z, d < i
  · -- behind the fork where it decided differently
    rw [if_pos hpassed] at hjunction
    have hpassed' : ∀ d ∈ z, d < i + 1 := fun d hd => Nat.lt_succ_of_lt (hpassed d hd)
    rw [hjunction, if_neg (ne_of_gt hbefore), if_neg (not_lt_of_gt hbefore)]
    refine ⟨_, _, _, rfl, ?_, rfl, rfl, rfl, some i, hzero, by simp, ?_⟩
    · cases z with
      | none => rfl
      | some d =>
          have hd := hpassed d rfl
          rw [prefer, hlength, if_neg (Nat.lt_asymm hd), decide_eq_false (Nat.ne_of_gt hd)]
    · rw [if_pos hpassed']
      rfl
  · rw [if_neg hpassed] at hjunction
    obtain ⟨hkept, hlastJunction⟩ := hjunction
    obtain ⟨d, rfl, hd⟩ : ∃ d, z = some d ∧ i ≤ d := by
      push Not at hpassed
      exact hpassed
    have hnumber : s.alarmSearchJunction = (d : ℤ) := hkept
    rw [hnumber]
    rcases Nat.eq_or_lt_of_le hd with rfl | hlt
    · rw [if_pos rfl]
      refine ⟨_, _, _, rfl, ?_, rfl, rfl, rfl, z', hone, hdone, ?_⟩
      · rw [prefer, hlength, if_neg (Nat.lt_irrefl i), decide_eq_true rfl]
      · rw [if_pos (by simp)]
        exact hlastJunction
    · have hbit : decide (s.alarmSearchAddress (byteIndex (UInt8.ofNat (i / 8))) &&&
          1 <<< UInt8.ofNat (i % 8) ≠ 0) =
          prefer last.alarmSearchAddress.word (some d) (s.alarmSearchAddress.word.take i) := by
        rw [prefer, hlength, if_pos hlt, List.getD_eq_getElem?_getD, getElem?_word _ hi,
          Option.getD_some, ← h.walking.kept i (Nat.le_refl i) hi,
          ← bit_eq_test s.alarmSearchAddress hi]
        exact decide_eq_decide.mpr UInt8.pos_iff_ne_zero.symm
      have hnot : ¬ ∀ e ∈ some d, e < i + 1 := fun hall =>
        Nat.not_lt_of_le hlt (hall d rfl)
      rw [if_neg (by omega), if_pos (by omega)]
      by_cases hset : s.alarmSearchAddress (byteIndex (UInt8.ofNat (i / 8))) &&&
          1 <<< UInt8.ofNat (i % 8) ≠ 0
      · rw [decide_eq_true hset] at hbit
        rw [if_pos hset]
        refine ⟨_, _, _, rfl, hbit, rfl, rfl, rfl, z', hone, hdone, ?_⟩
        rw [if_neg hnot]
        exact ⟨hkept, hlastJunction⟩
      · rw [decide_eq_false hset] at hbit
        rw [if_neg hset]
        refine ⟨_, _, _, rfl, hbit, rfl, rfl, rfl, some i, hzero, by simp, ?_⟩
        rw [if_neg hnot]
        exact ⟨hkept, rfl⟩

/-- Where the last search took its last 0 there is still a fork. -/
theorem Walking.fork_at {last : DeviceAddress} {w : Wire} {d : ℕ}
    (h : Walking devices last (some d) d rom w) (hmem : last ∈ devices)
    (hlast : LastJunction (words devices) last.word (some d)) :
    Fork (words devices) (rom.word.take d) := by
  obtain ⟨rom', hanswering⟩ := h.answered
  obtain ⟨hmem', htake⟩ := (h.mem_answering rom').mp hanswering
  have hgoes := h.follows
  rw [← htake] at hgoes ⊢
  rw [hgoes.take_eq (word_mem_words.mpr hmem) (word_mem_words.mpr hmem')
    ((length_word rom').trans (length_word last).symm) (Nat.le_refl d)]
  exact hlast.1.2

/-- **One round**: it does not return, and the search is one bit further. -/
theorem AlarmSearching.round (h : AlarmSearching devices last z i s p) (hi : i < 64)
    (hz : ∀ d ∈ z, last.alarmSearchAddress ∈ devices ∧
      LastJunction (words devices) last.alarmSearchAddress.word (some d)) :
    ∃ s' p', s.round i p = some (s', p') ∧ AlarmSearching devices last z (i + 1) s' p' := by
  have hfork_iff := h.walking.fork_iff hi
  have hwrite := fun b => h.walking.writeBit (b := b) hi
  have htake := take_word_put_succ s.alarmSearchAddress hi
  rw [AlarmSearch.round]
  dsimp only
  rw [if_neg h.walking.not_both]
  by_cases hreads : p.wire.idBit = false ∧ p.wire.cmpIdBit = false
  · have hfork := hfork_iff.mpr hreads
    obtain ⟨b, s', p', hat, hb, hrom, hexhausted, hwire, hjunction⟩ := h.atJunction hi hfork
    rw [if_pos (by simpa using hreads), hat]
    refine ⟨_, _, rfl, ?_, hexhausted.trans h.exhausted, ?_⟩
    · dsimp only
      rw [hrom, hwire]
      exact hwrite b (fun hne => absurd (hreads.1.trans hreads.2.symm) hne) fun _ => hb
    · dsimp only
      rw [hrom]
      exact (htake b).symm ▸ hjunction
  · have hnofork : ¬ Fork (words devices) (s.alarmSearchAddress.word.take i) :=
      fun hfork => hreads (hfork_iff.mp hfork)
    rw [if_neg (by simpa using hreads)]
    refine ⟨_, _, rfl, hwrite _ (fun _ => rfl) fun hfork => absurd hfork hnofork, h.exhausted, ?_⟩
    obtain ⟨z', hlast, hdone, hjunction⟩ := h.junction
    refine ⟨z', ?_, hdone, ?_⟩
    · exact (htake _).symm ▸ hlast.concat fun hfork => absurd hfork hnofork
    -- it is not the fork at which the search decides differently
    have hpassed : (∀ d ∈ z, d < i + 1) ↔ ∀ d ∈ z, d < i := by
      refine forall₂_congr fun d hd => ⟨fun hlt => ?_, Nat.lt_succ_of_lt⟩
      refine Nat.lt_of_le_of_ne (Nat.le_of_lt_succ hlt) ?_
      rintro rfl
      obtain rfl := Option.mem_def.mp hd
      obtain ⟨hmem, hjunction'⟩ := hz _ rfl
      exact hnofork (h.walking.fork_at hmem hjunction')
    simp only [hpassed]
    exact hjunction

/-- **All rounds** take the search through the whole word. -/
theorem AlarmSearching.rounds (hz : ∀ d ∈ z, last.alarmSearchAddress ∈ devices ∧
      LastJunction (words devices) last.alarmSearchAddress.word (some d)) :
    ∀ {n i s p}, AlarmSearching devices last z i s p → i + n = 64 →
      ∃ s' p', s.rounds n i p = (true, s', p') ∧ AlarmSearching devices last z 64 s' p' := by
  intro n
  induction n with
  | zero =>
      rintro i s p h rfl
      exact ⟨s, p, rfl, h⟩
  | succ n ih =>
      intro i s p h hi
      obtain ⟨s', p', hround, hnext⟩ := h.round (by omega) hz
      rw [AlarmSearch.rounds, hround]
      exact ih hnext (by omega)

/-! ## One call after the other -/

/-- **The search behind the first `k` devices in alarm.** -/
def AlarmBehind (devices : List DeviceAddress) : ℕ → AlarmSearch → Prop
  | 0, s => s.alarmSearchJunction = -1 ∧ s.alarmSearchExhausted = false
  | k + 1, s =>
    (inOrder devices)[k]? = some s.alarmSearchAddress ∧
      ∃ z, LastJunction (words devices) s.alarmSearchAddress.word z ∧
        s.alarmSearchJunction = junctionNumber z ∧ (s.alarmSearchExhausted = true ↔ z = none)

/-- **A call that walks** finds a device in alarm. -/
theorem alarmSearch_walk (hdevices : bus.devices.filter bus.alarm ≠ [])
    (hexhausted : s.alarmSearchExhausted = false)
    (hjunction : s.alarmSearchJunction = junctionNumber z)
    (hz : ∀ d ∈ z, s.alarmSearchAddress ∈ bus.devices.filter bus.alarm ∧
      LastJunction (words (bus.devices.filter bus.alarm)) s.alarmSearchAddress.word (some d)) :
    ∃ s' z', s'.alarmSearchAddress ∈ bus.devices.filter bus.alarm ∧
      GoesAs (words (bus.devices.filter bus.alarm)) (prefer s.alarmSearchAddress.word z)
        s'.alarmSearchAddress.word ∧
      LastJunction (words (bus.devices.filter bus.alarm)) s'.alarmSearchAddress.word z' ∧
      s'.alarmSearchJunction = junctionNumber z' ∧
      (s'.alarmSearchExhausted = true ↔ z' = none) ∧
      s.search bus = (⟨true, some s'.alarmSearchAddress⟩, s') := by
  obtain ⟨s', p', hrounds, hend⟩ :=
    (AlarmSearching.start hdevices hjunction).rounds hz (n := 64) rfl
  obtain ⟨hmem, hgoes⟩ := hend.walking.found
  obtain ⟨z', hz', hdone, hpassed⟩ := hend.junction
  rw [← length_word s'.alarmSearchAddress, List.take_length] at hz'
  rw [if_pos fun d hd => lt_of_lastJunction (hz d hd).2 d rfl] at hpassed
  have hsome : bus.devices ≠ [] := fun hnil => hdevices (by rw [hnil, List.filter_nil])
  refine ⟨{ s' with
    alarmSearchExhausted := if p'.done then true else s'.alarmSearchExhausted }, z',
    hmem, hgoes, hz', hpassed, ?_, ?_⟩
  · dsimp only
    rw [← hdone, hend.exhausted, hexhausted]
    cases p'.done <;> simp
  · rw [AlarmSearch.search, hexhausted, if_neg Bool.false_ne_true, if_neg hsome, hrounds]
    rfl

/-- **A call finds the next device in alarm**, and behind the last one none. -/
theorem alarmSearch_behind (h : AlarmBehind (bus.devices.filter bus.alarm) k s) :
    (s.search bus).1.device = (inOrder (bus.devices.filter bus.alarm))[k]? ∧
      AlarmBehind (bus.devices.filter bus.alarm)
        (if k < (inOrder (bus.devices.filter bus.alarm)).length then k + 1 else k)
        (s.search bus).2 := by
  have hwalk : ∀ s' z', (inOrder (bus.devices.filter bus.alarm))[k]? = some s'.alarmSearchAddress →
      LastJunction (words (bus.devices.filter bus.alarm)) s'.alarmSearchAddress.word z' →
      s'.alarmSearchJunction = junctionNumber z' → (s'.alarmSearchExhausted = true ↔ z' = none) →
      s.search bus = (⟨true, some s'.alarmSearchAddress⟩, s') →
      (s.search bus).1.device = (inOrder (bus.devices.filter bus.alarm))[k]? ∧
        AlarmBehind (bus.devices.filter bus.alarm)
          (if k < (inOrder (bus.devices.filter bus.alarm)).length then k + 1 else k)
          (s.search bus).2 := by
    intro s' z' hget hz' hjunction hexhausted hsearch
    rw [hsearch, hget, if_pos (List.getElem?_eq_some_iff.mp hget).1]
    exact ⟨rfl, hget, z', hz', hjunction, hexhausted⟩
  cases k with
  | zero =>
      obtain ⟨hjunction, hexhausted⟩ := h
      by_cases hdevices : bus.devices.filter bus.alarm = []
      · -- nobody answers the reset, or nobody the command
        have hsearch : s.search bus = (⟨false, none⟩, s) := by
          rw [AlarmSearch.search, hexhausted, if_neg Bool.false_ne_true]
          split
          · rfl
          · rw [hdevices]
            rfl
        rw [hsearch, inOrder_eq_nil.mpr hdevices]
        exact ⟨rfl, hjunction, hexhausted⟩
      · obtain ⟨s', z', hmem, hgoes, hz', hjunction', hexhausted', hsearch⟩ :=
          alarmSearch_walk hdevices hexhausted (z := none) hjunction (by simp)
        exact hwalk s' z' (first_of_goesAs hmem hgoes) hz' hjunction' hexhausted' hsearch
  | succ k =>
      obtain ⟨hget, z, hz, hjunction, hexhausted⟩ := h
      cases z with
      | none =>
          have hsearch : s.search bus = (⟨false, none⟩, s) := by
            rw [AlarmSearch.search, if_pos (hexhausted.mpr rfl)]
          have hlength := length_of_lastJunction hget hz
          rw [hsearch, hlength, if_neg (Nat.lt_irrefl _),
            List.getElem?_eq_none (Nat.le_of_eq hlength)]
          exact ⟨rfl, hget, none, hz, hjunction, hexhausted⟩
      | some d =>
          have hmem := mem_inOrder.mp (List.mem_of_getElem? hget)
          obtain ⟨s', z', hmem', hgoes, hz', hjunction', hexhausted', hsearch⟩ :=
            alarmSearch_walk (List.ne_nil_of_mem hmem) (by simpa using hexhausted) hjunction
              (by rintro _ ⟨⟩; exact ⟨hmem, hz⟩)
          exact hwalk s' z' (next_of_goesAs hget hz hmem' hgoes) hz' hjunction' hexhausted'
            hsearch

theorem alarmBehind_reset (s : AlarmSearch) : AlarmBehind devices 0 s.reset := ⟨rfl, rfl⟩

/-- The searches behind each other. -/
theorem alarmBehind_iterate (h : AlarmBehind (bus.devices.filter bus.alarm) 0 s) (n : ℕ) :
    AlarmBehind (bus.devices.filter bus.alarm)
      (min n (inOrder (bus.devices.filter bus.alarm)).length)
      ((fun s => (AlarmSearch.search bus s).2)^[n] s) := by
  induction n with
  | zero => rwa [Nat.zero_min]
  | succ n ih =>
      rw [Function.iterate_succ_apply']
      have hnext := (alarmSearch_behind ih).2
      split at hnext
      · rename_i hlt
        rw [Nat.min_eq_left (by omega)] at hnext ⊢
        exact hnext
      · rename_i hge
        rw [Nat.min_eq_right (by omega)] at hnext ⊢
        exact hnext

/-- **The devices in alarm are given out in the order of their codes**, each
once, and none of the others: for any devices, any of them in alarm, and any
number of calls behind `resetAlarmSearch`, whatever was searched before. -/
theorem alarmSearch_enumerates (bus : Bus) (s : AlarmSearch) (n : ℕ) :
    (s.reset.searchAfter bus n).device = (inOrder (bus.devices.filter bus.alarm))[n]? := by
  refine (alarmSearch_behind (alarmBehind_iterate (alarmBehind_reset s) n)).1.trans ?_
  rcases Nat.lt_or_ge n (inOrder (bus.devices.filter bus.alarm)).length with hlt | hge
  · rw [Nat.min_eq_left (Nat.le_of_lt hlt)]
  · rw [Nat.min_eq_right hge, List.getElem?_eq_none hge, List.getElem?_eq_none (Nat.le_refl _)]

/-! ## Handling the alarms -/

/-- A call as an answer and the state behind it. -/
def AlarmSearch.next (bus : Bus) (s : AlarmSearch) : Option DeviceAddress × AlarmSearch :=
  ((s.search bus).1.device, (s.search bus).2)

theorem alarmSearch_drains (bus : Bus) (s : AlarmSearch) :
    Reach.Drains (AlarmSearch.next bus) (inOrder (bus.devices.filter bus.alarm)) s.reset := by
  refine Reach.Drains.of_behind (l := inOrder (bus.devices.filter bus.alarm))
    (fun k s (hk : AlarmBehind (bus.devices.filter bus.alarm) k s) => ?_) 0 s.reset
    (alarmBehind_reset s)
  obtain ⟨hdevice, hnext⟩ := alarmSearch_behind hk
  refine ⟨hdevice, fun hlt => ?_⟩
  rwa [if_pos hlt] at hnext

theorem handleAlarms_of_drains {l : List DeviceAddress}
    (h : Reach.Drains (AlarmSearch.next bus) l s) :
    AlarmSearch.handleAlarms bus n s =
      if l.length < n then some (l.filter fun rom => rom.Valid) else none := by
  induction h generalizing n with
  | done hnone =>
      cases n with
      | zero => rfl
      | succ n =>
          have hdevice : (AlarmSearch.search bus _).1.device = none := hnone
          rw [AlarmSearch.handleAlarms, hdevice]
          rfl
  | more hsome _ ih =>
      cases n with
      | zero => rfl
      | succ n =>
          have hdevice : (AlarmSearch.search bus _).1.device = some _ := hsome
          have hrest : AlarmSearch.handleAlarms bus n (AlarmSearch.search bus _).2 = _ := ih
          rw [AlarmSearch.handleAlarms, hdevice]
          dsimp only
          rw [hrest, List.length_cons, List.filter_cons]
          simp only [Nat.add_lt_add_iff_right, decide_eq_true_eq]
          split
          · rw [apply_ite (Option.map _)]
            rfl
          · exact Option.map_id'

/-- **`processAlarms` calls the handler for each device in alarm with a valid
address**, once and in the order of their codes, and for no other device; and
it does so in one turn more than there are devices in alarm. -/
theorem processAlarms_eq (bus : Bus) (turns : ℕ) (s : AlarmSearch) :
    AlarmSearch.processAlarms bus turns s =
      if (inOrder (bus.devices.filter bus.alarm)).length < turns then
        some ((inOrder (bus.devices.filter bus.alarm)).filter fun rom => rom.Valid)
      else none :=
  handleAlarms_of_drains (alarmSearch_drains bus s)

end Firmware

end Realraum
