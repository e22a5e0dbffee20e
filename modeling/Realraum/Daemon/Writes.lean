import Realraum.Daemon.Model.Autosample
/-!
# What a write loop leaves out

Three loops write a message. Two of them compare `offset + 1` with the
length where `offset` is meant, so they are content with all bytes but one;
the third ends on the first write that takes anything. The results say for
which answers of `write` the whole message goes out whenever success is
reported.
-/

namespace Realraum

namespace Daemon

variable {len offset o : ℕ} {results rest rs rs' : List WriteResult}

/-! ## What ends a write loop -/

section Ends

variable {r : WriteResult} {xs : List WriteResult}

/-- The result ends no loop: nothing was taken, or a signal came. -/
def WriteResult.Repeats (r : WriteResult) : Prop := r = .accepted 0 ∨ r = .interrupted

instance : DecidablePred WriteResult.Repeats :=
  fun r => inferInstanceAs (Decidable (r = .accepted 0 ∨ r = .interrupted))

/-- **The loop ends at the first result that does not repeat it.** -/
theorem writeLoop_eq_find (xs : List WriteResult) :
    writeLoop xs = xs.find? fun r => ¬ r.Repeats := by
  fun_induction writeLoop xs with
  | case1 => rfl
  | case2 rest ih => rw [ih, List.find?_cons_of_neg (by simp [WriteResult.Repeats])]
  | case3 rest ih => rw [ih, List.find?_cons_of_neg (by simp [WriteResult.Repeats])]
  | case4 r rest hzero hintr =>
      have hends : ¬ r.Repeats := not_or.mpr ⟨by simpa using hzero, by simpa using hintr⟩
      rw [List.find?_cons_of_pos (by simpa using hends)]

theorem writeLoop_eq_none : writeLoop xs = none ↔ ∀ r ∈ xs, r.Repeats := by
  rw [writeLoop_eq_find, List.find?_eq_none]
  simp

theorem not_repeats_of_writeLoop (h : writeLoop xs = some r) : ¬ r.Repeats := by
  rw [writeLoop_eq_find] at h
  simpa using List.find?_some h

theorem writeLoop_ne_interrupted (xs : List WriteResult) : writeLoop xs ≠ some .interrupted :=
  fun h => not_repeats_of_writeLoop h (.inr rfl)

end Ends

/-! ## How much is written -/

/-- How many bytes a result took. -/
def WriteResult.count : WriteResult → ℕ
  | .accepted n => n
  | _ => 0

/-- How many bytes these results took. -/
def takenBytes : List WriteResult → ℕ
  | [] => 0
  | r :: rs => r.count + takenBytes rs

/-- **All bytes of `len` but one are taken** by results that leave the
loop going, if only for having made no attempt to write the last. -/
def LeavesOne (len : ℕ) (rs : List WriteResult) : Prop :=
  rs ≠ [] ∧ .failed ∉ rs ∧ takenBytes rs + 1 = len

@[simp] theorem takenBytes_nil : takenBytes [] = 0 := rfl

@[simp] theorem takenBytes_cons (r : WriteResult) (rs : List WriteResult) :
    takenBytes (r :: rs) = r.count + takenBytes rs := rfl

theorem count_le_takenBytes {r : WriteResult} (h : r ∈ rs) : r.count ≤ takenBytes rs := by
  induction rs with
  | nil => cases h
  | cons r' rs ih =>
      rw [takenBytes_cons]
      rcases List.mem_cons.mp h with rfl | h
      · exact Nat.le_add_right _ _
      · exact (ih h).trans (Nat.le_add_left _ _)

/-- **One round of the loop.** -/
theorem responseLoop_cons {r : WriteResult} (hr : r ≠ .failed) (hoff : offset ≤ len) :
    responseLoop len offset (r :: rest) =
      if len ≤ min len (offset + r.count) + 1 then some (true, min len (offset + r.count), rest)
      else responseLoop len (min len (offset + r.count)) rest := by
  cases r with
  | failed => exact absurd rfl hr
  | interrupted =>
      have hoffset : min len (offset + WriteResult.interrupted.count) = offset := min_eq_right hoff
      rw [responseLoop, hoffset]
  | accepted n =>
      have hoffset : offset + min n (len - offset) = min len (offset + n) := by omega
      rw [responseLoop, WriteResult.count, hoffset]

/-- **Where the loop breaks**, all bytes are written, or all but one. -/
theorem eq_of_responseLoop (hoff : offset ≤ len)
    (h : responseLoop len offset results = some (true, o, rest)) :
    ∃ rs, results = rs ++ rest ∧ rs ≠ [] ∧ .failed ∉ rs ∧ o = min len (offset + takenBytes rs) ∧
      len ≤ o + 1 := by
  induction results generalizing offset with
  | nil => cases h
  | cons r results ih =>
      by_cases hr : r = .failed
      · rw [hr, responseLoop] at h
        cases h
      · rw [responseLoop_cons hr hoff] at h
        split at h
        · rename_i hdone
          cases h
          exact ⟨[r], rfl, by simp, by simpa using Ne.symm hr, by simp, hdone⟩
        · obtain ⟨rs, rfl, -, hfailed, rfl, hdone⟩ := ih (min_le_left _ _) h
          refine ⟨r :: rs, rfl, by simp, by simpa [hfailed] using Ne.symm hr, ?_, hdone⟩
          rw [takenBytes_cons]
          omega

/-- **All bytes but one are enough for it.** -/
theorem responseLoop_of_leavesOne (rs' : List WriteResult) (hrs : rs ≠ []) (hfailed : .failed ∉ rs)
    (hlen : offset + takenBytes rs + 1 = len) :
    ∃ rs₂, responseLoop len offset (rs ++ rs') = some (true, len - 1, rs₂ ++ rs') ∧
      ∀ r ∈ rs₂, r.Repeats := by
  induction rs generalizing offset with
  | nil => exact absurd rfl hrs
  | cons r rs ih =>
      rw [List.mem_cons, not_or] at hfailed
      rw [takenBytes_cons] at hlen
      have hmin : min len (offset + r.count) = offset + r.count := by omega
      rw [List.cons_append, responseLoop_cons (Ne.symm hfailed.1) (by omega), hmin]
      split
      · -- what is left of the results takes nothing
        rename_i hdone
        refine ⟨rs, by rw [show offset + r.count = len - 1 by omega], fun x hx => ?_⟩
        have hzero : takenBytes rs = 0 := by omega
        have hcount : x.count = 0 := Nat.le_zero.mp (hzero ▸ count_le_takenBytes hx)
        cases x with
        | accepted n => exact .inl (congrArg WriteResult.accepted hcount)
        | interrupted => exact .inr rfl
        | failed => exact absurd hx hfailed.2
      · rename_i hmore
        refine ih (fun hnil => hmore ?_) hfailed.2 (by omega)
        rw [hnil, takenBytes_nil] at hlen
        omega

/-! ## `send_response` -/

theorem sendResponse_eq_zero {response : CStr} {bytes : List UInt8} :
    sendResponse (some response) results = some (0, bytes) ↔
      ∃ o rest n, responseLoop response.length 0 results = some (true, o, rest) ∧
        writeLoop rest = some (.accepted n) ∧ bytes = response.take o ++ [linefeed] := by
  rw [sendResponse]
  rcases responseLoop response.length 0 results with - | ⟨- | -, o, rest⟩
  · simp
  · simp
  · simp only
    cases hloop : writeLoop rest with
    | none => simp [hloop]
    | some r =>
        cases r with
        | accepted n => simp [hloop, eq_comm]
        | interrupted => simp [hloop]
        | failed => simp [hloop]

/-- The response is cut short: all of it is taken but one byte, and then
the line feed. -/
def CutsResponse (response : CStr) (results : List WriteResult) : Prop :=
  ∃ rs rs', results = rs ++ rs' ∧ LeavesOne response.length rs ∧
    ∃ r ∈ rs'.find? (fun r => ¬ r.Repeats), r ≠ .failed

/-- **When `send_response` writes what it says.** -/
theorem sendResponse_whole_iff (response : CStr) (results : List WriteResult) :
    (∀ bytes, sendResponse (some response) results = some (0, bytes) →
      bytes = response ++ [linefeed]) ↔ ¬ CutsResponse response results := by
  constructor
  · rintro h ⟨rs, rs', rfl, ⟨hrs, hfailed, hlen⟩, r, hr, hne⟩
    rw [← Nat.zero_add (takenBytes rs)] at hlen
    obtain ⟨rs₂, hloop, hrepeats⟩ := responseLoop_of_leavesOne rs' hrs hfailed hlen
    have hwrite : writeLoop (rs₂ ++ rs') = some r := by
      rw [writeLoop_eq_find, List.find?_append, List.find?_eq_none.mpr, Option.none_or]
      · exact hr
      · simpa using hrepeats
    have hends := not_repeats_of_writeLoop hwrite
    cases r with
    | accepted n =>
        have hwhole := h _ (sendResponse_eq_zero.mpr ⟨_, _, n, hloop, hwrite, rfl⟩)
        have hlength := congrArg List.length hwhole
        simp only [List.length_append, List.length_take] at hlength
        omega
    | interrupted => exact hends (.inr rfl)
    | failed => exact hne rfl
  · intro hcut bytes hbytes
    obtain ⟨o, rest, n, hloop, hwrite, rfl⟩ := sendResponse_eq_zero.mp hbytes
    obtain ⟨rs, rfl, hrs, hfailed, ho, hdone⟩ := eq_of_responseLoop (Nat.zero_le _) hloop
    rw [List.take_of_length_le]
    -- else one byte was left, and the line feed was taken
    by_contra hshort
    rw [writeLoop_eq_find] at hwrite
    exact hcut ⟨rs, rest, rfl, ⟨hrs, hfailed, by omega⟩, _, hwrite, WriteResult.noConfusion⟩

/-! ## `send_sample_cmd` -/

/-- Its loop is the same. -/
theorem sampleLoop_eq (len offset : ℕ) (results : List WriteResult) :
    sampleLoop len offset results =
      (responseLoop len offset results).map fun r => (if r.1 then 0 else -1, r.2.1) := by
  induction results generalizing offset with
  | nil => rfl
  | cons r results ih =>
      cases r with
      | failed => rfl
      | interrupted =>
          rw [sampleLoop, responseLoop, ih]
          split <;> rfl
      | accepted n =>
          rw [sampleLoop, responseLoop]
          simp only [ih]
          split <;> rfl

theorem sendSampleCmd_eq_zero {name : CStr} {asprintf : Bool} {bytes : List UInt8} :
    sendSampleCmd asprintf (some name) results = some (0, bytes) ↔
      asprintf = true ∧ ∃ o rest,
        responseLoop (sampleCmd name).length 0 results = some (true, o, rest) ∧
        bytes = (sampleCmd name).take o := by
  cases asprintf with
  | false => simp [sendSampleCmd]
  | true =>
      rw [sendSampleCmd, if_pos rfl]
      simp only [sampleLoop_eq]
      rcases responseLoop (sampleCmd name).length 0 results with - | ⟨- | -, o, rest⟩
      · simp
      · simp
      · simp only [Option.map_some, if_true, Option.some.injEq, Prod.mk.injEq, true_and]
        constructor
        · rintro rfl
          exact ⟨o, rest, ⟨rfl, rfl⟩, rfl⟩
        · rintro ⟨o', rest', ⟨rfl, rfl⟩, h⟩
          exact h.symm

/-- The command is cut short: all of it is taken but the line feed. -/
def CutsSample (name : CStr) (results : List WriteResult) : Prop :=
  ∃ rs rs', results = rs ++ rs' ∧ LeavesOne (sampleCmd name).length rs

/-- **When `send_sample_cmd` writes what it says.** -/
theorem sendSampleCmd_whole_iff (name : CStr) (asprintf : Bool) (results : List WriteResult) :
    (∀ bytes, sendSampleCmd asprintf (some name) results = some (0, bytes) →
      bytes = sampleCmd name) ↔ (asprintf = true → ¬ CutsSample name results) := by
  constructor
  · rintro h hmem ⟨rs, rs', rfl, hrs, hfailed, hlen⟩
    rw [← Nat.zero_add (takenBytes rs)] at hlen
    obtain ⟨rs₂, hloop, -⟩ := responseLoop_of_leavesOne rs' hrs hfailed hlen
    have hwhole := h _ (sendSampleCmd_eq_zero.mpr ⟨hmem, _, _, hloop, rfl⟩)
    have hlength := congrArg List.length hwhole
    rw [List.length_take] at hlength
    omega
  · intro hcut bytes hbytes
    obtain ⟨hmem, o, rest, hloop, rfl⟩ := sendSampleCmd_eq_zero.mp hbytes
    obtain ⟨rs, rfl, hrs, hfailed, ho, hdone⟩ := eq_of_responseLoop (Nat.zero_le _) hloop
    rw [List.take_of_length_le]
    by_contra hshort
    exact hcut hmem ⟨rs, rest, rfl, hrs, hfailed, by omega⟩

/-! ## `send_command` -/

/-- The command is cut short: the first write that takes anything does not
take all of it. -/
def CutsCommand (bytes : List UInt8) (results : List WriteResult) : Prop :=
  ∃ n < bytes.length, results.find? (fun r => ¬ r.Repeats) = some (.accepted n)

/-- **When `send_command` writes what it marks as sent.** -/
theorem sendCommand_whole_iff {c : Cmd} {v : CStr} (results : List WriteResult)
    (hid : c.cmd ≠ .log ∧ c.cmd ≠ .listen) (hv : c.param = some v) :
    (∀ bytes, sendCommand c results = .wrote bytes → bytes = commandBytes c.cmd v) ↔
      ¬ CutsCommand (commandBytes c.cmd v) results := by
  have hwrote : ∀ bytes, sendCommand c results = .wrote bytes ↔
      ∃ n, writeLoop results = some (.accepted n) ∧ bytes = (commandBytes c.cmd v).take n :=
    fun bytes => by
      rw [sendCommand, hv]
      cases hc : c.cmd with
      | log => exact absurd hc hid.1
      | listen => exact absurd hc hid.2
      | powerOn | powerOff | sample =>
          simp only
          cases writeLoop results with
          | none => simp
          | some r => cases r <;> simp [eq_comm]
  simp only [hwrote, writeLoop_eq_find]
  constructor
  · rintro h ⟨n, hn, hfind⟩
    have hlength := congrArg List.length (h _ ⟨n, hfind, rfl⟩)
    rw [List.length_take] at hlength
    omega
  · rintro hcut bytes ⟨n, hfind, rfl⟩
    rw [List.take_of_length_le]
    by_contra hshort
    exact hcut ⟨n, by omega, hfind⟩

/-! ## All three -/

/-- **No write loop loses a byte, unless its message is cut short.** -/
theorem whole_messages_iff (results : List WriteResult) :
    (∀ response : CStr,
      (∀ bytes, sendResponse (some response) results = some (0, bytes) →
        bytes = response ++ [linefeed]) ↔ ¬ CutsResponse response results) ∧
    (∀ (name : CStr) (asprintf : Bool),
      (∀ bytes, sendSampleCmd asprintf (some name) results = some (0, bytes) →
        bytes = sampleCmd name) ↔ (asprintf = true → ¬ CutsSample name results)) ∧
    ∀ (c : Cmd) (v : CStr), c.cmd ≠ .log ∧ c.cmd ≠ .listen → c.param = some v →
      ((∀ bytes, sendCommand c results = .wrote bytes → bytes = commandBytes c.cmd v) ↔
        ¬ CutsCommand (commandBytes c.cmd v) results) :=
  ⟨fun response => sendResponse_whole_iff response results,
    fun name asprintf => sendSampleCmd_whole_iff name asprintf results,
    fun _ _ hid hv => sendCommand_whole_iff results hid hv⟩

/-- A temperature's command. -/
def tempCmd : Cmd :=
  { serial := 0, port := .client 0, fd := 7, cmd := .sample, param := some (ascii "temp"),
    sent := false, tvStart := .zero }

/-- Writes that take everything at once. -/
theorem whole_messages_iff_once :
    (∀ bytes, sendResponse (some (ascii "ok")) [.accepted 2, .accepted 1] = some (0, bytes) →
      bytes = ascii "ok" ++ [linefeed]) ∧
    ∀ bytes, sendCommand tempCmd [.accepted 4] = .wrote bytes → bytes = ascii "temp" := by
  constructor
  · refine ((whole_messages_iff _).1 _).mpr ?_
    rintro ⟨rs, rs', heq, ⟨hrs, -, hlen⟩, -⟩
    obtain ⟨r, rs, rfl⟩ := List.exists_cons_of_ne_nil hrs
    obtain rfl : .accepted 2 = r := (List.cons.inj heq).1
    have hlen : 2 + takenBytes rs + 1 = 2 := hlen
    omega
  · refine ((whole_messages_iff _).2.2 tempCmd (ascii "temp") (by decide) rfl).mpr ?_
    rintro ⟨n, hn, hfind⟩
    obtain rfl : 4 = n := by
      have hfour : some (WriteResult.accepted 4) = some (.accepted n) := hfind
      cases hfour
      rfl
    exact absurd hn (by decide)

/-- **A byte disappears, and success is reported**, in each of the three:
`ok` with its first byte taken alone, a sample command without its line
feed, and the first byte of a command. -/
theorem whole_messages_fail :
    (sendResponse (some (ascii "ok")) [.accepted 1, .accepted 1] =
        some (0, ascii "o" ++ [linefeed]) ∧
      ascii "o" ++ [linefeed] ≠ ascii "ok" ++ [linefeed]) ∧
    (sendSampleCmd true (some (ascii "temp")) [.accepted 11] = some (0, ascii "sample temp") ∧
      ascii "sample temp" ≠ sampleCmd (ascii "temp")) ∧
    sendCommand tempCmd [.accepted 1] = .wrote (ascii "t") ∧
      ascii "t" ≠ commandBytes tempCmd.cmd (ascii "temp") := by
  decide

end Daemon

end Realraum
