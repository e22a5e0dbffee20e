import Realraum.Daemon.Model.ClearFd
import Realraum.Daemon.Restart
/-!
# Entering `main_loop` again

`clear_fd` reads until `select` has nothing to report, and looks at no
result of `read()`. At the end of a stream there is always something to
report. The pipe of an autosample process that has exited is there, and
`main` goes on passing it to `main_loop`: no one resets `pid_`.
-/

namespace Realraum

namespace Daemon

variable {d tty pipe : Input} {k : ℕ → Poll} {polls : List Poll}

/-- **`clear_fd` ends** with these answers. -/
def ClearEnds (d : Input) (k : ℕ → Poll) : Prop :=
  ∃ n, (clearFd ((List.range n).map k) d).isSome = true

/-- **The setup of `main_loop` ends** with these answers on the tty and on
the pipe. -/
def SetupEnds (autosample : Option Autosample) (tty pipe : Input) (k k' : ℕ → Poll) : Prop :=
  ∃ n n', (mainLoopSetup autosample ((List.range n).map k) ((List.range n').map k') tty
    pipe).isSome = true

/-- **In front of silence every round takes a byte**, or is the last. -/
theorem clearFd_of_silence (hend : d.ending = .silence) (hlen : d.bytes.length < polls.length)
    (h : d.AllowsAll polls) : (clearFd polls d).isSome = true := by
  induction polls generalizing d with
  | nil => exact absurd hlen (Nat.not_lt_zero _)
  | cons poll polls ih =>
      cases poll with
      | timedOut => rfl
      | failed => rfl
      | ready ret =>
          obtain ⟨hready, hrest⟩ := h
          rw [Input.Allows] at hready
          split at hready
          · rw [hend] at hready
            exact absurd hready.1 (by decide)
          · refine ih (d := d.afterRead ret) hend ?_ hrest
            have hless : (d.afterRead ret).bytes.length = d.bytes.length - ret :=
              List.length_drop
            rw [List.length_cons] at hlen
            omega

/-- Rounds that are all ready do not end the loop. -/
theorem clearFd_of_ready (h : ∀ poll ∈ polls, ∃ ret, poll = .ready ret) (d : Input) :
    clearFd polls d = none := by
  induction polls generalizing d with
  | nil => rfl
  | cons poll polls ih =>
      obtain ⟨ret, rfl⟩ := h poll List.mem_cons_self
      rw [clearFd]
      exact ih (fun p hp => h p (List.mem_cons_of_mem _ hp)) _

/-- A kernel that has the descriptor ready in every round, and gives all
it can. -/
def alwaysReady (d : Input) : ℕ → Poll := fun i => .ready (min 100 (d.bytes.length - 100 * i))

/-- **At the end of a stream there is such a kernel.** -/
theorem alwaysReady_kernel (hend : d.ending = .eof) : d.Kernel (alwaysReady d) := by
  intro n
  induction n generalizing d with
  | zero => trivial
  | succ n ih =>
      have hleft : (d.afterRead (min 100 d.bytes.length)).bytes.length =
          d.bytes.length - min 100 d.bytes.length := List.length_drop
      have hshift : (fun i => alwaysReady d (i + 1)) =
          alwaysReady (d.afterRead (min 100 d.bytes.length)) := by
        funext i
        rw [alwaysReady, alwaysReady, hleft]
        congr 1
        omega
      have hfirst : alwaysReady d 0 = .ready (min 100 d.bytes.length) := rfl
      rw [List.range_succ_eq_map, List.map_cons, List.map_map, hfirst]
      refine ⟨?_, ?_⟩
      · rw [Input.Allows]
        split
        · rename_i hnil
          exact ⟨hend, by rw [hnil]; rfl⟩
        · rename_i hne
          have hpos := List.length_pos_iff.mpr hne
          exact ⟨lt_min (by decide) hpos, le_rfl⟩
      · have hrest := ih (d := d.afterRead (min 100 d.bytes.length)) hend
        rw [← hshift] at hrest
        exact hrest

/-- A kernel that ends the loop in its first round. -/
theorem const_kernel {poll : Poll} (hpoll : ∀ ret, poll ≠ .ready ret) (h : d.Allows poll) :
    d.Kernel fun _ => poll := by
  intro n
  cases n with
  | zero => trivial
  | succ n =>
      rw [List.range_succ_eq_map, List.map_cons]
      cases poll with
      | timedOut => exact h
      | failed => exact h
      | ready ret => exact absurd rfl (hpoll ret)

/-- Every descriptor has a kernel: a signal comes in each round. -/
theorem failed_kernel (d : Input) : d.Kernel fun _ => .failed :=
  const_kernel (fun _ => Poll.noConfusion) trivial

theorem not_clearEnds_alwaysReady (d : Input) : ¬ ClearEnds d (alwaysReady d) := by
  rintro ⟨n, hn⟩
  have hready : ∀ poll ∈ (List.range n).map (alwaysReady d), ∃ ret, poll = .ready ret := by
    intro poll hpoll
    obtain ⟨i, -, rfl⟩ := List.mem_map.mp hpoll
    exact ⟨_, rfl⟩
  rw [clearFd_of_ready hready] at hn
  cases hn

/-- **`clear_fd` ends in front of silence, and only there.** -/
theorem clearEnds_iff : (∀ k, d.Kernel k → ClearEnds d k) ↔ d.ending = .silence := by
  constructor
  · intro h
    cases hend : d.ending with
    | silence => rfl
    | eof => exact absurd (h _ (alwaysReady_kernel hend)) (not_clearEnds_alwaysReady d)
  · intro hend k hk
    exact ⟨d.bytes.length + 1, clearFd_of_silence hend (by simp) (hk _)⟩

theorem setupEnds_iff {autosample : Option Autosample} {k' : ℕ → Poll} :
    SetupEnds autosample tty pipe k k' ↔
      ClearEnds tty k ∧ (autosample.isSome = true → ClearEnds pipe k') := by
  rw [SetupEnds]
  cases autosample with
  | none =>
      simp only [mainLoopSetup, Option.isSome_bind, Option.isSome_some, Option.any_true]
      simp [ClearEnds]
  | some a =>
      simp only [mainLoopSetup, Option.isSome_bind, Option.isSome_map]
      constructor
      · rintro ⟨n, n', h⟩
        obtain ⟨left, hleft, hpipe⟩ := (Option.any_eq_true _ _).mp h
        exact ⟨⟨n, by rw [hleft]; rfl⟩, fun _ => ⟨n', hpipe⟩⟩
      · rintro ⟨⟨n, hn⟩, hpipe⟩
        obtain ⟨left, hleft⟩ := Option.isSome_iff_exists.mp hn
        obtain ⟨n', hn'⟩ := hpipe rfl
        exact ⟨n, n', (Option.any_eq_true _ _).mpr ⟨left, hleft, hn'⟩⟩

/-- **When `clear_fd` ends, and `main_loop` can be entered.** For every
descriptor `clear_fd` ends with whatever the kernel may answer just in case
silence comes behind the bytes; and the setup of `main_loop` ends just in
case this is so of the tty, and of the pipe where an autosample process was
started. -/
theorem clearFd_ends_iff (d tty pipe : Input) (autosample : Option Autosample) :
    ((∀ k, d.Kernel k → ClearEnds d k) ↔ d.ending = .silence) ∧
    ((∀ k k', tty.Kernel k → pipe.Kernel k' → SetupEnds autosample tty pipe k k') ↔
      tty.ending = .silence ∧ (autosample.isSome = true → pipe.ending = .silence)) := by
  refine ⟨clearEnds_iff, ?_⟩
  simp only [setupEnds_iff, ← clearEnds_iff]
  constructor
  · intro h
    exact ⟨fun k hk => (h k _ hk (failed_kernel pipe)).1,
      fun ha k' hk' => (h _ k' (failed_kernel tty) hk').2 ha⟩
  · rintro ⟨htty, hpipe⟩ k k' hk hk'
    exact ⟨htty k hk, fun ha => hpipe ha k' hk'⟩

/-- The child has closed its end of the pipe. -/
def Env.pipeGone (sec : ℕ) : Env :=
  { Env.idle sec with
    select := .returned {6}
    autosample := ⟨[], .eof, .plenty⟩ }

/-- The loop has taken the pipe out of `readfds`; then the tty is lost, and
`main` calls `main_loop` once more. -/
def reenters (m : Main) : Bool :=
  (m.loop.any fun q => .hangup ∈ q.2.trace) &&
    ((mainStep Setup.sampling.service (.iterates (.ttyGone .sampling 2)) m).bind
      (mainStep Setup.sampling.service .enterSampling)).isSome

/-- **`main_loop` does not get to its loop again.** The child exits, and
its pipe is found closed; then the tty is lost, and `main` calls
`main_loop` again with the same `pid_`. The pipe has no byte and is at its
end, so `clear_fd` goes on for ever. -/
theorem clearFd_ends_fails :
    (∃ m m' m'' cfg s, Main.Reached Setup.sampling.service (fun _ _ => True) m ∧
      m.phase = .looping cfg s ∧ .hangup ∈ s.trace ∧
      mainStep Setup.sampling.service (.iterates (.ttyGone .sampling 2)) m = some m' ∧
      mainStep Setup.sampling.service .enterSampling m' = some m'') ∧
    ∃ k k', Input.Kernel ⟨[], .silence⟩ k ∧ Input.Kernel ⟨[], .eof⟩ k' ∧
      ¬ ClearEnds ⟨[], .eof⟩ k' ∧
      ¬ SetupEnds Setup.sampling.service.autosample ⟨[], .silence⟩ ⟨[], .eof⟩ k k' := by
  refine ⟨?_, fun _ => .timedOut, alwaysReady ⟨[], .eof⟩,
    const_kernel (fun _ => Poll.noConfusion) (.inr rfl), alwaysReady_kernel rfl,
    not_clearEnds_alwaysReady _, fun h => ?_⟩
  · have hreplay : (Reach.replay (mainStep Setup.sampling.service)
        (fun _ a => decide (PipeWorks a ∧ True)) [.enterSampling, .iterates (.pipeGone 1)]
        .start).any reenters = true := by decide +kernel
    obtain ⟨m, hm, hp⟩ :=
      Reach.exists_of_replay (A := fun _ a => PipeWorks a ∧ True)
        (fun _ _ => of_decide_eq_true) _ _ _ hreplay
    obtain ⟨hloop, hagain⟩ := (Bool.and_eq_true _ _).mp hp
    obtain ⟨⟨cfg, s⟩, hloop, htrace⟩ := (Option.any_eq_true _ _).mp hloop
    obtain ⟨m'', hagain⟩ := Option.isSome_iff_exists.mp hagain
    obtain ⟨m', hm', hm''⟩ := Option.bind_eq_some_iff.mp hagain
    exact ⟨m, m', m'', cfg, s, hm, Main.phase_of_loop hloop, of_decide_eq_true htrace, hm', hm''⟩
  · exact not_clearEnds_alwaysReady _ ((setupEnds_iff.mp h).2 rfl)

end Daemon

end Realraum
