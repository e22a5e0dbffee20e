import Realraum.Daemon.Helpers.Iteration
/-!
# Helpers — the records of connections

`main_loop` keeps its connections in a list, in `readfds` and under
`max_fd`. In every run they agree with the history of what was accepted
and closed (`Reachable.tracked`), whatever became of the memory for the
clients.
-/

namespace Realraum

namespace Daemon

variable {cfg : Setup} {G : State → ℕ → Bool → Prop} {A : State → Env → Prop} {s t : State}
variable {fd : ℕ}

/-- **The records agree** with the history: the open connections, their
numbers, `readfds` and the bound on it. -/
structure Tracked (cfg : Setup) (s : State) : Prop where
  conns : s.conns = openConns s.trace
  numbered : ∀ k ∈ closes s.trace, k.serial < s.accepted
  readfds : s.readfds = watched cfg s.trace
  maxFd : ∀ fd ∈ s.readfds, fd ≤ s.maxFd

theorem le_raiseMax_left (m fd : ℕ) : m ≤ raiseMax m fd := by
  unfold raiseMax
  split <;> omega

theorem le_raiseMax_right (m fd : ℕ) : fd ≤ raiseMax m fd := by
  unfold raiseMax
  split <;> omega

/-- Only the projections on connections matter to `watched`. -/
theorem watched_congr (hopen : openConns t.trace = openConns s.trace)
    (hhang : Event.hangup ∈ t.trace ↔ Event.hangup ∈ s.trace) :
    watched cfg t.trace = watched cfg s.trace := by
  simp only [watched, pipeFds, hopen, hhang]

theorem Same.openConns (h : Same s t) : openConns t.trace = openConns s.trace := by
  simp only [Daemon.openConns, h.accepts, h.closes]

theorem Tracked.entry (staleTty stalePipe : ℕ → UInt8) :
    Tracked cfg (entry cfg staleTty stalePipe) where
  conns := rfl
  numbered := by
    intro k hk
    cases hk
  readfds := by
    cases h : cfg.autosample with
    | none =>
        ext fd
        simp only [Daemon.entry, h, watched, pipeFds, openConns, accepts]
        simp
        tauto
    | some a =>
        ext fd
        simp only [Daemon.entry, h, watched, pipeFds, openConns, accepts]
        simp
        tauto
  maxFd := by
    have hbase : cfg.ttyFd ≤ (if cfg.ttyFd > cfg.cmdListenFd then cfg.ttyFd else cfg.cmdListenFd) ∧
        cfg.cmdListenFd ≤ (if cfg.ttyFd > cfg.cmdListenFd then cfg.ttyFd else cfg.cmdListenFd) := by
      split <;> omega
    intro fd hfd
    cases h : cfg.autosample with
    | none =>
        simp only [Daemon.entry, h, Finset.mem_insert, Finset.mem_singleton] at hfd ⊢
        have hle := le_raiseMax_left
          (if cfg.ttyFd > cfg.cmdListenFd then cfg.ttyFd else cfg.cmdListenFd) cfg.sigFd
        have hsig := le_raiseMax_right
          (if cfg.ttyFd > cfg.cmdListenFd then cfg.ttyFd else cfg.cmdListenFd) cfg.sigFd
        omega
    | some a =>
        simp only [Daemon.entry, h, Finset.mem_insert, Finset.mem_singleton] at hfd ⊢
        set m := if cfg.ttyFd > cfg.cmdListenFd then cfg.ttyFd else cfg.cmdListenFd with hm
        have hle := le_raiseMax_left m a.writeFd
        have hpipe := le_raiseMax_right m a.writeFd
        have hle' := le_raiseMax_left (raiseMax m a.writeFd) cfg.sigFd
        have hsig := le_raiseMax_right (raiseMax m a.writeFd) cfg.sigFd
        omega

theorem Tracked.congr (h : Tracked cfg s) (hst : Same s t) : Tracked cfg t where
  conns := by rw [hst.conns, hst.openConns]; exact h.conns
  numbered := by rw [hst.closes, hst.accepted]; exact h.numbered
  readfds := by rw [hst.readfds, watched_congr hst.openConns hst.hangup]; exact h.readfds
  maxFd := by rw [hst.readfds, hst.maxFd]; exact h.maxFd

/-- A new connection is an open one: its number was never closed. -/
theorem openConns_accept (fd : ℕ) (h : ∀ k ∈ closes s.trace, k.serial < s.accepted) :
    openConns (s.trace ++ [.accept fd s.accepted]) =
      openConns s.trace ++ [⟨fd, s.accepted⟩] := by
  have hnew : (⟨fd, s.accepted⟩ : Conn) ∉ closes s.trace := fun hmem =>
    Nat.lt_irrefl _ (h _ hmem)
  have hacc : accepts [.accept fd s.accepted] = [⟨fd, s.accepted⟩] := rfl
  have hclo : closes [.accept fd s.accepted] = [] := rfl
  rw [openConns, accepts_append, closes_append, hacc, hclo, List.append_nil, List.filter_append,
    openConns, List.filter_cons_of_pos (by simpa using hnew), List.filter_nil]

/-- A closed one is not open any more. -/
theorem openConns_close (tr : List Event) (k : ℕ) :
    openConns (tr ++ [.close fd k]) = (openConns tr).filter (· ≠ ⟨fd, k⟩) := by
  have hacc : accepts [.close fd k] = [] := rfl
  have hclo : closes [.close fd k] = [⟨fd, k⟩] := rfl
  rw [openConns, accepts_append, closes_append, hacc, hclo, List.append_nil, openConns,
    List.filter_filter]
  refine List.filter_congr fun c _ => ?_
  simp [Bool.and_comm]

/-- Where no two connections share a descriptor, the first on one is the
only one. -/
theorem eraseP_eq_filter {l : List Conn} {c : Conn} (hnd : (l.map Conn.fd).Nodup) (hc : c ∈ l) :
    l.eraseP (fun k => k.fd = c.fd) = l.filter (· ≠ c) := by
  induction l with
  | nil => cases hc
  | cons k l ih =>
      rw [List.map_cons, List.nodup_cons] at hnd
      by_cases hk : k.fd = c.fd
      -- no other connection has the descriptor, so `eraseP` takes this one
      · have hkc : k = c := by
          rcases List.mem_cons.mp hc with h | h
          · exact h.symm
          · exact absurd (List.mem_map.mpr ⟨c, h, hk.symm⟩) hnd.1
        have hrest : l.filter (· ≠ c) = l := by
          refine List.filter_eq_self.mpr fun x hx => ?_
          have hne : x ≠ c := fun h => hnd.1 (List.mem_map.mpr ⟨x, hx, by rw [h, hkc]⟩)
          simpa using hne
        rw [List.eraseP_cons_of_pos (by simpa using hk),
          List.filter_cons_of_neg (by simpa using hkc), hrest]
      · have hkc : k ≠ c := fun h => hk (by rw [h])
        have hc' : c ∈ l := (List.mem_cons.mp hc).resolve_left fun h => hkc h.symm
        rw [List.eraseP_cons_of_neg (by simpa using hk),
          List.filter_cons_of_pos (by simpa using hkc), ih hnd.2 hc']

theorem Tracked.addClient {malloc : Bool} {stale : ℕ → UInt8} (h : Tracked cfg s) :
    Tracked cfg (addClient fd malloc stale s) := by
  have haccepted : (Daemon.addClient fd malloc stale s).accepted = s.accepted + 1 := by
    rw [accepted_eq, accepted_eq, Daemon.addClient, accepts_append, List.length_append]
    rfl
  have hopen := openConns_accept fd h.numbered
  have hcloses : closes (Daemon.addClient fd malloc stale s).trace = closes s.trace := by
    simp [Daemon.addClient, closes]
  constructor
  · simp only [Daemon.addClient, hopen, h.conns]
  · intro k hk
    rw [hcloses] at hk
    rw [haccepted]
    exact Nat.lt_succ_of_lt (h.numbered k hk)
  · have hhang : pipeFds cfg (Daemon.addClient fd malloc stale s).trace = pipeFds cfg s.trace := by
      simp [pipeFds, Daemon.addClient]
    rw [watched, hhang]
    ext x
    simp only [Daemon.addClient, hopen, h.readfds, watched, List.map_append, List.map_singleton,
      Finset.mem_insert, Finset.mem_union, List.mem_toFinset, List.mem_append, List.mem_singleton]
    tauto
  · intro x hx
    simp only [Daemon.addClient, Finset.mem_insert] at hx ⊢
    rcases hx with rfl | hx
    · exact le_raiseMax_right _ _
    · exact (h.maxFd x hx).trans (le_raiseMax_left _ _)

/-- The descriptors of the loop itself that `select` watches. -/
theorem mem_fds_of_mem_pipeFds {tr : List Event} {x : ℕ} (h : x ∈ pipeFds cfg tr) :
    x ∈ cfg.fds := by
  unfold pipeFds at h
  split at h
  · simp at h
  · simp only [List.mem_toFinset, List.mem_map] at h
    obtain ⟨a, ha, rfl⟩ := h
    simp only [Setup.fds, List.mem_cons, List.mem_flatMap]
    exact .inr (.inr (.inr ⟨a, ha, .inl rfl⟩))

theorem Tracked.dropClient {c : Client} (h : Tracked cfg s) (hinv : Inv cfg s)
    (hc : c.toConn ∈ s.clientLst.map Client.toConn) : Tracked cfg (dropClient c s) := by
  replace hc : c.toConn ∈ s.conns := hinv.clients.subset hc
  have haccepted : (Daemon.dropClient c s).accepted = s.accepted := by
    rw [accepted_eq, accepted_eq, Daemon.dropClient, accepts_append]
    simp [accepts]
  have hown : c.fd ∉ cfg.fds := hinv.own _ hc
  have herase : s.conns.eraseP (fun k => k.fd = c.fd) = s.conns.filter (· ≠ c.toConn) :=
    eraseP_eq_filter hinv.fds hc
  have hopen : openConns (Daemon.dropClient c s).trace =
      (openConns s.trace).filter (· ≠ c.toConn) := openConns_close s.trace c.conn
  constructor
  · rw [hopen, ← h.conns, ← herase]
    rfl
  · intro k hk
    simp only [Daemon.dropClient, closes_append] at hk
    rw [haccepted]
    rcases List.mem_append.mp hk with hk | hk
    · exact h.numbered k hk
    · rw [List.mem_singleton.mp hk]
      exact hinv.counted _ hc
  · have hhang : pipeFds cfg (Daemon.dropClient c s).trace = pipeFds cfg s.trace := by
      simp [pipeFds, Daemon.dropClient]
    have hfd : ∀ k ∈ s.conns, k ≠ c.toConn ↔ k.fd ≠ c.fd := fun k hk =>
      ⟨fun hne hfd => hne (hinv.eq_of_fd_eq hk hc hfd), fun hne heq => hne (by rw [heq]; rfl)⟩
    rw [watched, hopen, hhang]
    ext x
    simp only [Daemon.dropClient, h.readfds, watched, ← h.conns, Finset.mem_erase, Finset.mem_union,
      Finset.mem_insert, Finset.mem_singleton, List.mem_toFinset, List.mem_map, List.mem_filter,
      decide_eq_true_eq]
    constructor
    · rintro ⟨hx, (hloop | ⟨k, hk, rfl⟩) | hpipe⟩
      · exact .inl (.inl hloop)
      · exact .inl (.inr ⟨k, ⟨hk, (hfd k hk).mpr hx⟩, rfl⟩)
      · exact .inr hpipe
    · rintro ((hloop | ⟨k, ⟨hk, hne⟩, rfl⟩) | hpipe)
      · refine ⟨?_, .inl (.inl hloop)⟩
        rintro rfl
        exact hown (by simp only [Setup.fds, List.mem_cons]; tauto)
      · exact ⟨(hfd k hk).mp hne, .inl (.inr ⟨k, hk, rfl⟩)⟩
      · exact ⟨fun hx => hown (hx ▸ mem_fds_of_mem_pipeFds hpipe), .inr hpipe⟩
  · exact fun x hx => h.maxFd x (Finset.mem_of_mem_erase hx)

theorem Tracked.hangup {a : Autosample} (h : Tracked cfg s) (hinv : Inv cfg s)
    (ha : a ∈ cfg.autosample) :
    Tracked cfg
      { s with readfds := s.readfds.erase a.writeFd, trace := s.trace ++ [.hangup] } := by
  have hfds : a.writeFd ∈ cfg.fds := by
    simp only [Setup.fds, List.mem_cons, List.mem_flatMap, Option.mem_toList]
    exact .inr (.inr (.inr ⟨a, ha, .inl rfl⟩))
  have hpipe : (cfg.autosample.toList.map Autosample.writeFd).toFinset = {a.writeFd} := by
    rw [Option.mem_def.mp ha]
    rfl
  have hne : a.writeFd ≠ cfg.ttyFd ∧ a.writeFd ≠ cfg.cmdListenFd ∧ a.writeFd ≠ cfg.sigFd := by
    have hnd := cfg.nodup
    rw [Option.mem_def.mp ha] at hnd
    simp at hnd
    tauto
  have hclosed : ∀ k ∈ openConns s.trace, k.fd ≠ a.writeFd := fun k hk hfd =>
    hinv.own k (h.conns ▸ hk) (hfd ▸ hfds)
  have hopen : openConns (s.trace ++ [.hangup]) = openConns s.trace := by
    simp [openConns, accepts, closes]
  refine ⟨h.conns.trans hopen.symm, ?_, ?_, ?_⟩
  · intro k hk
    have hlt := h.numbered k (by simpa [closes] using hk)
    simpa [accepted_eq, accepts] using hlt
  · ext x
    simp only [h.readfds, watched, pipeFds, hopen, hpipe, Finset.mem_erase, Finset.mem_union,
      Finset.mem_insert, Finset.mem_singleton, List.mem_toFinset, List.mem_map, List.mem_append,
      List.mem_singleton, or_true, if_true, Finset.notMem_empty, or_false]
    constructor
    · rintro ⟨hx, hloop | hgone⟩
      · exact hloop
      · split at hgone
        · simp at hgone
        · exact absurd (Finset.mem_singleton.mp hgone) hx
    · intro hloop
      refine ⟨?_, .inl hloop⟩
      rintro rfl
      rcases hloop with (htty | hlisten | hsig) | ⟨k, hk, hfd⟩
      · exact hne.1 htty
      · exact hne.2.1 hlisten
      · exact hne.2.2 hsig
      · exact hclosed k hk hfd
  · exact fun x hx => h.maxFd x (Finset.mem_of_mem_erase hx)

/-- **Every effect keeps the records in agreement.** -/
theorem Effect.tracked (he : Effect cfg G s t) (hinv : Inv cfg s) (h : Tracked cfg s) :
    Tracked cfg t := by
  cases he with
  | inner hi => exact h.congr hi.same
  | accept stale hfresh hG => exact h.addClient
  | @serve c hc =>
      have hopen : openConns (s.trace ++ [.serve c.fd c.conn]) = openConns s.trace := by
        simp [openConns, accepts, closes]
      refine ⟨h.conns.trans hopen.symm, ?_, ?_, h.maxFd⟩
      · intro k hk
        have hlt := h.numbered k (by simpa [closes] using hk)
        simpa [accepted_eq, accepts] using hlt
      · exact h.readfds.trans (watched_congr (s := s) (t := s.log [.serve c.fd c.conn]) hopen
          (by simp)).symm
  | close hc => exact h.dropClient hinv hc
  | hangup ha => exact h.hangup hinv ha
  | ret v => exact ⟨h.conns, h.numbered, h.readfds, h.maxFd⟩

/-- **The records agree in every run.** -/
theorem Reachable.tracked (h : Reachable cfg A s) : Tracked cfg s :=
  h.invariant (fun _ _ _ => True) (fun _ _ => Tracked.entry _ _)
    (fun _ _ _ _ _ _ _ _ _ => trivial) fun _ _ hinv hu he => he.tracked hinv hu

end Daemon

end Realraum
