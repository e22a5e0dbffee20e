import Realraum.Daemon.Helpers.Effects
import Mathlib.Data.List.Nodup
import Mathlib.Data.List.Pairwise
/-!
# Helpers — descriptors and connections

What stays inside one descriptor set leaves the connections, the clients'
names and `readfds` alone (`Inner.same`). The invariant `Inv` ties the
client list to the kernel's open connections, in every run; with it the
walk over the clients is a sequence of effects, and so is the iteration
(`iteration_effects`).
-/

namespace Realraum

namespace Daemon

variable {cfg : Setup} {G : State → ℕ → Bool → Prop} {s t u : State} {p : Port} {fd : ℕ}

/-- The connections and the descriptors are as they were. -/
structure Same (s t : State) : Prop where
  conns : t.conns = s.conns
  clients : t.clientLst.map Client.toConn = s.clientLst.map Client.toConn
  readfds : t.readfds = s.readfds
  maxFd : t.maxFd = s.maxFd
  returnValue : t.returnValue = s.returnValue
  accepts : accepts t.trace = accepts s.trace
  closes : closes t.trace = closes s.trace
  serves : serves t.trace = serves s.trace
  hangup : Event.hangup ∈ t.trace ↔ Event.hangup ∈ s.trace

theorem Same.refl (s : State) : Same s s :=
  ⟨rfl, rfl, rfl, rfl, rfl, rfl, rfl, rfl, Iff.rfl⟩

theorem Same.trans (h : Same s t) (h' : Same t u) : Same s u where
  conns := h'.conns.trans h.conns
  clients := h'.clients.trans h.clients
  readfds := h'.readfds.trans h.readfds
  maxFd := h'.maxFd.trans h.maxFd
  returnValue := h'.returnValue.trans h.returnValue
  accepts := h'.accepts.trans h.accepts
  closes := h'.closes.trans h.closes
  serves := h'.serves.trans h.serves
  hangup := h'.hangup.trans h.hangup

theorem Same.accepted (h : Same s t) : t.accepted = s.accepted := by
  rw [accepted_eq, accepted_eq, h.accepts]

/-- A change of the history alone, by events of no connection. -/
theorem Same.of_log {es : List Event} (ha : Daemon.accepts es = []) (hc : Daemon.closes es = [])
    (hs : Daemon.serves es = []) (hh : Event.hangup ∉ es) : Same s (s.log es) where
  conns := rfl
  clients := rfl
  readfds := rfl
  maxFd := rfl
  returnValue := rfl
  accepts := by simp [ha]
  closes := by simp [hc]
  serves := by simp [hs]
  hangup := by simp [hh]

theorem Same.of_setBuffer {b : ReadBuffer} : Same s (s.setBuffer p b) := by
  constructor <;> simp

theorem Same.of_setListeners {f : Listeners → Listeners} : Same s (s.setListeners fd f) := by
  constructor <;> simp

theorem Same.of_popCmd {expired : Bool} : Same s (s.popCmd expired) := by
  rw [State.popCmd]
  split
  · exact Same.refl s
  · constructor <;> simp [Daemon.accepts, Daemon.closes, Daemon.serves]

theorem Same.of_sendAnswer {text : CStr} : Same s (s.sendAnswer text) := by
  rw [State.sendAnswer]
  split
  · exact Same.refl s
  · exact Same.of_log rfl rfl rfl (by simp)

theorem Heard.same (h : Heard cfg s t) : Same s t := by
  cases h with
  | @read p fd xs x b es hp hne h hx =>
      obtain rfl : es = (readLoop p (s.buffer p) xs).2.2 := by rw [h]
      exact Same.of_setBuffer.trans
        (Same.of_log accepts_readLoop closes_readLoop serves_readLoop hangup_readLoop)
  | @line p fd xs b es hp hne h =>
      obtain rfl : es = (readLoop p (s.buffer p) xs).2.2 := by rw [h]
      refine Same.of_setBuffer.trans ((Same.of_log ?_ ?_ ?_ ?_).trans Same.of_setListeners)
      · rw [accepts_append, accepts_readLoop]; rfl
      · rw [closes_append, closes_readLoop]; rfl
      · rw [serves_append, serves_readLoop]; rfl
      · simp [hangup_readLoop]
  | note h =>
      exact Same.of_log (accepts_of_inert h) (closes_of_inert h) (serves_of_inert h)
        fun hmem => h _ hmem
  | push hp hr hid => constructor <;> simp [Daemon.accepts, Daemon.closes, Daemon.serves]

/-- **What happens inside one descriptor set leaves it alone.** -/
theorem Inner.same (h : Inner cfg s t) : Same s t := by
  cases h with
  | heard h => exact h.same
  | @ttyRead xs x b es h hx =>
      obtain rfl : es = (readLoop .tty s.ttyBuffer xs).2.2 := by rw [h]
      exact Same.of_setBuffer.trans
        (Same.of_log accepts_readLoop closes_readLoop serves_readLoop hangup_readLoop)
  | @ttyLine xs b b' es es' h h' =>
      obtain rfl : es = (readLoop .tty s.ttyBuffer xs).2.2 := by rw [h]
      obtain rfl : es' = (endTtyLine b).2 := by rw [h']
      refine Same.of_setBuffer.trans (Same.of_log ?_ ?_ ?_ ?_)
      · rw [accepts_append, accepts_append, accepts_readLoop,
          Daemon.accepts, filterMap_endTtyLine b fun _ => rfl]
        rfl
      · rw [closes_append, closes_append, closes_readLoop,
          Daemon.closes, filterMap_endTtyLine b fun _ => rfl]
        rfl
      · rw [serves_append, serves_append, serves_readLoop,
          Daemon.serves, filterMap_endTtyLine b fun _ => rfl]
        rfl
      · simp [hangup_readLoop, hangup_endTtyLine]
  | answer text => exact Same.of_sendAnswer
  | pop expired => exact Same.of_popCmd
  | write hq hc now bytes => constructor <;> simp [Daemon.accepts, Daemon.closes, Daemon.serves]
  | enabled b => exact ⟨rfl, rfl, rfl, rfl, rfl, rfl, rfl, rfl, Iff.rfl⟩

theorem Inners.same (h : Inners cfg s t) : Same s t := by
  induction h with
  | refl => exact Same.refl s
  | tail _ h ih => exact ih.trans h.same

/-! ## The invariant of connections -/

/-- **Connections and clients.** No two open connections share a
descriptor, none has one of the loop's own, they are numbered in order of
acceptance, and the clients are some of them, in that order. -/
structure Inv (cfg : Setup) (s : State) : Prop where
  fds : (s.conns.map Conn.fd).Nodup
  own : ∀ k ∈ s.conns, k.fd ∉ cfg.fds
  serials : s.conns.Pairwise fun k l => k.serial < l.serial
  counted : ∀ k ∈ s.conns, k.serial < s.accepted
  clients : (s.clientLst.map Client.toConn).Sublist s.conns

theorem Inv.entry (staleTty stalePipe : ℕ → UInt8) : Inv cfg (entry cfg staleTty stalePipe) := by
  have hconns : (Daemon.entry cfg staleTty stalePipe).conns = [] := rfl
  have hlst : (Daemon.entry cfg staleTty stalePipe).clientLst = [] := rfl
  constructor <;> simp [hconns, hlst]

theorem Inv.congr (h : Inv cfg s) (hst : Same s t) : Inv cfg t where
  fds := by rw [hst.conns]; exact h.fds
  own := by rw [hst.conns]; exact h.own
  serials := by rw [hst.conns]; exact h.serials
  counted := by rw [hst.conns, hst.accepted]; exact h.counted
  clients := by rw [hst.conns, hst.clients]; exact h.clients

/-- Two open connections on one descriptor are the same. -/
theorem Inv.eq_of_fd_eq (h : Inv cfg s) {k l : Conn} (hk : k ∈ s.conns) (hl : l ∈ s.conns)
    (hfd : k.fd = l.fd) : k = l :=
  List.inj_on_of_nodup_map h.fds hk hl hfd

/-- A client's connection is open. -/
theorem Inv.toConn_mem (h : Inv cfg s) {c : Client} (hc : c ∈ s.clientLst) :
    c.toConn ∈ s.conns :=
  h.clients.subset (List.mem_map_of_mem hc)

/-- No two clients share a descriptor. -/
theorem Inv.nodup_fd (h : Inv cfg s) : (s.clientLst.map Client.fd).Nodup := by
  have hsub := h.fds.sublist (h.clients.map Conn.fd)
  rwa [List.map_map] at hsub

/-- And no two one number. -/
theorem Inv.nodup_conn (h : Inv cfg s) : (s.clientLst.map Client.conn).Nodup := by
  have hsub := h.clients.map Conn.serial
  rw [List.map_map] at hsub
  refine List.Nodup.sublist hsub ?_
  exact List.pairwise_map.mpr (h.serials.imp fun hlt => Nat.ne_of_lt hlt)

/-- The clients without the first on a descriptor. -/
theorem map_clientRemove (lst : List Client) (fd : ℕ) :
    (clientRemove lst fd).map Client.toConn =
      (lst.map Client.toConn).eraseP fun k => k.fd = fd := by
  rw [clientRemove, List.eraseP_map]
  rfl

/-- A removal leaves the nodes with other descriptors. -/
theorem mem_clientLst_dropClient {c : Client} {k : Conn}
    (hk : k ∈ s.clientLst.map Client.toConn) (hne : k.fd ≠ c.fd) :
    k ∈ (dropClient c s).clientLst.map Client.toConn := by
  rw [dropClient, map_clientRemove]
  exact (List.mem_eraseP_of_neg (by simpa using hne)).mpr hk

theorem Inv.addClient {malloc : Bool} {stale : ℕ → UInt8} (h : Inv cfg s)
    (hfresh : fd ∉ cfg.fds ∧ fd ∉ s.conns.map Conn.fd) :
    Inv cfg (addClient fd malloc stale s) := by
  have haccepted : (Daemon.addClient fd malloc stale s).accepted = s.accepted + 1 := by
    rw [accepted_eq, accepted_eq, Daemon.addClient, accepts_append, List.length_append]
    rfl
  have hconns : (Daemon.addClient fd malloc stale s).conns = s.conns ++ [⟨fd, s.accepted⟩] := rfl
  constructor
  · rw [hconns, List.map_append, List.nodup_append]
    refine ⟨h.fds, List.nodup_singleton _, ?_⟩
    intro x hx y hy hxy
    rw [hxy, List.mem_singleton.mp hy] at hx
    exact hfresh.2 hx
  · rw [hconns]
    intro k hk
    rcases List.mem_append.mp hk with hk | hk
    · exact h.own k hk
    · rw [List.mem_singleton.mp hk]; exact hfresh.1
  · rw [hconns, List.pairwise_append]
    refine ⟨h.serials, List.pairwise_singleton _ _, ?_⟩
    intro k hk l hl
    rw [List.mem_singleton.mp hl]
    exact h.counted k hk
  · rw [hconns, haccepted]
    intro k hk
    rcases List.mem_append.mp hk with hk | hk
    · exact Nat.lt_succ_of_lt (h.counted k hk)
    · rw [List.mem_singleton.mp hk]; exact Nat.lt_succ_self _
  · simp only [Daemon.addClient, clientAdd]
    split
    · exact h.clients.trans (List.sublist_append_left _ _)
    · rw [List.map_append]
      exact h.clients.append (List.Sublist.refl _)

theorem Inv.dropClient {c : Client} (h : Inv cfg s) : Inv cfg (dropClient c s) := by
  have haccepted : (Daemon.dropClient c s).accepted = s.accepted := by
    rw [accepted_eq, accepted_eq, Daemon.dropClient, accepts_append]
    simp [accepts]
  have hsub : (Daemon.dropClient c s).conns.Sublist s.conns := List.eraseP_sublist
  constructor
  · exact h.fds.sublist (hsub.map _)
  · exact fun k hk => h.own k (hsub.subset hk)
  · exact h.serials.sublist hsub
  · rw [haccepted]
    exact fun k hk => h.counted k (hsub.subset hk)
  · simp only [Daemon.dropClient]
    rw [map_clientRemove]
    exact h.clients.eraseP

/-- **Every effect keeps the invariant.** -/
theorem Effect.inv (h : Inv cfg s) (he : Effect cfg G s t) : Inv cfg t := by
  cases he with
  | inner hi => exact h.congr hi.same
  | accept stale hfresh hG => exact h.addClient hfresh
  | @serve c hc =>
      have haccepted : (s.log [.serve c.fd c.conn]).accepted = s.accepted := by
        simp [accepted_eq, accepts]
      exact ⟨h.fds, h.own, h.serials, fun k hk => haccepted ▸ h.counted k hk, h.clients⟩
  | close hc => exact h.dropClient
  | hangup ha =>
      refine ⟨h.fds, h.own, h.serials, fun k hk => ?_, h.clients⟩
      have hlt := h.counted k hk
      simpa [accepted_eq, accepts] using hlt
  | ret v => exact ⟨h.fds, h.own, h.serials, h.counted, h.clients⟩

theorem Effects.inv (he : Effects cfg G s t) (h : Inv cfg s) : Inv cfg t :=
  he.invariant h fun _ _ hu hv => hv.inv hu

end Daemon

end Realraum
