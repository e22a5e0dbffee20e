import Realraum.Daemon.Helpers.Replay
import Realraum.Daemon.Helpers.Tracked
import Realraum.Daemon.Helpers.Walk
/-!
# The client list, `readfds` and `max_fd` of `main_loop`

Three records of one set: the list of clients, the descriptors handed to
`select`, and the bound on them. Where every `client_add` gets its memory
they agree with the history of connections in every reachable state, and
the walk over the clients calls `nonblock_readline` on the ones that are
ready, once each.
-/

namespace Realraum

namespace Daemon

variable {cfg : Setup} {s t u : State} {e : Env} {fd : ℕ}

/-- **Every allocation for a client succeeds.** -/
def ClientsFit (_ : State) (e : Env) : Prop := e.clientMem = true

instance (s : State) (e : Env) : Decidable (ClientsFit s e) :=
  inferInstanceAs (Decidable (e.clientMem = true))

/-- Where every new client gets its memory, an effect keeps the clients
and the open connections the same. -/
theorem Effect.clients_eq (he : Effect cfg (fun _ _ malloc => malloc = true) s t)
    (h : s.clientLst.map Client.toConn = s.conns) : t.clientLst.map Client.toConn = t.conns := by
  cases he with
  | inner hi => rw [hi.same.clients, hi.same.conns, h]
  | accept stale hfresh hG =>
      simp only [addClient, clientAdd, hG, Bool.not_true, Bool.false_eq_true, if_false,
        List.map_append, h]
      rfl
  | serve => exact h
  | close => simp only [dropClient, map_clientRemove, h]
  | hangup => exact h
  | ret => exact h

/-- The clients are the open connections. -/
theorem Reachable.clients_eq (h : Reachable cfg ClientsFit s) :
    s.clientLst.map Client.toConn = s.conns :=
  h.invariant (I := fun u => u.clientLst.map Client.toConn = u.conns)
    (fun _ _ malloc => malloc = true) (fun _ _ => rfl) (fun _ _ _ _ hA _ _ _ _ => hA)
    fun _ _ _ hu he => he.clients_eq hu

/-- The clients at the client step: those of the head of the loop, and
perhaps one more, on a descriptor that was not watched. -/
theorem BeforeWalk.clients (h : BeforeWalk cfg e s u) (hs : Tracked cfg s) (hinv : Inv cfg s)
    (heq : s.clientLst.map Client.toConn = s.conns) (hfresh : e.Fresh cfg s)
    (hmem : e.clientMem = true) :
    Inv cfg u ∧ serves u.trace = serves s.trace ∧
      ∃ extra : List Conn, u.clientLst.map Client.toConn = openConns s.trace ++ extra ∧
        ∀ k ∈ extra, k.fd ∉ s.readfds := by
  obtain ⟨v, w, hv, hw, hu⟩ := h
  have hv' : Inv cfg v := hinv.congr hv.same
  rcases hw with rfl | ⟨fd, hfd, rfl⟩
  · refine ⟨hv'.congr hu.same, hu.same.serves.trans hv.same.serves, [], ?_, by simp⟩
    rw [hu.same.clients, hv.same.clients, heq, hs.conns, List.append_nil]
  · have hnew : fd ∉ cfg.fds ∧ fd ∉ v.conns.map Conn.fd := by
      rw [hv.same.conns]
      exact hfresh fd hfd
    refine ⟨(hv'.addClient hnew).congr hu.same, ?_, [⟨fd, v.accepted⟩], ?_, ?_⟩
    · rw [hu.same.serves, addClient, serves_append, hv.same.serves]
      simp [serves]
    · rw [hu.same.clients, ← hs.conns, ← heq, ← hv.same.clients]
      simp [addClient, clientAdd, hmem, Client.toConn]
    · intro k hk hmem'
      rw [List.mem_singleton.mp hk, hs.readfds, watched, ← hs.conns] at hmem'
      rcases Finset.mem_union.mp hmem' with hmem' | hpipe
      · rcases Finset.mem_union.mp hmem' with hloop | hopen
        · refine (hfresh fd hfd).1 ?_
          simp only [Finset.mem_insert, Finset.mem_singleton] at hloop
          simp only [Setup.fds, List.mem_cons]
          tauto
        · exact (hfresh fd hfd).2 (List.mem_toFinset.mp hopen)
      · exact (hfresh fd hfd).1 (mem_fds_of_mem_pipeFds hpipe)

/-- **The records agree, and each ready client is read once.** In every
reachable state the descriptors in the client list are distinct and are
the accepted connections not closed yet, in order of acceptance;
`readfds` is these, the loop's own, and the child's pipe until it is
taken out; `max_fd` bounds it. An iteration that reaches the clients and
does not end the loop calls `nonblock_readline` on the clients that are
ready, once each and in that order, and on no other. -/
theorem connections_tracked (h : Reachable cfg ClientsFit s) :
    (s.clientLst.map Client.fd).Nodup ∧
    s.clientLst.map Client.toConn = openConns s.trace ∧
    s.readfds = watched cfg s.trace ∧
    (∀ fd ∈ s.readfds, fd ≤ s.maxFd) ∧
    ∀ e readable u t, e.Fresh cfg s → ClientsFit s e → e.select = .returned readable →
      beforeClients cfg e (tmpfds s readable) s = .next u →
      loopStep cfg e s = some t → t.returnValue = 0 →
      serves t.trace =
        serves s.trace ++ (openConns s.trace).filter fun k => k.fd ∈ tmpfds s readable := by
  have hs := h.tracked
  have hinv := h.inv
  refine ⟨hinv.nodup_fd, h.clients_eq.trans hs.conns, hs.readfds, hs.maxFd, ?_⟩
  intro e readable u t hfresh hmem hselect hu hstep hret
  obtain ⟨hinv', hserves, extra, hclients, hextra⟩ :=
    (beforeWalk_of_next hu).clients hs hinv h.clients_eq hfresh hmem
  have hrest := fromClients_inners (fromClients_of_loopStep hstep hselect hu)
  have hnone : extra.filter (fun k => k.fd ∈ tmpfds s readable) = [] := by
    refine List.filter_eq_nil_iff.mpr fun k hk hready => hextra k hk ?_
    exact (Finset.mem_filter.mp (of_decide_eq_true hready)).1
  rw [hrest.same.serves, serves_serveClients u.clientLst u (fun _ hc => List.mem_map_of_mem hc)
    hinv'.nodup_fd (hrest.same.returnValue ▸ hret), hserves, hclients, List.filter_append, hnone,
    List.append_nil]

/-- A third client connects, on the descriptor of the first, and in the
same iteration the second sends a line. -/
def thirdClient : Env :=
  { Env.connect .sample 7 2 with
    select := .returned {4, 8}
    clients := fun _ => .bytesThenNothing (ascii "listen" ++ [linefeed]) }

/-- A run with two clients of which the first is gone again, and that
iteration after it: it reads the second client only. -/
theorem connections_tracked_reused :
    ∃ s t, Reachable Setup.sample ClientsFit s ∧ loopStep .sample thirdClient s = some t ∧
      s.clientLst.map Client.toConn = [⟨8, 1⟩] ∧ s.readfds = watched .sample s.trace ∧
      serves t.trace = serves s.trace ++ [⟨8, 1⟩] := by
  obtain ⟨s, hs, hp⟩ := reachable_of_replay .sample ClientsFit
    [.connect .sample 7 0, .connect .sample 8 0, .disconnect 7 1]
    (fun s => openConns s.trace = [⟨8, 1⟩] ∧ thirdClient.Fresh .sample s ∧
      (openConns s.trace).filter (fun k => k.fd ∈ tmpfds s {4, 8}) = [⟨8, 1⟩] ∧
      ((beforeClients .sample thirdClient (tmpfds s {4, 8}) s).nextAny fun _ => true) ∧
      (loopStep .sample thirdClient s).any fun t => t.returnValue = 0) (by decide)
  obtain ⟨hopen, hfresh, hready, hon, hstep⟩ := of_decide_eq_true hp
  obtain ⟨u, hu, -⟩ := Flow.exists_of_nextAny hon
  obtain ⟨t, ht, hret⟩ := (Option.any_eq_true _ _).mp hstep
  obtain ⟨-, hclients, hreadfds, -, hiter⟩ := connections_tracked hs
  refine ⟨s, t, hs, ht, hclients.trans hopen, hreadfds, ?_⟩
  rw [hiter thirdClient {4, 8} u t hfresh rfl rfl hu ht (of_decide_eq_true hret), hready]

end Daemon

end Realraum
