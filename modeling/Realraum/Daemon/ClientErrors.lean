import Realraum.Daemon.Helpers.Calls
import Realraum.Daemon.Helpers.Replay
/-!
# What a client's socket can do to `main_loop`

`nonblock_readline` has one return code for three things: `2` for a
client that is gone, `0`, and the `-1` of any other error of `read()`,
which the walk over the clients takes for the end of the daemon. The
result says for which inputs the client step keeps the loop running, and
that it does nothing then but serve the clients that are ready and drop
those that are gone.
-/

namespace Realraum

namespace Daemon

variable {cfg : Setup} {A : State → Env → Prop} {s t u : State} {e : Env} {fds : Finset ℕ}
variable {c : Client} {pre post lst : List Client}

/-- The client is dropped in the walk. -/
def Client.Dropped (e : Env) (fds : Finset ℕ) (c : Client) : Prop :=
  c.fd ∈ fds ∧ c.Gone (e.clients c.fd)

instance : Decidable (c.Dropped e fds) := inferInstanceAs (Decidable (_ ∧ _))

/-- What the walk makes of a client's node. -/
def Client.after (e : Env) (fds : Finset ℕ) (c : Client) : Client :=
  if c.fd ∈ fds then c.served (e.clients c.fd) else c

/-- **The client step keeps the loop running and to itself**: it drops
the clients that are gone and leaves the others in the list, changed only
where they were ready; the queue keeps its entries, and is as it was
unless a line was completed. -/
structure KeepsRunning (e : Env) (fds : Finset ℕ) (u t : State) : Prop where
  running : t.returnValue = 0
  clients : t.clientLst =
    (u.clientLst.filter fun c => ¬ c.Dropped e fds).map (Client.after e fds)
  queue : u.cmdQ <+: t.cmdQ
  quiet : (∀ c ∈ u.clientLst, c.fd ∈ fds → ¬ Completes c.buffer (e.clients c.fd).bytes) →
    t.cmdQ = u.cmdQ

/-- What the rest of the walk does, with the nodes behind it in front of
the list. -/
structure Walked (e : Env) (fds : Finset ℕ) (pre lst : List Client) (s t : State) : Prop where
  clients : t.clientLst =
    pre ++ (lst.filter fun c => ¬ c.Dropped e fds).map (Client.after e fds)
  queue : s.cmdQ <+: t.cmdQ
  quiet : (∀ c ∈ lst, c.fd ∈ fds → ¬ Completes c.buffer (e.clients c.fd).bytes) →
    t.cmdQ = s.cmdQ

/-- A node that was dropped, and the rest of the walk. -/
theorem Walked.dropped (h : Walked e fds pre lst u t) (hdrop : c.Dropped e fds)
    (hquiet : u.cmdQ = s.cmdQ) : Walked e fds pre (c :: lst) s t where
  clients := by
    rw [h.clients, List.filter_cons_of_neg]
    simpa using hdrop
  queue := hquiet ▸ h.queue
  quiet hno := (h.quiet fun d hd => hno d (List.mem_cons_of_mem _ hd)).trans hquiet

/-- A node that stays, and the rest of the walk. -/
theorem Walked.kept (h : Walked e fds (pre ++ [c.after e fds]) lst u t)
    (hkeep : ¬ c.Dropped e fds) (hqueue : s.cmdQ <+: u.cmdQ)
    (hquiet : (c.fd ∈ fds → ¬ Completes c.buffer (e.clients c.fd).bytes) → u.cmdQ = s.cmdQ) :
    Walked e fds pre (c :: lst) s t where
  clients := by
    rw [h.clients, List.filter_cons_of_pos, List.map_cons, List.append_assoc,
      List.singleton_append]
    simpa using hkeep
  queue := hqueue.trans h.queue
  quiet hno :=
    (h.quiet fun d hd => hno d (List.mem_cons_of_mem _ hd)).trans
      (hquiet (hno c List.mem_cons_self))

/-- **The walk, client by client.** It ends with the return value `0`
just in case every ready client reads fine, and has done the rest
then. -/
theorem serveClients_walked (e : Env) (fds : Finset ℕ) (lst : List Client) :
    ∀ (s : State) (pre : List Client),
    s.clientLst = pre ++ lst → Inv cfg s → (∀ c ∈ lst, c.buffer.offset < sizeofBuf) →
    s.returnValue = 0 →
    ((serveClients cfg e fds lst s).returnValue = 0 ↔
      ∀ c ∈ lst, c.fd ∈ fds → c.ReadsFine cfg.opt (e.clients c.fd)) ∧
    ((serveClients cfg e fds lst s).returnValue = 0 →
      Walked e fds pre lst s (serveClients cfg e fds lst s)) := by
  induction lst with
  | nil =>
      intro s pre hlst _ _ hret
      rw [serveClients]
      refine ⟨by simp [hret], fun _ => ⟨by simpa using hlst, List.prefix_rfl, fun _ => rfl⟩⟩
  | cons c lst ih =>
      intro s pre hlst hinv hbuf hret
      have hb := hbuf c List.mem_cons_self
      have hbuf' : ∀ c ∈ lst, c.buffer.offset < sizeofBuf :=
        fun d hd => hbuf d (List.mem_cons_of_mem _ hd)
      rcases serveClients_cons cfg e fds c lst s with ⟨hidle, heq⟩ | ⟨hready, r, hr, hcases⟩
      · have hafter : c.after e fds = c := if_neg hidle
        have hlst' : s.clientLst = (pre ++ [c.after e fds]) ++ lst := by
          rw [hlst, hafter, List.append_assoc, List.singleton_append]
        obtain ⟨hiff, hwalked⟩ := ih s _ hlst' hinv hbuf' hret
        rw [heq]
        refine ⟨hiff.trans ?_, fun h => (hwalked h).kept (fun hdrop => hidle hdrop.1)
          List.prefix_rfl fun _ => rfl⟩
        rw [List.forall_mem_cons]
        exact (and_iff_right fun h => absurd h hidle).symm
      · obtain ⟨hc, hinv', hin, hinvr, hnodes⟩ := serve_call hinv hlst (e.clients c.fd)
        have htwo : r.1 = 2 ↔ c.Gone (e.clients c.fd) := hr ▸ call_eq_two hinv' hc hb
        have hzero : r.1 = 0 ↔
            c.ReadsFine cfg.opt (e.clients c.fd) ∧ ¬ c.Gone (e.clients c.fd) :=
          hr ▸ call_eq_zero hinv' hc hb
        have hcmdQ : s.cmdQ <+: r.2.cmdQ ∧
            (¬ Completes c.buffer (e.clients c.fd).bytes → r.2.cmdQ = s.cmdQ) :=
          hr ▸ call_cmdQ hinv' hc hb
        obtain ⟨hqueue, hquiet⟩ := hcmdQ
        rw [hr] at hin hinvr hnodes
        have hretr : r.2.returnValue = 0 := hin.same.returnValue.trans hret
        rcases hcases with ⟨hr2, heq⟩ | ⟨hr0, heq⟩ | ⟨hr2, hr0, heq⟩
        · -- it is gone: its input ran dry, so nothing was queued on its behalf
          have hgone := htwo.mp hr2
          have hfine : c.ReadsFine cfg.opt (e.clients c.fd) :=
            ⟨fun _ => hgone.2.elim .inl fun h => .inr (.inl h),
              fun hcomp => absurd hcomp.1 hgone.1.1⟩
          have hnot : ¬ Completes c.buffer (e.clients c.fd).bytes :=
            fun hcomp => hgone.1.1 hcomp.1
          have hdrop := dropClient_clientLst (c := c) hinvr hnodes (c.served_fd _)
          obtain ⟨hiff, hwalked⟩ := ih (dropClient c r.2) pre hdrop hinvr.dropClient hbuf' hretr
          rw [heq]
          refine ⟨hiff.trans ?_, fun h => (hwalked h).dropped ⟨hready, hgone⟩ (hquiet hnot)⟩
          rw [List.forall_mem_cons]
          exact (and_iff_right fun _ => hfine).symm
        · obtain ⟨hfine, hstays⟩ := hzero.mp hr0
          have hafter : c.after e fds = c.served (e.clients c.fd) := if_pos hready
          have hnodes' : r.2.clientLst = (pre ++ [c.after e fds]) ++ lst := by
            rw [hnodes, hafter, List.append_assoc, List.singleton_append]
          obtain ⟨hiff, hwalked⟩ := ih r.2 _ hnodes' hinvr hbuf' hretr
          rw [heq]
          refine ⟨hiff.trans ?_, fun h => (hwalked h).kept (fun hdrop => hstays hdrop.2) hqueue
            fun hno => hquiet (hno hready)⟩
          rw [List.forall_mem_cons]
          exact (and_iff_right fun _ => hfine).symm
        · -- the return value that ends the walk ends the daemon
          rw [heq]
          refine ⟨⟨fun h => absurd h hr0, fun h => ?_⟩, fun h => absurd h hr0⟩
          have hfine := h c List.mem_cons_self hready
          exact absurd (hzero.mpr ⟨hfine, fun hgone => hr2 (htwo.mpr hgone)⟩) hr0

/-- **When a client's socket leaves the daemon running.** From every
reachable state the client step keeps the loop running, and to itself,
just in case every ready client reads fine: a `read()` that gives no byte
tells the end of the stream, `EBADF` or `EAGAIN`, and a completed request
gets the memory for its entry. -/
theorem keepsRunning_iff {readable : Finset ℕ} (h : Reachable cfg A s) (hret : s.returnValue = 0)
    (hfresh : e.Fresh cfg s) (hu : beforeClients cfg e (tmpfds s readable) s = .next u) :
    KeepsRunning e (tmpfds s readable) u
        (serveClients cfg e (tmpfds s readable) u.clientLst u) ↔
      ∀ c ∈ u.clientLst, c.fd ∈ tmpfds s readable → c.ReadsFine cfg.opt (e.clients c.fd) := by
  have hwalk := beforeWalk_of_next hu
  have heff := hwalk.effects hfresh
  have hframed := heff.framed h.inv h.framed
  obtain ⟨hiff, hwalked⟩ := serveClients_walked e (tmpfds s readable) u.clientLst u [] rfl
    (heff.inv h.inv) (fun c hc => (hframed.clients c hc).1) (hwalk.returnValue.trans hret)
  constructor
  · exact fun hk => hiff.mp hk.running
  · intro hfine
    have hrunning := hiff.mpr hfine
    obtain ⟨hclients, hqueue, hquiet⟩ := hwalked hrunning
    exact ⟨hrunning, hclients, hqueue, hquiet⟩

/-- The client on this descriptor sends nothing, and its `read()` fails
in this way. -/
def Env.readFails (fd : ℕ) (errno : Errno) : Env :=
  { Env.idle 1 with
    select := .returned {fd}
    clients := fun _ => ⟨[], .error errno, .plenty⟩ }

/-- A client whose descriptor is bad: the other one stays. -/
theorem keepsRunning_iff_badf :
    ∃ s u, Reachable Setup.sample (fun _ _ => True) s ∧
      beforeClients .sample (.readFails 7 .badf) (tmpfds s {7}) s = .next u ∧
      u.clientLst.map Client.fd = [7, 8] ∧
      KeepsRunning (.readFails 7 .badf) (tmpfds s {7}) u
        (serveClients .sample (.readFails 7 .badf) (tmpfds s {7}) u.clientLst u) := by
  obtain ⟨s, hs, hp⟩ := reachable_of_replay .sample (fun _ _ => True)
    [.connect .sample 7 0, .connect .sample 8 0]
    (fun s => s.returnValue = 0 ∧
      (beforeClients .sample (.readFails 7 .badf) (tmpfds s {7}) s).nextAny
        fun u => u.clientLst.map Client.fd = [7, 8]) (by decide)
  obtain ⟨hret, hnext⟩ := of_decide_eq_true hp
  obtain ⟨u, hu, hfds⟩ := Flow.exists_of_nextAny hnext
  have hfresh : (Env.readFails 7 .badf).Fresh .sample s := fun fd h => by cases h
  refine ⟨s, u, hs, hu, of_decide_eq_true hfds, (keepsRunning_iff hs hret hfresh hu).mpr ?_⟩
  exact fun c _ _ => ⟨fun _ => .inr (.inl rfl), fun hcomp => absurd hcomp.1 List.not_mem_nil⟩

/-- **One reset connection ends the daemon.** Two clients are connected;
the `read()` on the first gives `ECONNRESET`, and `main_loop` is over. -/
theorem keepsRunning_fails_connreset :
    ∃ s t, Reachable Setup.sample (fun _ _ => True) s ∧ s.clientLst.map Client.fd = [7, 8] ∧
      s.returnValue = 0 ∧ loopStep .sample (.readFails 7 .connreset) s = some t ∧
      t.returnValue = -1 := by
  obtain ⟨s, hs, hp⟩ := reachable_of_replay .sample (fun _ _ => True)
    [.connect .sample 7 0, .connect .sample 8 0]
    (fun s => s.clientLst.map Client.fd = [7, 8] ∧ s.returnValue = 0 ∧
      (loopStep .sample (.readFails 7 .connreset) s).any fun t => t.returnValue = -1) (by decide)
  obtain ⟨hfds, hret, hstep⟩ := of_decide_eq_true hp
  obtain ⟨t, ht, hend⟩ := (Option.any_eq_true _ _).mp hstep
  exact ⟨s, t, hs, hfds, hret, ht, of_decide_eq_true hend⟩

end Daemon

end Realraum
