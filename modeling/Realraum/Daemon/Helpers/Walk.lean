import Realraum.Daemon.Helpers.Iteration
/-!
# Helpers — reaching the clients, and the walk over them

How the state at the client step comes from the state at the head of the
loop (`BeforeWalk`), and which clients the walk calls
`nonblock_readline` on. The rest of the iteration concerns no client.
-/

namespace Realraum

namespace Daemon

variable {cfg : Setup} {G : State → ℕ → Bool → Prop} {s t u w : State} {e : Env} {fds : Finset ℕ}
variable {A : State → Env → Prop}

/-- What an iteration did when it reaches the clients: at most one client
was added, and all else stayed inside. -/
def BeforeWalk (cfg : Setup) (e : Env) (s u : State) : Prop :=
  ∃ v w, Inners cfg s v ∧
    (w = v ∨ ∃ fd ∈ e.accept, w = addClient fd e.clientMem e.stale v) ∧ Inners cfg w u

theorem BeforeWalk.of_inners (h : Inners cfg s u) : BeforeWalk cfg e s u :=
  ⟨u, u, h, .inl rfl, .refl⟩

theorem BeforeWalk.tail (h : BeforeWalk cfg e s u) (h' : Inners cfg u t) :
    BeforeWalk cfg e s t := by
  obtain ⟨v, w, hv, hw, hu⟩ := h
  exact ⟨v, w, hv, hw, hu.trans h'⟩

theorem BeforeWalk.effects (h : BeforeWalk cfg e s u) (hfresh : e.Fresh cfg s) :
    Effects cfg (fun _ _ _ => True) s u := by
  obtain ⟨v, w, hv, hw, hu⟩ := h
  refine Relation.ReflTransGen.trans hv.effects (Relation.ReflTransGen.trans ?_ hu.effects)
  rcases hw with rfl | ⟨fd, hfd, rfl⟩
  · exact .refl
  · refine .single (.accept e.stale ?_ trivial)
    rw [hv.same.conns]
    exact hfresh fd hfd

theorem BeforeWalk.returnValue (h : BeforeWalk cfg e s u) : u.returnValue = s.returnValue := by
  obtain ⟨v, w, hv, hw, hu⟩ := h
  have hvw : w.returnValue = v.returnValue := by
    rcases hw with rfl | ⟨fd, -, rfl⟩ <;> rfl
  exact hu.same.returnValue.trans (hvw.trans hv.same.returnValue)

theorem autosampleStep_beforeWalk (h : BeforeWalk cfg e s u) :
    (autosampleStep cfg e fds u).Sat (BeforeWalk cfg e s) fun _ => True := by
  rw [autosampleStep]
  cases ha : cfg.autosample with
  | none => exact h
  | some a =>
      simp only
      split
      · split
        · trivial
        · split
          · exact h.tail (nonblockReadline_inners ⟨a, ha, rfl⟩ (by decide))
          · trivial
      · exact h

theorem acceptStep_beforeWalk (h : Inners cfg s u) :
    (acceptStep cfg e fds u).Sat (BeforeWalk cfg e s) fun _ => True := by
  rw [acceptStep]
  split
  · cases hfd : e.accept with
    | none => trivial
    | some fd => exact ⟨u, _, h, .inr ⟨fd, hfd, rfl⟩, .refl⟩
  · exact .of_inners h

theorem beforeClients_beforeWalk :
    (beforeClients cfg e fds s).Sat (BeforeWalk cfg e s) fun _ => True := by
  have hbefore : (beforeAccept cfg e fds s).Sat (Inners cfg s) fun _ => True :=
    (beforeAccept_sat (G := fun _ _ _ => True)).imp (fun _ h => h) fun _ _ => trivial
  exact Flow.Sat.bind (Flow.Sat.bind hbefore fun u h => acceptStep_beforeWalk h)
    fun u h => autosampleStep_beforeWalk h

/-- **Reaching the clients.** -/
theorem beforeWalk_of_next (h : beforeClients cfg e fds s = .next u) : BeforeWalk cfg e s u := by
  have hsat : (beforeClients cfg e fds s).Sat (BeforeWalk cfg e s) fun _ => True :=
    beforeClients_beforeWalk
  rw [h] at hsat
  exact hsat

/-- What follows the walk stays inside. -/
theorem fromClients_inners (h : (fromClients cfg e fds u).result = some t) :
    Inners cfg (serveClients cfg e fds u.clientLst u) t := by
  refine Flow.Sat.result (f := fromClients cfg e fds u)
    (R := Inners cfg (serveClients cfg e fds u.clientLst u)) ?_ h
  refine Flow.Sat.bind (Q := Inners cfg (serveClients cfg e fds u.clientLst u))
    (Flow.Sat.bind (Q := Inners cfg (serveClients cfg e fds u.clientLst u)) ?_ ?_) ?_
  · exact .refl
  · exact fun v hv => sendStep_sat.imp (fun _ h => hv.trans h) fun _ h => hv.trans h
  · exact fun v hv => enableStep_sat.imp (fun _ h => hv.trans h) fun _ h => hv.trans h

/-- An iteration that reaches the clients is what comes before them, the
walk and the rest. -/
theorem fromClients_of_loopStep {readable : Finset ℕ} (hstep : loopStep cfg e s = some t)
    (hselect : e.select = .returned readable)
    (hu : beforeClients cfg e (tmpfds s readable) s = .next u) :
    (fromClients cfg e (tmpfds s readable) u).result = some t := by
  have h := result_of_loopStep hstep
  rw [iteration, hselect] at h
  simp only [hu, Flow.bind_next] at h
  exact h

/-- **Whom the walk serves**: each node whose descriptor is ready, once
and in order, unless an error ends the walk. -/
theorem serves_serveClients (lst : List Client) : ∀ s : State,
    (∀ c ∈ lst, c.toConn ∈ s.clientLst.map Client.toConn) →
    (lst.map Client.fd).Nodup →
    (serveClients cfg e fds lst s).returnValue = 0 →
    serves (serveClients cfg e fds lst s).trace =
      serves s.trace ++ (lst.map Client.toConn).filter fun k => k.fd ∈ fds := by
  induction lst with
  | nil => intro s _ _ _; simp [serveClients]
  | cons c lst ih =>
      intro s hmem hnd hret
      have hc := hmem c List.mem_cons_self
      have hrest : ∀ c' ∈ lst, c'.toConn ∈ s.clientLst.map Client.toConn :=
        fun c' h => hmem c' (List.mem_cons_of_mem _ h)
      rw [List.map_cons, List.nodup_cons] at hnd
      rcases serveClients_cons cfg e fds c lst s with ⟨hidle, heq⟩ | ⟨hready, r, hr, hcases⟩
      · rw [heq] at hret ⊢
        rw [ih s hrest hnd.2 hret, List.map_cons, List.filter_cons_of_neg]
        simp [Client.toConn, hidle]
      · have hin : Inners cfg (s.log [.serve c.fd c.conn]) r.2 :=
          hr ▸ nonblockReadline_inners (p := .client c.conn) hc (by simp)
        have hserves : serves r.2.trace = serves s.trace ++ [c.toConn] := by
          rw [hin.same.serves]
          simp [serves, Client.toConn]
        have hclients : r.2.clientLst.map Client.toConn = s.clientLst.map Client.toConn :=
          hin.same.clients
        have hfilter : ((c :: lst).map Client.toConn).filter (fun k => k.fd ∈ fds) =
            c.toConn :: (lst.map Client.toConn).filter fun k => k.fd ∈ fds := by
          rw [List.map_cons, List.filter_cons_of_pos]
          exact decide_eq_true hready
        rcases hcases with ⟨-, heq⟩ | ⟨-, heq⟩ | ⟨-, hne, heq⟩
        · rw [heq] at hret ⊢
          rw [ih (dropClient c r.2) ?_ hnd.2 hret, hfilter]
          · rw [dropClient, serves_append, hserves]
            simp [serves]
          · intro c' h'
            exact mem_clientLst_dropClient (hclients ▸ hrest c' h') fun hfd =>
              hnd.1 (List.mem_map.mpr ⟨c', h', hfd⟩)
        · rw [heq] at hret ⊢
          rw [ih r.2 (fun c' h' => hclients ▸ hrest c' h') hnd.2 hret, hfilter, hserves,
            List.append_assoc, List.singleton_append]
        · rw [heq] at hret
          exact absurd hret hne

end Daemon

end Realraum
