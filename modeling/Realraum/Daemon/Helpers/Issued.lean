import Realraum.Daemon.Helpers.Dispatching
import Realraum.Daemon.Helpers.Firmware
import Realraum.Daemon.Helpers.Tracked
/-!
# Helpers — whom an answer reaches

The descriptors in the queue lead to the connections their requests were
read on, or nowhere (`Issued`), as long as no connection is given a
descriptor that stands in the queue. That cannot happen before a first
connection was closed.
-/

namespace Realraum

namespace Daemon

variable {cfg : Setup} {G G' : State → ℕ → Bool → Prop} {A : State → Env → Prop} {s t : State}
variable {fd : ℕ} {es tr : List Event} {r : Request} {conn : Option ℕ} {text : CStr} {p : Port}

/-- The descriptors in the queue lead to the connections they were taken
from, or nowhere, and so did those of every answer. -/
structure Issued (s : State) : Prop where
  queue : ∀ c ∈ s.cmdQ, s.connAt c.fd = issuerConn c.toRequest s.conns
  answers : AnswersReachIssuer s.trace

theorem Issued.entry (staleTty stalePipe : ℕ → UInt8) : Issued (entry cfg staleTty stalePipe) where
  queue c hc := (List.not_mem_nil hc).elim
  answers past r conn text hpre := absurd (List.prefix_nil.mp hpre) (by simp)

/-! ## Answers in the history -/

theorem AnswersReachIssuer.append (h : AnswersReachIssuer tr)
    (hes : ∀ r conn text, Event.answer r conn text ∉ es) : AnswersReachIssuer (tr ++ es) := by
  induction es using List.reverseRecOn with
  | nil => rwa [List.append_nil]
  | append_singleton es x ih =>
      have hes' : ∀ r conn text, Event.answer r conn text ∉ es :=
        fun r conn text hmem => hes r conn text (List.mem_append_left _ hmem)
      intro past r conn text hpre
      rw [← List.append_assoc] at hpre
      rcases List.prefix_concat_iff.mp hpre with heq | hpre
      · have hlast := (List.append_inj' heq rfl).2
        refine absurd ?_ (hes r conn text)
        rw [List.singleton_inj.mp hlast]
        simp
      · exact ih hes' past r conn text hpre

theorem AnswersReachIssuer.answer (h : AnswersReachIssuer tr)
    (hconn : conn = issuerConn r (openConns tr)) :
    AnswersReachIssuer (tr ++ [.answer r conn text]) := by
  intro past r' conn' text' hpre
  rcases List.prefix_concat_iff.mp hpre with heq | hpre
  · obtain ⟨rfl, hlast⟩ := List.append_inj' heq rfl
    cases hlast
    exact hconn
  · exact h past r' conn' text' hpre

theorem answer_notMem_readLoop {p : Port} {b : ReadBuffer} {xs : List UInt8} :
    ∀ r conn text, Event.answer r conn text ∉ (readLoop p b xs).2.2 := fun r conn text he => by
  obtain ⟨i, h | ⟨x, h⟩, -⟩ := readLoop_events xs b _ he <;> cases h

theorem answer_notMem_endTtyLine (b : ReadBuffer) :
    ∀ r conn text, Event.answer r conn text ∉ (endTtyLine b).2 := fun r conn text he => by
  obtain ⟨i, -, h⟩ := endTtyLine_events b _ he
  cases h

/-! ## What keeps the invariant -/

/-- Where no connection comes or goes, nothing is answered and no request
is new, nothing changes. -/
theorem Issued.congr (h : Issued s) (es : List Event)
    (hes : ∀ r conn text, Event.answer r conn text ∉ es) (ht : t.trace = s.trace ++ es)
    (hconns : t.conns = s.conns) (hq : ∀ c ∈ t.cmdQ, ∃ d ∈ s.cmdQ, d.toRequest = c.toRequest) :
    Issued t where
  queue c hc := by
    obtain ⟨d, hd, heq⟩ := hq c hc
    have hfd : d.fd = c.fd := congrArg Request.fd heq
    rw [State.connAt, hconns, ← hfd, ← heq]
    exact h.queue d hd
  answers := by
    rw [ht]
    exact h.answers.append hes

/-- The open connection with a descriptor. -/
theorem Inv.connAt_of_mem (h : Inv cfg s) {k : Conn} (hk : k ∈ s.conns) :
    s.connAt k.fd = some k.serial := by
  have hfound : (s.conns.find? fun l => l.fd = k.fd).isSome := by
    rw [List.find?_isSome]
    exact ⟨k, hk, by simp⟩
  obtain ⟨l, hl⟩ := Option.isSome_iff_exists.mp hfound
  have hfd : l.fd = k.fd := by simpa using List.find?_some hl
  rw [State.connAt, hl, h.eq_of_fd_eq (List.mem_of_find?_eq_some hl) hk hfd]
  rfl

/-- A descriptor no connection has leads nowhere. -/
theorem connAt_eq_none (h : ∀ k ∈ s.conns, k.fd ≠ fd) : s.connAt fd = none := by
  rw [State.connAt, List.find?_eq_none.mpr fun k hk => by simpa using h k hk]
  rfl

/-- A port is read on a descriptor of the loop's own, or is an open
connection. -/
theorem Inv.feeds_cases (h : Inv cfg s) (hp : s.Feeds cfg p fd) :
    (fd ∈ cfg.fds ∧ ∀ k, p ≠ .client k) ∨ ∃ k, p = .client k ∧ (⟨fd, k⟩ : Conn) ∈ s.conns := by
  cases p with
  | tty =>
      rw [show fd = cfg.ttyFd from hp]
      exact .inl ⟨by simp [Setup.fds], by simp⟩
  | autosample =>
      obtain ⟨a, ha, rfl⟩ := hp
      refine .inl ⟨?_, by simp⟩
      simp only [Setup.fds, List.mem_cons, List.mem_flatMap, Option.mem_toList]
      exact .inr (.inr (.inr ⟨a, ha, .inl rfl⟩))
  | client k => exact .inr ⟨k, rfl, h.clients.subset hp⟩

/-- **A request is queued with the descriptor of its connection.** -/
theorem Inv.connAt_of_feeds (h : Inv cfg s) (hp : s.Feeds cfg r.port r.fd) :
    s.connAt r.fd = issuerConn r s.conns := by
  rw [issuerConn]
  rcases h.feeds_cases hp with ⟨hown, hport⟩ | ⟨k, hport, hopen⟩
  · rw [connAt_eq_none fun k hk heq => h.own k hk (heq ▸ hown)]
    cases hr : r.port with
    | tty => rfl
    | autosample => rfl
    | client k => exact absurd hr (hport k)
  · rw [hport]
    simp only [if_pos hopen]
    exact h.connAt_of_mem hopen

/-- **A connection that is closed takes its descriptor with it.** -/
theorem connAt_dropClient {c : Client} (h : Inv cfg s) (hopen : c.toConn ∈ s.conns)
    (hr : s.connAt r.fd = issuerConn r s.conns) :
    (dropClient c s).connAt r.fd = issuerConn r (dropClient c s).conns := by
  have hconns : (dropClient c s).conns = s.conns.filter (· ≠ c.toConn) :=
    eraseP_eq_filter h.fds hopen
  have hmem : ∀ k, k ∈ (dropClient c s).conns ↔ k ∈ s.conns ∧ k.fd ≠ c.fd := fun k => by
    rw [hconns, List.mem_filter, decide_eq_true_eq]
    refine and_congr_right fun hk => not_congr ⟨fun heq => by rw [heq]; rfl, fun hfd => ?_⟩
    exact h.eq_of_fd_eq hk hopen hfd
  -- the descriptor that is closed leads nowhere now, the others where they led
  by_cases hfd : r.fd = c.fd
  · have hnone : (dropClient c s).connAt r.fd = none :=
      connAt_eq_none fun k hk heq => ((hmem k).mp hk).2 (heq.trans hfd)
    rw [hnone, issuerConn]
    cases r.port with
    | tty => rfl
    | autosample => rfl
    | client k => exact (if_neg fun hk => ((hmem _).mp hk).2 hfd).symm
  · have hat : (dropClient c s).connAt r.fd = s.connAt r.fd := by
      rw [State.connAt, State.connAt, hconns, List.find?_filter]
      congr 2
      funext k
      by_cases hk : k.fd = r.fd
      · have hne : k ≠ c.toConn := fun heq => hfd (hk.symm.trans (congrArg Conn.fd heq))
        simp [hk, hne]
      · simp [hk]
    rw [hat, hr, issuerConn, issuerConn]
    cases r.port with
    | tty => rfl
    | autosample => rfl
    | client k =>
        have hiff : (⟨r.fd, k⟩ : Conn) ∈ s.conns ↔ (⟨r.fd, k⟩ : Conn) ∈ (dropClient c s).conns := by
          rw [hmem, and_iff_left hfd]
        simp only [hiff]

theorem Heard.issued (he : Heard cfg s t) (hinv : Inv cfg s) (h : Issued s) : Issued t := by
  have hself : ∀ c ∈ s.cmdQ, ∃ d ∈ s.cmdQ, d.toRequest = c.toRequest := fun c hc => ⟨c, hc, rfl⟩
  cases he with
  | @read p fd xs x b es hp hne hr hx =>
      obtain rfl : es = (readLoop p (s.buffer p) xs).2.2 := by rw [hr]
      exact h.congr _ answer_notMem_readLoop (by simp; rfl) (by simp) (by simpa using hself)
  | @line p fd xs b es hp hne hr =>
      obtain rfl : es = (readLoop p (s.buffer p) xs).2.2 := by rw [hr]
      refine h.congr ((readLoop p (s.buffer p) xs).2.2 ++ [.store p b.offset,
        .line p (b.store b.offset 0).text]) ?_ (by simp) (by simp) (by simpa using hself)
      simp [answer_notMem_readLoop]
  | @note es hes =>
      exact h.congr es (fun r conn text hmem => hes _ hmem) rfl rfl hself
  | @push r hp hr hid =>
      refine ⟨fun c hc => ?_, h.answers.append (by simp)⟩
      rcases List.mem_append.mp hc with hc | hc
      · exact h.queue c hc
      · rw [List.mem_singleton.mp hc]
        exact hinv.connAt_of_feeds hp

theorem Inner.issued (he : Inner cfg s t) (hinv : Inv cfg s) (htracked : Tracked cfg s)
    (h : Issued s) : Issued t := by
  have hself : ∀ c ∈ s.cmdQ, ∃ d ∈ s.cmdQ, d.toRequest = c.toRequest := fun c hc => ⟨c, hc, rfl⟩
  cases he with
  | heard he => exact he.issued hinv h
  | @ttyRead xs x b es hr hx =>
      obtain rfl : es = (readLoop .tty s.ttyBuffer xs).2.2 := by rw [hr]
      exact h.congr _ answer_notMem_readLoop (by simp; rfl) (by simp) (by simpa using hself)
  | @ttyLine xs b b' es es' hr h' =>
      obtain rfl : es = (readLoop .tty s.ttyBuffer xs).2.2 := by rw [hr]
      obtain rfl : es' = (endTtyLine b).2 := by rw [h']
      refine h.congr ((readLoop .tty s.ttyBuffer xs).2.2 ++ (endTtyLine b).2 ++
        [.line .tty b'.text]) ?_ (by simp) (by simp) (by simpa using hself)
      simp [answer_notMem_readLoop, answer_notMem_endTtyLine]
  | answer text =>
      rw [State.sendAnswer]
      split
      · exact h
      · rename_i c q hq
        have hc := h.queue c (by rw [hq]; exact List.mem_cons_self)
        exact ⟨h.queue, h.answers.answer (by rw [hc, htracked.conns])⟩
  | pop expired =>
      rw [State.popCmd]
      split
      · exact h
      · refine h.congr [.pop _ _ expired] (by simp) rfl rfl fun c hc => ⟨c, ?_, rfl⟩
        exact List.mem_of_mem_tail hc
  | @write c q hq hc now bytes =>
      refine h.congr [.write c.toRequest bytes] (by simp) rfl rfl fun d hd => ?_
      rw [hq]
      rcases List.mem_cons.mp hd with rfl | hd
      · exact ⟨c, List.mem_cons_self, rfl⟩
      · exact ⟨d, List.mem_cons_of_mem _ hd, rfl⟩
  | enabled b => exact ⟨h.queue, h.answers⟩

/-- **Every effect keeps the invariant**, where an accepted descriptor is
not in the queue. -/
theorem Effect.issued (he : Effect cfg (fun u fd _ => ∀ c ∈ u.cmdQ, c.fd ≠ fd) s t)
    (hinv : Inv cfg s) (htracked : Tracked cfg s) (h : Issued s) : Issued t := by
  have hself : ∀ c ∈ s.cmdQ, ∃ d ∈ s.cmdQ, d.toRequest = c.toRequest := fun c hc => ⟨c, hc, rfl⟩
  cases he with
  | inner hi => exact hi.issued hinv htracked h
  | @accept fd malloc stale hfresh hG =>
      refine ⟨fun c hc => ?_, h.answers.append (by simp)⟩
      have hne : fd ≠ c.fd := (hG c hc).symm
      have hat : (addClient fd malloc stale s).connAt c.fd = s.connAt c.fd := by
        simp [State.connAt, addClient, List.find?_append, hne]
      have hissuer : issuerConn c.toRequest (s.conns ++ [⟨fd, s.accepted⟩]) =
          issuerConn c.toRequest s.conns := by
        rw [issuerConn, issuerConn]
        cases c.port <;> simp [hne.symm]
      exact hat.trans ((h.queue c hc).trans hissuer.symm)
  | serve => exact h.congr _ (by simp) rfl rfl hself
  | @close c hc =>
      have hopen : c.toConn ∈ s.conns := hinv.clients.subset hc
      exact ⟨fun d hd => connAt_dropClient hinv hopen (h.queue d hd), h.answers.append (by simp)⟩
  | hangup => exact h.congr _ (by simp) rfl rfl hself
  | ret v => exact ⟨h.queue, h.answers⟩

/-! ## While no connection was closed -/

/-- The descriptors in the queue are the loop's own or were accepted. -/
def InUse (cfg : Setup) (s : State) : Prop :=
  ∀ c ∈ s.cmdQ, c.fd ∈ cfg.fds ∨ c.fd ∈ (accepts s.trace).map Conn.fd

/-- A port is read on one of these. -/
theorem Tracked.inUse_of_feeds (h : Tracked cfg s) (hinv : Inv cfg s) (hp : s.Feeds cfg p fd) :
    fd ∈ cfg.fds ∨ fd ∈ (accepts s.trace).map Conn.fd := by
  rcases hinv.feeds_cases hp with ⟨hown, -⟩ | ⟨k, -, hopen⟩
  · exact .inl hown
  · rw [h.conns] at hopen
    exact .inr (List.mem_map.mpr ⟨⟨fd, k⟩, List.mem_of_mem_filter hopen, rfl⟩)

/-- Connections that were accepted stay so. -/
theorem Effect.accepts_prefix (he : Effect cfg G s t) : accepts s.trace <+: accepts t.trace := by
  cases he with
  | inner hi => rw [hi.same.accepts]
  | accept => exact ⟨_, (accepts_append _ _).symm⟩
  | serve => exact ⟨_, (accepts_append _ _).symm⟩
  | close => exact ⟨_, (accepts_append _ _).symm⟩
  | hangup => exact ⟨_, (accepts_append _ _).symm⟩
  | ret v => exact List.prefix_rfl

/-- And so do those that were closed. -/
theorem Effect.closes_prefix (he : Effect cfg G s t) : closes s.trace <+: closes t.trace := by
  cases he with
  | inner hi => rw [hi.same.closes]
  | accept => exact ⟨_, (closes_append _ _).symm⟩
  | serve => exact ⟨_, (closes_append _ _).symm⟩
  | close => exact ⟨_, (closes_append _ _).symm⟩
  | hangup => exact ⟨_, (closes_append _ _).symm⟩
  | ret v => exact List.prefix_rfl

/-- A request in the queue was there before, or is new and was read where
it says. -/
theorem Effect.queued (he : Effect cfg G s t) {c : Cmd} (hc : c ∈ t.cmdQ) :
    (∃ d ∈ s.cmdQ, d.toRequest = c.toRequest) ∨ s.Feeds cfg c.port c.fd := by
  rcases he.act with ⟨-, hq⟩ | ⟨x, -, hmove, hpush⟩
  · exact .inl ⟨c, hq ▸ hc, rfl⟩
  · have hmem : (c.toRequest, c.sent) ∈ entries t.cmdQ := List.mem_map.mpr ⟨c, hc, rfl⟩
    have hold : ∀ b, (c.toRequest, b) ∈ entries s.cmdQ → ∃ d ∈ s.cmdQ, d.toRequest = c.toRequest :=
      fun b hb => by
        obtain ⟨d, hd, heq⟩ := List.mem_map.mp hb
        exact ⟨d, hd, congrArg Prod.fst heq⟩
    generalize hu : entries s.cmdQ = u at hmove hold
    generalize hv : entries t.cmdQ = v at hmove hmem
    -- only a pushed request is new, and that was read where it says
    cases hmove with
    | push _ r =>
        rcases List.mem_append.mp hmem with hmem | hmem
        · exact .inl (hold _ hmem)
        · obtain ⟨rfl, -⟩ := Prod.ext_iff.mp (List.mem_singleton.mp hmem)
          exact .inr (hpush _ rfl).2
    | write q r =>
        rcases List.mem_cons.mp hmem with heq | hmem
        · obtain ⟨rfl, -⟩ := Prod.ext_iff.mp heq
          exact .inl (hold _ List.mem_cons_self)
        · exact .inl (hold _ (List.mem_cons_of_mem _ hmem))
    | pop q r b => exact .inl (hold _ (List.mem_cons_of_mem _ hmem))

theorem Effect.inUse (he : Effect cfg G s t) (hinv : Inv cfg s) (htracked : Tracked cfg s)
    (h : InUse cfg s) : InUse cfg t := by
  intro c hc
  have hused : c.fd ∈ cfg.fds ∨ c.fd ∈ (accepts s.trace).map Conn.fd := by
    rcases he.queued hc with ⟨d, hd, heq⟩ | hp
    · rw [← heq]
      exact h d hd
    · exact htracked.inUse_of_feeds hinv hp
  exact hused.imp_right fun hmem => (he.accepts_prefix.map Conn.fd).subset hmem

/-- What is known of accepted descriptors may be exchanged. -/
theorem Effect.imp (he : Effect cfg G s t)
    (hG : ∀ fd malloc, fd ∉ cfg.fds ∧ fd ∉ s.conns.map Conn.fd → G s fd malloc → G' s fd malloc) :
    Effect cfg G' s t := by
  cases he with
  | inner hi => exact .inner hi
  | accept stale hfresh h => exact .accept stale hfresh (hG _ _ hfresh h)
  | serve hc => exact .serve hc
  | close hc => exact .close hc
  | hangup ha => exact .hangup ha
  | ret v => exact .ret v

/-- **Before a first connection was closed, every answer reaches the
connection its request was read on**: all the descriptors in the queue
are open. -/
theorem Reachable.answers_of_closes_nil (h : Reachable cfg A s) (hnone : closes s.trace = []) :
    AnswersReachIssuer s.trace := by
  have key : Tracked cfg s ∧ InUse cfg s ∧ (closes s.trace = [] → Issued s) := by
    refine h.invariant
      (I := fun u => Tracked cfg u ∧ InUse cfg u ∧ (closes u.trace = [] → Issued u))
      (fun _ _ _ => True) (fun _ _ => ⟨Tracked.entry _ _, ?_, fun _ => Issued.entry _ _⟩)
      (fun _ _ _ _ _ _ _ _ _ => trivial) fun u v hinv hu he => ?_
    · exact fun c hc => (List.not_mem_nil hc).elim
    · refine ⟨he.tracked hinv hu.1, he.inUse hinv hu.1 hu.2.1, fun hv => ?_⟩
      have hclosed : closes u.trace = [] := List.prefix_nil.mp (hv ▸ he.closes_prefix)
      refine Effect.issued (he.imp fun fd _ hfresh _ c hc hfd => ?_) hinv hu.1 (hu.2.2 hclosed)
      rcases hu.2.1 c hc with hown | hopen
      · exact hfresh.1 (hfd ▸ hown)
      · refine hfresh.2 ?_
        rw [hu.1.conns, openConns, hclosed, ← hfd]
        simpa using hopen
  exact (key.2.2 hnone).answers

end Daemon

end Realraum
