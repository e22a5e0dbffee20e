import Realraum.Daemon.Helpers.Calls
import Realraum.Daemon.Helpers.Firmware
/-!
# Helpers — what one iteration does to the queue

An iteration that gets anywhere has three phases: the head of the queue
is popped, by its expiry or by a firmware line, or stays; requests join
at the end; and the head is written. `Turn` is that, with the ways an
iteration ends early, and `iteration_turn` is the inversion lemma: the
results about expiry, about unsent commands and about replies all start
from it.
-/

namespace Realraum

namespace Daemon

variable {cfg : Setup} {s t u v w : State} {e : Env} {fds : Finset ℕ} {p : Port} {es : List Event}

/-- An event on the side of the tty: a byte or a line of the firmware, a
command popped, written or answered. -/
def Event.onTtySide : Event → Bool
  | .read .tty _ _ => true
  | .line .tty _ => true
  | .pop _ _ _ => true
  | .write _ _ => true
  | .answer _ _ _ => true
  | _ => false

/-- What happened on the side of the tty. -/
def ttySide (tr : List Event) : List Event := tr.filter Event.onTtySide

@[simp] theorem ttySide_append (tr es : List Event) :
    ttySide (tr ++ es) = ttySide tr ++ ttySide es :=
  List.filter_append _ _

/-- A projection that sees the side of the tty only. -/
theorem filterMap_ttySide {β : Type*} {f : Event → Option β}
    (hf : ∀ x, x.onTtySide = false → f x = none) (tr : List Event) :
    (ttySide tr).filterMap f = tr.filterMap f := by
  rw [ttySide, List.filterMap_filter]
  refine List.filterMap_congr fun x _ => ?_
  split
  · rfl
  · rename_i hx
    rw [hf x (by simpa using hx)]

theorem bytesOf_ttySide (tr : List Event) : bytesOf .tty (ttySide tr) = bytesOf .tty tr := by
  refine filterMap_ttySide (fun x hx => ?_) tr
  cases x with
  | read p i b => cases p <;> simp_all [Event.onTtySide]
  | _ => rfl

theorem linesOf_ttySide (tr : List Event) : linesOf .tty (ttySide tr) = linesOf .tty tr := by
  refine filterMap_ttySide (fun x hx => ?_) tr
  cases x with
  | line p text => cases p <;> simp_all [Event.onTtySide]
  | _ => rfl

/-- **Requests joined the queue**, unsent and at its end, and nothing
happened on the side of the tty. -/
structure Grows (s t : State) : Prop where
  queue : ∃ new, t.cmdQ = s.cmdQ ++ new ∧
    ∀ c ∈ new, c.sent = false ∧ c.cmd ≠ .log ∧ c.cmd ≠ .listen
  side : ttySide t.trace = ttySide s.trace

theorem Grows.refl (s : State) : Grows s s := ⟨⟨[], by simp, by simp⟩, rfl⟩

theorem Grows.trans (h : Grows s t) (h' : Grows t u) : Grows s u := by
  obtain ⟨new, hq, hnew⟩ := h.queue
  obtain ⟨new', hq', hnew'⟩ := h'.queue
  refine ⟨⟨new ++ new', by rw [hq', hq, List.append_assoc], fun c hc => ?_⟩, h'.side.trans h.side⟩
  exact (List.mem_append.mp hc).elim (hnew c) (hnew' c)

/-- The queue is as it was, and nothing happened on the side of the
tty. -/
def Still (s t : State) : Prop :=
  t.cmdQ = s.cmdQ ∧ ttySide t.trace = ttySide s.trace

theorem Still.grows (h : Still s t) : Grows s t :=
  ⟨⟨[], by rw [h.1, List.append_nil], by simp⟩, h.2⟩

theorem Still.trans (h : Still s t) (h' : Still t u) : Still s u :=
  ⟨h'.1.trans h.1, h'.2.trans h.2⟩

/-- Events off the side of the tty, and the queue as it was. -/
theorem Still.note (es : List Event) (hes : ttySide es = []) (ht : t.trace = s.trace ++ es)
    (hq : t.cmdQ = s.cmdQ) : Still s t :=
  ⟨hq, by rw [ht, ttySide_append, hes, List.append_nil]⟩

theorem Grows.note (es : List Event) (hes : ttySide es = []) (ht : t.trace = s.trace ++ es)
    (hq : t.cmdQ = s.cmdQ) : Grows s t :=
  (Still.note es hes ht hq).grows

theorem ttySide_of_inert (h : ∀ e ∈ es, e.Inert) : ttySide es = [] := by
  refine List.filter_eq_nil_iff.mpr fun e he => ?_
  have hinert := h e he
  cases e <;> first | exact hinert.elim | simp [Event.onTtySide]

/-- Reading a port that is not the tty is off its side. -/
theorem ttySide_readLoop {b : ReadBuffer} {xs : List UInt8} (hp : p ≠ .tty) :
    ttySide (readLoop p b xs).2.2 = [] := by
  refine List.filter_eq_nil_iff.mpr fun e he => ?_
  obtain ⟨i, rfl | ⟨x, rfl⟩, -⟩ := readLoop_events xs b e he
  · simp [Event.onTtySide]
  · cases p <;> simp_all [Event.onTtySide]

theorem Heard.grows (h : Heard cfg s t) : Grows s t := by
  cases h with
  | @read p fd xs x b es hp hne hr hx =>
      obtain rfl : es = (readLoop p (s.buffer p) xs).2.2 := by rw [hr]
      exact .note _ (ttySide_readLoop hne) (by rw [State.log_trace, State.setBuffer_trace])
        (by simp)
  | @line p fd xs b es hp hne hr =>
      obtain rfl : es = (readLoop p (s.buffer p) xs).2.2 := by rw [hr]
      refine .note ((readLoop p (s.buffer p) xs).2.2 ++ [.store p b.offset,
        .line p (b.store b.offset 0).text]) ?_ (by simp) (by simp)
      rw [ttySide_append, ttySide_readLoop hne]
      cases p <;> first | exact absurd rfl hne | rfl
  | note h => exact .note _ (ttySide_of_inert h) rfl rfl
  | @push r hp hr hid =>
      refine ⟨⟨_, rfl, fun c hc => ?_⟩, ?_⟩
      · rw [List.mem_singleton.mp hc]
        exact ⟨rfl, hid⟩
      · rw [ttySide_append]
        exact List.append_nil _

theorem Hearing.grows (h : Hearing cfg s t) : Grows s t := by
  induction h with
  | refl => exact Grows.refl s
  | tail _ h ih => exact ih.trans h.grows

theorem Served.grows (h : Served cfg s t) : Grows s t := by
  cases h with
  | heard h => exact h.grows
  | serve => exact .note _ rfl rfl rfl
  | close => exact .note _ rfl rfl rfl
  | ret => exact .note [] rfl (by simp) rfl

/-- The walk over the clients lets the queue grow at most. -/
theorem Serving.grows (h : Serving cfg s t) : Grows s t := by
  induction h with
  | refl => exact Grows.refl s
  | tail _ h ih => exact ih.trans h.grows

theorem addClient_still {fd : ℕ} {malloc : Bool} {stale : ℕ → UInt8} :
    Still s (addClient fd malloc stale s) :=
  .note [.accept fd s.accepted] rfl rfl rfl

/-! ## The phases -/

/-- Bytes read from the tty in an iteration, the first of those there
were. -/
def TtyReads (e : Env) (es : List Event) : Prop :=
  (∀ x ∈ es, ∃ i b, x = .read .tty i b) ∧ bytesOf .tty es <+: e.tty.bytes

theorem TtyReads.nil (e : Env) : TtyReads e [] := ⟨by simp, List.nil_prefix⟩

theorem ttyReads_readLoop (b : ReadBuffer) :
    TtyReads e (ttySide (readLoop .tty b e.tty.bytes).2.2) := by
  constructor
  · intro x hx
    obtain ⟨hmem, hside⟩ := List.mem_filter.mp hx
    obtain ⟨i, rfl | ⟨b, rfl⟩, -⟩ := readLoop_events _ _ x hmem
    · cases hside
    · exact ⟨i, b, rfl⟩
  · rw [bytesOf_ttySide]
    exact bytesOf_readLoop_prefix _ _

/-- The head of the queue is popped. -/
def popEvents (q : List Cmd) (expired : Bool) : List Event :=
  q.head?.toList.map fun c => .pop c.toRequest c.sent expired

/-- The head of the queue is answered with a line. -/
def answerEvents (opt : Options) (s : State) (line : CStr) : List Event :=
  s.cmdQ.head?.toList.map fun c =>
    .answer c.toRequest (s.connAt c.fd) (responseData opt line)

@[simp] theorem ttySide_popEvents (q : List Cmd) (expired : Bool) :
    ttySide (popEvents q expired) = popEvents q expired :=
  List.filter_eq_self.mpr fun x hx => by
    obtain ⟨c, -, rfl⟩ := List.mem_map.mp hx
    rfl

@[simp] theorem ttySide_answerEvents (opt : Options) (line : CStr) :
    ttySide (answerEvents opt s line) = answerEvents opt s line :=
  List.filter_eq_self.mpr fun x hx => by
    obtain ⟨c, -, rfl⟩ := List.mem_map.mp hx
    rfl

/-- A firmware line, and what it does to the head of the queue. -/
def lineEvents (opt : Options) (s : State) (line : CStr) : List Event :=
  .line .tty line :: (answerEvents opt s line ++ popEvents s.cmdQ false)

/-- **The head of the queue at the start of an iteration**: dropped after
a timeout, popped by a firmware line, or left alone; the tty may have
been read then too. -/
inductive Popped (cfg : Setup) (e : Env) (s u : State) : Prop
  | expired (hout : TimesOut e s) (hexp : ∃ c ∈ s.cmdQ.head?, cmdHasExpired c e.now = true)
      (hq : u.cmdQ = s.cmdQ.tail)
      (hside : ttySide u.trace = ttySide s.trace ++ popEvents s.cmdQ true)
  | line (hline : TakesLine cfg e s) (hq : u.cmdQ = s.cmdQ.tail)
      (hside : ∃ es, TtyReads e es ∧ ttySide u.trace =
        ttySide s.trace ++ es ++ lineEvents cfg.opt s (ttyLineOf s e.tty))
  | kept (hline : ¬ TakesLine cfg e s) (hout : ¬ TimesOut e s) (hq : u.cmdQ = s.cmdQ)
      (hside : ∃ es, TtyReads e es ∧ ttySide u.trace = ttySide s.trace ++ es)

/-- **The send step**: the head of the queue is written, or nothing
happens. -/
inductive Sending (e : Env) (v w : State) : Prop
  | wrote {c : Cmd} {q : List Cmd} {bytes : List UInt8} (hq : v.cmdQ = c :: q)
      (hsent : c.sent = false) (hbytes : sendCommand c e.ttyWrites = .wrote bytes)
      (hq' : w.cmdQ = cmdSent c e.sentAt :: q)
      (hside : ttySide w.trace = ttySide v.trace ++ [.write c.toRequest bytes])
  | rest (hw : w = v) (hhead : ∀ c ∈ v.cmdQ.head?, c.sent = false →
      sendCommand c e.ttyWrites = .skipped ∨ sendCommand c e.ttyWrites = .failed)

theorem sending_of_sendStep (h : sendStep e v = .next w) : Sending e v w := by
  unfold sendStep at h
  split at h
  · rename_i hq
    cases h
    exact .rest rfl (by simp [hq])
  · rename_i c q hq
    split at h
    · rename_i hsent
      cases h
      exact .rest rfl (by simp [hq, hsent])
    · rename_i hsent
      have hunsent : c.sent = false := by simpa using hsent
      split at h
      · rename_i hskip
        cases h
        exact .rest rfl fun d hd _ => .inl (by rw [hq] at hd; cases hd; exact hskip)
      · rename_i hfail
        cases h
        exact .rest rfl fun d hd _ => .inr (by rw [hq] at hd; cases hd; exact hfail)
      · rename_i bytes hbytes
        cases h
        exact .wrote hq hunsent hbytes rfl (ttySide_append _ _)
      · cases h

/-- **What an iteration was**: nothing at all, cut short by the end of the
loop or by the end of the child's pipe, or the whole of it. -/
inductive Turn (cfg : Setup) (e : Env) (s t : State) : Prop
  | idle (ht : t = s)
      (hcause : e.select.ended = false ∨
        TimesOut e s ∧ ∀ c ∈ s.cmdQ.head?, cmdHasExpired c e.now = false)
  | ended {u : State} (hpop : Popped cfg e s u) (hgrow : Grows u t) (hret : t.returnValue ≠ 0)
  | hangup {u : State} (hpop : Popped cfg e s u) (hstill : Still u t) (hpipe : LosesPipe cfg e s)
  | whole {u v w : State} (hpop : Popped cfg e s u) (hgrow : Grows u v)
      (hsend : Sending e v w) (hend : Still w t)

/-- Reading the tty without a line leaves the head alone. -/
theorem popped_no_line (hline : ¬ TakesLine cfg e s) (hout : ¬ TimesOut e s)
    (hb : s.ttyBuffer.offset < sizeofBuf) (hnot : ¬ Completes s.ttyBuffer e.tty.bytes) :
    Popped cfg e s (processTty cfg.opt e.tty s).2 := by
  rw [processTty_no_line hb hnot]
  refine .kept hline hout (by simp) ⟨_, ttyReads_readLoop s.ttyBuffer, ?_⟩
  rw [State.log_trace, State.setBuffer_trace, ttySide_append]

/-- A line pops it. -/
theorem popped_line (hline : TakesLine cfg e s) (hb : s.ttyBuffer.offset < sizeofBuf) :
    Popped cfg e s (processTty cfg.opt e.tty s).2 := by
  refine .line hline (by rw [processTty_cmdQ _ hb, if_pos hline.2.2])
    ⟨_, ttyReads_readLoop s.ttyBuffer, ?_⟩
  obtain ⟨b, es, hr, heq⟩ := processTty_line cfg.opt hb hline.2.2
  obtain ⟨es', hes', htrace⟩ := handleTtyLine_trace cfg.opt
    ((s.setBuffer .tty (endTtyLine b).1.reset).log
      (es ++ (endTtyLine b).2 ++ [.line .tty (ttyLineOf s e.tty)])) (ttyLineOf s e.tty)
  have hstores : ttySide (endTtyLine b).2 = [] := List.filter_eq_nil_iff.mpr fun x hx => by
    obtain ⟨i, -, rfl⟩ := endTtyLine_events b x hx
    simp [Event.onTtySide]
  have hresponses : ttySide es' = [] := List.filter_eq_nil_iff.mpr fun x hx => by
    obtain ⟨fd, conn, text, rfl⟩ := hes' x hx
    simp [Event.onTtySide]
  have hlast : ttySide [Event.line .tty (ttyLineOf s e.tty)] =
      [.line .tty (ttyLineOf s e.tty)] := rfl
  simp only [State.log_trace, State.setBuffer_trace, State.log_cmdQ, State.setBuffer_cmdQ,
    State.log_connAt, State.setBuffer_connAt] at htrace
  rw [heq, hr, htrace]
  simp only [ttySide_append, hstores, hresponses, hlast, List.append_nil]
  rw [← answerEvents, ← popEvents, ttySide_answerEvents, ttySide_popEvents, lineEvents]
  simp

/-- And so does its expiry. -/
theorem popped_expired (hout : TimesOut e s)
    (hexp : ∃ c ∈ s.cmdQ.head?, cmdHasExpired c e.now = true) :
    Popped cfg e s (s.popCmd true) := by
  refine .expired hout hexp (popCmd_cmdQ true) ?_
  rw [popCmd_trace, ttySide_append, ← popEvents, ttySide_popEvents]

theorem signalStep_eq :
    signalStep cfg e (e.fds s) s =
      if Stopped cfg e s then .leave { s with returnValue := 1 } else .next s := rfl

/-- **The first phase.** -/
theorem beforeAccept_popped {readable : Finset ℕ} (hb : s.ttyBuffer.offset < sizeofBuf)
    (hselect : e.select = .returned readable) :
    (beforeAccept cfg e (e.fds s) s).Sat
      (fun u => Popped cfg e s u ∧ ¬ Stopped cfg e s ∧ u.autosampleBuffer = s.autosampleBuffer)
      (Turn cfg e s) := by
  have hkept : ¬ TakesLine cfg e s → e.fds s ≠ ∅ → Popped cfg e s s := fun hline hne =>
    .kept hline (fun hout => hne hout.2) rfl ⟨[], .nil e, by simp⟩
  rw [beforeAccept, expiryStep]
  by_cases hempty : e.fds s = ∅
  · -- nothing is ready: the signal pipe and the tty are passed over
    have hout : TimesOut e s := ⟨by rw [hselect]; rfl, hempty⟩
    rw [if_pos hempty]
    by_cases hexp : (s.cmdQ.head?.any fun c => cmdHasExpired c e.now) = true
    · have hstop : ¬ Stopped cfg e s := fun h => by simpa [hempty] using h.1
      rw [if_pos hexp, Flow.bind_next, signalStep, if_neg (by simp [hempty]), Flow.bind_next,
        ttyStep, if_neg (by simp [hempty])]
      refine ⟨popped_expired hout ((Option.any_eq_true _ _).mp hexp), hstop, ?_⟩
      rw [State.popCmd]
      split <;> rfl
    · rw [if_neg hexp]
      refine Turn.idle rfl (.inr ⟨hout, fun c hc => ?_⟩)
      simpa [Option.mem_def.mp hc] using hexp
  · rw [if_neg hempty, Flow.bind_next, signalStep_eq]
    by_cases hstop : Stopped cfg e s
    · rw [if_pos hstop]
      have hline : ¬ TakesLine cfg e s := fun h => h.2.1 hstop
      exact Turn.ended (hkept hline hempty) (.note [] rfl (by simp) rfl) (by decide : (1 : ℤ) ≠ 0)
    · rw [if_neg hstop, Flow.bind_next, ttyStep]
      by_cases htty : cfg.ttyFd ∈ e.fds s
      · rw [if_pos htty]
        by_cases hnew : Completes s.ttyBuffer e.tty.bytes
        · obtain ⟨b, es, -, heq⟩ := processTty_line cfg.opt hb hnew
          have hzero : (processTty cfg.opt e.tty s).1 = 0 := by rw [heq]
          simp only
          rw [if_pos hzero]
          exact ⟨popped_line ⟨htty, hstop, hnew⟩ hb, hstop, processTty_autosampleBuffer _ _⟩
        · have hpop : Popped cfg e s (processTty cfg.opt e.tty s).2 :=
            popped_no_line (fun h => hnew h.2.2) (fun hout => hempty hout.2) hb hnew
          simp only
          split
          · exact ⟨hpop, hstop, processTty_autosampleBuffer _ _⟩
          · rename_i hret
            exact Turn.ended hpop (.note [] rfl (by simp) rfl) hret
      · rw [if_neg htty]
        exact ⟨hkept (fun h => htty h.1) hempty, hstop, rfl⟩

/-- The first phase is over, and requests may have joined. -/
def Begun (cfg : Setup) (e : Env) (s v : State) : Prop :=
  ∃ u, Popped cfg e s u ∧ Grows u v

theorem acceptStep_begun (hpop : Popped cfg e s u) (hstop : ¬ Stopped cfg e s)
    (hbuf : u.autosampleBuffer = s.autosampleBuffer) :
    (acceptStep cfg e (e.fds s) u).Sat
      (fun v => (∃ u, Popped cfg e s u ∧ Still u v) ∧ ¬ Stopped cfg e s ∧
        (cfg.cmdListenFd ∈ e.fds s → e.accept.isSome = true) ∧
        v.autosampleBuffer = s.autosampleBuffer)
      (Turn cfg e s) := by
  rw [acceptStep]
  split
  · cases haccept : e.accept with
    | none => exact Turn.ended hpop (.note [] rfl (by simp) rfl) (by decide : (-1 : ℤ) ≠ 0)
    | some fd => exact ⟨⟨u, hpop, addClient_still⟩, hstop, fun _ => rfl, hbuf⟩
  · rename_i hlisten
    exact ⟨⟨u, hpop, rfl, rfl⟩, hstop, fun h => absurd h hlisten, hbuf⟩

theorem autosampleStep_begun (hbegun : ∃ u, Popped cfg e s u ∧ Still u v)
    (hstop : ¬ Stopped cfg e s)
    (haccept : cfg.cmdListenFd ∈ e.fds s → e.accept.isSome = true)
    (hbuf : v.autosampleBuffer = s.autosampleBuffer) (hb : s.autosampleBuffer.offset < sizeofBuf) :
    (autosampleStep cfg e (e.fds s) v).Sat (Begun cfg e s) (Turn cfg e s) := by
  obtain ⟨u, hpop, hstill⟩ := hbegun
  have hgrow := hstill.grows
  rw [autosampleStep]
  cases ha : cfg.autosample with
  | none => exact ⟨u, hpop, hgrow⟩
  | some a =>
      simp only
      split
      · rename_i hready
        have hcall : Grows v (nonblockReadline cfg.opt .autosample a.writeFd e.autosample v).2 :=
          (nonblockReadline_hearing (p := .autosample) ⟨a, ha, rfl⟩ (by decide)).grows
        have hbuf' : v.buffer .autosample = s.autosampleBuffer := hbuf
        split
        · rename_i hret
          obtain ⟨hdry, hstop'⟩ := (nonblockReadline_eq_two (by rwa [hbuf'])).mp hret
          rw [hbuf'] at hdry
          -- the pipe ran dry, so nothing joined the queue in this iteration
          have hcalm :
              Still v (nonblockReadline cfg.opt .autosample a.writeFd e.autosample v).2 := by
            rw [nonblockReadline_dry (by rwa [hbuf']) (by rwa [hbuf'])]
            exact .note _ (ttySide_readLoop (by decide)) rfl rfl
          exact Turn.hangup hpop ((hstill.trans hcalm).trans (.note [.hangup] rfl rfl rfl))
            ⟨⟨a, ha, hready⟩, hstop, haccept, hdry, hstop'⟩
        · split
          · exact ⟨u, hpop, hgrow.trans hcall⟩
          · rename_i hret
            exact Turn.ended hpop (hgrow.trans (hcall.trans (.note [] rfl (by simp) rfl))) hret
      · exact ⟨u, hpop, hgrow⟩

/-- The send step always goes on. -/
theorem sendStep_sat_next : (sendStep e v).Sat (Sending e v) fun _ => False := by
  cases h : sendStep e v with
  | next w => exact sending_of_sendStep h
  | hang => trivial
  | again w | leave w =>
      unfold sendStep at h
      split at h
      · cases h
      · split at h
        · cases h
        · split at h <;> cases h

/-- And so does the last one, which is off the side of the tty. -/
theorem enableStep_sat_still :
    (enableStep cfg e u).Sat (Still u) fun _ => False := by
  rw [enableStep]
  cases cfg.autosample with
  | none => exact ⟨rfl, rfl⟩
  | some a =>
      simp only
      split
      · cases writeLoop e.childWrites with
        | none => trivial
        | some r => exact ⟨rfl, by rw [ttySide_append]; exact List.append_nil _⟩
      · exact ⟨rfl, rfl⟩

/-- Up to the clients. -/
theorem beforeClients_begun {readable : Finset ℕ} (hframed : Framed s)
    (hselect : e.select = .returned readable) :
    (beforeClients cfg e (e.fds s) s).Sat (Begun cfg e s) (Turn cfg e s) := by
  exact Flow.Sat.bind
    (Flow.Sat.bind (beforeAccept_popped hframed.tty.1 hselect) fun u h =>
      acceptStep_begun h.1 h.2.1 h.2.2)
    fun v h => autosampleStep_begun h.1 h.2.1 h.2.2.1 h.2.2.2 hframed.autosample.1

/-- From the clients on: the walk, the send step, and the child is
told. -/
theorem fromClients_turn (hbegun : Begun cfg e s v) (hinv : Inv cfg v)
    (ht : (fromClients cfg e fds v).result = some t) : Turn cfg e s t := by
  obtain ⟨u, hpop, hgrow⟩ := hbegun
  have hwalk : (clientStep cfg e fds v).Sat (Serving cfg v) fun _ => False := clientStep_sat hinv
  have hsend : ((clientStep cfg e fds v).bind (sendStep e)).Sat
      (fun w => ∃ v', Grows v v' ∧ Sending e v' w) fun _ => False :=
    hwalk.bind fun v' h => sendStep_sat_next.imp (fun w hw => ⟨v', h.grows, hw⟩) fun _ h => h
  have hturn : (fromClients cfg e fds v).Sat (Turn cfg e s) fun _ => False := by
    refine hsend.bind fun w h => enableStep_sat_still.imp (fun t ht => ?_) fun _ h => h
    obtain ⟨v', hgrow', hw⟩ := h
    exact .whole hpop (hgrow.trans hgrow') hw ht
  exact (hturn.imp (fun _ h => h) fun _ h => h.elim).result ht

/-- **One iteration, phase by phase.** -/
theorem iteration_turn (hinv : Inv cfg s) (hframed : Framed s) (hfresh : e.Fresh cfg s)
    (ht : (iteration cfg e s).result = some t) : Turn cfg e s t := by
  cases hselect : e.select with
  | failed =>
      rw [iteration, hselect] at ht
      cases ht
      have hfds : e.fds s = ∅ := by rw [Env.fds, hselect]
      refine Turn.ended (.kept (fun h => by simpa [hfds] using h.1) (fun h => ?_) rfl
        ⟨[], .nil e, by simp⟩) (.note [] rfl (by simp) rfl) (by decide : (-1 : ℤ) ≠ 0)
      simpa [hselect, Select.ended] using h.1
  | interrupted =>
      rw [iteration, hselect] at ht
      cases ht
      exact .idle rfl (.inl (by rw [hselect]; rfl))
  | returned readable =>
      have hfds : e.fds s = tmpfds s readable := by rw [Env.fds, hselect]
      rw [iteration, hselect] at ht
      simp only [← hfds] at ht
      have hbegun : (beforeClients cfg e (e.fds s) s).Sat (Begun cfg e s) (Turn cfg e s) :=
        beforeClients_begun hframed hselect
      have heff : (beforeClients cfg e (e.fds s) s).Sat (Effects cfg (fun _ _ _ => True) s)
          (Effects cfg (fun _ _ _ => True) s) := beforeClients_sat hfresh fun _ _ _ _ => trivial
      cases hv : beforeClients cfg e (e.fds s) s with
      | next v =>
          rw [hv] at hbegun heff ht
          exact fromClients_turn hbegun (Effects.inv heff hinv) ht
      | again v =>
          rw [hv] at hbegun ht
          cases ht
          exact hbegun
      | leave v =>
          rw [hv] at hbegun ht
          cases ht
          exact hbegun
      | hang => rw [hv] at ht; cases ht

/-- What happened on the side of the tty in an iteration: the first phase,
and one write at most. -/
theorem Turn.sides (h : Turn cfg e s t) :
    t = s ∨ ∃ u, Popped cfg e s u ∧ (ttySide t.trace = ttySide u.trace ∨
      ∃ c bytes, ttySide t.trace = ttySide u.trace ++ [.write c bytes]) := by
  cases h with
  | idle ht hcause => exact .inl ht
  | ended hpop hgrow hret => exact .inr ⟨_, hpop, .inl hgrow.side⟩
  | hangup hpop hstill hpipe => exact .inr ⟨_, hpop, .inl hstill.2⟩
  | whole hpop hgrow hsend hend =>
      refine .inr ⟨_, hpop, ?_⟩
      cases hsend with
      | wrote hq hsent hbytes hq' hside => exact .inr ⟨_, _, by rw [hend.2, hside, hgrow.side]⟩
      | rest hw hhead => exact .inl (by rw [hend.2, hw, hgrow.side])

end Daemon

end Realraum
