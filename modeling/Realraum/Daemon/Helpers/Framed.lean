import Realraum.Daemon.Helpers.Iteration
/-!
# Helpers — the buffers and the bytes read

Every buffer holds what the framing reader has pending over the bytes
read from its port so far, and the lines taken are the ones the reader
hands over (`Framed`). It says nothing of how the bytes were cut into
calls, and holds in every run (`Reachable.framed`).
-/

namespace Realraum

namespace Daemon

open Framing

variable {cfg : Setup} {G : State → ℕ → Bool → Prop} {A : State → Env → Prop} {s t : State}
variable {p q : Port} {fd : ℕ}

/-- The reader over the bytes read from a port: what is pending, and the
lines. -/
def framed (p : Port) (tr : List Event) : List UInt8 × List (List UInt8) :=
  frame linefeed sizeofBuf [] (bytesOf p tr)

/-- A buffer holds what is pending, and its offset is inside. -/
def ReadBuffer.Pending (b : ReadBuffer) (p : Port) (tr : List Event) : Prop :=
  b.offset < sizeofBuf ∧ b.contents = (framed p tr).1

/-- **The buffers hold what the bytes read say.** Connections that were
not accepted yet gave no bytes, so a new client finds its buffer right. -/
structure Framed (s : State) : Prop where
  lines : ∀ p, linesOf p s.trace = (framed p s.trace).2.map (lineText p)
  tty : s.ttyBuffer.Pending .tty s.trace
  autosample : s.autosampleBuffer.Pending .autosample s.trace
  clients : ∀ c ∈ s.clientLst, c.buffer.Pending (.client c.conn) s.trace
  inside : ∀ e ∈ s.trace, e.Inside
  unread : ∀ k, s.accepted ≤ k → bytesOf (.client k) s.trace = []

/-! ## The end of a firmware line -/

theorem cstring_append_zero (bs : List UInt8) : cstring (bs ++ [0]) = cstring bs := by
  induction bs with
  | nil => rfl
  | cons x bs ih =>
      by_cases hx : x = 0
      · simp [cstring, hx]
      · simpa [cstring, hx] using ih

/-- The contents of a buffer that is not empty, its last byte apart. -/
theorem contents_eq_append {b : ReadBuffer} (h : 0 < b.offset) :
    b.contents = (List.range (b.offset - 1)).map b.buf ++ [b.buf (b.offset - 1)] := by
  have hoff : b.offset = b.offset - 1 + 1 := by omega
  rw [ReadBuffer.contents]
  conv_lhs => rw [hoff]
  rw [List.range_succ, List.map_append, List.map_singleton]

/-- **What `process_tty` makes of its buffer**: the carriage return in
front of the line feed goes. -/
theorem endTtyLine_text (b : ReadBuffer) : (endTtyLine b).1.text = lineText .tty b.contents := by
  have hlast : ∀ i, i < b.offset → (b.store b.offset 0).buf i = b.buf i := by
    intro i hi
    have hne : i ≠ b.offset := by omega
    simp [ReadBuffer.store, hne]
  by_cases hpos : 0 < b.offset
  · have hcontents := contents_eq_append hpos
    have hget : b.contents.getLast? = some (b.buf (b.offset - 1)) := by
      rw [hcontents, List.getLast?_append]
      rfl
    -- the line feed goes, and a carriage return in front of it
    by_cases hcr : b.buf (b.offset - 1) = carriageReturn
    · have hends : endTtyLine b = ((b.store b.offset 0).store (b.offset - 1) 0,
          [.store .tty b.offset, .store .tty (b.offset - 1)]) := by
        rw [endTtyLine, if_pos ⟨hpos, by rw [hlast _ (by omega), hcr]⟩]
      have hfront : ((b.store b.offset 0).store (b.offset - 1) 0).contents =
          (List.range (b.offset - 1)).map b.buf ++ [0] := by
        rw [contents_eq_append (by simpa using hpos)]
        simp only [ReadBuffer.store_offset]
        congr 1
        · refine List.map_congr_left fun i hi => ?_
          have hi' : i < b.offset - 1 := List.mem_range.mp hi
          have hne : i ≠ b.offset - 1 := by omega
          have hne' : i ≠ b.offset := by omega
          simp [ReadBuffer.store, hne, hne']
        · simp [ReadBuffer.store]
      rw [hends, ReadBuffer.text, hfront, cstring_append_zero, lineText, withoutReturn, hget, hcr,
        if_pos rfl, hcontents, List.dropLast_concat]
    · have hends : (endTtyLine b).1 = b.store b.offset 0 := by
        rw [endTtyLine, if_neg fun h => hcr (by rw [← hlast _ (by omega)]; exact h.2)]
      rw [hends, ReadBuffer.text, ReadBuffer.contents_store le_rfl, lineText, withoutReturn, hget,
        if_neg]
      simpa using hcr
  · have hnil : b.contents = [] := by
      rw [← List.length_eq_zero_iff, ReadBuffer.length_contents]
      omega
    have hends : (endTtyLine b).1 = b.store b.offset 0 := by
      rw [endTtyLine, if_neg fun h => hpos h.1]
    rw [hends, ReadBuffer.text, ReadBuffer.contents_store le_rfl, hnil]
    rfl

/-! ## What keeps the invariant -/

/-- The projections and the buffers decide. -/
theorem Framed.congr (h : Framed s) (hbytes : ∀ p, bytesOf p t.trace = bytesOf p s.trace)
    (hlines : ∀ p, linesOf p t.trace = linesOf p s.trace) (htty : t.ttyBuffer = s.ttyBuffer)
    (hauto : t.autosampleBuffer = s.autosampleBuffer)
    (hclients : ∀ c ∈ t.clientLst, ∃ c' ∈ s.clientLst, c'.conn = c.conn ∧ c'.buffer = c.buffer)
    (hinside : ∀ e ∈ t.trace, e ∈ s.trace ∨ e.Inside) (haccepted : s.accepted ≤ t.accepted) :
    Framed t where
  lines p := by rw [hlines, framed, hbytes]; exact h.lines p
  tty := by rw [htty, ReadBuffer.Pending, framed, hbytes]; exact h.tty
  autosample := by rw [hauto, ReadBuffer.Pending, framed, hbytes]; exact h.autosample
  clients c hc := by
    obtain ⟨c', hc', hconn, hbuffer⟩ := hclients c hc
    rw [← hbuffer, ← hconn, ReadBuffer.Pending, framed, hbytes]
    exact h.clients c' hc'
  inside e he := (hinside e he).elim (h.inside e) id
  unread k hk := by rw [hbytes]; exact h.unread k (haccepted.trans hk)

/-- The buffer of a port that is read holds what is pending there. -/
theorem Framed.buffer (h : Framed s) (hp : s.Feeds cfg p fd) : (s.buffer p).Pending p s.trace := by
  cases p with
  | tty => exact h.tty
  | autosample => exact h.autosample
  | client k =>
      obtain ⟨c, hc, hconn⟩ := List.mem_map.mp hp
      have hk : c.conn = k := congrArg Conn.serial hconn
      have hfound : (s.clientLst.find? fun c => c.conn = k).isSome := by
        rw [List.find?_isSome]
        exact ⟨c, hc, by simpa using hk⟩
      obtain ⟨c', hc'⟩ := Option.isSome_iff_exists.mp hfound
      have hmem := List.mem_of_find?_eq_some hc'
      have hk' : c'.conn = k := by simpa using List.find?_some hc'
      have hbuffer : s.buffer (.client k) = c'.buffer := by
        rw [State.buffer, hc']
        rfl
      rw [hbuffer, ← hk']
      exact h.clients c' hmem

/-- Reading on is the reader reading on. -/
theorem framed_append (tr es : List Event) :
    framed p (tr ++ es) =
      ((frame linefeed sizeofBuf (framed p tr).1 (bytesOf p es)).1,
        (framed p tr).2 ++ (frame linefeed sizeofBuf (framed p tr).1 (bytesOf p es)).2) := by
  rw [framed, bytesOf_append, frame_append]
  rfl

/-- A port that gave nothing is where it was. -/
theorem framed_other {tr es : List Event} (h : bytesOf p es = []) :
    framed p (tr ++ es) = framed p tr := by
  rw [framed, bytesOf_append, h, List.append_nil, framed]

/-- **One port is read**, and its buffer is what is pending then. -/
theorem Framed.set {b : ReadBuffer} {es : List Event} (h : Framed s) (hinv : Inv cfg s)
    (hp : s.Feeds cfg p fd) (hother : ∀ q, q ≠ p → bytesOf q es = [] ∧ linesOf q es = [])
    (hpending : b.Pending p (s.trace ++ es))
    (hlines : linesOf p (s.trace ++ es) = (framed p (s.trace ++ es)).2.map (lineText p))
    (hinside : ∀ e ∈ es, e.Inside) (haccepts : accepts es = []) :
    Framed ((s.setBuffer p b).log es) := by
  have htrace : ((s.setBuffer p b).log es).trace = s.trace ++ es := by simp
  have haccepted : ((s.setBuffer p b).log es).accepted = s.accepted := by
    rw [accepted_eq, accepted_eq, htrace, accepts_append, haccepts, List.append_nil]
  have hkeep : ∀ {b' : ReadBuffer} {q : Port}, q ≠ p → b'.Pending q s.trace →
      b'.Pending q (s.trace ++ es) := fun {b' q} hne hb' => by
    rw [ReadBuffer.Pending, framed_other (hother q hne).1]
    exact hb'
  constructor
  · intro q
    rw [htrace]
    by_cases hq : q = p
    · rw [hq]; exact hlines
    · rw [linesOf_append, (hother q hq).2, List.append_nil, framed_other (hother q hq).1]
      exact h.lines q
  · rw [htrace]
    cases p with
    | tty => exact hpending
    | autosample => exact hkeep (by decide) h.tty
    | client k => exact hkeep (by simp) h.tty
  · rw [htrace]
    cases p with
    | tty => exact hkeep (by decide) h.autosample
    | autosample => exact hpending
    | client k => exact hkeep (by simp) h.autosample
  · rw [htrace]
    intro c hc
    cases p with
    | tty => exact hkeep (by simp) (h.clients c hc)
    | autosample => exact hkeep (by simp) (h.clients c hc)
    | client k =>
        obtain ⟨c', hc', rfl⟩ := List.mem_map.mp hc
        -- the client that was read, and the others, whose bytes are as they were
        by_cases hk : c'.conn = k
        · rw [if_pos hk]
          simp only [hk]
          exact hpending
        · rw [if_neg hk]
          exact hkeep (by simpa using hk) (h.clients c' hc')
  · rw [htrace]
    exact fun e he => (List.mem_append.mp he).elim (h.inside e) (hinside e)
  · rw [htrace, haccepted]
    intro k hk
    have hne : Port.client k ≠ p := by
      rintro rfl
      exact absurd (hinv.counted _ (hinv.clients.subset hp)) (Nat.not_lt.mpr hk)
    rw [bytesOf_append, (hother _ hne).1, List.append_nil]
    exact h.unread k hk

/-- The events of a call that reads are inside where it starts inside. -/
theorem inside_readLoop {b : ReadBuffer} (xs : List UInt8) (hb : b.offset < sizeofBuf) :
    ∀ e ∈ (readLoop p b xs).2.2, e.Inside := by
  intro e he
  obtain ⟨i, rfl | ⟨x, rfl⟩, hi⟩ := readLoop_events xs b e he
  · exact hi hb
  · exact hi hb

/-- **A call that takes a line**, whatever else it stores. -/
theorem Framed.takeLine {xs : List UInt8} {b b' : ReadBuffer} {es : List Event}
    (h : Framed s) (es' : List Event) (hinv : Inv cfg s) (hp : s.Feeds cfg p fd)
    (hr : readLoop p (s.buffer p) xs = (.newline, b, es))
    (hes' : ∀ e ∈ es', ∃ i ≤ b.offset, e = .store p i) (htext : b'.text = lineText p b.contents) :
    Framed ((s.setBuffer p b'.reset).log (es ++ es' ++ [.line p b'.text])) := by
  obtain ⟨hoffset, hcontents⟩ := h.buffer hp
  have hframe := frame_readLoop (p := p) xs (s.buffer p)
  have hlt := readLoop_offset_lt (p := p) xs (s.buffer p) hoffset
  have hin := inside_readLoop (p := p) xs hoffset
  have hbytes : ∀ q, q ≠ p → bytesOf q es = [] := fun q hq => by
    have hnone : bytesOf q (readLoop p (s.buffer p) xs).2.2 = [] := bytesOf_readLoop hq
    rwa [hr] at hnone
  have hnolines : ∀ q, linesOf q es = [] := fun q => by
    have hnone : linesOf q (readLoop p (s.buffer p) xs).2.2 = [] := linesOf_readLoop
    rwa [hr] at hnone
  have haccepts : accepts es = [] := by
    have hnone : accepts (readLoop p (s.buffer p) xs).2.2 = [] := accepts_readLoop
    rwa [hr] at hnone
  rw [hr, if_pos rfl, hcontents] at hframe
  rw [hr] at hlt hin
  have hstore : ∀ {β : Type} {f : Event → Option β}, (∀ i, f (.store p i) = none) →
      es'.filterMap f = [] := fun {β f} hf => by
    refine List.filterMap_eq_nil_iff.mpr fun e he => ?_
    obtain ⟨i, -, rfl⟩ := hes' e he
    exact hf i
  have hbytes' : ∀ q, bytesOf q es' = [] := fun q => hstore fun _ => rfl
  have hlines' : ∀ q, linesOf q es' = [] := fun q => hstore fun _ => rfl
  have haccepts' : accepts es' = [] := hstore fun _ => rfl
  have hown : bytesOf p (es ++ es' ++ [.line p b'.text]) = bytesOf p es := by
    rw [bytesOf_append, bytesOf_append, hbytes', List.append_nil]
    exact List.append_nil _
  refine h.set hinv hp ?_ ⟨(by decide : 0 < sizeofBuf), ?_⟩ ?_ ?_ ?_
  · intro q hq
    constructor
    · rw [bytesOf_append, bytesOf_append, hbytes q hq, hbytes']
      rfl
    · rw [linesOf_append, linesOf_append, hnolines, hlines']
      simp [linesOf, Ne.symm hq]
  · rw [framed_append, hown, hframe]
    rfl
  · rw [framed_append, hown, hframe, linesOf_append, linesOf_append, linesOf_append, hnolines,
      hlines', h.lines, List.map_append, List.map_singleton, ← htext]
    simp [linesOf]
  · intro e he
    rcases List.mem_append.mp he with he | he
    · rcases List.mem_append.mp he with he | he
      · exact hin e he
      · obtain ⟨i, hi, rfl⟩ := hes' e he
        exact lt_of_le_of_lt hi hlt
    · rw [List.mem_singleton.mp he]
      trivial
  · rw [accepts_append, accepts_append, haccepts, haccepts']
    rfl

/-- **A call that takes no line.** -/
theorem Framed.readOn {xs : List UInt8} {x : LineExit} {b : ReadBuffer} {es : List Event}
    (h : Framed s) (hinv : Inv cfg s) (hp : s.Feeds cfg p fd)
    (hr : readLoop p (s.buffer p) xs = (x, b, es)) (hx : x ≠ .newline) :
    Framed ((s.setBuffer p b).log es) := by
  obtain ⟨hoffset, hcontents⟩ := h.buffer hp
  have hframe := frame_readLoop (p := p) xs (s.buffer p)
  have hlt := readLoop_offset_lt (p := p) xs (s.buffer p) hoffset
  have hin := inside_readLoop (p := p) xs hoffset
  have hbytes : ∀ q, q ≠ p → bytesOf q es = [] := fun q hq => by
    have hnone : bytesOf q (readLoop p (s.buffer p) xs).2.2 = [] := bytesOf_readLoop hq
    rwa [hr] at hnone
  have hnolines : ∀ q, linesOf q es = [] := fun q => by
    have hnone : linesOf q (readLoop p (s.buffer p) xs).2.2 = [] := linesOf_readLoop
    rwa [hr] at hnone
  have haccepts : accepts es = [] := by
    have hnone : accepts (readLoop p (s.buffer p) xs).2.2 = [] := accepts_readLoop
    rwa [hr] at hnone
  rw [hr, if_neg hx, hcontents] at hframe
  rw [hr] at hlt hin
  refine h.set hinv hp (fun q hq => ⟨hbytes q hq, hnolines q⟩) ⟨hlt, ?_⟩ ?_ hin haccepts
  · rw [framed_append, hframe]
  · rw [framed_append, hframe, linesOf_append, hnolines, List.append_nil, List.append_nil]
    exact h.lines p

/-- An event that is no read, no line and no acceptance changes
nothing here. -/
theorem Framed.note (h : Framed s) (es : List Event) (hbytes : ∀ p, bytesOf p es = [])
    (hlines : ∀ p, linesOf p es = []) (haccepts : accepts es = []) (hinside : ∀ e ∈ es, e.Inside)
    (ht : t.trace = s.trace ++ es) (htty : t.ttyBuffer = s.ttyBuffer)
    (hauto : t.autosampleBuffer = s.autosampleBuffer)
    (hclients : ∀ c ∈ t.clientLst, ∃ c' ∈ s.clientLst, c'.conn = c.conn ∧ c'.buffer = c.buffer) :
    Framed t := by
  refine h.congr ?_ ?_ htty hauto hclients ?_ ?_
  · intro p
    rw [ht, bytesOf_append, hbytes, List.append_nil]
  · intro p
    rw [ht, linesOf_append, hlines, List.append_nil]
  · intro e he
    rw [ht] at he
    exact (List.mem_append.mp he).imp id (hinside e)
  · rw [accepted_eq, accepted_eq, ht, accepts_append, haccepts, List.append_nil]

theorem Framed.setListeners (h : Framed s) (f : Listeners → Listeners) :
    Framed (s.setListeners fd f) := by
  refine h.note [] (fun _ => rfl) (fun _ => rfl) rfl (by simp) (by simp) rfl rfl ?_
  intro c hc
  obtain ⟨c', hc', rfl⟩ := List.mem_map.mp hc
  refine ⟨c', hc', ?_⟩
  split <;> exact ⟨rfl, rfl⟩

theorem Heard.framed (h : Heard cfg s t) (hinv : Inv cfg s) (hs : Framed s) : Framed t := by
  have hself : ∀ c ∈ s.clientLst, ∃ c' ∈ s.clientLst, c'.conn = c.conn ∧ c'.buffer = c.buffer :=
    fun c hc => ⟨c, hc, rfl, rfl⟩
  cases h with
  | read hp hne hr hx => exact hs.readOn hinv hp hr hx
  | @line p fd xs b es hp hne hr =>
      have htext : (b.store b.offset 0).text = lineText p b.contents := by
        rw [ReadBuffer.text, ReadBuffer.contents_store le_rfl]
        cases p with
        | tty => exact absurd rfl hne
        | autosample => rfl
        | client k => rfl
      have hline := hs.takeLine [.store p b.offset] hinv hp hr
        (fun e he => ⟨b.offset, le_rfl, List.mem_singleton.mp he⟩) htext
      rw [List.append_assoc, List.singleton_append] at hline
      exact hline.setListeners _
  | note h =>
      refine hs.note _ (fun _ => bytesOf_of_inert h) (fun _ => linesOf_of_inert h)
        (accepts_of_inert h) (fun e he => ?_) rfl rfl rfl hself
      have hinert := h e he
      cases e <;> first | exact hinert | trivial
  | push =>
      exact hs.note _ (fun _ => rfl) (fun _ => rfl) rfl (by simp [Event.Inside]) rfl rfl rfl hself

theorem Inner.framed (h : Inner cfg s t) (hinv : Inv cfg s) (hs : Framed s) : Framed t := by
  have hself : ∀ c ∈ s.clientLst, ∃ c' ∈ s.clientLst, c'.conn = c.conn ∧ c'.buffer = c.buffer :=
    fun c hc => ⟨c, hc, rfl, rfl⟩
  have hp : s.Feeds cfg .tty cfg.ttyFd := rfl
  cases h with
  | heard h => exact h.framed hinv hs
  | ttyRead hr hx => exact hs.readOn hinv hp hr hx
  | @ttyLine xs b b' es es' hr h' =>
      obtain rfl : es' = (endTtyLine b).2 := by rw [h']
      obtain rfl : b' = (endTtyLine b).1 := by rw [h']
      exact hs.takeLine _ hinv hp hr (endTtyLine_events b) (endTtyLine_text b)
  | answer text =>
      rw [State.sendAnswer]
      split
      · exact hs
      · exact hs.note _ (fun _ => rfl) (fun _ => rfl) rfl (by simp [Event.Inside]) rfl rfl rfl hself
  | pop expired =>
      rw [State.popCmd]
      split
      · exact hs
      · exact hs.note _ (fun _ => rfl) (fun _ => rfl) rfl (by simp [Event.Inside]) rfl rfl rfl hself
  | write =>
      exact hs.note _ (fun _ => rfl) (fun _ => rfl) rfl (by simp [Event.Inside]) rfl rfl rfl hself
  | enabled =>
      exact hs.note [] (fun _ => rfl) (fun _ => rfl) rfl (by simp) (by simp) rfl rfl hself

/-- **Every effect keeps the buffers right.** -/
theorem Effect.framed (h : Effect cfg G s t) (hinv : Inv cfg s) (hs : Framed s) : Framed t := by
  have hself : ∀ c ∈ s.clientLst, ∃ c' ∈ s.clientLst, c'.conn = c.conn ∧ c'.buffer = c.buffer :=
    fun c hc => ⟨c, hc, rfl, rfl⟩
  cases h with
  | inner hi => exact hi.framed hinv hs
  | @accept fd malloc stale hfresh hG =>
      have hbytes : ∀ p, bytesOf p (addClient fd malloc stale s).trace = bytesOf p s.trace :=
        fun p => by simp [addClient, bytesOf]
      have hlines : ∀ p, linesOf p (addClient fd malloc stale s).trace = linesOf p s.trace :=
        fun p => by simp [addClient, linesOf]
      have haccepted : s.accepted ≤ (addClient fd malloc stale s).accepted := by
        rw [accepted_eq, accepted_eq, addClient, accepts_append, List.length_append]
        exact Nat.le_add_right _ _
      refine ⟨fun p => ?_, ?_, ?_, ?_, ?_, fun k hk => ?_⟩
      · rw [hlines, framed, hbytes]; exact hs.lines p
      · rw [ReadBuffer.Pending, framed, hbytes]; exact hs.tty
      · rw [ReadBuffer.Pending, framed, hbytes]; exact hs.autosample
      · intro c hc
        rw [ReadBuffer.Pending, framed, hbytes]
        simp only [addClient, clientAdd] at hc
        split at hc
        · exact hs.clients c hc
        · rcases List.mem_append.mp hc with hc | hc
          · exact hs.clients c hc
          · rw [List.mem_singleton.mp hc, hs.unread _ le_rfl]
            exact ⟨(by decide : 0 < sizeofBuf), rfl⟩
      · intro e he
        rcases List.mem_append.mp he with he | he
        · exact hs.inside e he
        · rw [List.mem_singleton.mp he]
          trivial
      · rw [hbytes]
        exact hs.unread k (haccepted.trans hk)
  | serve =>
      exact hs.note _ (fun _ => rfl) (fun _ => rfl) rfl (by simp [Event.Inside]) rfl rfl rfl hself
  | close =>
      refine hs.note _ (fun _ => rfl) (fun _ => rfl) rfl (by simp [Event.Inside]) rfl rfl rfl ?_
      exact fun c hc => ⟨c, List.mem_of_mem_eraseP hc, rfl, rfl⟩
  | hangup =>
      exact hs.note _ (fun _ => rfl) (fun _ => rfl) rfl (by simp [Event.Inside]) rfl rfl rfl hself
  | ret => exact hs.note [] (fun _ => rfl) (fun _ => rfl) rfl (by simp) (by simp) rfl rfl hself

theorem Effects.framed (h : Effects cfg G s t) (hinv : Inv cfg s) (hs : Framed s) : Framed t :=
  (h.invariant (I := fun u => Inv cfg u ∧ Framed u) ⟨hinv, hs⟩ fun _ _ hu hv =>
    ⟨hv.inv hu.1, hv.framed hu.1 hu.2⟩).2

theorem Framed.entry (staleTty stalePipe : ℕ → UInt8) :
    Framed (entry cfg staleTty stalePipe) where
  lines _ := rfl
  tty := ⟨(by decide : 0 < sizeofBuf), rfl⟩
  autosample := ⟨(by decide : 0 < sizeofBuf), rfl⟩
  clients _ hc := by cases hc
  inside _ he := by cases he
  unread _ _ := rfl

/-- **The buffers are right in every run.** -/
theorem Reachable.framed (h : Reachable cfg A s) : Framed s :=
  h.invariant (fun _ _ _ => True) (fun _ _ => Framed.entry _ _) (fun _ _ _ _ _ _ _ _ _ => trivial)
    fun _ _ hinv hu he => he.framed hinv hu

end Daemon

end Realraum
