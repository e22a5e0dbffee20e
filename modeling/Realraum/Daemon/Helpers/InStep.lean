import Realraum.Daemon.Helpers.Dispatching
import Realraum.Daemon.Helpers.Turn
import Realraum.Daemon.Model.Firmware
import Mathlib.Data.List.ModifyLast
/-!
# Helpers — the daemon and the firmware in step

What every line did is compared with what it ought to do, step by step:
the firmware prints, bytes are read, a line is taken, a command is
written. The two agree in every world (`World.Reached.inStep`) as long as
the lines the firmware prints of its own accord are taken while nothing
is queued.
-/

namespace Realraum

namespace Daemon

open Dispatch

variable {cfg : Setup} {B : World → Happening → Prop} {w w' : World} {s t u v : State} {e : Env}
variable {es tr : List Event} {printed ls ls' : List Printed} {rs rs' : List Request}
variable {opt : Options}

/-! ## What lines ought to do -/

@[simp] theorem replies_nil : replies [] = [] := rfl

@[simp] theorem replies_reply (l : Line) (ls : List Printed) :
    replies (.reply l :: ls) = .reply l :: replies ls := rfl

@[simp] theorem replies_movement (ls : List Printed) : replies (.movement :: ls) = replies ls := rfl

@[simp] theorem replies_panicButton (ls : List Printed) :
    replies (.panicButton :: ls) = replies ls := rfl

@[simp] theorem replies_append (ls ls' : List Printed) :
    replies (ls ++ ls') = replies ls ++ replies ls' :=
  List.filter_append _ _

/-- **Lines use up commands one reply at a time**: what comes later, lines
or commands, plays no part before, and the later lines go on with what is
left. -/
theorem expected_split (opt : Options) (ls' : List Printed) (rs' : List Request) :
    ∀ (ls : List Printed) (rs : List Request), (replies ls).length ≤ rs.length →
    expected opt (ls ++ ls') (rs ++ rs') =
      expected opt ls rs ++ expected opt ls' (rs.drop (replies ls).length ++ rs') := by
  intro ls
  induction ls with
  | nil => intro rs _; simp [expected]
  | cons l ls ih =>
      intro rs hrs
      cases l with
      | reply l =>
          cases rs with
          | nil => simp at hrs
          | cons r rs =>
              have hrs' : (replies ls).length ≤ rs.length := by simpa using hrs
              simp [expected, ih rs hrs']
      | movement => simpa [expected] using ih rs hrs
      | panicButton => simpa [expected] using ih rs hrs

/-! ## What lines did -/

theorem handled_append (tr es : List Event) : handled (tr ++ es) = es.foldl handle (handled tr) :=
  List.foldl_append

theorem handled_ttySide (tr : List Event) : handled (ttySide tr) = handled tr := by
  rw [handled, ttySide, List.foldl_filter]
  refine congrArg (fun f => List.foldl f [] tr) ?_
  funext hs x
  split
  · rfl
  · rename_i hx
    cases x with
    | line p text => cases p <;> simp_all [Event.onTtySide, handle]
    | pop r b expired => exact absurd rfl hx
    | answer r conn text => exact absurd rfl hx
    | _ => rfl

/-- Reading does nothing to the lines there were. -/
theorem TtyReads.foldl_handle (h : TtyReads e es) (hs : List Handled) :
    es.foldl handle hs = hs := by
  have hreads := h.1
  clear h
  induction es with
  | nil => rfl
  | cons x es ih =>
      obtain ⟨i, b, rfl⟩ := hreads x List.mem_cons_self
      exact ih fun y hy => hreads y (List.mem_cons_of_mem _ hy)

/-- A line answers the head of the queue and removes it. -/
theorem foldl_handle_lineEvents (line : CStr) (hs : List Handled) :
    (lineEvents opt s line).foldl handle hs = hs ++ [⟨line,
      s.cmdQ.head?.toList.map fun c => (c.toRequest, responseData opt line),
      s.cmdQ.head?.toList.map Cmd.toRequest⟩] := by
  rw [lineEvents, answerEvents, popEvents]
  cases s.cmdQ.head? with
  | none => rfl
  | some c => simp [handle, List.modifyLast_concat]

/-! ## What is seen on the side of the tty -/

theorem acts_ttySide {β : Type*} {f : Act Request → Option β} (hf : ∀ r, f (.push r) = none)
    (tr : List Event) : (acts (ttySide tr)).filterMap f = (acts tr).filterMap f := by
  rw [acts, acts, List.filterMap_filterMap, List.filterMap_filterMap]
  refine filterMap_ttySide (fun x hx => ?_) tr
  cases x with
  | push r => exact hf r
  | pop r b expired => cases hx
  | write r bytes => cases hx
  | _ => rfl

theorem written_append (tr es : List Event) : written (tr ++ es) = written tr ++ written es := by
  rw [written, acts_append, writes_append, written, written]

theorem written_ttySide (tr : List Event) : written (ttySide tr) = written tr :=
  acts_ttySide (fun _ => rfl) tr

theorem served_ttySide (tr : List Event) :
    Dispatch.served (acts (ttySide tr)) = Dispatch.served (acts tr) :=
  acts_ttySide (fun _ => rfl) tr

/-- **The daemon and the firmware are in step**: the bytes read are the
first of those printed, no more commands were answered than written, the
commands popped as sent are those whose answers were taken, and every
line did what it ought to. -/
structure InStep (opt : Options) (printed : List Printed) (tr : List Event) : Prop where
  heard : bytesOf .tty tr <+: stream printed
  replied : (replies printed).length ≤ (written tr).length
  popped : (Dispatch.served (acts tr)).length = (replies (taken printed tr)).length
  matched : handled tr = expected opt (taken printed tr) (written tr)

/-- Only the side of the tty matters. -/
theorem inStep_ttySide : InStep opt printed (ttySide tr) ↔ InStep opt printed tr := by
  have htaken : taken printed (ttySide tr) = taken printed tr := by
    rw [taken, linesOf_ttySide, taken]
  constructor
  · rintro ⟨h₁, h₂, h₃, h₄⟩
    rw [bytesOf_ttySide] at h₁
    rw [written_ttySide] at h₂
    rw [served_ttySide, htaken] at h₃
    rw [handled_ttySide, htaken, written_ttySide] at h₄
    exact ⟨h₁, h₂, h₃, h₄⟩
  · rintro ⟨h₁, h₂, h₃, h₄⟩
    rw [← bytesOf_ttySide] at h₁
    rw [← written_ttySide] at h₂
    rw [← served_ttySide, ← htaken] at h₃
    rw [← handled_ttySide, ← htaken, ← written_ttySide] at h₄
    exact ⟨h₁, h₂, h₃, h₄⟩

/-- The answers taken are among those printed. -/
theorem InStep.length_replies_taken_le (h : InStep opt printed tr) :
    (replies (taken printed tr)).length ≤ (written tr).length := by
  have hsub : (replies (taken printed tr)).Sublist (replies printed) :=
    (List.take_sublist _ _).filter _
  exact hsub.length_le.trans h.replied

/-- **The lines taken are the first that were printed.** -/
theorem Framed.lines_taken (hs : Framed s) (hheard : bytesOf .tty s.trace <+: stream printed) :
    linesOf .tty s.trace = (taken printed s.trace).map Printed.text := by
  have hpre : (framed .tty s.trace).2 <+: printed.map fun l => l.line.bytes := by
    refine Framing.frame_prefix_of_encode (by decide) ?_ ?_ hheard
    · intro l hl
      obtain ⟨p, -, rfl⟩ := List.mem_map.mp hl
      exact p.line.whole
    · intro l hl
      obtain ⟨p, -, rfl⟩ := List.mem_map.mp hl
      exact p.line.fits
  rw [List.prefix_iff_eq_take, ← List.map_take] at hpre
  rw [taken, hs.lines .tty, List.length_map]
  conv_lhs => rw [hpre]
  rw [List.map_map]
  rfl

/-! ## The steps -/

/-- The firmware prints a line. -/
theorem InStep.prints {l : Printed} (h : InStep opt printed s.trace) (hs : Framed s)
    (hl : ¬ (l.isReply ∧ (written s.trace).length ≤ (replies printed).length)) :
    InStep opt (printed ++ [l]) s.trace := by
  have hlen : (linesOf .tty s.trace).length ≤ printed.length := by
    rw [hs.lines_taken h.heard, List.length_map]
    exact (List.take_sublist _ _).length_le
  have htaken : taken (printed ++ [l]) s.trace = taken printed s.trace :=
    List.take_append_of_le_length hlen
  refine ⟨?_, ?_, by rw [htaken]; exact h.popped, by rw [htaken]; exact h.matched⟩
  · rw [stream, List.map_append, Framing.encode_append]
    exact h.heard.trans (List.prefix_append _ _)
  · rw [replies_append, List.length_append]
    have hold := h.replied
    cases l with
    | reply l =>
        have hnew : ¬ (written s.trace).length ≤ (replies printed).length :=
          fun hle => hl ⟨rfl, hle⟩
        simp
        omega
    | movement => simpa using hold
    | panicButton => simpa using hold

/-- Bytes and expiries change nothing else. -/
theorem InStep.quiet (h : InStep opt printed tr)
    (hbytes : bytesOf .tty (tr ++ es) <+: stream printed) (hlines : linesOf .tty es = [])
    (hwritten : written es = []) (hserved : Dispatch.served (acts es) = [])
    (hfold : ∀ hs, es.foldl handle hs = hs) : InStep opt printed (tr ++ es) := by
  have htaken : taken printed (tr ++ es) = taken printed tr := by
    rw [taken, linesOf_append, hlines, List.append_nil, taken]
  have hwritten' : written (tr ++ es) = written tr := by
    rw [written_append, hwritten, List.append_nil]
  refine ⟨hbytes, by rw [hwritten']; exact h.replied, ?_, ?_⟩
  · rw [acts_append, served_append, hserved, List.append_nil, htaken]
    exact h.popped
  · rw [handled_append, hfold, htaken, hwritten']
    exact h.matched

/-- A command is written. -/
theorem InStep.write (h : InStep opt printed tr) (r : Request) (bytes : List UInt8) :
    InStep opt printed (tr ++ [.write r bytes]) := by
  have htaken : taken printed (tr ++ [.write r bytes]) = taken printed tr := by
    simp [taken, linesOf]
  have hwritten : written (tr ++ [.write r bytes]) = written tr ++ [r] := by
    rw [written_append]
    rfl
  refine ⟨?_, ?_, ?_, ?_⟩
  · rw [bytesOf_append]
    exact (List.append_nil _).symm ▸ h.heard
  · rw [hwritten, List.length_append]
    exact Nat.le_add_right_of_le h.replied
  · rw [acts_append, served_append, htaken]
    exact (List.append_nil _).symm ▸ h.popped
  · have hsplit := expected_split opt [] [r] (taken printed tr) (written tr)
      h.length_replies_taken_le
    rw [handled_append, htaken, hwritten, ← List.append_nil (taken printed tr), hsplit]
    exact h.matched.trans (List.append_nil _).symm

/-- The line that was taken last is the next of those printed. -/
theorem exists_next {texts : List CStr} {line : CStr}
    (h : texts ++ [line] = (printed.take (texts.length + 1)).map Printed.text) :
    ∃ l ∈ printed[texts.length]?, line = l.text := by
  rw [List.take_add_one] at h
  cases hl : printed[texts.length]? with
  | none =>
      have hlen := congrArg List.length h
      rw [hl] at hlen
      simp at hlen
      omega
  | some l =>
      rw [hl, List.map_append] at h
      exact ⟨l, rfl, List.singleton_inj.mp (List.append_inj' h rfl).2⟩

theorem taken_line {l : Printed} (hl : l ∈ printed[(linesOf .tty tr).length]?)
    (hlines : linesOf .tty es = [l.text]) : taken printed (tr ++ es) = taken printed tr ++ [l] := by
  rw [taken, linesOf_append, hlines, List.length_append, List.length_singleton, List.take_add_one,
    Option.mem_def.mp hl, taken]
  rfl

theorem bytesOf_lineEvents (line : CStr) : bytesOf .tty (lineEvents opt s line) = [] := by
  rw [lineEvents, answerEvents, popEvents]
  cases s.cmdQ.head? <;> rfl

theorem linesOf_lineEvents (line : CStr) : linesOf .tty (lineEvents opt s line) = [line] := by
  rw [lineEvents, answerEvents, popEvents]
  cases s.cmdQ.head? <;> rfl

/-- **A line that answers nothing**, taken while nothing is queued. -/
theorem InStep.takesOwn {l : Printed} (h : InStep opt printed tr)
    (hl : l ∈ printed[(linesOf .tty tr).length]?) (hown : l.isReply = false) (hq : s.cmdQ = []) :
    InStep opt printed (tr ++ lineEvents opt s l.text) := by
  have hevents : lineEvents opt s l.text = [.line .tty l.text] := by
    rw [lineEvents, answerEvents, popEvents, hq]
    rfl
  have htaken : taken printed (tr ++ [.line .tty l.text]) = taken printed tr ++ [l] :=
    taken_line hl rfl
  have hwritten : written (tr ++ [.line .tty l.text]) = written tr := by
    rw [written_append]
    exact List.append_nil _
  have hreplies : replies [l] = [] := by
    cases l with
    | reply l => cases hown
    | movement => rfl
    | panicButton => rfl
  have hdoes : ∀ rs, expected opt [l] rs = [⟨l.text, [], []⟩] := by
    cases l with
    | reply l => cases hown
    | movement => intro rs; rfl
    | panicButton => intro rs; rfl
  rw [hevents]
  refine ⟨?_, by rw [hwritten]; exact h.replied, ?_, ?_⟩
  · rw [bytesOf_append]
    exact (List.append_nil _).symm ▸ h.heard
  · rw [acts_append, served_append, htaken, replies_append, hreplies, List.append_nil]
    exact (List.append_nil _).symm ▸ h.popped
  · have hsplit := expected_split opt [l] [] (taken printed tr) (written tr)
      h.length_replies_taken_le
    rw [List.append_nil, hdoes] at hsplit
    rw [handled_append, htaken, hwritten, hsplit, ← h.matched]
    rfl

/-- **The answer to the command that was sent.** -/
theorem InStep.takesReply {l : Line} {c : Cmd} {q : List Cmd} (h : InStep opt printed tr)
    (hl : .reply l ∈ printed[(linesOf .tty tr).length]?) (hq : s.cmdQ = c :: q)
    (hsent : c.sent = true)
    (hwritten : written tr = Dispatch.served (acts tr) ++ [c.toRequest]) :
    InStep opt printed (tr ++ lineEvents opt s (Printed.reply l).text) := by
  set text := (Printed.reply l).text with htext
  have hevents : lineEvents opt s text =
      [.line .tty text, .answer c.toRequest (s.connAt c.fd) (responseData opt text),
        .pop c.toRequest true false] := by
    rw [lineEvents, answerEvents, popEvents, hq, ← hsent]
    rfl
  have htaken : taken printed (tr ++ lineEvents opt s text) = taken printed tr ++ [.reply l] :=
    taken_line hl (by rw [hevents]; rfl)
  have hwritten' : written (tr ++ lineEvents opt s text) = written tr := by
    rw [written_append, hevents]
    exact List.append_nil _
  have hrest : (written tr).drop (replies (taken printed tr)).length = [c.toRequest] := by
    rw [hwritten, ← h.popped, List.drop_left]
  refine ⟨?_, by rw [hwritten']; exact h.replied, ?_, ?_⟩
  · rw [bytesOf_append, hevents]
    exact (List.append_nil _).symm ▸ h.heard
  · rw [acts_append, served_append, htaken, replies_append, List.length_append, List.length_append,
      h.popped, hevents]
    rfl
  · have hsplit := expected_split opt [.reply l] [] (taken printed tr) (written tr)
      h.length_replies_taken_le
    rw [List.append_nil, List.append_nil, hrest] at hsplit
    rw [handled_append, htaken, hwritten', hsplit, ← h.matched, foldl_handle_lineEvents, hq]
    rfl

/-- **A reply finds its command at the head**: the firmware answers only
what was written, and what was written is what was answered and the
head. -/
theorem InStep.head_of_reply {l : Line} (h : InStep opt printed tr)
    (hwritten : written tr = Dispatch.served (acts tr) ++ Dispatch.written (entries s.cmdQ))
    (htail : ∀ c ∈ s.cmdQ.tail, c.sent = false)
    (hl : .reply l ∈ printed[(linesOf .tty tr).length]?) :
    ∃ c q, s.cmdQ = c :: q ∧ c.sent = true ∧
      written tr = Dispatch.served (acts tr) ++ [c.toRequest] := by
  -- with the line taken now, one reply more was printed than commands popped
  have hmore : (replies (taken printed tr)).length + 1 ≤ (written tr).length := by
    have hpre : taken printed tr ++ [.reply l] = printed.take ((linesOf .tty tr).length + 1) := by
      rw [List.take_add_one, Option.mem_def.mp hl, taken]
      rfl
    have hsub : (replies (taken printed tr ++ [.reply l])).Sublist (replies printed) := by
      rw [hpre]
      exact (List.take_sublist _ _).filter _
    have hlen := hsub.length_le
    rw [replies_append, List.length_append] at hlen
    exact hlen.trans h.replied
  rw [← h.popped, hwritten, List.length_append, Nat.add_le_add_iff_left] at hmore
  cases hq : s.cmdQ with
  | nil =>
      rw [hq] at hmore
      cases hmore
  | cons c q =>
      rw [hq] at hmore hwritten htail
      have hunsent : ∀ x ∈ entries q, x.2 = false := fun x hx => by
        obtain ⟨d, hd, rfl⟩ := List.mem_map.mp hx
        exact htail d hd
      have hhead : Dispatch.written (entries (c :: q)) = if c.sent then [c.toRequest] else [] :=
        written_cons hunsent c.sent
      rw [hhead] at hmore hwritten
      cases hsent : c.sent with
      | false =>
          rw [hsent] at hmore
          cases hmore
      | true => exact ⟨c, q, rfl, hsent, by rw [hwritten, hsent]; rfl⟩

/-- **A line is taken.** -/
theorem InStep.takes {l : Printed} (h : InStep opt printed tr)
    (hwritten : written tr = Dispatch.served (acts tr) ++ Dispatch.written (entries s.cmdQ))
    (htail : ∀ c ∈ s.cmdQ.tail, c.sent = false)
    (hl : l ∈ printed[(linesOf .tty tr).length]?) (hidle : l.isReply = false → s.cmdQ = []) :
    InStep opt printed (tr ++ lineEvents opt s l.text) := by
  cases hkind : l.isReply with
  | false => exact h.takesOwn hl hkind (hidle hkind)
  | true =>
      cases l with
      | reply l =>
          obtain ⟨c, q, hq, hsent, hlast⟩ := h.head_of_reply hwritten htail hl
          exact h.takesReply hl hq hsent hlast
      | movement => cases hkind
      | panicButton => cases hkind

theorem TtyReads.filterMap_eq_nil {β : Type*} {f : Event → Option β} (h : TtyReads e es)
    (hf : ∀ i b, f (.read .tty i b) = none) : es.filterMap f = [] :=
  List.filterMap_eq_nil_iff.mpr fun x hx => by
    obtain ⟨i, b, rfl⟩ := h.1 x hx
    exact hf i b

/-- Bytes are read. -/
theorem InStep.reads (h : InStep opt printed tr) (hes : TtyReads e es)
    (hread : bytesOf .tty tr ++ e.tty.bytes <+: stream printed) :
    InStep opt printed (tr ++ es) := by
  have hacts : acts es = [] := hes.filterMap_eq_nil fun _ _ => rfl
  have hbytes : bytesOf .tty (tr ++ es) <+: stream printed := by
    rw [bytesOf_append]
    exact ((List.prefix_append_right_inj _).mpr hes.2).trans hread
  exact h.quiet hbytes (hes.filterMap_eq_nil fun _ _ => rfl) (by rw [written, hacts]; rfl)
    (by rw [hacts]; rfl) hes.foldl_handle

/-- A command that was not sent expires. -/
theorem InStep.expires (h : InStep opt printed tr) (r : Request) :
    InStep opt printed (tr ++ [.pop r false true]) := by
  refine h.quiet ?_ rfl rfl rfl fun _ => rfl
  rw [bytesOf_append]
  exact (List.append_nil _).symm ▸ h.heard

/-- **The first phase of an iteration keeps them in step.** -/
theorem Popped.inStep {A : State → Env → Prop} (hpop : Popped cfg e s u) (hs : Reachable cfg A s)
    (h : InStep cfg.opt printed s.trace)
    (hread : bytesOf .tty s.trace ++ e.tty.bytes <+: stream printed)
    (hexpires : TimesOut e s →
      ∀ c ∈ s.cmdQ.head?, cmdHasExpired c e.now = true → c.sent = false)
    (hidle : TakesLine cfg e s →
      ∀ l ∈ printed[(linesOf .tty s.trace).length]?, l.isReply = false → s.cmdQ = [])
    (hlines : bytesOf .tty u.trace <+: stream printed →
      linesOf .tty u.trace = (taken printed u.trace).map Printed.text) :
    InStep cfg.opt printed u.trace := by
  have hside : InStep cfg.opt printed (ttySide s.trace) := inStep_ttySide.mpr h
  rw [← bytesOf_ttySide] at hread
  rw [← inStep_ttySide]
  cases hpop with
  | expired hout hexp hq hu =>
      obtain ⟨c, hc, hlate⟩ := hexp
      have hunsent : c.sent = false := hexpires hout c hc hlate
      have hpop : popEvents s.cmdQ true = [.pop c.toRequest false true] := by
        rw [popEvents, Option.mem_def.mp hc, ← hunsent]
        rfl
      rw [hu, hpop]
      exact hside.expires _
  | kept hline hout hq hu =>
      obtain ⟨es, hes, hu⟩ := hu
      rw [hu]
      exact hside.reads hes hread
  | line hline hq hu =>
      -- first the bytes of the line, then what is done about it
      obtain ⟨es, hes, hu⟩ := hu
      have hreads : InStep cfg.opt printed (ttySide s.trace ++ es) := hside.reads hes hread
      have hcount : linesOf .tty (ttySide s.trace ++ es) = linesOf .tty s.trace := by
        rw [linesOf_append, linesOf_ttySide]
        exact (congrArg _ (hes.filterMap_eq_nil fun _ _ => rfl)).trans (List.append_nil _)
      have hacts : acts es = [] := hes.filterMap_eq_nil fun _ _ => rfl
      have hwritten : written (ttySide s.trace ++ es) =
          Dispatch.served (acts (ttySide s.trace ++ es)) ++
            Dispatch.written (entries s.cmdQ) := by
        rw [written, acts_append, hacts, List.append_nil, served_ttySide, ← hs.dispatch.writes_eq]
        exact written_ttySide _
      have hbytes : bytesOf .tty u.trace <+: stream printed := by
        rw [← bytesOf_ttySide, hu, bytesOf_append, bytesOf_lineEvents, List.append_nil]
        exact hreads.heard
      have hnew : linesOf .tty u.trace = linesOf .tty s.trace ++ [ttyLineOf s e.tty] := by
        rw [← linesOf_ttySide, hu, linesOf_append, linesOf_lineEvents, hcount]
      have htaken := hlines hbytes
      rw [taken, hnew, List.length_append] at htaken
      obtain ⟨l, hl, htext⟩ := exists_next htaken
      have hown := hidle hline l hl
      rw [← hcount] at hl
      rw [hu, htext]
      exact hreads.takes hwritten hs.tail_unsent hl hown

/-- **An iteration keeps them in step.** -/
theorem Turn.inStep {A : State → Env → Prop} (hturn : Turn cfg e s t) (hs : Reachable cfg A s)
    (ht : Framed t) (h : InStep cfg.opt printed s.trace)
    (hread : bytesOf .tty s.trace ++ e.tty.bytes <+: stream printed)
    (hexpires : TimesOut e s →
      ∀ c ∈ s.cmdQ.head?, cmdHasExpired c e.now = true → c.sent = false)
    (hidle : TakesLine cfg e s →
      ∀ l ∈ printed[(linesOf .tty s.trace).length]?, l.isReply = false → s.cmdQ = []) :
    InStep cfg.opt printed t.trace := by
  rcases hturn.sides with rfl | ⟨u, hpop, hside⟩
  · exact h
  have hbytes : bytesOf .tty t.trace = bytesOf .tty u.trace := by
    rw [← bytesOf_ttySide, ← bytesOf_ttySide u.trace]
    rcases hside with hside | ⟨r, bytes, hside⟩
    · rw [hside]
    · rw [hside, bytesOf_append]
      exact List.append_nil _
  have hlines : linesOf .tty t.trace = linesOf .tty u.trace := by
    rw [← linesOf_ttySide, ← linesOf_ttySide u.trace]
    rcases hside with hside | ⟨r, bytes, hside⟩
    · rw [hside]
    · rw [hside, linesOf_append]
      exact List.append_nil _
  have hu : InStep cfg.opt printed u.trace := by
    refine hpop.inStep hs h hread hexpires hidle fun hheard => ?_
    have htaken := ht.lines_taken (hbytes ▸ hheard)
    rwa [taken, hlines, ← taken] at htaken
  rw [← inStep_ttySide] at hu ⊢
  rcases hside with hside | ⟨r, bytes, hside⟩
  · rw [hside]
    exact hu
  · rw [hside]
    exact hu.write r bytes

/-! ## Runs of the system -/

/-- The daemon of a world is one that runs. -/
theorem World.Reached.daemon (h : w.Reached cfg B) : Reachable cfg (fun _ _ => True) w.daemon := by
  obtain ⟨staleTty, stalePipe, hr⟩ := h
  refine ⟨staleTty, stalePipe, hr.invariant
    (I := fun v => Runs cfg (fun _ _ => True) (entry cfg staleTty stalePipe) v.daemon) .refl
    fun v i w' _ hv hA hw => ?_⟩
  cases i with
  | prints l =>
      rw [worldStep] at hw
      split at hw
      · cases hw
      · cases hw
        exact hv
  | iterates e =>
      obtain ⟨s, hs, rfl⟩ := Option.map_eq_some_iff.mp hw
      exact hv.tail ⟨e, ⟨hA.1.1, trivial⟩, hs⟩

/-- **They stay in step**, while lines that answer nothing are taken while
nothing is queued. -/
theorem World.Reached.inStep (h : w.Reached cfg (TakenIdle cfg)) :
    InStep cfg.opt w.printed w.daemon.trace := by
  obtain ⟨staleTty, stalePipe, hr⟩ := h
  have hstart : InStep cfg.opt [] (entry cfg staleTty stalePipe).trace :=
    ⟨List.nil_prefix, le_rfl, rfl, rfl⟩
  refine hr.invariant (I := fun v => InStep cfg.opt v.printed v.daemon.trace) hstart
    fun v i w' hreach hv hA hw => ?_
  have hs : Reachable cfg (fun _ _ => True) v.daemon := World.Reached.daemon ⟨_, _, hreach⟩
  cases i with
  | prints l =>
      rw [worldStep] at hw
      split at hw
      · cases hw
      · rename_i hl
        cases hw
        exact hv.prints hs.framed hl
  | iterates e =>
      obtain ⟨t, ht, rfl⟩ := Option.map_eq_some_iff.mp hw
      have hturn := iteration_turn hs.inv hs.framed hA.1.1 (result_of_loopStep ht)
      obtain ⟨_, _, hruns⟩ := hs
      have hnext : Reachable cfg (fun _ _ => True) t :=
        ⟨_, _, hruns.tail ⟨e, ⟨hA.1.1, trivial⟩, ht⟩⟩
      exact hturn.inStep ⟨_, _, hruns⟩ hnext.framed hv hA.1.2.1 hA.1.2.2 hA.2

end Daemon

end Realraum
