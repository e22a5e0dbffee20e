import Realraum.Daemon.Model.History
/-!
# Helpers — the operations of the state

What each operation leaves alone, as simp lemmas, and what it does to the
projections of the history.
-/

namespace Realraum

namespace Daemon

variable {s : State} {p p' : Port} {b : ReadBuffer}

namespace State

/-! ## `log` -/

@[simp] theorem log_trace (es : List Event) : (s.log es).trace = s.trace ++ es := rfl

@[simp] theorem log_cmdQ (es : List Event) : (s.log es).cmdQ = s.cmdQ := rfl

@[simp] theorem log_clientLst (es : List Event) : (s.log es).clientLst = s.clientLst := rfl

@[simp] theorem log_conns (es : List Event) : (s.log es).conns = s.conns := rfl

@[simp] theorem log_readfds (es : List Event) : (s.log es).readfds = s.readfds := rfl

@[simp] theorem log_maxFd (es : List Event) : (s.log es).maxFd = s.maxFd := rfl

@[simp] theorem log_returnValue (es : List Event) : (s.log es).returnValue = s.returnValue := rfl

@[simp] theorem log_buffer (es : List Event) : (s.log es).buffer p = s.buffer p := by
  cases p <;> rfl

@[simp] theorem log_connAt (es : List Event) (fd : ℕ) : (s.log es).connAt fd = s.connAt fd := rfl

@[simp] theorem log_nil : s.log [] = s := by
  simp [log]

theorem log_log (es es' : List Event) : (s.log es).log es' = s.log (es ++ es') := by
  simp [log]

/-! ## `setBuffer` -/

@[simp] theorem setBuffer_trace : (s.setBuffer p b).trace = s.trace := by cases p <;> rfl

@[simp] theorem setBuffer_cmdQ : (s.setBuffer p b).cmdQ = s.cmdQ := by cases p <;> rfl

@[simp] theorem setBuffer_conns : (s.setBuffer p b).conns = s.conns := by cases p <;> rfl

@[simp] theorem setBuffer_readfds : (s.setBuffer p b).readfds = s.readfds := by cases p <;> rfl

@[simp] theorem setBuffer_maxFd : (s.setBuffer p b).maxFd = s.maxFd := by cases p <;> rfl

@[simp] theorem setBuffer_returnValue : (s.setBuffer p b).returnValue = s.returnValue := by
  cases p <;> rfl

@[simp] theorem setBuffer_connAt (fd : ℕ) : (s.setBuffer p b).connAt fd = s.connAt fd := by
  cases p <;> rfl

end State

namespace State

/-- A change of the buffer changes no client's connection. -/
@[simp] theorem setBuffer_toConn :
    (s.setBuffer p b).clientLst.map Client.toConn = s.clientLst.map Client.toConn := by
  cases p with
  | tty => rfl
  | autosample => rfl
  | client k =>
      simp only [setBuffer, List.map_map]
      refine List.map_congr_left fun c _ => ?_
      simp only [Function.comp_apply]
      split <;> rfl

/-! ## `setListeners` -/

@[simp] theorem setListeners_trace (fd : ℕ) (f : Listeners → Listeners) :
    (s.setListeners fd f).trace = s.trace := rfl

@[simp] theorem setListeners_cmdQ (fd : ℕ) (f : Listeners → Listeners) :
    (s.setListeners fd f).cmdQ = s.cmdQ := rfl

@[simp] theorem setListeners_conns (fd : ℕ) (f : Listeners → Listeners) :
    (s.setListeners fd f).conns = s.conns := rfl

@[simp] theorem setListeners_readfds (fd : ℕ) (f : Listeners → Listeners) :
    (s.setListeners fd f).readfds = s.readfds := rfl

@[simp] theorem setListeners_maxFd (fd : ℕ) (f : Listeners → Listeners) :
    (s.setListeners fd f).maxFd = s.maxFd := rfl

@[simp] theorem setListeners_returnValue (fd : ℕ) (f : Listeners → Listeners) :
    (s.setListeners fd f).returnValue = s.returnValue := rfl

@[simp] theorem setListeners_toConn (fd : ℕ) (f : Listeners → Listeners) :
    (s.setListeners fd f).clientLst.map Client.toConn = s.clientLst.map Client.toConn := by
  simp only [setListeners, List.map_map]
  refine List.map_congr_left fun c _ => ?_
  simp only [Function.comp_apply]
  split <;> rfl

/-- Flags that are left as they are change nothing. -/
@[simp] theorem setListeners_id (fd : ℕ) : s.setListeners fd id = s := by
  have h : (s.clientLst.map fun c =>
      if (clientFind s.clientLst fd).any (fun l => l.conn = c.conn) then
        { c with listeners := id c.listeners } else c) = s.clientLst := by
    conv_rhs => rw [← List.map_id s.clientLst]
    refine List.map_congr_left fun c _ => ?_
    split <;> rfl
  simp only [setListeners]
  rw [h]

/-- Where `client_find` finds nobody, no flags change. -/
theorem setListeners_of_none {fd : ℕ} {f : Listeners → Listeners}
    (h : clientFind s.clientLst fd = none) : (s.setListeners fd f).clientLst = s.clientLst := by
  simp [setListeners, h]

/-- Where it finds a client, that client's do. -/
theorem setListeners_of_some {fd : ℕ} {f : Listeners → Listeners} {c : Client}
    (h : clientFind s.clientLst fd = some c) :
    (s.setListeners fd f).clientLst = s.clientLst.map fun d =>
      if d.conn = c.conn then { d with listeners := f d.listeners } else d := by
  rw [setListeners]
  refine List.map_congr_left fun d _ => ?_
  by_cases hd : d.conn = c.conn
  · simp [h, hd]
  · simp [h, hd, Ne.symm hd]

end State

/-! ## The history's projections -/

@[simp] theorem acts_append (tr es : List Event) : acts (tr ++ es) = acts tr ++ acts es :=
  List.filterMap_append

@[simp] theorem bytesOf_append (tr es : List Event) :
    bytesOf p (tr ++ es) = bytesOf p tr ++ bytesOf p es :=
  List.filterMap_append

@[simp] theorem linesOf_append (tr es : List Event) :
    linesOf p (tr ++ es) = linesOf p tr ++ linesOf p es :=
  List.filterMap_append

@[simp] theorem accepts_append (tr es : List Event) :
    accepts (tr ++ es) = accepts tr ++ accepts es :=
  List.filterMap_append

@[simp] theorem closes_append (tr es : List Event) : closes (tr ++ es) = closes tr ++ closes es :=
  List.filterMap_append

@[simp] theorem serves_append (tr es : List Event) : serves (tr ++ es) = serves tr ++ serves es :=
  List.filterMap_append

@[simp] theorem acts_nil : acts [] = [] := rfl

@[simp] theorem acts_cons (e : Event) (es : List Event) :
    acts (e :: es) = e.act.toList ++ acts es := by
  cases h : e.act <;> simp [acts, h]

attribute [simp] Event.act

theorem push_mem_acts {tr : List Event} {r : Request} :
    .push r ∈ acts tr ↔ .push r ∈ tr := by
  induction tr with
  | nil => simp
  | cons e tr ih => cases e <;> simp [ih]

theorem write_mem_acts {tr : List Event} {r : Request} :
    .write r ∈ acts tr ↔ ∃ bytes, .write r bytes ∈ tr := by
  induction tr with
  | nil => simp
  | cons e tr ih => cases e <;> simp [ih, exists_or]

theorem pop_mem_acts {tr : List Event} {r : Request} {sent : Bool} :
    .pop r sent ∈ acts tr ↔ ∃ expired, .pop r sent expired ∈ tr := by
  induction tr with
  | nil => simp
  | cons e tr ih => cases e <;> simp [ih, exists_or]

/-- The serials of pushed commands count them. -/
theorem pushed_eq (s : State) : s.pushed = (Dispatch.pushes (acts s.trace)).length := by
  rw [State.pushed]
  induction s.trace with
  | nil => rfl
  | cons e tr ih =>
      cases e <;> simpa [acts, Dispatch.pushes, List.filterMap_cons] using ih

/-- The serials of connections count them. -/
theorem accepted_eq (s : State) : s.accepted = (accepts s.trace).length := by
  rw [State.accepted]
  induction s.trace with
  | nil => rfl
  | cons e tr ih => cases e <;> simpa [accepts, List.filterMap_cons] using ih

end Daemon

end Realraum
