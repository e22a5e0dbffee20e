import Realraum.Common.Latest
import Realraum.Daemon.Grammar
import Realraum.Power.Model.Panic
import Realraum.Power.Model.SwitchCgi
/-!
# From a request to the queue of the daemon

A query is cut into its parameters, and of each of `id` and `power` the last
one counts. So what the daemon queues for a query is the value that its
options have for the id, and nothing where the script does not know the id;
and a request of `switchPower` is such a query.
-/

namespace Realraum

namespace Power

variable {sh : Shell} {vars : Vars} {params : List (String × String)} {w : List Char}
variable {ws : List (List Char)} {c : Char}

/-! ## Cutting -/

/-- A character that means nothing to the shell. -/
def Harmless (c : Char) : Prop := c.isAlphanum = true ∨ c = '=' ∨ c = '&'

/-- **A plain word**, of letters and digits. -/
structure Plain (w : String) : Prop where
  ne_nil : w.toList ≠ []
  isAlphanum : ∀ c ∈ w.toList, c.isAlphanum = true

instance (w : String) : Decidable (Plain w) :=
  decidable_of_iff (w.toList ≠ [] ∧ w.toList.all Char.isAlphanum = true)
    ⟨fun h => ⟨h.1, List.all_eq_true.mp h.2⟩, fun h => ⟨h.1, List.all_eq_true.mpr h.2⟩⟩

/-- **The shell behaves** on words that mean nothing to it: they are no
patterns, and `echo` prints them with blanks in between. -/
structure Shell.Behaves (sh : Shell) : Prop where
  glob : ∀ w : String, (∀ c ∈ w.toList, c ≠ '*' ∧ c ≠ '?' ∧ c ≠ '[' ∧ c ≠ '\\') → sh.glob w = [w]
  echo : ∀ ws : List String, (∀ w ∈ ws, ∀ c ∈ w.toList, c ≠ '-' ∧ c ≠ '\\') →
    sh.echo ws = .ofList ([' '].intercalate (ws.map String.toList))

theorem Harmless.ne {d : Char} (hd : d.isAlphanum = false ∧ d ≠ '=' ∧ d ≠ '&') (h : Harmless c) :
    c ≠ d := by
  rintro rfl
  rcases h with h | h | h
  · exact Bool.false_ne_true (hd.1.symm.trans h)
  · exact hd.2.1 h
  · exact hd.2.2 h

/-- What is joined is harmless if its parts are. -/
theorem harmless_intercalate (hc : Harmless c) (h : ∀ w ∈ ws, ∀ d ∈ w, Harmless d) :
    ∀ d ∈ [c].intercalate ws, Harmless d := by
  intro d hd
  obtain rfl | ⟨w, hw, hd⟩ := Fields.mem_intercalate hd
  · exact hc
  · exact h w hw d hd

/-- **A text of harmless words** is expanded to just these. -/
theorem Shell.Behaves.expand (hsh : sh.Behaves) (h : ∀ w ∈ ws, w ≠ [] ∧ ∀ d ∈ w, Harmless d) :
    sh.expand (.ofList ([' '].intercalate ws)) = ws.map String.ofList := by
  have hblank : ∀ w ∈ ws, w ≠ [] ∧ ' ' ∉ w := fun w hw =>
    ⟨(h w hw).1, fun hmem => ((h w hw).2 ' ' hmem).ne (d := ' ') (by decide) rfl⟩
  have hifs : ([' '].intercalate ws).map ifs = [' '].intercalate ws := by
    refine Eq.trans (List.map_congr_left fun d hd => ?_) (List.map_id _)
    obtain rfl | ⟨w, hw, hd⟩ := Fields.mem_intercalate hd
    · rfl
    · have hd := (h w hw).2 d hd
      refine if_neg ?_
      rw [not_or]
      exact ⟨hd.ne (by decide), hd.ne (by decide)⟩
  have hglob : ∀ w ∈ ws, sh.glob (.ofList w) = [.ofList w] := by
    intro w hw
    refine hsh.glob _ fun d hd => ?_
    have hd := (h w hw).2 d (by rwa [String.toList_ofList] at hd)
    exact ⟨hd.ne (by decide), hd.ne (by decide), hd.ne (by decide), hd.ne (by decide)⟩
  unfold Shell.expand
  rw [String.toList_ofList, hifs, Fields.fields_intercalate hblank]
  clear hblank hifs h
  induction ws with
  | nil => rfl
  | cons w ws ih =>
      rw [List.flatMap_cons, hglob w List.mem_cons_self,
        ih fun w' hw' => hglob w' (List.mem_cons_of_mem _ hw')]
      rfl

/-- **What is printed of a harmless text** is the text. -/
theorem Shell.Behaves.echo_expand (hsh : sh.Behaves) (h : ∀ d ∈ w, Harmless d) :
    sh.echo (sh.expand (.ofList w)) = .ofList w := by
  by_cases hw : w = []
  · subst hw
    have hnone : ∀ w ∈ ([] : List (List Char)), w ≠ [] ∧ ∀ d ∈ w, Harmless d := by
      intro w hw
      cases hw
    have hexpand : sh.expand (.ofList ([' '].intercalate [])) = [] := hsh.expand hnone
    have hecho : sh.echo [] = .ofList ([' '].intercalate []) := hsh.echo [] fun w hw => by cases hw
    rw [List.intercalate_nil] at hexpand hecho
    rw [hexpand, hecho]
  · have hone : ∀ w' ∈ [w], w' ≠ [] ∧ ∀ d ∈ w', Harmless d := by
      intro w' hmem
      rw [List.mem_singleton] at hmem
      exact hmem ▸ ⟨hw, h⟩
    have hexpand : sh.expand (.ofList ([' '].intercalate [w])) = [.ofList w] := hsh.expand hone
    have hecho : sh.echo [.ofList w] = .ofList ([' '].intercalate [w]) := by
      rw [hsh.echo [.ofList w], List.map_singleton, String.toList_ofList]
      intro w' hmem d hd
      rw [List.mem_singleton.mp hmem, String.toList_ofList] at hd
      exact ⟨(h d hd).ne (by decide), (h d hd).ne (by decide)⟩
    rw [List.intercalate_singleton] at hexpand hecho
    rw [hexpand, hecho]

/-- **A text is cut where it was joined.** -/
theorem Shell.Behaves.cut (hsh : sh.Behaves) (hc : Harmless c)
    (h : ∀ w ∈ ws, w ≠ [] ∧ c ∉ w ∧ ∀ d ∈ w, Harmless d) :
    sh.cut c (.ofList ([c].intercalate ws)) = ws.map String.ofList := by
  have htr : tr c (.ofList ([c].intercalate ws)) = .ofList ([' '].intercalate ws) := by
    have hsame : ws.map (List.map fun d => if d = c then ' ' else d) = ws := by
      refine Eq.trans (List.map_congr_left fun w hw => ?_) (List.map_id _)
      refine Eq.trans (List.map_congr_left fun d hd => if_neg ?_) (List.map_id _)
      rintro rfl
      exact (h w hw).2.1 hd
    unfold tr
    rw [String.toList_ofList, Fields.map_intercalate, if_pos rfl, hsame]
  unfold Shell.cut
  rw [hsh.echo_expand (harmless_intercalate hc fun w hw => (h w hw).2.2), htr]
  exact hsh.expand fun w hw => ⟨(h w hw).1, (h w hw).2.2⟩

/-! ## The parameters -/

/-- A parameter as a query has it. -/
def paramText (p : String × String) : List Char := ['='].intercalate [p.1.toList, p.2.toList]

/-- **A query of these parameters.** -/
def queryOf (params : List (String × String)) : String :=
  .ofList (['&'].intercalate (params.map paramText))

/-- **A parameter that says one thing**: its value is not taken for the
name of another. -/
structure Parameter (p : String × String) : Prop where
  key : Plain p.1
  value : Plain p.2
  ne_id : p.2 ≠ "id"
  ne_power : p.2 ≠ "power"

instance (p : String × String) : Decidable (Parameter p) :=
  decidable_of_iff (Plain p.1 ∧ Plain p.2 ∧ p.2 ≠ "id" ∧ p.2 ≠ "power")
    ⟨fun h => ⟨h.1, h.2.1, h.2.2.1, h.2.2.2⟩, fun h => ⟨h.1, h.2, h.3, h.4⟩⟩

/-- The last value of a parameter. -/
def lastOf (key : String) (params : List (String × String)) (default : String) : String :=
  (Latest.latest params key).getD default

theorem Plain.harmless {w : String} (h : Plain w) : ∀ d ∈ w.toList, Harmless d :=
  fun d hd => .inl (h.isAlphanum d hd)

theorem Plain.notMem {w : String} (h : Plain w) (hc : c.isAlphanum = false) : c ∉ w.toList :=
  fun hmem => Bool.false_ne_true (hc.symm.trans (h.isAlphanum c hmem))

/-- A plain word is no mark. -/
theorem Plain.ne_mark {w : String} (h : Plain w) : w ≠ "?" := by
  rintro rfl
  exact h.notMem (c := '?') rfl (List.mem_singleton_self _)

theorem paramText_eq (p : String × String) :
    paramText p = p.1.toList ++ '=' :: p.2.toList := by
  unfold paramText
  rw [List.intercalate_cons_cons, List.intercalate_singleton, List.append_assoc,
    List.singleton_append]

/-- **A query is read parameter by parameter.** -/
theorem readQuery_queryOf (hsh : sh.Behaves) (h : ∀ p ∈ params, Parameter p) :
    readQuery sh vars (queryOf params) =
      params.foldl (fun vars p => (vars.assign p.1).assign p.2) vars := by
  have hparams : sh.cut '&' (queryOf params) = params.map fun p => .ofList (paramText p) := by
    have htexts : ∀ w ∈ params.map paramText, w ≠ [] ∧ '&' ∉ w ∧ ∀ d ∈ w, Harmless d := by
      intro w hw
      obtain ⟨p, hp, rfl⟩ := List.mem_map.mp hw
      obtain ⟨hkey, hvalue, -, -⟩ := h p hp
      rw [paramText_eq]
      refine ⟨List.append_ne_nil_of_right_ne_nil _ (List.cons_ne_nil _ _), ?_, fun d hd => ?_⟩
      · rw [List.mem_append, List.mem_cons]
        rintro (hmem | hmem | hmem)
        · exact hkey.notMem rfl hmem
        · exact absurd hmem (by decide)
        · exact hvalue.notMem rfl hmem
      · rw [List.mem_append, List.mem_cons] at hd
        obtain hd | rfl | hd := hd
        · exact hkey.harmless d hd
        · exact .inr (.inl rfl)
        · exact hvalue.harmless d hd
    have hcut := hsh.cut (.inr (.inr rfl)) htexts
    rw [List.map_map] at hcut
    exact hcut
  have hwords : ∀ p ∈ params, sh.cut '=' (.ofList (paramText p)) = [p.1, p.2] := by
    intro p hp
    obtain ⟨hkey, hvalue, -, -⟩ := h p hp
    have hboth : ∀ w ∈ [p.1.toList, p.2.toList], w ≠ [] ∧ '=' ∉ w ∧ ∀ d ∈ w, Harmless d := by
      intro w hw
      rw [List.mem_cons, List.mem_singleton] at hw
      obtain rfl | rfl := hw
      · exact ⟨hkey.ne_nil, hkey.notMem rfl, hkey.harmless⟩
      · exact ⟨hvalue.ne_nil, hvalue.notMem rfl, hvalue.harmless⟩
    have hcut := hsh.cut (.inr (.inl rfl)) hboth
    rw [List.map_cons, List.map_singleton, String.ofList_toList, String.ofList_toList] at hcut
    exact hcut
  unfold readQuery
  rw [hparams, List.foldl_map]
  refine List.foldl_ext _ _ _ fun vars p hp => ?_
  rw [hwords p hp]
  rfl

/-! ## What the script finds -/

@[simp] theorem lastOf_nil (key default : String) : lastOf key [] default = default := rfl

@[simp] theorem lastOf_cons (key default : String) (p : String × String) :
    lastOf key (p :: params) default = lastOf key params (if p.1 = key then p.2 else default) := by
  unfold lastOf
  rw [Latest.latest_cons]
  cases Latest.latest params key with
  | none =>
      rw [Option.none_or, Option.getD_none]
      split
      · rfl
      · rfl
  | some value => rfl

/-- **One parameter** sets the variable it names and no other. -/
theorem Parameter.assign {p : String × String} (h : Parameter p) (hid : vars.id ≠ "?")
    (hpower : vars.power ≠ "?") :
    ((vars.assign p.1).assign p.2).id = (if p.1 = "id" then p.2 else vars.id) ∧
      ((vars.assign p.1).assign p.2).power = if p.1 = "power" then p.2 else vars.power := by
  obtain ⟨-, -, hneid, hnepower⟩ := h
  -- a word that is neither a name nor behind a mark leaves both alone
  have hother : ∀ (vars : Vars) {w : String}, w ≠ "id" → w ≠ "power" → vars.id ≠ "?" →
      vars.power ≠ "?" → (vars.assign w).id = vars.id ∧ (vars.assign w).power = vars.power := by
    intro vars w hw hw' hid hpower
    rw [Vars.assign, if_neg hw, if_neg hid, if_neg hw', if_neg hpower]
    split
    · exact ⟨rfl, rfl⟩
    split
    · exact ⟨rfl, rfl⟩
    · exact ⟨rfl, rfl⟩
  by_cases hkey : p.1 = "id"
  · have hmark : vars.assign p.1 = { vars with id := "?" } := if_pos hkey
    rw [hmark, Vars.assign, if_neg hneid, if_pos rfl, if_pos hkey, hkey]
    exact ⟨rfl, rfl⟩
  by_cases hkey' : p.1 = "power"
  · have hmark : vars.assign p.1 = { vars with power := "?" } := by
      rw [Vars.assign, if_neg hkey, if_neg hid, if_pos hkey']
    rw [hmark, Vars.assign, if_neg hneid, if_neg hid, if_neg hnepower, if_pos rfl, if_neg hkey,
      if_pos hkey']
    exact ⟨rfl, rfl⟩
  · obtain ⟨hsame, hsame'⟩ := hother vars hkey hkey' hid hpower
    obtain ⟨hid₂, hpower₂⟩ := hother (vars.assign p.1) hneid hnepower (by rwa [hsame])
      (by rwa [hsame'])
    rw [hid₂, hpower₂, if_neg hkey, if_neg hkey']
    exact ⟨hsame, hsame'⟩

/-- **The last one of the parameters counts.** -/
theorem foldl_assign (h : ∀ p ∈ params, Parameter p) (hid : vars.id ≠ "?")
    (hpower : vars.power ≠ "?") :
    (params.foldl (fun vars p => (vars.assign p.1).assign p.2) vars).id =
        lastOf "id" params vars.id ∧
      (params.foldl (fun vars p => (vars.assign p.1).assign p.2) vars).power =
        lastOf "power" params vars.power := by
  induction params generalizing vars with
  | nil => exact ⟨rfl, rfl⟩
  | cons p params ih =>
      have hp := h p List.mem_cons_self
      obtain ⟨hid', hpower'⟩ := hp.assign hid hpower
      rw [List.foldl_cons, lastOf_cons, lastOf_cons, ← hid', ← hpower']
      refine ih (fun q hq => h q (List.mem_cons_of_mem _ hq)) ?_ ?_
      · rw [hid']
        split
        · exact hp.value.ne_mark
        · exact hid
      · rw [hpower']
        split
        · exact hp.value.ne_mark
        · exact hpower

/-- The command for a value of `power`. -/
def powerCmd (power : String) : Option Daemon.CmdId :=
  if power = "on" ∨ power = "send" then some .powerOn
  else if power = "off" then some .powerOff
  else none

/-- **The line of the script** is a command of the daemon. -/
theorem Vars.line_eq (vars : Vars) :
    vars.line = if vars.id ∈ validIds then
      (powerCmd vars.power).map fun cmd => cmd.word ++ " " ++ vars.id else none := by
  unfold Vars.line
  by_cases hsend : vars.power = "send"
  · have hcmd : powerCmd vars.power = some .powerOn := if_pos (.inr hsend)
    rw [hcmd, if_pos hsend, if_pos (.inl rfl)]
    rfl
  rw [if_neg hsend]
  by_cases hon : vars.power = "on"
  · have hcmd : powerCmd vars.power = some .powerOn := if_pos (.inl hon)
    rw [hcmd, if_pos (.inl hon), hon]
    rfl
  have hneither : ¬ (vars.power = "on" ∨ vars.power = "send") := not_or.mpr ⟨hon, hsend⟩
  by_cases hoff : vars.power = "off"
  · have hcmd : powerCmd vars.power = some .powerOff := by
      rw [powerCmd, if_neg hneither, if_pos hoff]
    rw [hcmd, if_pos (.inr hoff), hoff]
    rfl
  · have hcmd : powerCmd vars.power = none := by
      rw [powerCmd, if_neg hneither, if_neg hoff]
    rw [hcmd, if_neg (not_or.mpr ⟨hon, hoff⟩), Option.map_none, ite_self]

/-- **What goes to the daemon for a query.** -/
theorem switchCgi_queryOf (hsh : sh.Behaves) (h : ∀ p ∈ params, Parameter p) (hid : vars.id ≠ "?")
    (hpower : vars.power ≠ "?") :
    switchCgi sh vars (queryOf params) =
      if lastOf "id" params vars.id ∈ validIds then
        (powerCmd (lastOf "power" params vars.power)).map fun cmd =>
          cmd.word ++ " " ++ lastOf "id" params vars.id
      else none := by
  obtain ⟨hlast, hlast'⟩ := foldl_assign h hid hpower
  unfold switchCgi
  rw [Vars.line_eq, readQuery_queryOf hsh h, hlast, hlast']

/-! ## What the daemon does with it -/

section Daemon

open Daemon (CmdId CStr CmdMem Options Port ascii blank keyValueStorageFind processCmd)

variable {opt : Options} {s t u : Daemon.State}

/-- The kind and the value of what is queued. -/
abbrev Entry := CmdId × Option CStr

/-- **Just these entries join the queue**, behind what is in it. -/
def Queues (s t : Daemon.State) (entries : List Entry) : Prop :=
  ∃ new : List Daemon.Cmd, t.cmdQ = s.cmdQ ++ new ∧
    new.map (fun c => (c.cmd, c.param)) = entries

theorem Queues.refl (s : Daemon.State) : Queues s s [] := ⟨[], (List.append_nil _).symm, rfl⟩

theorem Queues.trans {entries entries' : List Entry} (h : Queues s t entries)
    (h' : Queues t u entries') : Queues s u (entries ++ entries') := by
  obtain ⟨new, hnew, rfl⟩ := h
  obtain ⟨new', hnew', rfl⟩ := h'
  exact ⟨new ++ new', by rw [hnew', hnew, List.append_assoc], List.map_append⟩

theorem Queues.congr {entries entries' : List Entry} (h : Queues s t entries)
    (heq : entries = entries') : Queues s t entries' := heq ▸ h

/-- **A connection to the socket**: its port and its descriptor, and the
memory there is for its line. -/
structure Connection where
  port : Port
  fd : ℕ
  mem : CmdMem

/-- `usocket`, with the line if there is one. -/
def usocket (opt : Options) (conn : Connection) (line : Option String) (s : Daemon.State) :
    Daemon.State :=
  line.elim s fun line => (processCmd opt conn.mem conn.port conn.fd (ascii line) s).2

/-- Nothing runs out. -/
def Connection.Suffices (conn : Connection) : Prop :=
  conn.mem.malloc = true ∧ conn.mem.strdup = true

/-- What is queued for an id and a value of `power`. -/
def entriesFor (opt : Options) (id power : String) : List Entry :=
  if id ∈ validIds then
    (powerCmd power).toList.map fun cmd => (cmd, keyValueStorageFind opt.powerids (some (ascii id)))
  else []

theorem ascii_append (a b : String) : ascii (a ++ b) = ascii a ++ ascii b := by
  unfold ascii
  rw [String.toList_append, List.map_append]

/-- **A line of the script** is queued with what its id stands for. -/
theorem queues_line {cmd : CmdId} {conn : Connection} (hcmd : cmd = .powerOn ∨ cmd = .powerOff)
    (hconn : conn.Suffices) (id : String) :
    Queues s (usocket opt conn (some (cmd.word ++ " " ++ id)) s)
      [(cmd, keyValueStorageFind opt.powerids (some (ascii id)))] := by
  have hline : ascii (cmd.word ++ " " ++ id) = ascii cmd.word ++ blank :: ascii id := by
    rw [ascii_append, ascii_append, List.append_assoc]
    rfl
  have hrequest : cmd = .powerOn ∨ cmd = .powerOff ∨ cmd = .sample :=
    hcmd.elim .inl fun h => .inr (.inl h)
  obtain ⟨-, c, hc, hparam, hq⟩ := Daemon.processCmd_queue opt conn.mem conn.port conn.fd s hrequest
    (Daemon.recognise_word cmd (blank :: ascii id))
  have hvalue : c.param = keyValueStorageFind opt.powerids (some (ascii id)) := by
    rw [hparam, Daemon.behindBlank_joined, Daemon.behindBlank_blank]
    rcases hcmd with rfl | rfl
    · rfl
    · rfl
  rw [← hline, if_pos (Daemon.pushFits_of_mem hconn)] at hq
  exact ⟨[c], hq, by rw [List.map_singleton, hc, hvalue]⟩

theorem powerCmd_eq_some {power : String} {cmd : CmdId} (h : powerCmd power = some cmd) :
    cmd = .powerOn ∨ cmd = .powerOff := by
  unfold powerCmd at h
  split at h
  · cases h
    exact .inl rfl
  split at h
  · cases h
    exact .inr rfl
  · cases h

/-- **From the query to the queue.** -/
theorem queues_query {conn : Connection} (hsh : sh.Behaves) (h : ∀ p ∈ params, Parameter p)
    (hid : vars.id ≠ "?") (hpower : vars.power ≠ "?") (hconn : conn.Suffices) :
    Queues s (usocket opt conn (switchCgi sh vars (queryOf params)) s)
      (entriesFor opt (lastOf "id" params vars.id) (lastOf "power" params vars.power)) := by
  rw [switchCgi_queryOf hsh h hid hpower]
  unfold entriesFor
  by_cases hvalid : lastOf "id" params vars.id ∈ validIds
  · rw [if_pos hvalid, if_pos hvalid]
    cases hcmd : powerCmd (lastOf "power" params vars.power) with
    | none => exact Queues.refl s
    | some cmd => exact queues_line (powerCmd_eq_some hcmd) hconn _
  · rw [if_neg hvalid, if_neg hvalid]
    exact Queues.refl s

/-- One call after the other. -/
theorem queues_foldl {β : Type*} {f : β → Daemon.State → Daemon.State} {entries : β → List Entry}
    {calls : List β} (h : ∀ b ∈ calls, ∀ s, Queues s (f b s) (entries b)) :
    Queues s (calls.foldl (fun s b => f b s) s) (calls.flatMap entries) := by
  induction calls generalizing s with
  | nil => exact Queues.refl s
  | cons b calls ih =>
      exact (h b List.mem_cons_self s).trans
        (ih fun b' hmem => h b' (List.mem_cons_of_mem _ hmem))

/-- A shell whose file names match no pattern. -/
def plainShell : Shell where
  glob := fun w => [w]
  echo := fun ws => .ofList ([' '].intercalate (ws.map String.toList))

theorem plainShell_behaves : plainShell.Behaves := ⟨fun _ _ => rfl, fun _ _ => rfl⟩

/-- Two of the ids and what they stand for. -/
def someOptions : Options where
  powerids := ⟨[ascii "bluebar", ascii "labortisch"], [ascii "e", ascii "z"]⟩
  sampledevs := ⟨[], []⟩

/-- A connection of a client. -/
def someConnection : Connection := ⟨.client 0, 7, .plenty⟩

/-- The address that `UWSConfig` sets. -/
def defaultCgiuri : String := "http://slug.realraum.at/cgi-bin/switch.cgi?id=%ID%&power=%ONOFF%"

example : UWSConfig.default.slugCgiuri = some defaultCgiuri := rfl

/-- A placeholder is put in once. -/
theorem replace_placeholder (name : List Char) {value front behind : List Char} (h : '%' ∉ front)
    (hbehind : Replacing.replace ('%' :: name) value behind = behind) :
    Replacing.replace ('%' :: name) value (front ++ ('%' :: name ++ behind)) =
      front ++ (value ++ behind) := by
  rw [Replacing.replace_first h, hbehind]

/-- The address in front of the query. -/
def cgiPath : String := "http://slug.realraum.at/cgi-bin/switch.cgi"

theorem replace_id (value : List Char) :
    Replacing.replace "%ID%".toList value defaultCgiuri.toList =
      cgiPath.toList ++ "?id=".toList ++ (value ++ "&power=%ONOFF%".toList) := by
  have hfree : '%' ∉ cgiPath.toList ++ "?id=".toList := by decide
  exact replace_placeholder "ID%".toList hfree rfl

theorem replace_onoff {front : List Char} (h : '%' ∉ front) (value : List Char) :
    Replacing.replace "%ONOFF%".toList value (front ++ "%ONOFF%".toList) = front ++ value := by
  have hput : Replacing.replace "%ONOFF%".toList value (front ++ ("%ONOFF%".toList ++ [])) =
      front ++ (value ++ []) := replace_placeholder "ONOFF%".toList h rfl
  rwa [List.append_nil, List.append_nil] at hput

/-- **The address of a request**, up to its query and with it. -/
theorem toList_requestUrl {powerid : String} (h : Plain powerid) (turnOn : Bool) :
    (requestUrl defaultCgiuri powerid turnOn).toList = cgiPath.toList ++ '?' ::
      ("id=".toList ++ powerid.toList ++ "&power=".toList ++
        (if turnOn then "on" else "off" : String).toList) := by
  have hfree : '%' ∉ cgiPath.toList ++ "?id=".toList ++ powerid.toList ++ "&power=".toList := by
    simp only [List.mem_append, not_or]
    exact ⟨⟨⟨by decide, by decide⟩, h.notMem rfl⟩, by decide⟩
  have hput := replace_onoff hfree (if turnOn then "on" else "off" : String).toList
  unfold requestUrl
  rw [String.toList_ofList, replace_id]
  simpa [List.append_assoc] using hput

/-- **The query of a request** has the id and the state. -/
theorem queryString_requestUrl {powerid : String} (h : Plain powerid) (turnOn : Bool) :
    queryString (requestUrl defaultCgiuri powerid turnOn) =
      queryOf [("id", powerid), ("power", if turnOn then "on" else "off")] := by
  have hcut : Text.cut '?' (requestUrl defaultCgiuri powerid turnOn) =
      some (cgiPath, .ofList ("id=".toList ++ powerid.toList ++ "&power=".toList ++
        (if turnOn then "on" else "off" : String).toList)) := by
    rw [Text.cut_eq_some_iff, String.toList_ofList]
    exact ⟨by decide, toList_requestUrl h turnOn⟩
  unfold queryString queryOf
  rw [hcut, Option.map_some, Option.getD_some, List.map_cons, List.map_singleton,
    List.intercalate_cons_cons, List.intercalate_singleton, paramText_eq, paramText_eq]
  simp

/-- What is queued for a request. -/
def requestEntries (opt : Options) (r : String × Bool) : List Entry :=
  if r.1 ∈ validIds then
    [(if r.2 then .powerOn else .powerOff, keyValueStorageFind opt.powerids (some (ascii r.1)))]
  else []

end Daemon

end Power

end Realraum
