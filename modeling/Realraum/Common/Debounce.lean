import Mathlib.Data.List.Infix
/-!
# Reporting a level that holds

A level is sampled again and again, and is to be reported when it was high
for `n + 1` samples in a row: once, and again only when it was low for as
many in between. A machine that remembers the last sample, how often in a
row it came again (counted up to `n`) and whether it has reported does just
this, whatever the samples do in between.
-/

namespace Realraum

namespace Debounce

/-! ## What is due -/

/-- Nothing was reported so far, or the level was low for long enough since
the last report. The past is the samples so far, and whether each was
reported. -/
def Ready (n : ℕ) (past : List (Bool × Bool)) : Prop :=
  (∀ x ∈ past, x.2 = false) ∨
    ∃ before level since, past = before ++ (level, true) :: since ∧
      (∀ x ∈ since, x.2 = false) ∧ List.replicate (n + 1) false <:+: since.map Prod.fst

/-- **A report is due** at a sample: with it the level was high for long
enough. -/
def Due (n : ℕ) (past : List (Bool × Bool)) (level : Bool) : Prop :=
  List.replicate (n + 1) true <:+ past.map Prod.fst ++ [level] ∧ Ready n past

/-! ## The machine -/

/-- What is remembered of the samples. -/
structure Machine where
  last : Bool
  held : ℕ
  reported : Bool
  deriving DecidableEq

/-- Before the first sample. -/
def Machine.init : Machine := ⟨false, 0, false⟩

/-- One more sample, and whether it is reported. -/
def Machine.next (n : ℕ) (level : Bool) (m : Machine) : Machine × Bool :=
  let held := if m.held < n then m.held + 1 else m.held
  if level = m.last ∧ n ≤ held then
    if level ∧ !m.reported then ({ m with held := held, reported := true }, true)
    else if !level then ({ m with held := held, reported := false }, false)
    else ({ m with held := held }, false)
  else if level ≠ m.last then ({ m with held := 0, last := level }, false)
  else ({ m with held := held }, false)

theorem Machine.next_mk (n held : ℕ) (level last reported : Bool) :
    (Machine.mk last held reported).next n level =
      let held := if held < n then held + 1 else held
      if level = last ∧ n ≤ held then
        if level ∧ !reported then (⟨last, held, true⟩, true)
        else if !level then (⟨last, held, false⟩, false)
        else (⟨last, held, reported⟩, false)
      else if level ≠ last then (⟨level, 0, reported⟩, false)
      else (⟨last, held, reported⟩, false) := rfl

/-! ## Stretches of one level -/

variable {n k : ℕ} {b c level report : Bool} {l : List Bool} {past since : List (Bool × Bool)}
variable {m : Machine}

theorem replicate_suffix_concat :
    List.replicate (k + 1) b <:+ l ++ [c] ↔ c = b ∧ List.replicate k b <:+ l := by
  rw [List.replicate_succ', List.suffix_concat_iff]
  constructor
  · rintro (h | ⟨t, heq, ht⟩)
    · simp at h
    · obtain ⟨rfl, hlast⟩ := List.append_inj' heq rfl
      exact ⟨(List.singleton_inj.mp hlast).symm, ht⟩
  · rintro ⟨rfl, h⟩
    exact .inr ⟨_, rfl, h⟩

/-- A stretch does not reach over a sample of the other level. -/
theorem replicate_suffix_append (front : List Bool) (hne : c ≠ b)
    (h : List.replicate k b <:+ front ++ c :: l) : List.replicate k b <:+ l := by
  induction l using List.reverseRecOn generalizing k with
  | nil =>
      cases k with
      | zero => exact List.nil_suffix
      | succ k => exact absurd (replicate_suffix_concat.mp h).1 hne
  | append_singleton l d ih =>
      cases k with
      | zero => exact List.nil_suffix
      | succ k =>
          rw [← List.cons_append, ← List.append_assoc] at h
          obtain ⟨hd, hrest⟩ := replicate_suffix_concat.mp h
          exact replicate_suffix_concat.mpr ⟨hd, ih hrest⟩

theorem replicate_suffix_cons (hne : c ≠ b) :
    List.replicate k b <:+ c :: l ↔ List.replicate k b <:+ l :=
  ⟨fun h => replicate_suffix_append [] hne h, fun h => h.trans (List.suffix_cons c l)⟩

/-! ## Being ready -/

/-- The last report is the one with none behind it. -/
theorem not_ready_concat : ¬ Ready n (past ++ [(level, true)]) := by
  rintro (hnone | ⟨before, p, since, heq, hsince, hlow⟩)
  · simpa using hnone (level, true) (by simp)
  · rcases List.eq_nil_or_concat since with rfl | ⟨front, x, rfl⟩
    · have hlen := hlow.length_le
      simp at hlen
    · rw [List.concat_eq_append, ← List.cons_append, ← List.append_assoc] at heq
      obtain ⟨-, hx⟩ := List.append_inj' heq rfl
      obtain rfl : (level, true) = x := List.singleton_inj.mp hx
      simpa using hsince (level, true) (by simp)

/-- There is no report, or a last one. -/
theorem last_report (past : List (Bool × Bool)) :
    (∀ x ∈ past, x.2 = false) ∨
      ∃ before level since, past = before ++ (level, true) :: since ∧ ∀ x ∈ since, x.2 = false := by
  induction past using List.reverseRecOn with
  | nil => exact .inl (by simp)
  | append_singleton past x ih =>
      obtain ⟨level, report⟩ := x
      cases report with
      | true => exact .inr ⟨past, level, [], rfl, by simp⟩
      | false =>
          rcases ih with hnone | ⟨before, p, since, rfl, hsince⟩
          · exact .inl fun x hx => by
              rcases List.mem_append.mp hx with hx | hx
              · exact hnone x hx
              · rw [List.mem_singleton.mp hx]
          · refine .inr ⟨before, p, since ++ [(level, false)], by simp, fun x hx => ?_⟩
            rcases List.mem_append.mp hx with hx | hx
            · exact hsince x hx
            · rw [List.mem_singleton.mp hx]

/-- A sample that is not reported makes it ready when it ends a low
stretch. -/
theorem ready_concat (hreports : ∀ x ∈ past, x.2 = true → x.1 = true) :
    Ready n (past ++ [(level, false)]) ↔
      Ready n past ∨
        List.replicate (n + 1) false <:+ false :: past.map Prod.fst ++ [level] := by
  have hall : ∀ {l : List (Bool × Bool)}, (∀ x ∈ l ++ [(level, false)], x.2 = false) ↔
      ∀ x ∈ l, x.2 = false := by
    intro l
    simp [or_imp, forall_and]
  constructor
  · rintro (hnone | ⟨before, p, since, heq, hsince, hlow⟩)
    · exact .inl (.inl (hall.mp hnone))
    · rcases List.eq_nil_or_concat since with rfl | ⟨front, x, rfl⟩
      · have hlen := hlow.length_le
        simp at hlen
      · rw [List.concat_eq_append, ← List.cons_append, ← List.append_assoc] at heq
        obtain ⟨rfl, hx⟩ := List.append_inj' heq rfl
        obtain rfl : (level, false) = x := List.singleton_inj.mp hx
        rw [List.concat_eq_append] at hsince hlow
        rw [List.map_append, List.map_singleton] at hlow
        rcases List.infix_concat_iff.mp hlow with hends | hinside
        · refine .inr (hends.trans ?_)
          rw [List.map_append, List.map_cons, List.cons_append, List.append_assoc,
            List.cons_append]
          exact (List.suffix_cons p _).trans (List.suffix_append (false :: before.map Prod.fst) _)
        · exact .inl (.inr ⟨before, p, front, rfl, hall.mp hsince, hinside⟩)
  · rintro (hready | hends)
    · rcases hready with hnone | ⟨before, p, since, rfl, hsince, hlow⟩
      · exact .inl (hall.mpr hnone)
      · refine .inr ⟨before, p, since ++ [(level, false)], by simp, hall.mpr hsince, ?_⟩
        rw [List.map_append]
        exact hlow.trans (List.prefix_append _ _).isInfix
    · rcases last_report past with hnone | ⟨before, p, since, rfl, hsince⟩
      · exact .inl (hall.mpr hnone)
      · -- the report was of a high level, so the low stretch is behind it
        obtain rfl : p = true := hreports (p, true) (by simp) rfl
        rw [List.map_append, List.map_cons, List.cons_append, List.append_assoc,
          List.cons_append] at hends
        have hbehind := replicate_suffix_append (false :: before.map Prod.fst) (by decide) hends
        refine .inr ⟨before, true, since ++ [(level, false)], by simp, hall.mpr hsince, ?_⟩
        rw [List.map_append]
        exact hbehind.isInfix

/-! ## What the machine remembers -/

/-- **The machine remembers the past**, in front of which the level was
low. -/
structure Tracks (n : ℕ) (past : List (Bool × Bool)) (m : Machine) : Prop where
  held_le : m.held ≤ n
  held : ∀ k ≤ n + 1,
    List.replicate k m.last <:+ false :: past.map Prod.fst ↔ k ≤ m.held + 1
  reported : m.reported = false ↔ Ready n past
  high : ∀ x ∈ past, x.2 = true → x.1 = true

theorem Tracks.init : Tracks n [] .init where
  held_le := Nat.zero_le n
  held k _ := by
    rw [List.map_nil]
    constructor
    · intro h
      have hlen := h.length_le
      rwa [List.length_replicate] at hlen
    · intro h
      match k, h with
      | 0, _ => exact List.nil_suffix
      | 1, _ => exact List.suffix_refl _
  reported := ⟨fun _ => .inl (by simp), fun _ => rfl⟩
  high := by simp

/-- Only a stretch of the last sample's level ends here. -/
theorem Tracks.eq_last (h : Tracks n past m) (hk : 0 < k)
    (hb : List.replicate k b <:+ false :: past.map Prod.fst) : b = m.last := by
  have hone : List.replicate 1 m.last <:+ false :: past.map Prod.fst :=
    (h.held 1 (by omega)).mpr (by omega)
  obtain ⟨j, rfl⟩ := Nat.exists_eq_succ_of_ne_zero (Nat.ne_of_gt hk)
  rcases List.eq_nil_or_concat (false :: past.map Prod.fst) with hnil | ⟨l, c, hl⟩
  · cases hnil
  · rw [hl, List.concat_eq_append] at hb hone
    exact (replicate_suffix_concat.mp hb).1.symm.trans (replicate_suffix_concat.mp hone).1

/-- **When the level held**: the sample is the last one again, and that
often enough. -/
theorem Tracks.holds (h : Tracks n past m) (hn : 0 < n) :
    List.replicate n level <:+ false :: past.map Prod.fst ↔
      level = m.last ∧ n ≤ if m.held < n then m.held + 1 else m.held := by
  have hle := h.held_le
  have hheld := h.held n (by omega)
  constructor
  · intro hstretch
    obtain rfl := h.eq_last hn hstretch
    have hn' := hheld.mp hstretch
    refine ⟨rfl, ?_⟩
    split <;> omega
  · rintro ⟨rfl, hn'⟩
    refine hheld.mpr ?_
    split at hn' <;> omega

/-- The stretch of the last sample with one more of its level. -/
theorem Tracks.held_again (h : Tracks n past m) (hk : k ≤ n + 1) :
    List.replicate k m.last <:+ false :: past.map Prod.fst ++ [m.last] ↔
      k ≤ (if m.held < n then m.held + 1 else m.held) + 1 := by
  have hle := h.held_le
  cases k with
  | zero => exact ⟨fun _ => Nat.zero_le _, fun _ => List.nil_suffix⟩
  | succ k =>
      rw [replicate_suffix_concat, h.held k (by omega)]
      constructor
      · rintro ⟨-, hk'⟩
        split <;> omega
      · intro hk'
        refine ⟨rfl, ?_⟩
        split at hk' <;> omega

/-- The stretch of a sample of the other level. -/
theorem Tracks.held_other (h : Tracks n past m) (hne : level ≠ m.last) :
    List.replicate k level <:+ false :: past.map Prod.fst ++ [level] ↔ k ≤ 1 := by
  match k with
  | 0 => exact ⟨fun _ => Nat.zero_le _, fun _ => List.nil_suffix⟩
  | 1 => exact ⟨fun _ => Nat.le_refl 1, fun _ => List.suffix_append _ _⟩
  | k + 2 =>
      rw [replicate_suffix_concat]
      constructor
      · rintro ⟨-, hstretch⟩
        exact absurd (h.eq_last (Nat.succ_pos k) hstretch) hne
      · omega

/-- A report is due when the level is high, held, and is not reported. -/
theorem Tracks.due_iff (h : Tracks n past m) (hn : 0 < n) :
    Due n past level ↔
      (level = m.last ∧ n ≤ if m.held < n then m.held + 1 else m.held) ∧ level = true ∧
        m.reported = false := by
  rw [Due, ← h.reported, replicate_suffix_concat, ← h.holds hn]
  constructor
  · rintro ⟨⟨rfl, hstretch⟩, hready⟩
    exact ⟨(replicate_suffix_cons (by decide)).mpr hstretch, rfl, hready⟩
  · rintro ⟨hstretch, rfl, hready⟩
    exact ⟨⟨rfl, (replicate_suffix_cons (by decide)).mp hstretch⟩, hready⟩

/-- A sample that is not reported makes it ready when it is low and
held. -/
theorem Tracks.ready_concat (h : Tracks n past m) (hn : 0 < n) (level : Bool) :
    Ready n (past ++ [(level, false)]) ↔
      m.reported = false ∨
        level = false ∧ level = m.last ∧ n ≤ if m.held < n then m.held + 1 else m.held := by
  rw [Debounce.ready_concat h.high, h.reported, replicate_suffix_concat, ← h.holds hn]
  refine or_congr_right (and_congr_right fun hlevel => ?_)
  rw [hlevel]

/-- A machine that remembers the past and one sample more. -/
theorem Tracks.concat (h : Tracks n past m) {next : Machine} (hle : next.held ≤ n)
    (hheld : ∀ k ≤ n + 1,
      List.replicate k next.last <:+ false :: past.map Prod.fst ++ [level] ↔ k ≤ next.held + 1)
    (hreported : next.reported = false ↔ Ready n (past ++ [(level, report)]))
    (hhigh : report = true → level = true) : Tracks n (past ++ [(level, report)]) next where
  held_le := hle
  held k hk := by
    rw [List.map_append, List.map_singleton]
    exact hheld k hk
  reported := hreported
  high x hx := by
    rcases List.mem_append.mp hx with hx | hx
    · exact h.high x hx
    · rw [List.mem_singleton.mp hx]
      exact hhigh

/-- **One sample more**: the machine reports when a report is due, and
remembers the sample. -/
theorem Tracks.next (h : Tracks n past m) (hn : 0 < n) (level : Bool) :
    ((m.next n level).2 = true ↔ Due n past level) ∧
      Tracks n (past ++ [(level, (m.next n level).2)]) (m.next n level).1 := by
  have hle := h.held_le
  have hagain := fun k hk => h.held_again (k := k) hk
  set held := if m.held < n then m.held + 1 else m.held with hheld
  have hheld_le : held ≤ n := by
    rw [hheld]
    split <;> omega
  have hready := h.ready_concat hn level
  rw [← hheld] at hready
  rw [h.due_iff hn, Machine.next, ← hheld]
  split
  · rename_i hholds
    have hlast := hholds.1
    split
    · rename_i hreport
      obtain ⟨hlevel, hreported⟩ : level = true ∧ m.reported = false := by simpa using hreport
      refine ⟨⟨fun _ => ⟨hholds, hlevel, hreported⟩, fun _ => rfl⟩,
        h.concat hheld_le (hlast ▸ hagain) ?_ fun _ => hlevel⟩
      exact ⟨nofun, fun hr => absurd hr not_ready_concat⟩
    · rename_i hreport
      split
      · rename_i hlow
        have hlevel : level = false := by simpa using hlow
        refine ⟨⟨nofun, fun hdue => absurd hdue.2.1 (by simp [hlevel])⟩,
          h.concat hheld_le (hlast ▸ hagain) ?_ nofun⟩
        exact ⟨fun _ => hready.mpr (.inr ⟨hlevel, hholds⟩), fun _ => rfl⟩
      · rename_i hhigh
        have hlevel : level = true := by simpa using hhigh
        have hreported : m.reported = true := by simpa [hlevel] using hreport
        refine ⟨⟨nofun, fun hdue => absurd hdue.2.2 (by simp [hreported])⟩,
          h.concat hheld_le (hlast ▸ hagain) ?_ nofun⟩
        rw [hready]
        simp [hlevel]
  · rename_i hholds
    have hsame : m.reported = false ↔ Ready n (past ++ [(level, false)]) := by
      rw [hready]
      exact ⟨.inl, fun hor => hor.resolve_right fun hlow => hholds hlow.2⟩
    split
    · rename_i hne
      refine ⟨⟨nofun, fun hdue => absurd hdue.1 hholds⟩,
        h.concat (Nat.zero_le n) (fun k _ => h.held_other hne) hsame nofun⟩
    · rename_i heq
      have hlast : level = m.last := by simpa using heq
      exact ⟨⟨nofun, fun hdue => absurd hdue.1 hholds⟩,
        h.concat hheld_le (hlast ▸ hagain) hsame nofun⟩

/-! ## Over a run -/

/-- **A report was made just when one was due.** -/
def Faithful (n : ℕ) (past : List (Bool × Bool)) : Prop :=
  ∀ before x after, past = before ++ x :: after → (x.2 = true ↔ Due n before x.1)

theorem Faithful.nil : Faithful n [] := by
  intro before x after h
  simp at h

theorem Faithful.concat (h : Faithful n past) (hdue : report = true ↔ Due n past level) :
    Faithful n (past ++ [(level, report)]) := by
  intro before x after heq
  rcases List.eq_nil_or_concat after with rfl | ⟨rest, y, rfl⟩
  · obtain ⟨rfl, hx⟩ := List.append_inj' heq rfl
    obtain rfl : (level, report) = x := List.singleton_inj.mp hx
    exact hdue
  · rw [List.concat_eq_append, ← List.cons_append, ← List.append_assoc] at heq
    exact h before x rest (List.append_inj' heq rfl).1

end Debounce

end Realraum
