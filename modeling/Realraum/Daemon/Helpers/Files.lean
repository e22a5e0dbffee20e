import Mathlib.Data.List.TakeWhile
import Realraum.Common.Fields
import Realraum.Daemon.Helpers.Words
import Realraum.Daemon.Model.Options
/-!
# Helpers — the pairs of a key-value file

What a chunk of the file has to look like to give a pair, and what the
storage holds once all pairs are added: the pairs in order, so that the
first of a key is the one that is found.
-/

namespace Realraum

namespace Daemon

variable {buf key value k v : CStr} {pairs : List (CStr × CStr)} {stor stor' : KeyValueStorage}
variable {mem : ℕ → AddMem} {before rest line tail : List UInt8}

/-! ## The storage -/

theorem stringListAdd_eq_zero {list list' : List CStr} {m : Bool}
    (h : stringListAdd list k m = (0, list')) : list' = list ++ [k] := by
  rw [stringListAdd] at h
  split at h
  · exact (congrArg Prod.snd h).symm
  · cases congrArg Prod.fst h

theorem keyValueStorageAdd_eq_zero {m : AddMem} (h : keyValueStorageAdd stor k v m = (0, stor')) :
    stor' = ⟨stor.keys ++ [k], stor.values ++ [v]⟩ := by
  rw [keyValueStorageAdd] at h
  split at h
  · rename_i keys hkeys
    split at h
    rename_i ret values hvalues
    obtain rfl : ret = 0 := congrArg Prod.fst h
    obtain rfl : _ = stor' := congrArg Prod.snd h
    rw [stringListAdd_eq_zero hkeys, stringListAdd_eq_zero hvalues]
  · rename_i ret keys hne hret
    exact absurd (congrArg Prod.fst h) hne

/-- **A file that is read leaves its pairs in the storage, in order.** -/
theorem addPairs_eq_zero (h : addPairs pairs mem stor = (0, stor')) :
    stor' = ⟨stor.keys ++ pairs.map Prod.fst, stor.values ++ pairs.map Prod.snd⟩ := by
  induction pairs generalizing stor mem with
  | nil =>
      obtain rfl : stor = stor' := congrArg Prod.snd h
      simp
  | cons pair pairs ih =>
      obtain ⟨k, v⟩ := pair
      rw [addPairs] at h
      split at h
      · rename_i s hadd
        rw [ih h, keyValueStorageAdd_eq_zero hadd]
        simp
      · cases congrArg Prod.fst h

/-- A pair is added just in case there is memory for its key and its
value. -/
theorem keyValueStorageAdd_cases (stor : KeyValueStorage) (k v : CStr) (m : AddMem) :
    (m.key = true ∧ m.value = true ∧
        keyValueStorageAdd stor k v m = (0, ⟨stor.keys ++ [k], stor.values ++ [v]⟩)) ∨
      ¬ (m.key = true ∧ m.value = true) ∧ ∃ stor', keyValueStorageAdd stor k v m = (-2, stor') := by
  rw [keyValueStorageAdd, stringListAdd, stringListAdd]
  cases m.key with
  | false => exact .inr ⟨by simp, _, rfl⟩
  | true =>
      cases m.value with
      | false => exact .inr ⟨by simp, _, rfl⟩
      | true => exact .inl ⟨rfl, rfl, rfl⟩

/-- **Pairs are added, or memory runs out on the way.** -/
theorem addPairs_cases (pairs : List (CStr × CStr)) (mem : ℕ → AddMem) (stor : KeyValueStorage) :
    addPairs pairs mem stor =
        (0, ⟨stor.keys ++ pairs.map Prod.fst, stor.values ++ pairs.map Prod.snd⟩) ∨
      (addPairs pairs mem stor).1 = -2 ∧
        ∃ i < pairs.length, ¬ ((mem i).key = true ∧ (mem i).value = true) := by
  induction pairs generalizing stor mem with
  | nil => exact .inl (by simp [addPairs])
  | cons pair pairs ih =>
      obtain ⟨k, v⟩ := pair
      rw [addPairs]
      rcases keyValueStorageAdd_cases stor k v (mem 0) with ⟨-, -, hadd⟩ | ⟨hm, stor', hadd⟩
      · rw [hadd]
        rcases ih (fun i => mem (i + 1)) ⟨stor.keys ++ [k], stor.values ++ [v]⟩ with
          h | ⟨hret, i, hi, hfail⟩
        · exact .inl (by simpa using h)
        · exact .inr ⟨hret, i + 1, Nat.succ_lt_succ hi, hfail⟩
      · rw [hadd]
        exact .inr ⟨rfl, 0, Nat.succ_pos _, hm⟩

theorem lookupBeside_pairs (x : CStr) (pairs : List (CStr × CStr)) :
    lookupBeside x (pairs.map Prod.fst) (pairs.map Prod.snd) =
      (pairs.find? fun pair => pair.1 = x).map Prod.snd := by
  induction pairs with
  | nil => rfl
  | cons pair pairs ih =>
      rw [List.map_cons, List.map_cons, lookupBeside, List.find?_cons, ih]
      by_cases h : pair.1 = x
      · rw [if_pos h]
        simp [h]
      · rw [if_neg h]
        simp [h]

/-- **What is found is the first pair of the key.** -/
theorem find_of_file {file : List UInt8}
    (h : optionsParseKeyValueFile (some file) mem .empty = (0, stor)) (x : CStr) :
    keyValueStorageFind stor (some x) =
      ((filePairs file).find? fun pair => pair.1 = x).map Prod.snd := by
  rw [addPairs_eq_zero h]
  exact lookupBeside_pairs x (filePairs file)

/-! ## The chunks -/

theorem filePairs_append (h : before = [] ∨ before.getLast? = some linefeed) :
    filePairs (before ++ rest) = filePairs before ++ filePairs rest := by
  rcases h with rfl | h
  · rfl
  · rw [filePairs, filePairs, filePairs, fgetsAll, Chunks.chunks_append before rest h,
      List.filterMap_append]
    rfl

theorem cstring_prefix (buf : List UInt8) : ∃ post, buf = cstring buf ++ post :=
  ⟨buf.dropWhile (· ≠ 0), (List.takeWhile_append_dropWhile).symm⟩

theorem zero_notMem_cstring (buf : List UInt8) : 0 ∉ cstring buf := fun h => by
  have hne := List.mem_takeWhile_imp h
  simp at hne

theorem takeWhile_of_behindBlank {w : CStr} (hw : blank ∉ w) (rest : CStr) :
    (w ++ blank :: rest).takeWhile (· ≠ blank) = w := by
  rw [List.takeWhile_append_of_pos, List.takeWhile_cons_of_neg, List.append_nil]
  · simp
  · intro b hb
    have hne : b ≠ blank := fun h => hw (h ▸ hb)
    simpa using hne

theorem cstring_of_notMem {w : CStr} (hw : 0 ∉ w) : cstring w = w := by
  rw [cstring, List.takeWhile_eq_self_iff]
  intro b hb
  have hne : b ≠ 0 := fun h => hw (h ▸ hb)
  simpa using hne

theorem dropWhile_blank_append {w : CStr} (hne : w ≠ []) (hw : blank ∉ w) (rest : CStr) :
    (w ++ rest).dropWhile (· = blank) = w ++ rest := by
  cases w with
  | nil => exact absurd rfl hne
  | cons b w =>
      have hb : b ≠ blank := fun h => hw (h ▸ List.mem_cons_self ..)
      rw [List.cons_append, List.dropWhile_cons_of_neg (by simpa using hb)]

/-- What a chunk gives, by the fields of its text: the first two, or an
empty value for its one field, where a blank and the line feed are behind
that. -/
def pairOfFields (fields : List CStr) (bare : Bool) : Option (CStr × CStr) :=
  match fields with
  | [] => none
  | [k] => if bare then some (k, []) else none
  | k :: v :: _ => some (k, v)

theorem pairOfFields_eq_some {fields : List CStr} {bare : Bool} :
    pairOfFields fields bare = some (k, v) ↔
      v = [] ∧ bare = true ∧ fields = [k] ∨ ∃ more, fields = k :: v :: more := by
  rcases fields with - | ⟨k', - | ⟨v', more⟩⟩
  · simp [pairOfFields]
  · cases bare <;> simp [pairOfFields, and_comm, eq_comm]
  · simp [pairOfFields]

/-- What stands behind the key. -/
theorem takeWhile_value {w : CStr} (hw : blank ∉ w) (hline : linefeed ∉ w)
    (hrest : rest = [] ∨ rest.head? = some blank ∨ rest.head? = some linefeed) :
    (w ++ rest).takeWhile (fun b => b ≠ blank ∧ b ≠ linefeed) = w := by
  rw [List.takeWhile_append_of_pos]
  · rcases hrest with rfl | h | h
    · simp
    · cases rest <;> simp_all
    · cases rest <;> simp_all
  · intro b hb
    have hne : b ≠ blank := fun h => hw (h ▸ hb)
    have hne' : b ≠ linefeed := fun h => hline (h ▸ hb)
    simp [hne, hne']

theorem dropWhile_replicate_blank (n : ℕ) (rest : CStr) :
    (List.replicate n blank ++ rest).dropWhile (· = blank) = rest.dropWhile (· = blank) := by
  rw [List.dropWhile_append_of_pos]
  intro b hb
  simpa using List.eq_of_mem_replicate hb

/-- A chunk with one word up to its end gives nothing. -/
theorem parseKeyValue_word {n : ℕ} {w : CStr} (hbuf : cstring buf = List.replicate n blank ++ w)
    (hw : blank ∉ w) : parseKeyValue buf = none := by
  have hdrop : w.dropWhile (· = blank) = w := by
    cases w with
    | nil => rfl
    | cons b w => rw [← List.append_nil (b :: w), dropWhile_blank_append (by simp) hw]
  have hnone : behindBlank (w ++ []) = behindBlank [] := behindBlank_append hw
  rw [List.append_nil] at hnone
  unfold parseKeyValue
  rw [hbuf, dropWhile_replicate_blank, hdrop]
  simp only
  rw [hnone]
  rfl

/-- A chunk with a blank behind its key gives the value behind that, if
anything is left. -/
theorem parseKeyValue_key {n : ℕ} {tmp : CStr} (hne : k ≠ []) (hk : blank ∉ k)
    (hbuf : cstring buf = List.replicate n blank ++ (k ++ blank :: tmp)) :
    parseKeyValue buf =
      if tmp.dropWhile (· = blank) = [] then none
      else some (k, (tmp.dropWhile (· = blank)).takeWhile fun b => b ≠ blank ∧ b ≠ linefeed) := by
  unfold parseKeyValue
  rw [hbuf, dropWhile_replicate_blank, dropWhile_blank_append hne hk]
  simp only
  rw [behindBlank_append hk, behindBlank_blank]
  simp only
  rw [takeWhile_of_behindBlank hk]

/-- **How a chunk gives a pair.** -/
theorem parseKeyValue_some (h : parseKeyValue buf = some (k, v)) :
    (∃ front mid back, buf = front ++ k ++ blank :: mid ++ v ++ back) ∧
      k ≠ [] ∧ blank ∉ k ∧ 0 ∉ k ∧ blank ∉ v ∧ linefeed ∉ v ∧ 0 ∉ v := by
  obtain ⟨post, hpost⟩ := cstring_prefix buf
  have hzero := zero_notMem_cstring buf
  rcases Fields.exists_field blank (cstring buf) with
    ⟨n, hbuf⟩ | ⟨n, w, hne, hw, hbuf | ⟨tmp, hbuf⟩⟩
  · rw [← List.append_nil (List.replicate n blank)] at hbuf
    rw [parseKeyValue_word hbuf List.not_mem_nil] at h
    cases h
  · rw [parseKeyValue_word hbuf hw] at h
    cases h
  · rw [parseKeyValue_key hne hw hbuf] at h
    split at h
    · cases h
    · set value := tmp.dropWhile (· = blank) with hvalue
      set back := value.dropWhile fun b => b ≠ blank ∧ b ≠ linefeed with hback
      obtain ⟨rfl, hv⟩ := Prod.mk.inj (Option.some.inj h)
      have htmp : tmp = tmp.takeWhile (· = blank) ++ (v ++ back) := by
        rw [← hv, hback, List.takeWhile_append_dropWhile, hvalue, List.takeWhile_append_dropWhile]
      rw [htmp] at hbuf
      rw [hbuf] at hpost hzero
      have hstop : ∀ b ∈ v, b ≠ blank ∧ b ≠ linefeed := fun b hb => by
        rw [← hv] at hb
        simpa using List.mem_takeWhile_imp hb
      refine ⟨⟨List.replicate n blank, tmp.takeWhile (· = blank), back ++ post, ?_⟩, hne, hw,
        fun hmem => hzero (by simp [hmem]), fun hmem => (hstop _ hmem).1 rfl,
        fun hmem => (hstop _ hmem).2 rfl, fun hmem => hzero (by simp [hmem])⟩
      rw [hpost]
      simp only [List.append_assoc, List.cons_append]

/-- A pair of a file stands in a chunk of its own. -/
theorem pair_of_filePairs {file : List UInt8} (h : (k, v) ∈ filePairs file) :
    k ≠ [] ∧ blank ∉ k ∧ blank ∉ v ∧ linefeed ∉ v ∧ 0 ∉ v ∧ k.length + 1 + v.length ≤ 99 := by
  obtain ⟨chunk, hchunk, hparse⟩ := List.mem_filterMap.mp h
  obtain ⟨⟨front, mid, back, heq⟩, hne, hk, -, hv, hv', hv''⟩ := parseKeyValue_some hparse
  have hlen : chunk.length ≤ 99 :=
    Chunks.length_le_of_mem (p := []) (by decide) (by decide) chunk hchunk
  refine ⟨hne, hk, hv, hv', hv'', ?_⟩
  rw [heq] at hlen
  simp only [List.length_append, List.length_cons] at hlen
  omega

/-- **A key of a file is a word**: it has no blank, no NUL, and no line
feed, since a blank follows it in its chunk. -/
theorem key_of_filePairs {file : List UInt8} (h : (k, v) ∈ filePairs file) :
    blank ∉ k ∧ linefeed ∉ k ∧ 0 ∉ k := by
  obtain ⟨chunk, hchunk, hparse⟩ := List.mem_filterMap.mp h
  obtain ⟨⟨front, mid, back, heq⟩, -, hblank, hzero, -⟩ := parseKeyValue_some hparse
  refine ⟨hblank, fun hmem => ?_, hzero⟩
  have hline : linefeed ∉ chunk.dropLast :=
    Chunks.notMem_dropLast_of_mem (p := []) List.not_mem_nil chunk hchunk
  have hassoc : front ++ k ++ blank :: mid ++ v ++ back =
      front ++ k ++ (blank :: (mid ++ v ++ back)) := by simp
  rw [heq, hassoc, List.dropLast_append_of_ne_nil (by simp)] at hline
  exact hline (by simp [hmem])

/-- **What `options_parse_key_value_file` makes of a chunk.** -/
theorem parseKeyValue_fields {body e : CStr} (hbuf : cstring buf = body ++ e)
    (hbody : linefeed ∉ body) (he : e = [] ∨ e = [linefeed]) :
    parseKeyValue buf = pairOfFields (Fields.fields blank body)
      (e = [linefeed] ∧ body.getLast? = some blank) := by
  have hblank : blank ≠ linefeed := by decide
  have hend : ∀ {w : CStr}, blank ∉ w → blank ∉ w ++ e := fun hw => by
    rcases he with rfl | rfl <;> simp [hw, hblank]
  rcases Fields.exists_field blank body with ⟨n, rfl⟩ | ⟨n, k, hne, hk, rfl | ⟨tmp, rfl⟩⟩
  · rw [parseKeyValue_word hbuf (by simpa using hend (w := []) (by simp)),
      Fields.fields_replicate]
    rfl
  · rw [List.append_assoc] at hbuf
    have hlast : (List.replicate n blank ++ k).getLast? ≠ some blank := by
      rw [List.getLast?_append_of_ne_nil _ hne]
      exact fun h => hk (List.mem_of_getLast? h)
    rw [parseKeyValue_word hbuf (hend hk), Fields.fields_replicate_append,
      Fields.fields_of_notMem hne hk]
    simp only [pairOfFields, hlast, and_false, decide_false, Bool.false_eq_true, if_false]
  · rw [List.append_assoc, List.append_assoc, List.cons_append] at hbuf
    rw [parseKeyValue_key hne hk hbuf, Fields.fields_replicate_append, Fields.fields_field hne hk]
    -- what stands behind the key
    rcases Fields.exists_field blank tmp with ⟨m, rfl⟩ | ⟨m, v, hne', hv, htmp⟩
    · have hlast : (List.replicate n blank ++ (k ++ blank :: List.replicate m blank)).getLast? =
          some blank := by
        rw [← List.replicate_succ, ← List.append_assoc, List.getLast?_append_of_ne_nil _ (by simp),
          List.getLast?_replicate, if_neg (Nat.succ_ne_zero m)]
      rw [dropWhile_replicate_blank, Fields.fields_replicate, hlast]
      rcases he with rfl | rfl
      · simp [pairOfFields]
      · rfl
    · obtain ⟨rest, hrest, hvalue, hfields⟩ : ∃ rest, (rest = [] ∨ rest.head? = some blank) ∧
          tmp = List.replicate m blank ++ (v ++ rest) ∧
          ∃ more, Fields.fields blank tmp = v :: more := by
        rcases htmp with rfl | ⟨rest, rfl⟩
        · exact ⟨[], .inl rfl, by simp, [], by simp [Fields.fields_of_notMem hne' hv]⟩
        · exact ⟨blank :: rest, .inr rfl, rfl, _, by
            rw [Fields.fields_replicate_append, Fields.fields_field hne' hv]⟩
      obtain ⟨more, hmore⟩ := hfields
      have hline : linefeed ∉ v := fun h => hbody (by simp [hvalue, h])
      have hstop : rest ++ e = [] ∨ (rest ++ e).head? = some blank ∨
          (rest ++ e).head? = some linefeed := by
        rcases hrest with rfl | hrest
        · rcases he with rfl | rfl <;> simp
        · exact .inr (.inl (by cases rest <;> simp_all))
      rw [hmore, hvalue, List.append_assoc, List.append_assoc, dropWhile_replicate_blank,
        dropWhile_blank_append hne' hv, if_neg (by simp [hne']), takeWhile_value hv hline hstop]
      rfl

/-! ## A chunk by its fields -/

/-- The text of a chunk in front of its line feed. -/
def chunkBody (buf : List UInt8) : CStr := (cstring buf).takeWhile (· ≠ linefeed)

/-- The words of a chunk. -/
def chunkFields (buf : List UInt8) : List CStr := Fields.fields blank (chunkBody buf)

/-- **The chunk is bare**: it is one word, blanks and the line feed. -/
def Bare (buf : List UInt8) : Prop :=
  (chunkFields buf).length = 1 ∧ (chunkBody buf).getLast? = some blank ∧ linefeed ∈ cstring buf

instance : DecidablePred Bare := fun buf =>
  inferInstanceAs (Decidable ((chunkFields buf).length = 1 ∧ _ ∧ _))

/-- A line feed ends a chunk. -/
theorem cstring_eq_chunkBody {file : List UInt8} (h : buf ∈ fgetsAll file) :
    cstring buf = chunkBody buf ++ if linefeed ∈ cstring buf then [linefeed] else [] := by
  have hlast : linefeed ∉ buf.dropLast :=
    Chunks.notMem_dropLast_of_mem (p := []) List.not_mem_nil buf h
  have hsub : linefeed ∉ (cstring buf).dropLast := fun hmem => hlast <| by
    obtain ⟨post, hpost⟩ := cstring_prefix buf
    rw [hpost]
    rcases List.eq_nil_or_concat post with rfl | ⟨post, b, rfl⟩
    · rwa [List.append_nil]
    · rw [List.concat_eq_append, ← List.append_assoc, List.dropLast_concat]
      exact List.mem_append_left _ (List.dropLast_subset _ hmem)
  rw [chunkBody]
  rcases List.eq_nil_or_concat (cstring buf) with hnil | ⟨t, b, ht⟩
  · rw [hnil]
    rfl
  · rw [ht, List.concat_eq_append]
    rw [ht, List.concat_eq_append, List.dropLast_concat] at hsub
    have hfront : ∀ x ∈ t, decide (x ≠ linefeed) = true := fun x hx => by
      have hne : x ≠ linefeed := fun heq => hsub (heq ▸ hx)
      simpa using hne
    rw [List.takeWhile_append_of_pos hfront]
    by_cases hb : b = linefeed
    · simp [hb]
    · simp [hb, hsub, Ne.symm hb]

/-- **The pair of a chunk**: its first two words, or its one word and
nothing. -/
theorem parseKeyValue_of_mem {file : List UInt8} (h : buf ∈ fgetsAll file) :
    parseKeyValue buf = some (k, v) ↔
      v = [] ∧ Bare buf ∧ chunkFields buf = [k] ∨ ∃ more, chunkFields buf = k :: v :: more := by
  have hbody : linefeed ∉ chunkBody buf := fun hmem => by
    simpa using List.mem_takeWhile_imp hmem
  rw [parseKeyValue_fields (cstring_eq_chunkBody h) hbody (by split <;> simp),
    pairOfFields_eq_some, decide_eq_true_eq, ← chunkFields]
  have hend : (if linefeed ∈ cstring buf then [linefeed] else []) = [linefeed] ↔
      linefeed ∈ cstring buf := by
    split <;> simp_all
  rw [hend, Bare]
  refine or_congr_left (and_congr_right fun _ => ?_)
  constructor
  · rintro ⟨⟨hline, hblank⟩, hone⟩
    exact ⟨⟨by rw [hone]; rfl, hblank, hline⟩, hone⟩
  · rintro ⟨⟨-, hblank, hline⟩, hone⟩
    exact ⟨⟨hline, hblank⟩, hone⟩

/-- **A plain line is a pair.** -/
theorem parseKeyValue_line {e : List UInt8} (hk : k ≠ [] ∧ blank ∉ k ∧ 0 ∉ k ∧ linefeed ∉ k)
    (hv : v ≠ [] ∧ blank ∉ v ∧ linefeed ∉ v ∧ 0 ∉ v) (he : e = [] ∨ e = [linefeed]) :
    parseKeyValue (k ++ blank :: v ++ e) = some (k, v) := by
  have hplain : cstring (k ++ blank :: v ++ e) = k ++ blank :: v ++ e := by
    refine cstring_of_notMem ?_
    rcases he with rfl | rfl <;> simp [hk.2.2.1, hv.2.2.2] <;> decide
  have hblank : linefeed ≠ blank := by decide
  rw [parseKeyValue_fields hplain (by simp [hk.2.2.2, hv.2.2.1, hblank]) he,
    Fields.fields_field hk.1 hk.2.1, Fields.fields_of_notMem hv.1 hv.2.1]
  rfl

/-- **A plain line of the file that fits gives its pair**, behind those of
the lines before. -/
theorem filePairs_line (hk : k ≠ [] ∧ blank ∉ k ∧ 0 ∉ k ∧ linefeed ∉ k)
    (hv : v ≠ [] ∧ blank ∉ v ∧ linefeed ∉ v ∧ 0 ∉ v) (hfits : k.length + 1 + v.length ≤ 99)
    (hbefore : before = [] ∨ before.getLast? = some linefeed)
    (htail : tail = [] ∨ tail.head? = some linefeed) :
    ∃ more, filePairs (before ++ (k ++ blank :: v ++ tail)) =
      filePairs before ++ (k, v) :: more := by
  have hblank : linefeed ≠ blank := by decide
  have hline : linefeed ∉ k ++ blank :: v := by simp [hk.2.2.2, hv.2.2.1, hblank]
  have hlen : (k ++ blank :: v).length = k.length + 1 + v.length := by simp; omega
  obtain ⟨chunk, more, heq, hchunk⟩ : ∃ chunk more,
      fgetsAll (k ++ blank :: v ++ tail) = chunk :: more ∧
        (chunk = [] ++ (k ++ blank :: v) ∨ chunk = [] ++ (k ++ blank :: v) ++ [linefeed]) :=
    Chunks.chunks_line hline (by simp) (by rw [hlen]; simpa using hfits) htail (by decide)
  have hparse : parseKeyValue chunk = some (k, v) := by
    rcases hchunk with rfl | rfl
    · simpa using parseKeyValue_line (e := []) hk hv (.inl rfl)
    · simpa using parseKeyValue_line (e := [linefeed]) hk hv (.inr rfl)
  refine ⟨more.filterMap parseKeyValue, ?_⟩
  rw [filePairs_append hbefore]
  congr 1
  rw [filePairs, heq, List.filterMap_cons_some hparse]

end Daemon

end Realraum
