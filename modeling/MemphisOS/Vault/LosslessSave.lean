import MemphisOS.Ecma.JsonPrefixes
import MemphisOS.Ecma.Transparency
import MemphisOS.Vault.Tamper

/-!
# Saving to a file that cannot be read

`saveVaultEntry` writes the file of the entries in place, and takes a file it cannot read for an
empty list. So a save after a write that was cut short leaves the new entry alone.
-/

namespace MemphisOS.VaultAdapter

open Ecma Bridge

variable {host : VaultHost}

section

variable (host)

/-- An entry is an object; it is listed with its fingerprint. -/
def entryOf : Plain → Option Plain
  | .obj ms => normalizeItem host (.obj ms)
  | _ => none

/-- The entries a file holds. A file that is neither blank nor a list of entries holds none that
could be told. -/
def storedEntries (file : Option (List UInt8)) : Option (List Plain) :=
  match file with
  | none => some []
  | some bytes =>
    if trim (decodeUtf8 bytes) = [] then some []
    else
      match parseJson (decodeUtf8 bytes) with
      | some (.arr items) => items.mapM (entryOf host)
      | _ => none

end

/-- How the write of a save ends. -/
inductive WriteOutcome where
  | done
  /-- It throws before the file is changed. -/
  | refused
  /-- It ends with the last bytes missing, one more than the number. -/
  | cut (missing : ℕ)

/-- The bytes that were written before a cut. -/
def cutBytes (missing : ℕ) (bytes : List UInt8) : List UInt8 :=
  bytes.take (bytes.length - (missing + 1))

def fileAfter (file : Option (List UInt8)) (written : List UInt8) :
    WriteOutcome → Option (List UInt8)
  | .done => some written
  | .refused => file
  | .cut missing => some (cutBytes missing written)

variable (host) in
/-- A save that returns adds the entry to those stored before; any other leaves the file or loses
none of the entries. -/
def LosesNothing (file : Option (List UInt8)) (entry : VaultEntry) (now : ℤ)
    (outcome : WriteOutcome) : Prop :=
  let (stored, written) := saveVaultEntry host file entry now
  let file' := fileAfter file written outcome
  match outcome with
  | .done => ∃ entries, storedEntries host file = some entries ∧
      storedEntries host file' = some (entries ++ [stored.value])
  | _ => file' = file ∨ ∃ entries entries', storedEntries host file = some entries ∧
      storedEntries host file' = some entries' ∧ entries <+: entries'

variable (host) in
/-- When nothing is lost: a write that completes finds a readable list whose numbers JSON can
write; a write that is cut finds no entries and writes nothing, or finds what it leaves. -/
def SafeToSave (file : Option (List UInt8)) (entry : VaultEntry) (now : ℤ) :
    WriteOutcome → Prop
  | .done => ∃ entries, storedEntries host file = some entries ∧ ∀ e ∈ entries, JsonNumbers e
  | .refused => True
  | .cut missing =>
    (storedEntries host file = some [] ∧
      (writeAll [(entry.stored host now).value]).length ≤ missing + 1) ∨
    file = some (cutBytes missing (writeAll [(entry.stored host now).value]))

/-! ## Entries -/

theorem entryOf_eq_some {item e : Plain} (h : entryOf host item = some e) :
    ∃ ms, item = .obj ms ∧ normalizeItem host (.obj ms) = some e := by
  cases item with
  | obj ms => exact ⟨ms, rfl, h⟩
  | _ => cases h

theorem mapM_normalizeItem {items entries : List Plain}
    (h : items.mapM (entryOf host) = some entries) :
    items.mapM (normalizeItem host) = some entries := by
  induction items generalizing entries with
  | nil => exact h
  | cons item items ih =>
    rw [List.mapM_cons] at h ⊢
    obtain ⟨e, he, htail⟩ := Option.bind_eq_some_iff.mp h
    obtain ⟨es, hes, hentries⟩ := Option.bind_eq_some_iff.mp htail
    obtain ⟨ms, rfl, hnormal⟩ := entryOf_eq_some he
    rw [hnormal, ih hes]
    exact hentries

/-- The list that is read is the list that is stored. -/
theorem readAll_of_storedEntries {file : Option (List UInt8)} {entries : List Plain}
    (h : storedEntries host file = some entries) : readAll host file = entries := by
  cases file with
  | none =>
    cases h
    rfl
  | some bytes =>
    rw [storedEntries] at h
    rw [readAll]
    split at h
    · next hblank =>
      cases h
      rw [if_pos hblank]
    · next hblank =>
      rw [if_neg hblank]
      cases hparse : parseJson (decodeUtf8 bytes) with
      | none =>
        rw [hparse] at h
        cases h
      | some value =>
        rw [hparse] at h
        cases value with
        | arr items => exact congrArg (Option.getD · []) (mapM_normalizeItem h)
        | _ => cases h

/-- Entries that were read are objects in order. -/
theorem exists_members_of_storedEntries {file : Option (List UInt8)} {entries : List Plain}
    (h : storedEntries host file = some entries) {e : Plain} (he : e ∈ entries) :
    ∃ ms, OwnOrdered (.obj ms) ∧ normalizeItem host (.obj ms) = some e := by
  cases file with
  | none =>
    cases h
    cases he
  | some bytes =>
    rw [storedEntries] at h
    split at h
    · cases h
      cases he
    · split at h
      · next items hparse =>
        obtain ⟨item, hitem, hentry⟩ := exists_of_mem_mapM h he
        obtain ⟨ms, rfl, hnormal⟩ := entryOf_eq_some hentry
        exact ⟨ms, ownOrdered_arr.mp (ownOrdered_of_parseJson hparse) _ hitem, hnormal⟩
      · cases h

theorem inOwnOrder_setMember {name : String} (hindex : arrayIndex (js name) = none) {value : Plain}
    {ms : List (JsString × Plain)} (h : InOwnOrder (ms.map Prod.fst)) :
    InOwnOrder ((setMember (js name) value ms).map Prod.fst) := by
  refine ⟨nodup_setMember h.1 _ _, ?_⟩
  rw [keys_setMember]
  split
  · exact h.2
  · refine List.pairwise_append.mpr ⟨h.2, List.pairwise_singleton _ _, ?_⟩
    intro a _ b hb
    rw [List.mem_singleton.mp hb, EnumeratedBefore, hindex]
    cases arrayIndex a <;> trivial

/-- A fingerprint that was read or computed stays. -/
theorem nonEmpty_getD (s : Option JsString) (computed : JsString) :
    (nonEmpty (some ((nonEmpty s).getD computed))).getD computed = (nonEmpty s).getD computed := by
  cases hs : nonEmpty s with
  | none => cases computed <;> rfl
  | some t =>
    cases t with
    | nil =>
      cases s with
      | none => cases hs
      | some s => cases s <;> cases hs
    | cons u t => rfl

/-- An entry whose numbers JSON can write is read as it was. -/
theorem settled_of_normalizeItem {ms : List (JsString × Plain)} {e : Plain}
    (hordered : OwnOrdered (.obj ms)) (h : normalizeItem host (.obj ms) = some e)
    (hnumbers : JsonNumbers e) : Settled host e := by
  cases h
  rw [spread] at hnumbers ⊢
  constructor
  · rw [jsonImage_eq_self hnumbers, own_eq_self]
    obtain ⟨hkeys, hvalues⟩ := ownOrdered_obj.mp hordered
    refine ownOrdered_obj.mpr ⟨inOwnOrder_setMember (by decide) hkeys, fun m hm => ?_⟩
    obtain rfl | hm := mem_of_mem_setMember hm
    · trivial
    · exact hvalues m hm
  · have hlookup : (setMember (js "fingerprint") (.str ((nonEmpty (stringProperty (.obj ms)
        "fingerprint")).getD (computeFingerprint host (.obj ms)))) ms).lookup (js "fingerprint") =
          some (.str ((nonEmpty (stringProperty (.obj ms) "fingerprint")).getD
            (computeFingerprint host (.obj ms)))) :=
      (lookup_setMember _ _ _ _).trans (if_pos rfl)
    rw [normalizeItem, stringProperty_setFingerprint, computeFingerprint_setFingerprint,
      nonEmpty_getD, spread, setMember_eq_self hlookup]
    intro heq
    cases heq

/-! ## Written and cut files -/

/-- Entries that are written are stored as JSON has them. -/
theorem storedEntries_writeAll {items : List Plain}
    (hitems : ∀ item ∈ items, ∃ ms, item = .obj ms) :
    storedEntries host (some (writeAll items)) =
      some (items.map fun item => (normalizeItem host (own (jsonImage item))).getD .null) := by
  have hmap : (items.map fun item => own (jsonImage item)).mapM (entryOf host) =
      some (items.map fun item => (normalizeItem host (own (jsonImage item))).getD .null) := by
    refine mapM_eq_some_map fun item hitem => ?_
    obtain ⟨ms, rfl⟩ := hitems item hitem
    rw [jsonImage_obj, own_obj]
    rfl
  rw [storedEntries, writeAll, decodeUtf8_encodeUtf8, if_neg (trim_jsonText_arr_ne_nil _ _),
    parseJson_jsonText_own (by simp [Json.Blank, Json.isSpace]), jsonImage_arr, own_arr,
    List.map_map]
  exact hmap

/-- The text of an array stands in brackets. -/
theorem exists_brackets (gap : Text) (items : List Plain) :
    ∃ mid, jsonText gap (.arr items) = '[' :: (mid ++ [']']) := by
  rw [jsonText, jsonImage_arr, Json.write_arr, Json.bracket]
  split
  · exact ⟨[], rfl⟩
  · exact ⟨_, rfl⟩

theorem parse_arr_of_parseJson {t : Text} {items : List Plain}
    (h : parseJson t = some (.arr items)) : ∃ vs, Json.parse readNumber t = some (.arr vs) := by
  obtain ⟨v, hparse, hown⟩ := Option.map_eq_some_iff.mp h
  cases v with
  | arr vs => exact ⟨vs, hparse⟩
  | obj ms =>
    rw [own_obj] at hown
    cases hown
  | null => cases hown
  | bool b => cases hown
  | num n => cases hown
  | str s => cases hown

theorem trim_ne_nil {c : Char} (hc : isJsSpace c = false) (t : Text) : trim (c :: t) ≠ [] := by
  rw [trim, List.dropWhile_cons_of_neg (by simp [hc]), ne_eq, List.reverse_eq_nil_iff,
    List.dropWhile_eq_nil_iff]
  intro hall
  have hspace := hall c (List.mem_reverse.mpr List.mem_cons_self)
  rw [hc] at hspace
  cases hspace

/-- A file whose last bytes are missing is not blank, and no array, unless all are. -/
theorem unreadable_take {items : List Plain} {n : ℕ} (hpos : 0 < n)
    (hn : n < (writeAll items).length) :
    trim (decodeUtf8 ((writeAll items).take n)) ≠ [] ∧
      ∀ items', parseJson (decodeUtf8 ((writeAll items).take n)) ≠ some (.arr items') := by
  obtain ⟨mid, hbrackets⟩ := exists_brackets [' ', ' '] items
  have hblank : trim (decodeUtf8 ((writeAll items).take n)) ≠ [] := by
    obtain ⟨n, rfl⟩ : ∃ k, n = k + 1 := ⟨n - 1, by omega⟩
    have hfirst : encodeChar '[' = [91] := by decide
    rw [writeAll, hbrackets, encodeUtf8_cons, hfirst, List.singleton_append, List.take_succ_cons,
      ← List.singleton_append, ← hfirst, decodeUtf8_encodeChar_append]
    exact trim_ne_nil (by decide) _
  obtain ⟨kept, cut, junk, ht, hcut, hjunk, hdecode⟩ := decodeUtf8_take_encodeUtf8 _ hn
  have hread : ∃ v, Json.parse readNumber (jsonText [' ', ' '] (.arr items)) = some v := by
    have hparse := @parseJson_jsonText_own [' ', ' '] (by simp [Json.Blank, Json.isSpace])
      (.arr items)
    rw [jsonImage_arr, own_arr] at hparse
    obtain ⟨vs, hvs⟩ := parse_arr_of_parseJson hparse
    exact ⟨_, hvs⟩
  obtain ⟨v, hv⟩ := hread
  have hother : ∀ c ∈ junk, Json.isSpace c = false ∧ c ≠ ']' := by
    intro c hc
    have hge := hjunk c hc
    refine ⟨?_, ?_⟩
    · rw [Bool.eq_false_iff]
      intro hspace
      simp only [Json.isSpace, Bool.or_eq_true, beq_iff_eq] at hspace
      rcases hspace with ((rfl | rfl) | rfl) | rfl <;> exact hge (by decide)
    · rintro rfl
      exact hge (by decide)
  refine ⟨hblank, fun items' hparse => ?_⟩
  obtain ⟨vs, hvs⟩ := parse_arr_of_parseJson hparse
  rw [writeAll, hdecode] at hvs
  refine absurd hvs (Json.parse_cut_ne_arr (by decide) hv ht hcut ?_ hother vs)
  rw [hbrackets, ← List.cons_append, List.getLast?_concat]

/-! ## Saving -/

variable {file : Option (List UInt8)} {entry : VaultEntry} {now : ℤ} {entries : List Plain}

variable (host) in
/-- What JSON makes of an entry that is written and read. -/
def reread (item : Plain) : Plain := (normalizeItem host (own (jsonImage item))).getD .null

/-- The numbers of an object that was written and read are those JSON can write. -/
theorem jsonNumbers_reread (ms : List (JsString × Plain)) :
    JsonNumbers (reread host (.obj ms)) := by
  have hnumbers : JsonNumbers (own (jsonImage (.obj ms))) := (jsonNumbers_jsonImage _).own
  rw [jsonImage_obj, own_obj] at hnumbers
  rw [reread, jsonImage_obj, own_obj]
  generalize orderMembers _ = ms' at hnumbers
  rw [JsonNumbers, Json.allNumbers_obj] at hnumbers
  show JsonNumbers (.obj (setMember _ _ (spread (.obj ms'))))
  rw [spread, JsonNumbers, Json.allNumbers_obj]
  intro m hm
  obtain rfl | hm := mem_of_mem_setMember hm
  · trivial
  · exact hnumbers m hm

theorem isObject_of_storedEntries (h : storedEntries host file = some entries) {e : Plain}
    (he : e ∈ entries) : ∃ ms, e = .obj ms := by
  obtain ⟨ms, -, hnormal⟩ := exists_members_of_storedEntries h he
  exact ⟨_, (Option.some.inj hnormal).symm⟩

/-- Reading back leaves the entries exactly when JSON can write their numbers. -/
theorem map_reread_iff (h : storedEntries host file = some entries) :
    entries.map (reread host) = entries ↔ ∀ e ∈ entries, JsonNumbers e := by
  constructor
  · intro heq e he
    have hfixed := List.map_inj_left.mp (heq.trans (List.map_id entries).symm) e he
    obtain ⟨ms, rfl⟩ := isObject_of_storedEntries h he
    rw [← show reread host (.obj ms) = .obj ms from hfixed]
    exact jsonNumbers_reread ms
  · intro hnumbers
    refine (List.map_congr_left fun e he => ?_).trans (List.map_id entries)
    obtain ⟨ms, hordered, hnormal⟩ := exists_members_of_storedEntries h he
    obtain ⟨hown, hsettled⟩ := settled_of_normalizeItem hordered hnormal (hnumbers e he)
    rw [reread, hown, hsettled]
    rfl

/-- The list after a write that completed. -/
theorem storedEntries_saved (h : storedEntries host file = some entries) (entry : VaultEntry)
    (now : ℤ) :
    storedEntries host (some (writeAll (readAll host file ++ [(entry.stored host now).value]))) =
      some (entries.map (reread host) ++ [(entry.stored host now).value]) := by
  have hitems : ∀ item ∈ entries ++ [(entry.stored host now).value], ∃ ms, item = .obj ms := by
    intro item hitem
    obtain hitem | hitem := List.mem_append.mp hitem
    · exact isObject_of_storedEntries h hitem
    · exact ⟨_, List.mem_singleton.mp hitem⟩
  obtain ⟨hown, hsettled⟩ := @settled_value host entry now
  rw [readAll_of_storedEntries h, storedEntries_writeAll hitems, List.map_append,
    List.map_singleton, hown, hsettled]
  rfl

/-- What is left after a cut holds no list, unless nothing was written. -/
theorem storedEntries_cutBytes (items : List Plain) (missing : ℕ) :
    storedEntries host (some (cutBytes missing (writeAll items))) =
      if (writeAll items).length ≤ missing + 1 then some [] else none := by
  split
  · next hall =>
    rw [cutBytes, Nat.sub_eq_zero_of_le hall, List.take_zero]
    rfl
  · next hsome =>
    obtain ⟨hblank, harr⟩ := @unreadable_take items ((writeAll items).length - (missing + 1))
      (by omega) (by omega)
    rw [storedEntries, cutBytes, if_neg hblank]
    split
    · next items' hparse => exact absurd hparse (harr items')
    · rfl

/-- A cut file is read as an empty list. -/
theorem readAll_cutBytes (items : List Plain) (missing : ℕ) :
    readAll host (some (cutBytes missing (writeAll items))) = [] := by
  by_cases hall : (writeAll items).length ≤ missing + 1
  · rw [cutBytes, Nat.sub_eq_zero_of_le hall, List.take_zero]
    rfl
  · obtain ⟨hblank, harr⟩ := @unreadable_take items ((writeAll items).length - (missing + 1))
      (by omega) (by omega)
    rw [readAll, cutBytes, if_neg hblank]
    split
    · next items' hparse => exact absurd hparse (harr items')
    · rfl

theorem losesNothing_done_iff :
    LosesNothing host file entry now .done ↔ SafeToSave host file entry now .done := by
  constructor
  · rintro ⟨entries, hstored, hafter⟩
    refine ⟨entries, hstored, (map_reread_iff hstored).mp ?_⟩
    rw [fileAfter] at hafter
    rw [storedEntries_saved hstored] at hafter
    exact List.append_cancel_right (Option.some.inj hafter)
  · rintro ⟨entries, hstored, hnumbers⟩
    refine ⟨entries, hstored, ?_⟩
    rw [fileAfter]
    rw [storedEntries_saved hstored, (map_reread_iff hstored).mpr hnumbers]

theorem losesNothing_cut_iff {missing : ℕ} :
    LosesNothing host file entry now (.cut missing) ↔
      SafeToSave host file entry now (.cut missing) := by
  constructor
  · rintro (hsame | ⟨entries, entries', hstored, hafter, hkept⟩)
    · have hempty : readAll host file = [] := by
        rw [← hsame]
        exact readAll_cutBytes _ _
      rw [fileAfter, hempty] at hsame
      exact .inr hsame.symm
    · rw [fileAfter, storedEntries_cutBytes] at hafter
      split at hafter
      · next hall =>
        cases hafter
        rw [List.prefix_nil.mp hkept] at hstored
        rw [readAll_of_storedEntries hstored] at hall
        exact .inl ⟨hstored, hall⟩
      · cases hafter
  · rintro (⟨hstored, hall⟩ | hfile)
    · refine .inr ⟨[], [], hstored, ?_, List.nil_prefix⟩
      rw [fileAfter, storedEntries_cutBytes, readAll_of_storedEntries hstored]
      exact if_pos hall
    · refine .inl ?_
      have hempty : readAll host file = [] := hfile ▸ readAll_cutBytes _ _
      rw [fileAfter, hempty]
      exact hfile.symm

/-- **Saving.** Nothing is lost exactly when the write completes over a readable list, changes
nothing, or ends before it has lost an entry. -/
theorem losesNothing_iff (host : VaultHost) (file : Option (List UInt8)) (entry : VaultEntry)
    (now : ℤ) (outcome : WriteOutcome) :
    LosesNothing host file entry now outcome ↔ SafeToSave host file entry now outcome := by
  cases outcome with
  | done => exact losesNothing_done_iff
  | refused => exact iff_of_true (.inl rfl) trivial
  | cut missing => exact losesNothing_cut_iff

theorem one_lt_length_writeAll (items : List Plain) : 1 < (writeAll items).length := by
  obtain ⟨mid, hbrackets⟩ := exists_brackets [' ', ' '] items
  have hascii : ∀ c ∈ ['[', ']'], encodeChar c = [UInt8.ofNat c.toNat] := by
    intro c hc
    refine encodeChar_of_ascii ?_
    rcases List.mem_pair.mp hc with rfl | rfl <;> decide
  rw [writeAll, hbrackets, encodeUtf8_cons, encodeUtf8, List.flatMap_append, List.flatMap_singleton,
    hascii '[' (by simp), hascii ']' (by simp)]
  simp only [List.length_append, List.length_singleton]
  omega

/-- The file a first save was cut in is overwritten by the next. -/
theorem cut_file_overwritten : ¬∀ file entry now outcome,
    LosesNothing sampleDigestHost file entry now outcome := by
  intro hall
  obtain ⟨entries, hstored, -⟩ := hall
    (some (cutBytes 0 (writeAll [(sampleEntry.stored sampleDigestHost 0).value]))) sampleEntry 0
    .done
  have hlength := one_lt_length_writeAll [(sampleEntry.stored sampleDigestHost 0).value]
  rw [storedEntries_cutBytes, if_neg (by omega)] at hstored
  cases hstored

end MemphisOS.VaultAdapter
