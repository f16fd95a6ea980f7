import MemphisOS.Ecma.Documents
import MemphisOS.Ecma.Maps
import MemphisOS.Vault.Durability

/-!
# Edits of a saved entry

What `verifyVaultEntry` answers for a saved entry whose record was edited in the file. The
fingerprint covers the key, the ciphertext and the nonce, and is computed anew for a record that
has none.
-/

namespace MemphisOS.VaultAdapter

open Ecma Bridge

variable {host : VaultHost}

variable (host) in
def verifyVaultEntry (entry : Plain) : Bool :=
  stringProperty entry "fingerprint" = some (computeFingerprint host entry)

/-- What is assumed of SHA-256: different texts have different digests, and none is empty. -/
structure IdealDigest (sha256 : Text → Text) : Prop where
  injective : Function.Injective sha256
  ne_nil : ∀ t, sha256 t ≠ []

/-- A value that can stand in a file. -/
abbrev FileValue := { v : Plain // IsDocument v }

/-- What an edit leaves under the four names, and whether it leaves the fingerprint. -/
structure Edit where
  key : Option FileValue
  encrypted : Option FileValue
  iv : Option FileValue
  tag : Option FileValue
  keepsFingerprint : Bool

/-- The record after the edit. -/
def Edit.record (edit : Edit) (stored : StoredVaultEntry) : Plain :=
  .obj (optionalMember "key" (edit.key.map (·.1)) ++
    optionalMember "encrypted" (edit.encrypted.map (·.1)) ++
    optionalMember "iv" (edit.iv.map (·.1)) ++ optionalMember "id" (stored.id.map .str) ++
    optionalMember "tag" (edit.tag.map (·.1)) ++
    optionalMember "createdAt" (stored.createdAt.map .str) ++
    optionalMember "fingerprint"
      (if edit.keepsFingerprint then some (.str stored.fingerprint) else none))

/-- The three values the fingerprint covers are what they were. -/
def Edit.KeepsHashed (edit : Edit) (stored : StoredVaultEntry) : Prop :=
  edit.key.map (·.1) = some (.str stored.key) ∧
    edit.encrypted.map (·.1) = some (.str stored.encrypted) ∧
    edit.iv.map (·.1) = some (.str stored.iv)

/-- One of the four values is not what it was. -/
def Edit.Modifies (edit : Edit) (stored : StoredVaultEntry) : Prop :=
  ¬(edit.KeepsHashed stored ∧ edit.tag.map (·.1) = stored.tag.map .str)

variable (host) in
/-- Wherever the edited record stands in a file that loads, the loaded entry is verified exactly
when it was not modified. -/
def Detects (stored : StoredVaultEntry) (edit : Edit) : Prop :=
  ∀ (file : List UInt8) (items : List Plain) (i : ℕ) (loaded : Plain),
    parseJson (decodeUtf8 file) = some (.arr items) → items[i]? = some (edit.record stored) →
      (readAll host (some file))[i]? = some loaded →
      (verifyVaultEntry host loaded = true ↔ ¬edit.Modifies stored)

/-! ## Loading -/

theorem getElem?_readAll {file : List UInt8} {items : List Plain} {i : ℕ} {loaded : Plain}
    (hparse : parseJson (decodeUtf8 file) = some (.arr items))
    (h : (readAll host (some file))[i]? = some loaded) :
    items[i]?.bind (normalizeItem host) = some loaded := by
  rw [readAll] at h
  split at h
  · cases h
  · rw [hparse] at h
    simp only at h
    cases hitems : items.mapM (normalizeItem host) with
    | none =>
      rw [hitems] at h
      cases h
    | some records =>
      rw [hitems, Option.getD_some, getElem?_of_mapM hitems] at h
      exact h

/-! ## Fingerprints -/

/-- The object that is hashed. -/
def hashed (key encrypted iv : Option Plain) : Plain :=
  .obj (optionalMember "key" key ++ optionalMember "encrypted" encrypted ++ optionalMember "iv" iv)

theorem isDocument_optionalMember {name : String} {value : Option Plain}
    (h : ∀ v ∈ value, IsDocument v) : ∀ m ∈ optionalMember name value, IsDocument m.2 := by
  intro m hm
  obtain ⟨v, hv, rfl⟩ := List.mem_map.mp hm
  exact h v (Option.mem_toList.mp hv)

theorem isDocument_fileValue (value : Option FileValue) :
    ∀ v ∈ value.map (·.1), IsDocument v := by
  intro v hv
  obtain ⟨w, -, rfl⟩ := Option.map_eq_some_iff.mp hv
  exact w.2

theorem isDocument_string (value : Option JsString) : ∀ v ∈ value.map Json.str, IsDocument v := by
  intro v hv
  obtain ⟨s, -, rfl⟩ := Option.map_eq_some_iff.mp hv
  exact isDocument_str s

theorem isDocument_hashed {key encrypted iv : Option Plain} (hkey : ∀ v ∈ key, IsDocument v)
    (hencrypted : ∀ v ∈ encrypted, IsDocument v) (hiv : ∀ v ∈ iv, IsDocument v) :
    IsDocument (hashed key encrypted iv) := by
  have hkeys : InOwnOrder [js "key", js "encrypted", js "iv"] := ⟨by decide, by decide⟩
  have hsublist := ((keys_optionalMember "key" key).append
    (keys_optionalMember "encrypted" encrypted)).append (keys_optionalMember "iv" iv)
  refine isDocument_obj.mpr ⟨?_, ?_⟩
  · rw [List.map_append, List.map_append]
    exact ⟨hkeys.1.sublist hsublist, hkeys.2.sublist hsublist⟩
  · simp only [List.mem_append]
    rintro m ((h | h) | h)
    · exact isDocument_optionalMember hkey m h
    · exact isDocument_optionalMember hencrypted m h
    · exact isDocument_optionalMember hiv m h

theorem hashed_inj {key encrypted iv key' encrypted' iv' : Option Plain}
    (h : hashed key encrypted iv = hashed key' encrypted' iv') :
    key = key' ∧ encrypted = encrypted' ∧ iv = iv' := by
  have hproperty : ∀ key encrypted iv, property (hashed key encrypted iv) "key" = key ∧
      property (hashed key encrypted iv) "encrypted" = encrypted ∧
      property (hashed key encrypted iv) "iv" = iv := by
    intro key encrypted iv
    cases key <;> cases encrypted <;> cases iv <;> exact ⟨rfl, rfl, rfl⟩
  have h₁ := hproperty key encrypted iv
  rw [h] at h₁
  have h₂ := hproperty key' encrypted' iv'
  exact ⟨h₁.1.symm.trans h₂.1, h₁.2.1.symm.trans h₂.2.1, h₁.2.2.symm.trans h₂.2.2⟩

variable {stored : StoredVaultEntry} {edit : Edit}

/-- The fingerprint depends on three properties. -/
theorem computeFingerprint_eq (host : VaultHost) (item : Plain) :
    computeFingerprint host item = ofText (host.sha256 (jsonText []
      (hashed (property item "key") (property item "encrypted") (property item "iv")))) := by
  rw [computeFingerprint]
  cases hkey : property item "key" <;> cases hencrypted : property item "encrypted" <;>
    cases hiv : property item "iv" <;>
      simp [hkey, hencrypted, hiv, hashed, optionalMember]

theorem fingerprint_stored (host : VaultHost) (entry : VaultEntry) (now : ℤ) :
    (entry.stored host now).fingerprint = ofText (host.sha256 (jsonText []
      (hashed (some (.str entry.key)) (some (.str entry.encrypted)) (some (.str entry.iv))))) := rfl

theorem lookup_optionalMember (name name' : String) (value : Option Plain) :
    (optionalMember name value).lookup (js name') = if name' = name then value else none := by
  cases value with
  | none => simp [optionalMember]
  | some v =>
    by_cases h : name' = name
    · simp [optionalMember, h]
    · simp [optionalMember, List.lookup_cons, h, beq_false_of_ne h]

/-- What is found in the record after the edit. -/
theorem property_record (edit : Edit) (stored : StoredVaultEntry) :
    property (edit.record stored) "key" = edit.key.map (·.1) ∧
      property (edit.record stored) "encrypted" = edit.encrypted.map (·.1) ∧
      property (edit.record stored) "iv" = edit.iv.map (·.1) ∧
      property (edit.record stored) "fingerprint" =
        if edit.keepsFingerprint then some (.str stored.fingerprint) else none := by
  simp [Edit.record, property, List.lookup_append, lookup_optionalMember]

/-- The fingerprint of the record is that of the entry exactly when the values it covers are. -/
theorem computeFingerprint_record_iff (hdigest : IdealDigest host.sha256) (entry : VaultEntry)
    (now : ℤ) (edit : Edit) :
    computeFingerprint host (edit.record (entry.stored host now)) =
      (entry.stored host now).fingerprint ↔ edit.KeepsHashed (entry.stored host now) := by
  obtain ⟨hkey, hencrypted, hiv, -⟩ := property_record edit (entry.stored host now)
  rw [computeFingerprint_eq, hkey, hencrypted, hiv, fingerprint_stored]
  constructor
  · intro h
    have htext := hdigest.injective (ofText_injective h)
    have hread := congrArg parseJson htext
    have hedited := isDocument_hashed (isDocument_fileValue edit.key)
      (isDocument_fileValue edit.encrypted) (isDocument_fileValue edit.iv)
    have hstored := isDocument_hashed (isDocument_string (some entry.key))
      (isDocument_string (some entry.encrypted)) (isDocument_string (some entry.iv))
    simp only [Option.map_some] at hstored
    rw [hedited.parseJson (by simp [Json.Blank]),
      hstored.parseJson (by simp [Json.Blank])] at hread
    exact hashed_inj (Option.some.inj hread)
  · rintro ⟨hkey, hencrypted, hiv⟩
    rw [hkey, hencrypted, hiv]
    rfl

/-- The other properties do not depend on the fingerprint that is set. -/
theorem property_setFingerprint {name : String} (hne : name ≠ "fingerprint") (value : Plain)
    (ms : List (JsString × Plain)) :
    property (.obj (setMember (js "fingerprint") value ms)) name = property (.obj ms) name :=
  (lookup_setMember _ _ _ _).trans (if_neg fun heq => hne (js_inj.mp heq))

theorem computeFingerprint_setFingerprint (host : VaultHost) (value : Plain)
    (ms : List (JsString × Plain)) :
    computeFingerprint host (.obj (setMember (js "fingerprint") value ms)) =
      computeFingerprint host (.obj ms) := by
  rw [computeFingerprint_eq, property_setFingerprint (by decide),
    property_setFingerprint (by decide), property_setFingerprint (by decide),
    ← computeFingerprint_eq]

theorem stringProperty_setFingerprint (s : JsString) (ms : List (JsString × Plain)) :
    stringProperty (.obj (setMember (js "fingerprint") (.str s) ms)) "fingerprint" = some s := by
  have hset : property (.obj (setMember (js "fingerprint") (.str s) ms)) "fingerprint" =
      some (.str s) := (lookup_setMember _ _ _ _).trans (if_pos rfl)
  rw [stringProperty, hset]

/-- A loaded record is verified when the fingerprint it was given is the one it should have. -/
theorem verify_normalizeItem {ms : List (JsString × Plain)} {loaded : Plain}
    (h : normalizeItem host (.obj ms) = some loaded) :
    verifyVaultEntry host loaded = true ↔
      (nonEmpty (stringProperty (.obj ms) "fingerprint")).getD (computeFingerprint host (.obj ms)) =
        computeFingerprint host (.obj ms) := by
  cases h
  rw [spread, verifyVaultEntry, decide_eq_true_iff, computeFingerprint_setFingerprint,
    stringProperty_setFingerprint]
  exact Option.some_inj

/-- The loaded entry is verified exactly when its fingerprint was removed or still fits. -/
theorem verify_loaded_iff (hdigest : IdealDigest host.sha256) (entry : VaultEntry) (now : ℤ)
    (edit : Edit) {loaded : Plain}
    (h : normalizeItem host (edit.record (entry.stored host now)) = some loaded) :
    verifyVaultEntry host loaded = true ↔
      (edit.keepsFingerprint = true → edit.KeepsHashed (entry.stored host now)) := by
  have hne : (entry.stored host now).fingerprint ≠ [] := by
    intro hempty
    exact hdigest.ne_nil _ (ofText_injective (hempty.trans ofText_nil.symm))
  have hrecord := computeFingerprint_record_iff hdigest entry now edit
  obtain ⟨-, -, -, hfingerprint⟩ := property_record edit (entry.stored host now)
  rw [Edit.record] at h hrecord hfingerprint
  rw [verify_normalizeItem h, stringProperty, hfingerprint, ← hrecord]
  cases hkeeps : edit.keepsFingerprint with
  | false => simp [nonEmpty]
  | true => simp [nonEmpty_of_ne_nil hne, eq_comm]

/-! ## Detection -/

theorem isDocument_record (edit : Edit) (stored : StoredVaultEntry) :
    IsDocument (edit.record stored) := by
  have hkeys : InOwnOrder [js "key", js "encrypted", js "iv", js "id", js "tag", js "createdAt",
      js "fingerprint"] := ⟨by decide, by decide⟩
  have hsublist := (((((((keys_optionalMember "key" (edit.key.map (·.1))).append
    (keys_optionalMember "encrypted" (edit.encrypted.map (·.1)))).append
    (keys_optionalMember "iv" (edit.iv.map (·.1)))).append
    (keys_optionalMember "id" (stored.id.map .str))).append
    (keys_optionalMember "tag" (edit.tag.map (·.1)))).append
    (keys_optionalMember "createdAt" (stored.createdAt.map .str))).append
    (keys_optionalMember "fingerprint"
      (if edit.keepsFingerprint then some (.str stored.fingerprint) else none)))
  refine isDocument_obj.mpr ⟨?_, ?_⟩
  · simp only [List.map_append]
    exact ⟨hkeys.1.sublist hsublist, hkeys.2.sublist hsublist⟩
  · have hfingerprint : ∀ v ∈ (if edit.keepsFingerprint then some (.str stored.fingerprint)
        else none : Option Plain), IsDocument v := by
      cases edit.keepsFingerprint with
      | true => exact isDocument_string (some stored.fingerprint)
      | false => exact isDocument_string none
    simp only [List.mem_append]
    rintro m ((((((h | h) | h) | h) | h) | h) | h)
    · exact isDocument_optionalMember (isDocument_fileValue _) m h
    · exact isDocument_optionalMember (isDocument_fileValue _) m h
    · exact isDocument_optionalMember (isDocument_fileValue _) m h
    · exact isDocument_optionalMember (isDocument_string _) m h
    · exact isDocument_optionalMember (isDocument_fileValue _) m h
    · exact isDocument_optionalMember (isDocument_string _) m h
    · exact isDocument_optionalMember hfingerprint m h

/-- An edited record stands in some file that loads. -/
theorem exists_loaded (host : VaultHost) (edit : Edit) (stored : StoredVaultEntry) :
    ∃ (file : List UInt8) (items : List Plain) (i : ℕ) (loaded : Plain),
      parseJson (decodeUtf8 file) = some (.arr items) ∧ items[i]? = some (edit.record stored) ∧
        (readAll host (some file))[i]? = some loaded := by
  have hdocument : IsDocument (.arr [edit.record stored]) :=
    isDocument_arr.mpr fun v hv => List.mem_singleton.mp hv ▸ isDocument_record edit stored
  have hread := @readAll_writeAll host [edit.record stored]
    fun item hitem => ⟨_, List.mem_singleton.mp hitem⟩
  refine ⟨writeAll [edit.record stored], [edit.record stored], 0, _, ?_, rfl, by rw [hread]; rfl⟩
  rw [writeAll, decodeUtf8_encodeUtf8, hdocument.parseJson (by simp [Json.Blank, Json.isSpace])]

/-- The entry that is loaded of an edited record. -/
theorem verify_edited_iff (hdigest : IdealDigest host.sha256) (entry : VaultEntry) (now : ℤ)
    (edit : Edit) {file : List UInt8} {items : List Plain} {i : ℕ} {loaded : Plain}
    (hparse : parseJson (decodeUtf8 file) = some (.arr items))
    (hitem : items[i]? = some (edit.record (entry.stored host now)))
    (hloaded : (readAll host (some file))[i]? = some loaded) :
    verifyVaultEntry host loaded = true ↔
      (edit.keepsFingerprint = true → edit.KeepsHashed (entry.stored host now)) := by
  have hnormal := getElem?_readAll hparse hloaded
  rw [hitem, Option.bind_some] at hnormal
  exact verify_loaded_iff hdigest entry now edit hnormal

/-- A modification that is detected leaves the fingerprint and changes a value it covers. -/
theorem changesHashed_of_detects (hdigest : IdealDigest host.sha256) {entry : VaultEntry} {now : ℤ}
    {edit : Edit} (h : Detects host (entry.stored host now) edit)
    (hmodifies : edit.Modifies (entry.stored host now)) :
    edit.keepsFingerprint = true ∧ ¬edit.KeepsHashed (entry.stored host now) := by
  obtain ⟨file, items, i, loaded, hparse, hitem, hloaded⟩ :=
    exists_loaded host edit (entry.stored host now)
  have hfalse := mt (h file items i loaded hparse hitem hloaded).mp (not_not.mpr hmodifies)
  rw [verify_edited_iff hdigest entry now edit hparse hitem hloaded] at hfalse
  exact Classical.not_imp.mp hfalse

/-- **Detection.** Exactly the edits that leave the fingerprint and change a value it covers are
detected, besides those that change nothing. -/
theorem detects_iff (hdigest : IdealDigest host.sha256) (file : Option (List UInt8))
    (entry : VaultEntry) (now : ℤ) (edit : Edit) :
    Detects host (saveVaultEntry host file entry now).1 edit ↔
      (edit.Modifies (saveVaultEntry host file entry now).1 → edit.keepsFingerprint = true ∧
        ¬edit.KeepsHashed (saveVaultEntry host file entry now).1) := by
  show Detects host (entry.stored host now) edit ↔ _
  constructor
  · exact changesHashed_of_detects hdigest
  · intro hcondition file items i loaded hparse hitem hloaded
    rw [verify_edited_iff hdigest entry now edit hparse hitem hloaded]
    constructor
    · intro hkept hmodifies
      obtain ⟨hkeeps, hchanged⟩ := hcondition hmodifies
      exact hchanged (hkept hkeeps)
    · intro hnot _
      exact (not_not.mp hnot).1

/-- A host whose digests are the texts, marked. -/
def sampleDigestHost : VaultHost := ⟨⟨id, ('f' :: ·)⟩, sampleCrates⟩

theorem idealDigest_sample : IdealDigest sampleDigestHost.sha256 :=
  ⟨List.cons_injective, fun t => List.cons_ne_nil 'f' t⟩

def sampleEntry : VaultEntry :=
  ⟨js "token", js "c2VjcmV0", js "bm9uY2U=", none, some (js "dGFn"), none⟩

def fileString (s : String) : Option FileValue := some ⟨.str (js s), isDocument_str _⟩

/-- Only the tag is changed. -/
def sampleTagEdit : Edit :=
  ⟨fileString "token", fileString "c2VjcmV0", fileString "bm9uY2U=", fileString "AAAA", true⟩

theorem detects_iff_tag :
    Detects sampleDigestHost (saveVaultEntry sampleDigestHost none sampleEntry 0).1
      sampleTagEdit ↔
        (sampleTagEdit.Modifies (saveVaultEntry sampleDigestHost none sampleEntry 0).1 →
          sampleTagEdit.keepsFingerprint = true ∧
          ¬sampleTagEdit.KeepsHashed (saveVaultEntry sampleDigestHost none sampleEntry 0).1) :=
  detects_iff idealDigest_sample none sampleEntry 0 sampleTagEdit

/-- A changed tag is not detected. -/
theorem tag_edit_not_detected : ¬∀ entry now edit, Detects sampleDigestHost
    (saveVaultEntry sampleDigestHost none entry now).1 edit := by
  intro hdetects
  have hmodifies : sampleTagEdit.Modifies (sampleEntry.stored sampleDigestHost 0) := by
    rintro ⟨-, htag⟩
    injection htag with htag
    injection htag with htag
    exact absurd (js_inj.mp htag) (by decide)
  obtain ⟨-, hchanged⟩ := changesHashed_of_detects idealDigest_sample
    (hdetects sampleEntry 0 sampleTagEdit) hmodifies
  exact hchanged ⟨rfl, rfl, rfl⟩

end MemphisOS.VaultAdapter
