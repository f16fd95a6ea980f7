import MemphisOS.Chain.Blocks
import MemphisOS.Systems.Transition
import MemphisOS.Vault.Adapter

/-!
# Durability of the vault

Initialisations, saved entries, decryptions and restarts in any order. Every saved entry still
decrypts to its plaintext as long as no initialisation replaces the key it was sealed under. An
initialisation draws a fresh salt, so that in practice each one after the first does.
-/

namespace MemphisOS.VaultAdapter

open Ecma Bridge MemphisVault

/-- An entry that was saved. -/
structure SavedEntry where
  stored : StoredVaultEntry
  plaintext : JsString
  /-- The master key it was sealed under. -/
  masterKey : List UInt8

structure VaultState where
  activeVault : Option JsVault
  stateFile : Option (List UInt8)
  entriesFile : Option (List UInt8)
  saved : List SavedEntry

inductive VaultLabel where
  | init (env : VaultEnv) (input : VaultInitInput) (seeds : Seeds)
  | save (env : VaultEnv) (key plaintext : JsString) (moment : Moment) (now : ℤ)
  | decrypt (env : VaultEnv) (entry : VaultEntry) (now : ℤ)
  | restart

variable (host : VaultHost)

/-- An operation that returns normally. -/
inductive VaultStep : VaultState → VaultLabel → VaultState → Prop
  | init {s : VaultState} {env : VaultEnv} {input : VaultInitInput} {seeds : Seeds}
      {activeVault : JsVault} {stateFile : List UInt8} {did : JsString} :
      vaultInit host env input seeds = .ok (activeVault, stateFile, did) →
      VaultStep s (.init env input seeds)
        { s with activeVault := some activeVault, stateFile := some stateFile }
  | save {s : VaultState} {env : VaultEnv} {key plaintext : JsString} {moment : Moment} {now : ℤ}
      {entry : VaultEntry} {vault : JsVault} :
      vaultEncrypt host env s.activeVault s.stateFile key plaintext moment = .ok (entry, vault) →
      VaultStep s (.save env key plaintext moment now)
        { s with
          activeVault := some vault
          entriesFile := some (saveVaultEntry host s.entriesFile entry now).2
          saved := s.saved ++ [⟨(saveVaultEntry host s.entriesFile entry now).1, plaintext,
            vault.masterKey.getD []⟩] }
  | decrypt {s : VaultState} {env : VaultEnv} {entry : VaultEntry} {now : ℤ} {plaintext : JsString}
      {vault : JsVault} :
      vaultDecrypt host env s.activeVault s.stateFile entry now = .ok (plaintext, vault) →
      VaultStep s (.decrypt env entry now) { s with activeVault := some vault }
  | restart {s : VaultState} : VaultStep s .restart { s with activeVault := none }

/-- The vault from the first start on. -/
def vaultSystem : TransitionSystem VaultState VaultLabel where
  init s := s = ⟨none, none, none, []⟩
  step := VaultStep host

/-- Every entry that was saved is listed and decrypts to its plaintext. -/
def Durable (S : TransitionSystem VaultState VaultLabel) : Prop :=
  ∀ s, S.Reachable s → ∀ e ∈ s.saved, e.stored.value ∈ readAll host s.entriesFile ∧
    ∀ env now, getBridgeOrThrow host env = .ok () →
      ∃ vault, vaultDecrypt host env s.activeVault s.stateFile e.stored.toVaultEntry now =
        .ok (e.plaintext, vault)

/-- An initialisation derives the key of the entries that were saved, if any, and what is saved is
well-formed. -/
def KeepsKey (s : VaultState) : VaultLabel → Prop
  | .init _ input seeds => ∀ e ∈ s.saved, ∀ masterKey,
      deriveMasterKey host.crates (wellFormed input.passphrase) seeds.salt = .ok masterKey →
        e.masterKey =
          (deriveVaultKeyWith2fa host.crates masterKey (wellFormed input.recoveryAnswer)).1
  | .save _ _ plaintext _ _ => ∃ t, plaintext = ofText t
  | .decrypt _ _ _ | .restart => True

variable {host} {s t : VaultState}

/-! ## The state file -/

/-- A vault with the master key under both names. -/
def normalVault (salt masterKey : List UInt8) : JsVault := ⟨salt, some masterKey, some masterKey⟩

theorem normalizeVault_normalVault (salt masterKey : List UInt8) :
    normalizeVault (normalVault salt masterKey) = .ok (normalVault salt masterKey) := rfl

/-- What is persisted is loaded. -/
theorem load_persisted {salt masterKey file : List UInt8} (hsalt : salt ≠ [])
    (hkey : masterKey ≠ []) (h : persistVaultState (normalVault salt masterKey) = .ok file) :
    ∃ loaded, loadPersistedVaultState (some file) = some loaded ∧
      normalizeVault loaded = .ok (normalVault salt masterKey) := by
  obtain rfl : encodeUtf8 (jsonText [' ', ' '] (serializeVaultState salt masterKey)) = file :=
    Except.ok.inj h
  have htext : ∀ {bytes : List UInt8}, bytes ≠ [] → ofText (toBase64 bytes) ≠ [] := by
    intro bytes hbytes hnil
    exact toBase64_ne_nil hbytes (ofText_injective hnil)
  have hparse : parseJson (jsonText [' ', ' '] (serializeVaultState salt masterKey)) =
      some (serializeVaultState salt masterKey) := by
    rw [parseJson_jsonText_own (by simp [Json.Blank, Json.isSpace]), serializeVaultState, jsonImage_obj,
      own_obj_of_inOwnOrder]
    · rfl
    · exact show InOwnOrder [js "salt", js "masterKey"] from ⟨by decide, by decide⟩
  refine ⟨⟨salt, some masterKey, none⟩, ?_, rfl⟩
  have htrim : trim (jsonText [' ', ' '] (serializeVaultState salt masterKey)) ≠ [] := by
    rw [serializeVaultState, Chain.trim_jsonText_obj]
    exact Chain.jsonText_obj_ne_nil _ _
  have hproperties : stringProperty (serializeVaultState salt masterKey) "salt" =
      some (ofText (toBase64 salt)) ∧ stringProperty (serializeVaultState salt masterKey)
        "masterKey" = some (ofText (toBase64 masterKey)) := ⟨rfl, rfl⟩
  have hne : ¬(ofText (toBase64 salt) = [] ∨ ofText (toBase64 masterKey) = []) := by
    rintro (hnil | hnil)
    · exact htext hsalt hnil
    · exact htext hkey hnil
  simp only [loadPersistedVaultState, Option.bind_eq_bind, Option.bind_some,
    decodeUtf8_encodeUtf8, if_neg htrim, hparse, hproperties.1, hproperties.2, if_neg hne,
    fromBase64_toBase64]
  rfl

/-- What an initialisation leaves in memory and in the state file. -/
theorem of_vaultInit {env : VaultEnv} {input : VaultInitInput} {seeds : Seeds}
    {activeVault : JsVault} {file : List UInt8} {did : JsString}
    (h : vaultInit host env input seeds = .ok (activeVault, file, did)) :
    ∃ masterKey, deriveMasterKey host.crates (wellFormed input.passphrase) seeds.salt =
        .ok masterKey ∧
      activeVault = normalVault seeds.salt.1
        (deriveVaultKeyWith2fa host.crates masterKey (wellFormed input.recoveryAnswer)).1 ∧
      ∃ loaded, loadPersistedVaultState (some file) = some loaded ∧
        normalizeVault loaded = .ok activeVault := by
  obtain ⟨_, -, h⟩ := ok_of_bind h
  obtain ⟨⟨vault, did'⟩, hbridge, h⟩ := ok_of_bind h
  obtain ⟨result, hresult, hvault⟩ := ok_of_bind hbridge
  obtain ⟨masterKey, hmaster, hkey⟩ := masterKey_of_initFull (ok_of_mapError hresult)
  cases hvault
  rw [hkey] at h
  obtain ⟨normal, hnormal, h⟩ := ok_of_bind h
  cases hnormal
  obtain ⟨file', hfile, h⟩ := ok_of_bind h
  cases h
  have hne : ∀ bytes : Bytes32, bytes.1 ≠ [] := by
    intro bytes hnil
    have hlength := bytes.2
    rw [hnil] at hlength
    cases hlength
  exact ⟨masterKey, hmaster, rfl, load_persisted (hne _) (hne _) hfile⟩

/-! ## The active vault -/

/-- The active vault, if there is one, is that of the state file. -/
def ActiveInv (s : VaultState) : Prop :=
  ∀ vault, s.activeVault = some vault → ∃ loaded,
    loadPersistedVaultState s.stateFile = some loaded ∧ normalizeVault loaded = .ok vault

theorem normalizeVault_idem {loaded vault : JsVault} (h : normalizeVault loaded = .ok vault) :
    normalizeVault vault = .ok vault := by
  rw [normalizeVault] at h
  cases hkey : getVaultMasterKey loaded with
  | error e =>
    rw [hkey] at h
    cases h
  | ok key =>
    rw [hkey] at h
    cases h
    rfl

/-- The active vault is found when the state file has one. -/
theorem ActiveInv.get (hs : ActiveInv s) {loaded vault : JsVault}
    (hload : loadPersistedVaultState s.stateFile = some loaded)
    (hnormal : normalizeVault loaded = .ok vault) :
    getActiveVaultOrThrow s.activeVault s.stateFile = .ok vault := by
  cases hactive : s.activeVault with
  | none =>
    rw [getActiveVaultOrThrow, Option.none_or, hload]
    exact hnormal
  | some active =>
    obtain ⟨loaded', hload', hactive'⟩ := hs active hactive
    obtain rfl : loaded = loaded' := Option.some.inj (hload.symm.trans hload')
    obtain rfl : vault = active := Except.ok.inj (hnormal.symm.trans hactive')
    exact normalizeVault_idem hnormal

/-- The vault that is found is that of the state file. -/
theorem ActiveInv.of_get (hs : ActiveInv s) {vault : JsVault}
    (h : getActiveVaultOrThrow s.activeVault s.stateFile = .ok vault) :
    ∃ loaded, loadPersistedVaultState s.stateFile = some loaded ∧
      normalizeVault loaded = .ok vault := by
  cases hactive : s.activeVault with
  | none =>
    rw [hactive, getActiveVaultOrThrow, Option.none_or] at h
    cases hload : loadPersistedVaultState s.stateFile with
    | none =>
      rw [hload] at h
      cases h
    | some loaded =>
      rw [hload] at h
      exact ⟨loaded, rfl, h⟩
  | some active =>
    obtain ⟨loaded, hload, hnormal⟩ := hs active hactive
    rw [hactive, getActiveVaultOrThrow, Option.some_or] at h
    obtain rfl : active = vault := Except.ok.inj ((normalizeVault_idem hnormal).symm.trans h)
    exact ⟨loaded, hload, hnormal⟩

/-- The active vault stays that of the state file when a call finds it. -/
theorem ActiveInv.found (hs : ActiveInv s) {vault : JsVault}
    (h : getActiveVaultOrThrow s.activeVault s.stateFile = .ok vault)
    (hactive : t.activeVault = some vault) (hfile : t.stateFile = s.stateFile) : ActiveInv t := by
  intro vault' hvault'
  obtain rfl : vault = vault' := Option.some.inj (hactive.symm.trans hvault')
  rw [hfile]
  exact hs.of_get h

/-! ## The file of the entries -/

variable (host) in
/-- A record that reading leaves as it is. -/
def Settled (item : Plain) : Prop :=
  own (jsonImage item) = item ∧ normalizeItem host item = some item

theorem inOwnOrder_value (stored : StoredVaultEntry) : ∀ ms, stored.value = .obj ms →
    InOwnOrder (ms.map Prod.fst) := by
  rintro _ ⟨⟩
  have hkeys : InOwnOrder [js "key", js "encrypted", js "iv", js "id", js "tag", js "createdAt",
      js "fingerprint"] := ⟨by decide, by decide⟩
  have hsublist := ((((List.Sublist.refl [js "key", js "encrypted", js "iv"]).append
    (keys_optionalMember "id" (stored.id.map .str))).append
    (keys_optionalMember "tag" (stored.tag.map .str))).append
    (keys_optionalMember "createdAt" (stored.createdAt.map .str))).append
    (.refl [js "fingerprint"])
  simp only [List.map_append, List.map_cons, List.map_nil]
  exact ⟨hkeys.1.sublist hsublist, hkeys.2.sublist hsublist⟩

theorem normalizeItem_value (stored : StoredVaultEntry) : normalizeItem host stored.value =
    some (.obj (setMember (js "fingerprint")
      (.str ((nonEmpty (stringProperty stored.value "fingerprint")).getD
        (computeFingerprint host stored.value))) (spread stored.value))) := rfl

/-- A record with its own fingerprint is settled. -/
theorem settled_of_fingerprint {stored : StoredVaultEntry}
    (h : computeFingerprint host stored.value = stored.fingerprint) :
    Settled host stored.value := by
  constructor
  · rw [StoredVaultEntry.value, jsonImage_obj, own_obj_of_inOwnOrder]
    · obtain ⟨⟨key, encrypted, iv, id, tag, createdAt⟩, fingerprint⟩ := stored
      cases id <;> cases tag <;> cases createdAt <;> rfl
    · rw [List.map_map]
      exact inOwnOrder_value stored _ rfl
  · have hproperty : stringProperty stored.value "fingerprint" = some stored.fingerprint := by
      obtain ⟨⟨key, encrypted, iv, id, tag, createdAt⟩, fingerprint⟩ := stored
      cases id <;> cases tag <;> cases createdAt <;> rfl
    have hread : (nonEmpty (some stored.fingerprint)).getD stored.fingerprint =
        stored.fingerprint := by
      cases stored.fingerprint <;> rfl
    rw [normalizeItem_value, hproperty, h, hread]
    obtain ⟨⟨key, encrypted, iv, id, tag, createdAt⟩, fingerprint⟩ := stored
    cases id <;> cases tag <;> cases createdAt <;> rfl

theorem settled_value (entry : VaultEntry) (now : ℤ) :
    Settled host (entry.stored host now).value := by
  refine settled_of_fingerprint ?_
  obtain ⟨key, encrypted, iv, id, tag, createdAt⟩ := entry
  cases id <;> cases tag <;> rfl

/-- Records are objects. -/
theorem exists_members_of_mem_readAll {file : Option (List UInt8)} {item : Plain}
    (h : item ∈ readAll host file) : ∃ ms, item = .obj ms := by
  cases file with
  | none => cases h
  | some bytes =>
    rw [readAll] at h
    split at h
    · cases h
    · split at h
      · next items _ =>
        cases hmap : items.mapM (normalizeItem host) with
        | none =>
          rw [hmap] at h
          cases h
        | some records =>
          rw [hmap] at h
          obtain ⟨raw, -, hraw⟩ := exists_of_mem_mapM hmap h
          cases raw with
          | null => cases hraw
          | _ => exact ⟨_, (Option.some.inj hraw).symm⟩
      · cases h

/-- The text of an array is not trimmed. -/
theorem trim_jsonText_arr_ne_nil (gap : Text) (vs : List Plain) : trim (jsonText gap (.arr vs)) ≠ [] := by
  rw [jsonText, jsonImage_arr, Json.write_arr, Json.bracket]
  split
  · rw [show trim ['[', ']'] = ['[', ']'] from
      Chain.trim_eq_self (t := []) (by decide) (by decide)]
    simp
  · rw [List.cons_append, List.cons_append, Chain.trim_eq_self (by decide) (by decide)]
    simp

/-- Records that are written are read as JSON has them, each with a fingerprint. -/
theorem readAll_writeAll {items : List Plain} (hitems : ∀ item ∈ items, ∃ ms, item = .obj ms) :
    readAll host (some (writeAll items)) =
      items.map fun item => (normalizeItem host (own (jsonImage item))).getD .null := by
  have hmap : (items.map fun item => own (jsonImage item)).mapM (normalizeItem host) =
      some (items.map fun item => (normalizeItem host (own (jsonImage item))).getD .null) := by
    refine mapM_eq_some_map fun item hitem => ?_
    obtain ⟨ms, rfl⟩ := hitems item hitem
    rw [jsonImage_obj, own_obj]
    rfl
  rw [readAll, writeAll, decodeUtf8_encodeUtf8, if_neg (trim_jsonText_arr_ne_nil _ _),
    parseJson_jsonText_own (by simp [Json.Blank, Json.isSpace]), jsonImage_arr, own_arr,
    List.map_map]
  simp only [Function.comp_def, hmap, Option.getD_some]

/-- A settled record that is written is read. -/
theorem mem_readAll_writeAll {items : List Plain} (hitems : ∀ item ∈ items, ∃ ms, item = .obj ms)
    {item : Plain} (hitem : item ∈ items) (hsettled : Settled host item) :
    item ∈ readAll host (some (writeAll items)) := by
  rw [readAll_writeAll hitems]
  refine List.mem_map.mpr ⟨item, hitem, ?_⟩
  rw [hsettled.1, hsettled.2]
  rfl

/-! ## Saved entries -/

variable (host) in
/-- What stays true of an entry that was saved. -/
structure Kept (e : SavedEntry) : Prop where
  settled : Settled host e.stored.value
  opens : ∃ (key : Bytes32) (plaintext : List UInt8), key.1 = e.masterKey ∧
    ofText (decodeUtf8 plaintext) = e.plaintext ∧
    ∀ now, ∃ jsEntry entry, convertToJsVaultEntry e.stored.toVaultEntry now = .ok jsEntry ∧
      jsEntry.toInner host = .ok entry ∧ Sealed host.crates key plaintext entry

/-- A vault that the bridge accepts. -/
theorem masterKey_of_toInner {vault : JsVault} {inner : Vault} (h : vault.toInner = .ok inner) :
    vault.masterKey = some inner.masterKey.1 := by
  rw [JsVault.toInner] at h
  split at h
  · cases h
  · next masterKey heq =>
    split at h
    · cases h
    · cases h
    · next salt key _ hkey =>
      cases h
      rw [toBytes32] at hkey
      split at hkey
      · cases hkey
        exact heq
      · cases hkey

/-- The bridge takes a stored entry back. -/
theorem toInner_of_sealed {key : Bytes32} {plaintext : List UInt8}
    {entry : MemphisVault.VaultEntry} (h : Sealed host.crates key plaintext entry) {id : JsString}
    (hid : MemphisCore.trim (wellFormed id) ≠ []) :
    ∃ entry', JsVaultEntry.toInner host { toJsVaultEntry host entry with id } = .ok entry' ∧
      Sealed host.crates key plaintext entry' := by
  obtain ⟨createdAt, hcreated⟩ := host.crates.parse_toRfc3339 entry.createdAt
  rw [JsVaultEntry.toInner, toJsVaultEntry]
  simp only [wellFormed_ofText, hcreated]
  refine ⟨_, rfl, validate_eq_ok.mpr ?_, h.nonce⟩
  exact ⟨hid, (validate_eq_ok.mp h.valid).2⟩

theorem nonEmpty_of_ne_nil {s : JsString} (h : s ≠ []) : nonEmpty (some s) = some s := by
  cases s with
  | nil => exact absurd rfl h
  | cons => rfl

/-- The entry the bridge gets back, with an identifier that is not blank. -/
theorem convert_stored (host : VaultHost) {native : MemphisVault.VaultEntry} (hid : MemphisCore.trim native.id ≠ [])
    (htag : native.tag ≠ []) (now : ℤ) :
    ∃ id, MemphisCore.trim (wellFormed id) ≠ [] ∧
      convertToJsVaultEntry
        { key := ofText native.key
          encrypted := ofText (toBase64 native.ciphertext)
          iv := ofText (toBase64 native.nonce)
          id := some (ofText native.id)
          tag := some (ofText (toBase64 native.tag))
          createdAt := some (ofText (host.crates.toRfc3339 native.createdAt)) } now =
        .ok { toJsVaultEntry host native with id } := by
  have htext : ofText (toBase64 native.tag) ≠ [] := fun hnil =>
    toBase64_ne_nil htag (ofText_injective hnil)
  simp only [convertToJsVaultEntry, nonEmpty_of_ne_nil htext, Option.map_some, Option.getD_some,
    fromBase64_toBase64, if_neg htag, wellFormed_ofText]
  by_cases hblank : trim native.id = []
  · refine ⟨ofText ("entry-".toList ++ millisText now), ?_, ?_⟩
    · rw [wellFormed_ofText]
      exact trim_entryId_ne_nil _
    · rw [if_pos hblank]
      rfl
  · refine ⟨ofText native.id, ?_, ?_⟩
    · rwa [wellFormed_ofText]
    · rw [if_neg hblank]
      rfl

theorem kept_of_encrypt {env : VaultEnv} {activeVault : Option JsVault}
    {stateFile : Option (List UInt8)} {key : JsString} {t : Text} {moment : Moment}
    {entry : VaultEntry} {vault : JsVault} (now : ℤ)
    (h : vaultEncrypt host env activeVault stateFile key (ofText t) moment = .ok (entry, vault)) :
    getActiveVaultOrThrow activeVault stateFile = .ok vault ∧ (∃ inner, vault.toInner = .ok inner) ∧
      Kept host ⟨entry.stored host now, ofText t, vault.masterKey.getD []⟩ := by
  obtain ⟨_, -, h⟩ := ok_of_bind h
  obtain ⟨vault', hactive, h⟩ := ok_of_bind h
  obtain ⟨jsEntry, hstore, h⟩ := ok_of_bind h
  obtain ⟨inner, hinner, hstore⟩ := ok_of_bind hstore
  obtain ⟨native, hnative, hstore⟩ := ok_of_bind hstore
  cases hstore
  cases h
  refine ⟨hactive, ⟨inner, hinner⟩, settled_value _ now, ?_⟩
  obtain ⟨hsealed, -, -⟩ := sealed_of_store (ok_of_mapError hnative)
  refine ⟨inner.masterKey, encodeUtf8 (wellFormed (ofText t)), ?_, ?_, fun now' => ?_⟩
  · rw [masterKey_of_toInner hinner]
    rfl
  · rw [wellFormed_ofText, decodeUtf8_encodeUtf8]
  · obtain ⟨hid, -, -, htag⟩ := validate_eq_ok.mp hsealed.valid
    obtain ⟨id, hid, hconvert⟩ := convert_stored host hid htag now'
    obtain ⟨entry', hentry, hsealed⟩ := toInner_of_sealed hsealed hid
    exact ⟨_, entry', hconvert, hentry, hsealed⟩

/-! ## Runs -/

/-- The state file has the master key. -/
def HoldsKey (stateFile : Option (List UInt8)) (masterKey : List UInt8) : Prop :=
  ∃ loaded vault inner, loadPersistedVaultState stateFile = some loaded ∧
    normalizeVault loaded = .ok vault ∧ vault.toInner = .ok inner ∧ inner.masterKey.1 = masterKey

variable (host) in
/-- What holds in every reachable state. -/
structure VaultInv (s : VaultState) : Prop where
  active : ActiveInv s
  kept : ∀ e ∈ s.saved, Kept host e
  listed : ∀ e ∈ s.saved, e.stored.value ∈ readAll host s.entriesFile
  key : ∀ e ∈ s.saved, HoldsKey s.stateFile e.masterKey

/-- A saved entry is decrypted under its key. -/
theorem VaultInv.decrypts (hs : VaultInv host s) {e : SavedEntry} (he : e ∈ s.saved) {env : VaultEnv}
    (henv : getBridgeOrThrow host env = .ok ()) (now : ℤ) :
    ∃ vault, vaultDecrypt host env s.activeVault s.stateFile e.stored.toVaultEntry now =
      .ok (e.plaintext, vault) := by
  obtain ⟨loaded, vault, inner, hload, hnormal, hinner, hkey⟩ := hs.key e he
  obtain ⟨key, plaintext, hkey', htext, hopens⟩ := (hs.kept e he).opens
  obtain ⟨jsEntry, entry, hconvert, hentry, hsealed⟩ := hopens now
  obtain rfl : inner.masterKey = key := Subtype.ext (hkey.trans hkey'.symm)
  have hactive := hs.active.get hload hnormal
  have hretrieve : bridgeRetrieve host vault jsEntry = .ok plaintext := by
    rw [bridgeRetrieve, bind_of_ok hinner, bind_of_ok hentry, retrieve_of_sealed hsealed]
    rfl
  refine ⟨vault, ?_⟩
  rw [vaultDecrypt, bind_of_ok henv, bind_of_ok hactive, bind_of_ok hconvert, bind_of_ok hretrieve,
    htext]
  rfl

/-- A call that finds the active vault and saves nothing. -/
theorem VaultInv.found (hs : VaultInv host s) {vault : JsVault}
    (h : getActiveVaultOrThrow s.activeVault s.stateFile = .ok vault) :
    VaultInv host { s with activeVault := some vault } where
  active := hs.active.found h rfl rfl
  kept := hs.kept
  listed := hs.listed
  key := hs.key

theorem VaultInv.init {env : VaultEnv} {input : VaultInitInput} {seeds : Seeds}
    {activeVault : JsVault} {stateFile : List UInt8} {did : JsString} (hs : VaultInv host s)
    (hkeeps : KeepsKey host s (.init env input seeds))
    (h : vaultInit host env input seeds = .ok (activeVault, stateFile, did)) :
    VaultInv host { s with activeVault := some activeVault, stateFile := some stateFile } := by
  obtain ⟨masterKey, hmaster, hactive, loaded, hload, hnormal⟩ := of_vaultInit h
  constructor
  · rintro _ ⟨⟩
    exact ⟨loaded, hload, hnormal⟩
  · exact hs.kept
  · exact hs.listed
  · intro e he
    refine ⟨loaded, activeVault, ⟨seeds.salt,
      deriveVaultKeyWith2fa host.crates masterKey (wellFormed input.recoveryAnswer)⟩, hload,
      hnormal, ?_, (hkeeps e he masterKey hmaster).symm⟩
    rw [hactive, JsVault.toInner, normalVault]
    simp only [toBytes32_val]

theorem VaultInv.save {env : VaultEnv} {key plaintext : JsString} {moment : Moment} {now : ℤ}
    {entry : VaultEntry} {vault : JsVault} (hs : VaultInv host s)
    (hkeeps : KeepsKey host s (.save env key plaintext moment now))
    (h : vaultEncrypt host env s.activeVault s.stateFile key plaintext moment =
      .ok (entry, vault)) :
    VaultInv host { s with
      activeVault := some vault
      entriesFile := some (saveVaultEntry host s.entriesFile entry now).2
      saved := s.saved ++ [⟨(saveVaultEntry host s.entriesFile entry now).1, plaintext,
        vault.masterKey.getD []⟩] } := by
  obtain ⟨t, rfl⟩ := hkeeps
  obtain ⟨hactive, ⟨inner, hinner⟩, hkept⟩ := kept_of_encrypt now h
  obtain ⟨loaded, hload, hnormal⟩ := hs.active.of_get hactive
  have hobjects : ∀ item ∈ readAll host s.entriesFile ++ [(entry.stored host now).value],
      ∃ ms, item = .obj ms := by
    intro item hitem
    rcases List.mem_append.mp hitem with hitem | hitem
    · exact exists_members_of_mem_readAll hitem
    · exact ⟨_, List.mem_singleton.mp hitem⟩
  constructor
  · exact hs.active.found hactive rfl rfl
  · intro e he
    rcases List.mem_append.mp he with he | he
    · exact hs.kept e he
    · rw [List.mem_singleton.mp he]
      exact hkept
  · intro e he
    rcases List.mem_append.mp he with he | he
    · exact mem_readAll_writeAll hobjects (List.mem_append_left _ (hs.listed e he))
        (hs.kept e he).settled
    · rw [List.mem_singleton.mp he]
      exact mem_readAll_writeAll hobjects (by simp [saveVaultEntry]) hkept.settled
  · intro e he
    rcases List.mem_append.mp he with he | he
    · exact hs.key e he
    · rw [List.mem_singleton.mp he]
      refine ⟨loaded, vault, inner, hload, hnormal, hinner, ?_⟩
      rw [masterKey_of_toInner hinner]
      rfl

theorem VaultInv.step {label : VaultLabel} (hs : VaultInv host s) (hkeeps : KeepsKey host s label)
    (h : VaultStep host s label t) : VaultInv host t := by
  cases h with
  | init h => exact hs.init hkeeps h
  | save h => exact hs.save hkeeps h
  | decrypt h =>
    obtain ⟨_, -, h⟩ := ok_of_bind h
    obtain ⟨vault', hactive, h⟩ := ok_of_bind h
    obtain ⟨_, -, h⟩ := ok_of_bind h
    obtain ⟨_, -, h⟩ := ok_of_bind h
    cases h
    exact hs.found hactive
  | restart =>
    refine ⟨?_, hs.kept, hs.listed, hs.key⟩
    rintro _ ⟨⟩

variable (host) in
/-- **Durability.** Saved entries decrypt to their plaintexts in every run whose initialisations do
not replace the key of a saved entry. -/
theorem vault_durable : Durable host ((vaultSystem host).restrict (KeepsKey host)) := by
  intro s hs e he
  have hinv : VaultInv host s := by
    refine hs.invariant (I := VaultInv host) ?_ ?_
    · rintro _ rfl
      constructor
      · rintro _ ⟨⟩
      all_goals
        intro e he
        cases he
    · rintro s label t hinv ⟨hkeeps, hstep⟩
      exact hinv.step hkeeps hstep
  exact ⟨hinv.listed e he, fun env now henv => hinv.decrypts he henv now⟩

/-! ## Replacing the key -/

/-- An entry that was saved is lost when the active vault has another key. -/
theorem Kept.lost {e : SavedEntry} (h : Kept host e) {env : VaultEnv}
    {activeVault : Option JsVault} {stateFile : Option (List UInt8)} {vault : JsVault} {inner : Vault}
    (hactive : getActiveVaultOrThrow activeVault stateFile = .ok vault)
    (hinner : vault.toInner = .ok inner) (hkey : inner.masterKey.1 ≠ e.masterKey) (now : ℤ) :
    ∃ message, vaultDecrypt host env activeVault stateFile e.stored.toVaultEntry now =
      .error message := by
  obtain ⟨key, plaintext, hkey', -, hopens⟩ := h.opens
  obtain ⟨jsEntry, entry, hconvert, hentry, hsealed⟩ := hopens now
  have hother : inner.masterKey ≠ key := fun heq => hkey (by rw [heq, hkey'])
  obtain ⟨message, hretrieve⟩ := retrieve_of_other hsealed hother
  cases henv : getBridgeOrThrow host env with
  | error message => exact ⟨message, by rw [vaultDecrypt, henv]; rfl⟩
  | ok _ =>
    have hbridge : bridgeRetrieve host vault jsEntry = .error (ofText message.text) := by
      rw [bridgeRetrieve, bind_of_ok hinner, bind_of_ok hentry, hretrieve]
      rfl
    refine ⟨ofText message.text, ?_⟩
    rw [vaultDecrypt, bind_of_ok henv, bind_of_ok hactive, bind_of_ok hconvert, hbridge]
    rfl

theorem exists_vaultInit {env : VaultEnv} (henv : getBridgeOrThrow host env = .ok ())
    {input : VaultInitInput} {seeds : Seeds} {result : VaultInitResult}
    (h : Vault.initFull host.crates (wellFormed input.passphrase)
      (wellFormed input.recoveryQuestion) (wellFormed input.recoveryAnswer) seeds = .ok result) :
    ∃ file did, vaultInit host env input seeds =
      .ok (normalVault result.vault.salt.1 result.vault.masterKey.1, file, did) := by
  have hbridge : bridgeInitFull host input.passphrase input.recoveryQuestion input.recoveryAnswer
      seeds = .ok (⟨result.vault.salt.1, none, some result.vault.masterKey.1⟩,
        ofText result.did) := by
    rw [bridgeInitFull, h]
    rfl
  rw [vaultInit, bind_of_ok henv, bind_of_ok hbridge]
  exact ⟨_, _, rfl⟩

theorem exists_vaultEncrypt {env : VaultEnv} (henv : getBridgeOrThrow host env = .ok ())
    {activeVault : Option JsVault} {stateFile : Option (List UInt8)} {vault : JsVault}
    (hactive : getActiveVaultOrThrow activeVault stateFile = .ok vault) {key plaintext : JsString}
    {moment : Moment} {jsEntry : JsVaultEntry}
    (h : bridgeStore host vault key (encodeUtf8 (wellFormed plaintext)) moment = .ok jsEntry) :
    ∃ entry, vaultEncrypt host env activeVault stateFile key plaintext moment =
      .ok (entry, vault) := by
  rw [vaultEncrypt, bind_of_ok henv, bind_of_ok hactive, bind_of_ok h]
  exact ⟨_, rfl⟩

/-- The byte, 32 times. -/
def sampleBytes (b : UInt8) : Bytes32 := ⟨List.replicate 32 b, List.length_replicate⟩

/-- A cipher that writes the key before the plaintext. -/
def sampleAead : Aead where
  encrypt key _ plaintext := .ok (key.1 ++ plaintext)
  decrypt key _ ciphertext :=
    if ciphertext.take 32 = key.1 then .ok (ciphertext.drop 32) else .error "aead::Error".toList
  decrypt_encrypt key _ plaintext ciphertext h := by
    obtain rfl := Except.ok.inj h
    rw [List.take_left' key.2, if_pos rfl, List.drop_left' key.2]
  decrypt_other key key' _ plaintext ciphertext h hne := by
    obtain rfl := Except.ok.inj h
    rw [List.take_left' key.2, if_neg fun heq => hne (Subtype.ext heq.symm)]
    exact ⟨_, rfl⟩

/-- Keys are the salts they are derived with. -/
def sampleCrates : VaultCrates where
  aead := sampleAead
  hashPassword _ salt := .ok salt
  sha256 _ := sampleBytes 0
  toLowercase := id
  verifyingKey := id
  base58 _ := "6Mk".toList
  toRfc3339 _ := "2026-03-11T00:00:00+00:00".toList
  parseFromRfc3339 _ := .ok 0
  parse_toRfc3339 _ := ⟨0, rfl⟩

def sampleHost : VaultHost := ⟨⟨id, id⟩, sampleCrates⟩

def sampleEnv : VaultEnv := ⟨some "true".toList, some "0123456789abcdef".toList, true⟩

def sampleInput : VaultInitInput := ⟨js "passphrase", js "pet?", js "nori"⟩

def sampleMoment : Moment := ⟨⟨List.replicate 12 7, List.length_replicate⟩, 0, 0⟩

def sampleSeeds (salt : UInt8) : Seeds := ⟨sampleBytes salt, sampleBytes 9, sampleMoment⟩

def sampleVault (salt : UInt8) : JsVault :=
  normalVault (List.replicate 32 salt) (List.replicate 32 salt)

theorem getBridgeOrThrow_sample : getBridgeOrThrow sampleHost sampleEnv = .ok () := by
  have hok : (getBridgeOrThrow sampleHost sampleEnv).isOk = true := by decide +kernel
  cases h : getBridgeOrThrow sampleHost sampleEnv with
  | ok => rfl
  | error e =>
    rw [h] at hok
    cases hok

/-- The vault of an initialisation. -/
theorem exists_sampleInit (salt : UInt8) (h : ((Vault.initFull sampleCrates
    (wellFormed sampleInput.passphrase) (wellFormed sampleInput.recoveryQuestion)
    (wellFormed sampleInput.recoveryAnswer) (sampleSeeds salt)).toOption.map fun result =>
      normalVault result.vault.salt.1 result.vault.masterKey.1) = some (sampleVault salt)) :
    ∃ file did, vaultInit sampleHost sampleEnv sampleInput (sampleSeeds salt) =
      .ok (sampleVault salt, file, did) := by
  cases hresult : Vault.initFull sampleCrates (wellFormed sampleInput.passphrase)
      (wellFormed sampleInput.recoveryQuestion) (wellFormed sampleInput.recoveryAnswer)
      (sampleSeeds salt) with
  | error e =>
    rw [hresult] at h
    cases h
  | ok result =>
    rw [hresult] at h
    rw [← Option.some.inj h]
    exact exists_vaultInit getBridgeOrThrow_sample hresult

/-- A second initialisation with the same passphrase loses the entry saved after the first. -/
theorem reinit_loses_entries : ¬Durable sampleHost (vaultSystem sampleHost) := by
  intro hdurable
  obtain ⟨file, did, hinit⟩ := exists_sampleInit 1 (by decide +kernel)
  obtain ⟨file', did', hinit'⟩ := exists_sampleInit 2 (by decide +kernel)
  have hok : (bridgeStore sampleHost (sampleVault 1) (js "token")
      (encodeUtf8 (wellFormed (js "secret"))) sampleMoment).isOk = true := by decide +kernel
  cases hstore : bridgeStore sampleHost (sampleVault 1) (js "token")
      (encodeUtf8 (wellFormed (js "secret"))) sampleMoment with
  | error e =>
    rw [hstore] at hok
    cases hok
  | ok jsEntry =>
    have hactive : getActiveVaultOrThrow (some (sampleVault 1)) (some file) =
        .ok (sampleVault 1) := rfl
    obtain ⟨entry, hencrypt⟩ := exists_vaultEncrypt getBridgeOrThrow_sample hactive hstore
    obtain ⟨-, -, hkept⟩ := kept_of_encrypt 0 hencrypt
    have hstart : (vaultSystem sampleHost).Reachable ⟨none, none, none, []⟩ := .of_init rfl
    have hsave : VaultStep sampleHost ⟨some (sampleVault 1), some file, none, []⟩
        (.save sampleEnv (js "token") (js "secret") sampleMoment 0) _ := .save hencrypt
    have hreachable := ((hstart.next (.init hinit)).next hsave).next (.init hinit')
    obtain ⟨-, hdecrypts⟩ := hdurable _ hreachable _ (List.mem_singleton_self _)
    obtain ⟨vault, hdecrypt⟩ := hdecrypts sampleEnv 0 getBridgeOrThrow_sample
    have hactive' : getActiveVaultOrThrow (some (sampleVault 2)) (some file') =
        .ok (sampleVault 2) := rfl
    have hinner : (sampleVault 2).toInner = .ok ⟨sampleBytes 2, sampleBytes 2⟩ := by
      have hbytes : toBytes32 (List.replicate 32 2) = some (sampleBytes 2) :=
        toBytes32_val (sampleBytes 2)
      rw [sampleVault, normalVault, JsVault.toInner]
      simp only [hbytes]
    have hkey : (sampleBytes 2).1 ≠ List.replicate 32 1 := by decide
    obtain ⟨message, hlost⟩ := hkept.lost hactive' hinner hkey 0
    cases hdecrypt.symm.trans hlost

end MemphisOS.VaultAdapter
