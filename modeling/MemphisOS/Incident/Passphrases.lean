import MemphisOS.Incident.EncryptedBlob
import MemphisOS.Incident.Verifier
import Mathlib.Data.List.TakeWhile

/-!
# Passphrases

The exporter and the verifier each take a passphrase from one of six sources: an argument, its
base64 variant, a file, and three variables of the environment.
-/

namespace MemphisOS.Incident

open Ecma Bridge

inductive PassphraseSource where
  | arg
  | argBase64
  | argFile
  | env
  | envBase64
  | envFile
  deriving DecidableEq

/-- The values of the sources. -/
abbrev PassphraseValues := PassphraseSource → Option JsString

structure EncryptionPassphraseSpec where
  source : PassphraseSource
  passphrase : JsString

/-- A value that is there and not blank. -/
def isDeclared (value : Option JsString) : Bool := value.any (·.trim ≠ [])

namespace PassphraseValues

/-- The sources with values that are not blank. -/
def declared (values : PassphraseValues) : List PassphraseSource :=
  [PassphraseSource.arg, .argBase64, .argFile, .env, .envBase64, .envFile].filter fun source =>
    isDeclared (values source)

/-- The values with the one of a source alone. -/
def only (values : PassphraseValues) (source : PassphraseSource) : PassphraseValues :=
  fun other => if other = source then values source else none

end PassphraseValues

/-- `Buffer.from(value, 'base64').toString('utf8')`. -/
def base64Text (value : JsString) : JsString := ofText (decodeUtf8 (fromBase64 value))

namespace Process

variable (p : Process)

/-! ## The resolvers -/

/-- `readFileSync(resolve(value), 'utf8').trim()`. -/
def readPassphrase (value : JsString) : Except JsString JsString :=
  (p.readText (p.paths.resolve value)).map fun text => ofText (trim text)

/-- The passphrase a value of a source stands for. -/
def passphraseOf (source : PassphraseSource) (value : JsString) : Except JsString JsString :=
  match source with
  | .argBase64 | .envBase64 => .ok (base64Text value)
  | .argFile | .envFile => p.readPassphrase value
  | .arg | .env => .ok value

def encryptionValues : PassphraseValues
  | .arg => p.parseArg "--encryption-passphrase"
  | .argBase64 => p.parseArg "--encryption-passphrase-base64"
  | .argFile => p.parseArg "--encryption-passphrase-file"
  | .env => p.env "MEMPHIS_INCIDENT_BUNDLE_ENCRYPTION_PASSPHRASE"
  | .envBase64 => p.env "MEMPHIS_INCIDENT_BUNDLE_ENCRYPTION_PASSPHRASE_BASE64"
  | .envFile => p.env "MEMPHIS_INCIDENT_BUNDLE_ENCRYPTION_PASSPHRASE_FILE"

/-- `resolveEncryptionPassphraseSpec`, on the values of the sources. -/
def encryptionPassphrase (values : PassphraseValues) :
    Except JsString (Option EncryptionPassphraseSpec) :=
  match values.declared with
  | [] => .ok none
  | [source] =>
    (p.passphraseOf source ((values source).getD [])).map fun passphrase =>
      some { source, passphrase }
  | _ => .error (js <| "multiple encryption passphrase sources provided; use exactly one of " ++
      "--encryption-passphrase, --encryption-passphrase-base64, --encryption-passphrase-file " ++
      "(or matching env vars)")

def resolveEncryptionPassphraseSpec : Except JsString (Option EncryptionPassphraseSpec) :=
  p.encryptionPassphrase p.encryptionValues

def decryptionValues : PassphraseValues
  | .arg => p.parseArg "--decryption-passphrase"
  | .argBase64 => p.parseArg "--decryption-passphrase-base64"
  | .argFile => p.parseArg "--decryption-passphrase-file"
  | .env => p.env "MEMPHIS_INCIDENT_BUNDLE_DECRYPTION_PASSPHRASE"
  | .envBase64 => p.env "MEMPHIS_INCIDENT_BUNDLE_DECRYPTION_PASSPHRASE_BASE64"
  | .envFile => p.env "MEMPHIS_INCIDENT_BUNDLE_DECRYPTION_PASSPHRASE_FILE"

/-- `resolveDecryptionPassphrase`, when one value is not blank. -/
def chosenPassphrase (values : PassphraseValues) : Except JsString (Option JsString) :=
  if present (values .argBase64) || present (values .envBase64) then
    .ok (some (base64Text (((values .argBase64).or (values .envBase64)).getD [])))
  else if present (values .argFile) || present (values .envFile) then
    (p.readPassphrase (((values .argFile).or (values .envFile)).getD [])).map some
  else .ok ((values .arg).or (values .env))

/-- `resolveDecryptionPassphrase`, on the values of the sources. -/
def decryptionPassphrase (values : PassphraseValues) : Except JsString (Option JsString) :=
  match values.declared.length with
  | 0 => .ok none
  | 1 => p.chosenPassphrase values
  | _ => .error (js <| "multiple decryption passphrase sources provided; use exactly one of " ++
      "--decryption-passphrase, --decryption-passphrase-base64, --decryption-passphrase-file " ++
      "(or matching env vars)")

theorem resolveDecryptionPassphrase_eq :
    p.resolveDecryptionPassphrase = p.decryptionPassphrase p.decryptionValues := by
  have hcount : p.decryptionValues.declared.length =
      [p.decryptionValues .arg, p.decryptionValues .argBase64, p.decryptionValues .argFile,
        p.decryptionValues .env, p.decryptionValues .envBase64,
        p.decryptionValues .envFile].countP isDeclared := by
    rw [PassphraseValues.declared, ← List.countP_eq_length_filter]
    simp only [List.countP_cons, List.countP_nil]
  have hread : ∀ value, (p.readPassphrase value).map some =
      (p.readText (p.paths.resolve value)).map fun text => some (ofText (trim text)) := by
    intro value
    rw [readPassphrase]
    cases p.readText (p.paths.resolve value) <;> rfl
  rw [decryptionPassphrase, hcount, chosenPassphrase, hread]
  rfl

/-! ## Agreement -/

/-- Both throw, both report none, or both give the same passphrase. -/
def SamePassphrase (encryption : Except JsString (Option EncryptionPassphraseSpec))
    (decryption : Except JsString (Option JsString)) : Prop :=
  encryption.toOption.map (Option.map EncryptionPassphraseSpec.passphrase) = decryption.toOption

/-- The resolvers agree on the values, and a single value that is not blank gives what it gives
alone. -/
structure AgreesOn (values : PassphraseValues) : Prop where
  same : SamePassphrase (p.encryptionPassphrase values) (p.decryptionPassphrase values)
  encryption_alone : ∀ source, values.declared = [source] →
    p.encryptionPassphrase values = p.encryptionPassphrase (values.only source)
  decryption_alone : ∀ source, values.declared = [source] →
    p.decryptionPassphrase values = p.decryptionPassphrase (values.only source)

/-- The process with other files. -/
def withFiles (readFile : JsString → Except JsString (List UInt8)) : Process := { p with readFile }

end Process

/-! ## What the verifier reaches -/

/-- No earlier value stands in the way of the verifier on its way to a source. The values that
stand in the way are blank. -/
def Reached (resolve : JsString → JsString) (values : PassphraseValues) :
    PassphraseSource → Prop
  | .argBase64 => True
  | .envBase64 => values .argBase64 = none ∨ base64Text ((values .envBase64).getD []) = []
  | .argFile => ¬ present (values .argBase64) ∧ ¬ present (values .envBase64)
  | .envFile => (¬ present (values .argBase64) ∧ ¬ present (values .envBase64)) ∧
      ∀ blank ∈ values .argFile, resolve blank = resolve ((values .envFile).getD [])
  | .arg => (¬ present (values .argBase64) ∧ ¬ present (values .envBase64)) ∧
      ¬ present (values .argFile) ∧ ¬ present (values .envFile)
  | .env => ((¬ present (values .argBase64) ∧ ¬ present (values .envBase64)) ∧
      ¬ present (values .argFile) ∧ ¬ present (values .envFile)) ∧ values .arg = none

/-! ## Blank values -/

/-- A blank value is white space. -/
theorem isSpaceUnit_of_blank {s : JsString} (h : s.trim = []) :
    ∀ u ∈ s, JsString.isSpaceUnit u = true := by
  rw [JsString.trim, List.reverse_eq_nil_iff, List.dropWhile_eq_nil_iff] at h
  refine List.dropWhile_eq_nil_iff.mp ?_
  cases hrest : s.dropWhile JsString.isSpaceUnit with
  | nil => rfl
  | cons u rest =>
    have hspace := h u (List.mem_reverse.mpr (hrest ▸ List.mem_cons_self))
    have hhead := List.head_dropWhile_not JsString.isSpaceUnit (l := s) (by simp [hrest])
    simp only [hrest, List.head_cons] at hhead
    exact absurd hspace (by simp [hhead])

/-- White space lies outside the surrogates. -/
theorem not_surrogate_of_space {u : UInt16} (h : JsString.isSpaceUnit u = true) :
    isHighSurrogate u = false ∧ isLowSurrogate u = false := by
  by_cases hrange : 0xD800 ≤ u.toNat ∧ u.toNat < 0xE000
  · have hinvalid : charOfUnit u = Char.ofNat 0 := by
      have hnot : ¬ u.toNat.isValidChar := by
        simp only [Nat.isValidChar, not_or, not_and, not_lt]
        omega
      rw [charOfUnit, Char.ofNat, dif_neg hnot]
      rfl
    rw [JsString.isSpaceUnit, hinvalid] at h
    exact absurd h (by decide)
  · simp only [isHighSurrogate, isLowSurrogate, Bool.and_eq_false_iff, decide_eq_false_iff_not]
    omega

theorem wellFormed_blank {s : JsString} (h : ∀ u ∈ s, JsString.isSpaceUnit u = true) :
    wellFormed s = s.map charOfUnit := by
  induction s with
  | nil => rfl
  | cons u s ih =>
    obtain ⟨hhi, hlo⟩ := not_surrogate_of_space (h u List.mem_cons_self)
    rw [wellFormed.eq_def, List.map_cons, ← ih fun v hv => h v (List.mem_cons_of_mem _ hv)]
    simp only [hhi, hlo, Bool.false_eq_true, if_false]

theorem sextet_space {c : Char} (h : isJsSpace c = true) : sextet c = none := by
  have hletters : ('-' :: '_' :: base64Alphabet).all (fun c => !isJsSpace c) = true := by decide
  have hne : ∀ d ∈ '-' :: '_' :: base64Alphabet, c ≠ d := by
    rintro d hd rfl
    have := List.all_eq_true.mp hletters c hd
    rw [h] at this
    cases this
  rw [sextet, if_neg (hne _ List.mem_cons_self),
    if_neg (hne _ (List.mem_cons_of_mem _ List.mem_cons_self)), List.idxOf?_eq_none_iff]
  intro hmem
  exact hne c (List.mem_cons_of_mem _ (List.mem_cons_of_mem _ hmem)) rfl

/-- A blank value has no sextets. -/
theorem fromBase64_blank {s : JsString} (h : s.trim = []) : fromBase64 s = [] := by
  have hunits := isSpaceUnit_of_blank h
  have hsextets : ((wellFormed s).takeWhile (· ≠ '=')).filterMap sextet = [] := by
    rw [wellFormed_blank hunits, List.filterMap_eq_nil_iff]
    intro c hc
    obtain ⟨u, hu, rfl⟩ := List.mem_map.mp (List.takeWhile_subset _ hc)
    exact sextet_space (hunits u hu)
  rw [fromBase64, hsextets]
  rfl

theorem base64Text_blank {s : JsString} (h : s.trim = []) : base64Text s = [] := by
  rw [base64Text, fromBase64_blank h]
  rfl

/-! ## Single values -/

variable {values : PassphraseValues} {source : PassphraseSource}

theorem isDeclared_iff {value : Option JsString} :
    isDeclared value = true ↔ ∃ s, value = some s ∧ s.trim ≠ [] := by
  cases value <;> simp [isDeclared]

theorem mem_declared : source ∈ values.declared ↔ isDeclared (values source) = true := by
  rw [PassphraseValues.declared, List.mem_filter]
  cases source <;> simp

/-- One value is not blank, and the others are. -/
structure Single (values : PassphraseValues) (source : PassphraseSource) (value : JsString) :
    Prop where
  value_eq : values source = some value
  not_blank : value.trim ≠ []
  others : ∀ other, other ≠ source → ∀ blank ∈ values other, blank.trim = []

theorem exists_single (h : values.declared = [source]) : ∃ value, Single values source value := by
  have hsource : isDeclared (values source) = true :=
    mem_declared.mp (h ▸ List.mem_singleton.mpr rfl)
  obtain ⟨value, hvalue, htrim⟩ := isDeclared_iff.mp hsource
  refine ⟨value, hvalue, htrim, fun other hother blank hblank => ?_⟩
  by_contra hne
  have hmem : other ∈ values.declared :=
    mem_declared.mpr (isDeclared_iff.mpr ⟨blank, hblank, hne⟩)
  exact hother (List.mem_singleton.mp (h ▸ hmem))

theorem declared_only (h : values.declared = [source]) :
    (values.only source).declared = [source] := by
  rw [← h, PassphraseValues.declared, PassphraseValues.declared]
  refine List.filter_congr fun other _ => ?_
  rw [PassphraseValues.only]
  by_cases hother : other = source
  · rw [if_pos hother, hother]
  · rw [if_neg hother]
    have hnot : ¬ isDeclared (values other) = true := fun hdeclared =>
      hother (List.mem_singleton.mp (h ▸ mem_declared.mpr hdeclared))
    rw [Bool.not_eq_true] at hnot
    rw [hnot]
    rfl

theorem reached_only (resolve : JsString → JsString) (source : PassphraseSource) :
    Reached resolve (values.only source) source := by
  cases source <;> simp [Reached, PassphraseValues.only, present]

variable {p : Process} {value : JsString}

/-- What a value that is not blank is, is present. -/
theorem Single.present (h : Single values source value) : present (values source) = true := by
  rw [h.value_eq, Incident.present, Option.any_some, decide_eq_true_eq]
  intro hempty
  exact h.not_blank (by rw [hempty]; rfl)

theorem encryptionPassphrase_single (h : values.declared = [source])
    (hsingle : Single values source value) :
    p.encryptionPassphrase values =
      (p.passphraseOf source value).map fun passphrase => some { source, passphrase } := by
  rw [Process.encryptionPassphrase, h]
  simp only [hsingle.value_eq, Option.getD_some]

theorem decryptionPassphrase_single (h : values.declared = [source]) :
    p.decryptionPassphrase values = p.chosenPassphrase values := by
  rw [Process.decryptionPassphrase, h]
  rfl

/-- The verifier takes the value it reaches. -/
theorem chosenPassphrase_of_reached (hsingle : Single values source value)
    (hreached : Reached p.paths.resolve values source) :
    p.chosenPassphrase values = (p.passphraseOf source value).map some := by
  have hpresent := hsingle.present
  have hvalue := hsingle.value_eq
  rw [Process.chosenPassphrase]
  cases source with
  | argBase64 =>
    rw [hpresent, Bool.true_or, if_pos rfl, hvalue]
    rfl
  | envBase64 =>
    rw [hpresent, Bool.or_true, if_pos rfl]
    rcases hreached with habsent | hempty
    · rw [habsent, Option.none_or, hvalue]
      rfl
    · rw [hvalue, Option.getD_some] at hempty
      cases hother : values .argBase64 with
      | none =>
        rw [Option.none_or, hvalue]
        rfl
      | some blank =>
        rw [Option.some_or, Option.getD_some, Process.passphraseOf, hempty,
          base64Text_blank (hsingle.others _ (by decide) blank hother)]
        rfl
  | argFile =>
    obtain ⟨harg, henv⟩ := hreached
    rw [Bool.not_eq_true] at harg henv
    rw [harg, henv, if_neg (by decide), hpresent, Bool.true_or, if_pos rfl, hvalue]
    rfl
  | envFile =>
    obtain ⟨⟨harg, henv⟩, hpath⟩ := hreached
    rw [Bool.not_eq_true] at harg henv
    rw [harg, henv, if_neg (by decide), hpresent, Bool.or_true, if_pos rfl]
    cases hother : values .argFile with
    | none =>
      rw [Option.none_or, hvalue]
      rfl
    | some blank =>
      have hsame := hpath blank hother
      rw [hvalue, Option.getD_some] at hsame
      rw [Option.some_or, Option.getD_some, Process.passphraseOf, Process.readPassphrase, hsame]
      rfl
  | arg =>
    obtain ⟨⟨harg, henv⟩, hargFile, henvFile⟩ := hreached
    rw [Bool.not_eq_true] at harg henv hargFile henvFile
    rw [harg, henv, if_neg (by decide), hargFile, henvFile, if_neg (by decide), hvalue]
    rfl
  | env =>
    obtain ⟨⟨⟨harg, henv⟩, hargFile, henvFile⟩, habsent⟩ := hreached
    rw [Bool.not_eq_true] at harg henv hargFile henvFile
    rw [harg, henv, if_neg (by decide), hargFile, henvFile, if_neg (by decide), habsent, hvalue]
    rfl

/-- Where the verifier reaches the value, the resolvers agree. -/
theorem agreesOn_of_reached
    (h : ∀ source, values.declared = [source] → Reached p.paths.resolve values source) :
    p.AgreesOn values := by
  have halone : ∀ source, values.declared = [source] → ∀ value, Single values source value →
      Single (values.only source) source value := by
    intro source _ value hsingle
    refine ⟨(if_pos rfl).trans hsingle.value_eq, hsingle.not_blank,
      fun other hother blank hblank => ?_⟩
    rw [PassphraseValues.only, if_neg hother] at hblank
    cases hblank
  refine ⟨?_, ?_, ?_⟩
  · cases hdeclared : values.declared with
    | nil =>
      rw [Process.encryptionPassphrase, Process.decryptionPassphrase, hdeclared]
      rfl
    | cons source rest =>
      cases rest with
      | nil =>
        obtain ⟨value, hsingle⟩ := exists_single hdeclared
        rw [encryptionPassphrase_single hdeclared hsingle, decryptionPassphrase_single hdeclared,
          chosenPassphrase_of_reached hsingle (h source hdeclared), Process.SamePassphrase]
        cases p.passphraseOf source value <;> rfl
      | cons other rest =>
        rw [Process.encryptionPassphrase, Process.decryptionPassphrase, hdeclared]
        rfl
  · intro source hdeclared
    obtain ⟨value, hsingle⟩ := exists_single hdeclared
    rw [encryptionPassphrase_single hdeclared hsingle, encryptionPassphrase_single
      (declared_only hdeclared) (halone source hdeclared value hsingle)]
  · intro source hdeclared
    obtain ⟨value, hsingle⟩ := exists_single hdeclared
    rw [decryptionPassphrase_single hdeclared, decryptionPassphrase_single
      (declared_only hdeclared), chosenPassphrase_of_reached hsingle (h source hdeclared),
      chosenPassphrase_of_reached (halone source hdeclared value hsingle)
        (reached_only p.paths.resolve source)]

/-! ## Values in the way -/

/-- A blank base64 value is taken for the empty passphrase. -/
theorem chosenPassphrase_base64 (hblank : ∀ other ∈ [PassphraseSource.argBase64, .envBase64],
      ∀ blank ∈ values other, blank.trim = [])
    (hpresent : ¬ (¬ present (values .argBase64) ∧ ¬ present (values .envBase64))) :
    p.chosenPassphrase values = .ok (some []) := by
  have htaken : (((values .argBase64).or (values .envBase64)).getD []).trim = [] := by
    cases harg : values .argBase64 with
    | some blank => exact hblank _ (by simp) blank harg
    | none =>
      cases henv : values .envBase64 with
      | some blank => exact hblank _ (by simp) blank henv
      | none => rfl
  rw [Process.chosenPassphrase, if_pos, base64Text_blank htaken]
  rw [Bool.or_eq_true]
  by_contra hneither
  exact hpresent (not_or.mp hneither)

theorem chosenPassphrase_file
    (hbase64 : ¬ present (values .argBase64) ∧ ¬ present (values .envBase64))
    (hpresent : ¬ (¬ present (values .argFile) ∧ ¬ present (values .envFile))) :
    p.chosenPassphrase values =
      (p.readPassphrase (((values .argFile).or (values .envFile)).getD [])).map some := by
  rw [Process.chosenPassphrase, if_neg, if_pos]
  · rw [Bool.or_eq_true]
    by_contra hneither
    exact hpresent (not_or.mp hneither)
  · rw [Bool.or_eq_true]
    exact not_or.mpr hbase64

theorem chosenPassphrase_raw
    (hbase64 : ¬ present (values .argBase64) ∧ ¬ present (values .envBase64))
    (hfile : ¬ present (values .argFile) ∧ ¬ present (values .envFile)) :
    p.chosenPassphrase values = .ok ((values .arg).or (values .env)) := by
  rw [Process.chosenPassphrase, if_neg, if_neg]
  · rw [Bool.or_eq_true]
    exact not_or.mpr hfile
  · rw [Bool.or_eq_true]
    exact not_or.mpr hbase64

/-- Agreement on a single value. -/
theorem taken_of_agreesOn (h : p.AgreesOn values) (hdeclared : values.declared = [source])
    (hsingle : Single values source value) :
    (p.passphraseOf source value).toOption.map some = (p.chosenPassphrase values).toOption := by
  have hsame := h.same
  rw [encryptionPassphrase_single hdeclared hsingle, decryptionPassphrase_single hdeclared,
    Process.SamePassphrase] at hsame
  rw [← hsame]
  cases p.passphraseOf source value <;> rfl

/-- Files of which one holds a passphrase. -/
def oneFile (path : JsString) : JsString → Except JsString (List UInt8) :=
  fun other => if other = path then .ok (encodeUtf8 ['x']) else .error []

theorem readPassphrase_oneFile (p : Process) (path value : JsString) :
    (p.withFiles (oneFile path)).readPassphrase value =
      if p.paths.resolve value = path then .ok (js "x") else .error [] := by
  rw [Process.readPassphrase, Process.readText]
  change (Except.map _ (Except.map _ (oneFile path (p.paths.resolve value)))) = _
  rw [oneFile]
  split
  · rw [Except.map, Except.map, decodeUtf8_encodeUtf8]
    rfl
  · rfl

/-- Where the verifier does not reach the value, some files make it take another passphrase. -/
theorem reached_of_agreesOn (p : Process)
    (h : ∀ readFile, (p.withFiles readFile).AgreesOn values)
    (hdeclared : values.declared = [source]) : Reached p.paths.resolve values source := by
  obtain ⟨value, hsingle⟩ := exists_single hdeclared
  have hvalue := hsingle.value_eq
  have htaken := fun readFile => taken_of_agreesOn (h readFile) hdeclared hsingle
  have hfile := htaken (oneFile (p.paths.resolve value))
  have hbase64 : source ≠ .argBase64 → source ≠ .envBase64 →
      (p.withFiles (oneFile (p.paths.resolve value))).passphraseOf source value ≠ .ok [] →
      ¬ present (values .argBase64) ∧ ¬ present (values .envBase64) := by
    intro harg henv hne
    by_contra hpresent
    rw [chosenPassphrase_base64 (fun other hother blank => hsingle.others other (by
      rintro rfl
      rcases List.mem_pair.mp hother with rfl | rfl
      · exact harg rfl
      · exact henv rfl) blank) hpresent] at hfile
    cases hresult : (p.withFiles (oneFile (p.paths.resolve value))).passphraseOf source value with
    | error e =>
      rw [hresult] at hfile
      cases hfile
    | ok passphrase =>
      rw [hresult] at hfile hne
      exact hne (congrArg Except.ok (Option.some.inj (Option.some.inj hfile)))
  have hread : (p.withFiles (oneFile (p.paths.resolve value))).readPassphrase value =
      .ok (js "x") := by
    rw [readPassphrase_oneFile, if_pos rfl]
  have hfiles : ∀ source', source' = .arg ∨ source' = .env → source = source' →
      ¬ present (values .argBase64) ∧ ¬ present (values .envBase64) →
      ¬ present (values .argFile) ∧ ¬ present (values .envFile) := by
    intro source' hraw hsource hnone
    by_contra hpresent
    -- Without files the verifier throws on a value it takes for a path.
    have hthrows := htaken fun _ => .error []
    rw [chosenPassphrase_file hnone hpresent] at hthrows
    rcases hraw with rfl | rfl <;> rw [hsource] at hthrows <;> cases hthrows
  have hvalue_ne : value ≠ [] := by
    rintro rfl
    exact hsingle.not_blank rfl
  cases source with
  | argBase64 => trivial
  | envBase64 =>
    cases hother : values .argBase64 with
    | none => exact Or.inl hother
    | some blank =>
      right
      have hblank := hsingle.others _ (by decide) blank hother
      rw [Process.chosenPassphrase, hsingle.present, Bool.or_true, if_pos rfl, hother,
        Option.some_or, Option.getD_some, base64Text_blank hblank] at hfile
      rw [hvalue, Option.getD_some]
      exact Option.some.inj (Option.some.inj hfile)
  | argFile =>
    exact hbase64 (by decide) (by decide) (by rw [Process.passphraseOf, hread]; decide)
  | envFile =>
    have hnone := hbase64 (by decide) (by decide) (by rw [Process.passphraseOf, hread]; decide)
    refine ⟨hnone, fun blank hblank => ?_⟩
    by_contra hpath
    rw [hvalue, Option.getD_some] at hpath
    rw [chosenPassphrase_file hnone fun hneither => hneither.2 hsingle.present,
      Option.mem_def.mp hblank, Option.some_or, Option.getD_some, readPassphrase_oneFile,
      if_neg hpath, Process.passphraseOf, hread] at hfile
    cases hfile
  | arg =>
    have hnone := hbase64 (by decide) (by decide) fun heq => hvalue_ne (Except.ok.inj heq)
    exact ⟨hnone, hfiles .arg (Or.inl rfl) rfl hnone⟩
  | env =>
    have hnone := hbase64 (by decide) (by decide) fun heq => hvalue_ne (Except.ok.inj heq)
    have hnoFile := hfiles .env (Or.inr rfl) rfl hnone
    refine ⟨⟨hnone, hnoFile⟩, ?_⟩
    cases hother : values .arg with
    | none => rfl
    | some blank =>
      rw [chosenPassphrase_raw hnone hnoFile, hother, Option.some_or] at hfile
      have hsame : value = blank := Option.some.inj (Option.some.inj hfile)
      exact absurd (hsingle.others _ (by decide) blank hother) (hsame ▸ hsingle.not_blank)

/-- **Passphrases.** Whatever files there are, the resolvers agree on the values of the sources and
no blank value hides a single other one, exactly when the verifier reaches the single value that
is not blank, if there is one. -/
theorem agreesOn_iff (p : Process) (values : PassphraseValues) :
    (∀ readFile, (p.withFiles readFile).AgreesOn values) ↔
      ∀ source, values.declared = [source] → Reached p.paths.resolve values source :=
  ⟨fun h _ hdeclared => reached_of_agreesOn p h hdeclared,
    fun h readFile => agreesOn_of_reached (p := p.withFiles readFile) h⟩

/-- A passphrase beside a blank base64 variant, for either script. -/
def maskedProcess : Process :=
  { blobProcess with
    argv := [js "--encryption-passphrase", js "secret", js "--encryption-passphrase-base64", js " ",
      js "--decryption-passphrase", js "secret", js "--decryption-passphrase-base64", js " "] }

/-- The exporter takes the passphrase and the verifier the empty one. -/
theorem masked_passphrase :
    maskedProcess.encryptionValues = maskedProcess.decryptionValues ∧
      ¬ Process.SamePassphrase maskedProcess.resolveEncryptionPassphraseSpec
        maskedProcess.resolveDecryptionPassphrase := by
  have hvalues : maskedProcess.encryptionValues = maskedProcess.decryptionValues := by
    funext source
    cases source <;> rfl
  have hdeclared : maskedProcess.decryptionValues.declared = [.arg] := by decide
  refine ⟨hvalues, ?_⟩
  obtain ⟨value, hsingle⟩ := exists_single hdeclared
  rw [Process.resolveDecryptionPassphrase_eq, Process.resolveEncryptionPassphraseSpec, hvalues,
    encryptionPassphrase_single hdeclared hsingle, decryptionPassphrase_single hdeclared,
    chosenPassphrase_base64 (fun other hother => hsingle.others other (by
      rintro rfl
      exact absurd hother (by decide))) (by decide), Process.SamePassphrase]
  intro hsame
  have hempty : value = [] := Option.some.inj (Option.some.inj hsame)
  exact hsingle.not_blank (by rw [hempty]; rfl)

end MemphisOS.Incident
