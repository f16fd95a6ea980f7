import MemphisOS.Admin.Identity
import MemphisOS.Ecma.Exceptions
import MemphisOS.Ecma.Value

/-!
# Signatures of admin actions

The signed message of an admin action and its verification against a registry of public
keys taken from the environment.
-/

namespace MemphisOS

open Ecma

/-- What the HTTP layer uses beyond the language: Node's cryptography and the UUID check of
the schema library. -/
structure Platform extends Host where
  PublicKey : Type
  /-- `createPublicKey` of a PEM text; it throws with a message. -/
  createPublicKey : Text → Except Text PublicKey
  /-- `verify(null, message, key, signature)` on the UTF-8 encoding of the message. -/
  verify : PublicKey → Text → List UInt8 → Except Text Bool
  /-- `Buffer.from(text, 'base64')`. -/
  decodeBase64 : Text → List UInt8
  /-- The message of the error `JSON.parse` throws on a text. -/
  parseMessage : Text → Text
  /-- `z.string().uuid()`. -/
  isZodUuid : JsString → Bool

/-- The environment variables that are set. -/
abbrev ProcessEnv := String → Option Text

inductive AdminActionType where
  | request
  | approve
  | cancel
  deriving DecidableEq

/-- The name of the action in messages. -/
def AdminActionType.text : AdminActionType → String
  | request => "dual_approval.request"
  | approve => "dual_approval.approve"
  | cancel => "dual_approval.cancel"

inductive AdminError where
  /-- `identity cannot be empty`. -/
  | emptyIdentity
  /-- An `AppError` of code `PERMISSION_DENIED` and status 403. -/
  | permissionDenied (message : Text) (details : List (String × Text))
  /-- An `AppError` of code `CONFIG_ERROR` and status 500. -/
  | configError (message : Text)
  /-- What `verify` throws. -/
  | verify (message : Text)
  deriving DecidableEq

structure VerifyAdminActionSignatureInput where
  action : AdminActionType
  actorId : Text
  signature : Option Text
  /-- The properties of the payload. -/
  payload : List (JsString × Plain)

structure VerifyAdminActionSignatureResult where
  actorId : Text
  required : Bool
  verified : Bool
  deriving DecidableEq

/-! ## The message -/

/-- The assignments `out[key] = value` to a new object. One to `__proto__` sets the prototype,
which is not written, and no property. -/
def assigned (ms : List (JsString × Plain)) : List (JsString × Plain) :=
  ms.filter fun m => m.1 ≠ js "__proto__"

/-- Every object with its keys sorted. -/
def canonicalize : Plain → Plain :=
  .fold .null .bool .num .str .arr fun ms =>
    .obj (orderMembers ((assigned ms).insertionSort keyBefore))

/-- The object that is signed. -/
def messageObject (action : AdminActionType) (actorId : JsString) (payload : Plain) : Plain :=
  .obj [(js "action", .str (js action.text)), (js "actorId", .str actorId), (js "payload", payload)]

def buildAdminSignatureMessage (action : AdminActionType) (actorId : JsString)
    (payload : Plain) : Text :=
  jsonText [] (canonicalize (messageObject action actorId payload))

@[simp] theorem canonicalize_obj (ms : List (JsString × Plain)) :
    canonicalize (.obj ms) = .obj (orderMembers
      ((assigned (ms.map fun m => (m.1, canonicalize m.2))).insertionSort keyBefore)) := by
  simp [canonicalize]

/-- The keys of the message are in order already. -/
theorem canonicalize_messageObject (action : AdminActionType) (actorId : JsString)
    (payload : Plain) : canonicalize (messageObject action actorId payload) =
      .obj [(js "action", .str (js action.text)), (js "actorId", .str actorId),
        (js "payload", canonicalize payload)] := by
  rw [messageObject, canonicalize_obj]
  rfl

theorem AdminActionType.text_injective {a b : AdminActionType} (h : js a.text = js b.text) :
    a = b := by
  cases a <;> cases b <;> first | rfl | exact absurd h (by decide)

/-- Messages are equal when the actions, the actors and what is written of the canonical
payloads are. -/
theorem buildAdminSignatureMessage_inj {a b : AdminActionType} {actorA actorB : JsString}
    {payloadA payloadB : Plain} :
    buildAdminSignatureMessage a actorA payloadA = buildAdminSignatureMessage b actorB payloadB ↔
      a = b ∧ actorA = actorB ∧
        jsonImage (canonicalize payloadA) = jsonImage (canonicalize payloadB) := by
  rw [buildAdminSignatureMessage, buildAdminSignatureMessage, jsonText_inj (by simp [Json.Blank]),
    canonicalize_messageObject, canonicalize_messageObject, jsonImage_obj, jsonImage_obj]
  simp only [List.map_cons, List.map_nil, Json.obj.injEq, List.cons.injEq, Prod.mk.injEq, true_and,
    and_true, jsonImage, Json.fold, Json.str.injEq]
  exact and_congr_left fun _ => ⟨AdminActionType.text_injective, fun h => by rw [h]⟩

/-! ## Verification -/

variable (platform : Platform)

def parseBool (value : Option Text) (fallback : Bool) : Bool :=
  match value with
  | some value => platform.toLowerCase (trim value) = "true".toList
  | none => fallback

def signatureRequired (rawEnv : ProcessEnv) : Bool :=
  parseBool platform (rawEnv "MEMPHIS_ADMIN_SIGNATURE_REQUIRED")
    (rawEnv "NODE_ENV" = some "production".toList)

/-- The entry of a registry for a member of its JSON object, if it has a usable key. -/
def registryEntry : JsString × Plain → Option (Text × Text)
  | (rawActorId, .str rawKey) =>
    if trim (wellFormed rawKey) = [] then none
    else some (wellFormed rawActorId, trim (wellFormed rawKey))
  | _ => none

/-- The entries of the map in the order in which they are set. -/
def parseSignatureRegistry (rawEnv : ProcessEnv) : Except AdminError (List (Text × Text)) :=
  let raw := trim ((rawEnv "MEMPHIS_ADMIN_PUBLIC_KEYS_JSON").getD [])
  if raw = [] then .ok []
  else
    match parseJson raw with
    | none => .error (.configError
        ("invalid MEMPHIS_ADMIN_PUBLIC_KEYS_JSON: ".toList ++ platform.parseMessage raw))
    | some (.obj members) => (members.filterMap registryEntry).mapM fun (rawActorId, key) =>
        match normalizeIdentity platform.toHost rawActorId with
        | some actorId => .ok (actorId, key)
        | none => .error .emptyIdentity
    | some _ => .error (.configError
        "MEMPHIS_ADMIN_PUBLIC_KEYS_JSON must be a JSON object mapping actorId to public key".toList)

/-- `Map.get`: an entry set later replaces an earlier one. -/
def registered (registry : List (Text × Text)) (actorId : Text) : Option Text :=
  registry.reverse.lookup actorId

/-- The bytes of pairs of hexadecimal digits. -/
def decodeHex : Text → List UInt8
  | a :: b :: rest =>
    UInt8.ofNat (16 * (Json.hexValue a).getD 0 + (Json.hexValue b).getD 0) :: decodeHex rest
  | _ => []

def decodeSignature (rawSignature : Text) : Except AdminError (List UInt8) := do
  let trimmed := trim rawSignature
  if trimmed = [] then throw (.permissionDenied "signature is required".toList [])
  let algorithm := trimmed.takeWhile (· ≠ ':')
  let tagged := ':' ∈ trimmed ∧ algorithm ≠ []
  if tagged ∧ platform.toLowerCase algorithm ≠ "ed25519".toList then
    throw (.permissionDenied
      ("unsupported signature algorithm: ".toList ++ platform.toLowerCase algorithm) [])
  let payload := if tagged then trim (trimmed.drop (algorithm.length + 1)) else trimmed
  let decoded := if payload ≠ [] ∧ payload.all isHexDigit ∧ payload.length % 2 = 0
    then decodeHex payload else platform.decodeBase64 payload
  if decoded = [] then throw (.permissionDenied "signature payload is empty".toList [])
  return decoded

/-- The part of the verification that follows the look-ups. -/
def verifyWithKey (input : VerifyAdminActionSignatureInput) (actorId publicKeyPem : Text) :
    Except AdminError Unit := do
  let message := buildAdminSignatureMessage input.action (ofText actorId) (.obj input.payload)
  let publicKey ← (platform.createPublicKey publicKeyPem).mapError fun error =>
    .configError ("invalid public key for actor ".toList ++ actorId ++ ": ".toList ++ error)
  let signature ← decodeSignature platform (input.signature.getD [])
  let ok ← (platform.verify publicKey message signature).mapError .verify
  if ok then return ()
  else throw (.permissionDenied "invalid admin signature".toList
    [("actorId", actorId), ("action", input.action.text.toList)])

/-- The part of the verification that follows the normalisation of the actor. -/
def verifyActor (input : VerifyAdminActionSignatureInput) (rawEnv : ProcessEnv)
    (actorId : Text) : Except AdminError VerifyAdminActionSignatureResult := do
  let required := signatureRequired platform rawEnv
  let registry ← parseSignatureRegistry platform rawEnv
  match registered registry actorId with
  | none =>
    if required || input.signature.getD [] ≠ [] then
      throw (.permissionDenied "no admin public key registered for actor".toList
        [("actorId", actorId)])
    else return ⟨actorId, required, false⟩
  | some publicKeyPem =>
    if trim (input.signature.getD []) = [] then
      if required then
        throw (.permissionDenied "signature is required for admin action".toList
          [("actorId", actorId), ("action", input.action.text.toList)])
      else return ⟨actorId, required, false⟩
    else
      verifyWithKey platform input actorId publicKeyPem
      return ⟨actorId, required, true⟩

def verifyAdminActionSignature (input : VerifyAdminActionSignatureInput) (rawEnv : ProcessEnv) :
    Except AdminError VerifyAdminActionSignatureResult :=
  match normalizeIdentity platform.toHost input.actorId with
  | some actorId => verifyActor platform input rawEnv actorId
  | none => .error .emptyIdentity

/-! ## What verification guarantees -/

/-- The input is signed: the signature is a valid one of the message under the key that is
registered for the actor. -/
def Signed (input : VerifyAdminActionSignatureInput) (rawEnv : ProcessEnv) (message : Text) :
    Prop :=
  ∃ actorId registry publicKeyPem publicKey signature,
    normalizeIdentity platform.toHost input.actorId = some actorId ∧
    message = buildAdminSignatureMessage input.action (ofText actorId) (.obj input.payload) ∧
    parseSignatureRegistry platform rawEnv = .ok registry ∧
    registered registry actorId = some publicKeyPem ∧
    platform.createPublicKey publicKeyPem = .ok publicKey ∧
    decodeSignature platform (input.signature.getD []) = .ok signature ∧
    platform.verify publicKey message signature = .ok true

variable {platform} {input : VerifyAdminActionSignatureInput} {rawEnv : ProcessEnv}
  {actorId publicKeyPem : Text} {result : VerifyAdminActionSignatureResult}

theorem eq_ok_of_mapError {ε δ α : Type} {x : Except ε α} {f : ε → δ} {a : α}
    (h : x.mapError f = .ok a) : x = .ok a := by
  cases x with
  | error e => cases h
  | ok b => exact congrArg Except.ok (Except.ok.inj h)

theorem verifyWithKey_eq_ok (h : verifyWithKey platform input actorId publicKeyPem = .ok ()) :
    ∃ publicKey signature, platform.createPublicKey publicKeyPem = .ok publicKey ∧
      decodeSignature platform (input.signature.getD []) = .ok signature ∧
      platform.verify publicKey
        (buildAdminSignatureMessage input.action (ofText actorId) (.obj input.payload)) signature =
        .ok true := by
  obtain ⟨publicKey, hkey, h⟩ := bind_eq_ok.mp h
  obtain ⟨signature, hsignature, h⟩ := bind_eq_ok.mp h
  obtain ⟨ok, hok, h⟩ := bind_eq_ok.mp h
  refine ⟨publicKey, signature, eq_ok_of_mapError hkey, hsignature, ?_⟩
  cases ok with
  | true => exact eq_ok_of_mapError hok
  | false => cases h

/-- **Signatures are required.** When they are, verification returns only for a signed
input. -/
theorem signed_of_required (hrequired : signatureRequired platform rawEnv = true)
    (h : verifyAdminActionSignature platform input rawEnv = .ok result) :
    ∃ message, Signed platform input rawEnv message := by
  unfold verifyAdminActionSignature at h
  cases hactor : normalizeIdentity platform.toHost input.actorId with
  | none => rw [hactor] at h; cases h
  | some actorId =>
    rw [hactor] at h
    obtain ⟨registry, hregistry, h⟩ := bind_eq_ok.mp h
    rw [hrequired, Bool.true_or, if_pos rfl, if_pos rfl] at h
    split at h
    · cases h
    · next publicKeyPem hpem =>
      split at h
      · cases h
      · obtain ⟨_, hverify, _⟩ := bind_eq_ok.mp h
        obtain ⟨publicKey, signature, hkey, hsignature, hok⟩ := verifyWithKey_eq_ok hverify
        exact ⟨_, actorId, registry, publicKeyPem, publicKey, signature, hactor, rfl, hregistry,
          hpem, hkey, hsignature, hok⟩

end MemphisOS
