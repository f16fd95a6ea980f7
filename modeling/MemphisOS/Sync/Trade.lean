import MemphisOS.Ecma.Documents
import MemphisOS.Ecma.Maps

/-!
# Trade offers

An offer is signed over a JSON text of seven of its fields, which the receiver writes again from
the offer it has parsed. The text of a value is that of its JSON image, so an offer is accepted as
long as the images of these fields are the ones signed.
-/

namespace MemphisOS.Sync

open Ecma

/-- The environment of a process, and its HMAC in hexadecimal. -/
structure TradeEnv where
  did : Option JsString
  vaultPepper : Option JsString
  hmacSha256 : JsString → Text → JsString

structure TradeProtocolOptions where
  senderDid : Option JsString
  signer : Option (Text → JsString)
  /-- The verifier of a payload and whatever the offer has as its signature. -/
  verifier : Option (Text → Option Plain → Bool)

structure TradeProtocol where
  senderDid : JsString
  signer : Text → JsString
  verifier : Text → Option Plain → Bool

/-- `expected === signature` for a string that is expected. -/
def isExpected (expected : JsString) : Option Plain → Bool
  | some (.str signature) => expected == signature
  | _ => false

/-- The constructor. -/
def TradeProtocol.create (env : TradeEnv) (options : TradeProtocolOptions) : TradeProtocol :=
  let signer := options.signer.getD fun payload =>
    env.hmacSha256 (env.vaultPepper.getD (js "memphis-v5-vault-fallback")) payload
  { senderDid := options.senderDid.getD (env.did.getD (js "did:memphis:unknown"))
    signer
    verifier := options.verifier.getD fun payload signature =>
      isExpected (signer payload) signature }

/-- The properties of an offer. -/
abbrev TradeOffer := List (JsString × Plain)

/-- The fields that are signed, in the order they are written in. -/
def signedFields : List JsString :=
  [js "id", js "sender", js "recipient", js "createdAt", js "status", js "payloadCid", js "blocks"]

/-- What an offer has of some fields. -/
def pick (fields : List JsString) (offer : TradeOffer) : TradeOffer :=
  fields.filterMap fun field => (offer.lookup field).map fun value => (field, value)

/-- A field the offer does not have is `undefined`, which `JSON.stringify` leaves out. -/
def payloadForSign (offer : TradeOffer) : Text := jsonText [] (.obj (pick signedFields offer))

variable (protocol : TradeProtocol)

/-- The offer without its signature; `id` and `createdAt` are drawn by the platform. -/
def TradeProtocol.bareOffer (id createdAt : JsString) (blocks : List Plain)
    (recipient : JsString) : TradeOffer :=
  [(js "id", .str id), (js "sender", .str protocol.senderDid), (js "recipient", .str recipient),
    (js "createdAt", .str createdAt), (js "blocks", .arr blocks),
    (js "status", .str (js "offered"))]

def TradeProtocol.createOffer (id createdAt : JsString) (blocks : List Plain)
    (recipient : JsString) : TradeOffer :=
  let bare := protocol.bareOffer id createdAt blocks recipient
  bare ++ [(js "signature", .str (protocol.signer (payloadForSign bare)))]

def TradeProtocol.verifyOffer (offer : TradeOffer) : Bool :=
  let unsigned := offer.filter fun m => m.1 != js "signature"
  protocol.verifier (payloadForSign unsigned) (offer.lookup (js "signature"))

def TradeProtocol.acceptOffer (offer : TradeOffer) : Except Text Unit :=
  if protocol.verifyOffer offer then .ok ()
  else .error "invalid trade offer signature".toList

/-! ## Signatures -/

/-- The signature fixes the payload, and the verifier asks for it. -/
structure TradeProtocol.Signs : Prop where
  injective : Function.Injective protocol.signer
  verifies : ∀ payload signature,
    protocol.verifier payload signature = true ↔ signature = some (.str (protocol.signer payload))

theorem isExpected_iff {expected : JsString} {signature : Option Plain} :
    isExpected expected signature = true ↔ signature = some (.str expected) := by
  constructor
  · intro h
    unfold isExpected at h
    split at h
    · rw [eq_of_beq h]
    · cases h
  · rintro rfl
    exact beq_self_eq_true expected

/-- Without a verifier of its own a protocol asks for its own signature. -/
theorem signs_create {env : TradeEnv} {options : TradeProtocolOptions}
    (hverifier : options.verifier = none)
    (hsigner : Function.Injective (TradeProtocol.create env options).signer) :
    (TradeProtocol.create env options).Signs where
  injective := hsigner
  verifies payload signature := by
    simp only [TradeProtocol.create, hverifier, Option.getD_none]
    exact isExpected_iff

/-! ## The signed text -/

variable {offer changed : TradeOffer} {field : JsString}

theorem pick_cons_none {fields : List JsString} (h : offer.lookup field = none) :
    pick (field :: fields) offer = pick fields offer := by
  rw [pick, List.filterMap_cons_none (by rw [h]; rfl)]
  rfl

theorem pick_cons_some {fields : List JsString} {value : Plain}
    (h : offer.lookup field = some value) :
    pick (field :: fields) offer = (field, value) :: pick fields offer := by
  rw [pick, List.filterMap_cons_some (by rw [h]; rfl)]
  rfl

theorem lookup_pick (fields : List JsString) :
    (pick fields offer).lookup field = if field ∈ fields then offer.lookup field else none := by
  induction fields with
  | nil => rfl
  | cons key fields ih =>
    simp only [List.mem_cons]
    by_cases hkey : field = key
    · subst hkey
      rw [if_pos (.inl rfl)]
      cases hvalue : offer.lookup field with
      | none => rw [pick_cons_none hvalue, ih, hvalue, ite_self]
      | some value => rw [pick_cons_some hvalue, List.lookup_cons_self]
    · simp only [hkey, false_or]
      cases hvalue : offer.lookup key with
      | none => rw [pick_cons_none hvalue, ih]
      | some value =>
        rw [pick_cons_some hvalue, List.lookup_cons, beq_false_of_ne hkey]
        exact ih

/-- The members that are signed, as they are in JSON. -/
theorem jsonImage_pick (fields : List JsString) : jsonImage (.obj (pick fields offer)) =
    .obj (fields.filterMap fun field =>
      ((offer.lookup field).map jsonImage).map fun value => (field, value)) := by
  rw [jsonImage_obj, pick, List.map_filterMap]
  simp only [Option.map_map, Function.comp_def]

/-- **The payload.** Two offers are signed over one text exactly if their signed fields have the
same JSON images. -/
theorem payloadForSign_eq_iff : payloadForSign changed = payloadForSign offer ↔
    ∀ field ∈ signedFields,
      (changed.lookup field).map jsonImage = (offer.lookup field).map jsonImage := by
  rw [payloadForSign, payloadForSign, jsonText_inj (by simp [Json.Blank])]
  constructor
  · intro h field hfield
    have hmembers := congrArg (fun members : TradeOffer => members.lookup field)
      (Json.obj.inj (by simpa only [jsonImage_obj] using h))
    simpa only [lookup_map, lookup_pick, if_pos hfield] using hmembers
  · intro h
    rw [jsonImage_pick, jsonImage_pick]
    refine congrArg Json.obj (List.filterMap_congr fun field hfield => ?_)
    rw [h field hfield]

/-- The signature is not signed. -/
theorem payloadForSign_filter : payloadForSign (offer.filter fun m => m.1 != js "signature") =
    payloadForSign offer := by
  rw [payloadForSign_eq_iff]
  intro field hfield
  rw [lookup_filter (fun key => key != js "signature"), if_pos]
  have hall : signedFields.all (fun field => field != js "signature") = true := by decide
  exact List.all_eq_true.mp hall field hfield

/-- A signature appended to an offer is not signed either. -/
theorem payloadForSign_append (signature : Plain) :
    payloadForSign (offer ++ [(js "signature", signature)]) = payloadForSign offer := by
  have hnone : ([(js "signature", signature)] : TradeOffer).filter
      (fun m => m.1 != js "signature") = [] := rfl
  rw [← payloadForSign_filter, List.filter_append, hnone, List.append_nil, payloadForSign_filter]

/-! ## Received offers -/

/-- The members of a parsed offer. -/
def TradeOffer.received (offer : TradeOffer) : TradeOffer :=
  offer.map fun m => (m.1, jsonImage m.2)

theorem lookup_received : offer.received.lookup field = (offer.lookup field).map jsonImage :=
  lookup_map jsonImage offer field

theorem payloadForSign_received : payloadForSign offer.received = payloadForSign offer := by
  rw [payloadForSign_eq_iff]
  intro field _
  rw [lookup_received, Option.map_map]
  exact Option.map_congr fun value _ => jsonImage_jsonImage value

variable {protocol} {id createdAt recipient : JsString} {blocks : List Plain} {gap : Text}

/-- The members of a signed offer are own properties. -/
theorem ownOrdered_signed (hblocks : ∀ block ∈ blocks, OwnOrdered block) (signature : JsString) :
    OwnOrdered (.obj (protocol.bareOffer id createdAt blocks recipient ++
      [(js "signature", .str signature)])) := by
  have hkeys : (protocol.bareOffer id createdAt blocks recipient ++
      [(js "signature", Json.str signature)]).map Prod.fst =
        [js "id", js "sender", js "recipient", js "createdAt", js "blocks", js "status",
          js "signature"] := rfl
  rw [ownOrdered_obj, hkeys]
  refine ⟨⟨by decide, by decide⟩, ?_⟩
  simp only [TradeProtocol.bareOffer, List.cons_append, List.nil_append, List.forall_mem_cons]
  exact ⟨trivial, trivial, trivial, trivial, ownOrdered_arr.mpr hblocks, trivial, trivial, by simp⟩

/-- **Transport.** An offer is parsed as the JSON images of its members. -/
theorem parseJson_createOffer (hgap : Json.Blank gap)
    (hblocks : ∀ block ∈ blocks, OwnOrdered block) :
    parseJson (jsonText gap (.obj (protocol.createOffer id createdAt blocks recipient))) =
      some (.obj (TradeOffer.received (protocol.createOffer id createdAt blocks recipient))) := by
  have hordered : OwnOrdered (.obj (protocol.createOffer id createdAt blocks recipient)) :=
    ownOrdered_signed hblocks _
  rw [parseJson_jsonText hgap hordered, jsonImage_obj]
  rfl

theorem TradeProtocol.Signs.verifyOffer_iff (hsigns : protocol.Signs) (offer : TradeOffer) :
    protocol.verifyOffer offer = true ↔
      offer.lookup (js "signature") = some (.str (protocol.signer (payloadForSign offer))) := by
  rw [TradeProtocol.verifyOffer, hsigns.verifies, payloadForSign_filter]

theorem signature_createOffer :
    (TradeOffer.received (protocol.createOffer id createdAt blocks recipient)).lookup
      (js "signature") = some (.str (protocol.signer (payloadForSign
        (protocol.createOffer id createdAt blocks recipient)))) := by
  have hlookup : (protocol.createOffer id createdAt blocks recipient).lookup (js "signature") =
      some (.str (protocol.signer
        (payloadForSign (protocol.bareOffer id createdAt blocks recipient)))) := rfl
  rw [lookup_received, hlookup, TradeProtocol.createOffer, payloadForSign_append]
  rfl

theorem received_eq_self (h : JsonNumbers (.obj offer)) : offer.received = offer :=
  Json.obj.inj ((jsonImage_obj offer).symm.trans (jsonImage_eq_self h))

/-- A field of an offer whose numbers are finite. -/
theorem jsonImage_lookup (h : JsonNumbers (.obj offer)) (field : JsString) :
    (offer.lookup field).map jsonImage = offer.lookup field := by
  rw [← lookup_received, received_eq_self h]

/-- **Offers.** A parsed offer is accepted. With the same signature another one is accepted
exactly if its signed fields have the JSON images of those received, and when its numbers are
finite, exactly if these fields are those received. -/
theorem verifyOffer_changed_iff (hsigns : protocol.Signs) (hgap : Json.Blank gap)
    (hblocks : ∀ block ∈ blocks, OwnOrdered block) (id createdAt recipient : JsString) :
    ∃ received, parseJson (jsonText gap
        (.obj (protocol.createOffer id createdAt blocks recipient))) = some (.obj received) ∧
      protocol.verifyOffer received = true ∧
      ∀ changed : TradeOffer,
        changed.lookup (js "signature") = received.lookup (js "signature") →
        (protocol.verifyOffer changed = true ↔ ∀ field ∈ signedFields,
          (changed.lookup field).map jsonImage = received.lookup field) ∧
        (JsonNumbers (.obj changed) → (protocol.verifyOffer changed = true ↔
          ∀ field ∈ signedFields, changed.lookup field = received.lookup field)) := by
  refine ⟨_, parseJson_createOffer hgap hblocks, ?_, fun changed hsignature => ?_⟩
  · rw [hsigns.verifyOffer_iff, signature_createOffer, payloadForSign_received]
  · have hpayload (a b : Text) : (some (.str (protocol.signer a)) : Option Plain) =
        some (.str (protocol.signer b)) ↔ b = a := by
      simp [hsigns.injective.eq_iff, eq_comm]
    have hiff : protocol.verifyOffer changed = true ↔ ∀ field ∈ signedFields,
        (changed.lookup field).map jsonImage = (TradeOffer.received
          (protocol.createOffer id createdAt blocks recipient)).lookup field := by
      rw [hsigns.verifyOffer_iff, hsignature, signature_createOffer, hpayload,
        payloadForSign_eq_iff]
      simp only [lookup_received]
    refine ⟨hiff, fun hnumbers => ?_⟩
    simpa only [jsonImage_lookup hnumbers] using hiff

/-! ## An altered number -/

/-- A protocol that signs with the payload itself. -/
def plainProtocol : TradeProtocol :=
  .create ⟨none, none, fun _ => ofText⟩ ⟨some (js "did:memphis:alpha"), some ofText, none⟩

theorem signs_plainProtocol : plainProtocol.Signs := signs_create rfl ofText_injective

/-- The blocks of an offer of one score. -/
def scoreBlocks (score : Plain) : List Plain :=
  [.obj [(js "data", .obj [(js "score", score)])]]

/-- An offer of one score with a signature. -/
def scoreOffer (score : Plain) (signature : JsString) : TradeOffer :=
  plainProtocol.bareOffer (js "offer-1") (js "2026-01-01T00:00:00.000Z") (scoreBlocks score)
    (js "did:memphis:beta") ++ [(js "signature", .str signature)]

/-- The offer that is created over an unknown score. -/
def nullOffer : TradeOffer :=
  plainProtocol.createOffer (js "offer-1") (js "2026-01-01T00:00:00.000Z") (scoreBlocks .null)
    (js "did:memphis:beta")

/-- Its signature. -/
def nullSignature : JsString :=
  plainProtocol.signer (payloadForSign (plainProtocol.bareOffer (js "offer-1")
    (js "2026-01-01T00:00:00.000Z") (scoreBlocks .null) (js "did:memphis:beta")))

/-- A literal beyond the finite numbers. -/
def hugeText : JsNumber → Text
  | .infinity false => "1e999".toList
  | n => numberText n

theorem writesBack_huge : Json.WritesBack hugeText readNumber (.infinity false) := by
  refine ⟨by decide, ?_, by decide +kernel⟩
  have hall : "1e999".toList.all isNumberChar = true := by decide
  exact List.all_eq_true.mp hall

theorem ownOrdered_scoreBlocks {score : Plain} (h : OwnOrdered score) :
    ∀ block ∈ scoreBlocks score, OwnOrdered block := by
  simp only [scoreBlocks, List.forall_mem_cons, ownOrdered_obj, List.map_cons, List.map_nil]
  exact ⟨⟨⟨by decide, by decide⟩, ⟨⟨by decide, by decide⟩, h, by simp⟩, by simp⟩, by simp⟩

theorem allNumbers_scoreOffer {P : JsNumber → Prop} {score : Plain} {signature : JsString}
    (h : score.AllNumbers P) : (Json.obj (scoreOffer score signature)).AllNumbers P := by
  have hblocks : (Json.arr (scoreBlocks score)).AllNumbers P := by
    simp only [scoreBlocks, Json.allNumbers_arr, Json.allNumbers_obj, List.forall_mem_cons]
    exact ⟨⟨⟨h, by simp⟩, by simp⟩, by simp⟩
  simp only [scoreOffer, TradeProtocol.bareOffer, Json.allNumbers_obj, List.cons_append,
    List.nil_append, List.forall_mem_cons]
  exact ⟨trivial, trivial, trivial, trivial, hblocks, trivial, trivial, by simp⟩

theorem ownOrdered_nullBlocks : ∀ block ∈ scoreBlocks .null, OwnOrdered block :=
  ownOrdered_scoreBlocks trivial

theorem verifyOffer_changed_iff_score : Json.Blank [] ∧
    ∃ received, parseJson (jsonText [] (.obj nullOffer)) = some (.obj received) ∧
      plainProtocol.verifyOffer received = true ∧
      ∀ changed : TradeOffer,
        changed.lookup (js "signature") = received.lookup (js "signature") →
        (plainProtocol.verifyOffer changed = true ↔ ∀ field ∈ signedFields,
          (changed.lookup field).map jsonImage = received.lookup field) ∧
        (JsonNumbers (.obj changed) → (plainProtocol.verifyOffer changed = true ↔
          ∀ field ∈ signedFields, changed.lookup field = received.lookup field)) :=
  ⟨by simp [Json.Blank], verifyOffer_changed_iff signs_plainProtocol (by simp [Json.Blank])
    ownOrdered_nullBlocks _ _ _⟩

/-- **An altered number.** A score of `null` is changed to a literal that is read as infinity, and
the offer is still accepted. -/
theorem infinite_score_accepted : plainProtocol.Signs ∧
    ∃ (received altered : TradeOffer) (text : Text),
      parseJson (jsonText [] (.obj nullOffer)) = some (.obj received) ∧
      parseJson text = some (.obj altered) ∧
      altered.lookup (js "signature") = received.lookup (js "signature") ∧
      altered.lookup (js "blocks") ≠ received.lookup (js "blocks") ∧
      plainProtocol.verifyOffer altered = true := by
  have hreceived : nullOffer.received = nullOffer :=
    received_eq_self (allNumbers_scoreOffer trivial)
  have hpayload : payloadForSign (scoreOffer (.num (.infinity false)) nullSignature) =
      payloadForSign nullOffer := by
    rw [payloadForSign_eq_iff]
    simp only [signedFields, List.forall_mem_cons]
    exact ⟨rfl, rfl, rfl, rfl, rfl, rfl, rfl, by simp⟩
  refine ⟨signs_plainProtocol, nullOffer, scoreOffer (.num (.infinity false)) nullSignature,
    (Json.obj (scoreOffer (.num (.infinity false)) nullSignature)).write hugeText [] [],
    ?_, ?_, rfl, ?_, ?_⟩
  · exact (parseJson_createOffer (by simp [Json.Blank]) ownOrdered_nullBlocks).trans
      (congrArg (fun offer => some (Json.obj offer)) hreceived)
  · have hwrites : (Json.obj (scoreOffer (.num (.infinity false)) nullSignature)).AllNumbers
        (Json.WritesBack hugeText readNumber) := allNumbers_scoreOffer writesBack_huge
    have hblocks : ∀ block ∈ scoreBlocks (.num (.infinity false)), OwnOrdered block :=
      ownOrdered_scoreBlocks trivial
    have hordered : OwnOrdered (.obj (scoreOffer (.num (.infinity false)) nullSignature)) :=
      ownOrdered_signed hblocks nullSignature
    rw [parseJson, Json.parse_write (by simp [Json.Blank]) hwrites, Option.map_some,
      own_eq_self hordered]
  · intro h
    have hblocks : (some (.arr (scoreBlocks (.num (.infinity false)))) : Option Plain) =
        some (.arr (scoreBlocks .null)) := h
    simp [scoreBlocks] at hblocks
  · rw [signs_plainProtocol.verifyOffer_iff, hpayload, nullOffer, TradeProtocol.createOffer,
      payloadForSign_append]
    rfl

end MemphisOS.Sync
