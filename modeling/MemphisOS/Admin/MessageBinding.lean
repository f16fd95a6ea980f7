import MemphisOS.Admin.Signature
import MemphisOS.Ecma.Documents
import MemphisOS.Ecma.Equality
import MemphisOS.Ecma.NumberOrder

/-!
# What a signed message binds

The message of an admin action against its parts. Canonical payloads are written without the
members named `__proto__` and with infinite numbers as null, and nothing else is lost.
-/

namespace MemphisOS

open Ecma

/-- The payload as it reaches the message, apart from the order of keys: without members named
`__proto__` and with null for the numbers that JSON has no literal for. -/
def messageContent : Plain → Plain :=
  reshape (fun n => if n.isFinite then .num n else .null) assigned

theorem assigned_map (f : Plain → Plain) (ms : List (JsString × Plain)) :
    (assigned ms).map (fun m => (m.1, f m.2)) = assigned (ms.map fun m => (m.1, f m.2)) := by
  rw [assigned, assigned, List.filter_map]
  rfl

theorem sorted_map (f : Plain → Plain) (ms : List (JsString × Plain)) :
    (ms.insertionSort keyBefore).map (fun m => (m.1, f m.2)) =
      (ms.map fun m => (m.1, f m.2)).insertionSort keyBefore :=
  List.map_insertionSort _ _ _ ms fun _ _ _ _ => Iff.rfl

/-- What is written of the canonical payload, by way of its content. -/
theorem image_canonicalize (v : Plain) :
    jsonImage (canonicalize v) =
      reshape jsonNumber (fun ms => orderMembers (ms.insertionSort keyBefore))
        (messageContent v) := by
  have hnumber : ∀ n : JsNumber, jsonNumber n =
      reshape jsonNumber (fun ms => orderMembers (ms.insertionSort keyBefore))
        (if n.isFinite then .num n else .null) := by
    intro n
    cases n <;> rfl
  have himage := @reshape_reshape .num
    (fun ms => orderMembers ((assigned ms).insertionSort keyBefore)) jsonNumber id
    (fun f ms => by rw [← orderMembers_map, sorted_map, assigned_map]) v
  refine himage.trans ?_
  rw [messageContent, reshape_reshape assigned_map]
  exact congrArg (fun number => reshape number
    (fun ms => orderMembers ((assigned ms).insertionSort keyBefore)) v) (funext hnumber)

/-- The content of a payload in order is in order. -/
theorem ownOrdered_messageContent {v : Plain} (h : OwnOrdered v) :
    OwnOrdered (messageContent v) := by
  induction v using Json.induct with
  | null => trivial
  | bool b => trivial
  | num n =>
    change OwnOrdered (if n.isFinite then .num n else .null)
    split <;> trivial
  | str s => trivial
  | arr vs ih =>
    rw [ownOrdered_arr] at h
    rw [messageContent, reshape_arr, ownOrdered_arr, List.forall_mem_map]
    exact fun v hv => ih v hv (h v hv)
  | obj ms ih =>
    rw [ownOrdered_obj] at h
    rw [messageContent, reshape_obj, ownOrdered_obj]
    have hsub : ((assigned (ms.map fun m => (m.1, messageContent m.2))).map Prod.fst).Sublist
        (ms.map Prod.fst) := by
      have hkeys : (ms.map fun m => (m.1, messageContent m.2)).map Prod.fst = ms.map Prod.fst := by
        rw [List.map_map]
        rfl
      rw [← hkeys]
      exact List.filter_sublist.map Prod.fst
    refine ⟨⟨hsub.nodup h.1.1, h.1.2.sublist hsub⟩, fun m hm => ?_⟩
    obtain ⟨n, hn, rfl⟩ := List.mem_map.mp (List.mem_of_mem_filter hm)
    exact ih n hn (h.2 n hn)

/-- The numbers of the content are finite. -/
theorem finiteNumbers_messageContent (v : Plain) : FiniteNumbers (messageContent v) := by
  induction v using Json.induct with
  | null => trivial
  | bool b => trivial
  | num n =>
    change FiniteNumbers (if n.isFinite then .num n else .null)
    split
    · next hfinite => exact hfinite
    · trivial
  | str s => trivial
  | arr vs ih =>
    rw [messageContent, reshape_arr, FiniteNumbers, Json.allNumbers_arr, List.forall_mem_map]
    exact ih
  | obj ms ih =>
    rw [messageContent, reshape_obj, FiniteNumbers, Json.allNumbers_obj]
    intro m hm
    obtain ⟨n, hn, rfl⟩ := List.mem_map.mp (List.mem_of_mem_filter hm)
    exact ih n hn

/-- The written canonical payload has the properties and numbers of the content. -/
theorem unordered_image {v : Plain} (h : OwnOrdered v) :
    unordered (jsonImage (canonicalize v)) = unordered (messageContent v) := by
  rw [image_canonicalize]
  refine unordered_reshape
    (fun ms => (orderMembers_perm _).trans (List.perm_insertionSort keyBefore ms))
    (ownOrdered_messageContent h) (Json.AllNumbers.imp (fun n hn => ?_)
      (finiteNumbers_messageContent v))
  cases n with
  | nan => cases hn
  | infinity negative => cases hn
  | negZero => exact congrArg Json.num (JsNumber.dropZeroSign_ofNat (by norm_num))
  | finite q hq => rfl

/-- Sorting once is enough. -/
theorem image_of_unordered (v : Plain) :
    reshape jsonNumber (fun ms => orderMembers (ms.insertionSort keyBefore)) v =
      reshape jsonNumber orderMembers (unordered v) := by
  have hnumber : ∀ n : JsNumber, jsonNumber n = jsonNumber n.dropZeroSign := by
    intro n
    cases n with
    | negZero =>
      rw [JsNumber.dropZeroSign_negZero]
      exact congrArg Json.num JsNumber.dropZeroSign_negZero
    | _ => rfl
  rw [unordered, reshape_reshape sorted_map]
  exact congrArg (fun number => reshape number
    (fun ms => orderMembers (ms.insertionSort keyBefore)) v) (funext hnumber)

/-- Canonical payloads are written alike exactly when their contents are deeply equal. -/
theorem image_eq_iff {v w : Plain} (hv : OwnOrdered v) (hw : OwnOrdered w) :
    jsonImage (canonicalize v) = jsonImage (canonicalize w) ↔
      DeepEqual (messageContent v) (messageContent w) := by
  constructor
  · intro h
    rw [DeepEqual, ← unordered_image hv, ← unordered_image hw, h]
  · intro h
    rw [image_canonicalize, image_canonicalize, image_of_unordered, image_of_unordered, h]

/-- Deeply equal payloads have deeply equal contents. -/
theorem messageContent_of_deepEqual {v w : Plain} (h : DeepEqual v w) :
    DeepEqual (messageContent v) (messageContent w) := by
  have hnumber : ∀ n : JsNumber, unordered (if n.isFinite then .num n else .null) =
      reshape (fun n => unordered (if n.isFinite then .num n else .null)) assigned
        (.num n.dropZeroSign) := by
    intro n
    cases n with
    | negZero =>
      rw [JsNumber.dropZeroSign_negZero]
      exact congrArg Json.num JsNumber.dropZeroSign_negZero
    | _ => rfl
  have hcontent : ∀ v : Plain, unordered (messageContent v) =
      reshape (fun n => unordered (if n.isFinite then .num n else .null)) assigned
        (unordered v) := by
    intro v
    rw [unordered, messageContent, reshape_reshape assigned_map, reshape_reshape sorted_map]
    have hmembers : (fun ms : List (JsString × Plain) => (assigned ms).insertionSort keyBefore) =
        fun ms => assigned (ms.insertionSort keyBefore) :=
      funext fun ms => (filter_insertionSort _ ms).symm
    rw [hmembers]
    exact congrArg (fun number => reshape number
      (fun ms => assigned (ms.insertionSort keyBefore)) v) (funext hnumber)
  rw [DeepEqual, hcontent v, hcontent w, h]

/-! ## Payloads that are signed whole -/

/-- No member is named `__proto__`, at any depth. -/
def WithoutProto : Plain → Prop :=
  Json.fold True (fun _ => True) (fun _ => True) (fun _ => True) (fun ps => ∀ p ∈ ps, p)
    (fun ps => ∀ p ∈ ps, p.1 ≠ js "__proto__" ∧ p.2)

theorem withoutProto_arr {vs : List Plain} :
    WithoutProto (.arr vs) ↔ ∀ v ∈ vs, WithoutProto v := by
  rw [WithoutProto, Json.fold_arr, List.forall_mem_map]

theorem withoutProto_obj {ms : List (JsString × Plain)} :
    WithoutProto (.obj ms) ↔ ∀ m ∈ ms, m.1 ≠ js "__proto__" ∧ WithoutProto m.2 := by
  rw [WithoutProto, Json.fold_obj, List.forall_mem_map]

/-- Such a payload is its own content when its numbers are finite. -/
theorem messageContent_eq_self {v : Plain} (hproto : WithoutProto v) (hfinite : FiniteNumbers v) :
    messageContent v = v := by
  induction v using Json.induct with
  | null => rfl
  | bool b => rfl
  | num n => exact if_pos hfinite
  | str s => rfl
  | arr vs ih =>
    rw [withoutProto_arr] at hproto
    rw [FiniteNumbers, Json.allNumbers_arr] at hfinite
    rw [messageContent, reshape_arr]
    exact congrArg Json.arr
      ((List.map_congr_left fun v hv => ih v hv (hproto v hv) (hfinite v hv)).trans (List.map_id _))
  | obj ms ih =>
    rw [withoutProto_obj] at hproto
    rw [FiniteNumbers, Json.allNumbers_obj] at hfinite
    have hmap : ms.map (fun m => (m.1, messageContent m.2)) = ms :=
      (List.map_congr_left fun m hm =>
        congrArg (Prod.mk m.1) (ih m hm (hproto m hm).2 (hfinite m hm))).trans (List.map_id _)
    have hkept : assigned ms = ms :=
      List.filter_eq_self.mpr fun m hm => decide_eq_true (hproto m hm).1
    rw [messageContent, reshape_obj]
    exact congrArg Json.obj ((congrArg assigned hmap).trans hkept)

/-! ## The message and its parts -/

variable {a b : AdminActionType} {actorA actorB : JsString} {s t : Text} {p q : Plain}

/-- **Messages bind their parts when contents tell the payloads apart.** Two messages are equal
exactly for equal actions and actors and deeply equal payloads, unless the payloads differ only
in members named `__proto__` and in infinite numbers against null. -/
theorem message_binding_iff (hp : parseJson s = some p) (hq : parseJson t = some q) :
    (buildAdminSignatureMessage a actorA p = buildAdminSignatureMessage b actorB q ↔
      a = b ∧ actorA = actorB ∧ DeepEqual p q) ↔
    (a = b → actorA = actorB → DeepEqual (messageContent p) (messageContent q) →
      DeepEqual p q) := by
  rw [buildAdminSignatureMessage_inj,
    image_eq_iff (ownOrdered_of_parseJson hp) (ownOrdered_of_parseJson hq)]
  constructor
  · intro h haction hactor hcontent
    exact (h.mp ⟨haction, hactor, hcontent⟩).2.2
  · intro h
    constructor
    · rintro ⟨haction, hactor, hcontent⟩
      exact ⟨haction, hactor, h haction hactor hcontent⟩
    · rintro ⟨haction, hactor, hequal⟩
      exact ⟨haction, hactor, messageContent_of_deepEqual hequal⟩

theorem parseJson_emptyObject : parseJson "\x7b\x7d".toList = some (.obj []) := rfl

theorem message_binding_iff_sample :
    (buildAdminSignatureMessage .approve (js "ada") (.obj []) =
        buildAdminSignatureMessage .cancel (js "ada") (.obj []) ↔
      AdminActionType.approve = .cancel ∧ js "ada" = js "ada" ∧
        DeepEqual (.obj []) (.obj [])) :=
  (message_binding_iff parseJson_emptyObject parseJson_emptyObject).mpr fun h => by cases h

/-- A payload whose only member is named `__proto__`. -/
def protoPayload : Plain := .obj [(js "__proto__", .obj [])]

theorem parseJson_protoPayload : parseJson (jsonText [] protoPayload) = some protoPayload := by
  have hdocument : IsDocument protoPayload := isDocument_obj.mpr
    ⟨⟨List.nodup_singleton _, List.pairwise_singleton _ _⟩, by
      rintro m hm
      obtain rfl := List.mem_singleton.mp hm
      exact isDocument_obj.mpr ⟨⟨List.nodup_nil, .nil⟩, fun m hm => by cases hm⟩⟩
  exact hdocument.parseJson (by simp [Json.Blank])

/-- A member named `__proto__` is not signed: the message is that of the empty payload. -/
theorem proto_member_unsigned : ∃ s t p q, parseJson s = some p ∧ parseJson t = some q ∧
    buildAdminSignatureMessage .request (js "ada") p =
      buildAdminSignatureMessage .request (js "ada") q ∧
    ¬DeepEqual p q := by
  refine ⟨_, _, _, _, parseJson_protoPayload, parseJson_emptyObject,
    buildAdminSignatureMessage_inj.mpr ⟨rfl, rfl, ?_⟩, fun h => ?_⟩
  · rw [protoPayload, canonicalize_obj]
    rfl
  · have hsize := h.size_eq
    rw [protoPayload, Json.size_obj, Json.size_obj] at hsize
    cases hsize

end MemphisOS
