import MemphisOS.Incident.KeyBundle
import MemphisOS.TrustRoot.Transition

/-!
# Trust-root histories

A history is a first manifest and the manifests that validated transitions led to. Versions
and root sets obey their law in every history. The law of revoked identifiers looks at whole
histories and is not one that a validated transition keeps by itself.
-/

namespace MemphisOS.TrustRoot

open Ecma

/-- The revoked identifiers of a manifest. -/
def TrustRootManifest.revoked (manifest : TrustRootManifest) : List JsString :=
  manifest.revokedKeys.getD []

/-- A manifest and the transition that led to it. -/
structure Rotation where
  manifest : TrustRootManifest
  transition : TrustRootTransition

/-- Each transition is validated against the manifest before it. -/
def Accepted : TrustRootManifest → List Rotation → Prop
  | _, [] => True
  | current, rotation :: rest =>
    validateTrustRootTransition current rotation.manifest rotation.transition = .ok () ∧
      Accepted rotation.manifest rest

/-- The manifests of a history. -/
def manifests (first : TrustRootManifest) (rotations : List Rotation) : List TrustRootManifest :=
  first :: rotations.map (·.manifest)

/-- The whole-history law. -/
structure Lawful (first : TrustRootManifest) (rotations : List Rotation) : Prop where
  versions : (manifests first rotations).Pairwise fun a b => a.version.lt b.version = true
  roots : ∀ rotation ∈ rotations, rotation.manifest.rootIds ≠ [] ∧
    rotation.manifest.rootIds.Nodup ∧ rotation.transition.newRootId ∈ rotation.manifest.rootIds
  revoked : (manifests first rotations).Pairwise fun a b => a.revoked ⊆ b.revoked
  reinstated : (manifests first rotations).Pairwise fun a b => ∀ id ∈ a.revoked, id ∉ b.rootIds

/-- The next manifest keeps the revoked identifiers, none of them as a root. -/
def CarriesRevoked (current next : TrustRootManifest) : Prop :=
  current.revoked ⊆ next.revoked ∧ ∀ id ∈ current.revoked, id ∉ next.rootIds

instance : DecidableRel CarriesRevoked := fun _ _ => inferInstanceAs (Decidable (_ ∧ _))

variable {first current next : TrustRootManifest} {transition : TrustRootTransition}
  {rotations : List Rotation}

/-! ## One transition -/

/-- What a validated transition is known to satisfy. -/
theorem validate_spec (h : validateTrustRootTransition current next transition = .ok ()) :
    next.version.isInteger = true ∧ next.version.le current.version = false ∧
      next.rootIds ≠ [] ∧ next.rootIds.Nodup ∧ transition.newRootId ∈ next.rootIds := by
  unfold validateTrustRootTransition at h
  split_ifs at h with hversion hroots hold hnew hreason hsignature hrevoked
  simp only [Bool.or_eq_true, Bool.not_eq_true', not_or, Bool.not_eq_true, Bool.not_eq_false]
    at hversion
  simp only [Bool.or_eq_true, decide_eq_true_eq, Bool.not_eq_true', not_or, Bool.not_eq_false,
    hasDistinctEntries_iff] at hroots
  exact ⟨hversion.1, hversion.2, hroots.1, hroots.2, hnew⟩

/-- From a version that is a number, a validated transition goes up. -/
theorem lt_version (h : validateTrustRootTransition current next transition = .ok ())
    (hcurrent : current.version ≠ .nan) : current.version.lt next.version = true := by
  obtain ⟨hinteger, hle, -⟩ := validate_spec h
  exact JsNumber.lt_of_not_le hcurrent (JsNumber.ne_nan_of_isInteger hinteger) hle

/-! ## Histories -/

/-- The relation that successive manifests have in a lawful history. -/
def Follows (a b : TrustRootManifest) : Prop :=
  a.version.lt b.version = true ∧ CarriesRevoked a b

/-- What successive manifests of a lawful history satisfy, all later ones satisfy. -/
theorem Follows.trans {a b c : TrustRootManifest} (hab : Follows a b) (hbc : Follows b c) :
    Follows a c :=
  ⟨JsNumber.lt_trans hab.1 hbc.1, fun _ hid => hbc.2.1 (hab.2.1 hid),
    fun _ hid => hbc.2.2 _ (hab.2.1 hid)⟩

instance : IsTrans TrustRootManifest Follows := ⟨fun _ _ _ => Follows.trans⟩

/-- The manifests of a history whose transitions carry revocation on follow each other. -/
theorem isChain_follows (h : Accepted first rotations)
    (hnan : first.version ≠ .nan)
    (hcarries : (manifests first rotations).IsChain CarriesRevoked) :
    (manifests first rotations).IsChain Follows := by
  induction rotations generalizing first with
  | nil => exact .singleton _
  | cons rotation rest ih =>
    obtain ⟨hvalid, hrest⟩ := h
    rw [manifests, List.map_cons, List.isChain_cons_cons] at hcarries ⊢
    have hnext := JsNumber.ne_nan_of_isInteger (validate_spec hvalid).1
    exact ⟨⟨lt_version hvalid hnan, hcarries.1⟩, ih hrest hnext hcarries.2⟩

/-- The root sets of a history. -/
theorem roots_of_accepted (h : Accepted first rotations) : ∀ rotation ∈ rotations,
    rotation.manifest.rootIds ≠ [] ∧ rotation.manifest.rootIds.Nodup ∧
      rotation.transition.newRootId ∈ rotation.manifest.rootIds := by
  induction rotations generalizing first with
  | nil => simp
  | cons rotation rest ih =>
    intro r hr
    rcases List.mem_cons.mp hr with rfl | hr
    · exact (validate_spec h.1).2.2
    · exact ih h.2 r hr

/-- **Histories are lawful exactly when revocation is carried on.** Versions and root sets
obey the law in every history that starts from a numeric version. -/
theorem history_lawful (first : TrustRootManifest) (rotations : List Rotation)
    (h : Accepted first rotations) :
    Lawful first rotations ↔ (rotations ≠ [] → first.version ≠ .nan) ∧
      (manifests first rotations).IsChain CarriesRevoked := by
  constructor
  · intro hlawful
    refine ⟨fun hne => ?_, ?_⟩
    · obtain ⟨rotation, rest, rfl⟩ := List.exists_cons_of_ne_nil hne
      have hlt := List.rel_of_pairwise_cons hlawful.versions (List.mem_cons_self ..)
      exact (JsNumber.lt_iff.mp hlt).1
    · exact (hlawful.revoked.and hlawful.reinstated).isChain
  · rintro ⟨hnan, hcarries⟩
    cases rotations with
    | nil => exact ⟨List.pairwise_singleton _ _, by simp, List.pairwise_singleton _ _,
        List.pairwise_singleton _ _⟩
    | cons rotation rest =>
      have hfollows := (isChain_follows h (hnan (List.cons_ne_nil _ _)) hcarries).pairwise
      exact ⟨hfollows.imp fun h => h.1, roots_of_accepted h, hfollows.imp fun h => h.2.1,
        hfollows.imp fun h => h.2.2⟩

/-! ## A sample -/

/-- A manifest that revokes a root. -/
def sampleFirst : TrustRootManifest :=
  { version := .ofNat 1, rootIds := [js "root-v1"], revokedKeys := some [js "root-old"] }

/-- A transition to a new root. -/
def sampleTransition (newRootId : String) : TrustRootTransition :=
  { oldRootId := js "root-v1", newRootId := js newRootId, reason := js "annual rotation"
    signature := js "ed25519:abcdef" }

/-- A rotation that carries the revoked root on. -/
def sampleRotation : Rotation :=
  { manifest := { version := .ofNat 2, rootIds := [js "root-v1", js "root-v2"]
                  revokedKeys := some [js "root-old"] }
    transition := sampleTransition "root-v2" }

theorem history_lawful_sample : Lawful sampleFirst [sampleRotation] :=
  (history_lawful sampleFirst [sampleRotation] ⟨by decide +kernel, trivial⟩).mpr
    ⟨by decide +kernel, .cons_cons (by decide +kernel) (.singleton _)⟩

/-- A rotation that drops the revocation and makes the revoked root a root again. -/
def reinstatingRotation : Rotation :=
  { manifest := { version := .ofNat 2, rootIds := [js "root-v1", js "root-old"]
                  revokedKeys := none }
    transition := sampleTransition "root-old" }

/-- The transition that reinstates a revoked root is validated. -/
theorem revoked_root_reinstated :
    Accepted sampleFirst [reinstatingRotation] ∧ ¬Lawful sampleFirst [reinstatingRotation] := by
  refine ⟨⟨by decide +kernel, trivial⟩, fun hlawful => ?_⟩
  have hroots := List.rel_of_pairwise_cons hlawful.reinstated (List.mem_cons_self ..)
  exact absurd hroots (by decide)

end MemphisOS.TrustRoot

/-!
## The trust root at startup

The daemon reads the trust root manifest when it starts, with a parser of its own.
-/

namespace MemphisOS.TrustRoot

open Ecma Bridge Incident

end MemphisOS.TrustRoot
