import MemphisOS.Ecma.NumberOrder
import MemphisOS.Ecma.StringMethods
import Mathlib.Data.List.Dedup

/-!
# Trust-root transitions

A trust root manifest lists the identifiers of the trusted roots and those of revoked keys.
`validateTrustRootTransition` decides whether one manifest may follow another.
-/

namespace MemphisOS.TrustRoot

open Ecma

structure TrustRootManifest where
  version : JsNumber
  rootIds : List JsString
  revokedKeys : Option (List JsString)
  deriving DecidableEq

structure TrustRootTransition where
  oldRootId : JsString
  newRootId : JsString
  reason : JsString
  signature : JsString
  deriving DecidableEq

/-- The size of the set of the values is the length of the list. -/
def hasDistinctEntries (values : List JsString) : Bool := values.dedup.length == values.length

@[simp] theorem hasDistinctEntries_iff {values : List JsString} :
    hasDistinctEntries values = true ↔ values.Nodup := by
  rw [hasDistinctEntries, beq_iff_eq]
  constructor
  · intro hlength
    rw [← List.dedup_eq_self]
    exact (List.dedup_sublist values).eq_of_length hlength
  · intro hnodup
    rw [List.dedup_eq_self.mpr hnodup]

/-- The result of the validation: nothing, or the text of the error. -/
def validateTrustRootTransition (current next : TrustRootManifest)
    (transition : TrustRootTransition) : Except Text Unit :=
  if !next.version.isInteger || next.version.le current.version then
    .error ("trust root downgrade rejected: next version (".toList ++ numberText next.version ++
      ") must be > current (".toList ++ numberText current.version ++ ")".toList)
  else if next.rootIds = [] || !hasDistinctEntries next.rootIds then
    .error "invalid next trust root ids".toList
  else if transition.oldRootId ∉ current.rootIds then
    .error "transition oldRootId not found in current trust root set".toList
  else if transition.newRootId ∉ next.rootIds then
    .error "transition newRootId not found in next trust root set".toList
  else if transition.reason.trim = [] then .error "transition reason is required".toList
  else if transition.signature.trim = [] then .error "transition signature is required".toList
  else if next.revokedKeys.any (!hasDistinctEntries ·) then
    .error "next revokedKeys must not contain duplicates".toList
  else .ok ()

end MemphisOS.TrustRoot
