import Mathlib.Data.List.Nodup
import Mathlib.Tactic.Common
import MemphisOS.Ecma.Strings

/-!
# Tables of digests

A stand-in for a hash: it has the digests of some texts, and gives every other text a value of its
own.
-/

namespace Ecma

/-- The digests of a table, and something else for every other text. -/
def tableHash (table : List (Text × Text)) (t : Text) : Text := (table.lookup t).getD ('x' :: t)

/-- Digests that begin differently, and not with the mark of other texts, tell texts apart. -/
theorem tableHash_injective {table : List (Text × Text)}
    (hfirst : (table.map fun e => e.2.head?).Nodup) (hmark : ∀ e ∈ table, e.2.head? ≠ some 'x') :
    Function.Injective (tableHash table) := by
  intro t t' h
  rw [tableHash, tableHash] at h
  have hmem {t d : Text} (h : table.lookup t = some d) : (t, d) ∈ table := by
    obtain ⟨before, after, rfl, -⟩ := List.lookup_eq_some_iff.mp h
    exact List.mem_append_right _ List.mem_cons_self
  cases ht : table.lookup t with
  | none =>
    cases ht' : table.lookup t' with
    | none =>
      rw [ht, ht'] at h
      exact (List.cons.inj h).2
    | some d' =>
      rw [ht, ht'] at h
      exact absurd (congrArg List.head? h).symm (hmark _ (hmem ht'))
  | some d =>
    cases ht' : table.lookup t' with
    | none =>
      rw [ht, ht'] at h
      exact absurd (congrArg List.head? h) (hmark _ (hmem ht))
    | some d' =>
      rw [ht, ht'] at h
      have heq := List.inj_on_of_nodup_map hfirst (hmem ht) (hmem ht') (congrArg List.head? h)
      exact congrArg Prod.fst heq

end Ecma
