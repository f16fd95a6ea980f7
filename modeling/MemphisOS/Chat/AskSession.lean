import Mathlib
import MemphisOS.Ecma.Strings

/-!
# The context of a session

Which turns of a session are given to the model: the newest ones, as many as the limit of turns and
the token budget allow, and always the last one.
-/

namespace MemphisOS.Chat

open Ecma

inductive AskSessionRole where
  | user
  | assistant
  | system
  deriving DecidableEq

structure AskSessionTurn where
  timestamp : JsString
  role : AskSessionRole
  content : JsString
  tokens : ℕ
  deriving DecidableEq

/-- The tokens of some turns together. -/
def totalTokens : List AskSessionTurn → ℕ
  | [] => 0
  | turn :: turns => turn.tokens + totalTokens turns

/-- The loop over the turns that are left, the newest in front. -/
def pickTurns (maxTokens : ℤ) : List AskSessionTurn → List AskSessionTurn → ℕ → List AskSessionTurn
  | [], picked, _ => picked
  | turn :: rest, picked, tokens =>
    if 0 < picked.length ∧ maxTokens < (tokens + turn.tokens : ℕ) then picked
    else pickTurns maxTokens rest (picked ++ [turn]) (tokens + turn.tokens)

/-- `selectContextTurns`. -/
def selectContextTurns (turns : List AskSessionTurn) (maxTurns maxTokens : ℤ) :
    List AskSessionTurn :=
  let byTurns := turns.drop (turns.length - (max 1 maxTurns).toNat)
  (pickTurns maxTokens byTurns.reverse [] 0).reverse

/-- A suffix of the session that has at most the allowed number of turns and fits the budget. -/
structure IsContext (turns : List AskSessionTurn) (maxTurns maxTokens : ℤ)
    (context : List AskSessionTurn) : Prop where
  suffix : context <:+ turns
  length_le : (context.length : ℤ) ≤ max 1 maxTurns
  tokens_le : (totalTokens context : ℤ) ≤ maxTokens

variable {turns rest picked context : List AskSessionTurn} {maxTurns maxTokens : ℤ} {tokens : ℕ}
  {turn last : AskSessionTurn}

theorem totalTokens_append (turns turns' : List AskSessionTurn) :
    totalTokens (turns ++ turns') = totalTokens turns + totalTokens turns' := by
  induction turns with
  | nil => rw [List.nil_append, totalTokens, Nat.zero_add]
  | cons turn turns ih => rw [List.cons_append, totalTokens, ih, totalTokens, Nat.add_assoc]

theorem totalTokens_reverse (turns : List AskSessionTurn) :
    totalTokens turns.reverse = totalTokens turns := by
  induction turns with
  | nil => rfl
  | cons turn turns ih =>
    rw [List.reverse_cons, totalTokens_append, ih, totalTokens, totalTokens, totalTokens,
      Nat.add_zero, Nat.add_comm]

/-! ## The loop -/

/-- The loop, once a turn is picked: it picks the turns in front of the first one that goes over the
budget. -/
theorem pickTurns_spec (hpicked : 0 < picked.length) :
    ∃ front back, rest = front ++ back ∧
      pickTurns maxTokens rest picked tokens = picked ++ front ∧
      (front ≠ [] → ((tokens + totalTokens front : ℕ) : ℤ) ≤ maxTokens) ∧
      ∀ turn ∈ back.head?, maxTokens < (tokens + totalTokens front + turn.tokens : ℕ) := by
  induction rest generalizing picked tokens with
  | nil => exact ⟨[], [], rfl, by simp [pickTurns], fun h => absurd rfl h, by simp⟩
  | cons turn rest ih =>
    rw [pickTurns]
    by_cases hover : maxTokens < (tokens + turn.tokens : ℕ)
    · rw [if_pos ⟨hpicked, hover⟩]
      refine ⟨[], turn :: rest, rfl, (List.append_nil _).symm, fun h => absurd rfl h, ?_⟩
      intro turn' hturn'
      obtain rfl : turn = turn' := by simpa using hturn'
      simpa [totalTokens] using hover
    · rw [if_neg fun h => hover h.2]
      obtain ⟨front, back, rfl, hloop, hfits, hstop⟩ :=
        @ih (picked ++ [turn]) (tokens + turn.tokens) (by simp)
      refine ⟨turn :: front, back, rfl, by rw [hloop, List.append_assoc]; rfl, fun _ => ?_, ?_⟩
      · rw [totalTokens, ← Nat.add_assoc]
        rcases eq_or_ne front [] with rfl | hne
        · rw [totalTokens, Nat.add_zero]
          exact not_lt.mp hover
        · exact hfits hne
      · rw [totalTokens, ← Nat.add_assoc]
        exact hstop

/-- The turns the loop picks of a session: all but those from the first one that goes over the
budget on, and the newest in any case. -/
theorem pickTurns_cons_spec : ∃ front back, rest = front ++ back ∧
    pickTurns maxTokens (last :: rest) [] 0 = last :: front ∧
    (front ≠ [] → (totalTokens (last :: front) : ℤ) ≤ maxTokens) ∧
    ∀ turn ∈ back.head?, maxTokens < (totalTokens (last :: front) + turn.tokens : ℕ) := by
  rw [pickTurns, if_neg fun h => absurd h.1 (Nat.lt_irrefl 0), Nat.zero_add, List.nil_append]
  obtain ⟨front, back, hrest, hloop, hfits, hstop⟩ :=
    @pickTurns_spec rest [last] maxTokens last.tokens (Nat.succ_pos 0)
  simp only [totalTokens]
  exact ⟨front, back, hrest, hloop, hfits, hstop⟩

/-! ## What is selected -/

/-- The turns the loop may pick are those within the limit. -/
theorem suffix_drop_iff (h : context <:+ turns) :
    context <:+ turns.drop (turns.length - (max 1 maxTurns).toNat) ↔
      (context.length : ℤ) ≤ max 1 maxTurns := by
  have hlimit : ((max 1 maxTurns).toNat : ℤ) = max 1 maxTurns :=
    Int.toNat_of_nonneg (zero_le_one.trans (le_max_left _ _))
  have hlength : (turns.drop (turns.length - (max 1 maxTurns).toNat)).length =
      min turns.length (max 1 maxTurns).toNat := by
    rw [List.length_drop]
    omega
  constructor
  · intro hdrop
    have hle := hdrop.length_le
    rw [hlength] at hle
    omega
  · intro hle
    refine List.suffix_of_suffix_length_le h (List.drop_suffix _ _) ?_
    have hall := h.length_le
    rw [hlength]
    omega

/-- **The context.** What is selected is the longest suffix of the session that has at most the
allowed number of turns and fits the budget, or just the last turn if even that one does not fit. -/
theorem selectContextTurns_longest (turns : List AskSessionTurn) (maxTurns maxTokens : ℤ) :
    IsContext turns maxTurns maxTokens (selectContextTurns turns maxTurns maxTokens) ∧
        (∀ context, IsContext turns maxTurns maxTokens context →
          context <:+ selectContextTurns turns maxTurns maxTokens) ∨
      (∀ last ∈ turns.getLast?, maxTokens < last.tokens) ∧
        selectContextTurns turns maxTurns maxTokens = turns.getLast?.toList := by
  rcases turns.eq_nil_or_concat' with rfl | ⟨init, last, rfl⟩
  · exact .inr ⟨by simp, by rw [selectContextTurns, List.drop_nil]; rfl⟩
  · set turns := init ++ [last] with hturns
    set byTurns := turns.drop (turns.length - (max 1 maxTurns).toNat) with hbyTurns
    have hsuffix : byTurns <:+ turns := List.drop_suffix _ _
    obtain ⟨rest, hrest⟩ : ∃ rest, byTurns.reverse = last :: rest := by
      have hlast : [last] <:+ byTurns :=
        (suffix_drop_iff ⟨init, rfl⟩).mpr (le_max_left 1 maxTurns)
      obtain ⟨front, hfront⟩ := hlast
      exact ⟨front.reverse, by rw [← hfront, List.reverse_append]; rfl⟩
    obtain ⟨front, back, rfl, hloop, hfits, hstop⟩ := @pickTurns_cons_spec rest maxTokens last
    have hselect : selectContextTurns turns maxTurns maxTokens = (last :: front).reverse := by
      rw [selectContextTurns, ← hbyTurns, hrest, hloop]
    have hsplit : byTurns = back.reverse ++ (last :: front).reverse := by
      rw [← List.reverse_append, List.cons_append, ← hrest, List.reverse_reverse]
    have hselected : (last :: front).reverse <:+ byTurns := ⟨back.reverse, hsplit.symm⟩
    rw [hselect, List.getLast?_concat]
    by_cases hover : maxTokens < last.tokens
    · -- every other turn goes over the budget as well
      have hfront : front = [] := by
        by_contra hne
        have htotal := hfits hne
        rw [totalTokens] at htotal
        omega
      rw [hfront]
      exact .inr ⟨by simpa using hover, rfl⟩
    · refine .inl ⟨⟨hselected.trans hsuffix, ?_, ?_⟩, ?_⟩
      · exact (suffix_drop_iff (hselected.trans hsuffix)).mp hselected
      · rw [totalTokens_reverse]
        rcases eq_or_ne front [] with rfl | hne
        · rw [totalTokens, totalTokens, Nat.add_zero]
          exact not_lt.mp hover
        · exact hfits hne
      · rintro context ⟨hcontext, hlength, htokens⟩
        have hcontext := (suffix_drop_iff hcontext).mpr hlength
        rcases List.suffix_or_suffix_of_suffix hcontext hselected with h | ⟨more, hmore⟩
        · exact h
        · -- a longer context has the turn the loop stopped at
          rcases more.eq_nil_or_concat' with rfl | ⟨before, turn, rfl⟩
          · exact ⟨[], by rw [List.nil_append, ← hmore, List.nil_append]⟩
          · obtain ⟨older, holder⟩ := hcontext
            rw [← hbyTurns, hsplit, ← hmore, ← List.append_assoc,
              List.append_cancel_right_eq] at holder
            have hback : back.head? = some turn := by
              rw [← List.reverse_reverse back, ← holder, List.head?_reverse,
                ← List.append_assoc, List.getLast?_concat]
            have hlate := hstop turn hback
            rw [← hmore, totalTokens_append, totalTokens_append, totalTokens_reverse, totalTokens,
              totalTokens] at htokens
            omega

end MemphisOS.Chat
