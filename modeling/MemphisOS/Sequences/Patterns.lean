import Mathlib.Data.List.Basic
import Mathlib.Data.List.TakeWhile
import Mathlib.Tactic.Common

/-!
# Patterns between word boundaries

A pattern asks for pieces one after another, between two places where a word starts or ends. A
piece takes as much as it can and gives back what the next pieces need. What replaces all matches
leaves no match behind, and makes none of another pattern.
-/

namespace Sequences

variable {α : Type}

/-- Symbols a pattern asks for: exactly so many, or at least so many. -/
structure Piece (α : Type) where
  accepts : α → Bool
  least : ℕ
  many : Bool := false

/-- The numbers of symbols a piece takes, in the order in which they are tried. -/
def Piece.counts (piece : Piece α) (text : List α) : List ℕ :=
  let longest := (text.takeWhile piece.accepts).length
  if piece.many then (List.range' piece.least (longest + 1 - piece.least)).reverse
  else if piece.least ≤ longest then [piece.least] else []

/-- The symbols before a place. -/
def lastSymbol (previous : Option α) (part : List α) : Option α := part.getLast?.or previous

section Matching

variable (word : α → Bool)

/-- A word starts or ends between the two symbols. -/
def boundary (a b : Option α) : Bool := a.any word != b.any word

/-- The length of the match of the pieces at the start of a text, up to a boundary. -/
def matchPieces : List (Piece α) → Option α → List α → Option ℕ
  | [], previous, text => if boundary word previous text.head? then some 0 else none
  | piece :: pieces, previous, text =>
    (piece.counts text).findSome? fun n =>
      (matchPieces pieces (lastSymbol previous (text.take n)) (text.drop n)).map (n + ·)

/-- The length of the match at the start of a text, with the symbol before it. -/
def matchAt (pattern : List (Piece α)) (previous : Option α) (text : List α) : Option ℕ :=
  if boundary word previous text.head? then matchPieces word pattern previous text else none

/-- The rest of a text with all matches replaced, after the symbols that are still to be
skipped. -/
def replaceFrom (pattern : List (Piece α)) (replacement : List α) :
    ℕ → Option α → List α → List α
  | _, _, [] => []
  | skip + 1, _, a :: rest => replaceFrom pattern replacement skip (some a) rest
  | 0, previous, a :: rest =>
    match matchAt word pattern previous (a :: rest) with
    | some (n + 1) => replacement ++ replaceFrom pattern replacement n (some a) rest
    | _ => a :: replaceFrom pattern replacement 0 (some a) rest

/-- All matches are replaced. -/
def replaceAll (pattern : List (Piece α)) (replacement text : List α) : List α :=
  replaceFrom word pattern replacement 0 none text

end Matching

/-! ## What is matched -/

/-- The piece takes the symbols. -/
def Piece.Fits (piece : Piece α) (chunk : List α) : Prop :=
  (∀ a ∈ chunk, piece.accepts a = true) ∧
    if piece.many then piece.least ≤ chunk.length else chunk.length = piece.least

/-- The pieces take the symbols one after another. -/
def Fits : List (Piece α) → List α → Prop
  | [], part => part = []
  | piece :: pieces, part =>
    ∃ chunk rest, part = chunk ++ rest ∧ piece.Fits chunk ∧ Fits pieces rest

/-- The pattern matches at the start of the text. -/
def OccursAt (word : α → Bool) (pattern : List (Piece α)) (previous : Option α) (text : List α) :
    Prop :=
  ∃ part after, text = part ++ after ∧ Fits pattern part ∧
    boundary word previous text.head? = true ∧
    boundary word (lastSymbol previous part) after.head? = true

/-- The pattern matches somewhere in the text. -/
def Occurs (word : α → Bool) (pattern : List (Piece α)) (text : List α) : Prop :=
  ∃ before rest, text = before ++ rest ∧ OccursAt word pattern before.getLast? rest

variable {word : α → Bool} {pattern other : List (Piece α)} {piece : Piece α}
  {pieces : List (Piece α)} {previous : Option α} {text part before after replacement : List α}
  {n : ℕ}

theorem lastSymbol_append (previous : Option α) (a b : List α) :
    lastSymbol (lastSymbol previous a) b = lastSymbol previous (a ++ b) := by
  rw [lastSymbol, lastSymbol, lastSymbol, List.getLast?_append, Option.or_assoc]

theorem le_length_takeWhile {p : α → Bool} :
    n ≤ (text.takeWhile p).length ↔ n ≤ text.length ∧ ∀ a ∈ text.take n, p a = true := by
  induction text generalizing n with
  | nil => simp
  | cons a text ih =>
    cases n with
    | zero => simp
    | succ n =>
      by_cases ha : p a = true
      · rw [List.takeWhile_cons_of_pos ha, List.length_cons, Nat.succ_le_succ_iff, ih]
        simp [ha]
      · rw [List.takeWhile_cons_of_neg ha]
        simp [ha]

theorem mem_counts : n ∈ piece.counts text ↔ n ≤ text.length ∧ piece.Fits (text.take n) := by
  have hlongest := @le_length_takeWhile α text n piece.accepts
  rw [Piece.counts, Piece.Fits]
  cases piece.many with
  | true =>
    simp only [if_true, List.mem_reverse, List.mem_range'_1, List.length_take]
    constructor
    · rintro ⟨hleast, hle⟩
      obtain ⟨hlength, hall⟩ := hlongest.mp (by omega)
      exact ⟨hlength, hall, by omega⟩
    · rintro ⟨hlength, hall, hleast⟩
      have hle := hlongest.mpr ⟨hlength, hall⟩
      omega
  | false =>
    simp only [Bool.false_eq_true, if_false, List.length_take]
    constructor
    · intro hmem
      split at hmem
      · rename_i hle
        obtain rfl := List.mem_singleton.mp hmem
        obtain ⟨hlength, hall⟩ := hlongest.mp hle
        exact ⟨hlength, hall, by omega⟩
      · cases hmem
    · rintro ⟨hlength, hall, hleast⟩
      have hle := hlongest.mpr ⟨hlength, hall⟩
      have heq : n = piece.least := by omega
      rw [← heq, if_pos hle]
      exact List.mem_singleton.mpr rfl

/-- A match is made of what the pieces take, up to a boundary. -/
theorem matchPieces_spec (h : matchPieces word pieces previous text = some n) :
    n ≤ text.length ∧ Fits pieces (text.take n) ∧
      boundary word (lastSymbol previous (text.take n)) (text.drop n).head? = true := by
  induction pieces generalizing previous text n with
  | nil =>
    rw [matchPieces] at h
    split at h
    · rename_i hboundary
      cases h
      exact ⟨Nat.zero_le _, rfl, hboundary⟩
    · cases h
  | cons piece pieces ih =>
    obtain ⟨m, hm, hmatch⟩ := List.exists_of_findSome?_eq_some h
    obtain ⟨k, hk, rfl⟩ := Option.map_eq_some_iff.mp hmatch
    obtain ⟨hlength, hfits⟩ := mem_counts.mp hm
    obtain ⟨hrest, hpieces, hboundary⟩ := ih hk
    rw [List.length_drop] at hrest
    rw [lastSymbol_append, ← List.take_add] at hboundary
    rw [List.drop_drop] at hboundary
    refine ⟨by omega, ?_, hboundary⟩
    exact ⟨text.take m, (text.drop m).take k, List.take_add, hfits, hpieces⟩

/-- The pieces are matched when they can take what is in front of a boundary. -/
theorem isSome_matchPieces (hfits : Fits pieces part)
    (hboundary : boundary word (lastSymbol previous part) after.head? = true) :
    (matchPieces word pieces previous (part ++ after)).isSome = true := by
  induction pieces generalizing previous part with
  | nil =>
    obtain rfl : part = [] := hfits
    rw [matchPieces]
    exact congrArg Option.isSome (if_pos hboundary)
  | cons piece pieces ih =>
    obtain ⟨chunk, rest, rfl, hchunk, hrest⟩ := hfits
    rw [matchPieces, List.findSome?_isSome_iff]
    refine ⟨chunk.length, mem_counts.mpr ?_, ?_⟩
    · rw [List.append_assoc, List.take_left, List.length_append]
      exact ⟨Nat.le_add_right _ _, hchunk⟩
    · rw [List.append_assoc, List.take_left, List.drop_left, Option.isSome_map]
      refine ih hrest ?_
      rw [lastSymbol_append]
      exact hboundary

/-- **Matching.** A match is found wherever there is one. -/
theorem isSome_matchAt : (matchAt word pattern previous text).isSome = true ↔
    OccursAt word pattern previous text := by
  rw [matchAt]
  constructor
  · intro h
    split at h
    · rename_i hstart
      obtain ⟨n, hn⟩ := Option.isSome_iff_exists.mp h
      obtain ⟨-, hfits, hend⟩ := matchPieces_spec hn
      exact ⟨text.take n, text.drop n, (List.take_append_drop n text).symm, hfits, hstart, hend⟩
    · cases h
  · rintro ⟨part, after, rfl, hfits, hstart, hend⟩
    rw [if_pos hstart]
    exact isSome_matchPieces hfits hend

theorem boundary_of_matchAt (h : matchAt word pattern previous text = some n) :
    boundary word previous text.head? = true ∧
      boundary word (lastSymbol previous (text.take n)) (text.drop n).head? = true := by
  rw [matchAt] at h
  split at h
  · rename_i hstart
    exact ⟨hstart, (matchPieces_spec h).2.2⟩
  · cases h

/-! ## Searching -/

/-- The pattern matches somewhere in the text, after the symbol before it. -/
def occursFrom (word : α → Bool) (pattern : List (Piece α)) : Option α → List α → Bool
  | previous, [] => (matchAt word pattern previous []).isSome
  | previous, a :: rest =>
    (matchAt word pattern previous (a :: rest)).isSome || occursFrom word pattern (some a) rest

theorem occursFrom_iff : occursFrom word pattern previous text = true ↔
    ∃ before rest, text = before ++ rest ∧
      OccursAt word pattern (lastSymbol previous before) rest := by
  induction text generalizing previous with
  | nil =>
    rw [occursFrom, isSome_matchAt]
    constructor
    · exact fun h => ⟨[], [], rfl, h⟩
    · rintro ⟨before, rest, heq, h⟩
      obtain ⟨rfl, rfl⟩ := List.append_eq_nil_iff.mp heq.symm
      exact h
  | cons a text ih =>
    rw [occursFrom, Bool.or_eq_true, isSome_matchAt, ih]
    constructor
    · rintro (h | ⟨before, rest, rfl, h⟩)
      · exact ⟨[], a :: text, rfl, h⟩
      · exact ⟨a :: before, rest, rfl, by rwa [← List.singleton_append, ← lastSymbol_append]⟩
    · rintro ⟨before, rest, heq, h⟩
      cases before with
      | nil =>
        obtain rfl : a :: text = rest := heq
        exact .inl h
      | cons b before =>
        rw [List.cons_append, List.cons.injEq] at heq
        obtain ⟨rfl, rfl⟩ := heq
        rw [← List.singleton_append, ← lastSymbol_append] at h
        exact .inr ⟨before, rest, rfl, h⟩

theorem occurs_iff : occursFrom word pattern none text = true ↔ Occurs word pattern text := by
  have hlast (before : List α) : lastSymbol none before = before.getLast? := Option.or_none
  rw [occursFrom_iff]
  simp only [hlast]
  rfl

instance : Decidable (Occurs word pattern text) := decidable_of_iff _ occurs_iff

/-! ## Replacing -/

theorem replaceFrom_skip (h : n ≤ text.length) :
    replaceFrom word pattern replacement n previous text =
      replaceFrom word pattern replacement 0 (lastSymbol previous (text.take n)) (text.drop n) := by
  induction n generalizing previous text with
  | zero => rfl
  | succ n ih =>
    cases text with
    | nil => cases h
    | cons a text =>
      rw [replaceFrom, ih (Nat.le_of_succ_le_succ h), List.take_succ_cons, List.drop_succ_cons,
        ← List.singleton_append, ← lastSymbol_append]
      rfl

theorem length_of_matchAt (h : matchAt word pattern previous text = some n) : n ≤ text.length := by
  rw [matchAt] at h
  split at h
  · exact (matchPieces_spec h).1
  · cases h

/-- A match is replaced as a whole. -/
theorem replaceFrom_of_match (h : matchAt word pattern previous text = some (n + 1)) :
    replaceFrom word pattern replacement 0 previous text =
      replacement ++ replaceFrom word pattern replacement 0
        (lastSymbol previous (text.take (n + 1))) (text.drop (n + 1)) := by
  have hlength := length_of_matchAt h
  cases text with
  | nil => cases hlength
  | cons a text =>
    rw [replaceFrom, h]
    dsimp only
    rw [replaceFrom_skip (Nat.le_of_succ_le_succ hlength), List.take_succ_cons,
      List.drop_succ_cons, ← List.singleton_append, ← lastSymbol_append]
    rfl

theorem replaceFrom_of_none {a : α} (h : matchAt word pattern previous (a :: text) = none) :
    replaceFrom word pattern replacement 0 previous (a :: text) =
      a :: replaceFrom word pattern replacement 0 (some a) text := by
  rw [replaceFrom, h]

/-- The replacement is nothing that the pattern takes: it does not start with a symbol of a match,
and no match starts within it. -/
structure Apart (pattern : List (Piece α)) (replacement : List α) : Prop where
  opening : ∃ a rest, replacement = a :: rest ∧ ∀ piece ∈ pattern, piece.accepts a = false
  start : ∃ piece pieces, pattern = piece :: pieces ∧ 0 < piece.least ∧
    ∀ a ∈ replacement, piece.accepts a = false

/-- The test of `Apart`. -/
def isApart (pattern : List (Piece α)) (replacement : List α) : Bool :=
  match replacement, pattern with
  | a :: rest, piece :: pieces =>
    (piece :: pieces).all (fun other => !other.accepts a) && decide (0 < piece.least) &&
      (a :: rest).all (fun b => !piece.accepts b)
  | _, _ => false

theorem apart_of_isApart (h : isApart pattern replacement = true) : Apart pattern replacement := by
  cases replacement with
  | nil =>
    rw [isApart] at h
    · cases h
    · intro a rest piece pieces hnil
      cases hnil
  | cons a rest =>
    cases pattern with
    | nil => cases h
    | cons piece pieces =>
      rw [isApart, Bool.and_eq_true, Bool.and_eq_true, List.all_eq_true, List.all_eq_true,
        decide_eq_true_eq] at h
      obtain ⟨⟨hopening, hleast⟩, hstart⟩ := h
      refine ⟨⟨a, rest, rfl, fun other hother => ?_⟩, piece, pieces, rfl, hleast, fun b hb => ?_⟩
      · exact Bool.not_eq_true' _ ▸ hopening other hother
      · exact Bool.not_eq_true' _ ▸ hstart b hb

theorem Fits.accepted (h : Fits pattern part) {a : α} (ha : a ∈ part) :
    ∃ piece ∈ pattern, piece.accepts a = true := by
  induction pattern generalizing part with
  | nil =>
    obtain rfl : part = [] := h
    cases ha
  | cons piece pieces ih =>
    obtain ⟨chunk, rest, rfl, hchunk, hrest⟩ := h
    rcases List.mem_append.mp ha with ha | ha
    · exact ⟨piece, List.mem_cons_self, hchunk.1 a ha⟩
    · obtain ⟨found, hfound, haccepts⟩ := ih hrest ha
      exact ⟨found, List.mem_cons_of_mem _ hfound, haccepts⟩

/-- A match starts with a symbol that the replacement does not hold. -/
theorem Apart.head (h : Apart pattern replacement) (hfits : Fits pattern part) :
    ∃ a rest, part = a :: rest ∧ a ∉ replacement := by
  obtain ⟨piece, pieces, rfl, hleast, hstart⟩ := h.start
  obtain ⟨chunk, rest, rfl, ⟨haccepts, hcount⟩, -⟩ := hfits
  have hlength : piece.least ≤ chunk.length := by
    split at hcount
    · exact hcount
    · exact hcount.ge
  cases chunk with
  | nil => exact absurd hlength (Nat.not_le_of_lt hleast)
  | cons a chunk =>
    refine ⟨a, chunk ++ rest, rfl, fun hmem => ?_⟩
    have hfalse := hstart a hmem
    rw [haccepts a List.mem_cons_self] at hfalse
    cases hfalse

/-- A match is not empty. -/
theorem Apart.matchAt_ne_zero (h : Apart pattern replacement) :
    matchAt word pattern previous text ≠ some 0 := by
  intro hmatch
  rw [matchAt] at hmatch
  split at hmatch
  · obtain ⟨a, rest, hpart, -⟩ := h.head (matchPieces_spec hmatch).2.1
    cases hpart
  · cases hmatch

/-- What does not start like the replacement was there before. -/
theorem append_of_replaceFrom (hp : Apart pattern replacement) {rest : List α}
    (hopening : ∀ a ∈ part, ∀ others, replacement ≠ a :: others)
    (h : replaceFrom word pattern replacement 0 previous text = part ++ rest) :
    ∃ after, text = part ++ after ∧
      rest = replaceFrom word pattern replacement 0 (lastSymbol previous part) after := by
  induction part generalizing previous text with
  | nil => exact ⟨text, rfl, h.symm⟩
  | cons u part ih =>
    cases hmatch : matchAt word pattern previous text with
    | some n =>
      cases n with
      | zero => exact absurd hmatch hp.matchAt_ne_zero
      | succ n =>
        obtain ⟨b, others, hreplacement, -⟩ := hp.opening
        rw [replaceFrom_of_match hmatch, hreplacement, List.cons_append, List.cons_append,
          List.cons.injEq] at h
        obtain ⟨rfl, -⟩ := h
        exact absurd hreplacement (hopening b List.mem_cons_self others)
    | none =>
      cases text with
      | nil => cases h
      | cons a text =>
        rw [replaceFrom_of_none hmatch, List.cons_append, List.cons.injEq] at h
        obtain ⟨rfl, h⟩ := h
        obtain ⟨after, rfl, hrest⟩ :=
          ih (fun b hb => hopening b (List.mem_cons_of_mem _ hb)) h
        refine ⟨after, rfl, ?_⟩
        rw [hrest, ← List.singleton_append, ← lastSymbol_append]
        rfl

/-- A place that ends a word after the replacement ended one before. -/
theorem boundary_of_replaceFrom (h : boundary word previous
    (replaceFrom word pattern replacement 0 previous text).head? = true) :
    boundary word previous text.head? = true := by
  cases text with
  | nil => exact h
  | cons a text =>
    cases hmatch : matchAt word pattern previous (a :: text) with
    | some n => exact (boundary_of_matchAt hmatch).1
    | none =>
      rw [replaceFrom_of_none hmatch] at h
      exact h

/-- Another pattern matches only where the pattern does. -/
def OnlyWithin (word : α → Bool) (pattern other : List (Piece α)) (previous : Option α)
    (text : List α) : Prop :=
  ∀ before rest, text = before ++ rest →
    matchAt word pattern (lastSymbol previous before) rest = none →
      ¬ OccursAt word other (lastSymbol previous before) rest

/-- After the replacement there is no match at a place where there was none. -/
theorem not_occursAt_replaceFrom (hp : Apart pattern replacement) (hother : Apart other replacement)
    {written : Option α} (hwritten : written = previous ∨ boundary word previous text.head? = true)
    (hnone : ¬ OccursAt word other previous text) :
    ¬ OccursAt word other written (replaceFrom word pattern replacement 0 previous text) := by
  rintro ⟨part, rest, heq, hfits, hstart, hend⟩
  have hopening : ∀ a ∈ part, ∀ others, replacement ≠ a :: others := by
    rintro a ha others rfl
    obtain ⟨b, tail, hreplacement, hrejects⟩ := hother.opening
    obtain ⟨piece, hpiece, haccepts⟩ := hfits.accepted ha
    cases hreplacement
    rw [hrejects piece hpiece] at haccepts
    cases haccepts
  obtain ⟨after, rfl, rfl⟩ := append_of_replaceFrom hp hopening heq
  obtain ⟨a, tail, rfl, -⟩ := hother.head hfits
  rw [heq] at hstart
  refine hnone ⟨a :: tail, after, rfl, hfits, ?_, ?_⟩
  · rcases hwritten with rfl | hboundary
    · exact hstart
    · exact hboundary
  · have hlast : lastSymbol written (a :: tail) = lastSymbol previous (a :: tail) := by
      rw [lastSymbol, lastSymbol, List.getLast?_eq_some_getLast (List.cons_ne_nil a tail)]
      rfl
    rw [hlast] at hend
    exact boundary_of_replaceFrom hend

/-- No match starts within the replacement. -/
theorem not_occursAt_of_mem (hother : Apart other replacement) {a : α} (ha : a ∈ replacement) :
    ¬ OccursAt word other previous (a :: text) := by
  rintro ⟨part, after, heq, hfits, -⟩
  obtain ⟨b, tail, rfl, hb⟩ := hother.head hfits
  rw [List.cons_append, List.cons.injEq] at heq
  exact hb (heq.1 ▸ ha)

theorem OnlyWithin.drop (h : OnlyWithin word pattern other previous text) (n : ℕ) :
    OnlyWithin word pattern other (lastSymbol previous (text.take n)) (text.drop n) := by
  intro before rest heq hnone
  rw [lastSymbol_append] at hnone ⊢
  refine h (text.take n ++ before) rest ?_ hnone
  rw [List.append_assoc, ← heq, List.take_append_drop]

/-- The replacement leaves no match of a pattern that matches only where it is put. -/
theorem not_occursAt_of_onlyWithin (hp : Apart pattern replacement)
    (hother : Apart other replacement) {written : Option α}
    (honly : OnlyWithin word pattern other previous text)
    (hwritten : written = previous ∨ boundary word previous text.head? = true)
    (heq : replaceFrom word pattern replacement 0 previous text = before ++ after) :
    ¬ OccursAt word other (lastSymbol written before) after := by
  induction hlength : text.length using Nat.strong_induction_on generalizing text previous written
    before after with
  | _ length ih =>
    cases hmatch : matchAt word pattern previous text with
    | none =>
      cases before with
      | nil =>
        rw [List.nil_append] at heq
        rw [← heq]
        exact not_occursAt_replaceFrom hp hother hwritten (honly [] text rfl hmatch)
      | cons b before =>
        cases text with
        | nil => cases heq
        | cons a text =>
          rw [replaceFrom_of_none hmatch, List.cons_append, List.cons.injEq] at heq
          obtain ⟨rfl, heq⟩ := heq
          rw [← List.singleton_append, ← lastSymbol_append]
          exact ih text.length (hlength ▸ Nat.lt_succ_self _) (honly.drop 1) (.inl rfl) heq rfl
    | some n =>
      cases n with
      | zero => exact absurd hmatch hp.matchAt_ne_zero
      | succ n =>
        have hle := length_of_matchAt hmatch
        rw [replaceFrom_of_match hmatch] at heq
        have hlater (more rest : List α) (hrest : replaceFrom word pattern replacement 0
            (lastSymbol previous (text.take (n + 1))) (text.drop (n + 1)) = more ++ rest) :
            ¬ OccursAt word other (lastSymbol written (replacement ++ more)) rest := by
          rw [← lastSymbol_append]
          refine ih (text.drop (n + 1)).length ?_ (honly.drop (n + 1))
            (.inr (boundary_of_matchAt hmatch).2) hrest rfl
          rw [List.length_drop]
          omega
        rcases List.append_eq_append_iff.mp heq with ⟨more, rfl, hrest⟩ | ⟨inside, hbefore, rfl⟩
        · exact hlater more after hrest
        · cases inside with
          | nil =>
            rw [List.append_nil] at hbefore
            subst hbefore
            have hnone := hlater [] _ rfl
            rwa [List.append_nil] at hnone
          | cons a inside =>
            rw [List.cons_append]
            refine not_occursAt_of_mem hother ?_
            rw [hbefore]
            exact List.mem_append_right _ List.mem_cons_self

theorem occurs_of_occursAt {rest : List α} (htext : text = before ++ rest)
    (h : OccursAt word pattern (lastSymbol none before) rest) : Occurs word pattern text :=
  ⟨before, rest, htext, by rwa [lastSymbol, Option.or_none] at h⟩

/-- **Replacing.** Nothing of the pattern is left. -/
theorem not_occurs_replaceAll (hp : Apart pattern replacement) (text : List α) :
    ¬ Occurs word pattern (replaceAll word pattern replacement text) := by
  rintro ⟨before, rest, heq, h⟩
  have honly : OnlyWithin word pattern pattern none text := by
    intro before rest _ hnone hoccurs
    rw [← isSome_matchAt, hnone] at hoccurs
    cases hoccurs
  refine not_occursAt_of_onlyWithin hp hp honly (.inl rfl) heq ?_
  rwa [lastSymbol, Option.or_none]

/-- **Replacing.** A pattern that matched nowhere matches nowhere in what is left. -/
theorem not_occurs_replaceAll_of_not_occurs (hp : Apart pattern replacement)
    (hother : Apart other replacement) (hnone : ¬ Occurs word other text) :
    ¬ Occurs word other (replaceAll word pattern replacement text) := by
  rintro ⟨before, rest, heq, h⟩
  have honly : OnlyWithin word pattern other none text := fun before rest htext _ hoccurs =>
    hnone (occurs_of_occursAt htext hoccurs)
  refine not_occursAt_of_onlyWithin hp hother honly (.inl rfl) heq ?_
  rwa [lastSymbol, Option.or_none]

/-- The patterns are replaced one after another. -/
def replaceEach (word : α → Bool) (patterns : List (List (Piece α))) (replacement text : List α) :
    List α :=
  patterns.foldl (fun text pattern => replaceAll word pattern replacement text) text

theorem not_occurs_replaceEach_of_not_occurs {patterns : List (List (Piece α))}
    (hpatterns : ∀ p ∈ patterns, Apart p replacement) (hother : Apart other replacement)
    (hnone : ¬ Occurs word other text) :
    ¬ Occurs word other (replaceEach word patterns replacement text) := by
  induction patterns generalizing text with
  | nil => exact hnone
  | cons p patterns ih =>
    exact ih (fun q hq => hpatterns q (List.mem_cons_of_mem _ hq))
      (not_occurs_replaceAll_of_not_occurs (hpatterns p List.mem_cons_self) hother hnone)

/-- **Replacing.** Nothing of any of the patterns is left. -/
theorem not_occurs_replaceEach {patterns : List (List (Piece α))}
    (hpatterns : ∀ p ∈ patterns, Apart p replacement) (text : List α) :
    ∀ p ∈ patterns, ¬ Occurs word p (replaceEach word patterns replacement text) := by
  induction patterns generalizing text with
  | nil => exact fun p hp => absurd hp List.not_mem_nil
  | cons p patterns ih =>
    have hrest : ∀ q ∈ patterns, Apart q replacement := fun q hq =>
      hpatterns q (List.mem_cons_of_mem _ hq)
    intro q hq
    rcases List.mem_cons.mp hq with rfl | hq
    · have hapart := hpatterns q List.mem_cons_self
      have hnone : ¬ Occurs word q
          (replaceEach word patterns replacement (replaceAll word q replacement text)) :=
        not_occurs_replaceEach_of_not_occurs hrest hapart (not_occurs_replaceAll hapart text)
      exact hnone
    · exact ih hrest _ q hq

/-- A text without the first symbol of a pattern has no match. -/
theorem not_occurs_of_first (hleast : 0 < piece.least)
    (hnone : ∀ a ∈ text, piece.accepts a = false) : ¬ Occurs word (piece :: pieces) text := by
  rintro ⟨before, rest, rfl, part, after, rfl, ⟨chunk, tail, rfl, ⟨haccepts, hcount⟩, -⟩, -⟩
  cases chunk with
  | nil =>
    rw [List.length_nil] at hcount
    split at hcount <;> omega
  | cons a chunk =>
    have hmem : a ∈ before ++ (a :: chunk ++ tail ++ after) := by simp
    have hfalse := hnone a hmem
    rw [haccepts a List.mem_cons_self] at hfalse
    cases hfalse

end Sequences
