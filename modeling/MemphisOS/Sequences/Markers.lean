import Mathlib.Data.List.Infix
import Mathlib.Data.List.Basic

/-!
# Marked blocks

A marker is a word of which no two occurrences overlap. A block lies between the first
occurrence of one marker and the first occurrence of another one after it. A function on
sequences that carries the markers over to markers carries blocks over to blocks.
-/

namespace Sequences

variable {α β γ : Type}

/-- A word that does not hold its first symbol again. -/
def IsMarker (p : List α) : Prop := ∃ a t, p = a :: t ∧ a ∉ t

theorem IsMarker.ne_nil {p : List α} (hp : IsMarker p) : p ≠ [] := by
  obtain ⟨a, t, rfl, _⟩ := hp
  exact List.cons_ne_nil a t

/-- An occurrence of a marker in front of another one lies before it as a whole. -/
theorem IsMarker.prefix_of_append {p : List α} (hp : IsMarker p) {b l : List α} (hb : b ≠ [])
    (h : p <+: b ++ (p ++ l)) : p <+: b := by
  rcases List.prefix_or_prefix_of_prefix h (List.prefix_append b (p ++ l)) with hpb | ⟨q, hq⟩
  · exact hpb
  obtain ⟨a, t, rfl, hat⟩ := hp
  obtain ⟨b₀, b, rfl⟩ := List.exists_cons_of_ne_nil hb
  cases q with
  | nil => exact ⟨[], by rw [List.append_nil, ← hq, List.append_nil]⟩
  | cons q₀ q =>
    rw [← hq, List.prefix_append_right_inj, List.cons_append, List.cons_append,
      List.cons_prefix_cons] at h
    rw [List.cons_append, List.cons.injEq] at hq
    obtain ⟨rfl, rfl⟩ := hq
    exact absurd (List.mem_append_right b (h.1 ▸ List.mem_cons_self)) hat

/-- Two first occurrences of a marker are the same. -/
theorem IsMarker.first_unique {p : List α} (hp : IsMarker p) {b b' l l' : List α}
    (h : b ++ (p ++ l) = b' ++ (p ++ l')) (hb : ¬ p <:+: b) (hb' : ¬ p <:+: b') :
    b = b' ∧ l = l' := by
  have hpre : ∀ {b b' l l' : List α}, b ++ (p ++ l) = b' ++ (p ++ l') → ¬ p <:+: b' →
      b <+: b' → b = b' := by
    intro b b' l l' h hb' hle
    obtain ⟨c, rfl⟩ := hle
    rw [List.append_assoc, List.append_cancel_left_eq] at h
    by_cases hc : c = []
    · rw [hc, List.append_nil]
    · have hin : p <+: c := hp.prefix_of_append hc (h ▸ List.prefix_append p l)
      exact absurd (hin.isInfix.trans (List.suffix_append b c).isInfix) hb'
  have heq : b = b' := by
    rcases List.prefix_or_prefix_of_prefix (List.prefix_append b (p ++ l))
      (h ▸ List.prefix_append b' (p ++ l')) with hle | hle
    · exact hpre h hb' hle
    · exact (hpre h.symm hb hle).symm
  refine ⟨heq, ?_⟩
  rw [heq, List.append_cancel_left_eq, List.append_cancel_left_eq] at h
  exact h

/-- A word that occurs has a first occurrence. -/
theorem exists_first {p l : List α} (hp : p ≠ []) (h : p <:+: l) :
    ∃ b r, l = b ++ (p ++ r) ∧ ¬ p <:+: b := by
  induction l with
  | nil => exact absurd (List.infix_nil.mp h) hp
  | cons a l ih =>
    by_cases hpre : p <+: a :: l
    · obtain ⟨r, hr⟩ := hpre
      exact ⟨[], r, hr.symm, fun hin => hp (List.infix_nil.mp hin)⟩
    · obtain ⟨b, r, rfl, hb⟩ := ih ((List.infix_cons_iff.mp h).resolve_left hpre)
      refine ⟨a :: b, r, rfl, fun hin => ?_⟩
      rcases List.infix_cons_iff.mp hin with hin | hin
      · exact hpre (hin.trans (List.prefix_append (a :: b) (p ++ r)))
      · exact hb hin

/-! ## Search -/

section Search

variable [DecidableEq α] {p l b r : List α}

/-- `dropInfix?` finds the occurrence of a marker that has none before it. -/
theorem IsMarker.dropInfix?_eq_some_iff (hp : IsMarker p) :
    l.dropInfix? p = some (b, r) ↔ l = b ++ (p ++ r) ∧ ¬ p <:+: b := by
  rw [List.dropInfix?_eq_some_iff]
  constructor
  · rintro ⟨⟨p', hl, hp'⟩, hleast⟩
    obtain rfl : p' = p := eq_of_beq hp'
    refine ⟨by rw [hl, List.append_assoc], ?_⟩
    rintro ⟨x, y, rfl⟩
    have hlength := hleast x p' (y ++ (p' ++ r)) (by simp [hl]) (beq_self_eq_true p')
    have hpos := List.length_pos_iff.mpr hp.ne_nil
    simp only [List.length_append] at hlength
    omega
  · rintro ⟨rfl, hb⟩
    refine ⟨⟨p, by rw [List.append_assoc], beq_self_eq_true p⟩, fun b' p' r' h hp' => ?_⟩
    obtain rfl : p' = p := eq_of_beq hp'
    by_contra hshort
    rw [List.append_assoc] at h
    obtain ⟨c, rfl⟩ : b' <+: b := List.prefix_of_prefix_length_le
      (h ▸ List.prefix_append b' (p' ++ r')) (List.prefix_append b (p' ++ r)) (by omega)
    rw [List.append_assoc, List.append_cancel_left_eq] at h
    have hc : c ≠ [] := by
      rintro rfl
      simp at hshort
    have hin : p' <+: c := hp.prefix_of_append hc (h ▸ List.prefix_append p' r')
    exact hb (hin.isInfix.trans (List.suffix_append b' c).isInfix)

/-- The first match of the expression `s[\s\S]*?e`: what is before it, between the markers and
after it. A later `s` has no `e` after it when the first one has none. -/
def firstBlock (s e l : List α) : Option (List α × List α × List α) :=
  (l.dropInfix? s).bind fun (b, r) => (r.dropInfix? e).map fun (m, a) => (b, m, a)

end Search

/-! ## Blocks -/

/-- The sequence `l` has its first block between `b` and `a`, with `m` between the markers. -/
structure IsBlock (s e l b m a : List α) : Prop where
  eq : l = b ++ (s ++ m ++ e) ++ a
  before : ¬ s <:+: b
  inside : ¬ e <:+: m

section Blocks

variable {s e l b m a : List α}

theorem IsBlock.eq_append (h : IsBlock s e l b m a) : l = b ++ (s ++ (m ++ (e ++ a))) := by
  rw [h.eq]
  simp only [List.append_assoc]

theorem firstBlock_eq_some_iff [DecidableEq α] (hs : IsMarker s) (he : IsMarker e) :
    firstBlock s e l = some (b, m, a) ↔ IsBlock s e l b m a := by
  constructor
  · intro h
    obtain ⟨⟨b', r⟩, hstart, hend⟩ := Option.bind_eq_some_iff.mp h
    obtain ⟨⟨m', a'⟩, hsplit, heq⟩ := Option.map_eq_some_iff.mp hend
    cases heq
    obtain ⟨rfl, hbefore⟩ := hs.dropInfix?_eq_some_iff.mp hstart
    obtain ⟨rfl, hinside⟩ := he.dropInfix?_eq_some_iff.mp hsplit
    exact ⟨by simp only [List.append_assoc], hbefore, hinside⟩
  · intro h
    have hstart := hs.dropInfix?_eq_some_iff.mpr ⟨h.eq_append, h.before⟩
    have hend := (he.dropInfix?_eq_some_iff (l := m ++ (e ++ a))).mpr ⟨rfl, h.inside⟩
    exact Option.bind_eq_some_iff.mpr
      ⟨(b, m ++ (e ++ a)), hstart, Option.map_eq_some_iff.mpr ⟨(m, a), hend, rfl⟩⟩

/-- A sequence has one first block. -/
theorem IsBlock.unique (hs : IsMarker s) (he : IsMarker e) (h : IsBlock s e l b m a)
    {b' m' a' : List α} (h' : IsBlock s e l b' m' a') : b = b' ∧ m = m' ∧ a = a' := by
  obtain ⟨rfl, hrest⟩ := hs.first_unique (h.eq_append ▸ h'.eq_append) h.before h'.before
  obtain ⟨rfl, rfl⟩ := he.first_unique hrest h.inside h'.inside
  exact ⟨rfl, rfl, rfl⟩

end Blocks

/-! ## Words that are carried over -/

/-- The function takes a sequence apart at the word `p` as it takes its value apart at `q`. -/
structure Carries (f : List α → List β) (p : List α) (q : List β) : Prop where
  append : ∀ x y, f (x ++ (p ++ y)) = f x ++ (q ++ f y)
  split : ∀ {x u v}, f x = u ++ (q ++ v) → ∃ y z, x = y ++ (p ++ z) ∧ f y = u ∧ f z = v

section Carries

variable {f : List α → List β} {p p' : List α} {q q' : List β}

/-- Words are carried over in a row by a function that keeps the empty sequence apart. -/
theorem Carries.append_append (hf : ∀ x, f x = [] ↔ x = []) (h : Carries f p q)
    (h' : Carries f p' q') : Carries f (p ++ p') (q ++ q') where
  append x y := by
    have hnil := h'.append [] y
    rw [(hf []).mpr rfl, List.nil_append, List.nil_append] at hnil
    rw [List.append_assoc, h.append, hnil, List.append_assoc]
  split {x u v} hx := by
    rw [List.append_assoc] at hx
    obtain ⟨y, z, rfl, hy, hz⟩ := h.split hx
    obtain ⟨w, t, rfl, hw, ht⟩ := h'.split (u := []) hz
    rw [(hf w).mp hw]
    exact ⟨y, t, by simp only [List.append_assoc, List.nil_append], hy, ht⟩

/-- A symbol is carried over when it is kept between two sequences and is nowhere made up. -/
theorem Carries.of_symbol {a : α} {c : β} (happend : ∀ x y, f (x ++ a :: y) = f x ++ c :: f y)
    (hmem : ∀ x, c ∈ f x → a ∈ x) : Carries f [a] [c] where
  append := happend
  split {x u v} hx := by
    induction hlength : x.length using Nat.strong_induction_on generalizing x u with
    | _ n ih =>
      subst hlength
      have ha : a ∈ x := hmem x (hx ▸ List.mem_append_right u List.mem_cons_self)
      obtain ⟨y, z, hyz, hy⟩ := List.eq_append_cons_of_mem ha
      -- The first `a` gives the first `c`; the one asked for is this one or a later one.
      have hfx : f y ++ c :: f z = u ++ c :: v := by rw [← happend, ← hyz, hx]; rfl
      rcases List.append_eq_append_iff.mp hfx with ⟨w, rfl, hw⟩ | ⟨w, hw, hv⟩
      · cases w with
        | nil =>
          rw [List.nil_append, List.cons.injEq] at hw
          exact ⟨y, z, hyz, (List.append_nil _).symm, hw.2⟩
        | cons d w =>
          rw [List.cons_append, List.cons.injEq] at hw
          obtain ⟨rfl, hz⟩ := hw
          obtain ⟨y', z', rfl, rfl, rfl⟩ := ih z.length (by rw [hyz]; simp; omega) hz rfl
          exact ⟨y ++ a :: y', z', by rw [hyz]; simp, happend y y', rfl⟩
      · cases w with
        | nil =>
          rw [List.nil_append, List.cons.injEq] at hv
          exact ⟨y, z, hyz, by rw [hw, List.append_nil], hv.2.symm⟩
        | cons d w =>
          rw [List.cons_append, List.cons.injEq] at hv
          have hc : c ∈ f y := by
            rw [hw, hv.1]
            exact List.mem_append_right u List.mem_cons_self
          exact absurd (hmem y hc) hy

/-- The words that stand for the symbols of a text are carried over in a row. -/
theorem Carries.flatMap {σ : Type} {t : List σ} {w : σ → List α} {w' : σ → List β}
    (hf : ∀ x, f x = [] ↔ x = []) (ht : t ≠ []) (h : ∀ c ∈ t, Carries f (w c) (w' c)) :
    Carries f (t.flatMap w) (t.flatMap w') := by
  induction t with
  | nil => exact absurd rfl ht
  | cons c t ih =>
    obtain ⟨hc, htail⟩ := List.forall_mem_cons.mp h
    rw [List.flatMap_cons, List.flatMap_cons]
    by_cases hnil : t = []
    · rw [hnil, List.flatMap_nil, List.flatMap_nil, List.append_nil, List.append_nil]
      exact hc
    · exact hc.append_append hf (ih hnil htail)

theorem Carries.comp {g : List β → List γ} {r : List γ} (h : Carries f p q)
    (h' : Carries g q r) : Carries (g ∘ f) p r where
  append x y := by rw [Function.comp, h.append, h'.append]; rfl
  split {x u v} hx := by
    obtain ⟨y, z, hfx, rfl, rfl⟩ := h'.split hx
    obtain ⟨y', z', rfl, rfl, rfl⟩ := h.split hfx
    exact ⟨y', z', rfl, rfl, rfl⟩

/-- A word that occurs in the value occurred before. -/
theorem Carries.occurs (h : Carries f p q) {x : List α} (hx : q <:+: f x) : p <:+: x := by
  obtain ⟨u, v, huv⟩ := hx
  obtain ⟨y, z, rfl, _, _⟩ := h.split (u := u) (v := v) (by rw [← huv, List.append_assoc])
  exact List.infix_append' y p z

variable {s e : List α} {s' e' : List β}

/-- What lies between two words is carried over between them. -/
theorem Carries.enclosed (hf : ∀ x, f x = [] ↔ x = []) (hs : Carries f s s')
    (he : Carries f e e') (m : List α) : f (s ++ m ++ e) = s' ++ f m ++ e' := by
  have hstart := hs.append [] (m ++ e)
  have hend := he.append m []
  rw [(hf []).mpr rfl, List.append_nil, List.append_nil] at hend
  rw [(hf []).mpr rfl, List.nil_append, List.nil_append] at hstart
  rw [List.append_assoc, hstart, hend, List.append_assoc]

/-- A part between two words is carried over apart from what surrounds it. -/
theorem Carries.surrounded (hf : ∀ x, f x = [] ↔ x = []) (hs : Carries f s s')
    (he : Carries f e e') (b m a : List α) :
    f (b ++ (s ++ m ++ e) ++ a) = f b ++ f (s ++ m ++ e) ++ f a := by
  have hstart := hs.append b (m ++ (e ++ a))
  rw [he.append] at hstart
  rw [hs.enclosed hf he]
  simpa only [List.append_assoc] using hstart

/-- The words around a value stood around what it was made from. -/
theorem Carries.of_enclosed (hf : ∀ x, f x = [] ↔ x = []) (hs : Carries f s s')
    (he : Carries f e e') {x : List α} {n : List β} (hx : f x = s' ++ n ++ e') :
    ∃ m, x = s ++ m ++ e ∧ f m = n := by
  obtain ⟨y, z, rfl, hy, hz⟩ := hs.split (u := []) (v := n ++ e') (by rw [hx]; simp)
  obtain ⟨m, t, rfl, hm, ht⟩ := he.split (u := n) (v := []) (by rw [hz, List.append_nil])
  rw [(hf y).mp hy, (hf t).mp ht]
  exact ⟨m, by simp, hm⟩

/-- What comes before an occurrence of the word is told by its value. -/
theorem Carries.eq_of_append_eq (hf : ∀ x, f x = [] ↔ x = []) (he : Carries f e e')
    {x x' y y' : List α} (h : x ++ (e ++ y) = x' ++ (e ++ y')) (hx : f x = f x') :
    x = x' ∧ y = y' := by
  have hpre : ∀ {x x' : List α}, f x = f x' → x ++ e <+: x' ++ e → x ++ e = x' ++ e := by
    intro x x' hx hle
    obtain ⟨z, hz⟩ := hle
    have hend := he.append x' []
    rw [(hf []).mpr rfl, List.append_nil, List.append_nil, ← hz, List.append_assoc, he.append,
      hx, List.append_cancel_left_eq, List.append_right_eq_self] at hend
    rw [← hz, (hf z).mp hend, List.append_nil]
  have hword : x ++ e = x' ++ e := by
    rw [← List.append_assoc, ← List.append_assoc] at h
    rcases List.prefix_or_prefix_of_prefix (List.prefix_append (x ++ e) y)
      (h ▸ List.prefix_append (x' ++ e) y') with hle | hle
    · exact hpre hx hle
    · exact (hpre hx.symm hle).symm
  obtain rfl : x = x' := List.append_cancel_right hword
  rw [List.append_cancel_left_eq, List.append_cancel_left_eq] at h
  exact ⟨rfl, h⟩

/-- Blocks are carried over. -/
theorem IsBlock.carry (hf : ∀ x, f x = [] ↔ x = []) (hs : Carries f s s') (he : Carries f e e')
    {l b m a : List α} (h : IsBlock s e l b m a) : IsBlock s' e' (f l) (f b) (f m) (f a) where
  eq := by rw [h.eq, hs.surrounded hf he, hs.enclosed hf he]
  before hin := h.before (hs.occurs hin)
  inside hin := h.inside (he.occurs hin)

end Carries

end Sequences
