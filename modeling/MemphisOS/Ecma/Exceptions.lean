import MemphisOS.Ecma.Strings

/-!
# Computations that throw

A computation that may throw is an `Except`; the error is the message of the exception.
-/

namespace Ecma

variable {ε α β : Type}

/-- `if (!condition) throw new Error(message)`. -/
def check (condition : Bool) (message : String) : Except JsString Unit :=
  if condition then .ok () else .error (js message)

@[simp] theorem check_true (message : String) : check true message = .ok () := rfl

theorem check_eq_ok {condition : Bool} {message : String} {u : Unit} :
    check condition message = .ok u ↔ condition = true := by
  cases condition <;> simp [check]

/-- A sequence that does not throw has two parts that do not. -/
theorem bind_eq_ok {x : Except ε α} {f : α → Except ε β} {b : β} :
    x >>= f = .ok b ↔ ∃ a, x = .ok a ∧ f a = .ok b := by
  cases x with
  | error e => simp [bind, Except.bind]
  | ok a => simp [bind, Except.bind]

@[simp] theorem ok_bind (a : α) (f : α → Except ε β) : (Except.ok a >>= f) = f a := rfl

@[simp] theorem error_bind (e : ε) (f : α → Except ε β) : (Except.error e >>= f) = .error e := rfl

/-! ## Lists -/

/-- Results that all succeed are collected. -/
theorem mapM_map_ok {γ : Type} {e : α → β} {f : β → Except ε γ} {g : α → γ} {l : List α}
    (h : ∀ a ∈ l, f (e a) = .ok (g a)) : (l.map e).mapM f = .ok (l.map g) := by
  induction l with
  | nil => rfl
  | cons a l ih =>
    rw [List.map_cons, List.mapM_cons, h a (by simp), ih fun b hb => h b (by simp [hb])]
    rfl

/-- Collected results are results of the items. -/
theorem exists_of_mem_mapM_ok {f : α → Except ε β} {l : List α} {l' : List β} {b : β}
    (h : l.mapM f = .ok l') (hb : b ∈ l') : ∃ a ∈ l, f a = .ok b := by
  induction l generalizing l' with
  | nil =>
    cases h
    cases hb
  | cons a l ih =>
    rw [List.mapM_cons] at h
    obtain ⟨c, hc, h⟩ := bind_eq_ok.mp h
    obtain ⟨cs, hcs, h⟩ := bind_eq_ok.mp h
    cases h
    rcases List.mem_cons.mp hb with rfl | hb
    · exact ⟨a, by simp, hc⟩
    · obtain ⟨a', ha', hfa'⟩ := ih hcs hb
      exact ⟨a', by simp [ha'], hfa'⟩

theorem length_of_mapM_ok {f : α → Except ε β} {l : List α} {l' : List β}
    (h : l.mapM f = .ok l') : l'.length = l.length := by
  induction l generalizing l' with
  | nil =>
    cases h
    rfl
  | cons a l ih =>
    rw [List.mapM_cons] at h
    obtain ⟨c, -, h⟩ := bind_eq_ok.mp h
    obtain ⟨cs, hcs, h⟩ := bind_eq_ok.mp h
    cases h
    rw [List.length_cons, List.length_cons, ih hcs]

/-- Every item has a collected result. -/
theorem exists_mem_of_mapM_ok {f : α → Except ε β} {l : List α} {l' : List β} {a : α}
    (h : l.mapM f = .ok l') (ha : a ∈ l) : ∃ b ∈ l', f a = .ok b := by
  induction l generalizing l' with
  | nil => cases ha
  | cons c l ih =>
    rw [List.mapM_cons] at h
    obtain ⟨b, hb, h⟩ := bind_eq_ok.mp h
    obtain ⟨bs, hbs, h⟩ := bind_eq_ok.mp h
    cases h
    rcases List.mem_cons.mp ha with rfl | ha
    · exact ⟨b, by simp, hb⟩
    · obtain ⟨b', hb', hfa⟩ := ih hbs ha
      exact ⟨b', by simp [hb'], hfa⟩

end Ecma
