import Mathlib.Tactic.Common

/-!
# Programs over a database

A program runs SQL statements one after another. A fault counter makes one chosen
statement fail without effect. A transaction that fails, or whose commit fails, leaves
the database as it found it.
-/

namespace Sql

variable {Db Err α β : Type}

/-- A database and the number of statements that still succeed before one fails. -/
structure Session (Db : Type) where
  db : Db
  fault : Option ℕ

/-- A program that returns or throws, and the session it leaves. -/
structure Program (Db Err α : Type) where
  run : Session Db → Except Err α × Session Db

namespace Program

instance : Monad (Program Db Err) where
  pure a := ⟨fun s => (.ok a, s)⟩
  bind x f := ⟨fun s =>
    match x.run s with
    | (.ok a, s) => (f a).run s
    | (.error e, s) => (.error e, s)⟩

/-- Throw. -/
def throw (e : Err) : Program Db Err α := ⟨fun s => (.error e, s)⟩

/-- The value of a computation that does not touch the database. -/
def ofExcept : Except Err α → Program Db Err α
  | .ok a => pure a
  | .error e => throw e

/-- One statement: it fails when the fault counter has run down or when a constraint
refuses it, and then changes nothing. -/
def statement (failure : Err) (effect : Db → Option (α × Db)) : Program Db Err α := ⟨fun s =>
  match s.fault with
  | some 0 => (.error failure, { s with fault := none })
  | fault =>
    match effect s.db with
    | some (a, db) => (.ok a, ⟨db, fault.map (· - 1)⟩)
    | none => (.error failure, ⟨s.db, fault.map (· - 1)⟩)⟩

/-- A statement that reads. -/
def query (failure : Err) (read : Db → α) : Program Db Err α :=
  statement failure fun db => some (read db, db)

/-- `BEGIN`, the body and `COMMIT`. -/
def bracket (failure : Err) (body : Program Db Err α) : Program Db Err α := do
  query failure fun _ => ()
  let a ← body
  query failure fun _ => ()
  return a

/-- Run the body between `BEGIN` and `COMMIT`; roll back when one of them throws. -/
def transaction (failure : Err) (body : Program Db Err α) : Program Db Err α := ⟨fun s =>
  match (bracket failure body).run s with
  | (.ok a, t) => (.ok a, t)
  | (.error e, t) => (.error e, ⟨s.db, t.fault⟩)⟩

variable {program : Program Db Err α} {s t : Session Db} {a : α} {b : β} {e failure : Err}
  {db db' : Db}

/-! ## Runs -/

@[simp] theorem run_pure (a : α) (s : Session Db) :
    (pure a : Program Db Err α).run s = (.ok a, s) := rfl

@[simp] theorem run_throw (e : Err) (s : Session Db) :
    (throw e : Program Db Err α).run s = (.error e, s) := rfl

theorem run_bind (x : Program Db Err α) (f : α → Program Db Err β) (s : Session Db) :
    (x >>= f).run s = match x.run s with
      | (.ok a, s) => (f a).run s
      | (.error e, s) => (.error e, s) := rfl

@[simp] theorem run_ofExcept_ok (a : α) (s : Session Db) :
    (ofExcept (.ok a) : Program Db Err α).run s = (.ok a, s) := rfl

@[simp] theorem run_ofExcept_error (e : Err) (s : Session Db) :
    (ofExcept (.error e) : Program Db Err α).run s = (.error e, s) := rfl

theorem run_bind_of_ok {x : Program Db Err α} {f : α → Program Db Err β}
    (h : x.run s = (.ok a, t)) : (x >>= f).run s = (f a).run t := by
  rw [run_bind, h]

theorem run_bind_of_error {x : Program Db Err α} {f : α → Program Db Err β}
    (h : x.run s = (.error e, t)) : (x >>= f).run s = (.error e, t) := by
  rw [run_bind, h]

theorem run_bind_eq_ok {x : Program Db Err α} {f : α → Program Db Err β} :
    (x >>= f).run s = (.ok b, t) ↔ ∃ a s', x.run s = (.ok a, s') ∧ (f a).run s' = (.ok b, t) := by
  rw [run_bind]
  rcases x.run s with ⟨_ | _, _⟩ <;> simp

theorem run_bind_eq_error {x : Program Db Err α} {f : α → Program Db Err β} :
    (x >>= f).run s = (.error e, t) ↔ x.run s = (.error e, t) ∨
      ∃ a s', x.run s = (.ok a, s') ∧ (f a).run s' = (.error e, t) := by
  rw [run_bind]
  rcases x.run s with ⟨_ | _, _⟩ <;> simp

/-- A computation outside the database throws without touching it. -/
theorem run_bind_ofExcept_error {x : Except Err α} {f : α → Program Db Err β}
    (h : (ofExcept x >>= f).run s = (.error e, t)) :
    t.db = s.db ∨ ∃ a, x = .ok a ∧ (f a).run s = (.error e, t) := by
  cases x with
  | error e' =>
    rw [run_bind_of_error (run_ofExcept_error _ _)] at h
    exact .inl ((Prod.mk.inj h).2 ▸ rfl)
  | ok a => exact .inr ⟨a, rfl, by rwa [run_bind_of_ok (run_ofExcept_ok _ _)] at h⟩

/-- A statement that throws changes nothing, and it was chosen to fail or a constraint
refused it. -/
theorem run_statement_error {effect : Db → Option (α × Db)}
    (h : (statement failure effect).run s = (.error e, t)) :
    t.db = s.db ∧ (s.fault = some 0 ∨ effect s.db = none) := by
  simp only [statement] at h
  split at h
  · next hfault => exact ⟨(Prod.mk.inj h).2 ▸ rfl, .inl hfault⟩
  · split at h
    · cases (Prod.mk.inj h).1
    · next hnone => exact ⟨(Prod.mk.inj h).2 ▸ rfl, .inr hnone⟩

theorem run_query_error {read : Db → α} (h : (query failure read).run s = (.error e, t)) :
    t.db = s.db :=
  (run_statement_error h).1

/-- A statement that returns counts the fault down. -/
theorem run_statement_ok {effect : Db → Option (α × Db)}
    (h : (statement failure effect).run s = (.ok a, t)) :
    effect s.db = some (a, t.db) ∧ s.fault ≠ some 0 ∧ t.fault = s.fault.map (· - 1) := by
  simp only [statement] at h
  split at h
  · cases (Prod.mk.inj h).1
  · next hfault =>
    split at h
    · next heffect =>
      obtain ⟨ha, rfl⟩ := Prod.mk.inj h
      exact ⟨by rw [heffect, Except.ok.inj ha], hfault, rfl⟩
    · cases (Prod.mk.inj h).1

/-- **Atomicity.** A transaction that throws changes nothing. -/
theorem run_transaction_error {body : Program Db Err α}
    (h : (transaction failure body).run s = (.error e, t)) : t.db = s.db := by
  simp only [transaction] at h
  split at h
  · cases (Prod.mk.inj h).1
  · exact (Prod.mk.inj h).2 ▸ rfl

@[simp] theorem run_query (failure : Err) (read : Db → α) (db : Db) :
    (query failure read).run ⟨db, none⟩ = (.ok (read db), ⟨db, none⟩) := rfl

/-- A query changes nothing, whether it returns or fails. -/
theorem run_query_db (failure : Err) (read : Db → α) (s : Session Db) :
    ((query failure read).run s).2.db = s.db := by
  rcases hrun : (query failure read).run s with ⟨_ | a, t⟩
  · exact run_query_error hrun
  · have heffect := (run_statement_ok hrun).1
    exact (Prod.mk.inj (Option.some.inj heffect)).2.symm

/-- Reading after a program leaves the database as the program left it. -/
theorem run_bind_query_db {x : Program Db Err α} {read : α → Db → β} {γ : Type}
    {answer : α → β → γ} (s : Session Db) :
    ((x >>= fun a => query failure (read a) >>= fun b => pure (answer a b) :
      Program Db Err γ).run s).2.db = (x.run s).2.db := by
  rcases hrun : x.run s with ⟨_ | a, t⟩
  · rw [run_bind_of_error hrun]
  · rw [run_bind_of_ok hrun]
    have hdb := run_query_db failure (read a) t
    rcases hquery : (query failure (read a)).run t with ⟨_ | b, u⟩
    · rw [run_bind_of_error hquery]
      rwa [hquery] at hdb
    · rw [run_bind_of_ok hquery]
      rwa [hquery] at hdb

theorem run_statement_some {effect : Db → Option (α × Db)} (h : effect db = some (a, db'))
    (failure : Err) : (statement failure effect).run ⟨db, none⟩ = (.ok a, ⟨db', none⟩) := by
  simp [statement, h]

/-- Without a fault a transaction whose body returns is the body. -/
theorem run_transaction_of_ok {body : Program Db Err α}
    (h : body.run ⟨db, none⟩ = (.ok a, ⟨db', none⟩)) (failure : Err) :
    (transaction failure body).run ⟨db, none⟩ = (.ok a, ⟨db', none⟩) := by
  have hbracket : (bracket failure body).run ⟨db, none⟩ = (.ok a, ⟨db', none⟩) := by
    unfold bracket
    rw [run_bind_of_ok (run_query failure _ db), run_bind_of_ok h,
      run_bind_of_ok (run_query failure _ db'), run_pure]
  simp only [transaction, hbracket]

/-- Without a fault a transaction whose body throws is rolled back. -/
theorem run_transaction_of_error {body : Program Db Err α}
    (h : body.run ⟨db, none⟩ = (.error e, t)) (failure : Err) :
    (transaction failure body).run ⟨db, none⟩ = (.error e, ⟨db, t.fault⟩) := by
  have hbracket : (bracket failure body).run ⟨db, none⟩ = (.error e, t) := by
    unfold bracket
    rw [run_bind_of_ok (run_query failure _ db), run_bind_of_error h]
  simp only [transaction, hbracket]

/-! ## Normal returns -/

/-- The program can return `a` from the database `db` and leave `db'`. -/
def Yields (program : Program Db Err α) (db : Db) (a : α) (db' : Db) : Prop :=
  ∃ s t, s.db = db ∧ program.run s = (.ok a, t) ∧ t.db = db'

theorem Yields.of_run (h : program.run s = (.ok a, t)) : Yields program s.db a t.db :=
  ⟨s, t, rfl, h, rfl⟩

/-- A sequence returns through what its first part returns. -/
theorem Yields.bind {x : Program Db Err α} {f : α → Program Db Err β}
    (h : Yields (x >>= f) db b db') : ∃ a mid, Yields x db a mid ∧ Yields (f a) mid b db' := by
  obtain ⟨s, t, rfl, hrun, rfl⟩ := h
  obtain ⟨a, s', hx, hf⟩ := run_bind_eq_ok.mp hrun
  exact ⟨a, s'.db, .of_run hx, .of_run hf⟩

theorem Yields.pure {a' : α} (h : Yields (pure a' : Program Db Err α) db a db') :
    a = a' ∧ db' = db := by
  obtain ⟨s, t, rfl, hrun, rfl⟩ := h
  obtain ⟨ha, rfl⟩ := Prod.mk.inj hrun
  exact ⟨(Except.ok.inj ha).symm, rfl⟩

theorem Yields.throw (h : Yields (throw e : Program Db Err α) db a db') : False := by
  obtain ⟨s, t, rfl, hrun, rfl⟩ := h
  cases (Prod.mk.inj hrun).1

theorem Yields.ofExcept {x : Except Err α} (h : Yields (ofExcept x) db a db') :
    x = .ok a ∧ db' = db := by
  cases x with
  | error e => exact h.throw.elim
  | ok c =>
    obtain ⟨rfl, rfl⟩ := Yields.pure h
    exact ⟨rfl, rfl⟩

theorem Yields.bind_ofExcept {x : Except Err α} {f : α → Program Db Err β}
    (h : Yields (Program.ofExcept x >>= f) db b db') : ∃ a, x = .ok a ∧ Yields (f a) db b db' := by
  obtain ⟨a, mid, hx, hf⟩ := h.bind
  obtain ⟨hok, hmid⟩ := hx.ofExcept
  rw [hmid] at hf
  exact ⟨a, hok, hf⟩

/-- A statement returns what its effect says. -/
theorem Yields.statement {effect : Db → Option (α × Db)}
    (h : Yields (statement failure effect) db a db') : effect db = some (a, db') := by
  obtain ⟨s, t, rfl, hrun, rfl⟩ := h
  exact (run_statement_ok hrun).1

theorem Yields.query {read : Db → α} (h : Yields (query failure read) db a db') :
    a = read db ∧ db' = db := by
  obtain ⟨rfl, rfl⟩ := Prod.mk.inj (Option.some.inj h.statement)
  exact ⟨rfl, rfl⟩

/-- A transaction returns what its body returns. -/
theorem Yields.transaction {body : Program Db Err α}
    (h : Yields (transaction failure body) db a db') : Yields body db a db' := by
  obtain ⟨s, t, rfl, hrun, rfl⟩ := h
  simp only [Program.transaction] at hrun
  split at hrun
  · next a' t' hbracket =>
    obtain ⟨ha, rfl⟩ := Prod.mk.inj hrun
    obtain rfl := Except.ok.inj ha
    have hyields := Yields.of_run hbracket
    obtain ⟨_, mid, hbegin, hyields⟩ := hyields.bind
    obtain ⟨_, rfl⟩ := hbegin.query
    obtain ⟨b, mid, hyields, hcommit⟩ := hyields.bind
    obtain ⟨_, mid', hend, hreturn⟩ := hcommit.bind
    obtain ⟨_, rfl⟩ := hend.query
    obtain ⟨rfl, rfl⟩ := hreturn.pure
    exact hyields
  · cases (Prod.mk.inj hrun).1

end Program

end Sql
