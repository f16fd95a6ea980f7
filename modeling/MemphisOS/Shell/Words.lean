import Mathlib

/-!
# The words of the shell

How the POSIX shell takes a text apart into words and operators. Of a word it is kept which
characters are quoted, and where something is expanded. Texts are without redirections and command
substitution.
-/

namespace Shell

/-- A part of a word. -/
inductive Piece where
  | plain (c : Char)
  | quoted (c : Char)
  /-- A dollar sign, by which an expansion may begin. -/
  | dollar
  deriving DecidableEq

abbrev Word := List Piece

inductive Token where
  | word (word : Word)
  | operator (c : Char)
  deriving DecidableEq

/-- What is open: double quotes, or the braces of an expansion. -/
inductive Context where
  | double
  | brace
  deriving DecidableEq

/-- How the next character is read. -/
inductive Mode where
  | plain
  /-- After a dollar sign. -/
  | dollar
  /-- After a backslash. -/
  | escaped
  /-- Within single quotes. -/
  | single
  | comment
  deriving DecidableEq

structure Scanner where
  tokens : List Token := []
  /-- The word that is read, if one has begun. -/
  word : Option Word := none
  /-- What is open, the innermost first. -/
  contexts : List Context := []
  mode : Mode := .plain
  deriving DecidableEq

def isBlank (c : Char) : Bool := c = ' ' || c = '\t'

/-- The characters that are operators where they are not quoted. -/
def isOperator (c : Char) : Bool := c ∈ ['\n', '&', ';', '|', '(', ')']

namespace Scanner

variable (self : Scanner)

/-- The word goes on. -/
def push (piece : Piece) : Scanner :=
  { self with word := some (self.word.getD [] ++ [piece]), mode := .plain }

/-- A word begins, if none has. -/
def opened : Scanner := { self with word := some (self.word.getD []), mode := .plain }

/-- The word ends, if one has begun. -/
def ended : Scanner :=
  match self.word with
  | some word => { self with tokens := self.tokens ++ [.word word], word := none }
  | none => self

/-- A character that no backslash, dollar sign, single quote or comment precedes. -/
def readPlain (c : Char) : Scanner :=
  if c = '\\' then { self with mode := .escaped }
  else if c = '$' then { self.push .dollar with mode := .dollar }
  else if c = '"' then
    match self.contexts with
    | .double :: contexts => { self.opened with contexts }
    | contexts => { self.opened with contexts := .double :: contexts }
  else if c = '\'' ∧ .double ∉ self.contexts then { self.opened with mode := .single }
  else
    match self.contexts with
    | .brace :: contexts =>
      if c = '}' then { self.push (.plain c) with contexts } else self.push (.quoted c)
    | .double :: _ => self.push (.quoted c)
    | [] =>
      if isBlank c then { self.ended with mode := .plain }
      else if isOperator c then
        { self.ended with tokens := self.ended.tokens ++ [.operator c], mode := .plain }
      else if c = '#' ∧ self.word = none then { self with mode := .comment }
      else self.push (.plain c)

/-- Within double quotes a backslash quotes only some characters. A line break after a backslash
goes with it. -/
def readEscaped (c : Char) : Scanner :=
  if c = '\n' then { self with mode := .plain }
  else if self.contexts.head? = some .double ∧ c ∉ ['$', '"', '\\', Char.ofNat 0x60] then
    (self.push (.quoted '\\')).push (.quoted c)
  else self.push (.quoted c)

def next (c : Char) : Scanner :=
  match self.mode with
  | .plain => self.readPlain c
  | .dollar =>
    if c = '{' then { self.push (.plain c) with contexts := .brace :: self.contexts }
    else { self with mode := .plain }.readPlain c
  | .escaped => self.readEscaped c
  | .single =>
    if c = '\'' then { self with mode := .plain }
    else { self.push (.quoted c) with mode := .single }
  | .comment => if c = '\n' then { self with mode := .plain }.readPlain c else self

/-- All that was read, at the end of a text. A backslash there is one of the word. -/
def read : List Token :=
  if self.mode = .escaped then (self.push (.quoted '\\')).ended.tokens else self.ended.tokens

/-- Nothing is open. -/
def isComplete : Bool := self.contexts = [] ∧ self.mode ≠ .single

end Scanner

def scan (text : List Char) : Scanner := text.foldl Scanner.next {}

/-- The tokens of a text, if no quotes and braces are open at its end. -/
def tokens? (text : List Char) : Option (List Token) :=
  if (scan text).isComplete then some (scan text).read else none

/-! ## What is read stays read -/

namespace Scanner

variable {self : Scanner} {c : Char}

/-- More tokens, of the word that was read or of an operator. -/
def Extends (self after : Scanner) (c : Char) : Prop :=
  ∃ extra, after.tokens = self.tokens ++ extra ∧
    ∀ o, .operator o ∈ extra → o = c ∧ isOperator c = true

theorem extends_of_eq {after : Scanner} (h : after.tokens = self.tokens) :
    self.Extends after c :=
  ⟨[], h.trans (List.append_nil _).symm, fun _ hmem => absurd hmem List.not_mem_nil⟩

theorem ended_tokens (self : Scanner) : ∃ extra, self.ended.tokens = self.tokens ++ extra ∧
    ∀ o, .operator o ∉ extra := by
  rw [ended]
  cases self.word with
  | none => exact ⟨[], (List.append_nil _).symm, fun _ => List.not_mem_nil⟩
  | some word =>
    refine ⟨[.word word], rfl, fun o hmem => ?_⟩
    cases List.mem_singleton.mp hmem

theorem extends_readPlain (self : Scanner) (c : Char) : self.Extends (self.readPlain c) c := by
  obtain ⟨extra, hended, hwords⟩ := self.ended_tokens
  rw [readPlain]
  split
  · exact extends_of_eq rfl
  split
  · exact extends_of_eq rfl
  split
  · split
    all_goals exact extends_of_eq rfl
  split
  · exact extends_of_eq rfl
  split
  · split
    all_goals exact extends_of_eq rfl
  · exact extends_of_eq rfl
  · split
    · exact ⟨extra, hended, fun o hmem => absurd hmem (hwords o)⟩
    split
    · next hoperator =>
      refine ⟨extra ++ [.operator c], ?_, fun o hmem => ?_⟩
      · dsimp only
        rw [hended, List.append_assoc]
      · rcases List.mem_append.mp hmem with hmem | hmem
        · exact absurd hmem (hwords o)
        · exact ⟨Token.operator.inj (List.mem_singleton.mp hmem), hoperator⟩
    split
    all_goals exact extends_of_eq rfl

/-- A character adds tokens, and no operator but itself. -/
theorem extends_next (self : Scanner) (c : Char) : self.Extends (self.next c) c := by
  rw [next]
  split
  · exact extends_readPlain self c
  · split
    · exact extends_of_eq rfl
    · exact extends_readPlain { self with mode := .plain } c
  · rw [readEscaped]
    split
    · exact extends_of_eq rfl
    split
    all_goals exact extends_of_eq rfl
  · split
    all_goals exact extends_of_eq rfl
  · split
    · exact extends_readPlain { self with mode := .plain } c
    · exact extends_of_eq rfl

/-- A text adds tokens, and no operators but its characters. -/
theorem foldl_tokens (self : Scanner) (text : List Char) :
    ∃ extra, (text.foldl next self).tokens = self.tokens ++ extra ∧
      ∀ o, .operator o ∈ extra → o ∈ text ∧ isOperator o = true := by
  induction text generalizing self with
  | nil => exact ⟨[], (List.append_nil _).symm, fun _ hmem => absurd hmem List.not_mem_nil⟩
  | cons c text ih =>
    obtain ⟨first, hfirst, hc⟩ := self.extends_next c
    obtain ⟨rest, hrest, htext⟩ := ih (self.next c)
    refine ⟨first ++ rest, ?_, fun o hmem => ?_⟩
    · rw [List.foldl_cons, hrest, hfirst, List.append_assoc]
    · rcases List.mem_append.mp hmem with hmem | hmem
      · obtain ⟨rfl, hoperator⟩ := hc o hmem
        exact ⟨List.mem_cons_self, hoperator⟩
      · exact ⟨List.mem_cons_of_mem _ (htext o hmem).1, (htext o hmem).2⟩

/-- At the end of a text the last word is added. -/
theorem read_eq (self : Scanner) : ∃ extra, self.read = self.tokens ++ extra ∧
    ∀ o, .operator o ∉ extra := by
  rw [read]
  split
  · exact (self.push (.quoted '\\')).ended_tokens
  · exact self.ended_tokens

end Scanner

theorem scan_append (front back : List Char) :
    scan (front ++ back) = back.foldl Scanner.next (scan front) := List.foldl_append

/-- What is read up to an operator is read first of a longer text as well. -/
theorem read_append {front back : List Char} {o : Char}
    (h : (scan front).read.getLast? = some (.operator o)) :
    (scan front).read <+: (scan (front ++ back)).read := by
  obtain ⟨last, hread, hword⟩ := (scan front).read_eq
  have hlast : last = [] := by
    rcases List.eq_nil_or_concat last with hnil | ⟨init, token, rfl⟩
    · exact hnil
    · rw [hread, List.concat_eq_append, ← List.append_assoc, List.getLast?_concat] at h
      refine absurd ?_ (hword o)
      rw [← Option.some.inj h, List.concat_eq_append]
      exact List.mem_append_right _ List.mem_cons_self
  obtain ⟨extra, htokens, -⟩ := (scan front).foldl_tokens back
  obtain ⟨last', hread', -⟩ := (scan (front ++ back)).read_eq
  refine ⟨extra ++ last', ?_⟩
  rw [hread', scan_append, htokens, hread, hlast, List.append_nil, List.append_assoc]

/-! ## Names -/

end Shell
