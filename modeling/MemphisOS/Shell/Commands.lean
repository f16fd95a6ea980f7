import Mathlib
import MemphisOS.Shell.Words

/-!
# The commands of the shell

The grammar of commands over the tokens of a text, and the programs that may be started when the
text is run. What programs do and how they end is not known, so every part of a compound command may
be run; and what an expansion gives is not known, so it may give any words.
-/

namespace Shell

/-- A command: the words of a simple one, the parts of another, or a definition. -/
inductive Command where
  | simple (words : List Word)
  | compound (parts : List Command)
  | function (name : Word) (body : Command)

/-- A word of plain characters. -/
def plainWord (name : List Char) : Word := name.map .plain

def reservedWords : List (List Char) :=
  ["!", "\x7b", "\x7d", "case", "do", "done", "elif", "else", "esac", "fi", "for", "if", "in",
    "then", "until", "while"].map String.toList

/-- A reserved word. -/
def keyword (name : String) : Token := .word (plainWord name.toList)

abbrev lineBreak : Token := .operator '\n'

/-- `linebreak` of the grammar. -/
def LineBreaks (tokens : List Token) : Prop := ∀ token ∈ tokens, token = lineBreak

/-- The operators between commands. -/
def connectors : List (List Token) :=
  [[.operator ';'], [.operator '&'], [lineBreak], [.operator '|'], [.operator '&', .operator '&'],
    [.operator '|', .operator '|']]

/-! ## The grammar -/

/-- The words of a simple command. The first one is not reserved. -/
def IsSimple (words : List Word) : Prop :=
  words ≠ [] ∧ ∀ name ∈ reservedWords, words.head? ≠ some (plainWord name)

/-- The end of a list of commands or words, with or without a separator. -/
def Ending (separators : List Char) (tokens : List Token) : Prop :=
  LineBreaks tokens ∨
    ∃ o ∈ separators, ∃ breaks, tokens = .operator o :: breaks ∧ LineBreaks breaks

/-- What a variable runs through. -/
inductive IsHeader : List Token → Prop
  | arguments {ending : List Token} : Ending [';'] ending → IsHeader ending
  | words {breaks ending : List Token} {words : List Word} : LineBreaks breaks → ending ≠ [] →
      Ending [';'] ending → IsHeader (breaks ++ keyword "in" :: (words.map .word ++ ending))

mutual

/-- The tokens form a command. -/
inductive IsCommand : List Token → Command → Prop
  | simple {words : List Word} : IsSimple words → IsCommand (words.map .word) (.simple words)
  | negated {tokens : List Token} {command : Command} :
      IsCommand tokens command → IsCommand (keyword "!" :: tokens) (.compound [command])
  | compound {tokens : List Token} {parts : List Command} :
      IsCompound tokens parts → IsCommand tokens (.compound parts)
  | function {name : Word} {breaks tokens : List Token} {parts : List Command} :
      IsSimple [name] → LineBreaks breaks → IsCompound tokens parts →
      IsCommand (.word name :: .operator '(' :: .operator ')' :: (breaks ++ tokens))
        (.function name (.compound parts))

/-- The tokens form a compound command with some parts. -/
inductive IsCompound : List Token → List Command → Prop
  | subshell {body : List Token} {parts : List Command} : IsList body parts →
      IsCompound (.operator '(' :: (body ++ [.operator ')'])) parts
  | group {body : List Token} {parts : List Command} : IsList body parts →
      IsCompound (keyword "\x7b" :: (body ++ [keyword "\x7d"])) parts
  | conditional {condition body elifs : List Token} {conditions parts others : List Command} :
      IsList condition conditions → IsList body parts → IsElifs elifs others →
      IsCompound (keyword "if" ::
        (condition ++ keyword "then" :: (body ++ elifs ++ [keyword "fi"])))
        (conditions ++ parts ++ others)
  | conditionalElse {condition body elifs last : List Token}
      {conditions parts others lasts : List Command} :
      IsList condition conditions → IsList body parts → IsElifs elifs others → IsList last lasts →
      IsCompound (keyword "if" :: (condition ++ keyword "then" ::
        (body ++ elifs ++ keyword "else" :: (last ++ [keyword "fi"]))))
        (conditions ++ parts ++ others ++ lasts)
  | loop {kind : String} {condition body : List Token} {conditions parts : List Command} :
      kind = "while" ∨ kind = "until" → IsList condition conditions → IsList body parts →
      IsCompound (keyword kind :: (condition ++ keyword "do" :: (body ++ [keyword "done"])))
        (conditions ++ parts)
  | forAll {name : Word} {header body : List Token} {parts : List Command} :
      IsHeader header → IsList body parts →
      IsCompound (keyword "for" :: .word name :: (header ++ keyword "do" ::
        (body ++ [keyword "done"]))) parts
  | cases {word : Word} {breaks breaks' items : List Token} {parts : List Command} :
      LineBreaks breaks → LineBreaks breaks' → IsItems items parts →
      IsCompound (keyword "case" :: .word word :: (breaks ++ keyword "in" ::
        (breaks' ++ items ++ [keyword "esac"]))) parts

/-- The further branches of a conditional command. -/
inductive IsElifs : List Token → List Command → Prop
  | nil : IsElifs [] []
  | cons {condition body elifs : List Token} {conditions parts others : List Command} :
      IsList condition conditions → IsList body parts → IsElifs elifs others →
      IsElifs (keyword "elif" :: (condition ++ keyword "then" :: (body ++ elifs)))
        (conditions ++ parts ++ others)

/-- The branches of a case command. The last one need not be ended. -/
inductive IsItems : List Token → List Command → Prop
  | nil : IsItems [] []
  | last {paren : List Token} {patterns : List Word} {body : List Token} {parts : List Command} :
      paren = [] ∨ paren = [.operator '('] → patterns ≠ [] → IsBranch body parts →
      IsItems (paren ++ (patterns.map Token.word).intersperse (.operator '|') ++
        .operator ')' :: body) parts
  | cons {paren : List Token} {patterns : List Word} {body breaks items : List Token}
      {parts others : List Command} : paren = [] ∨ paren = [.operator '('] → patterns ≠ [] →
      IsBranch body parts → LineBreaks breaks → IsItems items others →
      IsItems (paren ++ (patterns.map Token.word).intersperse (.operator '|') ++
        .operator ')' :: (body ++ .operator ';' :: .operator ';' :: (breaks ++ items)))
        (parts ++ others)

/-- A branch, which may be empty. -/
inductive IsBranch : List Token → List Command → Prop
  | empty {breaks : List Token} : LineBreaks breaks → IsBranch breaks []
  | list {body : List Token} {parts : List Command} : IsList body parts → IsBranch body parts

/-- The tokens form some commands one after another. -/
inductive IsList : List Token → List Command → Prop
  | last {breaks tokens ending : List Token} {command : Command} :
      LineBreaks breaks → IsCommand tokens command → Ending [';', '&'] ending →
      IsList (breaks ++ tokens ++ ending) [command]
  | cons {breaks tokens connector rest : List Token} {command : Command}
      {commands : List Command} : LineBreaks breaks → IsCommand tokens command →
      connector ∈ connectors → IsList rest commands →
      IsList (breaks ++ tokens ++ connector ++ rest) (command :: commands)

end

/-- The tokens of a whole text: some commands, or none. -/
def IsProgram (tokens : List Token) (commands : List Command) : Prop :=
  IsList tokens commands ∨ LineBreaks tokens ∧ commands = []

/-! ## What is started -/

/-- A program that is started: found by its name on the search path, or at a path. -/
inductive Program where
  | onPath (name : List Char)
  | atPath (path : List Char)
  deriving DecidableEq

/-- The character a part of a word stands for, if nothing is expanded there. -/
def Piece.char? : Piece → Option Char
  | .plain c => if c ∈ ['*', '?', '['] then none else some c
  | .quoted c => some c
  | .dollar => none

/-- The text of a word in which nothing is expanded. -/
def Word.literal? (word : Word) : Option (List Char) :=
  if word.head? = some (.plain '~') then none else word.mapM Piece.char?

def isNameStart (piece : Piece) : Bool :=
  match piece with
  | .plain c => c.isAlpha || c = '_'
  | _ => false

def isNamePart (piece : Piece) : Bool :=
  match piece with
  | .plain c => c.isAlphanum || c = '_'
  | _ => false

/-- A word that assigns a variable before the name of a command. -/
def isAssignment (word : Word) : Bool :=
  word.head?.any isNameStart && (word.dropWhile isNamePart).head? = some (.plain '=')

/-- The words that some words give. An expansion may give any. -/
inductive Expands : List Word → List (List Char) → Prop
  | nil : Expands [] []
  | literal {word : Word} {text : List Char} {words : List Word} {fields : List (List Char)} :
      Word.literal? word = some text → Expands words fields →
      Expands (word :: words) (text :: fields)
  | expanded {word : Word} {words : List Word} {new fields : List (List Char)} :
      Word.literal? word = none → Expands words fields → Expands (word :: words) (new ++ fields)

/-- The utilities within the shell that run other commands. -/
def runners : List (List Char) :=
  [".", "command", "eval", "exec", "fc", "trap"].map String.toList

/-- A command is part of another one. -/
inductive Occurs (command : Command) : Command → Prop
  | self : Occurs command command
  | part {part : Command} {parts : List Command} : part ∈ parts → Occurs command part →
      Occurs command (.compound parts)
  | body {name : Word} {body : Command} : Occurs command body → Occurs command (.function name body)

/-- Running a command of a program may start a program. -/
inductive Starts (commands : List Command) : Command → Program → Prop
  | found {words : List Word} {name : List Char} {arguments : List (List Char)} :
      Expands (words.dropWhile isAssignment) (name :: arguments) → name ≠ [] → '/' ∉ name →
      Starts commands (.simple words) (.onPath name)
  | path {words : List Word} {name : List Char} {arguments : List (List Char)} :
      Expands (words.dropWhile isAssignment) (name :: arguments) → '/' ∈ name →
      Starts commands (.simple words) (.atPath name)
  | runner {words : List Word} {name : List Char} {arguments : List (List Char)}
      {program : Program} :
      Expands (words.dropWhile isAssignment) (name :: arguments) → name ∈ runners →
      Starts commands (.simple words) program
  | call {words : List Word} {name : Word} {body command : Command} {program : Program} :
      command ∈ commands → Occurs (.function name body) command → Starts commands body program →
      Starts commands (.simple words) program
  | part {part : Command} {parts : List Command} {program : Program} : part ∈ parts →
      Starts commands part program → Starts commands (.compound parts) program

/-- Running a text may start a program. A text is run line by line as far as its lines form
commands. -/
def MayStart (text : List Char) (program : Program) : Prop :=
  ∃ front back tokens commands, text = front ++ back ∧ tokens? front = some tokens ∧
    (back = [] ∨ tokens.getLast? = some lineBreak) ∧ IsProgram tokens commands ∧
    ∃ command ∈ commands, Starts commands command program

/-! ## One command -/

section OneCommand

variable {tokens : List Token} {command : Command} {commands : List Command} {name : List Char}

/-- A compound command begins with a parenthesis or a reserved word. -/
theorem IsCompound.head {parts : List Command} (h : IsCompound tokens parts) :
    tokens.head? = some (.operator '(') ∨
      ∃ kind : String, kind.toList ∈ reservedWords ∧ tokens.head? = some (keyword kind) := by
  cases h with
  | subshell => exact .inl rfl
  | group => exact .inr ⟨"\x7b", by decide, rfl⟩
  | conditional => exact .inr ⟨"if", by decide, rfl⟩
  | conditionalElse => exact .inr ⟨"if", by decide, rfl⟩
  | loop hkind =>
    rcases hkind with rfl | rfl
    · exact .inr ⟨"while", by decide, rfl⟩
    · exact .inr ⟨"until", by decide, rfl⟩
  | forAll => exact .inr ⟨"for", by decide, rfl⟩
  | cases => exact .inr ⟨"case", by decide, rfl⟩

/-- A command begins with a word or a parenthesis. -/
theorem IsCommand.head (h : IsCommand tokens command) :
    ∃ token, tokens.head? = some token ∧ ∀ o, token = .operator o → o = '(' := by
  cases h with
  | @simple words hsimple =>
    obtain ⟨word, words, rfl⟩ := List.exists_cons_of_ne_nil hsimple.1
    exact ⟨.word word, rfl, fun o ho => by cases ho⟩
  | negated => exact ⟨_, rfl, fun o ho => by cases ho⟩
  | compound hcompound =>
    rcases hcompound.head with hhead | ⟨kind, -, hhead⟩
    · exact ⟨_, hhead, fun o ho => (Token.operator.inj ho).symm⟩
    · exact ⟨_, hhead, fun o ho => by cases ho⟩
  | function => exact ⟨_, rfl, fun o ho => by cases ho⟩

/-- One command with a name: words and parentheses, line breaks before it, and line breaks and
ampersands after it. -/
def OneCommand (name : List Char) (tokens : List Token) : Prop :=
  ∃ lead rest tail, tokens = lead ++ (.word (plainWord name) :: rest ++ tail) ∧ LineBreaks lead ∧
    (∀ o, .operator o ∈ rest → o = '(' ∨ o = ')') ∧
    ∀ token ∈ tail, token = lineBreak ∨ token = .operator '&'

/-- What is read of one command up to a line break: all of it, or only line breaks. -/
theorem OneCommand.of_prefix {first : List Token} (hone : OneCommand name tokens)
    (hinitial : first <+: tokens) (hlast : first.getLast? = some lineBreak) :
    OneCommand name first ∨ LineBreaks first := by
  obtain ⟨lead, rest, tail, rfl, hlead, hrest, htail⟩ := hone
  obtain ⟨later, heq⟩ := hinitial
  rcases List.append_eq_append_iff.mp heq with ⟨middle, rfl, -⟩ | ⟨middle, rfl, hmiddle⟩
  · exact .inr fun token hmem => hlead token (List.mem_append_left _ hmem)
  cases middle with
  | nil =>
    rw [List.append_nil]
    exact .inr hlead
  | cons token middle =>
    have hlast' : (token :: middle).getLast? = some lineBreak := by
      rwa [List.getLast?_append_of_ne_nil _ (List.cons_ne_nil _ _)] at hlast
    rcases List.append_eq_append_iff.mp hmiddle.symm with
      ⟨within, hwords, -⟩ | ⟨more, hcons, rfl⟩
    · -- No line break is among the words.
      have hin : lineBreak ∈ Token.word (plainWord name) :: rest := by
        rw [hwords]
        exact List.mem_append_left _ (List.mem_of_getLast? hlast')
      rcases List.mem_cons.mp hin with hword | hin
      · cases hword
      · exact (hrest '\n' hin).elim (fun h => absurd h (by decide)) fun h => absurd h (by decide)
    · rw [hcons]
      exact .inl ⟨lead, rest, more, rfl, hlead, hrest,
        fun token htoken => htail token (List.mem_append_left _ htoken)⟩

end OneCommand

/-! ## Starting a program -/

section Starting

variable {words : List Word}

end Starting

end Shell
