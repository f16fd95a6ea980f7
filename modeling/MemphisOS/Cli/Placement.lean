import Mathlib.Data.List.Chain
import MemphisOS.Cli.Parser
import MemphisOS.Ecma.Documents

/-!
# Where boolean flags stand

A command line of positionals, boolean flags and options with their values, in every placement of
the boolean flags. A boolean flag takes the argument behind it for its value unless that is a flag
or empty, so it swallows a positional.
-/

namespace MemphisOS.Cli

open Ecma

/-- An argument that is no flag. -/
abbrev Word := { s : JsString // isFlag s = false }

/-- A field that takes a value. -/
inductive ValueField where
  | text (field : TextField)
  | number (field : NumberField)
  deriving DecidableEq

def ValueField.flag : ValueField → String
  | text field => field.flag
  | number field => field.flag

/-- What a command line is made of. -/
inductive Item where
  | positional (s : Word)
  | boolean (field : BooleanField)
  | option (field : ValueField) (value : Word)
  deriving DecidableEq

def Item.tokens : Item → List JsString
  | positional s => [s.1]
  | boolean field => [js field.flag]
  | option field value => [js field.flag, value.1]

def Item.isBoolean : Item → Bool
  | boolean _ => true
  | _ => false

/-- The arguments of a command line. -/
def tokens (items : List Item) : List JsString := items.flatMap Item.tokens

/-- The positionals of a command line. -/
def words (items : List Item) : List JsString :=
  items.filterMap fun
    | .positional s => some s.1
    | _ => none

/-- What is scanned and parsed of a command line. -/
def scanItems (items : List Item) : Scan := scanArgs (tokens items)

def parseItems (items : List Item) : CliArgs :=
  parseCommand ([js "node", js "memphis"] ++ tokens items)

/-- The other arguments stay as they are; the boolean flags may stand anywhere among them. -/
def Placement (items items' : List Item) : Prop :=
  items'.filter (!·.isBoolean) = items.filter (!·.isBoolean) ∧
    (items'.filter (·.isBoolean)).Perm (items.filter (·.isBoolean))

/-- The placement of the boolean flags does not matter. -/
structure PlacementFree (items : List Item) : Prop where
  same : ∀ items', Placement items items' → parseItems items' = parseItems items
  booleans : ∀ items', Placement items items' → ∀ field, .boolean field ∈ items →
    (parseItems items').booleans field = true
  kept : ∀ items', Placement items items' → (words items).Sublist (scanItems items').positionals

/-! ## Flags -/

def BooleanField.all : List BooleanField :=
  [json, tui, write, save, confirmWrite, tuned, interactive, nonInteractive, force, fix, deep,
    apply, dryRun, yes, schema, verbose, vision, functions, reset, list, clean, safeMode,
    strictMode]

/-- The field of a boolean flag. -/
def BooleanField.ofFlag (flag : String) : Option BooleanField :=
  BooleanField.all.find? fun field => field.flag = flag

theorem ofFlag_flag (field : BooleanField) : BooleanField.ofFlag field.flag = some field := by
  cases field <;> rfl

/-- No field that takes a value shares its flag with a boolean field. -/
theorem ofFlag_value (field : ValueField) : BooleanField.ofFlag field.flag = none := by
  cases field with
  | text field => cases field <;> rfl
  | number field => cases field <;> rfl

theorem flag_inj {field field' : BooleanField} (h : js field.flag = js field'.flag) :
    field = field' := by
  have hread := ofFlag_flag field
  rw [js_inj.mp h, ofFlag_flag] at hread
  exact (Option.some.inj hread).symm

theorem flag_ne (field : BooleanField) (field' : ValueField) :
    js field.flag ≠ js field'.flag := by
  intro h
  have hread := ofFlag_flag field
  rw [js_inj.mp h, ofFlag_value] at hread
  cases hread

theorem isFlag_boolean (field : BooleanField) : isFlag (js field.flag) = true := by
  cases field <;> rfl

theorem isFlag_value (field : ValueField) : isFlag (js field.flag) = true := by
  cases field with
  | text field => cases field <;> rfl
  | number field => cases field <;> rfl

/-! ## The scan of undisturbed items -/

variable {scan : Scan} {token next : JsString} {args rest : List JsString} {items : List Item}

/-- There is nothing to swallow. -/
def Quiet (args : List JsString) : Prop := ∀ t ∈ args.head?, t = [] ∨ isFlag t = true

theorem scanFrom_word (h : isFlag token = false) :
    scanFrom scan (token :: args) = scanFrom (scan.push token) args := by
  cases args with
  | nil => simp [scanFrom, h]
  | cons next args => simp [scanFrom, h]

theorem scanFrom_present (h : isFlag token = true) (hquiet : Quiet args) :
    scanFrom scan (token :: args) = scanFrom (scan.set token .present) args := by
  cases args with
  | nil => simp [scanFrom, h]
  | cons next args =>
    have hnext : next = [] ∨ isFlag next = true := hquiet next rfl
    rw [scanFrom, if_pos h, if_pos hnext]

theorem scanFrom_text (h : isFlag token = true) (hne : next ≠ []) (hnext : isFlag next = false) :
    scanFrom scan (token :: next :: args) = scanFrom (scan.set token (.text next)) args := by
  rw [scanFrom, if_pos h, if_neg (by simp [hne, hnext])]

/-- What an item adds when nothing is swallowed. An empty value is taken for a positional. -/
def Scan.record (scan : Scan) : Item → Scan
  | .positional s => scan.push s.1
  | .boolean field => scan.set (js field.flag) .present
  | .option field value =>
    if value.1 = [] then (scan.set (js field.flag) .present).push []
    else scan.set (js field.flag) (.text value.1)

/-- The first of two neighbours takes the second for its value. -/
def Swallows : Item → Item → Prop
  | .boolean _, .positional s => s.1 ≠ []
  | _, _ => False

theorem scanFrom_item (item : Item) (hquiet : item.isBoolean = true → Quiet rest) :
    scanFrom scan (item.tokens ++ rest) = scanFrom (scan.record item) rest := by
  cases item with
  | positional s => exact scanFrom_word s.2
  | boolean field => exact scanFrom_present (isFlag_boolean field) (hquiet rfl)
  | option field value =>
    show scanFrom scan (js field.flag :: value.1 :: rest) = _
    by_cases hvalue : value.1 = []
    · have hempty : Quiet (value.1 :: rest) := by
        intro t ht
        cases ht
        exact .inl hvalue
      rw [scanFrom_present (isFlag_value field) hempty, scanFrom_word value.2, Scan.record,
        if_pos hvalue, hvalue]
    · rw [scanFrom_text (isFlag_value field) hvalue value.2, Scan.record, if_neg hvalue]

theorem quiet_tokens {field : BooleanField} {item : Item}
    (h : ¬Swallows (.boolean field) item) : Quiet (item.tokens ++ rest) := by
  intro t ht
  cases item with
  | positional s =>
    cases ht
    exact .inl (not_not.mp h)
  | boolean field' =>
    cases ht
    exact .inr (isFlag_boolean field')
  | option field' value =>
    cases ht
    exact .inr (isFlag_value field')

/-- **The scan.** Items none of which swallows the next are recorded one by one. -/
theorem scanFrom_tokens (hchain : items.IsChain fun a b => ¬Swallows a b) (hquiet : Quiet rest)
    (scan : Scan) :
    scanFrom scan (tokens items ++ rest) = scanFrom (items.foldl Scan.record scan) rest := by
  induction items generalizing scan with
  | nil => rfl
  | cons item items ih =>
    rw [tokens, List.flatMap_cons, List.append_assoc, scanFrom_item, List.foldl_cons]
    · exact ih hchain.tail (scan.record item)
    · intro hboolean
      cases items with
      | nil => exact hquiet
      | cons item' items =>
        rw [List.flatMap_cons, List.append_assoc]
        cases item with
        | boolean field => exact quiet_tokens (List.isChain_cons_cons.mp hchain).1
        | positional s => cases hboolean
        | option field value => cases hboolean

theorem scanItems_eq (hchain : items.IsChain fun a b => ¬Swallows a b) :
    scanItems items = items.foldl Scan.record ⟨[], []⟩ := by
  have hquiet : Quiet [] := by
    intro t ht
    cases ht
  have hscan := scanFrom_tokens hchain hquiet ⟨[], []⟩
  rw [List.append_nil] at hscan
  exact hscan

/-! ## What is recorded -/

theorem lookup_set (token token' : JsString) (value : FlagValue) :
    (scan.set token value).flags.lookup token' =
      if token' = token then some value else scan.flags.lookup token' :=
  lookup_setMember _ _ _ _

/-- A boolean flag is looked up as present once it was recorded. -/
theorem lookup_record_boolean (item : Item) (field : BooleanField) :
    (scan.record item).flags.lookup (js field.flag) =
      if item = .boolean field then some .present else scan.flags.lookup (js field.flag) := by
  cases item with
  | positional s => rfl
  | boolean field' =>
    rw [Scan.record, lookup_set]
    refine if_congr ?_ rfl rfl
    rw [Item.boolean.injEq]
    exact ⟨fun h => (flag_inj h).symm, fun h => h ▸ rfl⟩
  | option field' value =>
    rw [if_neg (by intro h; cases h), Scan.record]
    split
    · exact (lookup_set _ _ _).trans (if_neg (flag_ne field field'))
    · exact (lookup_set _ _ _).trans (if_neg (flag_ne field field'))

theorem lookup_foldl_boolean (items : List Item) (field : BooleanField) (scan : Scan) :
    (items.foldl Scan.record scan).flags.lookup (js field.flag) =
      if .boolean field ∈ items then some .present else scan.flags.lookup (js field.flag) := by
  induction items generalizing scan with
  | nil => simp
  | cons item items ih =>
    rw [List.foldl_cons, ih, lookup_record_boolean]
    by_cases hitems : Item.boolean field ∈ items
    · simp [hitems]
    · by_cases hitem : item = .boolean field
      · simp [hitem]
      · simp [hitems, hitem, Ne.symm hitem]

/-- The same positionals and the same values. -/
structure Alike (scan scan' : Scan) : Prop where
  positionals : scan.positionals = scan'.positionals
  values : ∀ field : ValueField,
    scan.flags.lookup (js field.flag) = scan'.flags.lookup (js field.flag)

theorem Alike.set {scan' : Scan} (h : Alike scan scan') (token : JsString) (value : FlagValue) :
    Alike (scan.set token value) (scan'.set token value) := by
  refine ⟨h.positionals, fun field => ?_⟩
  rw [lookup_set, lookup_set, h.values]

theorem Alike.push {scan' : Scan} (h : Alike scan scan') (token : JsString) :
    Alike (scan.push token) (scan'.push token) :=
  ⟨congrArg (· ++ [token]) h.positionals, h.values⟩

theorem Alike.record {scan' : Scan} (h : Alike scan scan') (item : Item) :
    Alike (scan.record item) (scan'.record item) := by
  cases item with
  | positional s => exact h.push s.1
  | boolean field => exact h.set _ _
  | option field value =>
    rw [Scan.record, Scan.record]
    split
    · exact (h.set _ _).push _
    · exact h.set _ _

/-- A boolean flag changes neither a positional nor a value. -/
theorem alike_record_boolean {scan' : Scan} (h : Alike scan scan') (field : BooleanField) :
    Alike (scan.record (.boolean field)) scan' := by
  refine ⟨h.positionals, fun field' => ?_⟩
  rw [Scan.record, lookup_set, if_neg (flag_ne field field').symm, h.values]

theorem alike_foldl (items : List Item) {scan' : Scan} (h : Alike scan scan') :
    Alike (items.foldl Scan.record scan)
      ((items.filter (!·.isBoolean)).foldl Scan.record scan') := by
  induction items generalizing scan scan' with
  | nil => exact h
  | cons item items ih =>
    cases item with
    | positional s => exact ih (h.record _)
    | boolean field => exact ih (alike_record_boolean h field)
    | option field value => exact ih (h.record _)

theorem sublist_positionals (items : List Item) (scan : Scan) :
    (scan.positionals ++ words items).Sublist (items.foldl Scan.record scan).positionals := by
  induction items generalizing scan with
  | nil => simp [words]
  | cons item items ih =>
    have hrest := ih (scan.record item)
    cases item with
    | positional s =>
      rw [Scan.record, Scan.push, List.append_assoc] at hrest
      exact hrest
    | boolean field => exact hrest
    | option field value =>
      refine List.Sublist.trans ?_ hrest
      refine List.Sublist.append ?_ (List.Sublist.refl _)
      rw [Scan.record]
      split
      · exact List.sublist_append_left _ _
      · exact List.Sublist.refl _

/-! ## Placements -/

variable {items' : List Item}

theorem mem_iff_of_placement (h : Placement items items') (item : Item) :
    item ∈ items' ↔ item ∈ items := by
  have hothers : item ∈ items'.filter (!·.isBoolean) ↔ item ∈ items.filter (!·.isBoolean) := by
    rw [h.1]
  have hbooleans := h.2.mem_iff (a := item)
  rw [List.mem_filter, List.mem_filter] at hothers hbooleans
  cases hitem : item.isBoolean with
  | true => simpa [hitem] using hbooleans
  | false => simpa [hitem] using hothers

theorem alike_of_placement (h : Placement items items')
    (hchain : items.IsChain fun a b => ¬Swallows a b)
    (hchain' : items'.IsChain fun a b => ¬Swallows a b) :
    Alike (scanItems items') (scanItems items) := by
  have hitems := @alike_foldl ⟨[], []⟩ items _ ⟨rfl, fun _ => rfl⟩
  have hitems' := @alike_foldl ⟨[], []⟩ items' _ ⟨rfl, fun _ => rfl⟩
  rw [h.1] at hitems'
  rw [scanItems_eq hchain, scanItems_eq hchain']
  exact ⟨hitems'.positionals.trans hitems.positionals.symm,
    fun field => (hitems'.values field).trans (hitems.values field).symm⟩

theorem booleans_parseItems (hchain : items.IsChain fun a b => ¬Swallows a b)
    (field : BooleanField) :
    (parseItems items).booleans field = decide (.boolean field ∈ items) := by
  show hasBooleanFlag (scanItems items).flags field.flag = _
  rw [scanItems_eq hchain, hasBooleanFlag, lookup_foldl_boolean]
  by_cases hfield : Item.boolean field ∈ items <;> simp [hfield]

theorem parseItems_of_placement (h : Placement items items')
    (hchain : items.IsChain fun a b => ¬Swallows a b)
    (hchain' : items'.IsChain fun a b => ¬Swallows a b) : parseItems items' = parseItems items := by
  have halike := alike_of_placement h hchain hchain'
  have hvalue : ∀ field : ValueField, readFlagValue (scanItems items').flags field.flag =
      readFlagValue (scanItems items).flags field.flag := by
    intro field
    rw [readFlagValue, readFlagValue, halike.values]
  refine CliArgs.ext (congrArg (·[0]?) halike.positionals) (congrArg (·[1]?) halike.positionals)
    (congrArg (·[2]?) halike.positionals) ?_ ?_ ?_
  · funext field
    rw [booleans_parseItems hchain, booleans_parseItems hchain']
    exact decide_eq_decide.mpr (mem_iff_of_placement h _)
  · funext field
    exact hvalue (.text field)
  · funext field
    show readNumberFlag (scanItems items').flags (ValueField.number field).flag =
      readNumberFlag (scanItems items).flags (ValueField.number field).flag
    rw [readNumberFlag, readNumberFlag, hvalue (.number field)]

/-- In every placement no flag stands directly before a positional it would take. -/
theorem placementFree_of_chain
    (h : ∀ items', Placement items items' → items'.IsChain fun a b => ¬Swallows a b) :
    PlacementFree items := by
  have hself : Placement items items := ⟨rfl, .refl _⟩
  refine ⟨fun items' hp => parseItems_of_placement hp (h _ hself) (h _ hp), ?_, ?_⟩
  · intro items' hp field hfield
    rw [booleans_parseItems (h _ hp)]
    exact decide_eq_true ((mem_iff_of_placement hp _).mpr hfield)
  · intro items' hp
    have hwords := sublist_positionals items ⟨[], []⟩
    rw [(alike_of_placement hp (h _ hself) (h _ hp)).positionals, scanItems_eq (h _ hself)]
    exact hwords

theorem not_swallows_of_boolean {item item' : Item} (h : item.isBoolean = false) :
    ¬Swallows item item' := by
  cases item with
  | positional s => exact id
  | boolean field => cases h
  | option field value => exact id

theorem not_swallows_boolean {item item' : Item} (h : item'.isBoolean = true) :
    ¬Swallows item item' := by
  cases item' with
  | positional s => cases h
  | boolean field => cases item <;> exact id
  | option field value => cases h

/-- Items before which all boolean flags stand. -/
theorem isChain_append_booleans {others booleans : List Item}
    (hothers : ∀ item ∈ others, item.isBoolean = false)
    (hbooleans : ∀ item ∈ booleans, item.isBoolean = true) :
    (others ++ booleans).IsChain fun a b => ¬Swallows a b := by
  refine List.Pairwise.isChain (List.pairwise_append.mpr ⟨?_, ?_, ?_⟩)
  · exact List.pairwise_of_forall_mem_list fun a ha b _ => not_swallows_of_boolean (hothers a ha)
  · exact List.pairwise_of_forall_mem_list fun a _ b hb => not_swallows_boolean (hbooleans b hb)
  · exact fun a ha b _ => not_swallows_of_boolean (hothers a ha)

/-- The positional behind a flag becomes its value. -/
theorem booleans_swallowing {others booleans rest : List Item} {field : BooleanField} {s : Word}
    (hothers : ∀ item ∈ others, item.isBoolean = false)
    (hbooleans : ∀ item ∈ booleans, item.isBoolean = true)
    (hrest : ∀ item ∈ rest, item.isBoolean = false) (hne : s.1 ≠ []) :
    (parseItems (others ++ (booleans ++ [.boolean field]) ++ .positional s :: rest)).booleans
      field = false := by
  show hasBooleanFlag (scanArgs (tokens _)).flags field.flag = _
  have htokens : tokens (others ++ (booleans ++ [.boolean field]) ++ .positional s :: rest) =
      tokens (others ++ booleans) ++ (js field.flag :: s.1 :: (tokens rest ++ [])) := by
    simp [tokens, Item.tokens]
  have hflag : Quiet (js field.flag :: s.1 :: (tokens rest ++ [])) := by
    intro t ht
    cases ht
    exact .inr (isFlag_boolean field)
  have hchain : rest.IsChain fun a b => ¬Swallows a b :=
    (List.pairwise_of_forall_mem_list fun a ha b _ =>
      not_swallows_of_boolean (hrest a ha)).isChain
  have hnotmem : Item.boolean field ∉ rest := by
    intro hmem
    have hfalse := hrest _ hmem
    cases hfalse
  rw [htokens, scanArgs, scanFrom_tokens (isChain_append_booleans hothers hbooleans) hflag,
    scanFrom_text (isFlag_boolean field) hne s.2,
    scanFrom_tokens hchain (by intro t ht; cases ht), scanFrom, hasBooleanFlag,
    lookup_foldl_boolean, if_neg hnotmem, lookup_set, if_pos rfl]
  rfl

/-- All boolean flags stand together. -/
theorem placement_append {others booleans rest : List Item}
    (hsplit : items.filter (!·.isBoolean) = others ++ rest)
    (hbooleans : booleans.Perm (items.filter (·.isBoolean))) :
    Placement items (others ++ booleans ++ rest) := by
  have hnot : ∀ item ∈ others ++ rest, item.isBoolean = false := by
    intro item hitem
    rw [← hsplit] at hitem
    simpa using (List.mem_filter.mp hitem).2
  have hothers : ∀ item ∈ others, item.isBoolean = false :=
    fun item h => hnot item (List.mem_append_left _ h)
  have hrest : ∀ item ∈ rest, item.isBoolean = false :=
    fun item h => hnot item (List.mem_append_right _ h)
  have hall : ∀ item ∈ booleans, item.isBoolean = true :=
    fun item h => (List.mem_filter.mp (hbooleans.mem_iff.mp h)).2
  constructor
  · have hnone : booleans.filter (!·.isBoolean) = [] :=
      List.filter_eq_nil_iff.mpr fun item h => by simp [hall item h]
    rw [List.filter_append, List.filter_append, hnone, List.append_nil, ← List.filter_append,
      List.filter_eq_self.mpr fun item h => by simp [hnot item h], hsplit]
  · have hself : booleans.filter (·.isBoolean) = booleans := List.filter_eq_self.mpr hall
    rw [List.filter_append, List.filter_append, hself,
      List.filter_eq_nil_iff.mpr fun item h => by simp [hothers item h],
      List.filter_eq_nil_iff.mpr fun item h => by simp [hrest item h], List.nil_append,
      List.append_nil]
    exact hbooleans

/-- All boolean flags, with the given one last, stand directly before a positional. -/
theorem exists_swallowing {field : BooleanField} {s : Word} (hfield : .boolean field ∈ items)
    (hs : .positional s ∈ items) (hne : s.1 ≠ []) :
    ∃ items', Placement items items' ∧ (parseItems items').booleans field = false := by
  obtain ⟨others, rest, hsplit⟩ := List.append_of_mem
    (show Item.positional s ∈ items.filter (!·.isBoolean) from List.mem_filter.mpr ⟨hs, rfl⟩)
  have hnot : ∀ item ∈ others ++ Item.positional s :: rest, item.isBoolean = false := by
    intro item hitem
    rw [← hsplit] at hitem
    simpa using (List.mem_filter.mp hitem).2
  have hmem : Item.boolean field ∈ items.filter (·.isBoolean) :=
    List.mem_filter.mpr ⟨hfield, rfl⟩
  obtain ⟨booleans, hperm⟩ : ∃ booleans : List Item,
      (items.filter (·.isBoolean)).Perm (.boolean field :: booleans) := by
    obtain ⟨before, after, hat⟩ := List.append_of_mem hmem
    exact ⟨before ++ after, hat ▸ List.perm_middle⟩
  have hlast : (booleans ++ [Item.boolean field]).Perm (items.filter (·.isBoolean)) :=
    List.perm_append_comm.trans hperm.symm
  have hbooleans : ∀ item ∈ booleans, item.isBoolean = true :=
    fun item h => (List.mem_filter.mp (hperm.mem_iff.mpr (List.mem_cons_of_mem _ h))).2
  have hothers : ∀ item ∈ others, item.isBoolean = false :=
    fun item h => hnot item (List.mem_append_left _ h)
  have hrest : ∀ item ∈ rest, item.isBoolean = false :=
    fun item h => hnot item (List.mem_append_right _ (List.mem_cons_of_mem _ h))
  have hplacement := placement_append hsplit hlast
  have hfalse : (parseItems (others ++ (booleans ++ [.boolean field]) ++
      .positional s :: rest)).booleans field = false :=
    booleans_swallowing hothers hbooleans hrest hne
  exact ⟨_, hplacement, hfalse⟩

/-- **Placement.** The placement of the boolean flags does not matter exactly when there is no
boolean flag or no positional that is not empty. -/
theorem placementFree_iff (items : List Item) :
    PlacementFree items ↔
      (∀ field, .boolean field ∉ items) ∨ ∀ s, .positional s ∈ items → s.1 = [] := by
  constructor
  · intro hfree
    by_contra hboth
    rw [not_or] at hboth
    obtain ⟨hfield, hs⟩ := hboth
    obtain ⟨field, hfield⟩ := not_forall_not.mp hfield
    obtain ⟨s, hs⟩ := not_forall.mp hs
    obtain ⟨hs, hne⟩ := Classical.not_imp.mp hs
    obtain ⟨items', hp, hfalse⟩ := exists_swallowing hfield hs hne
    rw [hfree.booleans items' hp field hfield] at hfalse
    cases hfalse
  · intro hcondition
    refine placementFree_of_chain fun items' hp => List.Pairwise.isChain
      (List.pairwise_of_forall_mem_list fun a ha b hb hswallows => ?_)
    rw [mem_iff_of_placement hp] at ha hb
    cases a with
    | positional s => exact hswallows
    | option field value => exact hswallows
    | boolean field =>
      cases b with
      | boolean field' => exact hswallows
      | option field' value => exact hswallows
      | positional s =>
        obtain hnone | hempty := hcondition
        · exact hnone field ha
        · exact hswallows (hempty s hb)

/-- `--json`, `backup` and `list`: where the flag stands before `list`, that is taken for its
value. -/
theorem list_is_swallowed : ¬∀ items, PlacementFree items := by
  intro hfree
  have hbooleans := (hfree [.positional ⟨js "backup", rfl⟩, .positional ⟨js "list", rfl⟩,
    .boolean .json]).booleans [.positional ⟨js "backup", rfl⟩, .boolean .json,
      .positional ⟨js "list", rfl⟩] ⟨rfl, .refl _⟩ .json (by decide)
  have hfalse : (parseItems ([.positional ⟨js "backup", rfl⟩] ++ ([] ++ [.boolean .json]) ++
      [.positional ⟨js "list", rfl⟩])).booleans .json = false :=
    booleans_swallowing (by simp [Item.isBoolean]) (by simp) (by simp) (by decide)
  exact Bool.false_ne_true (hfalse.symm.trans hbooleans)

/-! ## The backup command -/

/-- The positionals when no value is empty. -/
theorem positionals_foldl (hvalues : ∀ field value, .option field value ∈ items → value.1 ≠ [])
    (scan : Scan) :
    (items.foldl Scan.record scan).positionals = scan.positionals ++ words items := by
  induction items generalizing scan with
  | nil => simp [words]
  | cons item items ih =>
    rw [List.foldl_cons, ih fun field value h => hvalues field value (List.mem_cons_of_mem _ h)]
    cases item with
    | positional s =>
      rw [Scan.record, Scan.push, List.append_assoc]
      rfl
    | boolean field => rfl
    | option field value =>
      rw [Scan.record, if_neg (hvalues field value List.mem_cons_self)]
      rfl

/-- The subcommand that is written is run when no flag stands directly before a positional, no
value is empty and it is written in lower case. -/
theorem backupSubcommand_parseItems (toLowerCase : JsString → JsString) {subcommand : JsString}
    (hchain : items.IsChain fun a b => ¬Swallows a b)
    (hvalues : ∀ field value, .option field value ∈ items → value.1 ≠ [])
    (hwords : (words items)[1]? = some subcommand) (hlower : toLowerCase subcommand = subcommand)
    (hknown : subcommand ∈ backupSubcommands) :
    backupSubcommand toLowerCase (parseItems items) = subcommand := by
  have hsubcommand : (parseItems items).subcommand = some subcommand := by
    show (scanItems items).positionals[1]? = _
    rw [scanItems_eq hchain, positionals_foldl hvalues, List.nil_append, hwords]
  rw [backupSubcommand, hsubcommand]
  simp only [Option.map_some, Option.getD_some, hlower, if_pos hknown]

end MemphisOS.Cli
