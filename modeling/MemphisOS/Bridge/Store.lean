import MemphisOS.Bridge.Adapter
import MemphisOS.Chain.Concurrency

/-!
# Block files of the native adapter

How the adapter reads and names block files, and the directories whose files are numbered from
zero. Up to a million such files are read in the order of their numbers.
-/

namespace MemphisOS.Bridge

open Ecma MemphisCore

/-- The order of `Array.prototype.sort` on names: by code units. -/
def NameLe (a b : Text × List UInt8) : Prop := ofText a.1 ≤ ofText b.1

instance : DecidableRel NameLe := fun _ _ => inferInstanceAs (Decidable (_ ≤ _))

instance : Std.Total NameLe := ⟨fun _ _ => List.le_total _ _⟩

instance : IsTrans (Text × List UInt8) NameLe := ⟨fun _ _ _ => List.le_trans⟩

/-- The block files in the order they are read in. -/
def sortedFiles (entries : Chain.Dir) : Chain.Dir :=
  (Chain.blockFiles entries).insertionSort NameLe

/-- The blocks of a directory, when every file is read and parsed. -/
def readBlocks (entries : Chain.Dir) : Option (List Plain) :=
  (sortedFiles entries).mapM fun e => parseJson (decodeUtf8 e.2)

/-- An error anywhere gives no blocks. -/
def readChainBlocks (entries : Chain.Dir) : List Plain := (readBlocks entries).getD []

variable (host : BridgeHost)

/-- `String(block.index).padStart(6, '0')`. -/
def paddedIndex (block : Plain) : JsString :=
  let s := match property block "index" with
    | some index => display host index
    | none => js "undefined"
  List.replicate (6 - s.length) 0x30 ++ s

/-- The name `writeBlock` gives the file of a block. -/
def blockFileName (block : Plain) : Text :=
  wellFormed (paddedIndex host block) ++ Chain.blockSuffix

/-- The bytes `writeBlock` writes. -/
def payload (block : Plain) : List UInt8 := encodeUtf8 (jsonText [' ', ' '] block)

/-! ## Names -/

theorem length_ofText_digits {ds : Text} (h : ∀ c ∈ ds, c.isDigit = true) :
    (ofText ds).length = ds.length := by
  induction ds with
  | nil => rfl
  | cons c ds ih =>
    have hc := h c (by simp)
    rw [Char.isDigit, Bool.and_eq_true, decide_eq_true_eq, decide_eq_true_eq] at hc
    have hlow : c.toNat ≤ 57 := hc.2
    rw [ofText_cons, List.length_append, ih fun d hd => h d (by simp [hd]), unitsOfChar,
      if_pos (by omega), List.length_singleton, List.length_cons, Nat.add_comm]

theorem ofText_replicate_zero (k : ℕ) :
    ofText (List.replicate k '0') = List.replicate k 0x30 := by
  induction k with
  | zero => rfl
  | succ k ih =>
    rw [List.replicate_succ, List.replicate_succ, ofText_cons, ih]
    rfl

variable {host}

/-- The file of a numbered block. -/
theorem blockFileName_eq {block : Plain} {n : ℕ} (hn : n < 2 ^ 53)
    (h : property block "index" = some (.num (.ofNat n))) :
    blockFileName host block = Chain.fileName (.ofNat n) := by
  have hdigits : ∀ c ∈ digits n, c.isDigit = true := fun _ => digits_isDigit
  rw [blockFileName, paddedIndex, h, Chain.fileName, numberText_ofNat hn, Chain.padZeros]
  simp only [display, numberText_ofNat hn, length_ofText_digits hdigits]
  rw [← ofText_replicate_zero, ← ofText_append, wellFormed_ofText]

theorem fileName_inj {m n : ℕ} (hm : m < 2 ^ 53) (hn : n < 2 ^ 53) :
    Chain.fileName (.ofNat m) = Chain.fileName (.ofNat n) ↔ m = n := by
  refine ⟨fun h => ?_, fun h => h ▸ rfl⟩
  have hindex := congrArg Chain.fileIndex h
  rwa [Chain.fileIndex_fileName hm, Chain.fileIndex_fileName hn, JsNumber.ofNat_inj hm hn] at hindex

/-! ## The order of names -/

/-- The code of a digit. -/
theorem toNat_of_isDigit {c : Char} (h : c.isDigit = true) : 48 ≤ c.toNat ∧ c.toNat ≤ 57 := by
  rw [Char.isDigit, Bool.and_eq_true, decide_eq_true_eq, decide_eq_true_eq] at h
  exact h

theorem digitsValue_cons (d : Char) (ds : Text) :
    digitsValue (d :: ds) = 10 ^ ds.length * (d.toNat - 48) + digitsValue ds := by
  have hzero : '0'.toNat = 48 := rfl
  rw [digitsValue, Nat.ofDigitChars_cons, Nat.ofDigitChars_eq_ofDigitChars_zero, digitsValue,
    Nat.mul_zero, Nat.zero_add, hzero]

theorem digitsValue_lt {ds : Text} (h : ∀ c ∈ ds, c.isDigit = true) :
    digitsValue ds < 10 ^ ds.length := by
  induction ds with
  | nil => decide
  | cons d ds ih =>
    have hd := toNat_of_isDigit (h d (by simp))
    have hds := ih fun c hc => h c (by simp [hc])
    rw [digitsValue_cons, List.length_cons, pow_succ]
    have hle : 10 ^ ds.length * (d.toNat - 48) ≤ 10 ^ ds.length * 9 :=
      Nat.mul_le_mul_left _ (by omega)
    omega

/-- Numerals of one length are ordered by their values, whatever follows them. -/
theorem ofText_le_of_digitsValue {ds es : Text} (hds : ∀ c ∈ ds, c.isDigit = true)
    (hes : ∀ c ∈ es, c.isDigit = true) (hlength : ds.length = es.length) (t : Text)
    (h : digitsValue ds ≤ digitsValue es) : ofText (ds ++ t) ≤ ofText (es ++ t) := by
  induction ds generalizing es with
  | nil =>
    obtain rfl : es = [] := List.length_eq_zero_iff.mp hlength.symm
    exact List.le_refl _
  | cons d ds ih =>
    cases es with
    | nil => cases hlength
    | cons e es =>
      have hd := toNat_of_isDigit (hds d (by simp))
      have he := toNat_of_isDigit (hes e (by simp))
      have hlt := digitsValue_lt fun c hc => hds c (List.mem_cons_of_mem _ hc)
      have hlt' := digitsValue_lt fun c hc => hes c (List.mem_cons_of_mem _ hc)
      have hrest : ds.length = es.length := Nat.succ.inj hlength
      rw [digitsValue_cons, digitsValue_cons, ← hrest] at h
      rw [← hrest] at hlt'
      have hunits : unitsOfChar d = [UInt16.ofNat d.toNat] ∧
          unitsOfChar e = [UInt16.ofNat e.toNat] :=
        ⟨if_pos (by omega), if_pos (by omega)⟩
      rw [List.cons_append, List.cons_append, ofText_cons, ofText_cons, hunits.1, hunits.2,
        List.singleton_append, List.singleton_append, List.cons_le_cons_iff]
      have hle : d.toNat ≤ e.toNat := by
        by_contra hgt
        have hmul : 10 ^ ds.length * (e.toNat - 48 + 1) ≤ 10 ^ ds.length * (d.toNat - 48) :=
          Nat.mul_le_mul_left _ (by omega)
        rw [Nat.mul_add, Nat.mul_one] at hmul
        omega
      rcases hle.lt_or_eq with hless | hequal
      · left
        rw [UInt16.lt_iff_toNat_lt, UInt16.toNat_ofNat', UInt16.toNat_ofNat']
        omega
      · rw [hequal] at h ⊢
        exact .inr ⟨rfl, ih (fun c hc => hds c (by simp [hc])) (fun c hc => hes c (by simp [hc]))
          hrest (by omega)⟩

theorem digitsValue_padZeros (width n : ℕ) : digitsValue (Chain.padZeros width (digits n)) = n := by
  rw [Chain.padZeros, digitsValue, Nat.ofDigitChars_append, Nat.ofDigitChars_replicate_zero,
    Nat.mul_zero]
  exact digitsValue_digits n

theorem isDigit_padZeros {width n : ℕ} {c : Char} (h : c ∈ Chain.padZeros width (digits n)) :
    c.isDigit = true := by
  rcases List.mem_append.mp h with h | h
  · rw [List.eq_of_mem_replicate h]
    decide
  · exact digits_isDigit h

/-- Numbers below a million have six digits. -/
theorem length_padZeros {n : ℕ} (h : n < 10 ^ 6) : (Chain.padZeros 6 (digits n)).length = 6 := by
  have hlength : (digits n).length ≤ 6 := by
    rw [digits, Nat.length_toDigits_le_iff (by decide) (by decide)]
    exact h
  rw [Chain.padZeros, List.length_append, List.length_replicate]
  omega

/-- The files of the first million blocks are ordered by their numbers. -/
theorem nameLe_fileName {m n : ℕ} (hm : m < 10 ^ 6) (hn : n < 10 ^ 6) (bytes bytes' : List UInt8)
    (h : m ≤ n) : NameLe (Chain.fileName (.ofNat m), bytes) (Chain.fileName (.ofNat n), bytes') := by
  rw [NameLe, Chain.fileName, Chain.fileName, numberText_ofNat (hm.trans (by norm_num)),
    numberText_ofNat (hn.trans (by norm_num))]
  refine ofText_le_of_digitsValue (fun _ => isDigit_padZeros) (fun _ => isDigit_padZeros) ?_ _ ?_
  · rw [length_padZeros hm, length_padZeros hn]
  · rwa [digitsValue_padZeros, digitsValue_padZeros]

/-! ## Numbered files -/

/-- Files numbered from zero. -/
def numbered (contents : List (List UInt8)) : Chain.Dir :=
  contents.mapIdx fun i bytes => (Chain.fileName (.ofNat i), bytes)

variable {contents : List (List UInt8)} {dir : Chain.Dir}

@[simp] theorem length_numbered (contents : List (List UInt8)) :
    (numbered contents).length = contents.length := List.length_mapIdx

theorem getElem_numbered {i : ℕ} (hi : i < (numbered contents).length) :
    (numbered contents)[i] =
      (Chain.fileName (.ofNat i), contents.get ⟨i, length_numbered contents ▸ hi⟩) :=
  List.getElem_mapIdx

theorem mem_numbered {e : Text × List UInt8} : e ∈ numbered contents ↔
    ∃ (i : ℕ) (hi : i < contents.length), (Chain.fileName (.ofNat i), contents[i]) = e := by
  rw [numbered, List.mem_mapIdx]

theorem nodup_numbered (h : contents.length ≤ 2 ^ 53) :
    (Chain.fileNames (numbered contents)).Nodup := by
  rw [Chain.fileNames, List.Nodup, List.pairwise_map, List.pairwise_iff_getElem]
  intro i j hi hj hij
  rw [length_numbered] at hi hj
  rw [getElem_numbered, getElem_numbered, ne_eq, fileName_inj (by omega) (by omega)]
  omega

theorem blockFiles_numbered (contents : List (List UInt8)) :
    Chain.blockFiles (numbered contents) = numbered contents := by
  rw [Chain.blockFiles, List.filter_eq_self]
  intro e he
  obtain ⟨i, hi, rfl⟩ := mem_numbered.mp he
  exact Chain.isBlockFile_fileName _

theorem sortedFiles_perm (h : dir.Perm (numbered contents)) :
    (sortedFiles dir).Perm (numbered contents) := by
  refine (List.perm_insertionSort _ _).trans ?_
  rw [← blockFiles_numbered contents]
  exact h.filter _

/-- Up to a million files are read in the order of their numbers. -/
theorem sortedFiles_eq (h : dir.Perm (numbered contents)) (hlength : contents.length ≤ 10 ^ 6) :
    sortedFiles dir = numbered contents := by
  have hperm := sortedFiles_perm h
  have hsorted : (numbered contents).Pairwise NameLe := by
    rw [List.pairwise_iff_getElem]
    intro i j hi hj hij
    rw [length_numbered] at hi hj
    rw [getElem_numbered, getElem_numbered]
    exact nameLe_fileName (by omega) (by omega) _ _ hij.le
  refine List.Perm.eq_of_pairwise ?_ (List.pairwise_insertionSort NameLe _) hsorted hperm
  intro a b ha hb hab hba
  obtain ⟨i, hi, rfl⟩ := mem_numbered.mp (hperm.mem_iff.mp ha)
  obtain ⟨j, hj, rfl⟩ := mem_numbered.mp hb
  have hname := ofText_injective (List.le_antisymm hab hba)
  obtain rfl : i = j := (fileName_inj (by omega) (by omega)).mp hname
  rfl

theorem lookup_numbered (h : dir.Perm (numbered contents)) (hlength : contents.length ≤ 2 ^ 53)
    {i : ℕ} (hi : i < contents.length) :
    dir.lookup (Chain.fileName (.ofNat i)) = some contents[i] := by
  have hnodup : (Chain.fileNames dir).Nodup :=
    (h.map Prod.fst).nodup_iff.mpr (nodup_numbered hlength)
  exact lookup_of_mem hnodup (h.mem_iff.mpr (mem_numbered.mpr ⟨i, hi, rfl⟩))

/-- The file after the last does not exist. -/
theorem fileName_not_mem (h : dir.Perm (numbered contents)) (hlength : contents.length < 2 ^ 53) :
    Chain.fileName (.ofNat contents.length) ∉ Chain.fileNames dir := by
  intro hmem
  obtain ⟨e, he, hname⟩ := List.mem_map.mp hmem
  obtain ⟨i, hi, rfl⟩ := mem_numbered.mp (h.mem_iff.mp he)
  have heq := (fileName_inj (by omega) (by omega)).mp hname
  omega

/-- The file after the last joins the others. -/
theorem writeFile_perm_concat (h : dir.Perm (numbered contents))
    (hlength : contents.length < 2 ^ 53) (bytes : List UInt8) :
    (Chain.writeFile dir (Chain.fileName (.ofNat contents.length)) bytes).Perm
      (numbered (contents ++ [bytes])) := by
  rw [Chain.writeFile, Chain.unlink_of_not_mem (fileName_not_mem h hlength), numbered,
    List.mapIdx_concat]
  exact h.append_right _

/-- A file that exists is replaced. -/
theorem writeFile_perm_set (h : dir.Perm (numbered contents)) (hlength : contents.length ≤ 2 ^ 53)
    {i : ℕ} (hi : i < contents.length) (bytes : List UInt8) :
    (Chain.writeFile dir (Chain.fileName (.ofNat i)) bytes).Perm
      (numbered (contents.set i bytes)) := by
  have hnodup : (Chain.fileNames dir).Nodup :=
    (h.map Prod.fst).nodup_iff.mpr (nodup_numbered hlength)
  have hset : (Chain.fileNames (numbered (contents.set i bytes))).Nodup :=
    nodup_numbered (by rwa [List.length_set])
  rw [List.perm_ext_iff_of_nodup (List.Nodup.of_map _ (Chain.nodup_writeFile hnodup _ _))
    (List.Nodup.of_map _ hset)]
  intro e
  rw [Chain.writeFile, List.mem_append, List.mem_singleton, Chain.unlink, List.mem_filter,
    h.mem_iff, mem_numbered, mem_numbered]
  constructor
  · rintro (⟨⟨j, hj, rfl⟩, hne⟩ | rfl)
    · have hji : i ≠ j := by
        rintro rfl
        simp at hne
      exact ⟨j, by simpa using hj, by rw [List.getElem_set_ne hji]⟩
    · exact ⟨i, by simpa using hi, by rw [List.getElem_set_self]⟩
  · rintro ⟨j, hj, rfl⟩
    rw [List.length_set] at hj
    by_cases hji : i = j
    · subst hji
      exact .inr (by rw [List.getElem_set_self])
    · refine .inl ⟨⟨j, hj, by rw [List.getElem_set_ne hji]⟩, ?_⟩
      have hname : Chain.fileName (.ofNat j) ≠ Chain.fileName (.ofNat i) := fun heq =>
        hji ((fileName_inj (by omega) (by omega)).mp heq).symm
      simpa using hname

/-! ## Stored blocks -/

/-- The file of the value is read as the value, which has the given index. -/
structure Stored (v : Plain) (n : ℕ) : Prop where
  ordered : OwnOrdered v
  numbers : JsonNumbers v
  index : property v "index" = some (.num (.ofNat n))

theorem Stored.parse {v : Plain} {n : ℕ} (h : Stored v n) :
    parseJson (decodeUtf8 (payload v)) = some v := by
  rw [payload, decodeUtf8_encodeUtf8, parseJson_jsonText (by simp [Json.Blank, Json.isSpace]) h.ordered,
    jsonImage_eq_self h.numbers]

theorem readNumbered {vs : List Plain} (hstored : ∀ v ∈ vs, ∃ n, Stored v n) :
    ∀ f : ℕ → Text, ((vs.map payload).mapIdx fun i bytes => (f i, bytes)).mapM
      (fun e => parseJson (decodeUtf8 e.2)) = some vs := by
  induction vs with
  | nil => exact fun _ => rfl
  | cons v vs ih =>
    intro f
    obtain ⟨n, hv⟩ := hstored v (by simp)
    rw [List.map_cons, List.mapIdx_cons, List.mapM_cons, hv.parse,
      ih (fun w hw => hstored w (by simp [hw])) fun i => f (i + 1)]
    rfl

/-- Stored blocks, each with its position as its index. -/
def StoredInOrder (vs : List Plain) : Prop := ∀ (i : ℕ) (hi : i < vs.length), Stored vs[i] i

/-- The blocks of a directory of numbered files, up to a million. -/
theorem readBlocks_eq {vs : List Plain} (h : dir.Perm (numbered (vs.map payload)))
    (hstored : StoredInOrder vs) (hlength : vs.length ≤ 10 ^ 6) :
    readBlocks dir = some vs := by
  rw [readBlocks, sortedFiles_eq h (by rwa [List.length_map]), numbered]
  refine readNumbered (fun v hv => ?_) fun i => Chain.fileName (.ofNat i)
  obtain ⟨i, hi, rfl⟩ := List.getElem_of_mem hv
  exact ⟨i, hstored i hi⟩

theorem StoredInOrder.ordered {vs : List Plain} (hstored : StoredInOrder vs) :
    ∀ v ∈ vs, OwnOrdered v := by
  intro v hv
  obtain ⟨i, hi, rfl⟩ := List.getElem_of_mem hv
  exact (hstored i hi).ordered

/-- What is read of the text of a block. -/
theorem own_value (block : NapiBlock) : own (jsonImage block.value) =
    .obj [(js "index", own (jsonImage block.index)), (js "timestamp", .str block.timestamp),
      (js "chain", .str block.chain), (js "data", own (jsonImage block.data.value)),
      (js "prev_hash", own (jsonImage block.prevHash)), (js "hash", .str block.hash)] := by
  rw [NapiBlock.value, jsonImage_obj, own_obj_of_inOwnOrder]
  · rfl
  · exact show InOwnOrder [js "index", js "timestamp", js "chain", js "data", js "prev_hash",
      js "hash"] from ⟨by decide, by decide⟩

/-- What is written of a block that was sent. -/
theorem stored_sent {block : NapiBlock} {n : ℕ} (hn : n < 2 ^ 53)
    (hindex : block.index = .num (.ofNat n)) : Stored (own (jsonImage block.value)) n where
  ordered := ownOrdered_own _
  numbers := (jsonNumbers_jsonImage _).own
  index := by
    rw [own_value, hindex, show jsonImage (.num (.ofNat n)) = .num (.ofNat n) from
      Chain.jsonNumber_ofNat hn]
    rfl

/-- The index after stored blocks. -/
theorem nextIndex_eq {vs : List Plain} (hstored : StoredInOrder vs)
    (hlength : vs.length < 2 ^ 53) : nextIndex host vs = .num (.ofNat vs.length) := by
  rcases List.eq_nil_or_concat' vs with rfl | ⟨init, last, rfl⟩
  · rfl
  · have hlast := hstored init.length (by simp)
    rw [List.getElem_append_right (le_refl _)] at hlast
    rw [List.length_append, List.length_singleton] at hlength ⊢
    rw [nextIndex, List.getLast?_concat]
    simp only [Nat.sub_self, List.getElem_cons_zero] at hlast
    simp only [hlast.index, orElse, plusOne, JsNumber.add_one hlength]

theorem StoredInOrder.concat {vs : List Plain} (hstored : StoredInOrder vs) {v : Plain}
    (h : Stored v vs.length) : StoredInOrder (vs ++ [v]) := by
  intro i hi
  rcases Nat.lt_or_ge i vs.length with hlt | hge
  · rw [List.getElem_append_left hlt]
    exact hstored i hlt
  · obtain rfl : i = vs.length := by
      rw [List.length_append, List.length_singleton] at hi
      omega
    rw [List.getElem_append_right (le_refl _)]
    simpa using h

end MemphisOS.Bridge
