import Mathlib.Algebra.Group.Nat.Defs
import Mathlib.Tactic.Common

/-!
# Checksummed frames

A log of frames: the length of the payload, the payload and its checksum, one frame after
another. The scanner stops at the first place where no whole frame with a right checksum
starts; what it has read by then is exactly the encoding of the payloads it returns.
-/

namespace Framing

/-- Four bytes, most significant first. -/
def uint32BE (n : ℕ) : List UInt8 :=
  [.ofNat (n / 2 ^ 24), .ofNat (n / 2 ^ 16), .ofNat (n / 2 ^ 8), .ofNat n]

/-- The number in the first four bytes. -/
def readUint32BE : List UInt8 → ℕ
  | a :: b :: c :: d :: _ => a.toNat * 2 ^ 24 + b.toNat * 2 ^ 16 + c.toNat * 2 ^ 8 + d.toNat
  | _ => 0

@[simp] theorem length_uint32BE (n : ℕ) : (uint32BE n).length = 4 := rfl

theorem readUint32BE_uint32BE {n : ℕ} (h : n < 2 ^ 32) (rest : List UInt8) :
    readUint32BE (uint32BE n ++ rest) = n := by
  simp only [uint32BE, List.cons_append, List.nil_append, readUint32BE, UInt8.toNat_ofNat']
  omega

/-- Four bytes are the encoding of their number. -/
theorem uint32BE_readUint32BE {bytes : List UInt8} (h : 4 ≤ bytes.length) :
    uint32BE (readUint32BE bytes) = bytes.take 4 := by
  match bytes, h with
  | a :: b :: c :: d :: rest, _ =>
    have ha := a.toNat_lt
    have hb := b.toNat_lt
    have hc := c.toNat_lt
    have hd := d.toNat_lt
    simp only [readUint32BE, uint32BE, List.take_succ_cons, List.take_zero, List.cons.injEq,
      and_true]
    refine ⟨?_, ?_, ?_, ?_⟩ <;>
    · apply UInt8.toNat.inj
      rw [UInt8.toNat_ofNat']
      omega

theorem readUint32BE_lt (bytes : List UInt8) : readUint32BE bytes < 2 ^ 32 := by
  unfold readUint32BE
  split
  · next a b c d _ =>
    have ha := a.toNat_lt
    have hb := b.toNat_lt
    have hc := c.toNat_lt
    have hd := d.toNat_lt
    omega
  · decide

theorem readUint32BE_append {bytes : List UInt8} (h : 4 ≤ bytes.length) (more : List UInt8) :
    readUint32BE (bytes ++ more) = readUint32BE bytes := by
  match bytes, h with
  | a :: b :: c :: d :: rest, _ => rfl

/-- A frame in a log: its payload, where it starts and how long it is. -/
structure Frame where
  payload : List UInt8
  offset : ℕ
  length : ℕ
  deriving DecidableEq

variable (checksum : List UInt8 → UInt32)

/-- The bytes of a frame. -/
def encode (payload : List UInt8) : List UInt8 :=
  uint32BE payload.length ++ payload ++ uint32BE (checksum payload).toNat

/-- The bytes of a log. -/
def encodeAll (payloads : List (List UInt8)) : List UInt8 := payloads.flatMap (encode checksum)

/-- The frames from an offset on, and the offset behind the last of them. -/
def scan : ℕ → ℕ → List UInt8 → List Frame × ℕ
  | 0, offset, _ => ([], offset)
  | fuel + 1, offset, rest =>
    let len := readUint32BE rest
    let payload := (rest.drop 4).take len
    if 8 ≤ rest.length ∧ len + 8 ≤ rest.length ∧
        readUint32BE (rest.drop (4 + len)) = (checksum payload).toNat then
      let (frames, valid) := scan fuel (offset + (len + 8)) (rest.drop (len + 8))
      (⟨payload, offset, len + 8⟩ :: frames, valid)
    else ([], offset)

/-- The frames of a buffer. -/
def parse (buffer : List UInt8) : List Frame × ℕ := scan checksum buffer.length 0 buffer

/-- Where the frames of a log lie. -/
def layout : ℕ → List (List UInt8) → List Frame
  | _, [] => []
  | offset, payload :: payloads =>
    ⟨payload, offset, payload.length + 8⟩ :: layout (offset + (payload.length + 8)) payloads

@[simp] theorem length_encode (payload : List UInt8) :
    (encode checksum payload).length = payload.length + 8 := by
  simp [encode]
  omega

theorem length_le_encodeAll (payloads : List (List UInt8)) :
    payloads.length ≤ (encodeAll checksum payloads).length := by
  induction payloads with
  | nil => simp
  | cons payload payloads ih =>
    simp only [encodeAll, List.flatMap_cons, List.length_append, List.length_cons, length_encode]
      at ih ⊢
    omega

variable {checksum} {payload : List UInt8} {payloads : List (List UInt8)}

@[simp] theorem encodeAll_nil : encodeAll checksum [] = [] := rfl

@[simp] theorem encodeAll_cons (payload : List UInt8) (payloads : List (List UInt8)) :
    encodeAll checksum (payload :: payloads) =
      encode checksum payload ++ encodeAll checksum payloads := rfl

@[simp] theorem encodeAll_append (payloads payloads' : List (List UInt8)) :
    encodeAll checksum (payloads ++ payloads') =
      encodeAll checksum payloads ++ encodeAll checksum payloads' := by
  simp [encodeAll]

@[simp] theorem map_payload_layout (offset : ℕ) (payloads : List (List UInt8)) :
    (layout offset payloads).map Frame.payload = payloads := by
  induction payloads generalizing offset with
  | nil => rfl
  | cons payload payloads ih => rw [layout, List.map_cons, ih]

/-- A frame is read, and the scan goes on behind it. -/
theorem scan_encode (h : payload.length < 2 ^ 32) (fuel offset : ℕ) (rest : List UInt8) :
    scan checksum (fuel + 1) offset (encode checksum payload ++ rest) =
      (⟨payload, offset, payload.length + 8⟩ ::
        (scan checksum fuel (offset + (payload.length + 8)) rest).1,
        (scan checksum fuel (offset + (payload.length + 8)) rest).2) := by
  have hlen : readUint32BE (encode checksum payload ++ rest) = payload.length := by
    rw [encode, List.append_assoc, List.append_assoc, readUint32BE_uint32BE h]
  have hdrop : (encode checksum payload ++ rest).drop 4 =
      payload ++ (uint32BE (checksum payload).toNat ++ rest) := by
    rw [encode, List.append_assoc, List.append_assoc]
    exact List.drop_left' rfl
  have hpayload : ((encode checksum payload ++ rest).drop 4).take payload.length = payload := by
    rw [hdrop, List.take_left]
  have hsum : readUint32BE ((encode checksum payload ++ rest).drop (4 + payload.length)) =
      (checksum payload).toNat := by
    rw [← List.drop_drop, hdrop, List.drop_left,
      readUint32BE_uint32BE (UInt32.toNat_lt _)]
  have hrest : (encode checksum payload ++ rest).drop (payload.length + 8) = rest := by
    rw [← length_encode checksum payload, List.drop_left]
  rw [scan]
  simp only [hlen, hpayload, hsum, hrest, List.length_append, length_encode]
  rw [if_pos ⟨by omega, by omega, trivial⟩]

/-- A log is read frame by frame, and the scan goes on behind it. -/
theorem scan_encodeAll (checksum : List UInt8 → UInt32) (h : ∀ payload ∈ payloads, payload.length < 2 ^ 32) (fuel offset : ℕ)
    (rest : List UInt8) :
    scan checksum (payloads.length + fuel) offset (encodeAll checksum payloads ++ rest) =
      (layout offset payloads ++
          (scan checksum fuel (offset + (encodeAll checksum payloads).length) rest).1,
        (scan checksum fuel (offset + (encodeAll checksum payloads).length) rest).2) := by
  induction payloads generalizing offset with
  | nil => simp [layout]
  | cons payload payloads ih =>
    have hfuel : (payload :: payloads).length + fuel = payloads.length + fuel + 1 := by
      simp
      omega
    have hoffset : offset + (encodeAll checksum (payload :: payloads)).length =
        offset + (payload.length + 8) + (encodeAll checksum payloads).length := by
      simp
      omega
    rw [hfuel, encodeAll_cons, List.append_assoc, scan_encode (h payload (by simp)),
      ih (fun p hp => h p (by simp [hp])), ← encodeAll_cons, hoffset]
    rfl

/-- A log that is followed by nothing. -/
theorem scan_nil (fuel offset : ℕ) : scan checksum fuel offset [] = ([], offset) := by
  cases fuel <;> simp [scan]

/-- **Completeness.** Parsing a log gives its payloads, and all of its bytes are valid. -/
theorem parse_encodeAll (h : ∀ payload ∈ payloads, payload.length < 2 ^ 32) :
    parse checksum (encodeAll checksum payloads) =
      (layout 0 payloads, (encodeAll checksum payloads).length) := by
  have hle := length_le_encodeAll checksum payloads
  obtain ⟨fuel, hfuel⟩ := Nat.exists_eq_add_of_le hle
  have hscan := scan_encodeAll checksum h fuel 0 []
  rw [List.append_nil, ← hfuel, scan_nil, List.append_nil, Nat.zero_add] at hscan
  exact hscan

/-- **Soundness.** Whatever is scanned, the frames returned are a log that the bytes start
with, and the valid bytes are those of the log. -/
theorem scan_sound (checksum : List UInt8 → UInt32) (fuel offset : ℕ) (bytes : List UInt8) :
    ∃ payloads rest, (∀ payload ∈ payloads, payload.length < 2 ^ 32) ∧
      bytes = encodeAll checksum payloads ++ rest ∧
      scan checksum fuel offset bytes =
        (layout offset payloads, offset + (encodeAll checksum payloads).length) := by
  induction fuel generalizing offset bytes with
  | zero => exact ⟨[], bytes, by simp, rfl, rfl⟩
  | succ fuel ih =>
    rw [scan]
    dsimp only
    split
    · next hframe =>
      obtain ⟨hhead, hlen, hsum⟩ := hframe
      generalize hn : readUint32BE bytes = len at hlen hsum ⊢
      generalize hpayload : (bytes.drop 4).take len = payload at hsum ⊢
      have hlength : payload.length = len := by
        rw [← hpayload, List.length_take, List.length_drop]
        omega
      have hsmall : payload.length < 2 ^ 32 := by
        rw [hlength, ← hn]
        exact readUint32BE_lt bytes
      -- The bytes start with the encoding of the payload.
      have hbytes : bytes = encode checksum payload ++ bytes.drop (len + 8) := by
        have hsum' : (bytes.drop (4 + len)).take 4 = uint32BE (checksum payload).toNat := by
          rw [← hsum, uint32BE_readUint32BE (by rw [List.length_drop]; omega)]
        calc bytes
            = bytes.take 4 ++ bytes.drop 4 := (List.take_append_drop 4 bytes).symm
          _ = uint32BE len ++ (payload ++ bytes.drop (4 + len)) := by
            rw [← hn, uint32BE_readUint32BE (by omega), hn, ← hpayload, ← List.drop_drop,
              List.take_append_drop len]
          _ = uint32BE len ++ (payload ++ (uint32BE (checksum payload).toNat ++
                bytes.drop (len + 8))) := by
            rw [← hsum', show len + 8 = (4 + len) + 4 by omega,
              ← List.drop_drop (i := 4) (j := 4 + len), List.take_append_drop 4]
          _ = encode checksum payload ++ bytes.drop (len + 8) := by
            rw [encode, hlength, List.append_assoc, List.append_assoc]
      obtain ⟨payloads, rest, hpayloads, hrest, hscan⟩ :=
        ih (offset + (len + 8)) (bytes.drop (len + 8))
      refine ⟨payload :: payloads, rest, ?_, ?_, ?_⟩
      · intro p hp
        rcases List.mem_cons.mp hp with rfl | hp
        · exact hsmall
        · exact hpayloads p hp
      · rw [encodeAll_cons, List.append_assoc, ← hrest, ← hbytes]
      · rw [hscan, layout, hlength]
        simp [hlength]
        omega
    · exact ⟨[], bytes, by simp, rfl, rfl⟩

/-! ## Cut logs -/

/-- The payloads whose frames lie in the first bytes of a log. -/
def wholeBefore : ℕ → List (List UInt8) → List (List UInt8)
  | _, [] => []
  | cut, payload :: payloads =>
    if payload.length + 8 ≤ cut then payload :: wholeBefore (cut - (payload.length + 8)) payloads
    else []

/-- No frame is read from a part of one. -/
theorem scan_torn (checksum : List UInt8 → UInt32) (hpayload : payload.length < 2 ^ 32) {n : ℕ}
    (hn : n < payload.length + 8) (fuel offset : ℕ) :
    scan checksum fuel offset ((encode checksum payload).take n) = ([], offset) := by
  cases fuel with
  | zero => rfl
  | succ fuel =>
    have hlength : ((encode checksum payload).take n).length = n := by
      rw [List.length_take, length_encode]
      omega
    rw [scan]
    dsimp only
    rw [if_neg]
    rintro ⟨hhead, hwhole, -⟩
    rw [hlength] at hhead hwhole
    -- The length is there, and it is that of the whole payload.
    have hread : readUint32BE ((encode checksum payload).take n) = payload.length := by
      have hfour : (uint32BE payload.length).length ≤ n := by
        rw [length_uint32BE]
        omega
      rw [encode, List.append_assoc, List.take_append, List.take_of_length_le hfour,
        readUint32BE_uint32BE hpayload]
    omega

/-- A cut log consists of the whole frames before the cut and a part of the next one. -/
theorem take_encodeAll (checksum : List UInt8 → UInt32) (cut : ℕ)
    (h : ∀ payload ∈ payloads, payload.length < 2 ^ 32) :
    ∃ rest, (encodeAll checksum payloads).take cut =
        encodeAll checksum (wholeBefore cut payloads) ++ rest ∧
      ∀ fuel offset, scan checksum fuel offset rest = ([], offset) := by
  induction payloads generalizing cut with
  | nil => exact ⟨[], by simp [wholeBefore], fun fuel offset => scan_nil fuel offset⟩
  | cons payload payloads ih =>
    have hpayload := h payload List.mem_cons_self
    by_cases hcut : payload.length + 8 ≤ cut
    · obtain ⟨rest, htake, hrest⟩ :=
        ih (cut - (payload.length + 8)) fun p hp => h p (List.mem_cons_of_mem _ hp)
      refine ⟨rest, ?_, hrest⟩
      rw [wholeBefore, if_pos hcut, encodeAll_cons, encodeAll_cons, List.take_append, length_encode,
        htake, List.take_of_length_le (by rw [length_encode]; exact hcut), List.append_assoc]
    · refine ⟨(encode checksum payload).take cut, ?_, scan_torn checksum hpayload (by omega)⟩
      have hzero : cut - (payload.length + 8) = 0 := by omega
      rw [wholeBefore, if_neg hcut, encodeAll_cons, List.take_append, length_encode, hzero,
        List.take_zero, List.append_nil]
      rfl

theorem offset_le_of_mem_layout {offset : ℕ} {frame : Frame} (h : frame ∈ layout offset payloads) :
    offset ≤ frame.offset := by
  induction payloads generalizing offset with
  | nil => cases h
  | cons payload payloads ih =>
    rcases List.mem_cons.mp h with rfl | h
    · exact Nat.le_refl _
    · have hle := ih h
      omega

theorem le_offset_of_mem_scan {fuel offset : ℕ} {bytes : List UInt8} {frame : Frame}
    (h : frame ∈ (scan checksum fuel offset bytes).1) : offset ≤ frame.offset := by
  obtain ⟨payloads, -, -, -, hscan⟩ := scan_sound checksum fuel offset bytes
  rw [hscan] at h
  exact offset_le_of_mem_layout h

/-- The frames before a cut are those that end before it. -/
theorem layout_wholeBefore (cut offset : ℕ) (payloads : List (List UInt8)) :
    layout offset (wholeBefore cut payloads) =
      (layout offset payloads).filter fun f => f.offset + f.length ≤ offset + cut := by
  induction payloads generalizing cut offset with
  | nil => rfl
  | cons payload payloads ih =>
    rw [wholeBefore, layout, List.filter_cons]
    by_cases hcut : payload.length + 8 ≤ cut
    · have hsum : offset + (payload.length + 8) + (cut - (payload.length + 8)) = offset + cut := by
        omega
      rw [if_pos hcut, if_pos (by simpa using hcut), layout, ih, hsum]
    · rw [if_neg hcut, if_neg (by simpa using hcut)]
      refine (List.filter_eq_nil_iff.mpr fun f hf => ?_).symm
      have hle := offset_le_of_mem_layout hf
      simp only [decide_eq_true_eq]
      omega

/-- The frames of a log end where the log does. -/
theorem end_layout (checksum : List UInt8 → UInt32) (offset : ℕ) (payloads : List (List UInt8)) :
    ((layout offset payloads).getLast?.map fun f => f.offset + f.length).getD offset =
      offset + (encodeAll checksum payloads).length := by
  induction payloads generalizing offset with
  | nil => rfl
  | cons payload payloads ih =>
    have hlength : offset + (encodeAll checksum (payload :: payloads)).length =
        offset + (payload.length + 8) + (encodeAll checksum payloads).length := by
      rw [encodeAll_cons, List.length_append, length_encode]
      omega
    rw [hlength, ← ih, layout, List.getLast?_cons]
    cases (layout (offset + (payload.length + 8)) payloads).getLast? <;> rfl

theorem wholeBefore_isPrefix_payloads (cut : ℕ) (payloads : List (List UInt8)) :
    wholeBefore cut payloads <+: payloads := by
  induction payloads generalizing cut with
  | nil => exact List.prefix_rfl
  | cons payload payloads ih =>
    rw [wholeBefore]
    split
    · exact List.prefix_cons_inj payload |>.mpr (ih _)
    · exact List.nil_prefix

/-- **Crash prefix.** From a log that is cut anywhere exactly the frames before the cut are read,
and the valid bytes are theirs. -/
theorem parse_take (checksum : List UInt8 → UInt32)
    (h : ∀ payload ∈ payloads, payload.length < 2 ^ 32) (cut : ℕ) :
    parse checksum ((encodeAll checksum payloads).take cut) =
      (layout 0 (wholeBefore cut payloads),
        (encodeAll checksum (wholeBefore cut payloads)).length) := by
  obtain ⟨rest, htake, hrest⟩ := take_encodeAll checksum cut h
  have hwhole : ∀ payload ∈ wholeBefore cut payloads, payload.length < 2 ^ 32 := fun p hp =>
    h p ((wholeBefore_isPrefix_payloads cut payloads).subset hp)
  have hle := length_le_encodeAll checksum (wholeBefore cut payloads)
  obtain ⟨fuel, hfuel⟩ := Nat.exists_eq_add_of_le
    (Nat.le_trans hle (Nat.le_add_right _ rest.length))
  have hscan := scan_encodeAll checksum hwhole fuel 0 rest
  rw [hrest, List.append_nil, Nat.zero_add] at hscan
  rw [parse, htake, List.length_append, hfuel]
  exact hscan

/-! ## Logs with more behind them -/

/-- The frames of a log are still read when more bytes follow. -/
theorem parse_prefix_append (checksum : List UInt8 → UInt32) (bytes more : List UInt8) :
    (parse checksum bytes).1 <+: (parse checksum (bytes ++ more)).1 := by
  obtain ⟨payloads, rest, hshort, hbytes, hscan⟩ := scan_sound checksum bytes.length 0 bytes
  have hle := length_le_encodeAll checksum payloads
  have hlength : payloads.length ≤ (bytes ++ more).length := by
    rw [hbytes, List.length_append, List.length_append]
    omega
  obtain ⟨fuel, hfuel⟩ := Nat.exists_eq_add_of_le hlength
  have hscan' := scan_encodeAll checksum hshort fuel 0 (rest ++ more)
  rw [← List.append_assoc, ← hbytes, ← hfuel] at hscan'
  rw [parse, hscan, parse, hscan']
  exact List.prefix_append _ _

/-- A log whose bytes are all valid is one of payloads. -/
theorem exists_eq_encodeAll {bytes : List UInt8} (h : (parse checksum bytes).2 = bytes.length) :
    ∃ payloads, (∀ payload ∈ payloads, payload.length < 2 ^ 32) ∧
      bytes = encodeAll checksum payloads := by
  obtain ⟨payloads, rest, hshort, hbytes, hscan⟩ := scan_sound checksum bytes.length 0 bytes
  rw [parse, hscan] at h
  have hlength := congrArg List.length hbytes
  rw [List.length_append] at hlength
  have hrest : rest = [] := List.eq_nil_of_length_eq_zero (by omega)
  rw [hrest, List.append_nil] at hbytes
  exact ⟨payloads, hshort, hbytes⟩

theorem layout_append (checksum : List UInt8 → UInt32) (offset : ℕ)
    (payloads payloads' : List (List UInt8)) :
    layout offset (payloads ++ payloads') =
      layout offset payloads ++ layout (offset + (encodeAll checksum payloads).length) payloads' := by
  induction payloads generalizing offset with
  | nil => rfl
  | cons payload payloads ih =>
    have hoffset : offset + (encodeAll checksum (payload :: payloads)).length =
        offset + (payload.length + 8) + (encodeAll checksum payloads).length := by
      rw [encodeAll_cons, List.length_append, length_encode]
      omega
    rw [List.cons_append, layout, ih, layout, List.cons_append, hoffset]

/-- A frame behind a log whose bytes are all valid is read. -/
theorem parse_append_encode {bytes : List UInt8} (hpayload : payload.length < 2 ^ 32)
    (h : (parse checksum bytes).2 = bytes.length) :
    (parse checksum (bytes ++ encode checksum payload)).1 =
      (parse checksum bytes).1 ++ [⟨payload, bytes.length, payload.length + 8⟩] := by
  obtain ⟨payloads, hshort, rfl⟩ := exists_eq_encodeAll h
  have hboth : ∀ p ∈ payloads ++ [payload], p.length < 2 ^ 32 := by
    simp only [List.mem_append, List.mem_singleton]
    rintro p (hp | rfl)
    · exact hshort p hp
    · exact hpayload
  have hsplit : encodeAll checksum payloads ++ encode checksum payload =
      encodeAll checksum (payloads ++ [payload]) := by
    simp
  rw [hsplit, parse_encodeAll hboth, parse_encodeAll hshort, layout_append checksum]
  simp [layout]

/-- A frame behind a log with invalid bytes at its end is not read. -/
theorem scan_append_torn (checksum : List UInt8 → UInt32) (more : List UInt8) {fuel : ℕ}
    {bytes : List UInt8} {offset : ℕ} (hfuel : bytes.length ≤ fuel)
    (h : (scan checksum fuel offset bytes).2 < offset + bytes.length) (fuel' : ℕ) :
    ∀ f ∈ (scan checksum fuel' offset (bytes ++ more)).1, f.offset ≠ offset + bytes.length := by
  induction fuel generalizing bytes offset fuel' with
  | zero =>
    rw [scan] at h
    dsimp only at h
    omega
  | succ fuel ih =>
    intro f hf
    cases fuel' with
    | zero => cases hf
    | succ fuel' =>
      rw [scan] at h hf
      dsimp only at h hf
      split at hf
      · next hmore =>
        obtain ⟨-, hlen, hsum⟩ := hmore
        have hpositive : 0 < bytes.length := by
          by_contra hnil
          rw [if_neg (by omega)] at h
          dsimp only at h
          omega
        by_cases hwhole : 8 ≤ bytes.length ∧ readUint32BE bytes + 8 ≤ bytes.length
        · -- The frame lies in the log itself, and the scan goes on behind it.
          have hread : readUint32BE (bytes ++ more) = readUint32BE bytes :=
            readUint32BE_append (by omega) more
          have hdrop : (bytes ++ more).drop (readUint32BE bytes + 8) =
              bytes.drop (readUint32BE bytes + 8) ++ more :=
            List.drop_append_of_le_length hwhole.2
          have hpayload : ((bytes ++ more).drop 4).take (readUint32BE bytes) =
              (bytes.drop 4).take (readUint32BE bytes) := by
            rw [List.drop_append_of_le_length (by omega), List.take_append_of_le_length]
            rw [List.length_drop]
            omega
          have hchecksum : readUint32BE ((bytes ++ more).drop (4 + readUint32BE bytes)) =
              readUint32BE (bytes.drop (4 + readUint32BE bytes)) := by
            rw [List.drop_append_of_le_length (by omega)]
            refine readUint32BE_append ?_ more
            rw [List.length_drop]
            omega
          rw [hread, hpayload, hdrop] at hf
          rw [hread, hpayload, hchecksum] at hsum
          rw [if_pos ⟨hwhole.1, hwhole.2, hsum⟩] at h
          dsimp only at h hf
          have hlength : offset + (readUint32BE bytes + 8) +
              (bytes.drop (readUint32BE bytes + 8)).length = offset + bytes.length := by
            rw [List.length_drop]
            omega
          rcases List.mem_cons.mp hf with rfl | hf
          · dsimp only
            omega
          · rw [← hlength] at h ⊢
            refine ih ?_ h fuel' f hf
            rw [List.length_drop]
            omega
        · -- The frame ends behind the log, and so do those that follow it.
          have hbeyond : bytes.length < readUint32BE (bytes ++ more) + 8 := by
            by_cases height : 8 ≤ bytes.length
            · rw [readUint32BE_append (by omega) more]
              omega
            · omega
          rcases List.mem_cons.mp hf with rfl | hf
          · dsimp only
            omega
          · have hle := le_offset_of_mem_scan hf
            omega
      · cases hf

theorem parse_append_torn (checksum : List UInt8 → UInt32) {bytes : List UInt8}
    (h : (parse checksum bytes).2 < bytes.length) (more : List UInt8) :
    ∀ f ∈ (parse checksum (bytes ++ more)).1, f.offset ≠ bytes.length := by
  have hscan : (scan checksum bytes.length 0 bytes).2 < 0 + bytes.length := by
    rw [Nat.zero_add]
    exact h
  have hnot := scan_append_torn checksum more (Nat.le_refl _) hscan (bytes ++ more).length
  rw [Nat.zero_add] at hnot
  exact hnot

end Framing
