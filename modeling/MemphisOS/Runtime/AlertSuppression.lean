import MemphisOS.Runtime.AlertEmitter

/-!
# Suppressed alerts

An alert is suppressed by the time of its key's last send, which is set before the transport has
answered, and which a flush sets as well. The count of a key is reset before its summary is taken.
Suppression is justified and no suppressed alert is lost exactly as long as no alert follows a
failed send or a flush of its key within the window, and every summary is sent and taken.
-/

namespace MemphisOS.Runtime

open Ecma

/-! ## What is to hold -/

/-- The suppressed alerts of a key that are still counted. -/
def Emitter.pending (emitter : Emitter) (key : JsString) : ℕ :=
  ((emitter.state.lookup key).map DedupState.suppressedCount).getD 0

/-- The suppressed alerts of a key that a send reports, unless it has failed. -/
def Send.reported (key : JsString) (send : Send) : ℕ :=
  match send.reports with
  | some (reportedKey, count) =>
    if reportedKey = key ∧ send.outcome ≠ some false then count else 0
  | none => 0

/-- The suppressed alerts of a key that are reported in summaries that are delivered or still being
sent. -/
def Emitter.reported (emitter : Emitter) (key : JsString) : ℕ :=
  (emitter.sends.map (Send.reported key)).sum

/-- Every alert was suppressed less than a window after a send for its key that was delivered or
still on its way; sends for one key are a window apart; and every suppressed alert is counted or
reported once. -/
structure Sound (window : ℕ) (emitter : Emitter) : Prop where
  justified : ∀ alert ∈ emitter.suppressed, ∃ send ∈ alert.before,
    send.key = alert.key ∧ send.outcome ≠ some false ∧ alert.time - send.time < window
  spaced : emitter.sends.Pairwise fun a b => a.key = b.key → (window : ℤ) ≤ b.time - a.time
  conserved : ∀ key, emitter.suppressed.countP (fun alert => decide (alert.key = key)) =
    emitter.pending key + emitter.reported key

/-! ## Keys of summaries -/

/-- The key a summary has. -/
def summaryKey (key : JsString) : JsString := (js "AlertSuppressed:" ++ key).trim

theorem trim_cons {u : UInt16} (h : JsString.isSpaceUnit u = false) (s : JsString) :
    JsString.trim (u :: s) = List.rdropWhile JsString.isSpaceUnit (u :: s) := by
  rw [JsString.trim, List.dropWhile_cons_of_neg (by simp [h])]
  rfl

theorem summaryKey_eq (key : JsString) :
    summaryKey key = List.rdropWhile JsString.isSpaceUnit (js "AlertSuppressed:" ++ key) :=
  trim_cons (by decide) _

theorem summaryKey_ne_nil (key : JsString) : summaryKey key ≠ [] := by
  rw [summaryKey_eq, ne_eq, List.rdropWhile_eq_nil_iff]
  intro h
  exact absurd (h 65 (List.mem_append_left _ (by decide))) (by decide)

/-- A summary is not an alert of the key it reports. -/
theorem summaryKey_ne (key : JsString) : summaryKey key ≠ key := by
  intro h
  have hself : key.rdropWhile JsString.isSpaceUnit = key := by
    rw [← h, summaryKey_eq]
    exact List.rdropWhile_idempotent _ _
  have hne : key ≠ [] := fun hnil => summaryKey_ne_nil key (h.trans hnil)
  have hlast := List.rdropWhile_eq_self_iff.mp hself hne
  have hwhole : (js "AlertSuppressed:" ++ key).rdropWhile JsString.isSpaceUnit =
      js "AlertSuppressed:" ++ key := by
    rw [List.rdropWhile_eq_self_iff]
    intro hne'
    rwa [List.getLast_append_of_ne_nil]
  rw [summaryKey_eq, hwhole] at h
  have hlength := congrArg List.length h
  rw [List.length_append] at hlength
  have hprefix : (js "AlertSuppressed:").length = 16 := by decide
  omega

variable {window : ℕ} {digest : JsString → JsString}

theorem alertKey_summaryAlert (key : JsString) (count : ℕ) :
    alertKey digest (summaryAlert key count) = some (summaryKey key) :=
  if_pos (summaryKey_ne_nil key)

/-! ## What each call does -/

/-- Nothing keeps an alert of a key from being sent at a time. -/
def Emitter.Free (window : ℕ) (emitter : Emitter) (key : JsString) (time : ℤ) : Prop :=
  ∀ current, emitter.state.lookup key = some current → (window : ℤ) ≤ time - current.lastSentAt

/-- An alert is suppressed, or sent when nothing keeps it. -/
theorem emit_cases {emitter emitter' : Emitter} {alert : Alert} {key : JsString}
    {reports : Option (JsString × ℕ)} {nowMs : ℤ} {emitted : Emitted}
    (hkey : alertKey digest alert = some key)
    (h : emitter.emit window digest alert reports nowMs = some (emitter', emitted)) :
    (∃ current, emitter.state.lookup key = some current ∧
      nowMs - current.lastSentAt < window ∧ emitter' = emitter.suppress key current nowMs) ∨
    (emitter.Free window key nowMs ∧ emitter' = emitter.send key alert reports nowMs) := by
  rw [Emitter.emit, hkey, Option.map_some, Option.some.injEq] at h
  split at h
  · next current hcurrent =>
    split at h
    · next hwithin =>
      cases h
      exact .inl ⟨current, hcurrent, hwithin, rfl⟩
    · next hwithin =>
      cases h
      refine .inr ⟨fun other hother => ?_, rfl⟩
      rw [hcurrent, Option.some.injEq] at hother
      rw [← hother]
      exact not_lt.mp hwithin
  · next hnone =>
    cases h
    refine .inr ⟨fun other hother => ?_, rfl⟩
    rw [hnone] at hother
    cases hother

/-- A flush comes to a summary for this key. -/
def Emitter.due (window : ℕ) (emitter : Emitter) (nowMs : ℤ) (key : JsString) : Bool :=
  match emitter.state.lookup key with
  | none => false
  | some snapshot => 0 < snapshot.suppressedCount ∧ (window : ℤ) ≤ nowMs - snapshot.lastSentAt

theorem due_iff {emitter : Emitter} {nowMs : ℤ} {key : JsString} :
    emitter.due window nowMs key = true ↔ ∃ snapshot, emitter.state.lookup key = some snapshot ∧
      0 < snapshot.suppressedCount ∧ (window : ℤ) ≤ nowMs - snapshot.lastSentAt := by
  unfold Emitter.due
  split
  · next hnone => simp [hnone]
  · next snapshot hsome => simp [hsome]

theorem flushKeys_cons_of_not_due {emitter : Emitter} {nowMs : ℤ} {key : JsString}
    (h : ¬emitter.due window nowMs key = true) (keys : List JsString) :
    emitter.flushKeys window digest nowMs (key :: keys) =
      emitter.flushKeys window digest nowMs keys := by
  rw [Emitter.flushKeys]
  split
  · rfl
  · next snapshot hsnapshot =>
    by_cases hcount : snapshot.suppressedCount ≤ 0
    · rw [if_pos hcount]
    · have hwithin : nowMs - snapshot.lastSentAt < window := by
        by_contra hwindow
        exact h (due_iff.mpr ⟨snapshot, hsnapshot, not_le.mp hcount, not_lt.mp hwindow⟩)
      rw [if_neg hcount, if_pos hwithin]

/-- The summary of a key is always emitted. -/
theorem exists_emit_summary (window : ℕ) (digest : JsString → JsString) (emitter : Emitter)
    (key : JsString) (count : ℕ) (nowMs : ℤ) : ∃ emitter' emitted,
      emitter.emit window digest (summaryAlert key count) (some (key, count)) nowMs =
        some (emitter', emitted) := by
  rw [Emitter.emit, alertKey_summaryAlert, Option.map_some]
  exact ⟨_, _, rfl⟩

variable (window digest) in
/-- A flush resets the count of the first key that is due, and emits its summary. -/
theorem flushKeys_cases (emitter : Emitter) (nowMs : ℤ) (keys : List JsString) :
    (keys.find? (emitter.due window nowMs) = none ∧
      emitter.flushKeys window digest nowMs keys = emitter) ∨
    ∃ key snapshot emitter' emitted rest, keys.find? (emitter.due window nowMs) = some key ∧
      emitter.state.lookup key = some snapshot ∧ 0 < snapshot.suppressedCount ∧
      (window : ℤ) ≤ nowMs - snapshot.lastSentAt ∧
      (emitter.reset key snapshot nowMs).emit window digest
        (summaryAlert key snapshot.suppressedCount) (some (key, snapshot.suppressedCount)) nowMs =
          some (emitter', emitted) ∧
      emitter.flushKeys window digest nowMs keys = { emitter' with
        flushing := emitter'.flushing ++ [⟨nowMs, rest, Emitted.awaits emitted⟩] } := by
  induction keys with
  | nil => exact .inl ⟨rfl, rfl⟩
  | cons key keys ih =>
    by_cases hdue : emitter.due window nowMs key = true
    · obtain ⟨snapshot, hsnapshot, hcount, hwindow⟩ := due_iff.mp hdue
      obtain ⟨emitter', emitted, hemit⟩ := exists_emit_summary window digest
        (emitter.reset key snapshot nowMs) key snapshot.suppressedCount nowMs
      refine .inr ⟨key, snapshot, emitter', emitted, keys, List.find?_cons_of_pos hdue, hsnapshot,
        hcount, hwindow, hemit, ?_⟩
      rw [Emitter.flushKeys, hsnapshot]
      simp only [if_neg (not_le.mpr hcount), if_neg (not_lt.mpr hwindow), hemit]
    · rw [List.find?_cons_of_neg hdue, flushKeys_cons_of_not_due hdue]
      exact ih

/-! ## Times -/

/-- At a time, an alert was sent for a key or its count was reset. -/
def Emitter.Touched (emitter : Emitter) (key : JsString) (time : ℤ) : Prop :=
  (∃ send ∈ emitter.sends, send.key = key ∧ send.time = time) ∨
    ∃ flush ∈ emitter.flushed, flush.key = key ∧ flush.time = time

/-- What holds of every emitter that has run: the time kept for a key is the last time it was
touched, and a key is touched once a window. -/
structure Tracked (window : ℕ) (emitter : Emitter) : Prop where
  last : ∀ key current, emitter.state.lookup key = some current →
    emitter.Touched key current.lastSentAt
  upto : ∀ key time, emitter.Touched key time →
    ∃ current, emitter.state.lookup key = some current ∧ time ≤ current.lastSentAt
  spaced : emitter.sends.Pairwise fun a b => a.key = b.key → (window : ℤ) ≤ b.time - a.time
  apart : ∀ send ∈ emitter.sends, ∀ flush ∈ emitter.flushed, send.key = flush.key →
    (window : ℤ) ≤ send.time - flush.time ∨ (window : ℤ) ≤ flush.time - send.time
  past : ∀ key time, emitter.Touched key time → time ≤ emitter.now
  waiting : ∀ call ∈ emitter.flushing, call.nowMs ≤ emitter.now
  counted : ∀ send ∈ emitter.sends, ∀ key count, send.reports = some (key, count) → 0 < count

variable {emitter emitter' : Emitter} {key : JsString} {nowMs : ℤ}

theorem Tracked.new (now : ℤ) : Tracked window (.new now) where
  last := by rintro key current ⟨⟩
  upto := by simp [Emitter.Touched, Emitter.new]
  spaced := .nil
  apart := by simp [Emitter.new]
  past := by simp [Emitter.Touched, Emitter.new]
  waiting := by simp [Emitter.new]
  counted := by simp [Emitter.new]

/-- What is free has not been touched for a window. -/
theorem Tracked.window_le (h : Tracked window emitter) (hfree : emitter.Free window key nowMs)
    {time : ℤ} (htouched : emitter.Touched key time) : (window : ℤ) ≤ nowMs - time := by
  obtain ⟨current, hcurrent, hle⟩ := h.upto key time htouched
  have hwindow := hfree current hcurrent
  omega

theorem touched_send {alert : Alert} {reports : Option (JsString × ℕ)} {other : JsString}
    {time : ℤ} : (emitter.send key alert reports nowMs).Touched other time ↔
      emitter.Touched other time ∨ key = other ∧ nowMs = time := by
  simp only [Emitter.Touched, Emitter.send, List.mem_append, List.mem_singleton, or_and_right,
    exists_or, exists_eq_left]
  exact or_right_comm

theorem touched_reset {snapshot : DedupState} {other : JsString} {time : ℤ} :
    (emitter.reset key snapshot nowMs).Touched other time ↔
      emitter.Touched other time ∨ key = other ∧ nowMs = time := by
  simp only [Emitter.Touched, Emitter.reset, List.mem_append, List.mem_singleton, or_and_right,
    exists_or, exists_eq_left]
  exact or_assoc.symm

theorem sentState_lastSentAt (nowMs : ℤ) (current : Option DedupState) :
    (sentState nowMs current).lastSentAt = nowMs := by
  cases current <;> rfl

/-- A free key may be sent. -/
theorem Tracked.send (h : Tracked window emitter) (hfree : emitter.Free window key nowMs)
    (hnow : nowMs ≤ emitter.now) (alert : Alert) {reports : Option (JsString × ℕ)}
    (hreports : ∀ key count, reports = some (key, count) → 0 < count) :
    Tracked window (emitter.send key alert reports nowMs) where
  last := by
    intro other current hcurrent
    rw [touched_send]
    rw [Emitter.send, lookup_setMember] at hcurrent
    split_ifs at hcurrent with hkey
    · cases hcurrent
      exact .inr ⟨hkey.symm, (sentState_lastSentAt nowMs _).symm⟩
    · exact .inl (h.last other current hcurrent)
  upto := by
    intro other time htouched
    rw [Emitter.send, lookup_setMember]
    split_ifs with hkey
    · subst hkey
      refine ⟨_, rfl, ?_⟩
      rw [sentState_lastSentAt]
      rcases touched_send.mp htouched with hbefore | ⟨-, rfl⟩
      · have hwindow := h.window_le hfree hbefore
        omega
      · exact le_refl _
    · exact h.upto other time ((touched_send.mp htouched).resolve_right fun hsame =>
        hkey hsame.1.symm)
  spaced := by
    refine List.pairwise_append.mpr ⟨h.spaced, List.pairwise_singleton _ _, ?_⟩
    intro a ha b hb hkeys
    obtain rfl := List.mem_singleton.mp hb
    exact h.window_le hfree (.inl ⟨a, ha, hkeys, rfl⟩)
  apart := by
    intro send hsend flush hflush hkeys
    rcases List.mem_append.mp hsend with hsend | hsend
    · exact h.apart send hsend flush hflush hkeys
    · obtain rfl := List.mem_singleton.mp hsend
      exact .inl (h.window_le hfree (.inr ⟨flush, hflush, hkeys.symm, rfl⟩))
  past := by
    intro other time htouched
    rcases touched_send.mp htouched with hbefore | ⟨-, rfl⟩
    · exact h.past other time hbefore
    · exact hnow
  waiting := h.waiting
  counted := by
    intro send hsend
    rcases List.mem_append.mp hsend with hsend | hsend
    · exact h.counted send hsend
    · obtain rfl := List.mem_singleton.mp hsend
      exact hreports

/-- A due key may be reset. -/
theorem Tracked.reset {snapshot : DedupState} (h : Tracked window emitter)
    (hsnapshot : emitter.state.lookup key = some snapshot)
    (hwindow : (window : ℤ) ≤ nowMs - snapshot.lastSentAt) (hnow : nowMs ≤ emitter.now) :
    Tracked window (emitter.reset key snapshot nowMs) where
  last := by
    intro other current hcurrent
    rw [touched_reset]
    rw [Emitter.reset, lookup_setMember] at hcurrent
    split_ifs at hcurrent with hkey
    · cases hcurrent
      exact .inr ⟨hkey.symm, rfl⟩
    · exact .inl (h.last other current hcurrent)
  upto := by
    intro other time htouched
    rw [Emitter.reset, lookup_setMember]
    split_ifs with hkey
    · subst hkey
      refine ⟨_, rfl, ?_⟩
      rcases touched_reset.mp htouched with hbefore | ⟨-, rfl⟩
      · obtain ⟨current, hcurrent, hle⟩ := h.upto other time hbefore
        rw [hsnapshot, Option.some.injEq] at hcurrent
        subst hcurrent
        simp only
        omega
      · exact le_refl _
    · exact h.upto other time ((touched_reset.mp htouched).resolve_right fun hsame =>
        hkey hsame.1.symm)
  spaced := h.spaced
  apart := by
    intro send hsend flush hflush hkeys
    rcases List.mem_append.mp hflush with hflush | hflush
    · exact h.apart send hsend flush hflush hkeys
    · obtain rfl := List.mem_singleton.mp hflush
      obtain ⟨current, hcurrent, hle⟩ := h.upto key send.time (.inl ⟨send, hsend, hkeys, rfl⟩)
      rw [hsnapshot, Option.some.injEq] at hcurrent
      subst hcurrent
      right
      simp only
      omega
  past := by
    intro other time htouched
    rcases touched_reset.mp htouched with hbefore | ⟨-, rfl⟩
    · exact h.past other time hbefore
    · exact hnow
  waiting := h.waiting
  counted := h.counted

/-- Suppressing an alert keeps the times. -/
theorem Tracked.suppress {current : DedupState} (h : Tracked window emitter)
    (hcurrent : emitter.state.lookup key = some current) :
    Tracked window (emitter.suppress key current nowMs) where
  last := by
    intro other found hfound
    rw [Emitter.suppress, lookup_setMember] at hfound
    split_ifs at hfound with hkey
    · cases hfound
      exact h.last other current (hkey ▸ hcurrent)
    · exact h.last other found hfound
  upto := by
    intro other time htouched
    obtain ⟨found, hfound, hle⟩ := h.upto other time htouched
    rw [Emitter.suppress, lookup_setMember]
    split_ifs with hkey
    · rw [hkey, hcurrent, Option.some.injEq] at hfound
      subst hfound
      exact ⟨_, rfl, hle⟩
    · exact ⟨found, hfound, hle⟩
  spaced := h.spaced
  apart := h.apart
  past := h.past
  waiting := h.waiting
  counted := h.counted

/-- What an answer does not change of a send. -/
def Send.mark (send : Send) : JsString × ℤ × Option (JsString × ℕ) :=
  (send.key, send.time, send.reports)

theorem marks_settle (emitter : Emitter) (i : ℕ) (ok : Bool) :
    (emitter.settle i ok).sends.map Send.mark = emitter.sends.map Send.mark := by
  rw [Emitter.settle]
  induction emitter.sends generalizing i with
  | nil => rw [List.modify_nil]
  | cons send sends ih =>
    cases i with
    | zero => rfl
    | succ i => rw [List.modify_succ_cons, List.map_cons, List.map_cons, ih]

theorem exists_of_mem_settle {i : ℕ} {ok : Bool} {send : Send}
    (h : send ∈ (emitter.settle i ok).sends) :
    ∃ before ∈ emitter.sends, before.mark = send.mark :=
  List.mem_map.mp (marks_settle emitter i ok ▸ List.mem_map_of_mem h)

theorem touched_settle {i : ℕ} {ok : Bool} {time : ℤ} :
    (emitter.settle i ok).Touched key time ↔ emitter.Touched key time := by
  have hmarks (sends : List Send) : (∃ send ∈ sends, send.key = key ∧ send.time = time) ↔
      ∃ mark ∈ sends.map Send.mark, mark.1 = key ∧ mark.2.1 = time := by
    simp [Send.mark]
  rw [Emitter.Touched, hmarks, marks_settle, ← hmarks]
  rfl

/-- An answer keeps the times. -/
theorem Tracked.settle (h : Tracked window emitter) (i : ℕ) (ok : Bool) :
    Tracked window (emitter.settle i ok) where
  last other current hcurrent := touched_settle.mpr (h.last other current hcurrent)
  upto other time htouched := h.upto other time (touched_settle.mp htouched)
  spaced := by
    have hspaced : (emitter.sends.map Send.mark).Pairwise
        fun a b => a.1 = b.1 → (window : ℤ) ≤ b.2.1 - a.2.1 := List.pairwise_map.mpr h.spaced
    rw [← marks_settle emitter i ok] at hspaced
    exact List.pairwise_map.mp hspaced
  apart := by
    intro send hsend flush hflush hkeys
    obtain ⟨before, hbefore, hmark⟩ := exists_of_mem_settle hsend
    obtain ⟨hkey, htime, -⟩ : before.key = send.key ∧ before.time = send.time ∧
        before.reports = send.reports := by simpa [Send.mark] using hmark
    rw [← htime]
    exact h.apart before hbefore flush hflush (hkey.trans hkeys)
  past other time htouched := h.past other time (touched_settle.mp htouched)
  waiting := h.waiting
  counted := by
    intro send hsend other count hreports
    obtain ⟨before, hbefore, hmark⟩ := exists_of_mem_settle hsend
    have hsame : before.reports = send.reports := congrArg (fun mark => mark.2.2) hmark
    exact h.counted before hbefore other count (hsame.trans hreports)

theorem Tracked.call (h : Tracked window emitter) (hnow : emitter.now ≤ nowMs) :
    Tracked window { emitter with now := nowMs } where
  last := h.last
  upto := h.upto
  spaced := h.spaced
  apart := h.apart
  past key time htouched := (h.past key time htouched).trans hnow
  waiting call hcall := (h.waiting call hcall).trans hnow
  counted := h.counted

theorem Tracked.wait (h : Tracked window emitter) {flushing : List FlushCall}
    (hwaiting : ∀ call ∈ flushing, call.nowMs ≤ emitter.now) :
    Tracked window { emitter with flushing } where
  last := h.last
  upto := h.upto
  spaced := h.spaced
  apart := h.apart
  past := h.past
  waiting := hwaiting
  counted := h.counted

theorem Tracked.emit {alert : Alert} {reports : Option (JsString × ℕ)} {emitted : Emitted}
    (h : Tracked window emitter) (hnow : nowMs ≤ emitter.now)
    (hreports : ∀ key count, reports = some (key, count) → 0 < count)
    (hkey : alertKey digest alert = some key)
    (hemit : emitter.emit window digest alert reports nowMs = some (emitter', emitted)) :
    Tracked window emitter' := by
  rcases emit_cases hkey hemit with ⟨current, hcurrent, -, rfl⟩ | ⟨hfree, rfl⟩
  · exact h.suppress hcurrent
  · exact h.send hfree hnow alert hreports

theorem now_emit {alert : Alert} {reports : Option (JsString × ℕ)} {emitted : Emitted}
    (hkey : alertKey digest alert = some key)
    (hemit : emitter.emit window digest alert reports nowMs = some (emitter', emitted)) :
    emitter'.now = emitter.now ∧ emitter'.flushing = emitter.flushing := by
  rcases emit_cases hkey hemit with ⟨current, -, -, rfl⟩ | ⟨-, rfl⟩
  · exact ⟨rfl, rfl⟩
  · exact ⟨rfl, rfl⟩

theorem Tracked.flushKeys (h : Tracked window emitter) (hnow : nowMs ≤ emitter.now)
    (keys : List JsString) : Tracked window (emitter.flushKeys window digest nowMs keys) := by
  rcases flushKeys_cases window digest emitter nowMs keys with
    ⟨-, hsame⟩ | ⟨key, snapshot, emitter', emitted, rest, -, hsnapshot, hcount, hwindow, hemit,
      hflush⟩
  · rw [hsame]
    exact h
  · rw [hflush]
    have hreset : Tracked window (emitter.reset key snapshot nowMs) :=
      h.reset hsnapshot hwindow hnow
    have hemitted : Tracked window emitter' := by
      refine hreset.emit hnow ?_ (alertKey_summaryAlert key _) hemit
      rintro key' count ⟨⟩
      exact hcount
    obtain ⟨hnow', hflushing⟩ := now_emit (alertKey_summaryAlert key _) hemit
    refine hemitted.wait fun call hcall => ?_
    rw [hnow']
    rcases List.mem_append.mp hcall with hcall | hcall
    · rw [hflushing] at hcall
      exact h.waiting call hcall
    · obtain rfl := List.mem_singleton.mp hcall
      exact hnow

/-! ## Steps -/

variable {alert : Alert} {i : ℕ} {ok : Bool}

theorem step_emit (h : emitter.step window digest (.emit alert nowMs) = some emitter') :
    emitter.now ≤ nowMs ∧
      ((alertKey digest alert = none ∧ emitter' = { emitter with now := nowMs }) ∨
        ∃ key emitted, alertKey digest alert = some key ∧
          Emitter.emit window digest { emitter with now := nowMs } alert none nowMs =
            some (emitter', emitted)) := by
  simp only [Emitter.step] at h
  split at h
  · next hnow =>
    refine ⟨hnow, ?_⟩
    split at h
    · next hemit =>
      cases h
      exact .inl ⟨Option.map_eq_none_iff.mp hemit, rfl⟩
    · next emitter₁ emitted hemit =>
      cases h
      obtain ⟨key, hkey, -⟩ := Option.map_eq_some_iff.mp hemit
      exact .inr ⟨key, emitted, hkey, hemit⟩
  · cases h

theorem step_flushSuppressed
    (h : emitter.step window digest (.flushSuppressed nowMs) = some emitter') :
    emitter.now ≤ nowMs ∧ emitter' = Emitter.flushKeys window digest
      { emitter with now := nowMs } nowMs (emitter.state.map Prod.fst) := by
  simp only [Emitter.step] at h
  split at h
  · next hnow =>
    cases h
    exact ⟨hnow, rfl⟩
  · cases h

theorem step_settle (h : emitter.step window digest (.settle i ok) = some emitter') :
    ∃ send, emitter.sends[i]? = some send ∧ send.outcome = none ∧
      emitter' = emitter.settle i ok := by
  simp only [Emitter.step] at h
  split at h
  · next send hsend =>
    split at h
    · next hpending =>
      cases h
      exact ⟨send, hsend, hpending, rfl⟩
    · cases h
  · cases h

theorem step_resume (h : emitter.step window digest (.resume i) = some emitter') :
    ∃ call, emitter.flushing[i]? = some call ∧ emitter' = Emitter.flushKeys window digest
      { emitter with flushing := emitter.flushing.eraseIdx i } call.nowMs call.keys := by
  simp only [Emitter.step] at h
  split at h
  · next call hcall =>
    split at h
    · cases h
      exact ⟨call, hcall, rfl⟩
    · cases h
  · cases h

/-- A waiting flush that goes on is none that waits. -/
theorem Tracked.erase (h : Tracked window emitter) (i : ℕ) :
    Tracked window { emitter with flushing := emitter.flushing.eraseIdx i } :=
  h.wait fun call hcall => h.waiting call (List.mem_of_mem_eraseIdx hcall)

/-- Every step keeps the times. -/
theorem Tracked.step (h : Tracked window emitter) {action : Action}
    (hstep : emitter.step window digest action = some emitter') : Tracked window emitter' := by
  cases action with
  | emit alert nowMs =>
    obtain ⟨hnow, ⟨-, rfl⟩ | ⟨key, emitted, hkey, hemit⟩⟩ := step_emit hstep
    · exact h.call hnow
    · refine (h.call hnow).emit (le_refl _) ?_ hkey hemit
      rintro other count ⟨⟩
  | flushSuppressed nowMs =>
    obtain ⟨hnow, rfl⟩ := step_flushSuppressed hstep
    exact (h.call hnow).flushKeys (le_refl _) _
  | settle i ok =>
    obtain ⟨send, -, -, rfl⟩ := step_settle hstep
    exact h.settle i ok
  | resume i =>
    obtain ⟨call, hcall, rfl⟩ := step_resume hstep
    exact (h.erase i).flushKeys (h.waiting call (List.mem_of_getElem? hcall)) _

/-! ## The condition -/

/-- No alert of a key is known to have failed, and its count has not been reset, within the last
window. -/
def Emitter.Calm (window : ℕ) (emitter : Emitter) (key : JsString) (time : ℤ) : Prop :=
  (∀ send ∈ emitter.sends, send.key = key → send.outcome = some false →
    (window : ℤ) ≤ time - send.time) ∧
  ∀ flush ∈ emitter.flushed, flush.key = key → (window : ℤ) ≤ time - flush.time

/-- Nothing was sent for a key, and its count was not reset, within the last window. -/
def Emitter.Quiet (window : ℕ) (emitter : Emitter) (key : JsString) (time : ℤ) : Prop :=
  (∀ send ∈ emitter.sends, send.key = key → (window : ℤ) ≤ time - send.time) ∧
  ∀ flush ∈ emitter.flushed, flush.key = key → (window : ℤ) ≤ time - flush.time

/-- The summary of the first key that is due can be sent. -/
def Emitter.Reportable (window : ℕ) (emitter : Emitter) (nowMs : ℤ) (keys : List JsString) : Prop :=
  ∀ key, keys.find? (emitter.due window nowMs) = some key →
    emitter.Quiet window (summaryKey key) nowMs

variable (window digest) in
/-- An alert does not follow a failed send or a flush of its key within the window, a flush does
not come to a key whose summary's key was used within the window, and no summary fails. -/
def Emitter.Clean (emitter : Emitter) : Action → Prop
  | .emit alert nowMs => ∀ key, alertKey digest alert = some key → emitter.Calm window key nowMs
  | .flushSuppressed nowMs => emitter.Reportable window nowMs (emitter.state.map Prod.fst)
  | .settle i ok => ok = false → ∀ send, emitter.sends[i]? = some send → send.reports = none
  | .resume i => ∀ call, emitter.flushing[i]? = some call →
    emitter.Reportable window call.nowMs call.keys

/-! ## Counts -/

theorem pending_send {reports : Option (JsString × ℕ)} (other : JsString) :
    (emitter.send key alert reports nowMs).pending other = emitter.pending other := by
  rw [Emitter.pending, Emitter.send, lookup_setMember, Emitter.pending]
  split_ifs with hkey
  · rw [hkey]
    cases emitter.state.lookup key <;> rfl
  · rfl

theorem reported_send {reports : Option (JsString × ℕ)} (other : JsString) :
    (emitter.send key alert reports nowMs).reported other =
      emitter.reported other + Send.reported other ⟨key, alert, nowMs, reports, none⟩ := by
  rw [Emitter.reported, Emitter.send, List.map_append, List.sum_append, Emitter.reported]
  rfl

theorem pending_suppress {current : DedupState} (hcurrent : emitter.state.lookup key = some current)
    (other : JsString) : (emitter.suppress key current nowMs).pending other =
      emitter.pending other + if key = other then 1 else 0 := by
  rw [Emitter.pending, Emitter.suppress, lookup_setMember, Emitter.pending]
  by_cases hkey : other = key
  · rw [if_pos hkey, if_pos hkey.symm, hkey, hcurrent]
    rfl
  · rw [if_neg hkey, if_neg (Ne.symm hkey), Nat.add_zero]

theorem countP_suppress {current : DedupState} (other : JsString) :
    (emitter.suppress key current nowMs).suppressed.countP
        (fun alert => decide (alert.key = other)) =
      emitter.suppressed.countP (fun alert => decide (alert.key = other)) +
        if key = other then 1 else 0 := by
  rw [Emitter.suppress, List.countP_append, List.countP_singleton]
  simp only [decide_eq_true_eq]

theorem pending_reset {snapshot : DedupState} (other : JsString) :
    (emitter.reset key snapshot nowMs).pending other =
      if other = key then 0 else emitter.pending other := by
  rw [Emitter.pending, Emitter.reset, lookup_setMember, Emitter.pending]
  split_ifs <;> rfl

/-- An answer changes what one send reports. -/
theorem reported_settle {send : Send} (hsend : emitter.sends[i]? = some send) (other : JsString) :
    (emitter.settle i ok).reported other + send.reported other =
      emitter.reported other + Send.reported other { send with outcome := some ok } := by
  obtain ⟨hi, rfl⟩ := List.getElem?_eq_some_iff.mp hsend
  obtain ⟨before, send, behind, hsends, hlength, hmodify⟩ :=
    List.exists_of_modify (fun send : Send => { send with outcome := some ok }) hi
  have hself : emitter.sends[i] = send := by
    subst hlength
    simp [hsends]
  rw [hself, Emitter.reported, Emitter.settle, hmodify, Emitter.reported, hsends]
  simp only [List.map_append, List.map_cons, List.sum_append, List.sum_cons]
  omega

/-! ## One step -/

theorem Sound.send (h : Sound window emitter) (htracked : Tracked window emitter)
    (hfree : emitter.Free window key nowMs) : Sound window (emitter.send key alert none nowMs) where
  justified := h.justified
  spaced := by
    refine List.pairwise_append.mpr ⟨h.spaced, List.pairwise_singleton _ _, ?_⟩
    intro a ha b hb hkeys
    obtain rfl := List.mem_singleton.mp hb
    exact htracked.window_le hfree (.inl ⟨a, ha, hkeys, rfl⟩)
  conserved other := by
    rw [pending_send, reported_send]
    exact h.conserved other

/-- A suppression is sound exactly if a send justifies it. -/
theorem sound_suppress_iff {current : DedupState} (h : Sound window emitter)
    (hcurrent : emitter.state.lookup key = some current) :
    Sound window (emitter.suppress key current nowMs) ↔ ∃ send ∈ emitter.sends,
      send.key = key ∧ send.outcome ≠ some false ∧ nowMs - send.time < window := by
  constructor
  · intro hsound
    exact hsound.justified ⟨key, nowMs, emitter.sends⟩ (List.mem_append_right _ (by simp))
  · intro hjustified
    refine ⟨?_, h.spaced, fun other => ?_⟩
    · intro alert halert
      rcases List.mem_append.mp halert with halert | halert
      · exact h.justified alert halert
      · obtain rfl := List.mem_singleton.mp halert
        exact hjustified
    · rw [countP_suppress, pending_suppress hcurrent, h.conserved other]
      have hsame : (emitter.suppress key current nowMs).reported other = emitter.reported other :=
        rfl
      omega

/-- Of two sends for one key that are not the same one is a window before the other. -/
theorem Tracked.window_between (h : Tracked window emitter) {a b : Send} (ha : a ∈ emitter.sends)
    (hb : b ∈ emitter.sends) (hne : a ≠ b) (hkeys : a.key = b.key) :
    (window : ℤ) ≤ a.time - b.time ∨ (window : ℤ) ≤ b.time - a.time := by
  have hspaced := List.pairwise_iff_getElem.mp h.spaced
  obtain ⟨i, hi, rfl⟩ := List.getElem_of_mem ha
  obtain ⟨j, hj, rfl⟩ := List.getElem_of_mem hb
  rcases Nat.lt_trichotomy i j with hlt | rfl | hgt
  · exact .inr (hspaced i j hi hj hlt hkeys)
  · exact absurd rfl hne
  · exact .inl (hspaced j i hj hi hgt hkeys.symm)

/-- Within the window a key is calm exactly if its last use was a send that has not failed. -/
theorem Tracked.calm_iff {current : DedupState} (h : Tracked window emitter)
    (hnow : emitter.now ≤ nowMs) (hcurrent : emitter.state.lookup key = some current)
    (hwithin : nowMs - current.lastSentAt < window) :
    emitter.Calm window key nowMs ↔ ∃ send ∈ emitter.sends,
      send.key = key ∧ send.outcome ≠ some false ∧ nowMs - send.time < window := by
  constructor
  · rintro ⟨hsends, hflushed⟩
    rcases h.last key current hcurrent with
      ⟨send, hsend, hkey, htime⟩ | ⟨flush, hflush, hkey, htime⟩
    · rw [← htime] at hwithin
      refine ⟨send, hsend, hkey, fun hfailed => ?_, hwithin⟩
      exact absurd (hsends send hsend hkey hfailed) (not_le.mpr hwithin)
    · rw [← htime] at hwithin
      exact absurd (hflushed flush hflush hkey) (not_le.mpr hwithin)
  · rintro ⟨send, hsend, hkey, houtcome, hrecent⟩
    have hpast := h.past key send.time (.inl ⟨send, hsend, hkey, rfl⟩)
    constructor
    · intro other hother hsame hfailed
      have hne : other ≠ send := fun heq => houtcome (heq ▸ hfailed)
      have hotherPast := h.past key other.time (.inl ⟨other, hother, hsame, rfl⟩)
      have hbetween := h.window_between hother hsend hne (hsame.trans hkey.symm)
      omega
    · intro flush hflush hsame
      have hflushPast := h.past key flush.time (.inr ⟨flush, hflush, hsame, rfl⟩)
      have hbetween := h.apart send hsend flush hflush (hkey.trans hsame.symm)
      omega

/-- What the emitter has done does not depend on its calls that wait. -/
theorem sound_call_iff {now : ℤ} :
    Sound window { emitter with now } ↔ Sound window emitter :=
  ⟨fun h => ⟨h.justified, h.spaced, h.conserved⟩, fun h => ⟨h.justified, h.spaced, h.conserved⟩⟩

theorem sound_wait_iff {flushing : List FlushCall} :
    Sound window { emitter with flushing } ↔ Sound window emitter :=
  ⟨fun h => ⟨h.justified, h.spaced, h.conserved⟩, fun h => ⟨h.justified, h.spaced, h.conserved⟩⟩

/-- A free key is calm. -/
theorem Tracked.calm_of_free (h : Tracked window emitter) (hfree : emitter.Free window key nowMs) :
    emitter.Calm window key nowMs :=
  ⟨fun send hsend hkey _ => h.window_le hfree (.inl ⟨send, hsend, hkey, rfl⟩),
    fun flush hflush hkey => h.window_le hfree (.inr ⟨flush, hflush, hkey, rfl⟩)⟩

/-- An alert keeps the emitter sound exactly if its key is calm. -/
theorem sound_emit_iff {emitted : Emitted} (h : Sound window emitter)
    (htracked : Tracked window emitter) (hnow : emitter.now ≤ nowMs)
    (hkey : alertKey digest alert = some key)
    (hemit : emitter.emit window digest alert none nowMs = some (emitter', emitted)) :
    Sound window emitter' ↔ emitter.Calm window key nowMs := by
  rcases emit_cases hkey hemit with ⟨current, hcurrent, hwithin, rfl⟩ | ⟨hfree, rfl⟩
  · rw [sound_suppress_iff h hcurrent, htracked.calm_iff hnow hcurrent hwithin]
  · exact iff_of_true (h.send htracked hfree) (htracked.calm_of_free hfree)

theorem lookup_reset_of_ne {snapshot : DedupState} {other : JsString} (hne : other ≠ key) :
    (emitter.reset key snapshot nowMs).state.lookup other = emitter.state.lookup other := by
  rw [Emitter.reset, lookup_setMember, if_neg hne]

theorem pending_of_lookup {snapshot : DedupState}
    (hsnapshot : emitter.state.lookup key = some snapshot) :
    emitter.pending key = snapshot.suppressedCount := by
  rw [Emitter.pending, hsnapshot]
  rfl

/-- The summary is sent: what was counted is reported. -/
theorem Sound.report {snapshot : DedupState} (h : Sound window emitter)
    (hsnapshot : emitter.state.lookup key = some snapshot)
    (hspaced : ((emitter.reset key snapshot nowMs).send (summaryKey key)
      (summaryAlert key snapshot.suppressedCount) (some (key, snapshot.suppressedCount))
        nowMs).sends.Pairwise fun a b => a.key = b.key → (window : ℤ) ≤ b.time - a.time) :
    Sound window ((emitter.reset key snapshot nowMs).send (summaryKey key)
      (summaryAlert key snapshot.suppressedCount) (some (key, snapshot.suppressedCount))
        nowMs) where
  justified := h.justified
  spaced := hspaced
  conserved other := by
    have hconserved := h.conserved other
    have hreported : (emitter.reset key snapshot nowMs).reported other = emitter.reported other :=
      rfl
    rw [pending_send, reported_send, pending_reset, hreported]
    change emitter.suppressed.countP (fun alert => decide (alert.key = other)) = _
    by_cases hother : other = key
    · subst hother
      have hpending := pending_of_lookup hsnapshot
      have hcounted : Send.reported other ⟨summaryKey other,
          summaryAlert other snapshot.suppressedCount, nowMs,
            some (other, snapshot.suppressedCount), none⟩ = snapshot.suppressedCount :=
        if_pos ⟨rfl, by simp⟩
      rw [if_pos rfl, hcounted]
      omega
    · have hcounted : Send.reported other ⟨summaryKey key,
          summaryAlert key snapshot.suppressedCount, nowMs,
            some (key, snapshot.suppressedCount), none⟩ = 0 :=
        if_neg fun hsame => hother hsame.1.symm
      rw [if_neg hother, hcounted]
      omega

/-- The summary is suppressed: what was counted is lost. -/
theorem not_sound_of_lost {snapshot current : DedupState} (h : Sound window emitter)
    (hsnapshot : emitter.state.lookup key = some snapshot) (hcount : 0 < snapshot.suppressedCount)
    (hcurrent : (emitter.reset key snapshot nowMs).state.lookup (summaryKey key) = some current) :
    ¬Sound window ((emitter.reset key snapshot nowMs).suppress (summaryKey key) current nowMs) := by
  intro hsound
  have hafter := hsound.conserved key
  rw [countP_suppress, pending_suppress hcurrent, pending_reset, if_pos rfl,
    if_neg (summaryKey_ne key)] at hafter
  have hbefore := h.conserved key
  have hpending := pending_of_lookup hsnapshot
  have hsuppressed : (emitter.reset key snapshot nowMs).suppressed = emitter.suppressed := rfl
  have hreported : ((emitter.reset key snapshot nowMs).suppress (summaryKey key) current
      nowMs).reported key = emitter.reported key := rfl
  rw [hsuppressed, hreported] at hafter
  omega

/-- A flush keeps the emitter sound exactly if the summary it emits can be sent. -/
theorem sound_flushKeys_iff (h : Sound window emitter) (htracked : Tracked window emitter)
    (hnow : nowMs ≤ emitter.now) (keys : List JsString) :
    Sound window (emitter.flushKeys window digest nowMs keys) ↔
      emitter.Reportable window nowMs keys := by
  rcases flushKeys_cases window digest emitter nowMs keys with
    ⟨hnone, hsame⟩ | ⟨key, snapshot, emitter', emitted, rest, hfound, hsnapshot, hcount, hwindow,
      hemit, hflush⟩
  · rw [hsame]
    refine iff_of_true h fun key hkey => ?_
    rw [hnone] at hkey
    cases hkey
  · have hreportable : emitter.Reportable window nowMs keys ↔
        emitter.Quiet window (summaryKey key) nowMs := by
      rw [Emitter.Reportable, hfound]
      simp
    rw [hflush, sound_wait_iff, hreportable]
    have hreset : Tracked window (emitter.reset key snapshot nowMs) :=
      htracked.reset hsnapshot hwindow hnow
    rcases emit_cases (alertKey_summaryAlert key _) hemit with
      ⟨current, hcurrent, hwithin, rfl⟩ | ⟨hfree, rfl⟩
    · refine iff_of_false (not_sound_of_lost h hsnapshot hcount hcurrent) fun hquiet => ?_
      rw [lookup_reset_of_ne (summaryKey_ne key)] at hcurrent
      rcases htracked.last _ current hcurrent with
        ⟨send, hsend, hkey, htime⟩ | ⟨flush, hflushed, hkey, htime⟩
      · exact absurd (hquiet.1 send hsend hkey) (by omega)
      · exact absurd (hquiet.2 flush hflushed hkey) (by omega)
    · have hcounted : ∀ other count, some (key, snapshot.suppressedCount) = some (other, count) →
          0 < count := by
        rintro other count ⟨⟩
        exact hcount
      have hsent := hreset.send hfree hnow (summaryAlert key snapshot.suppressedCount) hcounted
      have hfree' : emitter.Free window (summaryKey key) nowMs := by
        intro current hcurrent
        rw [← lookup_reset_of_ne (summaryKey_ne key)] at hcurrent
        exact hfree current hcurrent
      refine iff_of_true (h.report hsnapshot hsent.spaced) ⟨?_, ?_⟩
      · exact fun send hsend hkey => htracked.window_le hfree' (.inl ⟨send, hsend, hkey, rfl⟩)
      · exact fun flush hflushed hkey =>
          htracked.window_le hfree' (.inr ⟨flush, hflushed, hkey, rfl⟩)

/-- An answer keeps the emitter sound exactly if no summary fails. -/
theorem sound_settle_iff {send : Send} (h : Sound window emitter)
    (htracked : Tracked window emitter) (hsend : emitter.sends[i]? = some send)
    (hpending : send.outcome = none) :
    Sound window (emitter.settle i ok) ↔ (ok = false → send.reports = none) := by
  have hspaced := (htracked.settle i ok).spaced
  have hreported (other : JsString) : (emitter.settle i ok).reported other + send.reported other =
      emitter.reported other + Send.reported other { send with outcome := some ok } :=
    reported_settle hsend other
  have hsuppressed : (emitter.settle i ok).suppressed = emitter.suppressed := rfl
  have hcounts (other : JsString) :
      (emitter.settle i ok).pending other = emitter.pending other := rfl
  constructor
  · intro hsound hok
    subst hok
    by_contra hreports
    obtain ⟨⟨key, count⟩, hreports⟩ := Option.ne_none_iff_exists'.mp hreports
    have hcount := htracked.counted send (List.mem_of_getElem? hsend) key count hreports
    have hwas : send.reported key = count := by simp [Send.reported, hreports, hpending]
    have his : Send.reported key { send with outcome := some false } = 0 := by
      simp [Send.reported, hreports]
    have hbefore := h.conserved key
    have hafter := hsound.conserved key
    rw [hsuppressed, hcounts] at hafter
    have hanswered := hreported key
    omega
  · intro hreports
    refine ⟨h.justified, hspaced, fun other => ?_⟩
    have hkept : Send.reported other { send with outcome := some ok } = send.reported other := by
      cases ok with
      | true => simp [Send.reported, hpending]
      | false => simp [Send.reported, hreports rfl]
    have hbefore := h.conserved other
    have hanswered := hreported other
    rw [hsuppressed, hcounts]
    omega

/-- **One step.** A step keeps the emitter sound exactly if it meets the condition. -/
theorem sound_step_iff (h : Sound window emitter) (htracked : Tracked window emitter)
    {action : Action} (hstep : emitter.step window digest action = some emitter') :
    Sound window emitter' ↔ emitter.Clean window digest action := by
  cases action with
  | emit alert nowMs =>
    obtain ⟨hnow, ⟨hkey, rfl⟩ | ⟨key, emitted, hkey, hemit⟩⟩ := step_emit hstep
    · rw [sound_call_iff]
      refine iff_of_true h fun key hother => ?_
      rw [hkey] at hother
      cases hother
    · rw [sound_emit_iff (sound_call_iff.mpr h) (htracked.call hnow) (le_refl _) hkey hemit,
        Emitter.Clean, hkey]
      simp [Emitter.Calm]
  | flushSuppressed nowMs =>
    obtain ⟨hnow, rfl⟩ := step_flushSuppressed hstep
    exact sound_flushKeys_iff (sound_call_iff.mpr h) (htracked.call hnow) (le_refl _) _
  | settle i ok =>
    obtain ⟨send, hsend, hpending, rfl⟩ := step_settle hstep
    rw [sound_settle_iff h htracked hsend hpending, Emitter.Clean, hsend]
    simp
  | resume i =>
    obtain ⟨call, hcall, rfl⟩ := step_resume hstep
    have hpast := htracked.waiting call (List.mem_of_getElem? hcall)
    rw [sound_flushKeys_iff (sound_wait_iff.mpr h) (htracked.erase i) hpast, Emitter.Clean, hcall]
    constructor
    · rintro hreportable other ⟨⟩
      exact hreportable
    · exact fun hreportable => hreportable call rfl

/-! ## Runs -/

theorem Sound.new (now : ℤ) : Sound window (.new now) where
  justified := by simp [Emitter.new]
  spaced := .nil
  conserved key := rfl

theorem Run.tracked {steps : List (Emitter × Action)} (h : Run window digest steps emitter) :
    Tracked window emitter := by
  induction h with
  | start now => exact .new now
  | step _ hstep ih => exact ih.step hstep

/-- **Runs.** In a run, the emitter is sound in every state exactly if every step meets the
condition. -/
theorem sound_iff_clean {steps : List (Emitter × Action)} (h : Run window digest steps emitter) :
    ((∀ step ∈ steps, Sound window step.1) ∧ Sound window emitter) ↔
      ∀ step ∈ steps, step.1.Clean window digest step.2 := by
  induction h with
  | start now => simp [Sound.new]
  | step hrun hstep ih =>
    rw [List.forall_mem_append, List.forall_mem_singleton, List.forall_mem_append,
      List.forall_mem_singleton, ih]
    refine and_congr_right fun hclean => ?_
    exact sound_step_iff (ih.mpr hclean).2 hrun.tracked hstep

/-! ## Repeated alerts -/

def degradedAlert : Alert :=
  ⟨some (js "SecurityDegraded"), .critical, js "safe mode no-egress failed", none⟩

/-- The alert is on its way. -/
def sendingEmitter : Emitter :=
  (Emitter.new 1000).send (js "SecurityDegraded") degradedAlert none 1000

/-- Its send has failed. -/
def failedEmitter : Emitter := sendingEmitter.settle 0 false

/-- The alert comes again. -/
def repeatedEmitter (emitter : Emitter) : Emitter :=
  Emitter.suppress { emitter with now := 1010 } (js "SecurityDegraded") ⟨1000, 1000, 0⟩ 1010

theorem run_sending : Run 50 id [(.new 1000, .emit degradedAlert 1000)] sendingEmitter :=
  .step (.start 1000) rfl

theorem run_repeated : Run 50 id [(.new 1000, .emit degradedAlert 1000),
    (sendingEmitter, .emit degradedAlert 1010)] (repeatedEmitter sendingEmitter) :=
  .step run_sending rfl

theorem run_failed : Run 50 id [(.new 1000, .emit degradedAlert 1000),
    (sendingEmitter, .settle 0 false), (failedEmitter, .emit degradedAlert 1010)]
      (repeatedEmitter failedEmitter) :=
  .step (.step run_sending rfl) rfl

theorem sound_iff_clean_repeated : Run 50 id [(.new 1000, .emit degradedAlert 1000),
    (sendingEmitter, .emit degradedAlert 1010)] (repeatedEmitter sendingEmitter) ∧
      (((∀ step ∈ [(Emitter.new 1000, Action.emit degradedAlert 1000),
        (sendingEmitter, .emit degradedAlert 1010)], Sound 50 step.1) ∧
          Sound 50 (repeatedEmitter sendingEmitter)) ↔
        ∀ step ∈ [(Emitter.new 1000, Action.emit degradedAlert 1000),
          (sendingEmitter, .emit degradedAlert 1010)], step.1.Clean 50 id step.2) :=
  ⟨run_repeated, sound_iff_clean run_repeated⟩

/-- **A failed send.** An alert whose only send has failed is suppressed ten milliseconds later. -/
theorem suppressed_after_failure :
    ∃ steps emitter, Run 50 id steps emitter ∧ ¬Sound 50 emitter := by
  refine ⟨_, _, run_failed, fun hsound => ?_⟩
  obtain ⟨send, hsend, -, houtcome, -⟩ := hsound.justified
    ⟨js "SecurityDegraded", 1010, failedEmitter.sends⟩ (List.mem_append_right _ (by simp))
  have hfailed : failedEmitter.sends =
      [⟨js "SecurityDegraded", degradedAlert, 1000, none, some false⟩] := rfl
  rw [hfailed, List.mem_singleton] at hsend
  subst hsend
  exact houtcome rfl

end MemphisOS.Runtime
