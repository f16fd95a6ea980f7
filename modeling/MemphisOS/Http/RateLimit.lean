import MemphisOS.Ecma.Maps
import MemphisOS.Gateway.ExecPolicy
import MemphisOS.Systems.FixedWindows
import Mathlib.Algebra.Order.Ring.Int

/-!
# The rate limiter

The limiter keeps a bucket for each key: the requests of the current window, and when it ends.
Instants are of any ordered group, such as whole milliseconds.
-/

namespace MemphisOS.Http

open Ecma FixedWindows

variable {Time : Type} [AddCommGroup Time] [LinearOrder Time]

/-! ## The limiter -/

structure Bucket (Time : Type) where
  count : ℕ
  resetAt : Time
  deriving DecidableEq

abbrev Buckets (Time : Type) := List (JsString × Bucket Time)

structure RateLimiter (Time : Type) where
  maxRequests : ℕ
  windowMs : Time

/-- What `check` throws. -/
structure RateLimited (Time : Type) where
  error : AppError
  retryAfterMs : Time

def rateLimited (retryAfterMs : Time) : RateLimited Time :=
  ⟨⟨.providerRateLimit, js "Rate limit exceeded", 429⟩, retryAfterMs⟩

namespace RateLimiter

variable (limiter : RateLimiter Time)

def check (buckets : Buckets Time) (key : JsString) (now : Time) :
    Except (RateLimited Time) Unit × Buckets Time :=
  match buckets.lookup key with
  | none => (.ok (), setMember key ⟨1, now + limiter.windowMs⟩ buckets)
  | some bucket =>
    if bucket.resetAt ≤ now then (.ok (), setMember key ⟨1, now + limiter.windowMs⟩ buckets)
    else if limiter.maxRequests ≤ bucket.count then
      (.error (rateLimited (bucket.resetAt - now)), buckets)
    else (.ok (), setMember key { bucket with count := bucket.count + 1 } buckets)

end RateLimiter

/-! ## Histories -/

/-- A call of `check`. -/
structure Check (Time : Type) where
  key : JsString
  now : Time

namespace RateLimiter

variable (limiter : RateLimiter Time)

/-- The checks one after another, each with its outcome. -/
def decisions : Buckets Time → List (Check Time) →
    List (Check Time × Except (RateLimited Time) Unit)
  | _, [] => []
  | buckets, c :: checks =>
    let outcome := limiter.check buckets c.key c.now
    (c, outcome.1) :: decisions outcome.2 checks

/-- The buckets after the checks. -/
def bucketsAfter (buckets : Buckets Time) (checks : List (Check Time)) : Buckets Time :=
  checks.foldl (fun buckets c => (limiter.check buckets c.key c.now).2) buckets

/-- When a key was checked. -/
def times (key : JsString) (checks : List (Check Time)) : List Time :=
  (checks.filter fun c => c.key = key).map Check.now

/-- When a check of the key was accepted. -/
def accepted (key : JsString) (decided : List (Check Time × Except (RateLimited Time) Unit)) :
    List Time :=
  (decided.filter fun d => d.1.key = key ∧ d.2.isOk).map fun d => d.1.now

/-- The starts of the windows of a key: the first check of it, and each first check at or after
the end of the window before. -/
def windows (key : JsString) (checks : List (Check Time)) : List Time :=
  starts limiter.windowMs none (times key checks)

variable {limiter}

theorem length_decisions (buckets : Buckets Time) (checks : List (Check Time)) :
    (limiter.decisions buckets checks).length = checks.length := by
  induction checks generalizing buckets with
  | nil => rfl
  | cons c checks ih => exact congrArg Nat.succ (ih _)

theorem decisions_append (buckets : Buckets Time) (before after : List (Check Time)) :
    limiter.decisions buckets (before ++ after) =
      limiter.decisions buckets before ++
        limiter.decisions (limiter.bucketsAfter buckets before) after := by
  induction before generalizing buckets with
  | nil => rfl
  | cons c before ih => exact congrArg (List.cons _) (ih _)

/-! ## One key -/

/-- What a check does to the bucket of its key. -/
def checkBucket (limiter : RateLimiter Time) (bucket : Option (Bucket Time)) (now : Time) :
    Except (RateLimited Time) Unit × Option (Bucket Time) :=
  match bucket with
  | none => (.ok (), some ⟨1, now + limiter.windowMs⟩)
  | some bucket =>
    if bucket.resetAt ≤ now then (.ok (), some ⟨1, now + limiter.windowMs⟩)
    else if limiter.maxRequests ≤ bucket.count then
      (.error (rateLimited (bucket.resetAt - now)), some bucket)
    else (.ok (), some { bucket with count := bucket.count + 1 })

variable {buckets : Buckets Time} {key key' : JsString} {now : Time}
  {bucket : Option (Bucket Time)}

theorem check_outcome :
    (limiter.check buckets key now).1 = (limiter.checkBucket (buckets.lookup key) now).1 := by
  unfold check checkBucket
  cases buckets.lookup key with
  | none => rfl
  | some bucket =>
    dsimp only
    split_ifs <;> rfl

/-- A check changes the bucket of its key only. -/
theorem lookup_check :
    (limiter.check buckets key now).2.lookup key' =
      if key' = key then (limiter.checkBucket (buckets.lookup key) now).2
      else buckets.lookup key' := by
  unfold check checkBucket
  by_cases hkey : key' = key
  · subst hkey
    rw [if_pos rfl]
    cases hbucket : buckets.lookup key' with
    | none => exact (lookup_setMember ..).trans (if_pos rfl)
    | some bucket =>
      dsimp only
      split_ifs
      · exact (lookup_setMember ..).trans (if_pos rfl)
      · exact hbucket
      · exact (lookup_setMember ..).trans (if_pos rfl)
  · rw [if_neg hkey]
    cases buckets.lookup key with
    | none => exact (lookup_setMember ..).trans (if_neg hkey)
    | some bucket =>
      dsimp only
      split_ifs
      · exact (lookup_setMember ..).trans (if_neg hkey)
      · rfl
      · exact (lookup_setMember ..).trans (if_neg hkey)

/-- **Independence.** What is decided for a key depends on the checks of the key alone. -/
theorem filter_decisions (checks : List (Check Time)) {buckets buckets' : Buckets Time}
    (hbuckets : buckets.lookup key = buckets'.lookup key) :
    (limiter.decisions buckets checks).filter (fun d => d.1.key = key) =
      limiter.decisions buckets' (checks.filter fun c => c.key = key) := by
  induction checks generalizing buckets buckets' with
  | nil => rfl
  | cons c checks ih =>
    by_cases hkey : c.key = key
    · subst hkey
      simp only [decisions, List.filter_cons, decide_true, if_true, check_outcome, hbuckets]
      congr 1
      refine ih ?_
      rw [lookup_check, lookup_check, if_pos rfl, if_pos rfl, hbuckets]
    · simp only [decisions, List.filter_cons, hkey, decide_false, Bool.false_eq_true, if_false]
      refine ih ?_
      rw [lookup_check, if_neg (Ne.symm hkey), hbuckets]

/-- When a key is accepted, among the instants at which it is checked. -/
def acceptedFrom (limiter : RateLimiter Time) : Option (Bucket Time) → List Time → List Time
  | _, [] => []
  | bucket, now :: times =>
    let outcome := limiter.checkBucket bucket now
    if outcome.1.isOk then now :: acceptedFrom limiter outcome.2 times
    else acceptedFrom limiter outcome.2 times

theorem acceptedFrom_of_ok {bucket' : Option (Bucket Time)}
    (h : limiter.checkBucket bucket now = (.ok (), bucket')) (times : List Time) :
    limiter.acceptedFrom bucket (now :: times) = now :: limiter.acceptedFrom bucket' times := by
  rw [acceptedFrom, h]
  rfl

theorem acceptedFrom_of_error {error : RateLimited Time} {bucket' : Option (Bucket Time)}
    (h : limiter.checkBucket bucket now = (.error error, bucket')) (times : List Time) :
    limiter.acceptedFrom bucket (now :: times) = limiter.acceptedFrom bucket' times := by
  rw [acceptedFrom, h]
  rfl

theorem accepted_decisions (checks : List (Check Time)) (buckets : Buckets Time) :
    accepted key (limiter.decisions buckets checks) =
      limiter.acceptedFrom (buckets.lookup key) (times key checks) := by
  induction checks generalizing buckets with
  | nil => rfl
  | cons c checks ih =>
    have hrest := ih (limiter.check buckets c.key c.now).2
    rw [lookup_check] at hrest
    unfold accepted times at *
    by_cases hkey : c.key = key
    · subst hkey
      simp only [decisions, List.filter_cons, decide_true, if_true, true_and, List.map_cons,
        acceptedFrom, check_outcome, decide_eq_true_eq, apply_ite (List.map _)]
      rw [hrest, if_pos rfl]
    · rw [if_neg (Ne.symm hkey)] at hrest
      simp only [decisions, List.filter_cons, hkey, false_and, decide_false, Bool.false_eq_true,
        if_false]
      exact hrest

/-! ## Windows -/

/-- The bucket of a key ends with the last window. -/
def Tracks (limiter : RateLimiter Time) (bucket : Option (Bucket Time)) (last : Option Time) :
    Prop :=
  bucket.map Bucket.resetAt = last.map (· + limiter.windowMs)

variable {last : Option Time}

theorem Tracks.expired (h : Tracks limiter bucket last) (hnew : Expired limiter.windowMs last now) :
    limiter.checkBucket bucket now = (.ok (), some ⟨1, now + limiter.windowMs⟩) := by
  cases last with
  | none =>
    obtain rfl := Option.map_eq_none_iff.mp h
    rfl
  | some s =>
    obtain ⟨b, rfl, hreset⟩ := Option.map_eq_some_iff.mp h
    exact if_pos (hreset.le.trans (hnew s rfl))

theorem Tracks.current (h : Tracks limiter bucket last)
    (hnew : ¬ Expired limiter.windowMs last now) :
    ∃ b, bucket = some b ∧ now < b.resetAt := by
  simp only [Expired, not_forall, not_le] at hnew
  obtain ⟨s, rfl, hlt⟩ := hnew
  obtain ⟨b, rfl, hreset⟩ := Option.map_eq_some_iff.mp h
  exact ⟨b, rfl, hlt.trans_eq hreset.symm⟩

theorem checkBucket_full {b : Bucket Time} (h : now < b.resetAt)
    (hfull : limiter.maxRequests ≤ b.count) :
    limiter.checkBucket (some b) now = (.error (rateLimited (b.resetAt - now)), some b) := by
  rw [checkBucket, if_neg h.not_ge, if_pos hfull]

theorem checkBucket_counted {b : Bucket Time} (h : now < b.resetAt)
    (hfull : ¬ limiter.maxRequests ≤ b.count) :
    limiter.checkBucket (some b) now = (.ok (), some ⟨b.count + 1, b.resetAt⟩) := by
  rw [checkBucket, if_neg h.not_ge, if_neg hfull]

theorem Tracks.next (h : Tracks limiter bucket last) (now : Time) :
    Tracks limiter (limiter.checkBucket bucket now).2
      ((starts limiter.windowMs last [now]).getLast?.or last) := by
  by_cases hnew : Expired limiter.windowMs last now
  · rw [h.expired hnew, starts_cons_of_expired hnew]
    rfl
  · obtain ⟨b, rfl, hlt⟩ := h.current hnew
    rw [starts_cons_of_not_expired hnew]
    by_cases hfull : limiter.maxRequests ≤ b.count
    · rw [checkBucket_full hlt hfull]
      exact h
    · rw [checkBucket_counted hlt hfull]
      exact h

/-- The buckets end with the last windows. -/
theorem tracks_bucketsAfter (key : JsString) (checks : List (Check Time)) :
    Tracks limiter ((limiter.bucketsAfter [] checks).lookup key)
      (limiter.windows key checks).getLast? := by
  induction checks using List.reverseRecOn with
  | nil => rfl
  | append_singleton checks c ih =>
    have hnext := ih.next c.now
    rw [bucketsAfter, List.foldl_append, List.foldl_cons, List.foldl_nil, lookup_check, windows,
      times, List.filter_append, List.map_append, starts_append, List.getLast?_append]
    rw [windows, times] at hnext ih
    rw [Option.or_none]
    by_cases hkey : c.key = key
    · subst hkey
      simp only [List.filter_cons, decide_true, if_true, List.filter_nil, List.map_cons,
        List.map_nil]
      exact hnext
    · rw [if_neg (Ne.symm hkey)]
      simp only [List.filter_cons, hkey, decide_false, Bool.false_eq_true, if_false,
        List.filter_nil, List.map_nil, starts, List.getLast?_nil, Option.none_or]
      exact ih

theorem acceptedFrom_sublist (bucket : Option (Bucket Time)) (times : List Time) :
    (limiter.acceptedFrom bucket times).Sublist times := by
  induction times generalizing bucket with
  | nil => exact List.Sublist.slnil
  | cons now times ih =>
    rw [acceptedFrom]
    split_ifs
    · exact (ih _).cons_cons _
    · exact (ih _).cons _

/-- In each window that starts, and in what is left of the one before, the requests are counted
up to the limit. -/
theorem length_within_acceptedFrom [IsOrderedAddMonoid Time] {times : List Time}
    (htimes : times.Pairwise (· ≤ ·)) (hmax : 1 ≤ limiter.maxRequests)
    (hw : 0 < limiter.windowMs) (h : Tracks limiter bucket last)
    (hcount : ∀ b ∈ bucket, b.count ≤ limiter.maxRequests) :
    (∀ s ∈ starts limiter.windowMs last times,
      (within s limiter.windowMs (limiter.acceptedFrom bucket times)).length ≤
        limiter.maxRequests) ∧
    ∀ s ∈ last, ∀ b ∈ bucket,
      (within s limiter.windowMs (limiter.acceptedFrom bucket times)).length + b.count ≤
        limiter.maxRequests := by
  induction times generalizing bucket last with
  | nil =>
    exact ⟨fun s hs => (by cases hs), fun s _ b hb => (Nat.zero_add _).trans_le (hcount b hb)⟩
  | cons now times ih =>
    by_cases hnew : Expired limiter.windowMs last now
    · have hone : ∀ b ∈ some (⟨1, now + limiter.windowMs⟩ : Bucket Time),
          b.count ≤ limiter.maxRequests := by
        intro b hb
        obtain rfl := Option.some.inj hb
        exact hmax
      have htracks : Tracks limiter (some ⟨1, now + limiter.windowMs⟩) (some now) := rfl
      obtain ⟨hstarts, hcurrent⟩ := ih htimes.of_cons htracks hone
      have hcurrent := hcurrent now rfl _ rfl
      have hfrom := acceptedFrom_of_ok (h.expired hnew) times
      rw [starts_cons_of_expired hnew]
      constructor
      · intro s hs
        rw [hfrom]
        rcases List.mem_cons.mp hs with rfl | hs
        · rw [within_cons_of_mem ⟨le_rfl, lt_add_of_pos_right s hw⟩, List.length_cons]
          exact hcurrent
        · have hlater : now < s := (lt_add_of_pos_right now hw).trans_le
            (expired_of_mem_starts htimes.of_cons hs now rfl)
          rw [within_cons_of_not_mem fun hin => absurd hlater hin.1.not_gt]
          exact hstarts s hs
      · intro s hs b hb
        have hnone :
            within s limiter.windowMs (limiter.acceptedFrom bucket (now :: times)) = [] := by
          refine List.eq_nil_iff_forall_not_mem.mpr fun t ht => ?_
          obtain ⟨hmem, -, hlt⟩ := mem_within.mp ht
          have hle : now ≤ t := by
            rcases List.mem_cons.mp ((acceptedFrom_sublist _ _).subset hmem) with rfl | hmem
            · exact le_rfl
            · exact (List.pairwise_cons.mp htimes).1 t hmem
          exact absurd hlt ((hnew s hs).trans hle).not_gt
        rw [hnone, List.length_nil, Nat.zero_add]
        exact hcount b hb
    · obtain ⟨b, rfl, hlt⟩ := h.current hnew
      rw [starts_cons_of_not_expired hnew]
      by_cases hfull : limiter.maxRequests ≤ b.count
      · rw [acceptedFrom_of_error (checkBucket_full hlt hfull)]
        exact ih htimes.of_cons h hcount
      · have hcounted : ∀ b' ∈ some (⟨b.count + 1, b.resetAt⟩ : Bucket Time),
            b'.count ≤ limiter.maxRequests := by
          intro b' hb'
          obtain rfl := Option.some.inj hb'
          exact Nat.lt_of_not_le hfull
        have htracks : Tracks limiter (some ⟨b.count + 1, b.resetAt⟩) last := h
        obtain ⟨hstarts, hcurrent⟩ := ih htimes.of_cons htracks hcounted
        rw [acceptedFrom_of_ok (checkBucket_counted hlt hfull)]
        constructor
        · intro s hs
          obtain ⟨s₀, hs₀, hlt₀⟩ : ∃ s₀ ∈ last, now < s₀ + limiter.windowMs := by
            simpa only [Expired, not_forall, not_le, exists_prop] using hnew
          have hlater : now < s :=
            hlt₀.trans_le (expired_of_mem_starts htimes.of_cons hs s₀ hs₀)
          rw [within_cons_of_not_mem fun hin => absurd hlater hin.1.not_gt]
          exact hstarts s hs
        · intro s hs b' hb'
          obtain rfl := Option.some.inj hb'
          have hrest := hcurrent s hs _ rfl
          dsimp only at hrest
          have hcons := length_within_cons_le (w := limiter.windowMs) s now
            (limiter.acceptedFrom (some ⟨b.count + 1, b.resetAt⟩) times)
          omega

/-- **The rate limiter's bounds.** Over any checks of any keys at times that do not decrease, at
most `maxRequests` checks of a key are accepted in each of its windows and at most
`2 * maxRequests` in any interval of the length of a window; a check is accepted when the last
window has ended; and what is decided for the key is what would be decided without the checks of
other keys. -/
theorem check_bounds [IsOrderedAddMonoid Time] (limiter : RateLimiter Time)
    (hmax : 1 ≤ limiter.maxRequests) (hwindow : 0 < limiter.windowMs) (checks : List (Check Time))
    (hsorted : checks.Pairwise fun c c' => c.now ≤ c'.now) (key : JsString) :
    (∀ start ∈ limiter.windows key checks,
      (within start limiter.windowMs (accepted key (limiter.decisions [] checks))).length ≤
        limiter.maxRequests) ∧
    (∀ start, (within start limiter.windowMs
        (accepted key (limiter.decisions [] checks))).length ≤ 2 * limiter.maxRequests) ∧
    (∀ before now after, checks = before ++ ⟨key, now⟩ :: after →
      (∀ start ∈ (limiter.windows key before).getLast?, start + limiter.windowMs ≤ now) →
      (limiter.decisions [] checks)[before.length]? = some (⟨key, now⟩, .ok ())) ∧
    (limiter.decisions [] checks).filter (fun d => d.1.key = key) =
      limiter.decisions [] (checks.filter fun c => c.key = key) := by
  have htimes : (times key checks).Pairwise (· ≤ ·) :=
    List.pairwise_map.mpr (hsorted.filter _)
  have haccepted : accepted key (limiter.decisions [] checks) =
      limiter.acceptedFrom none (times key checks) := accepted_decisions checks []
  have hcount : ∀ start ∈ limiter.windows key checks,
      (within start limiter.windowMs (limiter.acceptedFrom none (times key checks))).length ≤
        limiter.maxRequests :=
    have htracks : Tracks limiter none none := rfl
    (length_within_acceptedFrom htimes hmax hwindow htracks fun b hb => (by cases hb)).1
  rw [haccepted]
  refine ⟨hcount, length_within_le htimes hwindow (acceptedFrom_sublist _ _) hcount, ?_,
    filter_decisions checks rfl⟩
  rintro before now after rfl hended
  rw [decisions_append, List.getElem?_append_right (length_decisions ..).le, length_decisions,
    Nat.sub_self, decisions, List.getElem?_cons_zero, check_outcome]
  rw [(tracks_bucketsAfter key before).expired hended]

/-- Two requests in ten milliseconds. -/
def sampleLimiter : RateLimiter ℤ := ⟨2, 10⟩

def sampleChecks : List (Check ℤ) :=
  [⟨js "a", 0⟩, ⟨js "b", 4⟩, ⟨js "a", 9⟩, ⟨js "a", 9⟩, ⟨js "a", 10⟩, ⟨js "a", 11⟩]

theorem check_bounds_sample :
    (within 0 10 (accepted (js "a") (sampleLimiter.decisions [] sampleChecks))).length ≤ 2 ∧
      (within 5 10 (accepted (js "a") (sampleLimiter.decisions [] sampleChecks))).length ≤ 2 * 2 ∧
      (sampleLimiter.decisions [] sampleChecks)[4]? = some (⟨js "a", 10⟩, .ok ()) :=
  have h := check_bounds sampleLimiter (by decide) (by decide) sampleChecks (by decide) (js "a")
  ⟨h.1 0 (by decide), h.2.1 5, h.2.2.1 (sampleChecks.take 4) 10 [⟨js "a", 11⟩] rfl (by decide)⟩

end RateLimiter

end MemphisOS.Http
