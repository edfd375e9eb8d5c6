import Warpinator.Lib.Float64
import Warpinator.Lib.SlidingWindow
import Warpinator.Transfers.Receiver

/-! # The Moving Average

    `MovingAverageCalculator` of `transfers/mod.rs` with the arithmetic of the
    machine: the quotient is a float, the sum has 64 bits, and a sum that
    overflows panics in a debug build and wraps in a release build.

    `moving_average`: the natural numbers are the right ones to think of.  The
    average is that of the last rates, nothing is divided by zero, and at the
    speeds that the callers can measure nothing overflows. -/

namespace Warpinator

/-! ## Section 1: Pushes -/

/-- The arguments of a push. -/
structure ChunkTime where
  bytes : Nat
  elapsedSecs : ℚ

/-- `(bytes as f64 / elapsed_secs) as u64`: the conversion truncates and
    saturates. -/
def ChunkTime.bps (c : ChunkTime) : Nat :=
  min (2 ^ 64 - 1) ⌊Float64.round (Float64.round c.bytes / c.elapsedSecs)⌋₊

/-- What both callers push for a chunk: at least a millisecond. -/
def ChunkTime.ofChunk (length : Nat) (seconds : ℚ) : ChunkTime where
  bytes := length
  elapsedSecs := max seconds (Float64.round (1 / 1000))

inductive PushPanic where
  | addOverflow
  | divideByZero
  deriving DecidableEq, Repr

/-! ## Section 2: Sums of 64 bits -/

/-- `+` on `u64`, with overflow checks or without. -/
def addU64 (checks : Bool) (a b : Nat) : Except PushPanic Nat :=
  if a + b < 2 ^ 64 then .ok (a + b)
  else if checks then .error .addOverflow
  else .ok ((a + b) % 2 ^ 64)

def sumU64 (checks : Bool) (xs : List Nat) : Except PushPanic Nat := xs.foldlM (addU64 checks) 0

def divU64 (a b : Nat) : Except PushPanic Nat :=
  if b = 0 then .error .divideByZero else .ok (a / b)

/-- An error comes from one of the two. -/
theorem bind_ne_error {ε α β : Type} {e : ε} {x : Except ε α} {f : α → Except ε β}
    (hx : x ≠ .error e) (hf : ∀ a, f a ≠ .error e) : (x >>= f) ≠ .error e := by
  cases x with
  | error e' =>
    intro h
    have h' : (Except.error e' : Except ε β) = .error e := h
    exact hx (congrArg Except.error (Except.error.inj h'))
  | ok a => exact hf a

theorem ok_ne_error {ε α : Type} (a : α) (e : ε) : Except.ok a ≠ .error e := by
  intro h
  cases h

theorem bind_eq_ok {ε α β : Type} {x : Except ε α} {f : α → Except ε β} {b : β}
    (h : (x >>= f) = .ok b) : ∃ a, x = .ok a ∧ f a = .ok b := by
  cases x with
  | error e => cases h
  | ok a => exact ⟨a, rfl, h⟩

theorem addU64_ne (checks : Bool) (a b : Nat) : addU64 checks a b ≠ .error .divideByZero := by
  unfold addU64
  split
  · exact ok_ne_error _ _
  · split
    · intro h
      cases h
    · exact ok_ne_error _ _

theorem sumU64_ne (checks : Bool) (xs : List Nat) : sumU64 checks xs ≠ .error .divideByZero := by
  have hfold : ∀ acc, xs.foldlM (addU64 checks) acc ≠ .error .divideByZero := by
    induction xs with
    | nil =>
      intro acc
      exact ok_ne_error acc _
    | cons x xs ih =>
      intro acc
      rw [List.foldlM_cons]
      exact bind_ne_error (addU64_ne checks acc x) ih
  exact hfold 0

theorem addU64_eq_ok {a b sum : Nat} (h : addU64 true a b = .ok sum) : a + b = sum := by
  unfold addU64 at h
  split at h
  · exact Except.ok.inj h
  · cases h

/-- With overflow checks, a sum that is returned is the sum. -/
theorem sumU64_eq_ok {xs : List Nat} {sum : Nat} (h : sumU64 true xs = .ok sum) : xs.sum = sum := by
  have hfold : ∀ acc, xs.foldlM (addU64 true) acc = .ok sum → acc + xs.sum = sum := by
    clear h
    induction xs with
    | nil =>
      intro acc h
      exact Except.ok.inj h
    | cons x xs ih =>
      intro acc h
      rw [List.foldlM_cons] at h
      obtain ⟨acc', hadd, hrest⟩ := bind_eq_ok h
      have hacc := addU64_eq_ok hadd
      have hsum := ih acc' hrest
      rw [List.sum_cons]
      omega
  exact (Nat.zero_add _).symm.trans (hfold 0 h)

theorem sumU64_of_lt (checks : Bool) {xs : List Nat} (h : xs.sum < 2 ^ 64) :
    sumU64 checks xs = .ok xs.sum := by
  have hfold : ∀ acc, acc + xs.sum < 2 ^ 64 →
      xs.foldlM (addU64 checks) acc = .ok (acc + xs.sum) := by
    clear h
    induction xs with
    | nil =>
      intro acc _
      rfl
    | cons x xs ih =>
      intro acc h
      rw [List.sum_cons] at h ⊢
      rw [List.foldlM_cons, addU64, if_pos (by omega)]
      show xs.foldlM (addU64 checks) (acc + x) = _
      rw [ih (acc + x) (by omega), Nat.add_assoc]
  have hsum := hfold 0 (by rwa [Nat.zero_add])
  rwa [Nat.zero_add] at hsum

/-! ## Section 3: The calculator -/

namespace MovingAverageCalculator

def currentAverageU64 (checks : Bool) (m : MovingAverageCalculator) : Except PushPanic Nat :=
  if m.samples.isEmpty then .ok 0
  else do
    let sum ← sumU64 checks m.samples
    divU64 sum m.samples.length

def pushU64 (checks : Bool) (m : MovingAverageCalculator) (c : ChunkTime) :
    Except PushPanic (MovingAverageCalculator × Nat) :=
  if c.elapsedSecs ≤ 0 then do
    let avg ← m.currentAverageU64 checks
    return (m, avg)
  else do
    let samples := m.samples ++ [c.bps]
    let m := { m with samples := if samples.length > m.window then samples.drop 1 else samples }
    let avg ← m.currentAverageU64 checks
    return (m, avg)

/-- One push after the other, with the averages that they return. -/
def pushAllU64 (checks : Bool) (m : MovingAverageCalculator) :
    List ChunkTime → Except PushPanic (MovingAverageCalculator × List Nat)
  | [] => .ok (m, [])
  | c :: cs => do
    let (m, avg) ← m.pushU64 checks c
    let (m, avgs) ← m.pushAllU64 checks cs
    return (m, avg :: avgs)

def pushAll (m : MovingAverageCalculator) : List Nat → MovingAverageCalculator × List Nat
  | [] => (m, [])
  | bps :: rates =>
    let (m, avg) := m.push bps
    let (m, avgs) := m.pushAll rates
    (m, avg :: avgs)

/-! ## Section 4: The window -/

theorem push_samples (m : MovingAverageCalculator) (bps : Nat) :
    (m.push bps).1.samples = SlidingWindow.slide m.window m.samples bps := rfl

theorem push_window (m : MovingAverageCalculator) (bps : Nat) :
    (m.push bps).1.window = m.window := rfl

theorem pushAll_samples (m : MovingAverageCalculator) (rates : List Nat) :
    (m.pushAll rates).1.samples = rates.foldl (SlidingWindow.slide m.window) m.samples := by
  induction rates generalizing m with
  | nil => rfl
  | cons bps rates ih =>
    show ((m.push bps).1.pushAll rates).1.samples = _
    rw [ih, push_samples, push_window, List.foldl_cons]

theorem pushAll_new_samples (w : Nat) (rates : List Nat) :
    ((new w).pushAll rates).1.samples = SlidingWindow.last w rates :=
  (pushAll_samples (new w) rates).trans (SlidingWindow.foldl_slide w rates)

/-- The last push returns the average of what it leaves. -/
theorem pushAll_getLast (m : MovingAverageCalculator) {rates : List Nat} (h : rates ≠ []) :
    (m.pushAll rates).2.getLast? = some (m.pushAll rates).1.currentAverage := by
  induction rates generalizing m with
  | nil => exact absurd rfl h
  | cons bps rates ih =>
    show ((m.push bps).2 :: ((m.push bps).1.pushAll rates).2).getLast?
      = some ((m.push bps).1.pushAll rates).1.currentAverage
    cases rates with
    | nil => rfl
    | cons bps' rates =>
      rw [← ih (m.push bps).1 (by simp)]
      rfl

theorem currentAverage_eq {m : MovingAverageCalculator} (h : m.samples ≠ []) :
    m.currentAverage = m.samples.sum / m.samples.length := by
  unfold currentAverage
  rw [if_neg (by simpa using h)]

/-! ## Section 5: Division by zero -/

theorem currentAverageU64_ne (checks : Bool) (m : MovingAverageCalculator) :
    m.currentAverageU64 checks ≠ .error .divideByZero := by
  unfold currentAverageU64
  split
  · exact ok_ne_error _ _
  · next hsamples =>
    have hlength : m.samples.length ≠ 0 := by simpa using hsamples
    refine bind_ne_error (sumU64_ne checks m.samples) fun sum => ?_
    unfold divU64
    rw [if_neg hlength]
    exact ok_ne_error _ _

theorem pushU64_ne (checks : Bool) (m : MovingAverageCalculator) (c : ChunkTime) :
    m.pushU64 checks c ≠ .error .divideByZero := by
  unfold pushU64
  split
  · exact bind_ne_error (currentAverageU64_ne checks m) fun avg => ok_ne_error _ _
  · exact bind_ne_error (currentAverageU64_ne checks _) fun avg => ok_ne_error _ _

theorem pushAllU64_ne (checks : Bool) (m : MovingAverageCalculator) (cs : List ChunkTime) :
    m.pushAllU64 checks cs ≠ .error .divideByZero := by
  induction cs generalizing m with
  | nil => exact ok_ne_error _ _
  | cons c cs ih =>
    refine bind_ne_error (pushU64_ne checks m c) fun (m', avg) => ?_
    exact bind_ne_error (ih m') fun (m'', avgs) => ok_ne_error _ _

/-! ## Section 6: Overflow -/

/-- A sum that fits is the sum, and the average the average. -/
theorem currentAverageU64_of_lt (checks : Bool) {m : MovingAverageCalculator}
    (h : m.samples.sum < 2 ^ 64) : m.currentAverageU64 checks = .ok m.currentAverage := by
  unfold currentAverageU64 currentAverage
  split
  · rfl
  · next hsamples =>
    have hlength : m.samples.length ≠ 0 := by simpa using hsamples
    rw [sumU64_of_lt checks h]
    show divU64 m.samples.sum m.samples.length = _
    unfold divU64
    rw [if_neg hlength]

theorem currentAverageU64_eq_ok {m : MovingAverageCalculator} {avg : Nat}
    (h : m.currentAverageU64 true = .ok avg) : m.currentAverage = avg := by
  unfold currentAverageU64 at h
  unfold currentAverage
  split at h
  · next hsamples =>
    rw [if_pos hsamples]
    exact Except.ok.inj h
  · next hsamples =>
    have hlength : m.samples.length ≠ 0 := by simpa using hsamples
    obtain ⟨sum, hsum, hdiv⟩ := bind_eq_ok h
    unfold divU64 at hdiv
    rw [if_neg hlength] at hdiv
    rw [if_neg hsamples, sumU64_eq_ok hsum]
    exact Except.ok.inj hdiv

theorem pushU64_eq_ok {m : MovingAverageCalculator} {c : ChunkTime} (hc : 0 < c.elapsedSecs)
    {r : MovingAverageCalculator × Nat} (h : m.pushU64 true c = .ok r) : m.push c.bps = r := by
  unfold pushU64 at h
  rw [if_neg (not_le.2 hc)] at h
  obtain ⟨avg, havg, hr⟩ := bind_eq_ok h
  have hpush : (m.push c.bps).1.currentAverage = avg := currentAverageU64_eq_ok havg
  rw [← Except.ok.inj hr, ← hpush]
  rfl

/-- With overflow checks, the pushes that return are those of the natural
    numbers. -/
theorem pushAllU64_eq_ok {m : MovingAverageCalculator} {cs : List ChunkTime}
    (hcs : ∀ c ∈ cs, 0 < c.elapsedSecs) {r : MovingAverageCalculator × List Nat}
    (h : m.pushAllU64 true cs = .ok r) : m.pushAll (cs.map ChunkTime.bps) = r := by
  induction cs generalizing m r with
  | nil => exact Except.ok.inj h
  | cons c cs ih =>
    obtain ⟨⟨m', avg⟩, hfirst, h⟩ := bind_eq_ok h
    obtain ⟨⟨m'', avgs⟩, hrest, hr⟩ := bind_eq_ok h
    have hpush := pushU64_eq_ok (hcs c List.mem_cons_self) hfirst
    have hall := ih (fun c' hc' => hcs c' (List.mem_cons_of_mem _ hc')) hrest
    rw [← Except.ok.inj hr]
    show (((m.push c.bps).1.pushAll (cs.map ChunkTime.bps)).1,
      (m.push c.bps).2 :: ((m.push c.bps).1.pushAll (cs.map ChunkTime.bps)).2) = _
    rw [hpush, hall]

/-- The window holds rates up to a bound. -/
structure Bounded (m : MovingAverageCalculator) (bound : Nat) : Prop where
  length_le : m.samples.length ≤ m.window
  le : ∀ bps ∈ m.samples, bps ≤ bound

section bounded

variable {m : MovingAverageCalculator} {bound : Nat}

theorem new_bounded (w bound : Nat) : (new w).Bounded bound where
  length_le := Nat.zero_le w
  le _ h := absurd h List.not_mem_nil

theorem push_bounded (h : m.Bounded bound) {bps : Nat} (hbps : bps ≤ bound) :
    (m.push bps).1.Bounded bound where
  length_le := SlidingWindow.length_slide_le h.length_le bps
  le x hx := by
    rcases SlidingWindow.mem_slide hx with hold | rfl
    · exact h.le x hold
    · exact hbps

theorem Bounded.sum_lt (h : m.Bounded bound) (hfits : m.window * bound < 2 ^ 64) :
    m.samples.sum < 2 ^ 64 :=
  (SlidingWindow.sum_le_of_length_le h.length_le h.le).trans_lt hfits

/-- A push within the bound is the push of the natural number. -/
theorem pushU64_of_bounded (checks : Bool) (h : m.Bounded bound)
    (hfits : m.window * bound < 2 ^ 64) {c : ChunkTime} (helapsed : 0 < c.elapsedSecs)
    (hbps : c.bps ≤ bound) : m.pushU64 checks c = .ok (m.push c.bps) := by
  have hbounded := push_bounded h hbps
  have havg := currentAverageU64_of_lt checks (hbounded.sum_lt hfits)
  unfold pushU64
  rw [if_neg (not_le.2 helapsed)]
  show ((m.push c.bps).1.currentAverageU64 checks >>= fun avg => .ok ((m.push c.bps).1, avg)) = _
  rw [havg]
  rfl

theorem pushAllU64_of_bounded (checks : Bool) (h : m.Bounded bound)
    (hfits : m.window * bound < 2 ^ 64) {cs : List ChunkTime}
    (hcs : ∀ c ∈ cs, 0 < c.elapsedSecs ∧ c.bps ≤ bound) :
    m.pushAllU64 checks cs = .ok (m.pushAll (cs.map ChunkTime.bps)) := by
  induction cs generalizing m with
  | nil => rfl
  | cons c cs ih =>
    obtain ⟨helapsed, hbps⟩ := hcs c List.mem_cons_self
    have hrest := ih (push_bounded h hbps) hfits fun c' hc' => hcs c' (List.mem_cons_of_mem _ hc')
    unfold pushAllU64
    rw [pushU64_of_bounded checks h hfits helapsed hbps]
    show ((m.push c.bps).1.pushAllU64 checks cs >>= fun r => .ok (r.1, (m.push c.bps).2 :: r.2)) = _
    rw [hrest]
    rfl

end bounded

end MovingAverageCalculator

/-! ## Section 7: The speeds of the callers -/

/-- The longest chunk that is received, per millisecond. -/
def maxBps : Nat := 4 * 2 ^ 20 * 1000

namespace ChunkTime

/-- A chunk of at most 4 MiB that took at least a millisecond. -/
def Measurable (c : ChunkTime) : Prop := 1 / 1000 ≤ c.elapsedSecs ∧ c.bytes ≤ 4 * 2 ^ 20

theorem bps_le {c : ChunkTime} (h : c.Measurable) : c.bps ≤ maxBps := by
  obtain ⟨helapsed, hbytes⟩ := h
  have hpos : 0 < c.elapsedSecs := lt_of_lt_of_le (by norm_num) helapsed
  have hexact : Float64.round c.bytes = c.bytes := Float64.round_natCast (by omega)
  have hquotient : (c.bytes : ℚ) / c.elapsedSecs ≤ (maxBps : ℕ) := by
    rw [div_le_iff₀ hpos]
    have hbytes' : (c.bytes : ℚ) ≤ 4 * 2 ^ 20 := by exact_mod_cast hbytes
    calc
      (c.bytes : ℚ) ≤ 4 * 2 ^ 20 := hbytes'
      _ = (maxBps : ℕ) * (1 / 1000) := by norm_num [maxBps]
      _ ≤ (maxBps : ℕ) * c.elapsedSecs := mul_le_mul_of_nonneg_left helapsed (Nat.cast_nonneg _)
  have hround : Float64.round (c.bytes / c.elapsedSecs) ≤ (maxBps : ℕ) := by
    have hmono := Float64.round_mono hquotient
    rwa [Float64.round_natCast (by decide)] at hmono
  unfold bps
  rw [hexact]
  exact (min_le_right _ _).trans (Nat.floor_le_of_le hround)

/-- What the callers push for a chunk of 4 MiB or less. -/
theorem ofChunk_measurable {length : Nat} (h : length ≤ 4 * 2 ^ 20) (seconds : ℚ) :
    (ofChunk length seconds).Measurable := by
  have hfloor : (1 / 1000 : ℚ) ≤ Float64.round (1 / 1000) := by decide +kernel
  exact ⟨hfloor.trans (le_max_right _ _), h⟩

end ChunkTime

open MovingAverageCalculator

/-- The mean of the last rates is returned, no push divides by zero, and what the
    callers push with their window does not overflow. -/
theorem moving_average :
    (∀ (w : Nat) (rates : List Nat), 1 ≤ w → rates ≠ [] →
      ∃ m avgs avg, (new w).pushAll rates = (m, avgs) ∧ avgs.getLast? = some avg ∧
        (SlidingWindow.last w rates).length = min rates.length w ∧
        avg = (SlidingWindow.last w rates).sum / min rates.length w ∧
        (∃ bps ∈ SlidingWindow.last w rates, bps ≤ avg) ∧
        (∃ bps ∈ SlidingWindow.last w rates, avg ≤ bps) ∧
        m.samples.length ≤ w) ∧
    (∀ (w : Nat) (cs : List ChunkTime) (r : MovingAverageCalculator × List Nat),
      (∀ c ∈ cs, 0 < c.elapsedSecs) → (new w).pushAllU64 true cs = .ok r →
      (new w).pushAll (cs.map ChunkTime.bps) = r) ∧
    (∀ (checks : Bool) (w : Nat) (cs : List ChunkTime),
      (new w).pushAllU64 checks cs ≠ .error .divideByZero) ∧
    ∀ (checks : Bool) (cs : List ChunkTime), (∀ c ∈ cs, c.Measurable) →
      (new 30).pushAllU64 checks cs = .ok ((new 30).pushAll (cs.map ChunkTime.bps)) := by
  refine ⟨?_, fun _ _ _ hcs => pushAllU64_eq_ok hcs,
    fun checks w cs => pushAllU64_ne checks (new w) cs, ?_⟩
  · intro w rates hw hrates
    have hsamples := pushAll_new_samples w rates
    have hlength := SlidingWindow.length_last w rates
    have hne := SlidingWindow.last_ne_nil hw hrates
    have havg := currentAverage_eq (hsamples ▸ hne)
    rw [hsamples] at havg
    refine ⟨_, _, _, rfl, pushAll_getLast (new w) hrates, hlength, ?_, ?_, ?_, ?_⟩
    · rw [havg, hlength]
    · rw [havg]
      exact SlidingWindow.exists_le_mean hne
    · rw [havg]
      exact SlidingWindow.exists_mean_le hne
    · rw [hsamples, hlength]
      exact min_le_right _ _
  · intro checks cs hcs
    refine pushAllU64_of_bounded checks (new_bounded 30 maxBps) (by decide) ?_
    intro c hc
    exact ⟨lt_of_lt_of_le (by norm_num) (hcs c hc).1, ChunkTime.bps_le (hcs c hc)⟩

/-- Three rates in a window of two, and two chunks at the speed of the callers. -/
theorem moving_average_three :
    (∃ m avgs avg, (new 2).pushAll [3, 5, 8] = (m, avgs) ∧ avgs.getLast? = some avg ∧
      avg = (SlidingWindow.last 2 [3, 5, 8]).sum / 2) ∧
    (new 0).pushAllU64 true [.ofChunk 65536 0] ≠ .error .divideByZero ∧
    (new 30).pushAllU64 true [.ofChunk 65536 0, .ofChunk 4194304 2]
      = .ok ((new 30).pushAll [65536000, 2097152]) := by
  obtain ⟨hmean, _, hdivide, hfits⟩ := moving_average
  refine ⟨?_, hdivide _ _ _, ?_⟩
  · obtain ⟨m, avgs, avg, hrun, hlast, _, havg, _⟩ := hmean 2 [3, 5, 8] (by decide) (by decide)
    exact ⟨m, avgs, avg, hrun, hlast, havg⟩
  · have hrun := hfits true [.ofChunk 65536 0, .ofChunk 4194304 2] (by
      intro c hc
      simp only [List.mem_cons, List.not_mem_nil, or_false] at hc
      rcases hc with rfl | rfl
      · exact ChunkTime.ofChunk_measurable (by decide) 0
      · exact ChunkTime.ofChunk_measurable (by decide) 2)
    have hbps : [ChunkTime.ofChunk 65536 0, .ofChunk 4194304 2].map ChunkTime.bps
        = [65536000, 2097152] := by decide +kernel
    rwa [hbps] at hrun

end Warpinator
