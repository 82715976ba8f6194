import Webcamd.Kernel.TimerPass
import Webcamd.Kernel.TimedWait

/-!
# The jiffies clock

`get_jiffies_64` sees no more of the time than the nanoseconds of the second.  It adds the
difference to the last reading, modulo a second, to a remainder, and turns what is a millisecond
or more of it into jiffies.

* `getJiffies64_eq` — one reading, once the 32-bit difference and its two range checks are seen
  to be a remainder modulo a second.
* `Steps` — one reading adds at most 1000 jiffies, and leaves less than a millisecond.
* `total_readings` — readings that follow each other within a second add up to the time between
  the first and the last one.
* `jiffies_clock` — both, for any sequence of readings.
-/

namespace Webcamd.Kernel

open Completion (Timespec)

/-! ### One reading -/

namespace JiffiesClock

/-- The clock before the first reading. -/
def init : JiffiesClock := ⟨0, 0, 0⟩

/-- Between readings the remainder is below a millisecond, and the last reading was normalised. -/
structure Ok (clock : JiffiesClock) : Prop where
  remainder : clock.timerNsecRem < 1000000
  last : 0 ≤ clock.timerLast ∧ clock.timerLast < 1000000000

theorem Ok.init : Ok init := ⟨by decide, le_rfl, by decide⟩

/-- All nanoseconds that have been counted, as far as jiffies have not wrapped around. -/
def total (clock : JiffiesClock) : ℕ :=
  clock.jiffies64.toNat * 1000000 + clock.timerNsecRem

variable {clock : JiffiesClock} {nsec : ℤ}

/-- The difference is taken modulo a second. -/
theorem delta_eq (h : clock.Ok) (hlow : 0 ≤ nsec) (hhigh : nsec < 1000000000) :
    clock.delta nsec = (nsec - clock.timerLast) % 1000000000 := by
  obtain ⟨-, hlast, hlast'⟩ := h
  have hdifference : (BitVec.ofInt 32 (nsec - clock.timerLast)).toInt = nsec - clock.timerLast := by
    rw [BitVec.toInt_ofInt, Int.bmod_eq_of_le] <;> omega
  unfold delta
  rw [hdifference]
  dsimp only
  split_ifs <;> omega

/-- **One reading** adds the difference to what is counted. -/
theorem getJiffies64_eq (h : clock.Ok) (hlow : 0 ≤ nsec) (hhigh : nsec < 1000000000) :
    clock.getJiffies64 nsec =
      let counted := clock.timerNsecRem + ((nsec - clock.timerLast) % 1000000000).toNat
      ⟨nsec, counted % 1000000, clock.jiffies64 + BitVec.ofNat 64 (counted / 1000000)⟩ := by
  have hremainder := h.remainder
  unfold getJiffies64
  rw [delta_eq h hlow hhigh]
  generalize hdifference : ((nsec - clock.timerLast) % 1000000000).toNat = difference
  have hlt : difference < 1000000000 := by omega
  have hfits : (clock.timerNsecRem + difference) % 2 ^ 32 = clock.timerNsecRem + difference :=
    Nat.mod_eq_of_lt (by omega)
  dsimp only
  rw [hfits]
  split
  · rfl
  · rename_i hticks
    have hzero : (clock.timerNsecRem + difference) / 1000000 = 0 := by omega
    rw [hzero, Nat.mod_eq_of_lt (by omega), BitVec.add_zero]

/-- **What a reading does**: it adds at most 1000 jiffies, and less than one is left over. -/
structure Steps (clock next : JiffiesClock) : Prop where
  remainder : next.timerNsecRem < 1000000
  jiffies : ∃ ticks ≤ 1000, next.jiffies64 = clock.jiffies64 + BitVec.ofNat 64 ticks

theorem getJiffies64_steps (h : clock.Ok) (hlow : 0 ≤ nsec) (hhigh : nsec < 1000000000) :
    (clock.getJiffies64 nsec).Ok ∧ clock.Steps (clock.getJiffies64 nsec) := by
  have hremainder := h.remainder
  rw [getJiffies64_eq h hlow hhigh]
  dsimp only
  refine ⟨⟨Nat.mod_lt _ (by decide), hlow, hhigh⟩, Nat.mod_lt _ (by decide), _, ?_, rfl⟩
  omega

theorem getJiffies64_total (h : clock.Ok) (hlow : 0 ≤ nsec) (hhigh : nsec < 1000000000) :
    (clock.getJiffies64 nsec).total =
      (clock.total + ((nsec - clock.timerLast) % 1000000000).toNat) % (2 ^ 64 * 1000000) := by
  have hremainder := h.remainder
  rw [getJiffies64_eq h hlow hhigh]
  unfold total
  dsimp only
  rw [BitVec.toNat_add, BitVec.toNat_ofNat]
  have hlt := clock.jiffies64.isLt
  omega

/-! ### Sequences of readings -/

/-- The clock after some readings. -/
def read (clock : JiffiesClock) (samples : List Timespec) : JiffiesClock :=
  samples.foldl (fun clock sample => clock.getJiffies64 sample.tvNsec) clock

theorem read_append (clock : JiffiesClock) (samples others : List Timespec) :
    clock.read (samples ++ others) = (clock.read samples).read others :=
  List.foldl_append

variable {samples : List Timespec}

theorem Ok.read (h : clock.Ok) (hsamples : ∀ sample ∈ samples, sample.Normalised) :
    (clock.read samples).Ok := by
  induction samples generalizing clock with
  | nil => exact h
  | cons sample samples ih =>
      rw [List.forall_mem_cons] at hsamples
      obtain ⟨⟨hlow, hhigh⟩, hrest⟩ := hsamples
      exact ih (getJiffies64_steps h hlow hhigh).1 hrest

/-- The jiffies after some readings are at most 1000 for each of them. -/
theorem jiffies_read_le (h : clock.Ok) (hsamples : ∀ sample ∈ samples, sample.Normalised) :
    (clock.read samples).jiffies64.toNat ≤ clock.jiffies64.toNat + 1000 * samples.length := by
  induction samples generalizing clock with
  | nil => exact le_rfl
  | cons sample samples ih =>
      rw [List.forall_mem_cons] at hsamples
      obtain ⟨⟨hlow, hhigh⟩, hrest⟩ := hsamples
      obtain ⟨hok, -, ticks, hticks, hjiffies⟩ := getJiffies64_steps h hlow hhigh
      have hlater : (clock.read (sample :: samples)).jiffies64.toNat ≤
          (clock.getJiffies64 sample.tvNsec).jiffies64.toNat + 1000 * samples.length :=
        ih hok hrest
      have hfirst : (clock.getJiffies64 sample.tvNsec).jiffies64.toNat ≤
          clock.jiffies64.toNat + ticks := by
        rw [hjiffies, BitVec.toNat_add, BitVec.toNat_ofNat]
        exact (Nat.mod_le _ _).trans (Nat.add_le_add_left (Nat.mod_le _ _) _)
      rw [List.length_cons]
      omega

/-- Two samples follow each other within a second. -/
def Follows (first second : Timespec) : Prop :=
  first.nsec ≤ second.nsec ∧ second.nsec < first.nsec + 1000000000

/-- Within a second the nanoseconds of the second tell the whole difference. -/
theorem Follows.difference {first second : Timespec} (h : Follows first second) :
    (second.tvNsec - first.tvNsec) % 1000000000 = second.nsec - first.nsec := by
  obtain ⟨hle, hlt⟩ := h
  unfold Timespec.nsec at hle hlt ⊢
  omega

/-- **Readings that follow each other within a second lose nothing.** -/
theorem total_read {first : Timespec} (h : clock.Ok) (hlast : clock.timerLast = first.tvNsec)
    (hsamples : ∀ sample ∈ samples, sample.Normalised)
    (hchain : (first :: samples).IsChain Follows) :
    ((clock.read samples).total : ℤ) =
      (clock.total + ((samples.getLastD first).nsec - first.nsec)) % (2 ^ 64 * 1000000) := by
  induction samples generalizing clock first with
  | nil =>
      have hremainder := h.remainder
      have hlt := clock.jiffies64.isLt
      show (clock.total : ℤ) = (clock.total + (first.nsec - first.nsec)) % (2 ^ 64 * 1000000)
      unfold total
      omega
  | cons second samples ih =>
      rw [List.forall_mem_cons] at hsamples
      obtain ⟨⟨hlow, hhigh⟩, hrest⟩ := hsamples
      obtain ⟨hfollows, hchain⟩ := List.isChain_cons_cons.mp hchain
      have hnext : (clock.getJiffies64 second.tvNsec).timerLast = second.tvNsec := by
        rw [getJiffies64_eq h hlow hhigh]
      have hlater := ih (getJiffies64_steps h hlow hhigh).1 hnext hrest hchain
      have hfirst := getJiffies64_total h hlow hhigh
      rw [hlast, hfollows.difference] at hfirst
      have hle := hfollows.1
      show (((clock.getJiffies64 second.tvNsec).read samples).total : ℤ) = _
      rw [hlater, List.getLastD_cons]
      omega

end JiffiesClock

/-! ### The law -/

/-- The clock after some readings, from the start of the program. -/
def readings (samples : List Timespec) : JiffiesClock :=
  JiffiesClock.init.read samples

theorem readings_ok {samples : List Timespec}
    (hsamples : ∀ sample ∈ samples, sample.Normalised) : (readings samples).Ok :=
  JiffiesClock.Ok.init.read hsamples

/-- A reading after some others. -/
theorem readings_concat (samples : List Timespec) (next : Timespec) :
    readings (samples ++ [next]) = (readings samples).getJiffies64 next.tvNsec :=
  JiffiesClock.read_append _ samples [next]

/-- **The jiffies clock**, for any sequence of normalised samples: each reading adds at most 1000
jiffies, and as numbers they do not decrease until 2^64 could have been reached; and the readings
from one sample on to another, if they follow each other within a second, add the time between
the two, as far as 2^64 milliseconds go. -/
theorem jiffies_clock {samples : List Timespec}
    (hsamples : ∀ sample ∈ samples, sample.Normalised) :
    (∀ front next back, samples = front ++ next :: back →
      (readings front).Steps (readings (front ++ [next]))) ∧
    (1000 * samples.length < 2 ^ 64 → ∀ front next back, samples = front ++ next :: back →
      (readings front).jiffies64.toNat ≤ (readings (front ++ [next])).jiffies64.toNat ∧
      (readings (front ++ [next])).jiffies64.toNat ≤
        (readings front).jiffies64.toNat + 1000) ∧
    ∀ front first middle back, samples = front ++ first :: (middle ++ back) →
      (first :: middle).IsChain JiffiesClock.Follows →
        ((readings (front ++ first :: middle)).total : ℤ) =
          ((readings (front ++ [first])).total + ((middle.getLastD first).nsec - first.nsec)) %
            (2 ^ 64 * 1000000) := by
  have hsteps : ∀ front next back, samples = front ++ next :: back →
      (readings front).Steps (readings (front ++ [next])) := by
    rintro front next back rfl
    have hnext : next.Normalised := hsamples next (by simp)
    have hfront : ∀ sample ∈ front, sample.Normalised :=
      fun sample hmem => hsamples sample (List.mem_append_left _ hmem)
    rw [readings_concat]
    exact (JiffiesClock.getJiffies64_steps (readings_ok hfront) hnext.1 hnext.2).2
  refine ⟨hsteps, ?_, ?_⟩
  · rintro hlength front next back rfl
    have hfront : ∀ sample ∈ front, sample.Normalised :=
      fun sample hmem => hsamples sample (List.mem_append_left _ hmem)
    obtain ⟨-, ticks, hticks, hjiffies⟩ := hsteps front next back rfl
    have hbound : (readings front).jiffies64.toNat ≤ 0 + 1000 * front.length :=
      JiffiesClock.jiffies_read_le .init hfront
    rw [List.length_append, List.length_cons] at hlength
    rw [hjiffies, BitVec.toNat_add, BitVec.toNat_ofNat]
    omega
  · rintro front first middle back rfl hchain
    have hfirst : ∀ sample ∈ front ++ [first], sample.Normalised := by
      intro sample hmem
      refine hsamples sample ?_
      rcases List.mem_append.mp hmem with hmem | hmem
      · exact List.mem_append_left _ hmem
      · exact List.mem_append_right _ (List.mem_cons.mpr (.inl (List.mem_singleton.mp hmem)))
    have hmiddle : ∀ sample ∈ middle, sample.Normalised := fun sample hmem =>
      hsamples sample (List.mem_append_right _ (List.mem_cons_of_mem _
        (List.mem_append_left _ hmem)))
    have hlast : (readings (front ++ [first])).timerLast = first.tvNsec := by
      have hfront : ∀ sample ∈ front, sample.Normalised :=
        fun sample hmem => hfirst sample (List.mem_append_left _ hmem)
      have hnormalised := hfirst first (by simp)
      rw [readings_concat, JiffiesClock.getJiffies64_eq (readings_ok hfront) hnormalised.1
        hnormalised.2]
    have hsplit : readings (front ++ first :: middle) =
        (readings (front ++ [first])).read middle := by
      rw [List.append_cons]
      exact JiffiesClock.read_append _ _ _
    rw [hsplit]
    exact JiffiesClock.total_read (readings_ok hfirst) hlast hmiddle hchain

/-- Three readings, each half a second after the one before. -/
theorem jiffies_clock_halves :
    ((readings [⟨0, 500000000⟩, ⟨1, 0⟩, ⟨1, 500000000⟩]).total : ℤ) =
      ((readings [⟨0, 500000000⟩]).total + 1000000000) % (2 ^ 64 * 1000000) := by
  have hsamples : ∀ sample ∈ ([⟨0, 500000000⟩, ⟨1, 0⟩, ⟨1, 500000000⟩] : List Timespec),
      sample.Normalised := by
    unfold Timespec.Normalised
    decide
  refine (jiffies_clock hsamples).2.2 [] ⟨0, 500000000⟩ [⟨1, 0⟩, ⟨1, 500000000⟩] [] rfl ?_
  rw [List.isChain_cons_cons, List.isChain_cons_cons]
  unfold JiffiesClock.Follows Timespec.nsec
  exact ⟨by decide, by decide, List.IsChain.singleton _⟩

/-- Readings shortly before and at the beginning of a second. -/
def beats (n : ℕ) : List Timespec :=
  (List.replicate n [⟨0, 999999999⟩, ⟨0, 0⟩]).flatten

theorem beats_normalised {n : ℕ} {sample : Timespec} (hmem : sample ∈ beats n) :
    sample.Normalised := by
  obtain ⟨pair, hpair, hsample⟩ := List.mem_flatten.mp hmem
  rw [List.eq_of_mem_replicate hpair] at hsample
  rcases List.mem_cons.mp hsample with rfl | hsample
  · exact ⟨by decide, by decide⟩
  · rw [List.mem_singleton.mp hsample]
    exact ⟨by decide, by decide⟩

/-- They are a second apart, and leave no remainder. -/
theorem read_beats (n : ℕ) (jiffies : BitVec 64) :
    JiffiesClock.read ⟨0, 0, jiffies⟩ (beats n) = ⟨0, 0, jiffies + BitVec.ofNat 64 (1000 * n)⟩ := by
  have hone : ∀ jiffies : BitVec 64, JiffiesClock.read ⟨0, 0, jiffies⟩
      [⟨0, 999999999⟩, ⟨0, 0⟩] = ⟨0, 0, jiffies + 999 + 1⟩ := by
    intro jiffies
    have hfirst : JiffiesClock.getJiffies64 ⟨0, 0, jiffies⟩ 999999999 =
        ⟨999999999, 999999, jiffies + 999⟩ := by
      rw [JiffiesClock.getJiffies64_eq ⟨Nat.zero_lt_succ _, le_rfl, Int.zero_lt_one.trans
        (by decide)⟩ (by decide) (by decide)]
      dsimp only
      exact congrArg₂ (JiffiesClock.mk 999999999) (by decide)
        (congrArg (jiffies + ·) (by decide))
    have hsecond : JiffiesClock.getJiffies64 ⟨999999999, 999999, jiffies + 999⟩ 0 =
        ⟨0, 0, jiffies + 999 + 1⟩ := by
      rw [JiffiesClock.getJiffies64_eq ⟨Nat.lt_succ_self _, Int.natCast_nonneg _, Int.lt_succ _⟩
        le_rfl (by decide)]
      dsimp only
      exact congrArg₂ (JiffiesClock.mk 0) (by decide) (congrArg (jiffies + 999 + ·) (by decide))
    rw [← hsecond, ← hfirst]
    rfl
  induction n generalizing jiffies with
  | zero => rw [Nat.mul_zero, BitVec.add_zero]; rfl
  | succ n ih =>
      have hsplit : beats (n + 1) = [⟨0, 999999999⟩, ⟨0, 0⟩] ++ beats n := rfl
      have hsum : (999 : BitVec 64) + (1 + BitVec.ofNat 64 (1000 * n)) =
          BitVec.ofNat 64 (1000 * (n + 1)) := by
        refine BitVec.eq_of_toNat_eq ?_
        rw [BitVec.toNat_add, BitVec.toNat_add, BitVec.toNat_ofNat, BitVec.toNat_ofNat]
        show (999 + (1 + 1000 * n % 2 ^ 64) % 2 ^ 64) % 2 ^ 64 = _
        omega
      rw [hsplit, JiffiesClock.read_append, hone, ih, BitVec.add_assoc, BitVec.add_assoc, hsum]

/-- **A number of 64 bits wraps around**, after 2^64 milliseconds. -/
theorem jiffies_decrease : ∃ samples next,
    (∀ sample ∈ samples ++ [next], sample.Normalised) ∧
      (readings (samples ++ [next])).jiffies64.toNat < (readings samples).jiffies64.toNat := by
  have hbefore : readings (beats 18446744073709551) = ⟨0, 0, 18446744073709551000⟩ :=
    read_beats 18446744073709551 0
  refine ⟨beats 18446744073709551, ⟨0, 999999999⟩, fun sample hmem => ?_, ?_⟩
  · rcases List.mem_append.mp hmem with hmem | hmem
    · exact beats_normalised hmem
    · rw [List.mem_singleton.mp hmem]
      exact ⟨by decide, by decide⟩
  · rw [readings_concat, hbefore]
    decide

end Webcamd.Kernel
