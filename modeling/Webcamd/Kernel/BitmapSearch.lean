import Mathlib
import Webcamd.Kernel.BitmapPredicates
import Webcamd.Library.NextKey

/-!
# Searching bitmaps

`find_next_bit` and `find_next_zero_bit` of `kernel/linux_func.c`.  Both are the same loop over the
words of a bitmap, of which the second takes the complement; only the words that may be read are
there, and a loop that does not end has no result.

* `findLoop_isNext` — the loop finds the first bit from its offset on that is below `size`, for
  every alignment of both.
* `findNext_spec` — so do the two functions, and they end after one round for each word at most.
* `findNextZeroBit_eq` — the search that the identifiers use gives the same.
-/

namespace Webcamd.Kernel.BitmapSearch

open Bitmap BitmapPredicates Library

/-- The loop of `find_next_bit`, over the words that `word` reads: `mask` holds the bits to skip
when a round begins, and the bits found later on. -/
def findLoop (word : Memory) (size : ℕ) : ℕ → BitVec 64 → ℕ → Option ℕ
  | 0, _, _ => none
  | rounds + 1, mask, offset =>
      if offset < size then do
        let mask := (← word (bitWord offset)) &&& ~~~mask
        if mask ≠ 0 then return (ffsl mask - 1) ||| (offset / bitsPerLong * bitsPerLong)
        else
          findLoop word size rounds mask
            ((offset + ((bitsPerLong - 1 - offset % bitsPerLong) + 1)) % 2 ^ 64)
      else return offset

/-- What both functions do, for at most `rounds` rounds of the loop. -/
def findNext (word : Memory) (rounds size offset : ℕ) : Option ℕ := do
  let offset ← findLoop word size rounds (bitMask offset - 1) offset
  return if size < offset then size else offset

/-- `find_next_bit` -/
def findNextBit (rounds : ℕ) (addr : Memory) (size offset : ℕ) : Option ℕ :=
  findNext addr rounds size offset

/-- `find_next_zero_bit` -/
def findNextZeroBit (rounds : ℕ) (addr : Memory) (size offset : ℕ) : Option ℕ :=
  findNext (fun place => do return ~~~(← addr place)) rounds size offset

/-! ### One word -/

section Word

variable {value : Words} {mask : BitVec 64} {offset : ℕ}

/-- `ffsl` finds the first bit of all. -/
theorem ffsl_least {k : ℕ} (hk : k < ffsl mask - 1) : mask.getLsbD k = false := by
  unfold ffsl at hk
  split at hk
  · rename_i i hfind
    have hbefore := (List.find?_range_eq_some.mp hfind).2.2 k (by omega)
    simpa using hbefore
  · omega

/-- The bits of one word from an offset on, as the loop sees them through its mask. -/
theorem testBit_of_mask (hmask : ∀ k, mask.getLsbD k = decide (k < offset % bitsPerLong))
    {key : ℕ} (hle : offset ≤ key)
    (hlt : key < bitsPerLong * (offset / bitsPerLong) + bitsPerLong) :
    (value (bitWord offset) &&& ~~~mask).getLsbD (key % bitsPerLong) = testBit key value := by
  have hword : bitWord key = bitWord offset := by
    unfold bitWord bitsPerLong at *
    omega
  have hplace : ¬ key % bitsPerLong < offset % bitsPerLong := by
    unfold bitsPerLong at *
    omega
  rw [testBit_eq, hword, BitVec.getLsbD_and, BitVec.getLsbD_not, hmask, decide_eq_false hplace,
    decide_eq_true (place_lt key), Bool.not_false, Bool.and_true, Bool.and_true]

end Word

/-! ### The loop -/

section Loop

variable {value : Words} {word : Memory} {size rounds offset : ℕ} {mask : BitVec 64}

/-- The bits that are searched: those that are set and below `size`. -/
def Hit (value : Words) (size i : ℕ) : Prop := i < size ∧ testBit i value = true

/-- A round that finds a bit in its word: there is none before it. -/
theorem isNext_of_found (hmask : ∀ k, mask.getLsbD k = decide (k < offset % bitsPerLong))
    (hfound : value (bitWord offset) &&& ~~~mask ≠ 0) {stop : ℕ}
    (hstop : stop = bitsPerLong * (offset / bitsPerLong) +
      (ffsl (value (bitWord offset) &&& ~~~mask) - 1)) :
    IsNext (Hit value size) offset (if stop < size then some stop else none) := by
  obtain ⟨hbit, hset⟩ := ffsl_spec hfound
  have hplace : stop % bitsPerLong = ffsl (value (bitWord offset) &&& ~~~mask) - 1 := by
    unfold bitsPerLong at *
    omega
  have hle : offset ≤ stop := by
    by_contra hnot
    have hskip : mask.getLsbD (stop % bitsPerLong) = true := by
      rw [hmask, decide_eq_true_eq]
      unfold bitsPerLong at *
      omega
    rw [← hplace, BitVec.getLsbD_and, BitVec.getLsbD_not, hskip] at hset
    simp at hset
  have hblock : stop < bitsPerLong * (offset / bitsPerLong) + bitsPerLong := by
    unfold bitsPerLong at *
    omega
  have hbefore : ∀ key, offset ≤ key → key < stop → testBit key value = false := by
    intro key hkey hlt
    rw [← testBit_of_mask hmask hkey (hlt.trans hblock)]
    refine ffsl_least ?_
    unfold bitsPerLong at *
    omega
  split
  · rename_i hin
    refine ⟨hle, ⟨hin, ?_⟩, fun key hkey hlt hhit => ?_⟩
    · rw [← testBit_of_mask hmask hle hblock, hplace, hset]
    · exact Bool.false_ne_true ((hbefore key hkey hlt).symm.trans hhit.2)
  · -- the bit found is behind the last one, and so are all others
    rename_i hout
    intro key hkey hhit
    have hlt : key < stop := hhit.1.trans_le (not_lt.mp hout)
    exact Bool.false_ne_true ((hbefore key hkey hlt).symm.trans hhit.2)

/-- **The loop finds the first bit** from its offset on. -/
theorem findLoop_isNext (hword : ∀ place, place < bitsToLongs size →
    word place = some (value place)) (hsize : size ≤ 2 ^ 63)
    (hmask : ∀ k, mask.getLsbD k = decide (k < offset % bitsPerLong))
    (hrounds : bitsToLongs size < rounds + bitWord offset) (hpos : 0 < rounds) :
    ∃ stop, findLoop word size rounds mask offset = some stop ∧
      IsNext (Hit value size) offset (if stop < size then some stop else none) := by
  induction rounds generalizing mask offset with
  | zero => exact absurd hpos (lt_irrefl 0)
  | succ rounds ih =>
      unfold findLoop
      by_cases hmore : offset < size
      · have hread := bitWord_lt_bitsToLongs hmore
        rw [if_pos hmore, hword _ hread, Option.bind_eq_bind, Option.bind_some]
        dsimp only
        by_cases hfound : value (bitWord offset) &&& ~~~mask ≠ 0
        · rw [if_pos hfound]
          have hbit := (ffsl_spec hfound).1
          exact ⟨_, rfl, isNext_of_found hmask hfound
            ((Nat.lor_comm _ _).trans (or_block hbit offset))⟩
        · rw [if_neg hfound]
          have hzero := not_not.mp hfound
          have hnext : (offset + ((bitsPerLong - 1 - offset % bitsPerLong) + 1)) % 2 ^ 64 =
              bitsPerLong * (offset / bitsPerLong) + bitsPerLong := by
            unfold bitsPerLong
            omega
          rw [hnext]
          -- nothing is left of the word, and the next round begins with the bits of the next one
          have habsent : ∀ key, offset ≤ key →
              key < bitsPerLong * (offset / bitsPerLong) + bitsPerLong →
                ¬ Hit value size key := by
            intro key hkey hlt hhit
            have hbit := @testBit_of_mask value _ _ hmask _ hkey hlt
            rw [hzero, hhit.2] at hbit
            simp at hbit
          obtain ⟨stop, hloop, hstop⟩ := @ih
            (bitsPerLong * (offset / bitsPerLong) + bitsPerLong)
            (value (bitWord offset) &&& ~~~mask)
            (by
              intro k
              rw [hzero]
              unfold bitsPerLong
              simp)
            (by unfold bitWord bitsPerLong at *; omega)
            (by unfold bitWord bitsPerLong at *; omega)
          refine ⟨stop, hloop, IsNext.skip ?_ habsent hstop⟩
          unfold bitsPerLong
          omega
      · rw [if_neg hmore]
        refine ⟨offset, rfl, ?_⟩
        rw [if_neg hmore]
        exact fun key hkey hhit => hmore (hkey.trans_lt hhit.1)

end Loop

/-! ### The two functions -/

section Functions

variable {value : Words} {word : Memory} {size rounds offset : ℕ}

theorem upTo_not {addr : Words} {place : ℕ} (hplace : place < bitsToLongs size) :
    (do return ~~~(← upTo addr (bitsToLongs size) place)) = some (~~~addr place) := by
  rw [upTo_of_lt hplace]
  rfl

theorem findNext_isNext (hword : ∀ place, place < bitsToLongs size →
    word place = some (value place)) (hsize : size ≤ 2 ^ 63)
    (hrounds : bitsToLongs size < rounds) :
    ∃ found, IsNext (Hit value size) offset found ∧
      findNext word rounds size offset = some (found.getD size) := by
  have hmask : ∀ k, (bitMask offset - 1).getLsbD k = decide (k < offset % bitsPerLong) :=
    getLsbD_lowMask (place_lt offset)
  obtain ⟨stop, hloop, hstop⟩ := findLoop_isNext hword hsize hmask
    (by omega : bitsToLongs size < rounds + bitWord offset) (by omega)
  refine ⟨_, hstop, ?_⟩
  unfold findNext
  rw [hloop, Option.bind_eq_bind, Option.bind_some]
  refine congrArg some ?_
  split
  · rename_i hlt
    rw [if_neg (by omega)]
    rfl
  · rename_i hge
    split
    · rfl
    · rw [Option.getD_none]
      omega

/-- **A search finds the first bit** that is set, or not set, from the offset on and below `size`,
and is `size` if there is none.  It ends after a round for each word, and reads no other word. -/
theorem findNext_spec (addr : Words) (hsize : size ≤ 2 ^ 63) (offset : ℕ)
    (hrounds : bitsToLongs size < rounds) :
    (∃ found, IsNext (fun i => i < size ∧ testBit i addr = true) offset found ∧
      findNextBit rounds (upTo addr (bitsToLongs size)) size offset =
        some (found.getD size)) ∧
      ∃ found, IsNext (fun i => i < size ∧ testBit i addr = false) offset found ∧
        findNextZeroBit rounds (upTo addr (bitsToLongs size)) size offset =
          some (found.getD size) := by
  refine ⟨findNext_isNext (fun place hplace => upTo_of_lt hplace) hsize hrounds, ?_⟩
  obtain ⟨found, hnext, heq⟩ := @findNext_isNext (fun place => ~~~addr place) _ size rounds offset
    (fun _ => upTo_not) hsize hrounds
  refine ⟨found, hnext.congr fun i _ => ?_, heq⟩
  unfold Hit
  rw [testBit_not, Bool.not_eq_true']

/-- The searches from bit 3 on in 100 bits, of which the second word has one set. -/
theorem findNext_spec_hundred :
    (∃ found, IsNext (fun i => i < 100 ∧ testBit i (fun w => BitVec.ofNat 64 (4 * w)) = true) 3
      found ∧ findNextBit 3 (upTo (fun w => BitVec.ofNat 64 (4 * w)) (bitsToLongs 100)) 100 3 =
        some (found.getD 100)) ∧
      ∃ found, IsNext (fun i => i < 100 ∧ testBit i (fun w => BitVec.ofNat 64 (4 * w)) = false) 3
        found ∧
        findNextZeroBit 3 (upTo (fun w => BitVec.ofNat 64 (4 * w)) (bitsToLongs 100)) 100 3 =
          some (found.getD 100) :=
  findNext_spec (fun w => BitVec.ofNat 64 (4 * w)) (by decide) 3 (by decide)

/-- The loop and the one that the identifiers use go the same way. -/
theorem findNextZeroBitLoop_eq {addr : Words} (hsize : size ≤ 2 ^ 63) {mask : BitVec 64}
    {stop roundsZero : ℕ}
    (hstop : findLoop (fun place => do return ~~~(← upTo addr (bitsToLongs size) place)) size
      rounds mask offset = some stop) (hrounds : size ≤ roundsZero + offset) :
    findNextZeroBitLoop addr size roundsZero mask offset = stop := by
  induction rounds generalizing mask offset roundsZero with
  | zero => exact absurd hstop (by simp [findLoop])
  | succ rounds ih =>
      unfold findLoop at hstop
      by_cases hmore : offset < size
      · obtain ⟨roundsZero, rfl⟩ := Nat.exists_eq_succ_of_ne_zero
          (show roundsZero ≠ 0 by omega)
        unfold findNextZeroBitLoop
        rw [if_pos hmore, upTo_of_lt (bitWord_lt_bitsToLongs hmore)] at hstop
        rw [if_pos hmore]
        simp only [Option.bind_eq_bind, Option.bind_some, Option.pure_def] at hstop
        dsimp only
        by_cases hfound : ~~~addr (bitWord offset) &&& ~~~mask ≠ 0
        · rw [if_pos hfound, Option.some_inj] at hstop
          rw [if_pos hfound, Nat.lor_comm, hstop]
        · rw [if_neg hfound] at hstop
          rw [if_neg hfound]
          have hnext : (offset + ((bitsPerLong - 1 - offset % bitsPerLong) + 1)) % 2 ^ 64 =
              offset + (bitsPerLong - 1 - offset % bitsPerLong) + 1 := by
            unfold bitsPerLong
            omega
          rw [hnext] at hstop
          exact ih hstop (by omega)
      · rw [if_neg hmore] at hstop
        cases roundsZero with
        | zero => exact Option.some_inj.mp hstop
        | succ roundsZero =>
            unfold findNextZeroBitLoop
            rw [if_neg hmore]
            exact Option.some_inj.mp hstop

/-- The search for the number of a new identifier is this one. -/
theorem findNextZeroBit_eq (addr : Words) (hsize : size ≤ 2 ^ 63) (offset : ℕ)
    (hrounds : bitsToLongs size < rounds) :
    findNextZeroBit rounds (upTo addr (bitsToLongs size)) size offset =
      some (Bitmap.findNextZeroBit addr size offset) := by
  obtain ⟨stop, hstop, -⟩ := findLoop_isNext (fun _ => @upTo_not size addr _) hsize
    (getLsbD_lowMask (place_lt offset))
    (by omega : bitsToLongs size < rounds + bitWord offset) (by omega)
  have hloop := findNextZeroBitLoop_eq hsize hstop (Nat.le_add_right size offset)
  unfold findNextZeroBit findNext Bitmap.findNextZeroBit
  unfold bitMask at *
  rw [hloop, hstop, Option.bind_eq_bind, Option.bind_some]
  refine congrArg some ?_
  split
  · omega
  · omega

end Functions

end Webcamd.Kernel.BitmapSearch
