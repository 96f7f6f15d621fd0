import Mathlib.Data.Int.Range
import WordAtlas.Proofs.MemoryImage

/-!
# Reads in turn

A memory may notice what it is asked for, so it matters which addresses are asked for, in which
order and how often.  Reading a word or fetching an instruction asks for one address after the
other, from the position on; no address is left out or asked for twice, and none lies at or behind
the end of the address space.

There are three ways for such a reading to end: it finds what it looks for, no further word fits
into the address space, or it meets a cell that holds no byte (`Attempt.InTurn`).  Readings that
go in turn can be continued (`Attempt.InTurn.bind`), so words and instructions are read in turn
(`Source.perform_inTurn`), and by induction on the steps so is what a whole run reads
(`Source.runUnder_inTurn`).  All of it together is the main statement,
`Source.memory_read_in_turn`.

That every cell has one content is no restriction here: neither a single step nor a run of steps
that succeed asks for an address twice, so it does not matter what a memory would answer then.
-/

namespace WordAtlas

/-- Numbers in a row and those in a row behind them. -/
theorem range_append_range {a b c : Int} (hab : a ≤ b) (hbc : b ≤ c) :
    Int.range a b ++ Int.range b c = Int.range a c := by
  obtain ⟨m, hm⟩ := Int.eq_ofNat_of_zero_le (Int.sub_nonneg.mpr hab)
  obtain ⟨n, hn⟩ := Int.eq_ofNat_of_zero_le (Int.sub_nonneg.mpr hbc)
  have hb : b = a + m := by omega
  have hwhole : c - a = ((m + n : Nat) : Int) := by omega
  have hshift : (fun r : Nat => b + (r : Int)) = (fun r : Nat => a + (r : Int)) ∘ (m + ·) := by
    funext r
    simp only [Function.comp_apply, Int.natCast_add]
    omega
  rw [Int.range, Int.range, Int.range, hm, hn, hwhole, Int.toNat_natCast, Int.toNat_natCast,
    Int.toNat_natCast, List.range_add, List.map_append, List.map_map, hshift]

/-- From an address up to itself there is none. -/
theorem range_self (a : Int) : Int.range a a = [] := by
  rw [Int.range, Int.sub_self]
  rfl

/-- From an address up to the next there is this one. -/
theorem range_succ_self (a : Int) : Int.range a (a + 1) = [a] := by
  have hone : a + 1 - a = 1 := by omega
  rw [Int.range, hone]
  exact congrArg (fun b => [b]) (Int.add_zero a)

/-- The two addresses of a word. -/
theorem range_pair (a : Int) : Int.range a (a + 2) = [a, a + 1] := by
  rw [← range_append_range (show a ≤ a + 1 by omega) (show a + 1 ≤ a + 2 by omega),
    range_succ_self, show a + 2 = a + 1 + 1 by omega, range_succ_self]
  rfl

namespace Source

/-- Of the addresses from `start` on, this is the first one at which there is no byte. -/
structure LacksFirst (cells : Int → Option Int) (start address : Int) (e : StreamError) : Prop where
  le : start ≤ address
  before : ∀ earlier, start ≤ earlier → earlier < address → HoldsByte cells earlier
  lacks : LacksByte cells address e

/-- There are the bytes of a word at an address and the next one. -/
structure HoldsWord (cells : Int → Option Int) (address : Int) (w : Word) : Prop where
  high : cells address = some ((w.val / 256 : Nat) : Int)
  low : cells (address + 1) = some ((w.val % 256 : Nat) : Int)

/-- From `start` up to `stop` there are whole words, all of them within the address space. -/
structure WholeWords (cells : Int → Option Int) (start stop : Int) : Prop where
  le : start ≤ stop
  whole : 2 ∣ stop - start
  inside : ∀ address, start ≤ address → address < stop →
    address < addressSpace ∧ HoldsByte cells address

end Source

/-- How a reading that begins at the address `start` and goes through the words of a memory ends:
it has found what it looks for; or the next word does not fit into the address space; or one of
the two cells of the next word holds no byte, and then the position is still that of the word.  It
has asked for one address after the other, up to the last one that it needed. -/
inductive Attempt.InTurn {α : Type} (cells : Int → Option Int) (start : Int)
    (Found : α → Int → Prop) : Attempt α → Prop
  | found {a : α} {stop : Int} (hwords : Source.WholeWords cells start stop)
      (hfound : Found a stop) : InTurn cells start Found ⟨.ok a, stop, Int.range start stop⟩
  | atEnd {stop : Int} (hwords : Source.WholeWords cells start stop)
      (hend : Source.addressSpace < stop + 2) :
      InTurn cells start Found ⟨.error .tooShort, stop, Int.range start stop⟩
  | atCell {stop address : Int} {e : StreamError} (hwords : Source.WholeWords cells start stop)
      (hfits : stop + 2 ≤ Source.addressSpace) (hfirst : Source.LacksFirst cells stop address e)
      (hcell : address < stop + 2) :
      InTurn cells start Found ⟨.error e, stop, Int.range start (address + 1)⟩

namespace Source

variable {cells : Int → Option Int} {start mid stop : Int}

/-- At every address there is a byte or a reason why there is none. -/
theorem holdsByte_or_lacksByte (cells : Int → Option Int) (address : Int) :
    HoldsByte cells address ∨ ∃ e, LacksByte cells address e := by
  cases hcell : cells address with
  | none => exact Or.inr ⟨.unmapped, .nothing hcell⟩
  | some z =>
      by_cases hz : 0 ≤ z ∧ z < 256
      · exact Or.inl ⟨z, hcell, hz⟩
      · exact Or.inr ⟨.notByte, .other hcell hz⟩

/-- Where there is a byte, no byte is lacking. -/
theorem HoldsByte.not_lacksByte {address : Int} (h : HoldsByte cells address) (e : StreamError) :
    ¬ LacksByte cells address e := by
  intro hlacks
  obtain ⟨z, hcell, hbyte⟩ := h
  cases hlacks with
  | nothing hnone =>
      rw [hcell] at hnone
      cases hnone
  | other hother hz =>
      rw [hcell] at hother
      cases hother
      exact hz hbyte

/-- From an address up to itself there are whole words, namely none. -/
theorem WholeWords.refl (cells : Int → Option Int) (start : Int) :
    WholeWords cells start start where
  le := Int.le_refl start
  whole := by omega
  inside := by
    intro address hstart hstop
    omega

/-- Whole words behind whole words are whole words. -/
theorem WholeWords.trans (h : WholeWords cells start mid) (h' : WholeWords cells mid stop) :
    WholeWords cells start stop where
  le := Int.le_trans h.le h'.le
  whole := by
    have hfirst := h.whole
    have hsecond := h'.whole
    omega
  inside := by
    intro address hstart hstop
    by_cases hmid : address < mid
    · exact h.inside address hstart hmid
    · exact h'.inside address (Int.not_lt.mp hmid) hstop

/-- Two bytes within the address space are a whole word. -/
theorem WholeWords.of_bytes (hfits : start + 2 ≤ addressSpace) (hhigh : HoldsByte cells start)
    (hlow : HoldsByte cells (start + 1)) : WholeWords cells start (start + 2) where
  le := by omega
  whole := by omega
  inside := by
    intro address hstart hstop
    refine ⟨by omega, ?_⟩
    obtain rfl | rfl : address = start ∨ address = start + 1 := by omega
    · exact hhigh
    · exact hlow

/-- If whole words come before, the first address without a byte stays the first. -/
theorem LacksFirst.after {address : Int} {e : StreamError} (hwords : WholeWords cells start mid)
    (h : LacksFirst cells mid address e) : LacksFirst cells start address e where
  le := Int.le_trans hwords.le h.le
  before := by
    intro earlier hstart hlt
    by_cases hmid : earlier < mid
    · exact (hwords.inside earlier hstart hmid).2
    · exact h.before earlier (Int.not_lt.mp hmid) hlt
  lacks := h.lacks

/-- At an address there is at most one word. -/
theorem HoldsWord.unique {v w : Word} (h : HoldsWord cells start v) (h' : HoldsWord cells start w) :
    v = w := by
  have hhigh := Option.some.inj (h.high.symm.trans h'.high)
  have hlow := Option.some.inj (h.low.symm.trans h'.low)
  apply Fin.ext
  omega

end Source

section Composition

variable {α β : Type} {cells : Int → Option Int} {start mid : Int} {Found : α → Int → Prop}
  {Found' : β → Int → Prop}

/-- What goes on in turn behind whole words goes in turn from their start. -/
theorem Attempt.InTurn.after {attempt : Attempt α} (hwords : Source.WholeWords cells start mid)
    (h : attempt.InTurn cells mid Found) :
    InTurn cells start Found
      ⟨attempt.result, attempt.pos, Int.range start mid ++ attempt.asked⟩ := by
  cases h with
  | found hmore hfound =>
      rw [range_append_range hwords.le hmore.le]
      exact .found (hwords.trans hmore) hfound
  | atEnd hmore hend =>
      rw [range_append_range hwords.le hmore.le]
      exact .atEnd (hwords.trans hmore) hend
  | @atCell stop address e hmore hfits hfirst hcell =>
      have hle : mid ≤ address + 1 := by
        have := hmore.le
        have := hfirst.le
        omega
      rw [range_append_range hwords.le hle]
      exact .atCell (hwords.trans hmore) hfits hfirst hcell

/-- Readings that go in turn can be continued.  Where the first part ends early, nothing more is
asked for. -/
theorem Attempt.InTurn.bind {reading : Reading α} {next : α → Reading β}
    (h : (reading start).InTurn cells start Found)
    (hnext : ∀ a stop, Found a stop → (next a stop).InTurn cells stop Found') :
    ((reading >>= next) start).InTurn cells start Found' := by
  cases hfirst : reading start with
  | mk result stop asked =>
      rw [hfirst] at h
      cases h with
      | @found a _ hwords hfound =>
          rw [Reading.bind_of_ok hfirst rfl]
          exact (hnext a stop hfound).after hwords
      | atEnd hwords hend =>
          rw [Reading.bind_of_error hfirst]
          exact .atEnd hwords hend
      | atCell hwords hfits hlacks hcell =>
          rw [Reading.bind_of_error hfirst]
          exact .atCell hwords hfits hlacks hcell

/-- What is found without reading is found in turn. -/
theorem Attempt.InTurn.pure {a : α} (h : Found a start) :
    ((Pure.pure a : Reading α) start).InTurn cells start Found := by
  have hempty : (Pure.pure a : Reading α) start = ⟨.ok a, start, Int.range start start⟩ := by
    rw [range_self]
    rfl
  rw [hempty]
  exact .found (Source.WholeWords.refl cells start) h

/-! ## What is known of readings that go in turn -/

variable {attempt : Attempt α} (h : attempt.InTurn cells start Found)

include h

/-- However a reading ends, up to its position there are whole words. -/
theorem Attempt.InTurn.wholeWords : Source.WholeWords cells start attempt.pos := by
  cases h with
  | found hwords => exact hwords
  | atEnd hwords => exact hwords
  | atCell hwords => exact hwords

/-- Where something was found, the addresses asked for are those up to the position. -/
theorem Attempt.InTurn.of_ok {a : α} (hok : attempt.result = .ok a) :
    Found a attempt.pos ∧ attempt.asked = Int.range start attempt.pos := by
  cases h with
  | found hwords hfound =>
      cases hok
      exact ⟨hfound, rfl⟩
  | atEnd => cases hok
  | atCell => cases hok

/-- A failure that is no lack of room is due to a cell of the word at the position, and this cell
was the last one asked for. -/
theorem Attempt.InTurn.of_error {e : StreamError} (herror : attempt.result = .error e)
    (hroom : e ≠ .tooShort) :
    ∃ address, Source.LacksFirst cells start address e ∧
      attempt.asked = Int.range start (address + 1) ∧
      attempt.pos ≤ address ∧ address < attempt.pos + 2 := by
  cases h with
  | found => cases herror
  | atEnd =>
      cases herror
      exact absurd rfl hroom
  | atCell hwords hfits hfirst hcell =>
      cases herror
      exact ⟨_, hfirst.after hwords, rfl, hfirst.le, hcell⟩

/-- A failure for lack of room comes behind all words that fit. -/
theorem Attempt.InTurn.of_tooShort (herror : attempt.result = .error .tooShort) :
    Source.addressSpace < attempt.pos + 2 ∧ attempt.asked = Int.range start attempt.pos := by
  cases h with
  | found => cases herror
  | atEnd hwords hend => exact ⟨hend, rfl⟩
  | atCell hwords hfits hfirst hcell =>
      cases herror
      cases hfirst.lacks

/-- However a reading ends, the addresses asked for lie side by side from its start on. -/
theorem Attempt.InTurn.exists_range : ∃ stop, attempt.asked = Int.range start stop := by
  cases h with
  | found => exact ⟨_, rfl⟩
  | atEnd => exact ⟨_, rfl⟩
  | atCell => exact ⟨_, rfl⟩

/-- However a reading ends, it has asked for nothing beyond the address space. -/
theorem Attempt.InTurn.lt_addressSpace {address : Int} (haddress : address ∈ attempt.asked) :
    address < Source.addressSpace := by
  cases h with
  | found hwords =>
      obtain ⟨hstart, hstop⟩ := Int.mem_range_iff.mp haddress
      exact (hwords.inside address hstart hstop).1
  | atEnd hwords =>
      obtain ⟨hstart, hstop⟩ := Int.mem_range_iff.mp haddress
      exact (hwords.inside address hstart hstop).1
  | atCell hwords hfits hfirst hcell =>
      have hlast := (Int.mem_range_iff.mp haddress).2
      omega

end Composition

namespace Source

variable {cells : Int → Option Int} {table : Table} {start : Int}

/-! ## Words and instructions -/

/-- The first byte of a word is a byte. -/
theorem HoldsWord.holdsByte_high {w : Word} (h : HoldsWord cells start w) :
    HoldsByte cells start := by
  have := w.isLt
  exact ⟨_, h.high, by omega, by omega⟩

/-- The second byte of a word is a byte. -/
theorem HoldsWord.holdsByte_low {w : Word} (h : HoldsWord cells start w) :
    HoldsByte cells (start + 1) :=
  ⟨_, h.low, by omega, by omega⟩

/-- Any two bytes are those of a word. -/
theorem exists_holdsWord (hhigh : HoldsByte cells start) (hlow : HoldsByte cells (start + 1)) :
    ∃ w, HoldsWord cells start w := by
  obtain ⟨_, hhighCell, hnonneg, hlt⟩ := hhigh
  obtain ⟨_, hlowCell, hnonneg', hlt'⟩ := hlow
  obtain ⟨high, rfl⟩ := Int.eq_ofNat_of_zero_le hnonneg
  obtain ⟨low, rfl⟩ := Int.eq_ofNat_of_zero_le hnonneg'
  have hquotient : (256 * high + low) / 256 = high := by omega
  have hremainder : (256 * high + low) % 256 = low := by omega
  refine ⟨⟨256 * high + low, by omega⟩, ?_, ?_⟩
  · rw [hhighCell, hquotient]
  · rw [hlowCell, hremainder]

/-- Where no word fits into the address space, no cell is asked for. -/
theorem readWord_of_no_room (h : addressSpace < start + 2) :
    (memory cells).readWord start = ⟨.error .tooShort, start, []⟩ := by
  have hbytes : (memory cells).bytesAt .word start = (.error .tooShort, []) := if_pos h
  rw [readWord, unpack, hbytes]

/-- Where a word fits, the two cells decide what is read. -/
theorem readWord_of_room (h : start + 2 ≤ addressSpace) :
    (memory cells).readWord start =
      match cellBytes cells start 2 with
      | (.error e, asked) => ⟨.error e, start, asked⟩
      | (.ok bytes, asked) => ⟨.ok (bigEndian bytes : Int), start + 2, asked⟩ := by
  have hbytes : (memory cells).bytesAt .word start = cellBytes cells start 2 :=
    if_neg (Int.not_lt.mpr h)
  rw [readWord, unpack, hbytes]
  rfl

/-- Where there is a word, it is read, and both its addresses are asked for. -/
theorem readWord_of_holdsWord {w : Word} (hroom : start + 2 ≤ addressSpace)
    (h : HoldsWord cells start w) :
    (memory cells).readWord start = ⟨.ok (w.val : Int), start + 2, [start, start + 1]⟩ := by
  have := w.isLt
  have hbytes : cellBytes cells start 2 = (.ok w.bytes, [start, start + 1]) := by
    rw [cellBytes_of_holdsByte h.high (by omega), cellBytes_of_holdsByte h.low (by omega)]
    rfl
  rw [readWord_of_room hroom, hbytes]
  simp only [Word.bigEndian_bytes]

/-- If the first byte is lacking, the second is not asked for. -/
theorem readWord_of_lacksByte {e : StreamError} (hroom : start + 2 ≤ addressSpace)
    (h : LacksByte cells start e) :
    (memory cells).readWord start = ⟨.error e, start, [start]⟩ := by
  rw [readWord_of_room hroom, cellBytes_of_lacksByte h]

/-- If only the second byte is lacking, both are asked for, and the position stays. -/
theorem readWord_of_lacksByte_low {n : Nat} {e : StreamError} (hroom : start + 2 ≤ addressSpace)
    (h : cells start = some (n : Int)) (hn : n < 256) (hlow : LacksByte cells (start + 1) e) :
    (memory cells).readWord start = ⟨.error e, start, [start, start + 1]⟩ := by
  rw [readWord_of_room hroom, cellBytes_of_holdsByte h hn, cellBytes_of_lacksByte hlow]
  rfl

/-- What reading a word finds: its bytes. -/
def FoundWord (cells : Int → Option Int) (start z stop : Int) : Prop :=
  stop = start + 2 ∧ ∃ w : Word, z = w.val ∧ HoldsWord cells start w

/-- A word is read in turn. -/
theorem readWord_inTurn (cells : Int → Option Int) (start : Int) :
    ((memory cells).readWord start).InTurn cells start (FoundWord cells start) := by
  have hnone := WholeWords.refl cells start
  have hone : Int.range start (start + 1) = [start] := range_succ_self start
  have htwo : Int.range start (start + 2) = [start, start + 1] := range_pair start
  have hbehind : start + 1 + 1 = start + 2 := by omega
  by_cases hend : addressSpace < start + 2
  · rw [readWord_of_no_room hend, ← range_self start]
    exact .atEnd hnone hend
  have hroom := Int.not_lt.mp hend
  rcases holdsByte_or_lacksByte cells start with hhigh | ⟨e, hlacks⟩
  · rcases holdsByte_or_lacksByte cells (start + 1) with hlow | ⟨e, hlacks⟩
    · obtain ⟨w, hw⟩ := exists_holdsWord hhigh hlow
      rw [readWord_of_holdsWord hroom hw, ← htwo]
      exact .found (.of_bytes hroom hhigh hlow) ⟨rfl, w, rfl, hw⟩
    · obtain ⟨z, hcell, hnonneg, hlt⟩ := id hhigh
      obtain ⟨n, rfl⟩ := Int.eq_ofNat_of_zero_le hnonneg
      rw [readWord_of_lacksByte_low hroom hcell (by omega) hlacks, ← htwo, ← hbehind]
      refine .atCell hnone hroom ⟨by omega, ?_, hlacks⟩ (by omega)
      intro earlier hle hlt'
      have hsame : earlier = start := by omega
      rw [hsame]
      exact hhigh
  · rw [readWord_of_lacksByte hroom hlacks, ← hone]
    refine .atCell hnone hroom ⟨Int.le_refl start, ?_, hlacks⟩ (by omega)
    intro earlier hle hlt
    omega

/-- By induction on the count, words are read in turn. -/
theorem readWords_inTurn (cells : Int → Option Int) (count : Nat) (start : Int) :
    ((memory cells).readWord.times count start).InTurn cells start fun words stop =>
      words.length = count ∧ stop = start + 2 * (count : Int) := by
  induction count generalizing start with
  | zero => exact .pure ⟨rfl, by omega⟩
  | succ count ih =>
      refine (readWord_inTurn cells start).bind fun z mid hword => ?_
      refine (ih mid).bind fun words stop hwords => ?_
      obtain ⟨rfl, -⟩ := hword
      obtain ⟨hlength, rfl⟩ := hwords
      exact .pure ⟨by rw [List.length_cons, hlength], by omega⟩

/-- What fetching finds: an instruction whose word lies at the start and whose operand words lie
behind it, up to where the reading ends. -/
structure FoundInstruction (cells : Int → Option Int) (table : Table) (start : Int)
    (i : Instruction) (stop : Int) : Prop where
  word : ∃ w, HoldsWord cells start w ∧ i.word = w.val ∧ i.definition = table.decode w
  length : i.length = 2 * (1 + i.definition.extraWords)
  stop : stop = start + i.length

/-- An instruction is read in turn. -/
theorem fetch_inTurn (cells : Int → Option Int) (table : Table) (start : Int) :
    ((memory cells).fetch table start).InTurn cells start
      (FoundInstruction cells table start) := by
  unfold fetch
  rw [Reading.position_bind]
  refine (readWord_inTurn cells start).bind fun z mid hword => ?_
  obtain ⟨rfl, w, rfl, hw⟩ := hword
  have hdecode : (decodeRead table w.val (start + 2)).InTurn cells (start + 2) fun d stop =>
      d = table.decode w ∧ stop = start + 2 := by
    have hpure : decodeRead table w.val (start + 2) =
        (pure (table.decode w) : Reading Definition) (start + 2) := decodeRead_val w _
    rw [hpure]
    exact .pure ⟨rfl, rfl⟩
  refine hdecode.bind fun d mid hd => ?_
  obtain ⟨rfl, rfl⟩ := hd
  refine (readWords_inTurn cells _ _).bind fun xWords mid hx => ?_
  obtain ⟨hxLength, rfl⟩ := hx
  refine (readWords_inTurn cells _ _).bind fun yWords stop hy => ?_
  obtain ⟨hyLength, rfl⟩ := hy
  have hlength : Instruction.length ⟨start, w.val, table.decode w, xWords, yWords⟩ =
      2 * (1 + (table.decode w).extraWords) := by
    rw [Instruction.length, hxLength, hyLength, Definition.extraWords, Nat.add_assoc]
  refine .pure ⟨⟨w, hw, rfl, rfl⟩, hlength, ?_⟩
  change _ = start + (Instruction.length ⟨start, w.val, table.decode w, xWords, yWords⟩ : Int)
  rw [hlength, Definition.extraWords]
  omega

/-! ## Runs -/

/-- Whether a step reads a word or the words of an instruction. -/
def Step.ReadsWords : Step → Prop
  | read => True
  | fetch => True
  | _ => False

/-- A step that reads words does so in turn. -/
theorem perform_inTurn {step : Step} (hstep : step.ReadsWords) (cells : Int → Option Int)
    (table : Table) (start : Int) :
    ((memory cells).perform table step start).InTurn cells start fun _ _ => True := by
  cases step with
  | read => exact (readWord_inTurn cells start).bind fun _ _ _ => .pure trivial
  | fetch => exact (fetch_inTurn cells table start).bind fun _ _ _ => .pure trivial
  | peek offset => cases hstep
  | seek target => cases hstep
  | unpack layout => cases hstep

/-- The position behind some attempts, the first of which began at `start`. -/
def behind (start : Int) (attempts : List (Attempt Outcome)) : Int :=
  (attempts.map Attempt.pos).getLastD start

/-- The position behind some attempts is that behind all but the first, which begin where it
ended. -/
theorem behind_cons (start : Int) (attempt : Attempt Outcome) (rest : List (Attempt Outcome)) :
    behind start (attempt :: rest) = behind attempt.pos rest := by
  rw [behind, List.map_cons, List.getLastD_cons, behind]

/-- As long as the steps of a run succeed, one asks for what comes behind what the one before asked
for. -/
theorem runUnder_inTurn {steps : List (Table × Step)}
    (hsteps : ∀ entry ∈ steps, entry.2.ReadsWords) {n : Nat}
    (hok : ∀ attempt ∈ ((memory cells).runUnder start steps).take n,
      ∃ outcome, attempt.result = .ok outcome) :
    start ≤ behind start (((memory cells).runUnder start steps).take n) ∧
      (((memory cells).runUnder start steps).take n).flatMap Attempt.asked =
        Int.range start (behind start (((memory cells).runUnder start steps).take n)) := by
  induction steps generalizing start n with
  | nil =>
      rw [runUnder, List.take_nil]
      exact ⟨Int.le_refl start, (range_self start).symm⟩
  | cons entry rest ih =>
      obtain ⟨table, step⟩ := entry
      obtain ⟨hstep, hrest⟩ := List.forall_mem_cons.mp hsteps
      cases n with
      | zero => exact ⟨Int.le_refl start, (range_self start).symm⟩
      | succ n =>
          rw [runUnder, List.take_succ_cons] at hok ⊢
          obtain ⟨⟨outcome, hfirst⟩, hlater⟩ := List.forall_mem_cons.mp hok
          obtain ⟨hle, hasked⟩ := ih hrest hlater
          rw [behind_cons, List.flatMap_cons, hasked]
          have hturn := perform_inTurn hstep cells table start
          have hhere := hturn.wholeWords.le
          rw [(hturn.of_ok hfirst).2]
          exact ⟨Int.le_trans hhere hle, range_append_range hhere hle⟩

/-- What a step that reads words of a memory from a position on asks for, and where it goes. -/
structure AsksInTurn (cells : Int → Option Int) (table : Table) (pos : Int) : Prop where
  /-- A fetch goes to the end of its instruction. -/
  advance : ∀ i, ((memory cells).fetch table pos).result = .ok i →
    ((memory cells).fetch table pos).pos = pos + i.length
  /-- Where no word fits into the address space, nothing is asked for. -/
  no_room : addressSpace < pos + 2 →
    (memory cells).readWord pos = ⟨.error .tooShort, pos, []⟩
  /-- Addresses are asked for in a row, from the position on. -/
  in_a_row : ∀ step : Step, step.ReadsWords →
    ∃ stop, ((memory cells).perform table step pos).asked = Int.range pos stop
  /-- No address behind the address space is asked for. -/
  below : ∀ step : Step, step.ReadsWords →
    ∀ address ∈ ((memory cells).perform table step pos).asked, address < addressSpace
  /-- An instruction that reaches beyond the address space is never fetched: the address space is
  too short for it, unless a cell before its end holds no byte. -/
  beyond : ∀ w, HoldsWord cells pos w →
    addressSpace < pos + 2 * (1 + (table.decode w).extraWords : Nat) →
    ∃ e, ((memory cells).fetch table pos).result = .error e ∧
      (e = .tooShort ∨ ∃ address, address < addressSpace ∧ LacksFirst cells pos address e)
  /-- A step for which the address space is too short has asked for all words that fit. -/
  at_end : ∀ step : Step, step.ReadsWords →
    ((memory cells).perform table step pos).result = .error .tooShort →
    addressSpace < ((memory cells).perform table step pos).pos + 2 ∧
      ((memory cells).perform table step pos).asked =
        Int.range pos ((memory cells).perform table step pos).pos
  /-- A step that fails at a cell has asked for what comes before the cell and for the cell, and is
  still at the word that the cell belongs to. -/
  at_cell : ∀ (step : Step) (e : StreamError), step.ReadsWords → e ≠ .tooShort →
    ((memory cells).perform table step pos).result = .error e →
    2 ∣ ((memory cells).perform table step pos).pos - pos ∧
      ∃ address, LacksFirst cells pos address e ∧
        ((memory cells).perform table step pos).asked = Int.range pos (address + 1) ∧
        ((memory cells).perform table step pos).pos ≤ address ∧
        address < ((memory cells).perform table step pos).pos + 2

/-- A memory asks for addresses in turn, from whatever position and with whatever table. -/
theorem asksInTurn (cells : Int → Option Int) (table : Table) (pos : Int) :
    AsksInTurn cells table pos where
  advance := by
    intro i hi
    exact ((fetch_inTurn cells table pos).of_ok hi).1.stop
  no_room := readWord_of_no_room
  in_a_row := fun step hstep => (perform_inTurn hstep cells table pos).exists_range
  below := fun step hstep address haddress =>
    (perform_inTurn hstep cells table pos).lt_addressSpace haddress
  beyond := by
    intro w hw hbeyond
    have hturn := fetch_inTurn cells table pos
    have hwords := hturn.wholeWords
    cases hresult : ((memory cells).fetch table pos).result with
    | ok i =>
        obtain ⟨⟨v, hv, -, hdefinition⟩, hlength, hstop⟩ := (hturn.of_ok hresult).1
        rw [hdefinition, hv.unique hw] at hlength
        -- The last byte of the instruction would be one of those that were read.
        have hlast := hwords.inside (((memory cells).fetch table pos).pos - 1) (by omega) (by omega)
        exact absurd hlast.1 (by omega)
    | error e =>
        refine ⟨e, rfl, ?_⟩
        by_cases hroom : e = .tooShort
        · exact Or.inl hroom
        · obtain ⟨address, hlacks, hasked, -⟩ := hturn.of_error hresult hroom
          have hmem : address ∈ ((memory cells).fetch table pos).asked := by
            rw [hasked]
            exact Int.mem_range_iff.mpr ⟨hlacks.le, by omega⟩
          exact Or.inr ⟨address, hturn.lt_addressSpace hmem, hlacks⟩
  at_end := fun step hstep herror => (perform_inTurn hstep cells table pos).of_tooShort herror
  at_cell := by
    intro step e hstep hroom herror
    have hturn := perform_inTurn hstep cells table pos
    exact ⟨hturn.wholeWords.whole, hturn.of_error herror hroom⟩

/-- **A memory is read in turn.**  As long as steps that read words succeed, they ask for the
addresses from the start to the position, for each of them once and in order; and every single
step asks in turn, wherever it begins and however it ends. -/
theorem memory_read_in_turn (cells : Int → Option Int) :
    (∀ (start : Int) (steps : List (Table × Step)) (n : Nat),
      (∀ entry ∈ steps, entry.2.ReadsWords) →
      (∀ attempt ∈ ((memory cells).runUnder start steps).take n,
        ∃ outcome, attempt.result = .ok outcome) →
      (((memory cells).runUnder start steps).take n).flatMap Attempt.asked =
        Int.range start (behind start (((memory cells).runUnder start steps).take n))) ∧
    ∀ (table : Table) (pos : Int), AsksInTurn cells table pos := by
  constructor
  · intro start steps n hsteps hok
    exact (runUnder_inTurn hsteps hok).2
  · exact asksInTurn cells

open Catalogs Table

/-- A memory that ends with an instruction word whose operand word would lie behind the end. -/
def lastCells : Int → Option Int :=
  image [0x12, 0x34] (addressSpace - 2)

/-- The last word of the address space can be read, but its instruction cannot be fetched. -/
theorem lastCells_read_in_turn :
    ∃ table, build pairCatalogs .empty = .ok table ∧
      (∀ entry ∈ [(table, Step.read)], entry.2.ReadsWords) ∧
      (∀ attempt ∈ ((memory lastCells).runUnder (addressSpace - 2) [(table, .read)]).take 1,
        ∃ outcome, attempt.result = .ok outcome) ∧
      (((memory lastCells).runUnder (addressSpace - 2) [(table, .read)]).take 1).flatMap
        Attempt.asked = Int.range (addressSpace - 2) addressSpace ∧
      HoldsWord lastCells (addressSpace - 2) 0x1234 ∧
      addressSpace < addressSpace - 2 + 2 * (1 + (table.decode 0x1234).extraWords : Nat) ∧
      ((memory lastCells).fetch table (addressSpace - 2)).result = .error .tooShort := by
  obtain ⟨table, hbuild, -, hlast⟩ :=
    exists_table validate_pairCatalogs (length_applied_pairCatalogs .empty)
  obtain ⟨hrun, hstep⟩ := memory_read_in_turn lastCells
  have hreads : ∀ entry ∈ [(table, Step.read)], entry.2.ReadsWords :=
    List.forall_mem_singleton.mpr trivial
  have hok : ∀ attempt ∈ ((memory lastCells).runUnder (addressSpace - 2) [(table, .read)]).take 1,
      ∃ outcome, attempt.result = .ok outcome :=
    List.forall_mem_singleton.mpr ⟨.number 0x1234, rfl⟩
  have hword : HoldsWord lastCells (addressSpace - 2) 0x1234 := ⟨rfl, rfl⟩
  have hbeyond :
      addressSpace < addressSpace - 2 + 2 * (1 + (table.decode 0x1234).extraWords : Nat) := by
    have hextra : (table.decode 0x1234).extraWords = 1 := by
      rw [((hlast 0x1234).unique lastClaim_pairCatalogs).2]
      rfl
    rw [hextra]
    omega
  refine ⟨table, hbuild, hreads, hok, hrun _ _ 1 hreads hok, hword, hbeyond, ?_⟩
  obtain ⟨e, herror, rfl | ⟨address, hlt, hlacks⟩⟩ := (hstep table _).beyond _ hword hbeyond
  · exact herror
  · have hle := hlacks.le
    obtain rfl | rfl : address = addressSpace - 2 ∨ address = addressSpace - 2 + 1 := by omega
    · exact absurd hlacks.lacks (hword.holdsByte_high.not_lacksByte e)
    · exact absurd hlacks.lacks (hword.holdsByte_low.not_lacksByte e)

end Source

end WordAtlas
